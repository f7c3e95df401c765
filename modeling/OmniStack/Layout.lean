import OmniStack.RoundTrip

/-! How the senders lay out a frame.

Each of the three takes its header's room from the headroom, notes where it is and
measures the window as it then stands. So the three regions lie next to each other and
end where the payload begins, the lengths in the headers are those of what follows
them, and nothing outside the headroom is written (`senders_layout`). -/
namespace OmniStack
open Lib
variable {σ : Type}

/-- Where a header's region ends. -/
def Header.stop (h : Header) : Nat := h.offset.toNat + h.length.toNat

/-- What `process` makes of the adapter's answer. -/
def IoNode.afterSend {α : Type} (node : IoNode α) (nic : Nat) :
    Result Unit × α × World σ → Exec (Result Unit × IoNode α × World σ)
  | (.error e, adapter, w) =>
    .ok (.error e, {node with adapters := node.adapters.set nic adapter}, w)
  | (.ok (), adapter, w) => do
    let node ← IoNode.noteFlush {node with adapters := node.adapters.set nic adapter} nic
    return (.error .dropped, node, w)

/-- Up to the adapter's `send` the address is written, and nothing else is done. -/
theorem IoNode.process_eq {α : Type} (ops : Adapter σ α) (ctx : Context) {node : IoNode α}
    {p : PacketId} {w : World σ} {mac : MacAddr} {a : α}
    (hmac : node.nicToMac[(w.pkts p).nic.toNat]? = some mac)
    (ha : node.adapters.items[(w.pkts p).nic.toNat]? = some a) :
    IoNode.process ops ctx node p w =
      ops.send a ctx p (IoNode.setSrc mac p w) >>= node.afterSend (w.pkts p).nic.toNat := by
  rw [IoNode.process, hmac, ha]
  simp only [getUnchecked, Exec.ok_bind]
  apply bind_congr
  intro sent
  obtain ⟨res, adapter, w'⟩ := sent
  cases res <;> rfl

/-- The packet with the three headers in front of its payload of `s` bytes at `o`. -/
structure LaidOut (w headed : World σ) (p : PacketId) (o s : Nat) : Prop where
  offset : (headed.pkts p).offset.toNat = o - 42
  len (checks : Bool) : ∃ n, (headed.pkts p).lenOf checks = .ok n ∧ n.toNat = s + 42
  /-- the regions, from the headroom's end on -/
  l2_start : (headed.pkts p).l2Header.offset.toNat = o - 42
  l2_stop : (headed.pkts p).l2Header.stop = (headed.pkts p).l3Header.offset.toNat
  l3_stop : (headed.pkts p).l3Header.stop = (headed.pkts p).l4Header.offset.toNat
  l4_stop : (headed.pkts p).l4Header.stop = o
  udp_len : (fromBe (UdpHeader.load (headed.bytes p)
    (headed.pkts p).l4Header.offset.toNat).len).toNat = s + 8
  ip_len : (Ipv4Header.load (headed.bytes p)
    (headed.pkts p).l3Header.offset.toNat).len.toNat = s + 28
  /-- the rest of the buffer, and every other one -/
  bytes : Bytes.SameOutside (o - 42) o (w.bytes p) (headed.bytes p)
  buffers : ∀ b, b ≠ (w.pkts p).data → headed.mem b = w.mem b

/-- The two worlds differ in six bytes of the packet's buffer at most. -/
structure SourceOnly (headed reached : World σ) (p : PacketId) (start : Nat) : Prop where
  rest : reached = {headed with mem := reached.mem}
  bytes : Bytes.SameOutside start (start + 6) (headed.bytes p) (reached.bytes p)
  buffers : ∀ b, b ≠ (headed.pkts p).data → reached.mem b = headed.mem b

theorem setSrc_only (mac : MacAddr) (p : PacketId) (w : World σ) :
    SourceOnly w (IoNode.setSrc mac p w) p ((w.pkts p).l2Header.offset.toNat + 6) where
  rest := rfl
  bytes := by
    rw [IoNode.setSrc, World.storeAt_bytes]
    intro i hi
    exact Bytes.write_outside (by rwa [MacAddr.toBytes_length])
  buffers b hb := if_neg hb

section Layout
variable {w : World σ} {p : PacketId}

/-- The headers are written into the headroom. -/
theorem Headroom.headed_outside (h : Headroom w p) (sender : Ipv4Sender) :
    Bytes.SameOutside ((w.pkts p).offset.toNat - 42) (w.pkts p).offset.toNat (w.bytes p)
      (headedBytes sender (w.pkts p) (w.bytes p)) := by
  have hroom := h.room
  obtain ⟨hudp, hip, heth⟩ := h.offsets sender
  rw [sentPkt] at heth
  simp only [headedBytes, hudp, hip, heth]
  apply Bytes.SameOutside.write _ (by omega) (by rw [EthHeader.toBytes_length]; omega)
  apply Bytes.SameOutside.write _ (by omega) (by rw [Ipv4Header.toBytes_length]; omega)
  apply Bytes.SameOutside.write _ (by omega) (by rw [UdpHeader.toBytes_length]; omega)
  exact fun _ _ => rfl

theorem Headroom.laidOut (h : Headroom w p) (sender : Ipv4Sender) {o s : Nat}
    (hoffset : (w.pkts p).offset.toNat = o) (hlen : (w.pkts p).len.toNat = o + s) :
    LaidOut w (w.put p (sentPkt sender (w.pkts p)) (headedBytes sender (w.pkts p) (w.bytes p)))
      p o s := by
  have hroom := h.room
  obtain ⟨hudp, hip, heth⟩ := h.offsets sender
  obtain ⟨hudpHeader, hipHeader⟩ := h.headed_headers sender
  have houtside := h.headed_outside sender
  have hbytes : (w.put p (sentPkt sender (w.pkts p))
      (headedBytes sender (w.pkts p) (w.bytes p))).bytes p =
        headedBytes sender (w.pkts p) (w.bytes p) := World.put_bytes w _ rfl
  rw [hoffset] at hroom hudp hip heth hudpHeader hipHeader houtside
  -- what a window that ends with the payload measures from a start before it
  have measured {start : UInt16} (n : Nat) (hn : n ≤ 42) (hstart : start.toNat = o - n) :
      ((w.pkts p).len - start).toNat = s + n := by
    rw [toNat_sub16 (by omega)]
    omega
  have hl4 : (sentPkt sender (w.pkts p)).l4Header.offset.toNat = o - 8 := hudp
  have hl3 : (sentPkt sender (w.pkts p)).l3Header.offset.toNat = o - 28 := hip
  have hl2 : (sentPkt sender (w.pkts p)).l2Header.offset.toNat = o - 42 := heth
  have hl4' : (sentPkt sender (w.pkts p)).l4Header.length.toNat = 8 := rfl
  have hl3' : (sentPkt sender (w.pkts p)).l3Header.length.toNat = 20 := rfl
  have hl2' : (sentPkt sender (w.pkts p)).l2Header.length.toNat = 14 := rfl
  refine ⟨?_, fun checks => ⟨(w.pkts p).len - (sentPkt sender (w.pkts p)).offset, ?_, ?_⟩,
    ?_, ?_, ?_, ?_, ?_, ?_, ?_, fun b hb => if_neg hb⟩
  · rw [World.put_pkts, heth]
  · rw [World.put_pkts]
    exact sub16_ok checks (by rw [heth]; show o - 42 ≤ (w.pkts p).len.toNat; omega)
  · exact measured 42 (by omega) heth
  · rw [World.put_pkts, hl2]
  · rw [World.put_pkts, Header.stop]
    omega
  · rw [World.put_pkts, Header.stop]
    omega
  · rw [World.put_pkts, Header.stop]
    omega
  · rw [World.put_pkts, hbytes, hl4, hudpHeader, UdpSender.header, fromBe_toBe]
    exact measured 8 (by omega) hudp
  · rw [World.put_pkts, hbytes, hl3, hipHeader, Ipv4Header.len, ipHeader, Ipv4Sender.header,
      fromBe_toBe]
    exact measured 28 (by omega) hip
  · rw [hbytes]
    exact houtside

/-- The three senders lay the packet out as its headroom and window ask. -/
theorem senders_layout {o s : Nat} (sender : Ipv4Sender) (hroom : 42 ≤ o)
    (hoffset : (w.pkts p).offset.toNat = o) (hlen : (w.pkts p).len.toNat = o + s) :
    ∃ headed : World σ, (∀ checks, senders checks sender p w = .ok (.ok (), headed)) ∧
      LaidOut w headed p o s ∧
      ∀ (α : Type) (ops : Adapter σ α) (ctx : Context) (node : IoNode α) (mac : MacAddr) (a : α),
        node.nicToMac[(headed.pkts p).nic.toNat]? = some mac →
        node.adapters.items[(headed.pkts p).nic.toNat]? = some a →
        ∃ reached, SourceOnly headed reached p (o - 36) ∧
          IoNode.process ops ctx node p headed =
            ops.send a ctx p reached >>= node.afterSend (headed.pkts p).nic.toNat := by
  have h : Headroom w p := ⟨by omega, by omega⟩
  refine ⟨_, fun checks => senders_eq checks sender h, ?_, ?_⟩
  · exact h.laidOut sender hoffset hlen
  · intro α ops ctx node mac a hmac ha
    refine ⟨IoNode.setSrc mac p _, ?_, IoNode.process_eq ops ctx hmac ha⟩
    have hstart : (sentPkt sender (w.pkts p)).l2Header.offset.toNat + 6 = o - 36 := by
      have := (h.offsets sender).2.2
      show (sentPkt sender (w.pkts p)).offset.toNat + 6 = o - 36
      omega
    have honly := setSrc_only mac p (w.put p (sentPkt sender (w.pkts p))
      (headedBytes sender (w.pkts p) (w.bytes p)))
    rw [World.put_pkts, hstart] at honly
    exact honly

end Layout

namespace Sample

/-- A node with one card. -/
def oneCard {α : Type} (mac : MacAddr) (card : α) : IoNode α where
  __ := (IoNode.new : IoNode α)
  adapters := .ofTake [card]
  nicToMac := Vector.replicate 16 mac

end Sample

theorem senders_layout_sample :
    ∃ headed : World Unit,
      (∀ checks, senders checks Ipv4Sender.new 0 Sample.fresh = .ok (.ok (), headed)) ∧
      LaidOut Sample.fresh headed 0 64 36 ∧
      ∀ (α : Type) (ops : Adapter Unit α) (ctx : Context) (mac : MacAddr) (card : α),
        ∃ reached, SourceOnly headed reached 0 28 ∧
          IoNode.process ops ctx (Sample.oneCard mac card) 0 headed =
            ops.send card ctx 0 reached >>= (Sample.oneCard mac card).afterSend 0 := by
  obtain ⟨headed, hsends, hlaid, hprocess⟩ :=
    senders_layout (w := Sample.fresh) (p := 0) Ipv4Sender.new (o := 64) (s := 36) (by omega) rfl
      rfl
  have hnic : (headed.pkts 0).nic = 0 := by
    have hsent : (senders true Ipv4Sender.new 0 Sample.fresh).map (fun out => (out.2.pkts 0).nic) =
        .ok 0 := rfl
    rw [hsends true] at hsent
    exact Except.ok.inj hsent
  refine ⟨headed, hsends, hlaid, fun α ops ctx mac card => ?_⟩
  have hsource := hprocess α ops ctx (Sample.oneCard mac card) mac card
  rw [hnic] at hsource
  exact hsource rfl rfl

end OmniStack
