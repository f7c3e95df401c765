import OmniStack.FlushQueue
import OmniStack.RoundTrip

/-! What of a recycled buffer goes out with a frame.

A buffer comes back from the pool with the bytes of its last use. The senders write
their headers over them, the IO node and the adapter write the source address and the
checksum, and every byte of the 42 is set to a value that does not depend on the old one,
but for the first of the IPv4 header, into which version and length are merged. -/
namespace OmniStack
open Lib
variable {σ : Type} {sys : Sys σ} {checks : Bool}

/-- The senders, the IO node and its adapter. -/
def transmit (sys : Sys σ) (checks : Bool) (sender : Ipv4Sender) (ctx : Context)
    (node : IoNode Dpdk) (p : PacketId) (w : World σ) :
    Exec (Result Unit × IoNode Dpdk × World σ) := do
  match ← senders checks sender p w with
  | (.error e, w) => return (.error e, node, w)
  | (.ok (), w) => IoNode.process (Dpdk.adapter sys checks) ctx node p w

/-- A packet's bytes from `offset` to `len`: its payload, and the frame once it is sent. -/
def World.window (w : World σ) (p : PacketId) : List UInt8 := (w.pkts p).window (w.bytes p)

/-- A packet with room for its headers has been transmitted. The data room of the mbuf it
was given is not the packet's buffer. -/
structure Transmitted (sys : Sys σ) (checks : Bool) (sender : Ipv4Sender) (node : IoNode Dpdk)
    (p : PacketId) (w w' : World σ) : Prop where
  headroom : Headroom w p
  apart : ∀ a m, node.adapters.items[sender.nic.toNat]? = some a →
    a.txBufs[a.txIdx]? = some m → (w.mbufs m).bufAddr.1 ≠ (w.pkts p).data
  sends : ∃ ctx res node', transmit sys checks sender ctx node p w = .ok (res, node', w')

/-! ### The frame -/

def udpHeader (pkt : Packet) (chksum : UInt16) : UdpHeader :=
  {UdpSender.header (fun _ => 0) (UdpSender.pushed pkt) with chksum}

/-- The frame, byte for byte. -/
def frameOf (sender : Ipv4Sender) (mac : MacAddr) (pkt : Packet) (stale : UInt8)
    (chksum : UInt16) (payload : List UInt8) : List UInt8 :=
  EthSender.dst.toBytes ++ mac.toBytes ++ Bytes.le16 EtherType.ipv4 ++
    (ipHeader sender pkt stale).toBytes ++ (udpHeader pkt chksum).toBytes ++ payload

/-- What a call that sends has done: looked up the address and the adapter, and sent. -/
theorem IoNode.process_sends {α : Type} {ops : Adapter σ α} {ctx : Context}
    {node node' : IoNode α} {p : PacketId} {w w' : World σ} {res : Result Unit}
    (h : IoNode.process ops ctx node p w = .ok (res, node', w')) :
    ∃ mac a res₁ a₁, node.nicToMac[(w.pkts p).nic.toNat]? = some mac ∧
      node.adapters.items[(w.pkts p).nic.toNat]? = some a ∧
      ops.send a ctx p (IoNode.setSrc mac p w) = .ok (res₁, a₁, w') := by
  simp only [IoNode.process, Exec.bind_eq_ok, getUnchecked_eq_ok] at h
  obtain ⟨mac, hmac, a, ha, ⟨res₁, a₁, w₁⟩, hsend, h⟩ := h
  cases res₁ with
  | error e =>
    simp only [Exec.pure_eq_ok, Prod.mk.injEq] at h
    obtain ⟨_, _, rfl⟩ := h
    exact ⟨mac, a, _, a₁, hmac, ha, hsend⟩
  | ok _ =>
    simp only [Exec.bind_eq_ok, Exec.pure_eq_ok, Prod.mk.injEq] at h
    obtain ⟨_, _, _, _, rfl⟩ := h
    exact ⟨mac, a, _, a₁, hmac, ha, hsend⟩

/-- Three headers, an address within the first and the last one again: what is read of them
and of what lies behind them. -/
theorem headers_read (m : Bytes) {o n : Nat} (ho : 42 ≤ o) {udp ip eth mac udp' : List UInt8}
    (hudp : udp.length = 8) (hip : ip.length = 20) (heth : eth.length = 14) (hmac : mac.length = 6)
    (hudp' : udp'.length = 8) :
    (((((m.write (o - 8) udp).write (o - 28) ip).write (o - 42) eth).write (o - 42 + 6) mac).write
      (o - 8) udp').read (o - 42) (42 + n) =
      eth.take 6 ++ mac ++ (eth.drop 12).take 2 ++ ip ++ udp' ++ m.read o n := by
  have hsplit (m : Bytes) : m.read (o - 42) (42 + n) =
      m.read (o - 42) 6 ++ m.read (o - 42 + 6) 6 ++ m.read (o - 42 + 12) 2 ++ m.read (o - 28) 20 ++
        m.read (o - 8) 8 ++ m.read o n := by
    have hn : 42 + n = 6 + (6 + (2 + (20 + (8 + n)))) := by omega
    have hip : o - 42 + 14 = o - 28 := by omega
    have hudp : o - 28 + 20 = o - 8 := by omega
    have hpayload : o - 8 + 8 = o := by omega
    simp only [hn, Bytes.read_append, Nat.add_assoc, Nat.reduceAdd, hip, hudp, hpayload,
      List.append_assoc]
  rw [hsplit]
  congr 1; congr 1; congr 1; congr 1; congr 1
  · rw [Bytes.read_write_outside (by omega), Bytes.read_write_outside (by omega)]
    exact Bytes.read_write_part _ _ (a := 0) (by omega)
  · rw [Bytes.read_write_outside (by omega), ← hmac, Bytes.read_write]
  · rw [Bytes.read_write_outside (by omega), Bytes.read_write_outside (by omega),
      Bytes.read_write_part _ _ (by omega)]
  · rw [Bytes.read_write_outside (by omega), Bytes.read_write_outside (by omega),
      Bytes.read_write_outside (by omega), ← hip, Bytes.read_write]
  · rw [← hudp', Bytes.read_write]
  · rw [Bytes.read_write_outside (by omega), Bytes.read_write_outside (by omega),
      Bytes.read_write_outside (by omega), Bytes.read_write_outside (by omega),
      Bytes.read_write_outside (by omega)]

/-- **The frame of a packet transmitted**: of the buffer's old content, one byte. -/
theorem Transmitted.frame_eq {sender : Ipv4Sender} {node : IoNode Dpdk} {p : PacketId}
    {w w' : World σ} (h : Transmitted sys checks sender node p w w') :
    ∃ mac flags, node.nicToMac[sender.nic.toNat]? = some mac ∧
      w'.window p = frameOf sender mac (w.pkts p) (staleByte w p)
        (sys.ipv4PhdrCksum (ipHeader sender (w.pkts p) (staleByte w p)) flags) (w.window p) := by
  obtain ⟨ctx, res, node', hsends⟩ := h.sends
  have hroom := h.headroom.room
  have hwindow := h.headroom.window
  obtain ⟨headed, hsenders, hpkt, hbytes, hmbufs⟩ := senders_spec checks sender h.headroom
  obtain ⟨hudp, hip, heth⟩ := h.headroom.offsets sender
  rw [transmit, hsenders] at hsends
  obtain ⟨mac, a, res₁, a₁, hmac, ha, hsend⟩ := IoNode.process_sends hsends
  have hnic : (headed.pkts p).nic = sender.nic := by rw [hpkt]; rfl
  rw [hnic] at hmac ha
  have hsrc : (IoNode.setSrc mac p headed).bytes p =
      sentBytes sender mac (w.pkts p) (w.bytes p) := by
    rw [IoNode.setSrc, World.storeAt_bytes, hbytes, hpkt]
    rfl
  have hpkt' : (IoNode.setSrc mac p headed).pkts p = sentPkt sender (w.pkts p) := hpkt
  obtain ⟨flags, hoffset, hlen, hsent⟩ := Dpdk.send_window (fun m hslot => by
    rw [hpkt']
    exact hmbufs ▸ h.apart a m ha hslot) hsend
  rw [hpkt', hsrc] at hsent
  rw [hpkt'] at hoffset hlen
  have hl4 : (sentPkt sender (w.pkts p)).l4Header.offset.toNat = (w.pkts p).offset.toNat - 8 := hudp
  have hl3 : (sentPkt sender (w.pkts p)).l3Header.offset.toNat = (w.pkts p).offset.toNat - 28 := hip
  obtain ⟨hload4, hload3⟩ := h.headroom.sent_headers sender mac
  rw [hl4, hl3, hload4, hload3] at hsent
  rw [sentPkt] at heth
  have hwidth : (w.pkts p).len.toNat - ((w.pkts p).offset.toNat - 42) =
      42 + ((w.pkts p).len.toNat - (w.pkts p).offset.toNat) := by omega
  refine ⟨mac, flags, hmac, ?_⟩
  rw [World.window, Packet.window, hoffset, hlen, hsent]
  simp only [sentBytes, sentPkt, hudp, hip, heth]
  rw [show (EthSender.pushed (sender.pushed (UdpSender.pushed (w.pkts p)))).len =
    (w.pkts p).len from rfl, hwidth, headers_read _ hroom (UdpHeader.toBytes_length _)
    (Ipv4Header.toBytes_length _) (EthHeader.toBytes_length _) mac.toBytes_length
    (UdpHeader.toBytes_length _), EthHeader.toBytes_take, EthHeader.toBytes_drop,
    h.headroom.header_eq]
  rfl

/-- The byte that version and length are merged into. -/
def mergedByte (stale : UInt8) : UInt8 := stale ||| 4 ||| 0x50

/-- The merged byte can be read off a frame. -/
theorem frameOf_mergedByte {sender : Ipv4Sender} {mac mac₂ : MacAddr} {pkt pkt₂ : Packet}
    {stale stale₂ : UInt8} {chksum chksum₂ : UInt16} {payload payload₂ : List UInt8}
    (h : frameOf sender mac pkt stale chksum payload =
      frameOf sender mac₂ pkt₂ stale₂ chksum₂ payload₂) :
    mergedByte stale = mergedByte stale₂ := by
  have hdrop (mac : MacAddr) (pkt : Packet) (stale : UInt8) (chksum : UInt16)
      (payload : List UInt8) : (frameOf sender mac pkt stale chksum payload).drop 14 =
      (ipHeader sender pkt stale).toBytes ++ ((udpHeader pkt chksum).toBytes ++ payload) := by
    rw [frameOf, List.append_assoc, List.append_assoc]
    exact List.drop_left' (by simp [Bytes.le16])
  have hrest := congrArg (List.drop 14) h
  rw [hdrop, hdrop] at hrest
  exact congrArg (List.headD · 0) hrest

/-- **Exactly one byte shows through.** Two packets of one payload go out as the same frame
if and only if version and length, merged into the byte either buffer held where its IPv4
header begins, make the same byte. -/
theorem same_frame_iff (hcksum : ∀ header flags flags', sys.ipv4PhdrCksum header flags =
      sys.ipv4PhdrCksum header flags')
    {sender : Ipv4Sender} {node node₂ : IoNode Dpdk} {p p₂ : PacketId} {w w' w₂ w₂' : World σ}
    (h : Transmitted sys checks sender node p w w')
    (h₂ : Transmitted sys checks sender node₂ p₂ w₂ w₂') (hmacs : node.nicToMac = node₂.nicToMac)
    (hoffset : (w.pkts p).offset = (w₂.pkts p₂).offset)
    (hlen : (w.pkts p).len = (w₂.pkts p₂).len) (hpayload : w.window p = w₂.window p₂) :
    w'.window p = w₂'.window p₂ ↔
      mergedByte (staleByte w p) = mergedByte (staleByte w₂ p₂) := by
  obtain ⟨mac, flags, hmac, hframe⟩ := h.frame_eq
  obtain ⟨mac₂, flags₂, hmac₂, hframe₂⟩ := h₂.frame_eq
  obtain rfl : mac = mac₂ := by
    rw [hmacs, hmac₂] at hmac
    exact (Option.some.inj hmac).symm
  have hheader (stale : UInt8) :
      ipHeader sender (w.pkts p) stale = ipHeader sender (w₂.pkts p₂) stale := by
    simp only [ipHeader, Ipv4Sender.header, Ipv4Sender.pushed, UdpSender.pushed, hoffset, hlen]
  have hudp (chksum : UInt16) : udpHeader (w.pkts p) chksum = udpHeader (w₂.pkts p₂) chksum := by
    simp only [udpHeader, UdpSender.header, UdpSender.pushed, hoffset, hlen]
  rw [hframe, hframe₂]
  constructor
  · exact frameOf_mergedByte
  · intro hmerged
    rw [hpayload, hcksum _ flags 0, hcksum _ flags₂ 0]
    simp only [frameOf, hheader, hudp]
    have hsame : ipHeader sender (w₂.pkts p₂) (staleByte w p) =
        ipHeader sender (w₂.pkts p₂) (staleByte w₂ p₂) := by
      simp only [ipHeader, Ipv4Sender.header]
      rw [← mergedByte, ← mergedByte, hmerged]
    rw [hsame]

namespace Sample

/-- The user node's packet in a buffer with `stale` where the IPv4 header will begin. -/
def recycled (stale : UInt8) : World Unit :=
  {fresh with mem := fun _ i => if i = 36 then stale else 0}

/-- An IO node with one adapter, its mbufs allocated. -/
def node : IoNode Dpdk :=
  {(IoNode.new : IoNode Dpdk) with adapters := .ofTake [{Dpdk.new with txBufs := .ofFn Fin.val}]}

def transmitted (stale : UInt8) : Exec (Result Unit × IoNode Dpdk × World Unit) :=
  transmit IoNode.Sample.card true Ipv4Sender.new thread node 0 (recycled stale)

theorem recycled_transmitted (stale : UInt8) (h : (transmitted stale).toBool = true) : ∃ w',
    Transmitted IoNode.Sample.card true Ipv4Sender.new node 0 (recycled stale) w' := by
  rcases hrun : transmitted stale with e | ⟨res, node', w'⟩
  · rw [hrun] at h
    cases h
  · refine ⟨w', ⟨?_, ?_⟩, fun a m _ _ => ?_, thread, res, node', hrun⟩
    · exact (by decide : 42 ≤ (64 : UInt16).toNat)
    · exact (by decide : (64 : UInt16).toNat ≤ (100 : UInt16).toNat)
    · exact Buffer.noConfusion

end Sample

/-- A buffer that held the bits of 0x54 already sends the frame of a fresh one. -/
theorem same_frame_iff_sample : ∃ w w₂ : World Unit,
    Transmitted IoNode.Sample.card true Ipv4Sender.new Sample.node 0 (Sample.recycled 0) w ∧
      Transmitted IoNode.Sample.card true Ipv4Sender.new Sample.node 0 (Sample.recycled 0x54) w₂ ∧
      w.window 0 = w₂.window 0 := by
  obtain ⟨w, h⟩ := Sample.recycled_transmitted 0 rfl
  obtain ⟨w₂, h₂⟩ := Sample.recycled_transmitted 0x54 rfl
  exact ⟨w, w₂, h, h₂, (same_frame_iff (fun _ _ _ => rfl) h h₂ rfl rfl rfl rfl).mpr rfl⟩

/-- **A byte shows through**: the same payload from a buffer that held 0xff there goes out as
another frame. -/
theorem stale_byte_shows : ∃ w w₂ : World Unit,
    Transmitted IoNode.Sample.card true Ipv4Sender.new Sample.node 0 (Sample.recycled 0) w ∧
      Transmitted IoNode.Sample.card true Ipv4Sender.new Sample.node 0 (Sample.recycled 0xff) w₂ ∧
      (Sample.recycled 0).window 0 = (Sample.recycled 0xff).window 0 ∧
      w.window 0 ≠ w₂.window 0 := by
  obtain ⟨w, h⟩ := Sample.recycled_transmitted 0 rfl
  obtain ⟨w₂, h₂⟩ := Sample.recycled_transmitted 0xff rfl
  refine ⟨w, w₂, h, h₂, rfl, fun hsame => ?_⟩
  obtain ⟨mac, flags, _, hframe⟩ := h.frame_eq
  obtain ⟨mac₂, flags₂, _, hframe₂⟩ := h₂.frame_eq
  rw [hframe, hframe₂] at hsame
  exact absurd (frameOf_mergedByte hsame) (by decide)

end OmniStack
