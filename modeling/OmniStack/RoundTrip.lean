import OmniStack.Nio
import OmniStack.Receive

/-! A payload sent and received again.

The senders put their headers in front of the payload, the IO node its address into the
frame, and the receivers take the headers off. `Ipv4Sender` writes the first byte of its
header over the buffer's old one by two disjunctions, and each puts its number into the
other's half of the byte: no frame it sends says version 4, and the header length it
says is right only where the old byte makes up for it. -/
namespace OmniStack
open Lib
variable {σ τ : Type}

/-- `UdpSender`, `Ipv4Sender`, `EthSender` in a row and the source address of the card. -/
def send (checks : Bool) (sender : Ipv4Sender) (mac : MacAddr) (p : PacketId) (w : World σ) :
    Exec (Result Unit × World σ) :=
  andThen (UdpSender.process checks p w) fun w =>
    andThen (sender.process checks p w) fun w =>
      andThen (EthSender.process checks p w) fun w => .ok (.ok (), IoNode.setSrc mac p w)

/-- `UdpSender`, `Ipv4Sender` and `EthSender` in a row. -/
def senders (checks : Bool) (sender : Ipv4Sender) (p : PacketId) (w : World σ) :
    Exec (Result Unit × World σ) :=
  andThen (UdpSender.process checks p w) fun w =>
    andThen (sender.process checks p w) fun w => EthSender.process checks p w

theorem send_eq (checks : Bool) (sender : Ipv4Sender) (mac : MacAddr) (p : PacketId)
    (w : World σ) : send checks sender mac p w =
      andThen (senders checks sender p w) fun w => .ok (.ok (), IoNode.setSrc mac p w) := by
  simp only [send, senders, andThen_assoc]

/-- Room for the three headers in front of a window. -/
structure Headroom (w : World σ) (p : PacketId) : Prop where
  room : 42 ≤ (w.pkts p).offset.toNat
  window : (w.pkts p).offset.toNat ≤ (w.pkts p).len.toNat

/-- A payload of `s` bytes at the offset the user node gives it. -/
structure Prepared (w : World σ) (p : PacketId) (s : Nat) : Prop where
  offset : (w.pkts p).offset = defaultOffset
  len : (w.pkts p).len.toNat = 64 + s
  size : s ≤ 1472

theorem Prepared.headroom {w : World σ} {p : PacketId} {s : Nat} (h : Prepared w p s) :
    Headroom w p := by
  have hoffset : (w.pkts p).offset.toNat = 64 := by rw [h.offset]; rfl
  exact ⟨by omega, by rw [h.len]; omega⟩

/-- Where in a frame the card may put checksums. -/
def checksums : List Nat := [24, 25, 40, 41]

/-- Packet `q` holds, at offset `o`, the frame sent from packet `p`, apart from checksums. -/
structure Presented (sent : World σ) (p : PacketId) (arrived : World τ) (q : PacketId) (o : Nat) :
    Prop where
  offset : (arrived.pkts q).offset.toNat = o
  len : (arrived.pkts q).len.toNat =
    o + ((sent.pkts p).len.toNat - (sent.pkts p).offset.toNat)
  bytes : ∀ k < (sent.pkts p).len.toNat - (sent.pkts p).offset.toNat, k ∉ checksums →
    arrived.bytes q (o + k) = sent.bytes p ((sent.pkts p).offset.toNat + k)
  counted : 1 ≤ (arrived.pkts q).refcnt

/-- The receivers hand on exactly `payload`. -/
def Delivers (checks : Bool) (ctx : Context) (q : PacketId) (arrived : World τ)
    (payload : List UInt8) : Prop :=
  ∃ w', receive checks ctx q arrived = .ok (.ok (), w') ∧
    (w'.pkts q).offset.toNat ≤ (w'.pkts q).len.toNat ∧
    (w'.pkts q).window (w'.bytes q) = payload

/-- The payload is delivered, and the header read back is the one that was to be written. -/
structure RoundTrip (checks : Bool) (ctx : Context) (q : PacketId) (arrived : World τ) (o : Nat)
    (payload : List UInt8) : Prop where
  delivers : Delivers checks ctx q arrived payload
  version : (ipv4Of (arrived.bytes q) o).version = 4
  ihl : (ipv4Of (arrived.bytes q) o).ihl.toNat * 4 = Ipv4Header.size.toNat

/-! ### The frame sent -/

section Sending
variable {w : World σ} {p : PacketId} {s : Nat} {sender : Ipv4Sender} {mac : MacAddr}

/-- The packet with the three headers in its window. -/
def sentPkt (sender : Ipv4Sender) (pkt : Packet) : Packet :=
  EthSender.pushed (sender.pushed (UdpSender.pushed pkt))

/-- The buffer with the three headers. -/
def headedBytes (sender : Ipv4Sender) (pkt : Packet) (m : Bytes) : Bytes :=
  let udp := UdpSender.pushed pkt
  let ip := sender.pushed udp
  let eth := EthSender.pushed ip
  let m := m.write udp.offset.toNat (UdpSender.header m udp).toBytes
  let m := m.write ip.offset.toNat (Ipv4Sender.header m ip).toBytes
  m.write eth.offset.toNat (EthSender.header m eth).toBytes

/-- The buffer with the three headers and the source address. -/
def sentBytes (sender : Ipv4Sender) (mac : MacAddr) (pkt : Packet) (m : Bytes) : Bytes :=
  let udp := UdpSender.pushed pkt
  let ip := sender.pushed udp
  let eth := EthSender.pushed ip
  let m := m.write udp.offset.toNat (UdpSender.header m udp).toBytes
  let m := m.write ip.offset.toNat (Ipv4Sender.header m ip).toBytes
  let m := m.write eth.offset.toNat (EthSender.header m eth).toBytes
  m.write (eth.offset.toNat + 6) mac.toBytes

/-- The world in which the packet has these fields and its buffer these bytes. -/
def World.put (w : World σ) (p : PacketId) (pkt : Packet) (m : Bytes) : World σ :=
  (w.setPkt p pkt).setMem (w.pkts p).data m

theorem World.put_pkts (w : World σ) (p : PacketId) (pkt : Packet) (m : Bytes) :
    (w.put p pkt m).pkts p = pkt := World.setPkt_pkts_same w p pkt

theorem World.put_bytes (w : World σ) {p : PacketId} {pkt : Packet} (m : Bytes)
    (h : pkt.data = (w.pkts p).data) : (w.put p pkt m).bytes p = m := by
  rw [World.bytes, World.put_pkts, h]
  exact World.setMem_mem_same _ _ _

/-- Changing a packet's fields and writing to its buffer. -/
theorem World.setPkt_storeAt (w : World σ) {p : PacketId} (pkt : Packet)
    (h : pkt.data = (w.pkts p).data) (off : Nat) (l : List UInt8) :
    (w.setPkt p pkt).storeAt p off l = w.put p pkt ((w.bytes p).write off l) := by
  rw [World.storeAt, World.setPkt_bytes w h, World.setPkt_pkts_same, h, World.put]

/-- The last of two changes stays. -/
theorem World.put_put (w : World σ) {p : PacketId} {pkt : Packet} (pkt' : Packet) (m m' : Bytes)
    (h : pkt.data = (w.pkts p).data) : (w.put p pkt m).put p pkt' m' = w.put p pkt' m' := by
  have hpkts : ((w.put p pkt m).put p pkt' m').pkts = (w.put p pkt' m').pkts := by
    funext q
    by_cases hq : q = p
    · subst hq
      rw [World.put_pkts, World.put_pkts]
    · exact (World.setPkt_pkts_ne _ _ hq).trans
        ((World.setPkt_pkts_ne w pkt hq).trans (World.setPkt_pkts_ne w pkt' hq).symm)
  have hmem : ((w.put p pkt m).put p pkt' m').mem = (w.put p pkt' m').mem := by
    funext b
    simp only [World.put, World.setMem, World.setPkt, if_pos, h]
    split <;> rfl
  exact World.mk.injEq .. ▸ ⟨hpkts, hmem, rfl, rfl, rfl, rfl, rfl, rfl, rfl⟩

/-- Where the three headers begin. -/
theorem Headroom.offsets (h : Headroom w p) (sender : Ipv4Sender) :
    (UdpSender.pushed (w.pkts p)).offset.toNat = (w.pkts p).offset.toNat - 8 ∧
      (sender.pushed (UdpSender.pushed (w.pkts p))).offset.toNat = (w.pkts p).offset.toNat - 28 ∧
      (sentPkt sender (w.pkts p)).offset.toNat = (w.pkts p).offset.toNat - 42 := by
  have hroom := h.room
  have hudp := toNat_sub16 (a := (w.pkts p).offset) (b := UdpHeader.size)
    (by simp only [UdpHeader.size, UInt16.reduceToNat]; omega)
  have hip := toNat_sub16 (a := (w.pkts p).offset - UdpHeader.size) (b := Ipv4Header.size)
    (by rw [hudp]; simp only [UdpHeader.size, Ipv4Header.size, UInt16.reduceToNat]; omega)
  have heth := toNat_sub16 (a := (w.pkts p).offset - UdpHeader.size - Ipv4Header.size)
    (b := EthHeader.size) (by
      rw [hip, hudp]
      simp only [UdpHeader.size, Ipv4Header.size, EthHeader.size, UInt16.reduceToNat]
      omega)
  refine ⟨hudp, ?_, ?_⟩
  · simp only [Ipv4Sender.pushed, UdpSender.pushed]
    rw [hip, hudp]
    simp only [UdpHeader.size, Ipv4Header.size, UInt16.reduceToNat]
    omega
  · simp only [sentPkt, EthSender.pushed, Ipv4Sender.pushed, UdpSender.pushed]
    rw [heth, hip, hudp]
    simp only [UdpHeader.size, Ipv4Header.size, EthHeader.size, UInt16.reduceToNat]
    omega

theorem sentPkt_fields (sender : Ipv4Sender) (h : Prepared w p s) :
    (UdpSender.pushed (w.pkts p)).offset.toNat = 56 ∧
      (sender.pushed (UdpSender.pushed (w.pkts p))).offset.toNat = 36 ∧
      (sentPkt sender (w.pkts p)).offset.toNat = 22 := by
  have hoffset : (w.pkts p).offset.toNat = 64 := by rw [h.offset]; rfl
  have hoffsets := h.headroom.offsets sender
  rwa [hoffset] at hoffsets

theorem Ipv4Sender.process_put (checks : Bool) (w : World σ) {p : PacketId} (pkt : Packet)
    (m : Bytes) (hdata : pkt.data = (w.pkts p).data) (hroom : 20 ≤ pkt.offset.toNat)
    (hlen : pkt.offset.toNat - 20 ≤ pkt.len.toNat) :
    sender.process checks p (w.put p pkt m) = .ok (.ok (), w.put p (sender.pushed pkt)
      (m.write (sender.pushed pkt).offset.toNat
        (Ipv4Sender.header m (sender.pushed pkt)).toBytes)) := by
  have hpkt : (w.put p pkt m).pkts p = pkt := World.put_pkts w p pkt m
  rw [sender.process_eq checks (by rwa [hpkt]) (by rwa [hpkt]),
    World.setPkt_storeAt _ (sender.pushed _) rfl, World.put_bytes w m hdata, hpkt,
    World.put_put w _ _ _ hdata]

theorem EthSender.process_put (checks : Bool) (w : World σ) {p : PacketId} (pkt : Packet)
    (m : Bytes) (hdata : pkt.data = (w.pkts p).data) (hroom : 14 ≤ pkt.offset.toNat) :
    EthSender.process checks p (w.put p pkt m) = .ok (.ok (), w.put p (EthSender.pushed pkt)
      (m.write (EthSender.pushed pkt).offset.toNat
        (EthSender.header m (EthSender.pushed pkt)).toBytes)) := by
  have hpkt : (w.put p pkt m).pkts p = pkt := World.put_pkts w p pkt m
  rw [EthSender.process_eq checks (by rwa [hpkt]),
    World.setPkt_storeAt _ (EthSender.pushed _) rfl, World.put_bytes w m hdata, hpkt,
    World.put_put w _ _ _ hdata]

/-- The three senders go through where there is room for their headers, in either build. -/
theorem senders_eq (checks : Bool) (sender : Ipv4Sender) (h : Headroom w p) :
    senders checks sender p w = .ok (.ok (),
      w.put p (sentPkt sender (w.pkts p)) (headedBytes sender (w.pkts p) (w.bytes p))) := by
  have hroom := h.room
  have hlen : (UdpSender.pushed (w.pkts p)).offset.toNat ≤
      (UdpSender.pushed (w.pkts p)).len.toNat := by
    rw [(h.offsets sender).1]
    exact Nat.le_trans (Nat.sub_le _ 8) h.window
  obtain ⟨hudp, hip, _⟩ := h.offsets sender
  rw [senders, UdpSender.process_eq checks (by omega) (by have := h.window; omega), andThen_ok,
    World.setPkt_storeAt w (UdpSender.pushed _) rfl,
    Ipv4Sender.process_put checks w (UdpSender.pushed _) _ rfl (by omega) (by omega), andThen_ok,
    EthSender.process_put checks w (sender.pushed (UdpSender.pushed _)) _ rfl (by omega)]
  rfl

theorem senders_spec (checks : Bool) (sender : Ipv4Sender) (h : Headroom w p) :
    ∃ headed, senders checks sender p w = .ok (.ok (), headed) ∧
      headed.pkts p = sentPkt sender (w.pkts p) ∧
      headed.bytes p = headedBytes sender (w.pkts p) (w.bytes p) ∧ headed.mbufs = w.mbufs :=
  ⟨_, senders_eq checks sender h, World.put_pkts .., World.put_bytes w _ rfl, rfl⟩

/-- Sending is the senders and the card's address. -/
theorem send_spec (checks : Bool) (sender : Ipv4Sender) (mac : MacAddr) (h : Headroom w p) :
    ∃ sent, send checks sender mac p w = .ok (.ok (), sent) ∧
      sent.pkts p = sentPkt sender (w.pkts p) ∧
      sent.bytes p = sentBytes sender mac (w.pkts p) (w.bytes p) := by
  obtain ⟨headed, hsenders, hpkt, hbytes, _⟩ := senders_spec checks sender h
  refine ⟨IoNode.setSrc mac p headed, ?_, hpkt, ?_⟩
  · rw [send_eq, hsenders, andThen_ok]
  · rw [IoNode.setSrc, World.storeAt_bytes, hbytes, hpkt]
    rfl

/-- The byte of the buffer where the IPv4 header will begin. -/
def staleByte (w : World σ) (p : PacketId) : UInt8 :=
  w.bytes p ((w.pkts p).offset.toNat - 28)

/-- The IPv4 header of a packet sent from a buffer that held `stale` where it begins. -/
def ipHeader (sender : Ipv4Sender) (pkt : Packet) (stale : UInt8) : Ipv4Header :=
  Ipv4Sender.header (fun _ => stale) (sender.pushed (UdpSender.pushed pkt))

/-- The UDP header does not reach where the IPv4 header will begin. -/
theorem Headroom.header_eq (h : Headroom w p) (sender : Ipv4Sender) (udp : List UInt8) :
    Ipv4Sender.header ((w.bytes p).write ((w.pkts p).offset.toNat - 8) udp)
      (sender.pushed (UdpSender.pushed (w.pkts p))) =
      ipHeader sender (w.pkts p) (staleByte w p) := by
  have hroom := h.room
  simp only [ipHeader, Ipv4Sender.header, (h.offsets sender).2.1, staleByte]
  rw [Bytes.write_outside (.inl (by omega))]

/-- The headers in the buffer are those written, over what it held. -/
theorem Headroom.headed_headers (h : Headroom w p) (sender : Ipv4Sender) :
    UdpHeader.load (headedBytes sender (w.pkts p) (w.bytes p)) ((w.pkts p).offset.toNat - 8) =
      UdpSender.header (w.bytes p) (UdpSender.pushed (w.pkts p)) ∧
    Ipv4Header.load (headedBytes sender (w.pkts p) (w.bytes p))
      ((w.pkts p).offset.toNat - 28) = ipHeader sender (w.pkts p) (staleByte w p) := by
  have hroom := h.room
  obtain ⟨hudp, hip, heth⟩ := h.offsets sender
  rw [sentPkt] at heth
  simp only [headedBytes, hudp, hip, heth]
  constructor
  · rw [UdpHeader.load_write_outside (.inl (by rw [EthHeader.toBytes_length]; omega)),
      UdpHeader.load_write_outside (.inl (by rw [Ipv4Header.toBytes_length]; omega)),
      UdpHeader.load_store]
  · rw [Ipv4Header.load_write_outside (.inl (by rw [EthHeader.toBytes_length]; omega)),
      Ipv4Header.load_store, h.header_eq]

/-- And so they are in the frame. -/
theorem Headroom.sent_headers (h : Headroom w p) (sender : Ipv4Sender) (mac : MacAddr) :
    UdpHeader.load (sentBytes sender mac (w.pkts p) (w.bytes p)) ((w.pkts p).offset.toNat - 8) =
      UdpSender.header (w.bytes p) (UdpSender.pushed (w.pkts p)) ∧
    Ipv4Header.load (sentBytes sender mac (w.pkts p) (w.bytes p))
      ((w.pkts p).offset.toNat - 28) = ipHeader sender (w.pkts p) (staleByte w p) := by
  have hroom := h.room
  have hsent : sentBytes sender mac (w.pkts p) (w.bytes p) =
      (headedBytes sender (w.pkts p) (w.bytes p)).write
        ((sentPkt sender (w.pkts p)).offset.toNat + 6) mac.toBytes := rfl
  rw [hsent, (h.offsets sender).2.2]
  constructor
  · rw [UdpHeader.load_write_outside (.inl (by rw [MacAddr.toBytes_length]; omega))]
    exact (h.headed_headers sender).1
  · rw [Ipv4Header.load_write_outside (.inl (by rw [MacAddr.toBytes_length]; omega))]
    exact (h.headed_headers sender).2

/-- The IPv4 header in the frame is the one written, over what the buffer held. -/
theorem sent_header (sender : Ipv4Sender) (mac : MacAddr) (h : Prepared w p s) :
    ∃ ip : Ipv4Header, Ipv4Header.load (sentBytes sender mac (w.pkts p) (w.bytes p)) 36 = ip ∧
      ip.versionIhl = w.bytes p 36 ||| 4 ||| 0x50 ∧ ip.len.toNat = 28 + s ∧ ip.ttl = 255 := by
  obtain ⟨hudp, hip, heth⟩ := sentPkt_fields sender h
  have hoffset : (w.pkts p).offset.toNat = 64 := by rw [h.offset]; rfl
  have hlen := h.len
  have hload := (h.headroom.sent_headers sender mac).2
  rw [hoffset] at hload
  refine ⟨_, hload, by rw [ipHeader, Ipv4Sender.header, staleByte, hoffset], ?_, rfl⟩
  have hle : (sender.pushed (UdpSender.pushed (w.pkts p))).offset.toNat ≤
      (w.pkts p).len.toNat := by
    omega
  have hsub := toNat_sub16 hle
  rw [hip, hlen] at hsub
  rw [Ipv4Header.len, ipHeader, Ipv4Sender.header, fromBe_toBe]
  exact hsub.trans (by omega)

/-- Behind the headers the buffer is as it was. -/
theorem sentBytes_payload (h : Prepared w p s) {i : Nat} (hi : 64 ≤ i) :
    sentBytes sender mac (w.pkts p) (w.bytes p) i = w.bytes p i := by
  obtain ⟨hudp, hip, heth⟩ := sentPkt_fields sender h
  rw [sentPkt] at heth
  simp only [sentBytes, hudp, hip, heth]
  rw [Bytes.write_outside (.inr (by rw [MacAddr.toBytes_length]; omega)),
    Bytes.write_outside (.inr (by rw [EthHeader.toBytes_length]; omega)),
    Bytes.write_outside (.inr (by rw [Ipv4Header.toBytes_length]; omega)),
    Bytes.write_outside (.inr (by rw [UdpHeader.toBytes_length]; omega))]

end Sending

/-! ### The frame received -/

section Receiving
variable {w sent : World σ} {arrived : World τ} {p q : PacketId} {s o : Nat} {sender : Ipv4Sender}
  {mac : MacAddr} {checks : Bool} {ctx : Context}

/-- A frame's way: prepared, sent and presented. -/
structure Exchange (checks : Bool) (sender : Ipv4Sender) (mac : MacAddr) (w : World σ)
    (p : PacketId) (s : Nat) (sent : World σ) (arrived : World τ) (q : PacketId) (o : Nat) :
    Prop where
  prepared : Prepared w p s
  sends : send checks sender mac p w = .ok (.ok (), sent)
  presented : Presented sent p arrived q o

/-- The arrived packet has the frame's length, and its bytes apart from checksums. -/
theorem Exchange.arrived_bytes (h : Exchange checks sender mac w p s sent arrived q o) :
    (arrived.pkts q).len.toNat = o + (42 + s) ∧
    ∀ k < 42 + s, k ∉ checksums →
      arrived.bytes q (o + k) = sentBytes sender mac (w.pkts p) (w.bytes p) (22 + k) := by
  obtain ⟨sent', hsend, hpkt, hbytes⟩ := send_spec checks sender mac h.prepared.headroom
  have heq := h.sends
  rw [hsend] at heq
  obtain rfl : sent' = sent := by simpa using heq
  have hoffset := (sentPkt_fields sender h.prepared).2.2
  have hlen : (sentPkt sender (w.pkts p)).len.toNat = 64 + s := h.prepared.len
  have hpres := h.presented.bytes
  have hplen := h.presented.len
  rw [hpkt, hoffset, hlen] at hplen hpres
  rw [hbytes] at hpres
  have hsize : 64 + s - 22 = 42 + s := by omega
  rw [hsize] at hplen hpres
  exact ⟨hplen, hpres⟩

/-- What the receiver reads in the header. -/
theorem Exchange.arrived_header (h : Exchange checks sender mac w p s sent arrived q o) :
    (ipv4Of (arrived.bytes q) o).versionIhl = w.bytes p 36 ||| 4 ||| 0x50 ∧
      (ipv4Of (arrived.bytes q) o).len.toNat = 28 + s ∧ (ipv4Of (arrived.bytes q) o).ttl = 255 := by
  obtain ⟨ip, hip, hfirst, hlen, httl⟩ := sent_header sender mac h.prepared
  have hbytes := h.arrived_bytes.2
  have byte (k : Nat) (hk : k < 20) (hsum : 14 + k ∉ checksums) :
      arrived.bytes q (o + 14 + k) = sentBytes sender mac (w.pkts p) (w.bytes p) (36 + k) := by
    have := hbytes (14 + k) (by omega) hsum
    rwa [← Nat.add_assoc, ← Nat.add_assoc] at this
  subst hip
  refine ⟨?_, ?_, ?_⟩
  · rw [← hfirst]
    exact byte 0 (by omega) (by decide)
  · rw [← hlen, Ipv4Header.len, Ipv4Header.len, ipv4Of, Ipv4Header.load, Ipv4Header.load]
    simp only
    rw [byte 2 (by omega) (by decide), byte 3 (by omega) (by decide)]
  · rw [← httl]
    exact byte 8 (by omega) (by decide)

/-- Two disjunctions into a byte make no version 4 of it. -/
theorem version_ne (b : UInt8) : ((b ||| 4 ||| 0x50) &&& 0xf0) >>> 4 ≠ 4 := by
  have hall : ∀ b : BitVec 8, ((b ||| 4#8 ||| 0x50#8) &&& 0xf0#8) >>> 4 ≠ 4#8 := by decide +kernel
  intro h
  exact hall b.toBitVec (congrArg UInt8.toBitVec h)

theorem Exchange.not_version (h : Exchange checks sender mac w p s sent arrived q o) :
    (ipv4Of (arrived.bytes q) o).version ≠ 4 := by
  rw [Ipv4Header.version, h.arrived_header.1]
  exact version_ne _

/-- Every prepared packet can be sent and its frame presented wherever there is room. -/
theorem exchange_exists (checks : Bool) (sender : Ipv4Sender) (mac : MacAddr)
    (h : Prepared w p s) (hroom : o + (42 + s) < 2 ^ 16) :
    ∃ sent arrived : World σ, Exchange checks sender mac w p s sent arrived p o := by
  obtain ⟨sent, hsend, hpkt, hbytes⟩ := send_spec checks sender mac h.headroom
  have hoffset : (sent.pkts p).offset.toNat = 22 := hpkt ▸ (sentPkt_fields sender h).2.2
  have hlen : (sent.pkts p).len.toNat = 64 + s := hpkt ▸ h.len
  let pkt : Packet := {sent.pkts p with
    data := .room 0, offset := UInt16.ofNat o, len := UInt16.ofNat (o + (42 + s)), refcnt := 1}
  refine ⟨sent, (sent.setMem (.room 0) fun i => sent.bytes p (22 + (i - o))).setPkt p pkt, h,
    hsend, ?_, ?_, fun k _ _ => ?_, ?_⟩
  · rw [World.setPkt_pkts_same, UInt16.toNat_ofNat']
    exact Nat.mod_eq_of_lt (by omega)
  · rw [World.setPkt_pkts_same, UInt16.toNat_ofNat', hoffset, hlen, Nat.mod_eq_of_lt hroom]
    omega
  · rw [World.bytes, World.setPkt_pkts_same, World.setPkt_mem, World.setMem_mem_same, hoffset,
      Nat.add_sub_cancel_left]
  · exact Nat.le_of_eq (congrArg Packet.refcnt (World.setPkt_pkts_same _ p pkt).symm)

/-- The header length read back, from what the byte was before. -/
theorem ihl_eq_five_iff (b : UInt8) :
    (b ||| 4 ||| 0x50) &&& 0xf = 5 ↔ b &&& 0xf = 1 ∨ b &&& 0xf = 5 := by
  have hall : ∀ b : BitVec 8, (b ||| 4#8 ||| 0x50#8) &&& 0xf#8 = 5#8 ↔
      b &&& 0xf#8 = 1#8 ∨ b &&& 0xf#8 = 5#8 := by decide +kernel
  simp only [← UInt8.toBitVec_inj]
  exact hall b.toBitVec

/-- The payload is what a window of `s` bytes behind 42 bytes of headers holds. -/
theorem Exchange.payload (h : Exchange checks sender mac w p s sent arrived q o) :
    (arrived.bytes q).read (o + 42) s = (w.pkts p).window (w.bytes p) := by
  have hoffset : (w.pkts p).offset.toNat = 64 := by rw [h.prepared.offset]; rfl
  rw [Packet.window, hoffset, h.prepared.len, Nat.add_sub_cancel_left]
  apply List.map_congr_left
  intro i hi
  rw [List.mem_range] at hi
  have hsum : 42 + i ∉ checksums := by
    simp only [checksums, List.mem_cons, List.not_mem_nil, or_false]
    omega
  have := h.arrived_bytes.2 (42 + i) (by omega) hsum
  rw [Nat.add_assoc, this, sentBytes_payload h.prepared (by omega),
    show 22 + (42 + i) = 64 + i by omega]

/-- The payload comes through, with checks, exactly when the old byte makes up for the
exchanged halves. -/
theorem Exchange.delivers_iff (h : Exchange checks sender mac w p s sent arrived q o) :
    Delivers true ctx q arrived ((w.pkts p).window (w.bytes p)) ↔
      w.bytes p 36 &&& 0xf = 1 ∨ w.bytes p 36 &&& 0xf = 5 := by
  obtain ⟨hfirst, hlen, httl⟩ := h.arrived_header
  have hoff := h.presented.offset
  have hframe : o + (42 + s) < 2 ^ 16 := h.arrived_bytes.1 ▸ (arrived.pkts q).len.toNat_lt
  have hihl : (ipv4Of (arrived.bytes q) o).ihl.toNat = 5 ↔
      w.bytes p 36 &&& 0xf = 1 ∨ w.bytes p 36 &&& 0xf = 5 := by
    rw [← ihl_eq_five_iff, ← hfirst, ← Ipv4Header.ihl]
    exact ⟨fun h => UInt8.toNat_inj.mp h, fun h => by rw [h]; rfl⟩
  have hpayload : ((w.pkts p).window (w.bytes p)).length = s := by
    rw [← h.payload, Bytes.read_length]
  rw [← hihl]
  constructor
  · rintro ⟨w', hok, hwindow, heq⟩
    by_cases hsums : SumsFit (arrived.bytes q) o
    · by_cases hrefused : Refused (ipv4Of (arrived.bytes q) o)
      · obtain ⟨w'', hdrop⟩ := receive_refused true ctx hoff h.presented.counted hsums hrefused
        rw [hdrop] at hok
        cases hok
      · by_cases hudp : o + 14 + 4 * (ipv4Of (arrived.bytes q) o).ihl.toNat + 8 < 2 ^ 16
        · obtain ⟨w'', hok', _, hpkt⟩ := receive_delivered true ctx hoff hsums hrefused hudp
          rw [hok'] at hok
          obtain rfl : w'' = w' := by simpa using hok
          obtain ⟨hoffset, hlength, _⟩ := delivered_fields hoff hsums hudp hpkt
          have hsize := congrArg List.length heq
          rw [Packet.window, Bytes.read_length, hpayload] at hsize
          have hlarge : ¬ (ipv4Of (arrived.bytes q) o).ihl.toNat < 5 :=
            fun hlt => hrefused (.inl hlt)
          omega
        · rw [receive_udp_overflow hoff hsums hrefused (by omega)] at hok
          cases hok
    · rw [receive_ip_overflow hoff (by omega) hsums] at hok
      cases hok
  · intro hfive
    have hsums : SumsFit (arrived.bytes q) o := ⟨by omega, by omega⟩
    have haccepted : ¬ Refused (ipv4Of (arrived.bytes q) o) := by
      rintro (hlt | hzero)
      · omega
      · rw [httl] at hzero
        exact absurd hzero (by decide)
    have hudp : o + 14 + 4 * (ipv4Of (arrived.bytes q) o).ihl.toNat + 8 < 2 ^ 16 := by omega
    obtain ⟨w', hok, hmem, hpkt⟩ := receive_delivered true ctx hoff hsums haccepted hudp
    obtain ⟨hoffset, hlength, _⟩ := delivered_fields hoff hsums hudp hpkt
    have hbytes : w'.bytes q = arrived.bytes q := by rw [World.bytes, hmem, hpkt]; rfl
    have hstart : (w'.pkts q).offset.toNat = o + 42 := by omega
    have hwidth : (w'.pkts q).len.toNat - (w'.pkts q).offset.toNat = s := by omega
    exact ⟨w', hok, by omega, by rw [Packet.window, hwidth, hstart, hbytes, h.payload]⟩

/-- **No frame makes the round trip**, whatever the payload, the buffer and the offset: the
version read back is never the one that was to be written. -/
theorem never_round_trips (checks : Bool) (ctx : Context) (sender : Ipv4Sender) (mac : MacAddr)
    (h : Prepared w p s) (hroom : o + (42 + s) < 2 ^ 16) :
    (∃ sent arrived : World σ, Exchange checks sender mac w p s sent arrived p o) ∧
    ∀ (sent : World σ) (arrived : World τ) (q : PacketId),
      Exchange checks sender mac w p s sent arrived q o →
      ¬ RoundTrip checks ctx q arrived o ((w.pkts p).window (w.bytes p)) :=
  ⟨exchange_exists checks sender mac h hroom, fun _ _ _ hexchange htrip =>
    hexchange.not_version htrip.version⟩

end Receiving

namespace Sample

/-- The user node's packet in a buffer never used before. -/
def fresh : World Unit where
  pkts := fun _ => ⟨100, ⟨0, 0⟩, ⟨0, 0⟩, ⟨0, 0⟩, 64, .own 0, none, 0, 0, 1, .localBuf⟩
  mem := fun _ _ => 0
  mbufs := fun m => ⟨(.room m, 0), 0, 0, 0, 0, none, 0, 0, 0, 0⟩
  free := fun _ => 0
  held := fun _ => 0
  log := []
  rawFreed := []
  wire := []
  env := ()

theorem fresh_prepared : Prepared fresh 0 36 := ⟨rfl, rfl, by omega⟩

end Sample

theorem never_round_trips_sample :
    ∃ sent arrived : World Unit,
      Exchange true Ipv4Sender.new MacAddr.new Sample.fresh 0 36 sent arrived 0 128 ∧
      ¬ RoundTrip true Sample.thread 0 arrived 128
        ((Sample.fresh.pkts 0).window (Sample.fresh.bytes 0)) := by
  obtain ⟨sent, arrived, h⟩ := exchange_exists true Ipv4Sender.new MacAddr.new
    Sample.fresh_prepared (o := 128) (by omega)
  exact ⟨sent, arrived, h, (never_round_trips true Sample.thread Ipv4Sender.new MacAddr.new
    Sample.fresh_prepared (by omega)).2 sent arrived 0 h⟩

/-- **A fresh buffer**: the frame goes out with header length 4, and the receiver drops it. -/
theorem fresh_buffer_dropped :
    ∃ sent arrived : World Unit,
      Exchange true Ipv4Sender.new MacAddr.new Sample.fresh 0 36 sent arrived 0 128 ∧
      ¬ Delivers true Sample.thread 0 arrived
        ((Sample.fresh.pkts 0).window (Sample.fresh.bytes 0)) ∧
      ¬ RoundTrip true Sample.thread 0 arrived 128
        ((Sample.fresh.pkts 0).window (Sample.fresh.bytes 0)) := by
  obtain ⟨sent, arrived, h⟩ := exchange_exists true Ipv4Sender.new MacAddr.new
    Sample.fresh_prepared (o := 128) (by omega)
  have hnot : ¬ Delivers true Sample.thread 0 arrived
      ((Sample.fresh.pkts 0).window (Sample.fresh.bytes 0)) := by
    rw [h.delivers_iff]
    decide
  exact ⟨sent, arrived, h, hnot, fun htrip => hnot htrip.delivers⟩

end OmniStack
