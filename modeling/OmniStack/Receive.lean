import OmniStack.Modules.Eth
import OmniStack.Modules.Ipv4
import OmniStack.Modules.Udp

/-! The receive path on arbitrary frames.

The receivers never look at the frame's length: the window they deliver is cut out by
the header length and the total length the frame itself claims. So it lies inside the
received bytes, and nothing wraps on the way, exactly for the frames whose header
numbers fit together and into the frame (`safely_received_iff`); a datagram shorter
than its headers is delivered with a window that ends before it begins. -/
namespace OmniStack
open Lib
variable {σ : Type}

/-- `EthReceiver`, `Ipv4Receiver` and `UdpReceiver` in a row. -/
def receive (checks : Bool) (ctx : Context) (p : PacketId) (w : World σ) :
    Exec (Result Unit × World σ) :=
  andThen (EthReceiver.process checks p w) fun w =>
    andThen (Ipv4Receiver.process checks ctx p w) fun w => UdpReceiver.process checks p w

/-- A frame of `L` bytes at offset `o`, as `Dpdk::recv` sets its packet up. -/
structure Received (w : World σ) (p : PacketId) (o L : Nat) : Prop where
  offset : (w.pkts p).offset.toNat = o
  len : (w.pkts p).len.toNat = o + L
  counted : 1 ≤ (w.pkts p).refcnt

/-- The window and the header regions lie inside the received bytes. -/
structure Inside (pkt : Packet) (o L : Nat) : Prop where
  start : o ≤ pkt.offset.toNat
  window : pkt.offset.toNat ≤ pkt.len.toNat
  stop : pkt.len.toNat ≤ o + L
  headers : ∀ h ∈ [pkt.l2Header, pkt.l3Header, pkt.l4Header],
    o ≤ h.offset.toNat ∧ h.offset.toNat + h.length.toNat ≤ o + L

/-- The checked build drops the packet or delivers one inside the received bytes whose
length it can compute. -/
def SafelyReceived (ctx : Context) (p : PacketId) (o L : Nat) (w : World σ) : Prop :=
  ∃ res w', receive true ctx p w = .ok (res, w') ∧
    (res = .error .dropped ∨
      (res = .ok () ∧ Inside (w'.pkts p) o L ∧ ∃ n, (w'.pkts p).lenOf true = .ok n))

/-- The frame's IPv4 header. -/
def ipv4Of (m : Bytes) (o : Nat) : Ipv4Header := Ipv4Header.load m (o + 14)

/-- The header is one `Ipv4Receiver` drops. -/
def Refused (ip : Ipv4Header) : Prop := ip.ihl.toNat < 5 ∨ ip.ttl = 0

instance (ip : Ipv4Header) : Decidable (Refused ip) := inferInstanceAs (Decidable (_ ∨ _))

/-- The numbers of the frame fit together: a header to be dropped does not wrap the two
sums made before it is, any other leaves room for the UDP header in the datagram and
for the datagram in the frame. -/
def FrameFits (m : Bytes) (o L : Nat) : Prop :=
  if Refused (ipv4Of m o) then
    (ipv4Of m o).len.toNat + (o + 14) < 2 ^ 16 ∧ o + 14 + 4 * (ipv4Of m o).ihl.toNat < 2 ^ 16
  else
    4 * (ipv4Of m o).ihl.toNat + 8 ≤ (ipv4Of m o).len.toNat ∧ (ipv4Of m o).len.toNat + 14 ≤ L

instance (m : Bytes) (o L : Nat) : Decidable (FrameFits m o L) := by
  unfold FrameFits
  infer_instance

/-! ### The outcomes -/

section Outcomes
variable {ctx : Context} {p : PacketId} {w : World σ} {o L : Nat}

theorem refused_iff (ip : Ipv4Header) :
    (decide (ip.ihl < 5) || ip.ttl == 0) = true ↔ Refused ip := by
  simp only [Refused, Bool.or_eq_true, decide_eq_true_eq, beq_iff_eq, UInt8.lt_iff_toNat_lt]
  rfl

/-- The world after `EthReceiver`. -/
def afterEth (w : World σ) (p : PacketId) : World σ :=
  w.setPkt p {w.pkts p with
    l2Header := ⟨EthHeader.size, (w.pkts p).offset⟩
    offset := (w.pkts p).offset + EthHeader.size}

/-- The packet the receivers deliver. -/
def delivered (pkt : Packet) (ip : Ipv4Header) : Packet :=
  {pkt with
    l2Header := ⟨EthHeader.size, pkt.offset⟩
    l3Header := ⟨(ip.ihl <<< 2).toUInt16, pkt.offset + EthHeader.size⟩
    l4Header := ⟨UdpHeader.size, pkt.offset + EthHeader.size + (ip.ihl <<< 2).toUInt16⟩
    len := ip.len + (pkt.offset + EthHeader.size)
    offset := pkt.offset + EthHeader.size + (ip.ihl <<< 2).toUInt16 + UdpHeader.size}

theorem afterEth_offset (h : (w.pkts p).offset.toNat = o) (hfits : o + 14 < 2 ^ 16) :
    ((afterEth w p).pkts p).offset.toNat = o + 14 := by
  subst h
  simp only [afterEth, World.setPkt_pkts_same]
  exact toNat_add16 hfits

theorem afterEth_header (h : (w.pkts p).offset.toNat = o) (hfits : o + 14 < 2 ^ 16) :
    Ipv4Receiver.headerOf (afterEth w p) p = ipv4Of (w.bytes p) o := by
  have hbytes : (afterEth w p).bytes p = w.bytes p := World.setPkt_bytes w rfl
  rw [Ipv4Receiver.headerOf, hbytes, afterEth_offset h hfits, ipv4Of]

theorem receive_eth_overflow (h : 2 ^ 16 ≤ (w.pkts p).offset.toNat + 14) :
    receive true ctx p w = .error .overflow := by
  rw [receive, EthReceiver.process_overflow h]
  rfl

/-- Past `EthReceiver`, the frame's fate is `Ipv4Receiver`'s. -/
theorem receive_eq (checks : Bool) (h : (w.pkts p).offset.toNat + 14 < 2 ^ 16) :
    receive checks ctx p w = andThen (Ipv4Receiver.process checks ctx p (afterEth w p))
      fun w => UdpReceiver.process checks p w := by
  rw [receive, EthReceiver.process_eq checks h]
  rfl

/-- The two sums `Ipv4Receiver` makes do not wrap. -/
def SumsFit (m : Bytes) (o : Nat) : Prop :=
  (ipv4Of m o).len.toNat + (o + 14) < 2 ^ 16 ∧ o + 14 + 4 * (ipv4Of m o).ihl.toNat < 2 ^ 16

theorem receive_ip_overflow (hoff : (w.pkts p).offset.toNat = o) (heth : o + 14 < 2 ^ 16)
    (h : ¬ SumsFit (w.bytes p) o) : receive true ctx p w = .error .overflow := by
  rw [receive_eq true (hoff ▸ heth), Ipv4Receiver.process_overflow]
  · rfl
  · rw [afterEth_header hoff heth, afterEth_offset hoff heth]
    simp only [SumsFit] at h
    omega

/-- Past both sums. -/
theorem receive_sums (checks : Bool) (hoff : (w.pkts p).offset.toNat = o)
    (hsums : SumsFit (w.bytes p) o) : receive checks ctx p w =
      andThen (if Refused (ipv4Of (w.bytes p) o) then do
          return (.error .dropped, ← PacketPool.deallocate checks p ctx.threadId
            ((afterEth w p).setPkt p
              (Ipv4Receiver.stripped ((afterEth w p).pkts p) (ipv4Of (w.bytes p) o))))
        else .ok (.ok (), (afterEth w p).setPkt p
          (Ipv4Receiver.stripped ((afterEth w p).pkts p) (ipv4Of (w.bytes p) o))))
      fun w => UdpReceiver.process checks p w := by
  have heth : o + 14 < 2 ^ 16 := by
    have := hsums.1
    omega
  have hheader := afterEth_header hoff heth
  have hoffset := afterEth_offset hoff heth
  rw [receive_eq checks (hoff ▸ heth), Ipv4Receiver.process_eq checks ctx, hheader]
  · simp only [refused_iff]
  · rw [hheader, hoffset]
    exact hsums.1
  · rw [hheader, hoffset]
    exact hsums.2

theorem receive_refused (checks : Bool) (ctx : Context) (hoff : (w.pkts p).offset.toNat = o)
    (hcounted : 1 ≤ (w.pkts p).refcnt) (hsums : SumsFit (w.bytes p) o)
    (hrefused : Refused (ipv4Of (w.bytes p) o)) :
    ∃ w', receive checks ctx p w = .ok (.error .dropped, w') := by
  obtain ⟨w', hw'⟩ := PacketPool.deallocate_ok checks ctx.threadId
    (w := (afterEth w p).setPkt p
      (Ipv4Receiver.stripped ((afterEth w p).pkts p) (ipv4Of (w.bytes p) o))) (p := p)
    (by simpa [Ipv4Receiver.stripped, afterEth] using hcounted)
  refine ⟨w', ?_⟩
  rw [receive_sums checks hoff hsums, if_pos hrefused, hw']
  rfl

/-- The offset `Ipv4Receiver` leaves. -/
theorem stripped_offset (hoff : (w.pkts p).offset.toNat = o) (hsums : SumsFit (w.bytes p) o) :
    ((w.pkts p).offset + EthHeader.size + ((ipv4Of (w.bytes p) o).ihl <<< 2).toUInt16).toNat =
      o + 14 + 4 * (ipv4Of (w.bytes p) o).ihl.toNat := by
  obtain ⟨hlen, hoffset⟩ := hsums
  have heth : ((w.pkts p).offset + EthHeader.size).toNat = o + 14 := by
    rw [← hoff]
    exact toNat_add16 (by rw [hoff]; show o + 14 < 2 ^ 16; omega)
  rw [← Ipv4Header.toNat_ihl_length] at hoffset ⊢
  rw [toNat_add16 (by omega), heth]

theorem receive_udp_overflow (hoff : (w.pkts p).offset.toNat = o) (hsums : SumsFit (w.bytes p) o)
    (haccepted : ¬ Refused (ipv4Of (w.bytes p) o))
    (hudp : 2 ^ 16 ≤ o + 14 + 4 * (ipv4Of (w.bytes p) o).ihl.toNat + 8) :
    receive true ctx p w = .error .overflow := by
  rw [receive_sums true hoff hsums, if_neg haccepted]
  rw [← stripped_offset hoff hsums] at hudp
  have hover : UdpReceiver.process true p ((afterEth w p).setPkt p
      (Ipv4Receiver.stripped ((afterEth w p).pkts p) (ipv4Of (w.bytes p) o))) =
        .error .overflow := by
    apply UdpReceiver.process_overflow
    simpa [Ipv4Receiver.stripped, afterEth] using hudp
  exact hover

theorem receive_delivered (checks : Bool) (ctx : Context) (hoff : (w.pkts p).offset.toNat = o)
    (hsums : SumsFit (w.bytes p) o) (haccepted : ¬ Refused (ipv4Of (w.bytes p) o))
    (hudp : o + 14 + 4 * (ipv4Of (w.bytes p) o).ihl.toNat + 8 < 2 ^ 16) :
    ∃ w', receive checks ctx p w = .ok (.ok (), w') ∧ w'.mem = w.mem ∧
      w'.pkts p = delivered (w.pkts p) (ipv4Of (w.bytes p) o) := by
  rw [receive_sums checks hoff hsums, if_neg haccepted]
  rw [← stripped_offset hoff hsums] at hudp
  have hok := UdpReceiver.process_eq checks (p := p) (w := (afterEth w p).setPkt p
    (Ipv4Receiver.stripped ((afterEth w p).pkts p) (ipv4Of (w.bytes p) o)))
    (by simpa [Ipv4Receiver.stripped, afterEth] using hudp)
  refine ⟨_, hok, rfl, ?_⟩
  simp [Ipv4Receiver.stripped, afterEth, delivered]

/-! ### The delivered window -/

/-- The fields of a delivered packet, as numbers. -/
theorem delivered_fields (hoff : (w.pkts p).offset.toNat = o) (hsums : SumsFit (w.bytes p) o)
    (hudp : o + 14 + 4 * (ipv4Of (w.bytes p) o).ihl.toNat + 8 < 2 ^ 16) {pkt : Packet}
    (hpkt : pkt = delivered (w.pkts p) (ipv4Of (w.bytes p) o)) :
    pkt.offset.toNat = o + 14 + 4 * (ipv4Of (w.bytes p) o).ihl.toNat + 8 ∧
      pkt.len.toNat = (ipv4Of (w.bytes p) o).len.toNat + (o + 14) ∧
      pkt.l2Header.offset.toNat = o ∧ pkt.l2Header.length.toNat = 14 ∧
      pkt.l3Header.offset.toNat = o + 14 ∧
      pkt.l3Header.length.toNat = 4 * (ipv4Of (w.bytes p) o).ihl.toNat ∧
      pkt.l4Header.offset.toNat = o + 14 + 4 * (ipv4Of (w.bytes p) o).ihl.toNat ∧
      pkt.l4Header.length.toNat = 8 := by
  subst hpkt
  have hl4 := stripped_offset hoff hsums
  have heth : ((w.pkts p).offset + EthHeader.size).toNat = o + 14 := by
    rw [← hoff]
    exact toNat_add16 (by rw [hoff]; show o + 14 < 2 ^ 16; omega)
  have hlen := hsums.1
  rw [← heth] at hlen
  refine ⟨?_, ?_, hoff, rfl, heth, Ipv4Header.toNat_ihl_length _, hl4, rfl⟩
  · have := toNat_add16 (a := (w.pkts p).offset + EthHeader.size +
      ((ipv4Of (w.bytes p) o).ihl <<< 2).toUInt16) (b := UdpHeader.size)
      (by rw [hl4]; exact hudp)
    rw [hl4] at this
    exact this
  · have := toNat_add16 hlen
    rw [heth] at this
    exact this

theorem lenOf_iff {pkt : Packet} :
    (∃ n, pkt.lenOf true = .ok n) ↔ pkt.offset.toNat ≤ pkt.len.toNat := by
  simp only [Packet.lenOf, sub16_checked_eq]
  constructor
  · rintro ⟨_, h, _⟩
    exact h
  · exact fun h => ⟨_, h, rfl⟩

/-- A delivered window lies inside the frame if the datagram holds both headers and the
frame the datagram. -/
theorem delivered_inside (hoff : (w.pkts p).offset.toNat = o) (hsums : SumsFit (w.bytes p) o)
    (hudp : o + 14 + 4 * (ipv4Of (w.bytes p) o).ihl.toNat + 8 < 2 ^ 16) {pkt : Packet}
    (hpkt : pkt = delivered (w.pkts p) (ipv4Of (w.bytes p) o)) :
    (Inside pkt o L ∧ ∃ n, pkt.lenOf true = .ok n) ↔
      4 * (ipv4Of (w.bytes p) o).ihl.toNat + 8 ≤ (ipv4Of (w.bytes p) o).len.toNat ∧
        (ipv4Of (w.bytes p) o).len.toNat + 14 ≤ L := by
  obtain ⟨hoffset, hlen, h2o, h2l, h3o, h3l, h4o, h4l⟩ := delivered_fields hoff hsums hudp hpkt
  rw [lenOf_iff]
  constructor
  · rintro ⟨hin, hwindow⟩
    have := hin.stop
    omega
  · rintro ⟨hroom, hframe⟩
    refine ⟨⟨by omega, by omega, by omega, ?_⟩, by omega⟩
    intro hd hmem
    simp only [List.mem_cons, List.not_mem_nil, or_false] at hmem
    rcases hmem with rfl | rfl | rfl <;> omega

/-- **Which frames are received safely**: those whose header numbers fit together and
into the frame, and no others. -/
theorem safely_received_iff (ctx : Context) (h : Received w p o L) :
    SafelyReceived ctx p o L w ↔ FrameFits (w.bytes p) o L := by
  have hframe : o + L < 2 ^ 16 := h.len ▸ (w.pkts p).len.toNat_lt
  have stops : receive true ctx p w = .error .overflow → ¬ SafelyReceived ctx p o L w := by
    rintro hstop ⟨res, w', hok, _⟩
    rw [hstop] at hok
    cases hok
  by_cases hover : 2 ^ 16 ≤ o + 14
  · -- `EthReceiver` stops, and no datagram fits behind the offset
    refine iff_of_false (stops (receive_eth_overflow (by rw [h.offset]; omega))) fun hfits => ?_
    unfold FrameFits at hfits
    split at hfits <;> omega
  have heth : o + 14 < 2 ^ 16 := Nat.lt_of_not_le hover
  by_cases hwraps : ¬ SumsFit (w.bytes p) o
  · refine iff_of_false (stops (receive_ip_overflow h.offset heth hwraps)) fun hfits => hwraps ?_
    unfold FrameFits at hfits
    split at hfits
    · exact hfits
    · constructor <;> omega
  have hsums : SumsFit (w.bytes p) o := Classical.not_not.mp hwraps
  by_cases hrefused : Refused (ipv4Of (w.bytes p) o)
  · obtain ⟨w', hw'⟩ := receive_refused true ctx h.offset h.counted hsums hrefused
    refine iff_of_true ⟨_, w', hw', .inl rfl⟩ ?_
    rw [FrameFits, if_pos hrefused]
    exact hsums
  · rw [FrameFits, if_neg hrefused]
    by_cases hudp : o + 14 + 4 * (ipv4Of (w.bytes p) o).ihl.toNat + 8 < 2 ^ 16
    · obtain ⟨w', hw', _, hpkt⟩ := receive_delivered true ctx h.offset hsums hrefused hudp
      rw [← delivered_inside h.offset hsums hudp hpkt]
      constructor
      · rintro ⟨res, w'', hw'', hdrop | ⟨_, hin⟩⟩
        · rw [hw', hdrop] at hw''
          cases hw''
        · rw [hw'] at hw''
          cases hw''
          exact hin
      · exact fun hin => ⟨_, w', hw', .inr ⟨rfl, hin⟩⟩
    · refine iff_of_false (stops (receive_udp_overflow h.offset hsums hrefused (by omega))) ?_
      omega

/-! ### Valid frames -/

/-- The header is one to be accepted, the datagram holds its two headers and the frame the
datagram. -/
structure ValidFrame (m : Bytes) (o L : Nat) : Prop where
  ihl : 5 ≤ (ipv4Of m o).ihl.toNat
  ttl : (ipv4Of m o).ttl ≠ 0
  headers : 4 * (ipv4Of m o).ihl.toNat + 8 ≤ (ipv4Of m o).len.toNat
  datagram : (ipv4Of m o).len.toNat + 14 ≤ L

/-- The packet is the payload of a datagram of `t` bytes behind a header of `h` words, in a frame
at `o`. -/
structure Decoded (checks : Bool) (m : Bytes) (w' : World σ) (p : PacketId) (o h t : Nat) :
    Prop where
  l2 : (w'.pkts p).l2Header.offset.toNat = o ∧ (w'.pkts p).l2Header.length.toNat = 14
  l3 : (w'.pkts p).l3Header.offset.toNat = o + 14 ∧ (w'.pkts p).l3Header.length.toNat = 4 * h
  l4 : (w'.pkts p).l4Header.offset.toNat = o + 14 + 4 * h ∧
    (w'.pkts p).l4Header.length.toNat = 8
  start : (w'.pkts p).offset.toNat = o + 14 + 4 * h + 8
  len : ∃ n, (w'.pkts p).lenOf checks = .ok n ∧ n.toNat = t - 4 * h - 8
  payload : (w'.pkts p).window (w'.bytes p) = m.read (o + 14 + 4 * h + 8) (t - 4 * h - 8)

/-- **Valid frames are decoded**, by either build, and what is delivered is the payload without
the padding. -/
theorem valid_decoded (checks : Bool) (ctx : Context) (hoff : (w.pkts p).offset.toNat = o)
    (hlen : (w.pkts p).len.toNat = o + L) (hvalid : ValidFrame (w.bytes p) o L) :
    ∃ w₁ w₂ w₃, EthReceiver.process checks p w = .ok (.ok (), w₁) ∧
      Ipv4Receiver.process checks ctx p w₁ = .ok (.ok (), w₂) ∧
      UdpReceiver.process checks p w₂ = .ok (.ok (), w₃) ∧
      Decoded checks (w.bytes p) w₃ p o (ipv4Of (w.bytes p) o).ihl.toNat
        (ipv4Of (w.bytes p) o).len.toNat := by
  have hframe : o + L < 2 ^ 16 := hlen ▸ (w.pkts p).len.toNat_lt
  obtain ⟨hihl, httl, hheaders, hdatagram⟩ := hvalid
  have hsums : SumsFit (w.bytes p) o := ⟨by omega, by omega⟩
  have haccepted : ¬ Refused (ipv4Of (w.bytes p) o) := by
    intro hrefused
    rcases hrefused with hshort | hdead
    · omega
    · exact httl hdead
  have hudp : o + 14 + 4 * (ipv4Of (w.bytes p) o).ihl.toNat + 8 < 2 ^ 16 := by omega
  obtain ⟨w₃, hreceive, hmem, hpkt⟩ := receive_delivered checks ctx hoff hsums haccepted hudp
  obtain ⟨w₁, heth, hrest⟩ := andThen_eq_ok.mp hreceive
  obtain ⟨w₂, hip, hudpOk⟩ := andThen_eq_ok.mp hrest
  refine ⟨w₁, w₂, w₃, heth, hip, hudpOk, ?_⟩
  obtain ⟨hstart, hstop, h2o, h2l, h3o, h3l, h4o, h4l⟩ := delivered_fields hoff hsums hudp hpkt
  have hbytes : w₃.bytes p = w.bytes p := by rw [World.bytes, hmem, hpkt]; rfl
  refine ⟨⟨h2o, h2l⟩, ⟨h3o, h3l⟩, ⟨h4o, h4l⟩, hstart, ⟨_, sub16_ok checks (by omega), ?_⟩, ?_⟩
  · rw [toNat_sub16 (by omega)]
    omega
  · have hpayload : (ipv4Of (w.bytes p) o).len.toNat + (o + 14) -
        (o + 14 + 4 * (ipv4Of (w.bytes p) o).ihl.toNat + 8) =
        (ipv4Of (w.bytes p) o).len.toNat - 4 * (ipv4Of (w.bytes p) o).ihl.toNat - 8 := by
      omega
    rw [Packet.window, hbytes, hstart, hstop, hpayload]

end Outcomes

/-! ### A datagram without room for its headers -/

namespace Sample

def thread : Context := ⟨0, 0, 0, 0, "sample"⟩

/-- Packet 0, received in mbuf 1 with the frame at offset `o`. -/
def received (o : UInt16) (frame : List UInt8) : World Unit where
  pkts := fun _ => {
    len := o + UInt16.ofNat frame.length
    l2Header := ⟨0, 0⟩
    l3Header := ⟨0, 0⟩
    l4Header := ⟨0, 0⟩
    offset := o
    data := .room 1
    next := none
    nic := 0
    threadId := 0
    refcnt := 1
    bufTy := .mbuf 1 }
  mem := fun _ => Bytes.write (fun _ => 0) o.toNat frame
  mbufs := fun _ => ⟨(.room 1, 0), 0, 0, 0, 0, none, 0, 0, 0, 0⟩
  free := fun _ => 0
  held := fun _ => 0
  log := []
  rawFreed := []
  wire := []
  env := ()

/-- An Ethernet frame of 60 bytes with an IPv4 header of 20 bytes, ttl 64, whose total
length is `n`. -/
def frame (n : UInt8) : List UInt8 :=
  List.replicate 12 0 ++ [0x08, 0x00, 0x45, 0, 0, n, 0, 0, 0, 0, 64, 0x11] ++ List.replicate 36 0

/-- The receivers deliver a packet that ends before its window begins. -/
def endsEarly (x : Exec (Result Unit × World Unit)) : Bool :=
  match x with
  | .ok (.ok (), w) => decide ((w.pkts 0).len < (w.pkts 0).offset)
  | _ => false

end Sample

theorem safely_received_iff_sample :
    SafelyReceived Sample.thread 0 128 60 (Sample.received 128 (Sample.frame 46)) ↔
      FrameFits ((Sample.received 128 (Sample.frame 46)).bytes 0) 128 60 :=
  safely_received_iff Sample.thread ⟨rfl, rfl, Nat.le_refl 1⟩

/-- A datagram of 40 bytes, with 6 bytes of padding behind it. -/
theorem valid_decoded_sample :
    ∃ w₁ w₂ w₃ : World Unit,
      EthReceiver.process true 0 (Sample.received 128 (Sample.frame 40)) = .ok (.ok (), w₁) ∧
      Ipv4Receiver.process true Sample.thread 0 w₁ = .ok (.ok (), w₂) ∧
      UdpReceiver.process true 0 w₂ = .ok (.ok (), w₃) ∧
      Decoded true ((Sample.received 128 (Sample.frame 40)).bytes 0) w₃ 0 128
        (ipv4Of ((Sample.received 128 (Sample.frame 40)).bytes 0) 128).ihl.toNat
        (ipv4Of ((Sample.received 128 (Sample.frame 40)).bytes 0) 128).len.toNat :=
  valid_decoded true Sample.thread (o := 128) (L := 60) rfl rfl
    ⟨by decide +kernel, by decide +kernel, by decide +kernel, by decide +kernel⟩

/-- **A datagram of 20 bytes**, its IPv4 header and nothing else: the checked build goes
through, and the delivered packet's length wraps. -/
theorem short_datagram_wraps :
    Received (Sample.received 128 (Sample.frame 20)) 0 128 60 ∧
      ¬ SafelyReceived Sample.thread 0 128 60 (Sample.received 128 (Sample.frame 20)) := by
  refine ⟨⟨rfl, rfl, Nat.le_refl 1⟩, ?_⟩
  have hearly : Sample.endsEarly
      (receive true Sample.thread 0 (Sample.received 128 (Sample.frame 20))) = true := by
    decide +kernel
  rintro ⟨res, w', hok, hres⟩
  rw [hok] at hearly
  rcases hres with rfl | ⟨rfl, _, hlen⟩
  · cases hearly
  · have hlt : (w'.pkts 0).len < (w'.pkts 0).offset := of_decide_eq_true hearly
    have hle := lenOf_iff.mp hlen
    have := UInt16.lt_iff_toNat_lt.mp hlt
    omega

end OmniStack
