import OmniStack.Receive

/-! Which frames the receive path lets through.

`Ipv4Receiver` is the only receiver that looks at what it strips, and all it looks at is
the header's length and its time to live. A frame that passes these two tests is
delivered whatever its EtherType, version and protocol say, any other is dropped
(`accepted_iff`). -/
namespace OmniStack
open Lib
variable {σ : Type}

/-! ### The receivers, for any sums -/

theorem EthReceiver.process_inv {checks : Bool} {p : PacketId} {w w' : World σ}
    {res : Result Unit} (h : EthReceiver.process checks p w = .ok (res, w')) :
    res = .ok () ∧ w' = afterEth w p := by
  simp only [process, Exec.bind_eq_ok, Exec.pure_eq_ok, Prod.mk.injEq] at h
  obtain ⟨offset, hadd, hres, hw⟩ := h
  rw [add16_eq_ok hadd] at hw
  exact ⟨hres.symm, hw.symm⟩

theorem Ipv4Receiver.process_inv {checks : Bool} {ctx : Context} {p : PacketId}
    {w w' : World σ} {res : Result Unit}
    (h : Ipv4Receiver.process checks ctx p w = .ok (res, w')) :
    if Refused (headerOf w p) then
      res = .error .dropped ∧ PacketPool.deallocate checks p ctx.threadId
        (w.setPkt p (stripped (w.pkts p) (headerOf w p))) = .ok w'
    else res = .ok () ∧ w' = w.setPkt p (stripped (w.pkts p) (headerOf w p)) := by
  simp only [process, Packet.setLen, Exec.bind_eq_ok, Exec.pure_eq_ok] at h
  obtain ⟨pkt, ⟨len, hlen, hpkt⟩, offset, hadd, h⟩ := h
  subst hpkt
  rw [add16_eq_ok hlen, add16_eq_ok hadd] at h
  have hverdict : (if decide ((headerOf w p).ihl < 5) || (headerOf w p).ttl == 0 then do
        return (.error .dropped, ← PacketPool.deallocate checks p ctx.threadId
          (w.setPkt p (stripped (w.pkts p) (headerOf w p))))
      else .ok (.ok (), w.setPkt p (stripped (w.pkts p) (headerOf w p))) :
      Exec (Result Unit × World σ)) = .ok (res, w') := h
  simp only [refused_iff] at hverdict
  by_cases hrefused : Refused (headerOf w p)
  · rw [if_pos hrefused] at hverdict ⊢
    simp only [Exec.bind_eq_ok, Exec.pure_eq_ok, Prod.mk.injEq] at hverdict
    obtain ⟨w₁, hfreed, hres, hw⟩ := hverdict
    subst hw
    exact ⟨hres.symm, hfreed⟩
  · rw [if_neg hrefused] at hverdict ⊢
    cases hverdict
    exact ⟨rfl, rfl⟩

theorem UdpReceiver.process_inv {checks : Bool} {p : PacketId} {w w' : World σ}
    {res : Result Unit} (h : UdpReceiver.process checks p w = .ok (res, w')) :
    res = .ok () ∧ PacketPool.SameHolding p w w' := by
  simp only [process, Exec.bind_eq_ok, Exec.pure_eq_ok, Prod.mk.injEq] at h
  obtain ⟨offset, -, hres, hw⟩ := h
  subst hw
  refine ⟨hres.symm, rfl, rfl, ?_, ?_⟩
  · rw [World.setPkt_pkts_same]
  · rw [World.setPkt_pkts_same]

/-! ### The verdict -/

/-- The frame's Ethernet header. -/
def ethOf (m : Bytes) (o : Nat) : EthHeader := EthHeader.load m o

/-- The IPv4 header the receivers see: where the window starts once the Ethernet header is
stripped. -/
def ipv4Seen (w : World σ) (p : PacketId) : Ipv4Header :=
  Ipv4Header.load (w.bytes p) ((w.pkts p).offset + EthHeader.size).toNat

theorem headerOf_afterEth (w : World σ) (p : PacketId) :
    Ipv4Receiver.headerOf (afterEth w p) p = ipv4Seen w p := by
  have hbytes : (afterEth w p).bytes p = w.bytes p := World.setPkt_bytes w rfl
  rw [Ipv4Receiver.headerOf, hbytes, afterEth, World.setPkt_pkts_same, ipv4Seen]

theorem stripped_sameHolding (w : World σ) (p : PacketId) :
    PacketPool.SameHolding p w ((afterEth w p).setPkt p
      (Ipv4Receiver.stripped ((afterEth w p).pkts p) (ipv4Seen w p))) := by
  have hpkt : (afterEth w p).pkts p = _ := World.setPkt_pkts_same ..
  refine ⟨rfl, rfl, ?_, ?_⟩
  · rw [World.setPkt_pkts_same, hpkt, Ipv4Receiver.stripped]
  · rw [World.setPkt_pkts_same, hpkt, Ipv4Receiver.stripped]

/-- What the receivers do with a frame when no sum stops them. A delivered packet keeps its
references and its mbuf. -/
def Judged (p : PacketId) (w : World σ) (res : Result Unit) (w' : World σ) : Prop :=
  if Refused (ipv4Seen w p) then res = .error .dropped ∧ PacketPool.DeallocatedOnce p w w'
  else res = .ok () ∧ PacketPool.SameHolding p w w'

theorem receive_judged {checks : Bool} {ctx : Context} {p : PacketId} {w w' : World σ}
    {res : Result Unit} (hcounted : 1 ≤ (w.pkts p).refcnt)
    (h : receive checks ctx p w = .ok (res, w')) : Judged p w res w' := by
  have hsame := stripped_sameHolding w p
  unfold receive at h
  cases heth : EthReceiver.process checks p w with
  | error e => rw [heth] at h; cases h
  | ok out =>
    obtain ⟨r, w₁⟩ := out
    obtain ⟨rfl, rfl⟩ := EthReceiver.process_inv heth
    rw [heth, andThen_ok] at h
    cases hip : Ipv4Receiver.process checks ctx p (afterEth w p) with
    | error e => rw [hip] at h; cases h
    | ok out =>
      obtain ⟨r, w₂⟩ := out
      have hinv := Ipv4Receiver.process_inv hip
      rw [headerOf_afterEth] at hinv
      rw [hip] at h
      unfold Judged
      by_cases hrefused : Refused (ipv4Seen w p)
      · rw [if_pos hrefused] at hinv ⊢
        obtain ⟨rfl, hfreed⟩ := hinv
        have hdropped : (.ok (.error .dropped, w₂) : Exec (Result Unit × World σ)) =
            .ok (res, w') := h
        cases hdropped
        exact ⟨rfl, PacketPool.deallocate_once hcounted hsame hfreed⟩
      · rw [if_neg hrefused] at hinv ⊢
        obtain ⟨rfl, rfl⟩ := hinv
        rw [andThen_ok] at h
        obtain ⟨rfl, hkept⟩ := UdpReceiver.process_inv h
        exact ⟨rfl, hsame.trans hkept⟩

theorem deallocate_unchecked (p : PacketId) (threadId : UInt32) (w : World σ) :
    ∃ w', PacketPool.deallocate false p threadId w = .ok w' := by
  simp only [PacketPool.deallocate]
  split
  · split <;> exact ⟨_, rfl⟩
  · simp only [subWord]
    split <;> exact ⟨_, rfl⟩

/-- Without overflow checks nothing stops them. -/
theorem receive_returns (ctx : Context) (p : PacketId) (w : World σ) :
    ∃ res w', receive false ctx p w = .ok (res, w') := by
  have heth : EthReceiver.process false p w = .ok (.ok (), afterEth w p) := rfl
  have hip : Ipv4Receiver.process false ctx p (afterEth w p) =
      if decide ((ipv4Seen w p).ihl < 5) || (ipv4Seen w p).ttl == 0 then do
        return (.error .dropped, ← PacketPool.deallocate false p ctx.threadId
          ((afterEth w p).setPkt p
            (Ipv4Receiver.stripped ((afterEth w p).pkts p) (ipv4Seen w p))))
      else .ok (.ok (), (afterEth w p).setPkt p
        (Ipv4Receiver.stripped ((afterEth w p).pkts p) (ipv4Seen w p))) := by
    rw [← headerOf_afterEth]
    rfl
  rw [receive, heth, andThen_ok, hip]
  split
  · obtain ⟨w', hw'⟩ := deallocate_unchecked p ctx.threadId ((afterEth w p).setPkt p
      (Ipv4Receiver.stripped ((afterEth w p).pkts p) (ipv4Seen w p)))
    rw [hw']
    exact ⟨_, _, rfl⟩
  · exact ⟨_, _, rfl⟩

/-- **Which frames are delivered**: when the receivers return, those whose header is at
least five words long and whose time to live is not zero; every other is dropped and its
packet given up once. -/
theorem accepted_iff (checks : Bool) (ctx : Context) {p : PacketId} {w : World σ}
    (hcounted : 1 ≤ (w.pkts p).refcnt) :
    (∀ res w', receive checks ctx p w = .ok (res, w') →
      (res = .ok () ↔ 5 ≤ (ipv4Seen w p).ihl.toNat ∧ (ipv4Seen w p).ttl ≠ 0) ∧
        Judged p w res w') ∧
      (checks = false → ∃ res w', receive checks ctx p w = .ok (res, w')) := by
  constructor
  · intro res w' h
    have hjudged := receive_judged hcounted h
    refine ⟨?_, hjudged⟩
    have hsound : ¬ Refused (ipv4Seen w p) ↔
        5 ≤ (ipv4Seen w p).ihl.toNat ∧ (ipv4Seen w p).ttl ≠ 0 := by
      rw [Refused, not_or, Nat.not_lt]
    rw [← hsound]
    unfold Judged at hjudged
    split at hjudged
    · rename_i hrefused
      refine iff_of_false ?_ (not_not_intro hrefused)
      rw [hjudged.1]
      intro h
      cases h
    · rename_i haccepted
      exact iff_of_true hjudged.1 haccepted
  · intro hchecks
    subst hchecks
    exact receive_returns ctx p w

/-! ### A frame that is neither IPv4 nor UDP -/

namespace Sample

/-- The bytes of an IPv6 EtherType, version 6 and the TCP protocol number, with a header
length of five words and a time to live of 64. -/
def ipv6TcpFrame : List UInt8 :=
  List.replicate 12 0 ++ [0x86, 0xdd, 0x65, 0, 0, 46, 0, 0, 0, 0, 64, 0x06] ++
    List.replicate 36 0

end Sample

theorem accepted_iff_sample :
    (∀ res w', receive true Sample.thread 0 (Sample.received 128 Sample.ipv6TcpFrame) =
        .ok (res, w') →
      (res = .ok () ↔ 5 ≤ (ipv4Seen (Sample.received 128 Sample.ipv6TcpFrame) 0).ihl.toNat ∧
        (ipv4Seen (Sample.received 128 Sample.ipv6TcpFrame) 0).ttl ≠ 0) ∧
        Judged 0 (Sample.received 128 Sample.ipv6TcpFrame) res w') ∧
      (true = false → ∃ res w', receive true Sample.thread 0
        (Sample.received 128 Sample.ipv6TcpFrame) = .ok (res, w')) :=
  accepted_iff true Sample.thread (Nat.le_refl 1)

/-- **An IPv6 frame with a TCP header is delivered**, by either build. -/
theorem ipv6_tcp_delivered :
    Received (Sample.received 128 Sample.ipv6TcpFrame) 0 128 60 ∧
      (∀ checks, ∃ w', receive checks Sample.thread 0
        (Sample.received 128 Sample.ipv6TcpFrame) = .ok (.ok (), w')) ∧
      (ethOf ((Sample.received 128 Sample.ipv6TcpFrame).bytes 0) 128).etherTy ≠ EtherType.ipv4 ∧
      (ipv4Of ((Sample.received 128 Sample.ipv6TcpFrame).bytes 0) 128).version ≠ 4 ∧
      (ipv4Of ((Sample.received 128 Sample.ipv6TcpFrame).bytes 0) 128).protocol ≠
        Ipv4ProtoType.udp := by
  refine ⟨⟨rfl, rfl, Nat.le_refl 1⟩, ?_, by decide +kernel, by decide +kernel, by decide +kernel⟩
  intro checks
  have hsums : SumsFit ((Sample.received 128 Sample.ipv6TcpFrame).bytes 0) 128 := by
    constructor <;> decide +kernel
  have haccepted : ¬ Refused (ipv4Of ((Sample.received 128 Sample.ipv6TcpFrame).bytes 0) 128) := by
    decide +kernel
  obtain ⟨w', hw', -, -⟩ := receive_delivered checks Sample.thread (p := 0)
    (w := Sample.received 128 Sample.ipv6TcpFrame) rfl hsums haccepted (by decide +kernel)
  exact ⟨w', hw'⟩

end OmniStack
