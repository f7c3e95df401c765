import OmniStack.Modules.Reception
import OmniStack.User

/-! The chains polls return.

`Dpdk::recv` and `UserNode::poll` take packets from the pool and go through their burst
from its end, each time setting a packet's fields and its `next` to the packet before. A
recycled packet still has the fields of its last use; what the loops leave of them is in
nothing the chain shows (`burst_chains`). -/
namespace OmniStack
open Lib
variable {σ : Type} {sys : Sys σ} {checks : Bool}

/-- The mempool hands out as many objects as it is asked for, of those it holds, and a card
gives at most a burst. -/
structure Sys.Honours (sys : Sys σ) : Prop where
  get_length {n : Nat} {w : World σ} {ps : List PacketId} {env : σ} :
    sys.mempoolGet n w = (some ps, env) → ps.length = n
  get_held {n : Nat} {w : World σ} {ps : List PacketId} {env : σ} :
    sys.mempoolGet n w = (some ps, env) → ∀ p, ps.count p ≤ w.free p
  rx_length (port queue : UInt16) (w : World σ) :
    (sys.ethRxBurst port queue Dpdk.burstSize w).1.length ≤ Dpdk.burstSize

/-- No object has been put back twice. -/
def World.HeldOnce (w : World σ) : Prop := ∀ p, w.free p ≤ 1

/-- `head` begins a null-terminated chain of the `n` packets `ps`, and a poll that returns it
pushes a task for each of them on each link. -/
structure Chained (w : World σ) (head : PacketId) (n : Nat) (ps : List PacketId) : Prop where
  chain : Worker.ChainOf w.pkts (some head) ps
  nodup : ps.Nodup
  length : ps.length = n
  tasks : ∀ links queue, Worker.pushLinks w.pkts head links queue =
    Worker.ofPush (queue.pushAll taskQueueSize (links.flatMap (Worker.linkTasks ps)))

theorem Chained.of_chain {w : World σ} {head : PacketId} {n : Nat} {ps : List PacketId}
    (hchain : Worker.ChainOf w.pkts (some head) ps) (hlen : ps.length = n)
    (hn : n ≤ taskQueueSize + 1) : Chained w head n ps :=
  ⟨hchain, hchain.nodup, hlen, Worker.pushLinks_eq hchain (hlen ▸ hn)⟩

/-! ### The pool -/

/-- What is taken is no longer there. -/
theorem PacketPool.take_free (w : World σ) (ps : List PacketId) (q : PacketId) :
    (PacketPool.take w ps).free q = w.free q - ps.count q := by
  induction ps generalizing w with
  | nil => rfl
  | cons p rest ih =>
    rw [PacketPool.take, ih, List.count_cons]
    show (if q = p then w.free q - 1 else w.free q) - rest.count q = _
    by_cases hq : q = p
    · subst hq
      rw [if_pos rfl, if_pos BEq.rfl]
      omega
    · have hne : ¬ (p == q) = true := fun h => hq (beq_iff_eq.mp h).symm
      rw [if_neg hq, if_neg hne, Nat.add_zero]

theorem PacketPool.take_mbufs (w : World σ) (ps : List PacketId) :
    (PacketPool.take w ps).mbufs = w.mbufs := by
  induction ps generalizing w with
  | nil => rfl
  | cons p rest ih => rw [PacketPool.take, ih]

theorem PacketPool.allocate_mbufs {w w' : World σ} {res : Result PacketId}
    (h : PacketPool.allocate sys w = .ok (res, w')) : w'.mbufs = w.mbufs := by
  unfold PacketPool.allocate PacketPool.allocateMany at h
  rcases hget : sys.mempoolGet 1 w with ⟨_ | _ | ⟨p, ps⟩, env⟩
  · simp only [hget, Except.ok.injEq, Prod.mk.injEq] at h
    rw [← h.2]
  · simp only [hget, reduceCtorEq] at h
  · simp only [hget, Except.ok.injEq, Prod.mk.injEq] at h
    rw [← h.2, PacketPool.take_mbufs]

/-- An allocation returns; the pool refuses it, or gives a packet it held and no longer holds,
as it was left. -/
theorem PacketPool.allocate_honoured (hsys : sys.Honours) {w : World σ} (honce : w.HeldOnce) :
    ∃ res w', PacketPool.allocate sys w = .ok (res, w') ∧ w'.pkts = w.pkts ∧
      w'.mbufs = w.mbufs ∧ w'.HeldOnce ∧ (∀ q, w.free q = 0 → w'.free q = 0) ∧
      ((res = .error .memoryError ∧ ∃ env, sys.mempoolGet 1 w = (none, env) ∧ w' = {w with env}) ∨
        ∃ p, res = .ok p ∧ 0 < w.free p ∧ w'.free p = 0 ∧ w'.log = w.log ++ [.allocated p]) := by
  unfold PacketPool.allocate PacketPool.allocateMany
  cases hget : sys.mempoolGet 1 w with
  | mk objs env =>
    cases objs with
    | none => exact ⟨_, _, rfl, rfl, rfl, honce, fun _ h => h, .inl ⟨rfl, env, rfl, rfl⟩⟩
    | some ps =>
      obtain ⟨p, rfl⟩ := List.length_eq_one_iff.mp (hsys.get_length hget)
      have hheld := hsys.get_held hget p
      rw [List.count_singleton_self] at hheld
      have hfree (q : PacketId) := PacketPool.take_free {w with env} [p] q
      obtain ⟨hpkts, -, -, hlog⟩ := PacketPool.take_spec {w with env} [p]
      refine ⟨_, _, rfl, hpkts, PacketPool.take_mbufs _ _, fun q => ?_, fun q hq => ?_,
        .inr ⟨p, rfl, hheld, ?_, hlog⟩⟩
      · rw [hfree q]
        exact Nat.le_trans (Nat.sub_le _ _) (honce q)
      · rw [hfree q]
        show w.free q - _ = 0
        omega
      · rw [hfree p, List.count_singleton_self]
        exact Nat.sub_eq_zero_of_le (honce p)

/-! ### Packets put in front of a chain -/

theorem Worker.ChainOf.push {w : World σ} {ret : Option PacketId} {qs : List PacketId}
    (h : Worker.ChainOf w.pkts ret qs) {p : PacketId} (hp : p ∉ qs) {pkt : Packet}
    (hnext : pkt.next = ret) : Worker.ChainOf (w.setPkt p pkt).pkts (some p) (p :: qs) := by
  apply Worker.ChainOf.cons
  rw [World.setPkt_pkts_same, hnext]
  apply h.congr
  intro q hq
  have hne : q ≠ p := fun heq => hp (heq ▸ hq)
  rw [World.setPkt_pkts_ne _ _ hne]

/-- What holds of the chain's packets still does. -/
theorem World.setPkt_forall₂ {α : Type} {P : α → Packet → Prop} {w : World σ} {as : List α}
    {qs : List PacketId} (h : List.Forall₂ (fun a q => P a (w.pkts q)) as qs) {p : PacketId}
    (hp : p ∉ qs) (pkt : Packet) :
    List.Forall₂ (fun a q => P a ((w.setPkt p pkt).pkts q)) as qs := by
  induction h with
  | nil => exact .nil
  | cons ha _ ih =>
    refine .cons ?_ (ih (List.not_mem_of_not_mem_cons hp))
    rwa [World.setPkt_pkts_ne _ _ (List.ne_of_not_mem_cons hp).symm]

/-! ### Received bursts -/

namespace Dpdk

/-- The world when the card has given its burst. -/
def arrived (sys : Sys σ) (self : Dpdk) (w : World σ) : World σ :=
  putRx {w with env := (sys.ethRxBurst self.port self.queue burstSize w).2}
    (sys.ethRxBurst self.port self.queue burstSize w).1

/-- The frame ends within the range of the packet's offsets. -/
def FrameEnds (mbuf : Mbuf) : Prop := mbuf.dataOff.toNat + mbuf.pktLen.toNat ≤ 65535

instance (mbuf : Mbuf) : Decidable (FrameEnds mbuf) := inferInstanceAs (Decidable (_ ≤ _))

/-- The packet's fields are the mbuf's. -/
structure FromMbuf (checks : Bool) (nic : UInt16) (m : MbufPtr) (mbuf : Mbuf) (pkt : Packet) :
    Prop where
  data : pkt.data = .room m
  offset : pkt.offset = mbuf.dataOff
  len : ∃ n, pkt.lenOf checks = .ok n ∧ n.toNat = mbuf.pktLen.toNat
  nic : pkt.nic = nic
  bufTy : pkt.bufTy = .mbuf m

theorem putRx_pool (w : World σ) (rx : List RxMbuf) : (putRx w rx).free = w.free := by
  induction rx generalizing w with
  | nil => rfl
  | cons m rest ih => exact ih _

/-- A received mbuf's buffer is its data room. -/
theorem putRx_room (w : World σ) (rx : List RxMbuf) {m : MbufPtr} (hm : m ∈ rx.map RxMbuf.ptr) :
    ((putRx w rx).mbufs m).bufAddr.1 = .room m := by
  have key (rx : List RxMbuf) : ∀ w : World σ, m ∈ rx.map RxMbuf.ptr ∨
      (w.mbufs m).bufAddr.1 = .room m → ((putRx w rx).mbufs m).bufAddr.1 = .room m := by
    induction rx with
    | nil =>
      intro w h
      rcases h with h | h
      · cases h
      · exact h
    | cons r rest ih =>
      intro w h
      apply ih
      by_cases hr : m = r.ptr
      · subst hr
        refine .inr ?_
        show (if r.ptr = r.ptr then _ else w.mbufs r.ptr).bufAddr.1 = .room r.ptr
        rw [if_pos rfl]
      · rcases h with h | h
        · exact .inl ((List.mem_cons.mp h).resolve_left hr)
        · refine .inr ?_
          show (if m = r.ptr then _ else w.mbufs m).bufAddr.1 = .room m
          rw [if_neg hr]
          exact h
  exact key rx w (.inl hm)

/-- What the loop sets up for one mbuf. -/
theorem fromMbuf_set (checks : Bool) (self : Dpdk) {m : MbufPtr} {mbuf : Mbuf}
    (hroom : mbuf.bufAddr.1 = .room m)
    (hends : FrameEnds mbuf) (pkt : Packet) (ret : Option PacketId) :
    ∃ pkt', ({pkt with nic := self.nic, offset := mbuf.dataOff} : Packet).setLen checks
        mbuf.pktLen.toUInt16 = .ok pkt' ∧
      FromMbuf checks self.nic m mbuf
        {pkt' with data := mbuf.bufAddr.1, next := ret, bufTy := .mbuf m} := by
  have hlen : mbuf.pktLen.toUInt16.toNat = mbuf.pktLen.toNat := by
    rw [UInt32.toNat_toUInt16]
    exact Nat.mod_eq_of_lt (by have := hends; unfold FrameEnds at this; omega)
  have hfits : mbuf.pktLen.toUInt16.toNat + mbuf.dataOff.toNat < 2 ^ 16 := by
    have := hends
    unfold FrameEnds at this
    omega
  refine ⟨_, Packet.setLen_ok checks hfits, ⟨hroom, rfl, ⟨mbuf.pktLen.toUInt16, ?_, hlen⟩, rfl,
    rfl⟩⟩
  have hsum := toNat_add16 hfits
  show sub16 checks (mbuf.pktLen.toUInt16 + mbuf.dataOff) mbuf.dataOff = _
  rw [sub16_ok checks (by omega), UInt16.add_sub_cancel]

/-- The packets of a chain have been taken from the pool and set up from these mbufs. -/
structure Filled (checks : Bool) (nic : UInt16) (mbufs : MbufPtr → Mbuf) (w : World σ)
    (ret : Option PacketId) (ms : List MbufPtr) (ps : List PacketId) : Prop where
  chain : Worker.ChainOf w.pkts ret ps
  fields : List.Forall₂ (fun m p => FromMbuf checks nic m (mbufs m) (w.pkts p)) ms ps
  taken : ∀ p ∈ ps, w.free p = 0
  once : w.HeldOnce

/-- One packet more, in front of the chain. -/
theorem Filled.push {nic : UInt16} {mbufs : MbufPtr → Mbuf} {w : World σ} {ret : Option PacketId}
    {ms : List MbufPtr} {ps : List PacketId} (h : Filled checks nic mbufs w ret ms ps)
    {p : PacketId} (hp : p ∉ ps) (hfree : w.free p = 0) {m : MbufPtr} {pkt : Packet}
    (hnext : pkt.next = ret) (hpkt : FromMbuf checks nic m (mbufs m) pkt) :
    Filled checks nic mbufs (w.setPkt p pkt) (some p) (m :: ms) (p :: ps) where
  chain := h.chain.push hp hnext
  fields := by
    refine .cons (by rwa [World.setPkt_pkts_same]) ?_
    exact World.setPkt_forall₂ h.fields hp pkt
  taken q hq := by
    rcases List.mem_cons.mp hq with rfl | hq
    · exact hfree
    · exact h.taken q hq
  once := h.once

/-- The pool refuses one of `n` packets, when it has given those before. -/
def RunsOut (sys : Sys σ) (n : Nat) (w w' : World σ) : Prop :=
  ∃ (v : World σ) (env : σ) (ps : List PacketId), sys.mempoolGet 1 v = (none, env) ∧
    w' = {v with env} ∧ v.log = w.log ++ ps.map .allocated ∧ ps.length < n

/-- The loop gives every mbuf a packet, unless the pool refuses one. -/
theorem recvLoop_filled (checks : Bool) (hsys : sys.Honours) (self : Dpdk) {mbufs : MbufPtr → Mbuf}
    {ms : List MbufPtr} (hroom : ∀ m ∈ ms, (mbufs m).bufAddr.1 = .room m)
    (hends : ∀ m ∈ ms, FrameEnds (mbufs m)) {w : World σ} (hmbufs : w.mbufs = mbufs)
    {ret : Option PacketId} {done : List MbufPtr} {ps : List PacketId}
    (h : Filled checks self.nic mbufs w ret done ps) :
    ∃ res w', recvLoop sys checks self ms ret w = .ok (res, w') ∧
      (res = .error .memoryError ∧ RunsOut sys ms.length w w' ∨ ∃ head ps', res = .ok head ∧
        Filled checks self.nic mbufs w' head (ms.reverse ++ done) ps') := by
  induction ms generalizing ret done ps w with
  | nil => exact ⟨_, _, rfl, .inr ⟨ret, ps, rfl, h⟩⟩
  | cons m rest ih =>
    obtain ⟨res, w₁, halloc, hpkts, hmbufs₁, honce, hfree, hres⟩ :=
      PacketPool.allocate_honoured hsys h.once
    rw [recvLoop, halloc, Exec.ok_bind]
    rcases hres with ⟨rfl, env, hget, rfl⟩ | ⟨p, rfl, hheld, hgone, hlog⟩
    · exact ⟨_, _, rfl, .inl ⟨rfl, w, env, [], hget, rfl, (List.append_nil _).symm,
        Nat.succ_pos _⟩⟩
    · obtain ⟨pkt, hset, hfrom⟩ := fromMbuf_set checks self
        (hroom m List.mem_cons_self) (hends m List.mem_cons_self) (w₁.pkts p) ret
      have hp : p ∉ ps := fun hmem => by
        have := h.taken p hmem
        omega
      have h₁ : Filled checks self.nic mbufs w₁ ret done ps :=
        ⟨hpkts ▸ h.chain, hpkts ▸ h.fields, fun q hq => hfree q (h.taken q hq), honce⟩
      have hmem := hmbufs₁.trans hmbufs
      obtain ⟨res, w', hloop, hres⟩ := ih (fun m' hm' => hroom m' (List.mem_cons_of_mem m hm'))
        (fun m' hm' => hends m' (List.mem_cons_of_mem m hm')) (w := w₁.setPkt p _) hmem
        (h₁.push hp hgone rfl hfrom)
      refine ⟨res, w', ?_, ?_⟩
      · subst hmbufs
        simp only [hmbufs₁, hset, Exec.ok_bind]
        exact hloop
      · rcases hres with ⟨rfl, v, env, given, hget, hw', hgiven, hlt⟩ | hfilled
        · refine .inl ⟨rfl, v, env, p :: given, hget, hw', ?_, Nat.succ_lt_succ hlt⟩
          rw [hgiven]
          show w₁.log ++ _ = _
          rw [hlog, List.append_assoc]
          rfl
        · right
          rwa [List.reverse_cons, List.append_assoc]

theorem recv_nop (checks : Bool) {self : Dpdk} {w : World σ} (h : burst sys self w = []) :
    ∃ w', recv sys checks self w = .ok (.error .nop, self, w') := by
  have hnone := List.map_eq_nil_iff.mp h
  unfold recv
  cases hrx : sys.ethRxBurst self.port self.queue burstSize w with
  | mk rx env =>
    rw [hrx] at hnone
    obtain rfl : rx = [] := hnone
    exact ⟨_, rfl⟩

theorem recv_eq (checks : Bool) {self : Dpdk} {w : World σ} (h : burst sys self w ≠ [])
    (hlen : (burst sys self w).length ≤ burstSize) :
    ∃ bufs, recv sys checks self w =
      recvLoop sys checks {self with rxBufs := bufs} (burst sys self w).reverse none
        (arrived sys self w) >>= fun x =>
          match x with
          | (.error e, w') => .ok (.error e, {self with rxBufs := bufs}, w')
          | (.ok (some head), w') => .ok (.ok head, {self with rxBufs := bufs}, w')
          | (.ok none, _) => .error .outOfBounds := by
  have hsome : (sys.ethRxBurst self.port self.queue burstSize w).1 ≠ [] :=
    fun hnil => h (by rw [burst, hnil]; rfl)
  rw [burst, List.length_map] at hlen
  unfold recv burst arrived
  cases hrx : sys.ethRxBurst self.port self.queue burstSize w with
  | mk rx env =>
    rw [hrx] at hsome hlen
    refine ⟨overwrite self.rxBufs (rx.map RxMbuf.ptr), ?_⟩
    simp only [if_neg hsome, if_neg (Nat.not_lt.mpr hlen)]
    rfl

/-- A `recv` returns: there was no mbuf, or the pool refused a packet, or it answers with a chain
of the burst's packets in the burst's order. -/
theorem recv_chains (hsys : sys.Honours) (self : Dpdk) {w : World σ} (honce : w.HeldOnce)
    (hends : ∀ m ∈ burst sys self w, FrameEnds ((arrived sys self w).mbufs m)) :
    ∃ res self' w', recv sys checks self w = .ok (res, self', w') ∧
      (res = .error .nop ∧ burst sys self w = [] ∨
        res = .error .memoryError ∧
          RunsOut sys (burst sys self w).length (arrived sys self w) w' ∨
        ∃ head ps, res = .ok head ∧ Chained w' head (burst sys self w).length ps ∧
          List.Forall₂ (fun m p => FromMbuf checks self.nic m ((arrived sys self w).mbufs m)
            (w'.pkts p)) (burst sys self w) ps) := by
  have hlen : (burst sys self w).length ≤ burstSize := by
    rw [burst, List.length_map]
    exact hsys.rx_length self.port self.queue w
  by_cases hnone : burst sys self w = []
  · obtain ⟨w', hrecv⟩ := recv_nop checks hnone
    exact ⟨_, _, _, hrecv, .inl ⟨rfl, hnone⟩⟩
  · obtain ⟨bufs, hrecv⟩ := recv_eq checks hnone hlen
    have hroom : ∀ m ∈ (burst sys self w).reverse,
        ((arrived sys self w).mbufs m).bufAddr.1 = .room m :=
      fun m hm => putRx_room _ _ (List.mem_reverse.mp hm)
    have hempty : Filled checks self.nic (arrived sys self w).mbufs (arrived sys self w) none
        [] [] := by
      refine ⟨.nil, .nil, fun p hp => absurd hp List.not_mem_nil, fun p => ?_⟩
      rw [arrived, putRx_pool]
      exact honce p
    obtain ⟨res, w', hloop, hres⟩ := recvLoop_filled checks hsys
      {self with rxBufs := bufs} hroom (fun m hm => hends m (List.mem_reverse.mp hm)) rfl
      hempty
    rw [hrecv, hloop, Exec.ok_bind]
    rcases hres with ⟨rfl, hrunsOut⟩ | ⟨head, ps, rfl, hfilled⟩
    · rw [List.length_reverse] at hrunsOut
      exact ⟨_, _, _, rfl, .inr (.inl ⟨rfl, hrunsOut⟩)⟩
    · rw [List.reverse_reverse, List.append_nil] at hfilled
      cases head with
      | none =>
        have hps := hfilled.fields.length_eq
        cases hfilled.chain
        exact absurd (List.length_eq_zero_iff.mp hps) hnone
      | some head =>
        exact ⟨_, _, _, rfl, .inr (.inr ⟨head, ps, rfl, .of_chain hfilled.chain
          hfilled.fields.length_eq.symm (Nat.le_trans hlen (by decide)), hfilled.fields⟩)⟩

end Dpdk

/-! ### The user node's bursts -/

namespace UserNode

/-- The packet's fields are those of an empty local buffer. -/
structure Local (checks : Bool) (p : PacketId) (pkt : Packet) : Prop where
  data : pkt.data = .own p
  offset : pkt.offset = defaultOffset
  len : pkt.lenOf checks = .ok 36
  nic : pkt.nic = 0
  bufTy : pkt.bufTy = .localBuf

/-- What the loop sets up. -/
theorem local_set (checks : Bool) (p : PacketId) (pkt : Packet) (ret : Option PacketId) :
    ∃ pkt', ({pkt with data := .own p, bufTy := .localBuf, offset := defaultOffset} :
        Packet).setLen checks 36 = .ok pkt' ∧
      Local checks p {pkt' with nic := 0, next := ret} := by
  have hfits : (36 : UInt16).toNat + defaultOffset.toNat < 2 ^ 16 := by decide
  have hlen : sub16 checks (36 + defaultOffset) defaultOffset = .ok 36 := by
    cases checks <;> rfl
  exact ⟨_, Packet.setLen_ok checks hfits, ⟨rfl, rfl, hlen, rfl, rfl⟩⟩

theorem buildChain_spec (checks : Bool) (l qs : List PacketId) {ret : Option PacketId}
    {w : World σ} (hnodup : (l.reverse ++ qs).Nodup) (hret : Worker.ChainOf w.pkts ret qs)
    (hlocal : ∀ q ∈ qs, Local checks q (w.pkts q)) :
    ∃ ret' w', buildChain checks l ret w = .ok (ret', w') ∧
      Worker.ChainOf w'.pkts ret' (l.reverse ++ qs) ∧
      ∀ q ∈ l.reverse ++ qs, Local checks q (w'.pkts q) := by
  induction l generalizing ret qs w with
  | nil => exact ⟨ret, w, rfl, hret, hlocal⟩
  | cons p rest ih =>
    rw [List.reverse_cons, List.append_assoc] at hnodup ⊢
    have hp : p ∉ qs := (List.nodup_cons.mp (List.nodup_append.mp hnodup).2.1).1
    obtain ⟨pkt, hset, hpkt⟩ := local_set checks p (w.pkts p) ret
    rw [buildChain, hset, Exec.ok_bind]
    apply ih _ hnodup (hret.push hp rfl)
    intro q hq
    by_cases heq : q = p
    · subst heq
      rwa [World.setPkt_pkts_same]
    · rw [World.setPkt_pkts_ne _ _ heq]
      exact hlocal q (List.mem_of_ne_of_mem heq hq)

/-- A poll returns: the pool refused the burst, or it answers with a chain of 32 packets. -/
theorem poll_chains (hsys : sys.Honours) {w : World σ} (honce : w.HeldOnce) :
    ∃ res w', poll sys checks w = .ok (res, w') ∧
      (res = .error .memoryError ∧ (sys.mempoolGet burstSize w).1 = none ∨
        ∃ head ps, res = .ok head ∧ Chained w' head burstSize ps ∧
          ∀ p ∈ ps, Local checks p (w'.pkts p)) := by
  unfold poll PacketPool.allocateMany
  cases hget : sys.mempoolGet burstSize w with
  | mk objs env =>
    cases objs with
    | none => exact ⟨_, _, rfl, .inl ⟨rfl, rfl⟩⟩
    | some ps =>
      have hlen := hsys.get_length hget
      have hnodup : ps.Nodup := List.nodup_iff_count.mpr fun p =>
        Nat.le_trans (hsys.get_held hget p) (honce p)
      obtain ⟨ret, w', hbuild, hchain, hlocal⟩ := buildChain_spec checks
        ps.reverse [] (w := PacketPool.take {w with env} ps) (by simpa using hnodup)
        .nil (by simp)
      rw [List.reverse_reverse, List.append_nil] at hchain hlocal
      simp only [hbuild, Exec.ok_bind]
      cases ret with
      | none =>
        cases hchain
        cases hlen
      | some head =>
        exact ⟨_, _, rfl, .inr ⟨head, ps, rfl, .of_chain hchain hlen (by decide), hlocal⟩⟩

end UserNode

namespace Dpdk.Sample

/-- A pool of 64 objects, and a card that gives mbufs 7 and 8. -/
def pooled : Sys Unit where
  __ := scarce 0
  mempoolGet := fun n w =>
    let ps := ((List.range 64).filter fun p => 0 < w.free p).take n
    (if ps.length = n then some ps else none, ())

theorem pooled_get {n : Nat} {w : World Unit} {ps : List PacketId} {env : Unit}
    (h : pooled.mempoolGet n w = (some ps, env)) :
    ps = ((List.range 64).filter fun p => 0 < w.free p).take n ∧ ps.length = n := by
  by_cases hn : (((List.range 64).filter fun p => 0 < w.free p).take n).length = n
  · simp only [pooled, if_pos hn, Prod.mk.injEq, Option.some.injEq] at h
    obtain ⟨rfl, _⟩ := h
    exact ⟨rfl, hn⟩
  · simp only [pooled, if_neg hn, Prod.mk.injEq] at h
    cases h.1

theorem pooled_honours : pooled.Honours where
  get_length h := (pooled_get h).2
  get_held {n w ps env} h p := by
    obtain ⟨rfl, _⟩ := pooled_get h
    have hsub := List.take_sublist n ((List.range 64).filter fun p => 0 < w.free p)
    by_cases hp : p ∈ (List.range 64).filter fun p => 0 < w.free p
    · have hnodup : ((List.range 64).filter fun p => 0 < w.free p).Nodup :=
        List.nodup_range.filter _
      have hle := List.nodup_iff_count.mp (hnodup.sublist hsub) p
      have hpos := of_decide_eq_true (List.mem_filter.mp hp).2
      omega
    · rw [List.count_eq_zero_of_not_mem fun hmem => hp (hsub.subset hmem)]
      exact Nat.zero_le _
  rx_length _ _ _ := by
    show 2 ≤ 64
    omega

end Dpdk.Sample

end OmniStack
