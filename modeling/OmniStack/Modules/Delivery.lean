import Mathlib.Algebra.Order.BigOperators.Group.List
import Mathlib.Data.List.Forall2
import Mathlib.Data.List.Nodup
import OmniStack.Lib.Custody
import OmniStack.Lib.Run
import OmniStack.Modules.Transmit

/-! Every packet sent is transmitted exactly once.

The card keeps a journal of an adapter's mbufs: when they are allocated, and when it takes
them, with what is in them then. Between calls the entries of `txBufs` are distinct mbufs
allocated and not taken since (`Ready`), and what the card has taken followed by what waits
is one mbuf for each packet sent, in order, that describes it (`Sent`). -/
namespace OmniStack
open Lib Lib.Custody

/-- What happens to an adapter's mbufs; the card takes one with what is in it. -/
abbrev MbufEvent := Custody MbufPtr Mbuf

/-- The library as far as transmission goes, with a journal of it in the environment. -/
structure Sys.Journals {σ : Type} (sys : Sys σ) (journal : σ → List MbufEvent) : Prop where
  /-- `rte_pktmbuf_alloc_bulk` succeeds, with distinct mbufs that are not in use -/
  alloc : ∀ pool n w, ∃ ms env, sys.pktmbufAllocBulk pool n w = (some ms, env) ∧ ms.length = n ∧
    (ms.map Prod.fst).Nodup ∧ (∀ m ∈ ms.map Prod.fst, ¬ Outstanding (journal w.env) m) ∧
    journal env = journal w.env ++ (ms.map Prod.fst).map .allocated
  /-- `rte_eth_tx_burst` takes a prefix of what it is offered, maybe nothing -/
  burst : ∀ port queue ms w, ∃ nbTx done env, sys.ethTxBurst port queue ms w = (nbTx, done, env) ∧
    nbTx ≤ ms.length ∧
    journal env = journal w.env ++ (ms.take nbTx).map fun m => .taken m (w.mbufs m)

/-- A `rte_pktmbuf_alloc_bulk` that succeeds, as the journal sees it. `refusals` counts the ones
that do not. -/
def Sys.Grants {σ : Type} (sys : Sys σ) (journal : σ → List MbufEvent) (refusals : σ → Nat)
    (pool n : Nat) (w : World σ) : Prop :=
  ∃ ms env, sys.pktmbufAllocBulk pool n w = (some ms, env) ∧ ms.length = n ∧
    (ms.map Prod.fst).Nodup ∧ (∀ m ∈ ms.map Prod.fst, ¬ Outstanding (journal w.env) m) ∧
    journal env = journal w.env ++ (ms.map Prod.fst).map .allocated ∧
    refusals env = refusals w.env

/-- `rte_eth_tx_burst` as the journal sees it. -/
def Sys.TakesPrefix {σ : Type} (sys : Sys σ) (journal : σ → List MbufEvent)
    (refusals : σ → Nat) : Prop :=
  ∀ port queue ms w, ∃ nbTx done env, sys.ethTxBurst port queue ms w = (nbTx, done, env) ∧
    nbTx ≤ ms.length ∧
    journal env = journal w.env ++ ((ms.take nbTx).map fun m => .taken m (w.mbufs m)) ∧
    refusals env = refusals w.env

theorem Sys.Journals.grants {σ : Type} {sys : Sys σ} {journal : σ → List MbufEvent}
    (hsys : sys.Journals journal) (pool n : Nat) (w : World σ) :
    sys.Grants journal (fun _ => 0) pool n w := by
  obtain ⟨ms, env, halloc, hlen, hnodup, hfresh, hjournal⟩ := hsys.alloc pool n w
  exact ⟨ms, env, halloc, hlen, hnodup, hfresh, hjournal, rfl⟩

theorem Sys.Journals.takesPrefix {σ : Type} {sys : Sys σ} {journal : σ → List MbufEvent}
    (hsys : sys.Journals journal) : sys.TakesPrefix journal fun _ => 0 := by
  intro port queue ms w
  obtain ⟨nbTx, done, env, hburst, hle, hjournal⟩ := hsys.burst port queue ms w
  exact ⟨nbTx, done, env, hburst, hle, hjournal, rfl⟩

/-- The mbuf says where the packet's content is, how long it is and whom to call back for. -/
def Describes (sent : MbufPtr × Mbuf) (packet : PacketId × Packet) : Prop :=
  sent.2.bufAddr = (packet.2.data, packet.2.offset.toNat) ∧ sent.2.dataOff = 0 ∧
    sent.2.dataLen = packet.2.len - packet.2.offset ∧
    sent.2.pktLen = (packet.2.len - packet.2.offset).toUInt32 ∧
    sent.2.bufLen = packet.2.len - packet.2.offset ∧ sent.2.shinfo = some ⟨packet.1, 1⟩

namespace Dpdk
variable {σ : Type} {sys : Sys σ} {checks : Bool} {journal : σ → List MbufEvent}
  {refusals : σ → Nat}

theorem overwrite_toList (bufs : Vector MbufPtr 64) {ptrs : List MbufPtr}
    (h : ptrs.length ≤ 64) :
    (overwrite bufs ptrs).toList = ptrs ++ bufs.toList.drop ptrs.length := by
  apply List.ext_getElem
  · simp
    omega
  · intro i hi hi'
    simp only [overwrite, Vector.getElem_toList, Vector.getElem_ofFn]
    rw [List.getD_eq_getElem?_getD]
    by_cases hlt : i < ptrs.length
    · rw [List.getElem_append_left hlt, List.getElem?_eq_getElem hlt]
      rfl
    · have hle := Nat.le_of_not_lt hlt
      rw [List.getElem_append_right hle, List.getElem?_eq_none hle]
      simp [Nat.add_sub_cancel' hle]

/-! ### The two invariants -/

/-- Every entry of the array is an mbuf of its own, allocated and not taken since. -/
structure Ready (journal : σ → List MbufEvent) (adapter : Dpdk) (w : World σ) : Prop where
  nodup : adapter.txBufs.toList.Nodup
  outstanding : ∀ m ∈ adapter.txBufs.toList, Outstanding (journal w.env) m

/-- Since the journal was at `base`, what the card has taken and what waits is one mbuf for
each packet sent, in order. -/
def Sent (journal : σ → List MbufEvent) (base : List MbufEvent) (sends : List (PacketId × Packet))
    (self : Dpdk) (w : World σ) : Prop :=
  ∃ later, journal w.env = base ++ later ∧ List.Forall₂ Describes
    (takenOf later ++ self.buffered.map fun m => (m, w.mbufs m)) sends

/-! ### Flushing -/

theorem finishAll_keeps {ms : List MbufPtr} {w w' : World σ}
    (h : finishAll checks ms w = .ok w') : w'.mbufs = w.mbufs ∧ w'.env = w.env := by
  induction ms generalizing w with
  | nil =>
    cases h
    exact ⟨rfl, rfl⟩
  | cons m rest ih =>
    simp only [finishAll, Exec.bind_eq_ok] at h
    obtain ⟨mid, hmid, h⟩ := h
    have hkeeps : mid.mbufs = w.mbufs ∧ mid.env = w.env := by
      unfold finish at hmid
      split at hmid
      · unfold packetFreeCallback at hmid
        have hkeeps := PacketPool.deallocate_keeps hmid
        exact hkeeps
      · cases hmid
        exact ⟨rfl, rfl⟩
    rw [(ih h).1, (ih h).2]
    exact hkeeps

theorem handed_none {self : Dpdk} (hzero : self.txIdx = 0) (l : List MbufPtr) (w : World σ) :
    self = {self with txIdx := 0} ∧ w.mbufs = w.mbufs ∧ refusals w.env = refusals w.env ∧
      journal w.env = journal w.env ++
        (l.take self.txIdx).map fun m => .taken m (w.mbufs m) := by
  rw [hzero, List.take_zero, List.map_nil, List.append_nil, ← hzero]
  exact ⟨rfl, rfl, rfl, rfl⟩

/-- The loop hands over what waits, as it is, and touches neither the array nor an mbuf. -/
theorem flushLoop_journal (htakes : sys.TakesPrefix journal refusals) {fuel start : Nat}
    {self self' : Dpdk} {w w' : World σ} (hbound : start + self.txIdx ≤ 64)
    (h : flushLoop sys checks fuel start self w = .ok (self', w')) :
    self' = {self with txIdx := 0} ∧ w'.mbufs = w.mbufs ∧ refusals w'.env = refusals w.env ∧
      journal w'.env = journal w.env ++
        ((self.txBufs.toList.drop start).take self.txIdx).map fun m => .taken m (w.mbufs m) := by
  induction fuel generalizing start self w with
  | zero =>
    simp only [flushLoop] at h
    split at h
    · rename_i hzero
      cases h
      exact handed_none hzero _ _
    · cases h
  | succ fuel ih =>
    simp only [flushLoop] at h
    split at h
    · rename_i hzero
      cases h
      exact handed_none hzero _ _
    · obtain ⟨nbTx, done, env, hburst, htaken, hjournal, hrefusals⟩ := htakes self.port self.queue
        ((self.txBufs.toList.drop start).take self.txIdx) w
      simp only [hburst, Exec.bind_eq_ok] at h
      obtain ⟨mid, hfinish, txIdx, hsub, h⟩ := h
      have hk : nbTx ≤ self.txIdx := htaken.trans (List.length_take_le _ _)
      rw [subWord_ok checks hk, Except.ok.injEq] at hsub
      subst hsub
      obtain ⟨hmbufs, henv⟩ := finishAll_keeps hfinish
      have hrest : start + nbTx + (self.txIdx - nbTx) ≤ 64 := by omega
      obtain ⟨hself, hsame, hcount, hlater⟩ := ih hrest h
      refine ⟨hself, hsame.trans hmbufs, by rw [hcount, henv, hrefusals], ?_⟩
      rw [hlater, henv, hmbufs, hjournal]
      simp only [List.append_assoc, ← List.map_append, ← List.drop_drop]
      rw [take_then_rest _ hk]

theorem putMbufs_env (w : World σ) (ms : List (MbufPtr × Mbuf)) :
    (putMbufs w ms).env = w.env := by
  induction ms generalizing w with
  | nil => rfl
  | cons m rest ih => exact ih _

theorem putMbufs_other (w : World σ) (ms : List (MbufPtr × Mbuf)) {m : MbufPtr}
    (hm : m ∉ ms.map Prod.fst) : (putMbufs w ms).mbufs m = w.mbufs m := by
  induction ms generalizing w with
  | nil => rfl
  | cons put rest ih =>
    simp only [List.map_cons, List.mem_cons, not_or] at hm
    exact (ih _ hm.2).trans (if_neg hm.1)

/-- A refill puts mbufs that are not in use at the front of the array. -/
theorem allocBulk_journal (self : Dpdk) {n : Nat} {w : World σ}
    (hgrants : sys.Grants journal refusals self.pktmbufPool n w) (hle : n ≤ 64) :
    ∃ ptrs w', allocBulk sys self n w =
        (true, {self with txBufs := overwrite self.txBufs ptrs}, w') ∧
      (overwrite self.txBufs ptrs).toList = ptrs ++ self.txBufs.toList.drop n ∧ ptrs.Nodup ∧
      (∀ m ∈ ptrs, ¬ Outstanding (journal w.env) m) ∧
      journal w'.env = journal w.env ++ ptrs.map .allocated ∧
      refusals w'.env = refusals w.env ∧ ∀ m, m ∉ ptrs → w'.mbufs m = w.mbufs m := by
  obtain ⟨ms, env, halloc, hlen, hnodup, hfresh, hjournal, hrefusals⟩ := hgrants
  have hptrs : (ms.map Prod.fst).length = n := by rw [List.length_map, hlen]
  refine ⟨ms.map Prod.fst, putMbufs {w with env} ms, ?_, ?_, hnodup, hfresh, ?_, ?_, ?_⟩
  · simp only [allocBulk, halloc]
  · rw [overwrite_toList _ (hptrs.trans_le hle), hptrs]
  · rw [putMbufs_env, hjournal]
  · rw [putMbufs_env, hrefusals]
  · exact fun m hm => putMbufs_other _ _ hm

/-- Either nothing waits, or the card takes what does, as it is, and a refill is asked for. -/
theorem flush_cases (htakes : sys.TakesPrefix journal refusals) {self self' : Dpdk}
    {w w' : World σ} {res : Result Unit} (hle : self.txIdx ≤ 64)
    (h : flush sys checks self w = .ok (res, self', w')) :
    self.txIdx = 0 ∧ self' = self ∧ w' = w ∨
      self.txIdx ≠ 0 ∧ ∃ w₁ granted, w₁.mbufs = w.mbufs ∧ refusals w₁.env = refusals w.env ∧
        journal w₁.env = journal w.env ++ (self.buffered.map fun m => .taken m (w.mbufs m)) ∧
        allocBulk sys {self with txIdx := 0} self.txIdx w₁ = (granted, self', w') := by
  simp only [flush] at h
  split at h
  · rename_i hzero
    simp only [Except.ok.injEq, Prod.mk.injEq] at h
    obtain ⟨_, rfl, rfl⟩ := h
    exact .inl ⟨hzero, rfl, rfl⟩
  · rename_i hpos
    obtain ⟨⟨mid, w₁⟩, hloop, h⟩ := Exec.bind_eq_ok.mp h
    have hbound : 0 + self.txIdx ≤ 64 := by omega
    obtain ⟨rfl, hmbufs, hrefusals, hjournal⟩ := flushLoop_journal htakes hbound hloop
    rw [List.drop_zero] at hjournal
    dsimp only at h
    split at h <;>
    · rename_i halloc
      simp only [Exec.pure_eq_ok, Prod.mk.injEq] at h
      obtain ⟨_, rfl, rfl⟩ := h
      exact .inr ⟨hpos, w₁, _, hmbufs, hrefusals, hjournal, halloc⟩

/-- What waited was taken and the refill is granted: every entry is an mbuf of its own again. -/
theorem Ready.refilled {self self' : Dpdk} {w w₁ w' : World σ} {granted : Bool}
    (hle : self.txIdx ≤ 64) (hready : Ready journal self w)
    (hjournal : journal w₁.env =
      journal w.env ++ self.buffered.map fun m => .taken m (w.mbufs m))
    (hgrants : sys.Grants journal refusals self.pktmbufPool self.txIdx w₁)
    (halloc : allocBulk sys {self with txIdx := 0} self.txIdx w₁ = (granted, self', w')) :
    self'.txIdx = 0 ∧ Ready journal self' w' ∧ ∃ ptrs : List MbufPtr, ptrs.Nodup ∧
      journal w'.env = journal w₁.env ++ ptrs.map .allocated ∧
      refusals w'.env = refusals w₁.env ∧ ∀ m, m ∉ ptrs → w'.mbufs m = w₁.mbufs m := by
  obtain ⟨ptrs, w₂, halloc', hbufs, hnodup, hfresh, hlater, hrefusals, hothers⟩ :=
    allocBulk_journal {self with txIdx := 0} hgrants hle
  simp only [halloc', Prod.mk.injEq] at halloc
  obtain ⟨_, rfl, rfl⟩ := halloc
  have hsplit : (self.buffered ++ self.txBufs.toList.drop self.txIdx).Nodup := by
    rw [buffered, List.take_append_drop]
    exact hready.nodup
  rw [hjournal] at hfresh
  obtain ⟨hnodup', hout⟩ := outstanding_refilled w.mbufs hsplit
    (fun m hm => hready.outstanding m (List.mem_of_mem_drop hm)) hnodup hfresh
  refine ⟨rfl, ⟨?_, ?_⟩, ptrs, hnodup, hlater, hrefusals, hothers⟩
  · rw [hbufs]
    exact hnodup'
  · rw [hbufs, hlater, hjournal]
    exact hout

/-- The card has taken what waited, as it was, and then mbufs were allocated. -/
theorem flush_journal (hsys : sys.Journals journal) {self self' : Dpdk} {w w' : World σ}
    {res : Result Unit} (hle : self.txIdx ≤ 64) (hready : Ready journal self w)
    (h : flush sys checks self w = .ok (res, self', w')) :
    self'.txIdx = 0 ∧ Ready journal self' w' ∧ ∃ ptrs : List MbufPtr, journal w'.env =
      journal w.env ++ (self.buffered.map fun m => .taken m (w.mbufs m)) ++
        ptrs.map .allocated := by
  rcases flush_cases hsys.takesPrefix hle h with ⟨hzero, rfl, rfl⟩ | ⟨_, w₁, granted, _, _,
    hjournal, halloc⟩
  · exact ⟨hzero, hready, [], by simp [buffered, hzero]⟩
  · obtain ⟨hzero, hready', ptrs, _, hlater, _⟩ :=
      hready.refilled hle hjournal (hsys.grants _ _ _) halloc
    exact ⟨hzero, hready', ptrs, by rw [hlater, hjournal]⟩

theorem Sent.flush (hsys : sys.Journals journal) {base : List MbufEvent}
    {sends : List (PacketId × Packet)} {self self' : Dpdk} {w w' : World σ} {res : Result Unit}
    (hsent : Sent journal base sends self w) (hle : self.txIdx ≤ 64)
    (hready : Ready journal self w) (h : flush sys checks self w = .ok (res, self', w')) :
    Sent journal base sends self' w' := by
  obtain ⟨hzero, _, ptrs, hjournal⟩ := flush_journal hsys hle hready h
  obtain ⟨later, hlater, hmatch⟩ := hsent
  refine ⟨later ++ (self.buffered.map fun m => .taken m (w.mbufs m)) ++ ptrs.map .allocated,
    by rw [hjournal, hlater, List.append_assoc, List.append_assoc, List.append_assoc], ?_⟩
  have hidle : self'.buffered = [] := by rw [buffered, hzero, List.take_zero]
  rw [hidle, List.map_nil, List.append_nil, takenOf_allocated, takenOf_taken]
  exact hmatch

/-! ### Sending -/

/-- A send fills the next entry's mbuf, and no other, with `Packet::iova` next to the packet's
data; then the adapter flushes if the burst is full. -/
theorem send_cases {self self' : Dpdk} {ctx : Context} {p : PacketId} {w w' : World σ}
    {res : Result Unit} {m : MbufPtr} (hslot : self.txBufs[self.txIdx]? = some m)
    (h : send sys checks self ctx p w = .ok (res, self', w')) :
    ∃ w₁, w₁.env = w.env ∧ (∀ m', m' ≠ m → w₁.mbufs m' = w.mbufs m') ∧
      Describes (m, w₁.mbufs m) (p, w.pkts p) ∧
      iova sys checks p (w.pkts p) = .ok (w₁.mbufs m).bufIova ∧
      (self.txIdx + 1 ≠ 64 ∧ self' = {self with txIdx := self.txIdx + 1} ∧ w' = w₁ ∨
        self.txIdx + 1 = 64 ∧
          flush sys checks {self with txIdx := self.txIdx + 1} w₁ = .ok (res, self', w')) := by
  simp only [send, Exec.bind_eq_ok, getUnchecked_eq_ok] at h
  obtain ⟨m', hslot', len, hlen, addr, haddr, ⟨flags, w₂⟩, hoffload, h⟩ := h
  obtain rfl : m = m' := Option.some.inj (hslot.symm.trans hslot')
  generalize hw₀ : World.setMem _ _ _ = w₀ at hlen haddr hoffload h
  have hpkt : w₀.pkts p = {w.pkts p with threadId := ctx.threadId} := by
    rw [← hw₀]
    exact World.setPkt_pkts_same _ _ _
  rw [hpkt] at hlen haddr h
  have hlen := sub16_eq_ok hlen
  have hw₂ := offload_spec hoffload
  have henv : w₂.env = w.env := by rw [hw₂, ← hw₀]; rfl
  have hmbufs : w₂.mbufs = w.mbufs := by rw [hw₂, ← hw₀]; rfl
  generalize hfilled : World.mk _ _ _ _ _ _ _ _ _ = w₁ at h
  refine ⟨w₁, by rw [← hfilled]; exact henv, fun m' hm' => ?_, ?_, ?_, ?_⟩
  · rw [← hfilled, ← hmbufs]
    exact if_neg hm'
  · rw [← hfilled]
    show Describes (m, if m = m then _ else _) (p, w.pkts p)
    rw [if_pos rfl]
    subst hlen
    exact ⟨rfl, rfl, rfl, rfl, rfl, rfl⟩
  · rw [← hfilled]
    show _ = Except.ok (if m = m then _ else _ : Mbuf).bufIova
    rw [if_pos rfl]
    exact haddr
  · split at h
    · rename_i hfull
      obtain ⟨⟨res₁, self₁, w₃⟩, hflush, h⟩ := Exec.bind_eq_ok.mp h
      refine .inr ⟨hfull, hflush.trans ?_⟩
      cases res₁ <;>
      · simp only [Exec.pure_eq_ok, Prod.mk.injEq] at h
        obtain ⟨rfl, rfl, rfl⟩ := h
        rfl
    · rename_i hfull
      simp only [Exec.pure_eq_ok, Prod.mk.injEq] at h
      obtain ⟨_, rfl, rfl⟩ := h
      exact .inl ⟨hfull, rfl, rfl⟩

theorem buffered_next {self : Dpdk} {m : MbufPtr} (hslot : self.txBufs[self.txIdx]? = some m) :
    ({self with txIdx := self.txIdx + 1} : Dpdk).buffered = self.buffered ++ [m] := by
  obtain ⟨hlt, hm⟩ := Vector.getElem?_eq_some_iff.mp hslot
  have hlen : self.txIdx < self.txBufs.toList.length := by rwa [Vector.length_toList]
  show self.txBufs.toList.take (self.txIdx + 1) = _
  rw [← List.take_append_getElem hlen, Vector.getElem_toList, hm]
  rfl

/-- A send that has not flushed has one mbuf more waiting, for its packet. -/
theorem Sent.enqueue {base : List MbufEvent} {sends : List (PacketId × Packet)} {self : Dpdk}
    {w w₁ : World σ} {m : MbufPtr} {packet : PacketId × Packet}
    (hsent : Sent journal base sends self w) (hready : Ready journal self w)
    (hslot : self.txBufs[self.txIdx]? = some m) (henv : w₁.env = w.env)
    (hothers : ∀ m', m' ≠ m → w₁.mbufs m' = w.mbufs m')
    (hdescribes : Describes (m, w₁.mbufs m) packet) :
    Sent journal base (sends ++ [packet]) {self with txIdx := self.txIdx + 1} w₁ := by
  obtain ⟨later, hlater, hmatch⟩ := hsent
  refine ⟨later, by rw [henv, hlater], ?_⟩
  have hnodup : (self.buffered ++ [m]).Nodup := by
    rw [← buffered_next hslot]
    exact hready.nodup.sublist (List.take_sublist _ _)
  have hwaiting : (self.buffered.map fun m' => (m', w₁.mbufs m')) =
      self.buffered.map fun m' => (m', w.mbufs m') := by
    apply List.map_congr_left
    intro m' hm'
    have hne : m' ≠ m := (List.nodup_append.mp hnodup).2.2 m' hm' m (List.mem_singleton.mpr rfl)
    rw [hothers m' hne]
  rw [buffered_next hslot, List.map_append, hwaiting, ← List.append_assoc]
  exact List.rel_append hmatch (.cons hdescribes .nil)

/-! ### Runs of calls -/

/-- A call on the adapter; a send with the packet as it is then. -/
inductive TxCall where
  | send (p : PacketId) (pkt : Packet)
  | flush
  deriving DecidableEq

def TxCall.packet : TxCall → Option (PacketId × Packet)
  | send p pkt => some (p, pkt)
  | flush => none

/-- The packets sent, in order. -/
def sendsOf (calls : List TxCall) : List (PacketId × Packet) := calls.filterMap TxCall.packet

/-- Until the next call the rest of the system changes what it likes but the mbufs that wait. -/
def Between (journal : σ → List MbufEvent) (self : Dpdk) (w w' : World σ) : Prop :=
  journal w'.env = journal w.env ∧ ∀ m ∈ self.buffered, w'.mbufs m = w.mbufs m

/-- A call that returns, whatever it returns. -/
inductive TxStep (sys : Sys σ) (checks : Bool) (journal : σ → List MbufEvent) :
    Dpdk × World σ → TxCall → Dpdk × World σ → Prop where
  | send {self self' : Dpdk} {w mid w' : World σ} {ctx : Context} {p : PacketId}
      {res : Result Unit} : Between journal self w mid →
      send sys checks self ctx p mid = .ok (res, self', w') →
      TxStep sys checks journal (self, w) (.send p (mid.pkts p)) (self', w')
  | flush {self self' : Dpdk} {w mid w' : World σ} {res : Result Unit} :
      Between journal self w mid → flush sys checks self mid = .ok (res, self', w') →
      TxStep sys checks journal (self, w) .flush (self', w')

/-- The adapter between two calls. -/
structure Accounted (journal : σ → List MbufEvent) (base : List MbufEvent)
    (sends : List (PacketId × Packet)) (adapter : Dpdk) (w : World σ) : Prop where
  room : adapter.txIdx < 64
  ready : Ready journal adapter w
  sent : Sent journal base sends adapter w

theorem Accounted.between {base : List MbufEvent} {sends : List (PacketId × Packet)} {self : Dpdk}
    {w w' : World σ} (h : Accounted journal base sends self w) (hrest : Between journal self w w') :
    Accounted journal base sends self w' := by
  obtain ⟨hroom, ⟨hnodup, hout⟩, later, hlater, hmatch⟩ := h
  obtain ⟨hjournal, hkept⟩ := hrest
  refine ⟨hroom, ⟨hnodup, by rwa [hjournal]⟩, later, by rw [hjournal, hlater], ?_⟩
  rwa [List.map_congr_left fun m hm => by rw [hkept m hm]]

theorem Accounted.flush {base : List MbufEvent} {sends : List (PacketId × Packet)}
    {self self' : Dpdk} {w w' : World σ} {res : Result Unit} (hsys : sys.Journals journal)
    (hready : Ready journal self w) (hsent : Sent journal base sends self w)
    (hle : self.txIdx ≤ 64) (h : flush sys checks self w = .ok (res, self', w')) :
    Accounted journal base sends self' w' ∧ self'.txIdx = 0 := by
  obtain ⟨hzero, hready', _⟩ := flush_journal hsys hle hready h
  exact ⟨⟨by omega, hready', hsent.flush hsys hle hready h⟩, hzero⟩

theorem Accounted.send {base : List MbufEvent} {sends : List (PacketId × Packet)}
    {self self' : Dpdk} {ctx : Context} {p : PacketId} {w w' : World σ} {res : Result Unit}
    (hsys : sys.Journals journal) (h : Accounted journal base sends self w)
    (hsend : send sys checks self ctx p w = .ok (res, self', w')) :
    Accounted journal base (sends ++ [(p, w.pkts p)]) self' w' := by
  obtain ⟨hroom, hready, hsent⟩ := h
  have hslot : self.txBufs[self.txIdx]? = some self.txBufs[self.txIdx] :=
    Vector.getElem?_eq_getElem hroom
  obtain ⟨w₁, henv, hothers, hdescribes, _, hnext⟩ := send_cases hslot hsend
  have hsent₁ := hsent.enqueue hready hslot henv hothers hdescribes
  have hready₁ : Ready journal {self with txIdx := self.txIdx + 1} w₁ :=
    ⟨hready.nodup, by rw [henv]; exact hready.outstanding⟩
  rcases hnext with ⟨hfull, rfl, rfl⟩ | ⟨hfull, hflush⟩
  · exact ⟨by show self.txIdx + 1 < 64; omega, hready₁, hsent₁⟩
  · exact (Accounted.flush hsys hready₁ hsent₁ (Nat.le_of_eq hfull) hflush).1

/-- An adapter that has been initialized has had its whole array allocated. -/
theorem init_alloc {self : Dpdk} {nic port numQueues queue : UInt16} {mac : MacAddr}
    {w w' : World σ} (h : init sys new nic port numQueues queue w = .ok (.ok mac, self, w')) :
    ∃ (blank : Dpdk) (w₁ : World σ), blank.txIdx = 0 ∧
      allocBulk sys blank 64 w₁ = (true, self, w') := by
  simp only [init, Exec.bind_eq_ok] at h
  obtain ⟨env, _, pool, _, h⟩ := h
  split at h
  · simp only [Exec.pure_eq_ok, Prod.mk.injEq, reduceCtorEq, false_and] at h
  · rename_i halloc
    split at h
    · simp only [Exec.pure_eq_ok, Prod.mk.injEq, reduceCtorEq, false_and] at h
    · simp only [Exec.pure_eq_ok, Prod.mk.injEq] at h
      obtain ⟨_, rfl, rfl⟩ := h
      exact ⟨_, _, rfl, halloc⟩

theorem Ready.initial {blank self : Dpdk} {w w' : World σ} {granted : Bool}
    (hgrants : sys.Grants journal refusals blank.pktmbufPool 64 w)
    (halloc : allocBulk sys blank 64 w = (granted, self, w')) :
    self.txIdx = blank.txIdx ∧ Ready journal self w' := by
  obtain ⟨ptrs, w₁, halloc', hbufs, hnodup, _, hjournal, _⟩ :=
    allocBulk_journal blank hgrants (Nat.le_refl 64)
  simp only [halloc', Prod.mk.injEq] at halloc
  obtain ⟨_, rfl, rfl⟩ := halloc
  have hall : (overwrite blank.txBufs ptrs).toList = ptrs := by
    rw [hbufs, List.drop_of_length_le (Vector.length_toList).le, List.append_nil]
  refine ⟨rfl, by rwa [hall], fun m hm => ?_⟩
  rw [hjournal]
  exact outstanding_allocated _ hnodup (hall ▸ hm)

theorem init_accounted (hsys : sys.Journals journal) {self : Dpdk}
    {nic port numQueues queue : UInt16} {mac : MacAddr} {w w' : World σ}
    (h : init sys new nic port numQueues queue w = .ok (.ok mac, self, w')) :
    Accounted journal (journal w'.env) [] self w' := by
  obtain ⟨blank, w₁, hzero, halloc⟩ := init_alloc h
  obtain ⟨hkept, hready⟩ := Ready.initial (hsys.grants _ _ _) halloc
  have hidle : self.buffered = [] := by rw [buffered, hkept, hzero, List.take_zero]
  exact ⟨by omega, hready, [], (List.append_nil _).symm, by rw [hidle]; exact .nil⟩

/-- Every packet sent waits or has been taken by the card, once and in order, in an mbuf of
its own. -/
theorem transmits_once (hsys : sys.Journals journal) {self₁ self : Dpdk}
    {nic port numQueues queue : UInt16} {mac : MacAddr} {w₀ w₁ w : World σ} {calls : List TxCall}
    (hinit : init sys new nic port numQueues queue w₀ = .ok (.ok mac, self₁, w₁))
    (hrun : Run (TxStep sys checks journal) (self₁, w₁) calls (self, w)) :
    self.txIdx < 64 ∧ Ready journal self w ∧
      Sent journal (journal w₁.env) (sendsOf calls) self w ∧
      (calls.getLast? = some .flush → self.txIdx = 0) := by
  have hend : Accounted journal (journal w₁.env) (sendsOf calls) self w ∧
      (calls.getLast? = some .flush → self.txIdx = 0) := by
    refine hrun.history (P := fun (calls : List TxCall) (s : Dpdk × World σ) =>
      Accounted journal (journal w₁.env) (sendsOf calls) s.1 s.2 ∧
        (calls.getLast? = some .flush → s.1.txIdx = 0)) (C := fun _ => True)
      (fun calls s call t hs _ hstep => ?_) (fun _ _ => trivial)
      ⟨init_accounted hsys hinit, fun h => by cases h⟩
    rw [sendsOf, List.filterMap_append, List.getLast?_concat]
    cases hstep with
    | send hrest hsend =>
      exact ⟨(hs.1.between hrest).send hsys hsend, fun h => by cases h⟩
    | flush hrest hflush =>
      obtain ⟨hroom, hready, hsent⟩ := hs.1.between hrest
      obtain ⟨hacc, hzero⟩ := Accounted.flush hsys hready hsent hroom.le hflush
      refine ⟨?_, fun _ => hzero⟩
      show Accounted journal _ (sendsOf calls ++ []) _ _
      rwa [List.append_nil]
  exact ⟨hend.1.room, hend.1.ready, hend.1.sent, hend.2⟩

namespace Sample

def ctx : Context := ⟨0, 0, 0, 0, "sample"⟩

/-- An mbuf that has not been in the journal. -/
def fresh (l : List MbufEvent) : MbufPtr := (l.map Custody.object).sum + 1

/-- A card that takes half of what it is offered; the journal is all there is to it. -/
def card : Sys (List MbufEvent) where
  __ := Sys.quiet
  pktmbufAllocBulk := fun _ n w =>
    let ms := (List.range n).map fun i => fresh w.env + i
    (some (ms.map fun m => (m, ⟨(.room m, 0), 0, 0, 128, 0, none, 0, 0, 0, 0⟩)),
      w.env ++ ms.map .allocated)
  ethTxBurst := fun _ _ ms w =>
    let nbTx := (ms.length + 1) / 2
    (nbTx, [], w.env ++ (ms.take nbTx).map fun m => .taken m (w.mbufs m))
  patience := 64

theorem lt_fresh {l : List MbufEvent} {m : MbufPtr} (h : Outstanding l m) : m < fresh l := by
  obtain ⟨before, after, rfl, _⟩ := h
  have hmem : m ∈ (before ++ .allocated m :: after).map Custody.object :=
    List.mem_map.mpr ⟨.allocated m, by simp, rfl⟩
  exact Nat.lt_succ_of_le (List.le_sum_of_mem hmem)

/-- The mbufs from `fresh` on are distinct, and none is in use. -/
theorem unused_from (l : List MbufEvent) (n : Nat) :
    ((List.range n).map fun i => fresh l + i).Nodup ∧
      ∀ m ∈ (List.range n).map fun i => fresh l + i, ¬ Outstanding l m := by
  have hinj : Function.Injective (fresh l + ·) := fun _ _ h => Nat.add_left_cancel h
  refine ⟨List.Nodup.map hinj List.nodup_range, fun m hm hout => ?_⟩
  obtain ⟨i, _, rfl⟩ := List.mem_map.mp hm
  exact absurd (lt_fresh hout) (Nat.not_lt.mpr (Nat.le_add_right _ _))

theorem card_journals : card.Journals id where
  alloc pool n w := by
    refine ⟨_, _, rfl, by simp, ?_⟩
    rw [List.map_map, show Prod.fst ∘ (fun m => (m, _)) = id from rfl, List.map_id]
    obtain ⟨hnodup, hunused⟩ := unused_from w.env n
    exact ⟨hnodup, hunused, rfl⟩
  burst port queue ms w := by
    refine ⟨_, _, _, rfl, ?_, rfl⟩
    show (ms.length + 1) / 2 ≤ ms.length
    omega

/-- Packets 0 and 1 are UDP datagrams. -/
def world : World (List MbufEvent) where
  pkts := fun p => ⟨50, ⟨14, 0⟩, ⟨20, 14⟩, ⟨8, 34⟩, 0, .own p, none, 0, 0, 1, .localBuf⟩
  mem := fun _ i => if i = 12 then 8 else if i = 23 then 0x11 else 0
  mbufs := fun m => ⟨(.room m, 0), 0, 0, 0, 0, none, 0, 0, 0, 0⟩
  free := fun _ => 0
  held := fun _ => 0
  log := []
  rawFreed := []
  wire := []
  env := []

/-- Two packets are sent and the adapter is flushed; the calls, and how many mbufs the card
has taken in the end. -/
def sendTwo : Exec (Result MacAddr × List TxCall × Nat) := do
  let (mac, self₁, w₁) ← init card new 0 0 1 0 world
  let (_, self₂, w₂) ← send card true self₁ ctx 0 w₁
  let (_, self₃, w₃) ← send card true self₂ ctx 1 w₂
  let (_, _, w₄) ← flush card true self₃ w₃
  return (mac, [.send 0 (w₁.pkts 0), .send 1 (w₂.pkts 1), .flush], (takenOf w₄.env).length)

/-- The calls of `sendTwo`. -/
def calls : List TxCall := [.send 0 (world.pkts 0), .send 1 (world.pkts 1), .flush]

end Sample

/-- The two packets have been taken, and none waits. -/
theorem transmits_once_sample :
    ∃ self₁ self w₁ w, Run (TxStep Sample.card true id) (self₁, w₁) Sample.calls (self, w) ∧
      (takenOf w.env).length = 2 ∧ self.txIdx = 0 ∧
      Sent id w₁.env [(0, Sample.world.pkts 0), (1, Sample.world.pkts 1)] self w := by
  have hrun : Sample.sendTwo = .ok (.ok MacAddr.new, Sample.calls, 2) := by decide +kernel
  obtain ⟨⟨mac, self₁, w₁⟩, hinit, hrun⟩ := Exec.bind_eq_ok.mp hrun
  obtain ⟨⟨res₁, self₂, w₂⟩, hfirst, hrun⟩ := Exec.bind_eq_ok.mp hrun
  obtain ⟨⟨res₂, self₃, w₃⟩, hsecond, hrun⟩ := Exec.bind_eq_ok.mp hrun
  obtain ⟨⟨res₃, self, w⟩, hflush, hrun⟩ := Exec.bind_eq_ok.mp hrun
  simp only [Exec.pure_eq_ok, Prod.mk.injEq] at hrun
  obtain ⟨rfl, hcalls, htaken⟩ := hrun
  have hsteps : Run (TxStep Sample.card true id) (self₁, w₁) Sample.calls (self, w) := by
    rw [← hcalls]
    exact .cons (.send ⟨rfl, fun _ _ => rfl⟩ hfirst) (.cons (.send ⟨rfl, fun _ _ => rfl⟩ hsecond)
      (.single (.flush ⟨rfl, fun _ _ => rfl⟩ hflush)))
  obtain ⟨_, _, hsent, hidle⟩ := transmits_once Sample.card_journals hinit hsteps
  exact ⟨self₁, self, w₁, w, hsteps, htaken, hidle rfl, hsent⟩

end Dpdk
end OmniStack
