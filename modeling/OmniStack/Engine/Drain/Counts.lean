import OmniStack.Engine.Books

/-! The reference counts in the drain phase.

While the drain loop runs, a packet is referred to by the tasks of the queue, by the call
that has taken one of them, and by the adapters that still transmit it. Everything that
happens is one of five small steps (`Micro`): a task is taken off the queue, its reference
is given back to the pool, handed to an adapter or spread over links, and a card is done
with a transmission. A count that is right (`Count.Settled`) stays right at every one of
them, and a packet goes back to the pool, with its mbuf, at the one step that takes its last
reference (`drain_exact`). -/
namespace OmniStack
open Lib

/-- What the counts are about, and what has been given back. -/
structure Holdings where
  refcnt : PacketId → Nat
  free : PacketId → Nat
  held : PacketId → Nat
  /-- the received mbuf that goes with a packet -/
  mbufs : PacketId → List MbufPtr
  log : List PoolEvent
  rawFreed : List MbufPtr

namespace Holdings

def hold (h : Holdings) (p : PacketId) : Holdings := {h with held := bump h.held p}

def unhold (h : Holdings) (p : PacketId) : Holdings := {h with held := lower h.held p}

def setRefcnt (h : Holdings) (p : PacketId) (n : Nat) : Holdings :=
  {h with refcnt := fun q => if q = p then n else h.refcnt q}

/-- The pool has `p` back, and the card's pool its mbuf. -/
def putBack (h : Holdings) (p : PacketId) : Holdings :=
  {h with
    free := bump h.free p
    log := h.log ++ [.returned p]
    rawFreed := h.rawFreed ++ h.mbufs p}

/-- `PacketPool::deallocate` -/
def deallocate (h : Holdings) (p : PacketId) : Holdings :=
  if h.refcnt p = 1 then h.putBack p
  else h.setRefcnt p (if h.refcnt p = 0 then 2 ^ 64 - 1 else h.refcnt p - 1)

/-- `packet_free_callback` -/
def finish (h : Holdings) (p : PacketId) : Holdings := (h.unhold p).deallocate p

/-- The packet, if this is its last reference. -/
def lastOf (h : Holdings) (p : PacketId) : List PacketId := if h.refcnt p = 1 then [p] else []

theorem deallocate_last {h : Holdings} {p : PacketId} (hlast : h.refcnt p = 1) :
    h.deallocate p = h.putBack p ∧ h.lastOf p = [p] := ⟨if_pos hlast, if_pos hlast⟩

theorem deallocate_shared {h : Holdings} {p : PacketId} (hshared : h.refcnt p ≠ 1) :
    h.deallocate p = h.setRefcnt p (if h.refcnt p = 0 then 2 ^ 64 - 1 else h.refcnt p - 1) ∧
      h.lastOf p = [] := ⟨if_neg hshared, if_neg hshared⟩

/-- The last reference puts the packet back, and its mbuf. -/
theorem deallocate_returns (h : Holdings) (p : PacketId) :
    (h.deallocate p).log = h.log ++ (h.lastOf p).map .returned ∧
      (h.deallocate p).rawFreed = h.rawFreed ++ (h.lastOf p).flatMap h.mbufs ∧
      ∀ q, (h.deallocate p).free q = h.free q + (h.lastOf p).count q := by
  by_cases hlast : h.refcnt p = 1
  · rw [(deallocate_last hlast).1, (deallocate_last hlast).2]
    refine ⟨rfl, by rw [List.flatMap_singleton]; rfl, fun q => ?_⟩
    by_cases hq : q = p
    · rw [hq, List.count_singleton_self]
      exact bump_same _ _
    · rw [List.count_eq_zero_of_not_mem (by simpa using hq)]
      exact bump_ne _ hq
  · rw [(deallocate_shared hlast).1, (deallocate_shared hlast).2]
    exact ⟨(List.append_nil _).symm, (List.append_nil _).symm, fun _ => rfl⟩

@[simp] theorem deallocate_mbufs (h : Holdings) (p : PacketId) :
    (h.deallocate p).mbufs = h.mbufs := by
  unfold deallocate
  split <;> rfl

@[simp] theorem deallocate_held (h : Holdings) (p : PacketId) :
    (h.deallocate p).held = h.held := by
  unfold deallocate
  split <;> rfl

theorem deallocate_refcnt_ne (h : Holdings) {p q : PacketId} (hq : q ≠ p) :
    (h.deallocate p).refcnt q = h.refcnt q := by
  unfold deallocate
  split
  · rfl
  · exact if_neg hq

/-- Any other reference is taken off the count. -/
theorem deallocate_refcnt (h : Holdings) {p : PacketId} (hpos : 1 ≤ h.refcnt p) :
    (h.deallocate p).refcnt p = if h.refcnt p = 1 then 1 else h.refcnt p - 1 := by
  by_cases hlast : h.refcnt p = 1
  · rw [(deallocate_last hlast).1, if_pos hlast]
    exact hlast
  · rw [(deallocate_shared hlast).1, if_neg hlast, if_neg (by omega)]
    exact if_pos rfl

/-- Who transmits a packet makes no difference to giving it back. -/
theorem finish_eq (h : Holdings) (p : PacketId) :
    h.finish p = {h.deallocate p with held := lower h.held p} := by
  by_cases hlast : h.refcnt p = 1
  · rw [finish, (deallocate_last (by exact hlast)).1, (deallocate_last hlast).1]
    rfl
  · rw [finish, (deallocate_shared (by exact hlast)).1, (deallocate_shared hlast).1]
    rfl

end Holdings

/-! ### Counts -/

/-- The holdings, the tasks that refer to each packet, and the packet of the task that is
being worked on, as long as its reference has not been given up. -/
structure Count where
  tasks : PacketId → Nat
  inHand : Option PacketId
  holdings : Holdings

/-- What happens in the drain phase, one reference at a time. -/
inductive Micro where
  /-- a task is taken off the queue -/
  | taken (p : PacketId)
  /-- a free callback of a card -/
  | finished (p : PacketId)
  /-- `PacketPool::deallocate` by a module -/
  | returned (p : PacketId)
  /-- handed to an adapter -/
  | sent (p : PacketId)
  /-- `pkt.refcnt += k - 1`, and a task for each of `k` links -/
  | forwarded (p : PacketId) (k : Nat)

namespace Count

/-- All references to a packet. -/
def total (c : Count) (p : PacketId) : Nat :=
  c.tasks p + (if c.inHand = some p then 1 else 0) + c.holdings.held p

/-- Outside the pool the packet is counted; in the pool nothing refers to it, and it has the
count it was created with. -/
def Settled (c : Count) (p : PacketId) : Prop :=
  (c.holdings.free p = 0 ∧ c.holdings.refcnt p = c.total p) ∨
    (0 < c.holdings.free p ∧ c.total p = 0 ∧ c.holdings.refcnt p = 1)

/-- From `a` to `b` the packet went back to the pool, once and its mbuf with it, if it lost
its last reference, and not otherwise. -/
structure ReturnsExactly (a : Count) (p : PacketId) (b : Count) : Prop where
  returned : ∃ back : List PacketId, b.holdings.log = a.holdings.log ++ back.map .returned ∧
    b.holdings.rawFreed = a.holdings.rawFreed ++ back.flatMap a.holdings.mbufs ∧
    b.holdings.free p = a.holdings.free p + back.count p ∧
    back.count p = if 0 < a.total p ∧ b.total p = 0 then 1 else 0
  mbufs : b.holdings.mbufs = a.holdings.mbufs
  /-- nobody gets a reference to a packet that has none -/
  gone : a.total p = 0 → b.total p = 0

namespace ReturnsExactly
variable {a b c : Count} {p : PacketId}

/-- Nothing went back. -/
theorem of_still (hlog : b.holdings.log = a.holdings.log)
    (hraw : b.holdings.rawFreed = a.holdings.rawFreed)
    (hfree : b.holdings.free p = a.holdings.free p) (hmbufs : b.holdings.mbufs = a.holdings.mbufs)
    (hiff : a.total p = 0 ↔ b.total p = 0) : a.ReturnsExactly p b where
  returned := by
    refine ⟨[], ?_, ?_, ?_, ?_⟩
    · rw [hlog, List.map_nil, List.append_nil]
    · rw [hraw, List.flatMap_nil, List.append_nil]
    · rw [hfree, List.count_nil, Nat.add_zero]
    · rw [List.count_nil, if_neg (by omega)]
  mbufs := hmbufs
  gone := hiff.mp

theorem trans (h : a.ReturnsExactly p b) (h' : b.ReturnsExactly p c) : a.ReturnsExactly p c := by
  obtain ⟨back, hlog, hraw, hfree, hcount⟩ := h.returned
  obtain ⟨back', hlog', hraw', hfree', hcount'⟩ := h'.returned
  have hgone := h.gone
  have hgone' := h'.gone
  refine ⟨⟨back ++ back', ?_, ?_, ?_, ?_⟩, h'.mbufs.trans h.mbufs, hgone' ∘ hgone⟩
  · rw [hlog', hlog, List.map_append, List.append_assoc]
  · rw [hraw', hraw, h.mbufs, List.flatMap_append, List.append_assoc]
  · rw [hfree', hfree, List.count_append, Nat.add_assoc]
  · rw [List.count_append, hcount, hcount']
    by_cases ha : a.total p = 0
    · have hb := hgone ha
      rw [if_neg (by omega), if_neg (by omega), if_neg (by omega)]
    · by_cases hb : b.total p = 0
      · rw [if_pos (by omega), if_neg (by omega), if_pos ⟨by omega, hgone' hb⟩]
      · rw [if_neg (by omega), Nat.zero_add]
        congr 1
        exact propext ⟨fun hc => ⟨by omega, hc.2⟩, fun hc => ⟨by omega, hc.2⟩⟩

end ReturnsExactly

variable {a b : Count} {p q : PacketId}

/-- References to `p` are added, `n` of them, or change hands. -/
theorem retained (n : Nat) (ha : a.Settled p) (htotal : b.total p = a.total p + n)
    (hrefcnt : b.holdings.refcnt p = a.holdings.refcnt p + n) (hn : a.total p = 0 → n = 0)
    (hfree : b.holdings.free = a.holdings.free) (hlog : b.holdings.log = a.holdings.log)
    (hraw : b.holdings.rawFreed = a.holdings.rawFreed)
    (hmbufs : b.holdings.mbufs = a.holdings.mbufs) : b.Settled p ∧ a.ReturnsExactly p b := by
  constructor
  · unfold Settled at ha ⊢
    rw [hfree, htotal, hrefcnt]
    omega
  · exact .of_still hlog hraw (by rw [hfree]) hmbufs (by omega)

/-- A reference to `q` is given up through the pool, whoever had it. -/
theorem released (held : PacketId → Nat) (ha : a.Settled p) (hq : 0 < a.total q)
    (hb : b.holdings = {a.holdings.deallocate q with held}) (htotal : b.total = lower a.total q) :
    b.Settled p ∧ a.ReturnsExactly p b := by
  obtain ⟨hlog, hraw, hfree⟩ := a.holdings.deallocate_returns q
  have hmbufs : b.holdings.mbufs = a.holdings.mbufs := by
    rw [hb]
    exact Holdings.deallocate_mbufs _ _
  by_cases hp : p = q
  · subst hp
    have htotal' : b.total p = a.total p - 1 := by rw [htotal, lower_same]
    have hcounted : a.holdings.free p = 0 ∧ a.holdings.refcnt p = a.total p := by
      unfold Settled at ha
      omega
    have hback : (a.holdings.lastOf p).count p =
        if 0 < a.total p ∧ b.total p = 0 then 1 else 0 := by
      unfold Holdings.lastOf
      by_cases hlast : a.holdings.refcnt p = 1
      · rw [if_pos hlast, if_pos (by omega), List.count_singleton_self]
      · rw [if_neg hlast, if_neg (by omega), List.count_nil]
    have hfree' : b.holdings.free p = a.holdings.free p + (a.holdings.lastOf p).count p := by
      rw [← hfree p, hb]
    have hrefcnt : b.holdings.refcnt p = (a.holdings.deallocate p).refcnt p := by rw [hb]
    rw [Holdings.deallocate_refcnt _ (by omega)] at hrefcnt
    refine ⟨?_, ⟨⟨_, by rw [hb]; exact hlog, by rw [hb]; exact hraw, hfree', hback⟩, hmbufs, ?_⟩⟩
    · unfold Settled
      split at hrefcnt <;> split at hback <;> omega
    · omega
  · have htotal' : b.total p = a.total p := by rw [htotal, lower_ne _ hp]
    have hback : (a.holdings.lastOf q).count p = 0 := by
      apply List.count_eq_zero_of_not_mem
      intro hmem
      unfold Holdings.lastOf at hmem
      split at hmem
      · exact hp (List.mem_singleton.mp hmem)
      · cases hmem
    have hfree' : b.holdings.free p = a.holdings.free p + (a.holdings.lastOf q).count p := by
      rw [← hfree p, hb]
    have hrefcnt : b.holdings.refcnt p = a.holdings.refcnt p := by
      rw [hb]
      exact Holdings.deallocate_refcnt_ne _ hp
    refine ⟨?_, ⟨⟨_, by rw [hb]; exact hlog, by rw [hb]; exact hraw, hfree', ?_⟩, hmbufs, ?_⟩⟩
    · unfold Settled at ha ⊢
      omega
    · rw [hback, if_neg (by omega)]
    · omega

end Count

namespace Micro
open OmniStack.Count

inductive Step : Count → Micro → Count → Prop where
  | taken {c : Count} {p : PacketId} (htasks : 0 < c.tasks p) (hhand : c.inHand = none) :
      Step c (.taken p) {c with tasks := lower c.tasks p, inHand := some p}
  | finished {c : Count} {p : PacketId} (hheld : 0 < c.holdings.held p) :
      Step c (.finished p) {c with holdings := c.holdings.finish p}
  | returned {c : Count} {p : PacketId} (hhand : c.inHand = some p) :
      Step c (.returned p) {c with inHand := none, holdings := c.holdings.deallocate p}
  | sent {c : Count} {p : PacketId} (hhand : c.inHand = some p) :
      Step c (.sent p) {c with inHand := none, holdings := c.holdings.hold p}
  | forwarded {c : Count} {p : PacketId} {k : Nat} (hhand : c.inHand = some p) (hk : 1 ≤ k) :
      Step c (.forwarded p k) ⟨spread c.tasks k [p], none,
        c.holdings.setRefcnt p (c.holdings.refcnt p + (k - 1))⟩

/-- **Every small step keeps a packet's count right** and puts the packet back exactly when
its last reference goes. -/
theorem step_exact {a b : Count} {m : Micro} {p : PacketId} (h : Step a m b) (ha : a.Settled p) :
    b.Settled p ∧ a.ReturnsExactly p b := by
  cases h with
  | @taken q htasks hhand =>
    refine retained 0 ha ?_ rfl (fun _ => rfl) rfl rfl rfl rfl
    by_cases hp : p = q
    · simp only [total, hp, hhand, lower_same, if_pos, reduceCtorEq, if_false]
      omega
    · have hne : q ≠ p := fun heq => hp heq.symm
      simp only [total, hhand, lower_ne _ hp, Option.some.injEq, hne, reduceCtorEq, if_false]
      omega
  | @finished q hheld =>
    refine released (lower a.holdings.held q) ha (by unfold total; omega)
      (Holdings.finish_eq _ _) (funext fun r => ?_)
    have hleft : (a.holdings.finish q).held = lower a.holdings.held q := by
      rw [Holdings.finish_eq]
    by_cases hr : r = q
    · rw [hr, lower_same]
      simp only [total, hleft, lower_same]
      omega
    · rw [lower_ne _ hr]
      simp only [total, hleft, lower_ne _ hr]
  | @returned q hhand =>
    refine released (q := q) a.holdings.held ha ?_ ?_ (funext fun r => ?_)
    · simp only [total, hhand, if_true]
      omega
    · rw [← Holdings.deallocate_held a.holdings q]
    · by_cases hr : r = q
      · rw [hr, lower_same]
        simp only [total, hhand, Holdings.deallocate_held, reduceCtorEq, if_false, if_true]
        omega
      · have hne : q ≠ r := fun heq => hr heq.symm
        rw [lower_ne _ hr]
        simp only [total, hhand, Holdings.deallocate_held, Option.some.injEq, hne, reduceCtorEq,
          if_false]
  | @sent q hhand =>
    refine retained 0 ha ?_ rfl (fun _ => rfl) rfl rfl rfl rfl
    by_cases hp : p = q
    · simp only [total, hp, hhand, Holdings.hold, bump_same, if_pos, reduceCtorEq, if_false]
      omega
    · have hne : q ≠ p := fun heq => hp heq.symm
      simp only [total, hhand, Holdings.hold, bump_ne _ hp, Option.some.injEq, hne, reduceCtorEq,
        if_false]
      omega
  | @forwarded q k hhand hk =>
    by_cases hp : p = q
    · subst hp
      refine retained (k - 1) ha ?_ (if_pos rfl) (fun hzero => ?_) rfl rfl rfl rfl
      · simp only [total, hhand, spread_single_same, Holdings.setRefcnt, if_pos, reduceCtorEq,
          if_false]
        omega
      · simp only [total, hhand, if_pos] at hzero
        omega
    · have hne : q ≠ p := fun heq => hp heq.symm
      refine retained 0 ha ?_ (if_neg hp) (fun _ => rfl) rfl rfl rfl rfl
      simp only [total, hhand, spread_single_ne _ _ hp, Holdings.setRefcnt, Option.some.injEq, hne,
        reduceCtorEq, if_false]
      omega

/-- A step after which the packet's count is right, and which puts it back exactly when its
last reference goes. -/
def Exact (p : PacketId) (a : Count) (m : Micro) (b : Count) : Prop :=
  Step a m b ∧ b.Settled p ∧ a.ReturnsExactly p b

/-- **So does a run of them.** -/
theorem run_exact {a b : Count} {ms : List Micro} {p : PacketId} (h : Run Step a ms b)
    (ha : a.Settled p) : Run (Exact p) a ms b ∧ b.Settled p ∧ a.ReturnsExactly p b := by
  induction h with
  | nil a => exact ⟨.nil a, ha, .of_still rfl rfl rfl rfl Iff.rfl⟩
  | cons hstep _ ih =>
    obtain ⟨hsettled, hreturns⟩ := step_exact hstep ha
    obtain ⟨hrun, hsettled', hreturns'⟩ := ih hsettled
    exact ⟨.cons ⟨hstep, hsettled, hreturns⟩ hrun, hsettled', hreturns.trans hreturns'⟩

end Micro
end OmniStack
