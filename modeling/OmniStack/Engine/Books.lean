import OmniStack.Lib.Trace
import Mathlib.Data.List.Count
import OmniStack.Engine.Moves
import OmniStack.Engine.Graph

/-! The packets' books, and the rules modules keep.

Every reference to a packet is a task of the queue, a transmission an adapter holds,
or one a module keeps for itself. `Books` is the part of the world that counts them,
with the operations on it. A module is `Disciplined` if its calls do to the books
what the pool's rules allow: `process` gives up exactly one reference of its packet
when it answers `Dropped` and none when it answers `Ok`, a poll hands over packets it
kept a reference of, and whatever else happens during a call is `Traffic`: the free
callbacks of finished transmissions, allocations, and modules giving back what they
kept. A `Ledger` is a statement about books and queued tasks that all of these
preserve; a run preserves it (`run_balanced`). -/
namespace OmniStack
open Lib

structure Books where
  refcnt : PacketId → Nat
  free : PacketId → Nat
  held : PacketId → Nat
  /-- the references the modules keep for themselves -/
  kept : PacketId → Nat
  log : List PoolEvent

/-- One more for `p`. -/
def bump (f : PacketId → Nat) (p : PacketId) : PacketId → Nat :=
  fun q => if q = p then f q + 1 else f q

/-- One less for `p`. -/
def lower (f : PacketId → Nat) (p : PacketId) : PacketId → Nat :=
  fun q => if q = p then f q - 1 else f q

/-- `k` more for every occurrence in `ps`. -/
def spread (f : PacketId → Nat) (k : Nat) (ps : List PacketId) : PacketId → Nat :=
  fun q => f q + k * ps.count q

@[simp] theorem bump_same (f : PacketId → Nat) (p : PacketId) : bump f p p = f p + 1 := by
  simp [bump]

theorem bump_ne (f : PacketId → Nat) {p q : PacketId} (h : q ≠ p) : bump f p q = f q := by
  simp [bump, h]

@[simp] theorem lower_same (f : PacketId → Nat) (p : PacketId) : lower f p p = f p - 1 := by
  simp [lower]

theorem lower_ne (f : PacketId → Nat) {p q : PacketId} (h : q ≠ p) : lower f p q = f q := by
  simp [lower, h]

@[simp] theorem spread_single_same (f : PacketId → Nat) (k : Nat) (p : PacketId) :
    spread f k [p] p = f p + k := by simp [spread]

theorem spread_single_ne (f : PacketId → Nat) (k : Nat) {p q : PacketId} (h : q ≠ p) :
    spread f k [p] q = f q := by simp [spread, h.symm]

namespace Books

def allocate (b : Books) (p : PacketId) : Books :=
  {b with free := lower b.free p, kept := bump b.kept p, log := b.log ++ [.allocated p]}

def hold (b : Books) (p : PacketId) : Books := {b with held := bump b.held p}

def unhold (b : Books) (p : PacketId) : Books := {b with held := lower b.held p}

def unkeep (b : Books) (p : PacketId) : Books := {b with kept := lower b.kept p}

/-- A poll hands out the packets `ps`. -/
def handOver (b : Books) (ps : List PacketId) : Books :=
  {b with kept := fun q => b.kept q - ps.count q}

def setRefcnt (b : Books) (p : PacketId) (n : Nat) : Books :=
  {b with refcnt := fun q => if q = p then n else b.refcnt q}

/-- `PacketPool::deallocate`: the last reference returns the packet, any other is
taken off the count, without checks below zero too. -/
def deallocate (b : Books) (p : PacketId) : Books :=
  if b.refcnt p = 1 then {b with free := bump b.free p, log := b.log ++ [.returned p]}
  else b.setRefcnt p (if b.refcnt p = 0 then 2 ^ 64 - 1 else b.refcnt p - 1)

theorem deallocate_last {b : Books} {p : PacketId} (h : b.refcnt p = 1) :
    b.deallocate p = {b with free := bump b.free p, log := b.log ++ [.returned p]} := if_pos h

theorem deallocate_shared {b : Books} {p : PacketId} (h : 1 < b.refcnt p) :
    b.deallocate p = b.setRefcnt p (b.refcnt p - 1) := by
  rw [deallocate, if_neg (by omega), if_neg (by omega)]

end Books

/-- The books of a world whose modules' own references are counted by `kept`. -/
def World.books {σ : Type} (kept : σ → PacketId → Nat) (w : World σ) : Books where
  refcnt := fun p => (w.pkts p).refcnt
  free := w.free
  held := w.held
  kept := kept w.env
  log := w.log

section World
variable {σ : Type} (kept : σ → PacketId → Nat)

/-- What is written to a packet beside its count is not in the books. -/
theorem books_setPkt {w : World σ} {p : PacketId} {pkt : Packet}
    (h : pkt.refcnt = (w.pkts p).refcnt) : (w.setPkt p pkt).books kept = w.books kept := by
  simp only [World.books, World.setPkt, Books.mk.injEq, and_true]
  funext q
  by_cases hq : q = p <;> simp [hq, h]

theorem books_setRefcnt (w : World σ) (p : PacketId) (n : Nat) :
    (w.setPkt p {w.pkts p with refcnt := n}).books kept = (w.books kept).setRefcnt p n := by
  simp only [World.books, World.setPkt, Books.setRefcnt, Books.mk.injEq, and_true]
  funext q
  by_cases hq : q = p <;> simp [hq]

theorem books_deallocate {checks : Bool} {p : PacketId} {threadId : UInt32} {w w' : World σ}
    (h : PacketPool.deallocate checks p threadId w = .ok w') :
    w'.books kept = (w.books kept).deallocate p := by
  simp only [PacketPool.deallocate] at h
  by_cases hlast : (w.pkts p).refcnt = 1
  · rw [Books.deallocate_last (show (w.books kept).refcnt p = 1 from hlast)]
    rw [if_pos hlast] at h
    split at h <;>
    · cases h
      rfl
  · rw [if_neg hlast] at h
    simp only [Exec.bind_eq_ok, Exec.pure_eq_ok] at h
    obtain ⟨n, hn, rfl⟩ := h
    rw [books_setRefcnt, Books.deallocate, if_neg (show (w.books kept).refcnt p ≠ 1 from hlast)]
    congr 1
    simp only [subWord] at hn
    by_cases hzero : (w.pkts p).refcnt = 0
    · rw [if_pos (by omega)] at hn
      split at hn
      · cases hn
      · cases hn
        rw [if_pos (show (w.books kept).refcnt p = 0 from hzero)]
        simp [hzero]
    · rw [if_neg (by omega)] at hn
      cases hn
      rw [if_neg (show ¬ (w.books kept).refcnt p = 0 from hzero)]
      rfl

end World

/-- Before the modules are initialized: every packet is in the pool, with the count it
was created with, or someone else's. -/
structure Stocked {σ : Type} (kept : σ → PacketId → Nat) (w : World σ) : Prop where
  place : ∀ p, (w.free p = 1 ∧ (w.pkts p).refcnt = 1) ∨ w.free p = 0
  held : ∀ p, w.held p = 0
  kept : ∀ p, kept w.env p = 0
  log : w.log = []

/-! ### What calls may do to the books -/

/-- What may go on during any call: the card is done with transmissions, packets are
allocated and kept, kept packets are given back. -/
inductive Traffic : Books → Books → Prop where
  | refl (b : Books) : Traffic b b
  | callback {b c : Books} {p : PacketId} (hheld : 0 < b.held p)
      (hrest : Traffic ((b.unhold p).deallocate p) c) : Traffic b c
  | allocate {b c : Books} {p : PacketId} (hfree : 0 < b.free p)
      (hrest : Traffic (b.allocate p) c) : Traffic b c
  | discard {b c : Books} {p : PacketId} (hkept : 0 < b.kept p)
      (hrest : Traffic ((b.unkeep p).deallocate p) c) : Traffic b c

/-- Exactly one reference of `p` is given up: back to the pool, or to an adapter. -/
inductive GaveUp (p : PacketId) : Books → Books → Prop where
  | deallocated {b b' c : Books} (hbefore : Traffic b b') (hafter : Traffic (b'.deallocate p) c) :
      GaveUp p b c
  | sent {b b' c : Books} (hbefore : Traffic b b') (hafter : Traffic (b'.hold p) c) : GaveUp p b c

/-- The packets `ps`, of which the module has a reference each, are handed over. -/
structure HandsOver (ps : List PacketId) (b c : Books) : Prop where
  handed : ∃ b', Traffic b b' ∧ (∀ p, ps.count p ≤ b'.kept p) ∧ c = b'.handOver ps

@[simp] theorem take_env {σ : Type} (w : World σ) (ps : List PacketId) :
    (PacketPool.take w ps).env = w.env := by
  induction ps generalizing w with
  | nil => rfl
  | cons p ps ih => exact ih _

/-- Taken one after the other, every packet is kept until the last one is there. -/
theorem take_traffic {σ : Type} (kept : σ → PacketId → Nat) {ps : List PacketId}
    (hnodup : ps.Nodup) {w : World σ} (hfree : ∀ p ∈ ps, 0 < w.free p) (k : PacketId → Nat) :
    Traffic {w.books kept with kept := k}
      {(PacketPool.take w ps).books kept with kept := fun q => k q + ps.count q} := by
  induction ps generalizing w k with
  | nil => exact .refl _
  | cons p ps ih =>
    obtain ⟨hp, hps⟩ := List.nodup_cons.mp hnodup
    have hrest : ∀ q ∈ ps, 0 < lower w.free p q := by
      intro q hq
      have hne : q ≠ p := fun h => hp (h ▸ hq)
      rw [lower_ne _ hne]
      exact hfree q (List.mem_cons_of_mem _ hq)
    have htraffic := ih hps (w := {w with free := lower w.free p, log := w.log ++ [.allocated p]})
      hrest (bump k p)
    have hcount : (fun q => k q + (p :: ps).count q) = fun q => bump k p q + ps.count q := by
      funext q
      by_cases hq : q = p
      · simp only [hq, bump_same, List.count_cons_self]
        omega
      · rw [bump_ne _ hq, List.count_cons_of_ne (fun h => hq h.symm)]
    rw [hcount]
    exact .allocate (p := p) (hfree p List.mem_cons_self) htraffic

/-- Allocated and handed over at once. -/
theorem take_handsOver {σ : Type} {kept : σ → PacketId → Nat} {ps : List PacketId}
    (hnodup : ps.Nodup) {w : World σ} (hfree : ∀ p ∈ ps, 0 < w.free p) :
    HandsOver ps (w.books kept) ((PacketPool.take w ps).books kept) := by
  refine ⟨_, take_traffic kept hnodup hfree (w.books kept).kept, fun p => Nat.le_add_left .., ?_⟩
  simp only [Books.handOver, World.books, take_env, Nat.add_sub_cancel]

/-- The rules a module keeps. -/
structure Disciplined {σ : Type} (kept : σ → PacketId → Nat) (ctx : Context) (m : Module σ) :
    Prop where
  init : ∀ {w w' : World σ} {res : Result Unit}, m.init ctx w = .ok (res, w') →
    Traffic (w.books kept) (w'.books kept)
  forwarded : ∀ {w w' : World σ} {p : PacketId}, m.process ctx p w = .ok (.ok (), w') →
    Traffic (w.books kept) (w'.books kept)
  dropped : ∀ {w w' : World σ} {p : PacketId}, m.process ctx p w = .ok (.error .dropped, w') →
    GaveUp p (w.books kept) (w'.books kept)
  failed : ∀ {w w' : World σ} {p : PacketId} {e : Error}, m.process ctx p w = .ok (.error e, w') →
    Traffic (w.books kept) (w'.books kept) ∨ GaveUp p (w.books kept) (w'.books kept)
  polled : ∀ {w w' : World σ} {head : PacketId}, m.poll ctx w = .ok (.ok head, w') →
    ∃ ps, Worker.ChainOf w'.pkts (some head) ps ∧ HandsOver ps (w.books kept) (w'.books kept)
  idle : ∀ {w w' : World σ} {e : Error}, m.poll ctx w = .ok (.error e, w') →
    Traffic (w.books kept) (w'.books kept)
  destroy : ∀ {w w' : World σ}, m.destroy ctx w = .ok w' → Traffic (w.books kept) (w'.books kept)

/-! ### Ledgers -/

/-- A statement about the references `T p` queued for every packet and the books that
every operation preserves; polls and forwards over as many links as `polls` and
`forwards` admit. Where an operation works on a reference in hand, that is `bump T p`. -/
structure Ledger (polls forwards : Nat → Prop) (P : (PacketId → Nat) → Books → Prop) : Prop where
  hold : ∀ {T b p}, P (bump T p) b → P T (b.hold p)
  unhold : ∀ {T b p}, 0 < b.held p → P T b → P (bump T p) (b.unhold p)
  unkeep : ∀ {T b p}, 0 < b.kept p → P T b → P (bump T p) (b.unkeep p)
  deallocate : ∀ {T b p}, P (bump T p) b → P T (b.deallocate p)
  allocate : ∀ {T b p}, 0 < b.free p → P T b → P T (b.allocate p)
  handOver : ∀ {T b k ps}, polls k → (∀ p, ps.count p ≤ b.kept p) → P T b →
    P (spread T k ps) (b.handOver ps)
  forward : ∀ {T b k p n}, forwards k → (0 < k ∨ 0 < b.refcnt p → n + 1 = b.refcnt p + k) →
    P (bump T p) b → P (spread T k [p]) (b.setRefcnt p n)

namespace Ledger
variable {polls forwards : Nat → Prop} {P : (PacketId → Nat) → Books → Prop}

theorem traffic (hP : Ledger polls forwards P) {T : PacketId → Nat} {b c : Books}
    (h : Traffic b c) (hb : P T b) : P T c := by
  induction h with
  | refl => exact hb
  | callback hheld _ ih => exact ih (hP.deallocate (hP.unhold hheld hb))
  | allocate hfree _ ih => exact ih (hP.allocate hfree hb)
  | discard hkept _ ih => exact ih (hP.deallocate (hP.unkeep hkept hb))

theorem gaveUp (hP : Ledger polls forwards P) {T : PacketId → Nat} {p : PacketId} {b c : Books}
    (h : GaveUp p b c) (hb : P (bump T p) b) : P T c := by
  cases h with
  | deallocated hbefore hafter =>
    exact hP.traffic hafter (hP.deallocate (hP.traffic hbefore hb))
  | sent hbefore hafter => exact hP.traffic hafter (hP.hold (hP.traffic hbefore hb))

end Ledger

/-- What the books and the queue say of one packet. -/
structure Account where
  tasks : Nat
  free : Nat
  refcnt : Nat
  held : Nat
  kept : Nat

def Books.account (b : Books) (T : PacketId → Nat) (p : PacketId) : Account :=
  ⟨T p, b.free p, b.refcnt p, b.held p, b.kept p⟩

/-- The law holds of every packet's account. -/
def EveryAccount (C : Account → Prop) (T : PacketId → Nat) (b : Books) : Prop :=
  ∀ p, C (b.account T p)

/-- A law of single accounts that every operation on a packet preserves; `a` is the
account without the reference in hand. -/
structure AccountLaw (polls forwards : Nat → Prop) (C : Account → Prop) : Prop where
  hold : ∀ {a : Account}, C {a with tasks := a.tasks + 1} → C {a with held := a.held + 1}
  unhold : ∀ {a : Account}, 0 < a.held → C a → C {a with tasks := a.tasks + 1, held := a.held - 1}
  unkeep : ∀ {a : Account}, 0 < a.kept → C a → C {a with tasks := a.tasks + 1, kept := a.kept - 1}
  last : ∀ {a : Account}, C {a with tasks := a.tasks + 1} → a.refcnt = 1 →
    C {a with free := a.free + 1}
  shared : ∀ {a : Account}, C {a with tasks := a.tasks + 1} → a.refcnt ≠ 1 →
    C {a with refcnt := if a.refcnt = 0 then 2 ^ 64 - 1 else a.refcnt - 1}
  allocate : ∀ {a : Account}, 0 < a.free → C a →
    C {a with free := a.free - 1, kept := a.kept + 1}
  handOver : ∀ {a : Account} {k c : Nat}, polls k → c ≤ a.kept → C a →
    C {a with tasks := a.tasks + k * c, kept := a.kept - c}
  forward : ∀ {a : Account} {k n : Nat}, forwards k →
    (0 < k ∨ 0 < a.refcnt → n + 1 = a.refcnt + k) → C {a with tasks := a.tasks + 1} →
    C {a with tasks := a.tasks + k, refcnt := n}

/-- A law of single accounts is a ledger, of the packets `S` alone too. -/
theorem AccountLaw.ledger_on {polls forwards : Nat → Prop} {C : Account → Prop}
    (hC : AccountLaw polls forwards C) (S : PacketId → Prop) :
    Ledger polls forwards fun T b => ∀ p, S p → C (b.account T p) where
  hold := fun {T b p} h q hS => by
    have hq := h q hS
    by_cases hne : q = p
    · subst hne
      simp only [Books.account, bump_same] at hq
      simpa [Books.account, Books.hold] using hC.hold (a := b.account T q) hq
    · simpa [Books.account, Books.hold, bump_ne _ hne] using hq
  unhold := fun {T b p} hheld h q hS => by
    have hq := h q hS
    by_cases hne : q = p
    · subst hne
      simpa [Books.account, Books.unhold] using hC.unhold (a := b.account T q) hheld hq
    · simpa [Books.account, Books.unhold, bump_ne _ hne, lower_ne _ hne] using hq
  unkeep := fun {T b p} hkept h q hS => by
    have hq := h q hS
    by_cases hne : q = p
    · subst hne
      simpa [Books.account, Books.unkeep] using hC.unkeep (a := b.account T q) hkept hq
    · simpa [Books.account, Books.unkeep, bump_ne _ hne, lower_ne _ hne] using hq
  deallocate := fun {T b p} h q hS => by
    have hq := h q hS
    unfold Books.deallocate
    by_cases hne : q = p
    · subst hne
      simp only [Books.account, bump_same] at hq
      split
      · rename_i hlast
        simpa [Books.account] using hC.last (a := b.account T q) hq hlast
      · rename_i hlast
        simp only [Books.account, Books.setRefcnt, if_pos]
        exact hC.shared (a := b.account T q) hq hlast
    · split <;> simpa [Books.account, Books.setRefcnt, bump_ne _ hne, hne] using hq
  allocate := fun {T b p} hfree h q hS => by
    have hq := h q hS
    by_cases hne : q = p
    · subst hne
      simpa [Books.account, Books.allocate] using hC.allocate (a := b.account T q) hfree hq
    · simpa [Books.account, Books.allocate, bump_ne _ hne, lower_ne _ hne] using hq
  handOver := fun {T b k ps} hk hkept h q hS =>
    hC.handOver (a := b.account T q) hk (hkept q) (h q hS)
  forward := fun {T b k p n} hk hn h q hS => by
    have hq := h q hS
    by_cases hne : q = p
    · subst hne
      simp only [Books.account, bump_same] at hq
      simpa [Books.account, Books.setRefcnt] using hC.forward (a := b.account T q) hk hn hq
    · simpa [Books.account, Books.setRefcnt, bump_ne _ hne, spread_single_ne _ _ hne, hne] using hq

theorem AccountLaw.ledger {polls forwards : Nat → Prop} {C : Account → Prop}
    (hC : AccountLaw polls forwards C) : Ledger polls forwards (EveryAccount C) := by
  have h : Ledger polls forwards fun T b => ∀ p, C (b.account T p) := by
    simpa only [forall_const] using hC.ledger_on fun _ => True
  exact h

namespace Worker
variable {σ : Type}

/-- How many tasks of the list refer to each packet. -/
def waiting (l : List Task) : PacketId → Nat := fun p => (l.map Task.data).count (some p)

theorem waiting_pop (l : List Task) (id : NodeId) (p : PacketId) :
    waiting (l ++ [⟨id, some p⟩]) = bump (waiting l) p := by
  funext q
  by_cases hq : q = p
  · simp [waiting, bump, hq]
  · have : p ≠ q := fun h => hq h.symm
    simp [waiting, bump, hq, this]

theorem waiting_links (l : List Task) (links : List NodeId) (ps : List PacketId) :
    waiting (l ++ links.flatMap (linkTasks ps)) = spread (waiting l) links.length ps := by
  funext q
  have hone : ∀ id, ((linkTasks ps id).map Task.data).count (some q) = ps.count q := by
    intro id
    rw [linkTasks, List.map_map]
    exact List.count_map_of_injective ps some (fun _ _ h => Option.some.inj h) q
  induction links with
  | nil => simp [waiting, spread]
  | cons id rest ih =>
    simp only [waiting, spread, List.map_append, List.count_append, List.flatMap_cons, hone,
      List.length_cons, Nat.add_mul] at ih ⊢
    omega

theorem waiting_forward (l : List Task) (links : List NodeId) (p : PacketId) :
    waiting (l ++ links.map fun m => ⟨m, some p⟩) = spread (waiting l) links.length [p] := by
  rw [← waiting_links]
  congr 2
  induction links with
  | nil => rfl
  | cons id rest ih =>
    rw [List.map_cons, List.flatMap_cons, ih]
    rfl

/-- The count after a forward, whenever it does not wrap. -/
theorem addRefs_ok {checks : Bool} {refcnt links n : Nat}
    (h : addRefs checks refcnt links = .ok n) (hpos : 0 < links ∨ 0 < refcnt) :
    n + 1 = refcnt + links := by
  simp only [addRefs] at h
  split at h
  · split at h
    · cases h
    · cases h
      rw [if_neg (by omega)]
      omega
  · cases h
    omega

/-- A ledger of a worker's state: of its queue, and once a call has failed, of at
least the tasks that are left. -/
def Balanced (kept : σ → PacketId → Nat) (P : (PacketId → Nat) → Books → Prop) (s : Loop σ) :
    Prop :=
  ∃ T, P T (s.world.books kept) ∧ (T = waiting s.queue.live ∨
    ((∃ res, s.phase = .done res) ∧ ∀ p, waiting s.queue.live p ≤ T p))

/-- An event whose poll or forward goes over an admitted number of links. -/
def Fits (polls forwards : Nat → Prop) (w : Worker σ) : Event → Prop
  | .polled n _ => polls (w.links n).length
  | .called n _ (.ok ()) => forwards (w.links n).length
  | _ => True

/-- All of the worker's modules keep the rules. -/
def AllDisciplined (kept : σ → PacketId → Nat) (ctx : Context) (w : Worker σ) : Prop :=
  ∀ node ∈ w.nodes.items, Disciplined kept ctx node.module

variable {polls forwards : Nat → Prop} {P : (PacketId → Nat) → Books → Prop}
  {kept : σ → PacketId → Nat} {ctx : Context} {w : Worker σ}

theorem destroy_ledger (hP : Ledger polls forwards P) {nodes : List (Node σ)}
    (hmods : ∀ node ∈ nodes, Disciplined kept ctx node.module) {T : PacketId → Nat}
    {world world' : World σ} (h : destroyNodes ctx nodes world = .ok world')
    (hb : P T (world.books kept)) : P T (world'.books kept) := by
  induction nodes generalizing world with
  | nil =>
    cases h
    exact hb
  | cons node rest ih =>
    simp only [destroyNodes, Exec.bind_eq_ok] at h
    obtain ⟨mid, hmid, hrest⟩ := h
    exact ih (fun n hn => hmods n (List.mem_cons_of_mem _ hn)) hrest
      (hP.traffic ((hmods node List.mem_cons_self).destroy hmid) hb)

theorem init_ledger (hP : Ledger polls forwards P) {nodes : List (Node σ)}
    (hmods : ∀ node ∈ nodes, Disciplined kept ctx node.module) {T : PacketId → Nat}
    {id : NodeId} {toPoll : ArrayVec NodeId 8} {world world' : World σ}
    {res : Result (ArrayVec NodeId 8)}
    (h : initNodes ctx nodes id toPoll world = .ok (res, world'))
    (hb : P T (world.books kept)) : P T (world'.books kept) := by
  induction nodes generalizing id toPoll world with
  | nil =>
    cases h
    exact hb
  | cons node rest ih =>
    simp only [initNodes, Exec.bind_eq_ok] at h
    obtain ⟨⟨r, mid⟩, hmid, h⟩ := h
    have hmid' := hP.traffic ((hmods node List.mem_cons_self).init hmid) hb
    cases r with
    | error e =>
      cases h
      exact hmid'
    | ok u =>
      cases u
      dsimp only at h
      split at h
      · cases h
      · have hrest : ∀ n ∈ rest, Disciplined kept ctx n.module :=
          fun n hn => hmods n (List.mem_cons_of_mem _ hn)
        split at h
        · obtain ⟨toPoll', _, h⟩ := Exec.bind_eq_ok.mp h
          exact ih hrest h hmid'
        · exact ih hrest h hmid'

theorem start_balanced (hP : Ledger polls forwards P) {w₀ : Worker σ}
    (hmods : AllDisciplined kept ctx w₀) {world₀ world : World σ}
    (hstart : w₀.start ctx world₀ = .ok (.ok w, world)) (h : P (fun _ => 0) (world₀.books kept)) :
    AllDisciplined kept ctx w ∧ Balanced kept P (Loop.initial world) := by
  refine ⟨fun node hnode => hmods node (start_nodes hstart ▸ hnode), _, ?_, .inl rfl⟩
  simp only [start, Exec.bind_eq_ok] at hstart
  obtain ⟨⟨res, world'⟩, hinit, hstart⟩ := hstart
  have hworld := init_ledger hP hmods hinit h
  cases res with
  | error e => cases hstart
  | ok toPoll =>
    cases hstart
    exact hworld

/-- **A turn whose polls and forwards are admitted preserves a ledger.** -/
theorem turn_balanced (hP : Ledger polls forwards P) (hmods : AllDisciplined kept ctx w)
    {checks : Bool} {shouldStop : World σ → Bool} {s t : Loop σ} {ev : Event}
    (h : Turn checks shouldStop w ctx s ev t) (hev : Fits polls forwards w ev)
    (hs : P (waiting s.queue.live) (s.world.books kept)) : Balanced kept P t := by
  cases h with
  | enter | pollEnd | drained => exact ⟨_, hs, .inl rfl⟩
  | leave _ _ hdestroy => exact ⟨_, destroy_ledger hP hmods hdestroy hs, .inl rfl⟩
  | idle _ hnode hpoll =>
    exact ⟨_, hP.traffic ((hmods _ (List.mem_of_getElem? hnode)).idle hpoll) hs, .inl rfl⟩
  | pollFailed _ hnode hpoll =>
    exact ⟨_, hP.traffic ((hmods _ (List.mem_of_getElem? hnode)).idle hpoll) hs, .inl rfl⟩
  | @polled id _ node _ head queue burst _ hnode hpoll _ hchain hpush =>
    obtain ⟨ps, hps, ⟨b, htraffic, hkept, hbooks⟩⟩ :=
      (hmods _ (List.mem_of_getElem? hnode)).polled hpoll
    have hlinks : (w.links id).length = node.linksTo.items.length := by rw [links_eq hnode]
    refine ⟨spread (waiting s.queue.live) node.linksTo.items.length ps, ?_, .inl ?_⟩
    · rw [hbooks]
      exact hP.handOver (hlinks ▸ hev) hkept (hP.traffic htraffic hs)
    · rw [ArrayStack.pushAll_live hpush, waiting_links]
      by_cases hnil : node.linksTo.items = []
      · funext q
        simp [spread, hnil]
      · rw [hps.unique (hchain hnil)]
  | @forwarded id pkt node _ _ _ _ hindex htask hnode hcall hrefs hpush =>
    rw [ArrayStack.pop_live hindex, htask, waiting_pop] at hs
    have hlinks : (w.links id).length = node.linksTo.items.length := by rw [links_eq hnode]
    have hcalled := hP.traffic ((hmods _ (List.mem_of_getElem? hnode)).forwarded hcall) hs
    refine ⟨spread (waiting s.queue.pop.2.live) node.linksTo.items.length [pkt], ?_, .inl ?_⟩
    · rw [books_setRefcnt]
      exact hP.forward (hlinks ▸ hev) (addRefs_ok hrefs) hcalled
    · rw [ArrayStack.pushAll_live hpush, waiting_forward]
  | dropped _ hindex htask hnode hcall =>
    rw [ArrayStack.pop_live hindex, htask, waiting_pop] at hs
    exact ⟨_, hP.gaveUp ((hmods _ (List.mem_of_getElem? hnode)).dropped hcall) hs, .inl rfl⟩
  | @callFailed id pkt _ _ e _ hindex htask hnode hcall =>
    rw [ArrayStack.pop_live hindex, htask, waiting_pop] at hs
    rcases (hmods _ (List.mem_of_getElem? hnode)).failed hcall with htraffic | hgave
    · refine ⟨_, hP.traffic htraffic hs, .inr ⟨⟨_, rfl⟩, fun p => ?_⟩⟩
      by_cases hp : p = pkt
      · simp [hp]
      · exact (bump_ne _ hp).ge
    · exact ⟨_, hP.gaveUp hgave hs, .inl rfl⟩

theorem step_balanced (hP : Ledger polls forwards P) (hmods : AllDisciplined kept ctx w)
    {checks : Bool} {shouldStop : World σ → Bool} {s t : Loop σ} {ev : Event}
    (h : Step checks shouldStop w ctx s ev t) (hev : Fits polls forwards w ev)
    (hs : Balanced kept P s) : Balanced kept P t := by
  obtain ⟨T, hT, rfl | ⟨⟨res, hdone⟩, _⟩⟩ := hs
  · exact turn_balanced hP hmods (step_turn h) hev hT
  · simp only [Step, step, hdone] at h
    cases h

/-- **A run whose polls and forwards are admitted preserves a ledger.** -/
theorem run_balanced (hP : Ledger polls forwards P) (hmods : AllDisciplined kept ctx w)
    {checks : Bool} {shouldStop : World σ → Bool} {s t : Loop σ} {evs : List Event}
    (h : Run (Step checks shouldStop w ctx) s evs t) (hevs : ∀ ev ∈ evs, Fits polls forwards w ev)
    (hs : Balanced kept P s) : Balanced kept P t :=
  h.invariant_of (P := Balanced kept P) (C := Fits polls forwards w)
    (fun _ _ _ hs' hev hst => step_balanced hP hmods hst hev hs') hevs hs

end Worker
end OmniStack
