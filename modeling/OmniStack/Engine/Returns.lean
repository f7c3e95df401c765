import OmniStack.Engine.Books
import OmniStack.Engine.Forwarding
import OmniStack.Engine.Graph

/-! Packets go back to the pool when nothing refers to them any more.

While every poll that hands out packets does so over at most one link, a packet's
count is at least the number of its tasks and of the references adapters and modules
hold (`Owned`). So the count reaches one for the last of them only: the packet is
returned once for each allocation, and never while a task waits for it. A poll fans
its packets out without counting: with two links, the second reference is one the
count knows nothing of (`fanned_out_poll`). -/
namespace OmniStack
open Lib

/-- A packet is in the pool, with nothing referring to it, or every reference to it is
counted. -/
def Placed (a : Account) : Prop :=
  (a.free = 1 ∧ a.refcnt = 1 ∧ a.tasks = 0 ∧ a.held = 0 ∧ a.kept = 0) ∨
    (a.free = 0 ∧ a.tasks + a.held + a.kept ≤ a.refcnt)

theorem placed_law : AccountLaw (· ≤ 1) (fun _ => True) Placed where
  hold := fun h => by simp only [Placed] at h ⊢; omega
  unhold := fun _ h => by simp only [Placed] at h ⊢; omega
  unkeep := fun _ h => by simp only [Placed] at h ⊢; omega
  last := fun h _ => by simp only [Placed] at h ⊢; omega
  shared := fun h _ => by
    simp only [Placed] at h ⊢
    split <;> omega
  allocate := fun _ h => by simp only [Placed] at h ⊢; omega
  handOver := fun {a k c} hk hc h => by
    have hle : k * c ≤ c := (Nat.mul_le_mul_right c hk).trans (Nat.one_mul c).le
    simp only [Placed] at h ⊢
    omega
  forward := fun _ hn h => by simp only [Placed] at h ⊢; omega

structure Owned (T : PacketId → Nat) (b : Books) : Prop where
  place : EveryAccount Placed T b
  /-- a packet outside the pool has been allocated since it was last returned -/
  answered : ∀ p, b.free p = 0 → Trace.Answered (.returned p) (.allocated p) b.log
  separated : ∀ p, Trace.Separated (.returned p) (.allocated p) b.log

namespace Owned
variable {T : PacketId → Nat} {b : Books} {p : PacketId}

theorem mono {T' : PacketId → Nat} (h : Owned T b) (hT : ∀ p, T' p ≤ T p) : Owned T' b where
  answered := h.answered
  separated := h.separated
  place := fun p => by
    have hp := h.place p
    have := hT p
    simp only [Placed, Books.account] at hp ⊢
    omega

/-- With a reference in hand the packet is not in the pool. -/
theorem in_use (h : Owned (bump T p) b) :
    b.free p = 0 ∧ T p + 1 + b.held p + b.kept p ≤ b.refcnt p := by
  have hp := h.place p
  simp only [Placed, Books.account, bump_same] at hp
  omega

theorem deallocate (h : Owned (bump T p) b) : Owned T (b.deallocate p) := by
  have hplace := placed_law.ledger.deallocate h.place
  obtain ⟨hfree, hle⟩ := h.in_use
  by_cases hlast : b.refcnt p = 1
  · rw [Books.deallocate_last hlast] at hplace ⊢
    refine ⟨hplace, fun q hq => ?_, fun q => ?_⟩
    · have hne : q ≠ p := by
        rintro rfl
        simp at hq
      refine Trace.answered_snoc_ne (h.answered q ?_) (by simpa using Ne.symm hne)
      simpa [bump_ne _ hne] using hq
    · by_cases hq : q = p
      · subst hq
        exact Trace.separated_snoc (h.separated q) (h.answered q hfree)
      · exact Trace.separated_snoc_ne (h.separated q) (by simpa using Ne.symm hq)
  · rw [Books.deallocate_shared (by omega)] at hplace ⊢
    exact ⟨hplace, h.answered, h.separated⟩

/-- What a deallocation returns, nothing refers to any more. -/
theorem deallocate_log (h : Owned (bump T p) b) : ∃ added, (b.deallocate p).log = b.log ++ added ∧
    ∀ q, .returned q ∈ added → T q = 0 := by
  obtain ⟨_, hle⟩ := h.in_use
  by_cases hlast : b.refcnt p = 1
  · rw [Books.deallocate_last hlast]
    refine ⟨_, rfl, fun q hq => ?_⟩
    have : q = p := by simpa using hq
    subst this
    omega
  · rw [Books.deallocate_shared (by omega)]
    exact ⟨[], (List.append_nil _).symm, fun q hq => by simp at hq⟩

theorem allocate (hfree : 0 < b.free p) (h : Owned T b) : Owned T (b.allocate p) := by
  refine ⟨placed_law.ledger.allocate hfree h.place, fun q hq => ?_, fun q => ?_⟩
  · by_cases hqp : q = p
    · subst hqp
      exact Trace.answered_snoc (by simp)
    · refine Trace.answered_snoc_ne (h.answered q ?_) (by simp)
      simpa [Books.allocate, lower_ne _ hqp] using hq
  · exact Trace.separated_snoc_ne (h.separated q) (by simp)

theorem hold (h : Owned (bump T p) b) : Owned T (b.hold p) :=
  ⟨placed_law.ledger.hold h.place, h.answered, h.separated⟩

theorem unhold (hheld : 0 < b.held p) (h : Owned T b) : Owned (bump T p) (b.unhold p) :=
  ⟨placed_law.ledger.unhold hheld h.place, h.answered, h.separated⟩

theorem unkeep (hkept : 0 < b.kept p) (h : Owned T b) : Owned (bump T p) (b.unkeep p) :=
  ⟨placed_law.ledger.unkeep hkept h.place, h.answered, h.separated⟩

theorem ledger : Ledger (· ≤ 1) (fun _ => True) Owned where
  hold := hold
  unhold := unhold
  unkeep := unkeep
  deallocate := deallocate
  allocate := allocate
  handOver := fun hk hkept h =>
    ⟨placed_law.ledger.handOver hk hkept h.place, h.answered, h.separated⟩
  forward := fun hk hn h => ⟨placed_law.ledger.forward hk hn h.place, h.answered, h.separated⟩

theorem of_stocked {σ : Type} {kept : σ → PacketId → Nat} {w : World σ} (h : Stocked kept w) :
    Owned (fun _ => 0) (w.books kept) where
  place := fun p => by
    have hp := h.place p
    have hheld := h.held p
    have hkept := h.kept p
    simp only [Placed, Books.account, World.books, true_and]
    omega
  answered := fun p _ => by
    rw [show (w.books kept).log = [] from h.log]
    exact Trace.answered_nil
  separated := fun p => by
    rw [show (w.books kept).log = [] from h.log]
    exact Trace.separated_nil

end Owned

/-! ### What is returned during a call -/

/-- From one log to the next only packets are returned that `T` has no reference to. -/
def ReturnsUnused (T : PacketId → Nat) (log log' : List PoolEvent) : Prop :=
  ∃ added, log' = log ++ added ∧ ∀ p, .returned p ∈ added → T p = 0

namespace ReturnsUnused
variable {T : PacketId → Nat} {log log' log'' : List PoolEvent}

theorem refl (T : PacketId → Nat) (log : List PoolEvent) : ReturnsUnused T log log :=
  ⟨[], (List.append_nil log).symm, fun _ h => by simp at h⟩

theorem trans (h : ReturnsUnused T log log') (h' : ReturnsUnused T log' log'') :
    ReturnsUnused T log log'' := by
  obtain ⟨added, rfl, hadded⟩ := h
  obtain ⟨added', rfl, hadded'⟩ := h'
  refine ⟨added ++ added', List.append_assoc .., fun p hp => ?_⟩
  rcases List.mem_append.mp hp with hp | hp
  · exact hadded p hp
  · exact hadded' p hp

theorem mono {T' : PacketId → Nat} (h : ReturnsUnused T log log') (hT : ∀ p, T' p ≤ T p) :
    ReturnsUnused T' log log' := by
  obtain ⟨added, hlog, hadded⟩ := h
  exact ⟨added, hlog, fun p hp => Nat.le_zero.mp (hadded p hp ▸ hT p)⟩

end ReturnsUnused

theorem Traffic.returnsUnused {T : PacketId → Nat} {b c : Books} (h : Traffic b c)
    (hb : Owned T b) : ReturnsUnused T b.log c.log := by
  induction h with
  | refl => exact .refl _ _
  | callback hheld _ ih =>
    have hunheld := hb.unhold hheld
    exact .trans hunheld.deallocate_log (ih hunheld.deallocate)
  | allocate hfree _ ih =>
    exact .trans ⟨_, rfl, fun q hq => by simp at hq⟩ (ih (hb.allocate hfree))
  | discard hkept _ ih =>
    have hunkept := hb.unkeep hkept
    exact .trans hunkept.deallocate_log (ih hunkept.deallocate)

theorem le_bump (T : PacketId → Nat) (p q : PacketId) : T q ≤ bump T p q := by
  by_cases hq : q = p
  · simp [hq]
  · exact (bump_ne T hq).ge

theorem GaveUp.returnsUnused {T : PacketId → Nat} {p : PacketId} {b c : Books} (h : GaveUp p b c)
    (hb : Owned (bump T p) b) : ReturnsUnused T b.log c.log := by
  cases h with
  | deallocated hbefore hafter =>
    have hmid := Owned.ledger.traffic hbefore hb
    exact .trans ((hbefore.returnsUnused hb).mono (le_bump T p))
      (.trans hmid.deallocate_log (hafter.returnsUnused hmid.deallocate))
  | sent hbefore hafter =>
    have hmid := Owned.ledger.traffic hbefore hb
    exact .trans ((hbefore.returnsUnused hb).mono (le_bump T p)) (hafter.returnsUnused hmid.hold)

namespace Worker
variable {σ : Type} {kept : σ → PacketId → Nat} {ctx : Context} {w : Worker σ} {checks : Bool}
  {shouldStop : World σ → Bool}

/-- The tasks in the queue during the call an event reports. -/
def queuedDuring (s : Loop σ) : Event → List Task
  | .called _ _ _ => s.queue.pop.2.live
  | _ => s.queue.live

theorem destroy_returnsUnused {nodes : List (Node σ)}
    (hmods : ∀ node ∈ nodes, Disciplined kept ctx node.module) {T : PacketId → Nat}
    {world world' : World σ} (h : destroyNodes ctx nodes world = .ok world')
    (hb : Owned T (world.books kept)) : ReturnsUnused T world.log world'.log := by
  induction nodes generalizing world with
  | nil =>
    cases h
    exact .refl _ _
  | cons node rest ih =>
    simp only [destroyNodes, Exec.bind_eq_ok] at h
    obtain ⟨mid, hmid, hrest⟩ := h
    have htraffic := (hmods node List.mem_cons_self).destroy hmid
    exact .trans (htraffic.returnsUnused hb) (ih (fun n hn => hmods n (List.mem_cons_of_mem _ hn))
      hrest (Owned.ledger.traffic htraffic hb))

/-- No turn returns a packet one of the queued tasks refers to. -/
theorem turn_returnsUnused (hmods : AllDisciplined kept ctx w) {s t : Loop σ} {ev : Event}
    (h : Turn checks shouldStop w ctx s ev t)
    (hs : Owned (waiting s.queue.live) (s.world.books kept)) :
    ReturnsUnused (waiting (queuedDuring s ev)) s.world.log t.world.log := by
  cases h with
  | enter | pollEnd | drained => exact .refl _ _
  | leave _ _ hdestroy => exact destroy_returnsUnused hmods hdestroy hs
  | idle _ hnode hpoll | pollFailed _ hnode hpoll =>
    exact ((hmods _ (List.mem_of_getElem? hnode)).idle hpoll).returnsUnused hs
  | polled _ hnode hpoll =>
    obtain ⟨ps, _, ⟨b, htraffic, _, hbooks⟩⟩ := (hmods _ (List.mem_of_getElem? hnode)).polled hpoll
    have := htraffic.returnsUnused hs
    rwa [show b.log = _ from (congrArg Books.log hbooks).symm] at this
  | forwarded _ hindex htask hnode hcall =>
    rw [ArrayStack.pop_live hindex, htask, waiting_pop] at hs
    exact (((hmods _ (List.mem_of_getElem? hnode)).forwarded hcall).returnsUnused hs).mono
      (le_bump _ _)
  | dropped _ hindex htask hnode hcall =>
    rw [ArrayStack.pop_live hindex, htask, waiting_pop] at hs
    exact ((hmods _ (List.mem_of_getElem? hnode)).dropped hcall).returnsUnused hs
  | callFailed _ hindex htask hnode hcall =>
    rw [ArrayStack.pop_live hindex, htask, waiting_pop] at hs
    rcases (hmods _ (List.mem_of_getElem? hnode)).failed hcall with htraffic | hgave
    · exact (htraffic.returnsUnused hs).mono (le_bump _ _)
    · exact hgave.returnsUnused hs

theorem owned_of_balanced {s : Loop σ} (h : Balanced kept Owned s) :
    Owned (waiting s.queue.live) (s.world.books kept) := by
  obtain ⟨T, hT, rfl | ⟨_, hle⟩⟩ := h
  · exact hT
  · exact hT.mono hle

/-- Polls over at most one link, and any forwards. -/
theorem fits_of_polls {evs : List Event}
    (hpolls : ∀ n burst, .polled n burst ∈ evs → (w.links n).length ≤ 1) :
    ∀ ev ∈ evs, Fits (· ≤ 1) (fun _ => True) w ev := by
  intro ev hev
  cases ev with
  | polled n burst => exact hpolls n burst hev
  | called n p res => cases res <;> trivial
  | _ => trivial

/-- What is owned has been allocated since it was last returned, is in the pool at most once, and
not at all while a task refers to it. -/
theorem owned_unused {s : Loop σ} (h : Owned (waiting s.queue.live) (s.world.books kept)) :
    (∀ p, Trace.Separated (.returned p) (.allocated p) s.world.log) ∧
      (∀ p, s.world.free p ≤ 1) ∧ ∀ id p, ⟨id, some p⟩ ∈ s.queue.live → s.world.free p = 0 := by
  refine ⟨h.separated, fun p => ?_, fun id p hmem => ?_⟩
  · have hp := h.place p
    simp only [Placed, Books.account, World.books] at hp
    omega
  · have hpos : 0 < waiting s.queue.live p :=
      List.count_pos_iff.mpr (List.mem_map_of_mem (f := Task.data) hmem)
    have hp := h.place p
    simp only [Placed, Books.account, World.books] at hp
    omega

/-- **Returned once, and only when unused.** In every run whose polls hand out packets
over at most one link: between two returns of a packet it has been allocated, the pool
never holds it twice, no task in the queue refers to a packet of the pool, and no step
returns a packet that a task in the queue refers to. -/
theorem returned_once_and_unused {w₀ : Worker σ} (hmods : AllDisciplined kept ctx w₀)
    {world₀ world : World σ} (hstock : Stocked kept world₀)
    (hstart : w₀.start ctx world₀ = .ok (.ok w, world)) {evs : List Event} {t : Loop σ}
    (hrun : Run (Step checks shouldStop w ctx) (Loop.initial world) evs t)
    (hpolls : ∀ n burst, .polled n burst ∈ evs → (w.links n).length ≤ 1) :
    (∀ p, Trace.Separated (.returned p) (.allocated p) t.world.log) ∧
      (∀ p, t.world.free p ≤ 1) ∧
      (∀ id p, ⟨id, some p⟩ ∈ t.queue.live → t.world.free p = 0) ∧
      ∀ ev u, Step checks shouldStop w ctx t ev u →
        ReturnsUnused (waiting (queuedDuring t ev)) t.world.log u.world.log := by
  obtain ⟨hmods', hinit⟩ := start_balanced Owned.ledger hmods hstart (Owned.of_stocked hstock)
  have ht := owned_of_balanced
    (run_balanced Owned.ledger hmods' hrun (fits_of_polls hpolls) hinit)
  obtain ⟨hseparated, hfree, hqueued⟩ := owned_unused ht
  exact ⟨hseparated, hfree, hqueued, fun ev u hstep =>
    turn_returnsUnused hmods' (step_turn hstep) ht⟩

end Worker

/-! ### The sample modules keep the rules -/

namespace Sample

/-- The sample modules keep no packet between calls. -/
def keeps (_ : Unit) (_ : PacketId) : Nat := 0

theorem linkChain_books (w : World Unit) (ps : List PacketId) :
    (linkChain w ps).books keeps = w.books keeps := by
  induction ps with
  | nil => rfl
  | cons p ps ih =>
    have hrefcnt : ((linkChain w ps).pkts p).refcnt = (w.pkts p).refcnt :=
      congrFun (congrArg Books.refcnt ih) p
    rw [linkChain, books_setPkt keeps (by exact hrefcnt.symm), ih]

theorem giveBack_gaveUp {w w' : World Unit} {p : PacketId} {res : Result Unit}
    (h : giveBack ctx p w = .ok (res, w')) :
    res = .error .dropped ∧ GaveUp p (w.books keeps) (w'.books keeps) := by
  simp only [giveBack, Exec.bind_eq_ok, Exec.pure_eq_ok, Prod.mk.injEq] at h
  obtain ⟨w'', hdealloc, hres, rfl⟩ := h
  exact ⟨hres.symm, .deallocated (.refl _) (books_deallocate keeps hdealloc ▸ .refl _)⟩

theorem still {α : Type} {a b : α} {w w' : World Unit}
    (h : (Except.ok (a, w) : Exec (α × World Unit)) = .ok (b, w')) :
    Traffic (w.books keeps) (w'.books keeps) := by
  cases h
  exact .refl _

theorem sink_disciplined : Disciplined keeps ctx sink where
  init := still
  forwarded := fun h => nomatch (giveBack_gaveUp h).1
  dropped := fun h => (giveBack_gaveUp h).2
  failed := fun h => .inr (giveBack_gaveUp h).2
  polled := fun h => nomatch h
  idle := still
  destroy := fun h => by
    cases h
    exact .refl _

theorem relay_disciplined : Disciplined keeps ctx relay where
  init := still
  forwarded := still
  dropped := fun h => nomatch h
  failed := fun h => nomatch h
  polled := fun h => nomatch h
  idle := still
  destroy := fun h => by
    cases h
    exact .refl _

theorem source_disciplined {p : PacketId} {ps : List PacketId} (hnodup : (p :: ps).Nodup) :
    Disciplined keeps ctx (source p ps) where
  init := still
  forwarded := fun h => nomatch (giveBack_gaveUp h).1
  dropped := fun h => (giveBack_gaveUp h).2
  failed := fun h => .inr (giveBack_gaveUp h).2
  polled := fun h => by
    simp only [source] at h
    split at h
    · rename_i hfree
      cases h
      refine ⟨p :: ps, linkChain_chain _ hnodup, ?_⟩
      rw [linkChain_books]
      exact take_handsOver hnodup fun q hq => by
        have := List.all_eq_true.mp hfree q hq
        simp only [beq_iff_eq] at this
        omega
    · cases h
  idle := fun h => by
    simp only [source] at h
    split at h
    · cases h
    · exact still h
  destroy := fun h => by
    cases h
    exact .refl _

theorem worker_disciplined {v : ArrayVec NodeId 8} :
    Worker.AllDisciplined keeps ctx {worker with nodesToPoll := v} := by
  intro node hnode
  simp only [worker, graph, List.mem_cons, List.not_mem_nil, or_false] at hnode
  rcases hnode with rfl | rfl | rfl
  · exact source_disciplined (by decide)
  · exact relay_disciplined
  · exact sink_disciplined

theorem world_stocked : Stocked keeps world where
  place := fun p => by
    by_cases hp : p < 4
    · exact .inl ⟨if_pos hp, rfl⟩
    · exact .inr (if_neg hp)
  held := fun _ => rfl
  kept := fun _ => rfl
  log := rfl

end Sample

theorem Worker.returned_once_and_unused_sample :
    ∃ t, Run (Worker.Step true (fun _ => false) Sample.worker Sample.ctx)
        (Loop.initial Sample.world) (.enter :: Sample.turn) t ∧
      (∀ p, Trace.Separated (.returned p) (.allocated p) t.world.log) ∧
      (∀ p, t.world.free p ≤ 1) ∧
      (∀ id p, ⟨id, some p⟩ ∈ t.queue.live → t.world.free p = 0) ∧
      ∀ ev u, Worker.Step true (fun _ => false) Sample.worker Sample.ctx t ev u →
        ReturnsUnused (Worker.waiting (Worker.queuedDuring t ev)) t.world.log u.world.log := by
  obtain ⟨t, hrun, _⟩ := Run.exists_of_iterate
    (Sample.worker.step true (fun _ => false) Sample.ctx) 10 (Loop.initial Sample.world)
    (.enter :: Sample.turn) Sample.atTop (by decide +kernel)
  have hstart : Worker.start {Sample.worker with nodesToPoll := .empty} Sample.ctx Sample.world =
      .ok (.ok Sample.worker, Sample.world) := rfl
  refine ⟨t, hrun, Worker.returned_once_and_unused Sample.worker_disciplined Sample.world_stocked
    hstart hrun fun n burst hmem => ?_⟩
  have hn : n = 0 := by
    have := hmem
    simp only [Sample.turn, List.mem_cons, Event.polled.injEq, reduceCtorEq, List.not_mem_nil,
      false_or, or_false] at this
    exact this.1
  subst hn
  decide

/-! ### A poll that fans out -/

namespace Sample

/-- The source linked to the sink twice. -/
def forkConfig : GraphConfig where
  name := "fork"
  modules := ["Source", "Sink"]
  links := [("Source", "Sink"), ("Source", "Sink")]

def forkGraph : Graph Unit where
  id := 0
  cpu := 0
  nodes := [⟨source 0 [1], .ofTake [1, 1]⟩, ⟨sink, .empty⟩]

def forkWorker : Worker Unit where
  nodes := ⟨forkGraph.nodes, by decide⟩
  nodesToPoll := .ofTake [0]
  id := 0
  graphId := 0
  cpu := 0
  stackName := "fork"

theorem forkWorker_disciplined {v : ArrayVec NodeId 8} :
    Worker.AllDisciplined keeps ctx {forkWorker with nodesToPoll := v} := by
  intro node hnode
  simp only [forkWorker, forkGraph, List.mem_cons, List.not_mem_nil, or_false] at hnode
  rcases hnode with rfl | rfl
  · exact source_disciplined (by decide)
  · exact sink_disciplined

/-- A task refers to packet 1, which is in the pool. -/
def refersToFree (t : Loop Unit) : Bool :=
  decide (t.queue.live = [⟨1, some 0⟩, ⟨1, some 1⟩] ∧ t.world.free 1 = 1)

/-- Packet 1 has been returned twice for one allocation. -/
def returnedTwice (t : Loop Unit) : Bool :=
  decide (t.world.log =
    [.allocated 0, .allocated 1, .returned 1, .returned 0, .returned 1])

end Sample

/-- **A poll with two links returns packets twice**: on an accepted graph of modules
that keep the rules, a packet goes back to the pool while a task refers to it, and
goes back once more when that task is done. -/
theorem Worker.fanned_out_poll :
    Graph.new Sample.factory 0 Sample.forkConfig 0 = .ok Sample.forkGraph ∧
    Worker.new 0 "fork" 0 Sample.forkGraph.nodes 0 =
      .ok {Sample.forkWorker with nodesToPoll := .empty} ∧
    Worker.start {Sample.forkWorker with nodesToPoll := .empty} Sample.ctx Sample.world =
      .ok (.ok Sample.forkWorker, Sample.world) ∧
    Worker.AllDisciplined Sample.keeps Sample.ctx
      {Sample.forkWorker with nodesToPoll := .empty} ∧
    Stocked Sample.keeps Sample.world ∧
    (∃ evs t, Run (Worker.Step true (fun _ => false) Sample.forkWorker Sample.ctx)
        (Loop.initial Sample.world) evs t ∧
      ∃ id p, ⟨id, some p⟩ ∈ t.queue.live ∧ t.world.free p = 1) ∧
    ∃ evs t, Run (Worker.Step true (fun _ => false) Sample.forkWorker Sample.ctx)
        (Loop.initial Sample.world) evs t ∧
      ∃ p, ¬ Trace.Separated (.returned p) (.allocated p) t.world.log := by
  refine ⟨rfl, rfl, rfl, Sample.forkWorker_disciplined, Sample.world_stocked, ?_, ?_⟩
  · obtain ⟨t, hrun, ht⟩ := Run.exists_of_iterate
      (Sample.forkWorker.step true (fun _ => false) Sample.ctx) 5 (Loop.initial Sample.world)
      [.enter, .polled 0 [0, 1], .pollEnd, .called 1 1 (.error .dropped),
        .called 1 0 (.error .dropped)] Sample.refersToFree (by decide +kernel)
    obtain ⟨hlive, hfree⟩ := of_decide_eq_true ht
    exact ⟨_, t, hrun, 1, 1, by rw [hlive]; decide, hfree⟩
  · obtain ⟨t, hrun, ht⟩ := Run.exists_of_iterate
      (Sample.forkWorker.step true (fun _ => false) Sample.ctx) 6 (Loop.initial Sample.world)
      [.enter, .polled 0 [0, 1], .pollEnd, .called 1 1 (.error .dropped),
        .called 1 0 (.error .dropped), .called 1 1 (.error .dropped)] Sample.returnedTwice
      (by decide +kernel)
    have hlog := of_decide_eq_true ht
    refine ⟨_, t, hrun, 1, fun hsep => ?_⟩
    have := hsep [.allocated 0, .allocated 1] [.returned 0] [] hlog
    simp at this

end OmniStack
