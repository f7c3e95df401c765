import OmniStack.Engine.Drain.Depth
import OmniStack.Engine.Leaks
import OmniStack.Modules.Discipline

/-! The registered modules in runs whose polls hand out packets over one link at most.

What is proved of every worker asks its modules to keep the rules in every world. The registered
ones keep them where the pool has no packet twice and what its callbacks finish is out, and a run
keeps the pool so as long as no poll queues a packet for two links without counting it
(`Launched.owned`). So up to the first poll that does, packets are returned once and unused
(`Launched.returned_unused`), what is polled is settled (`Launched.settled`) and the queue holds
out (`Launched.fits_queue`). After such a poll it need not: the packet comes back twice, the pool
hands it out twice, and a burst that is chained to itself never ends (`doubled_burst_overruns`). -/
namespace OmniStack
open Lib Worker

/-! ### Launched workers -/

/-- A worker started in world `world₀` on a graph of the registered modules, which find their
stack's configuration with `getStackConfig`. -/
structure LaunchedUnder {τ : Type} (getStackConfig : String → Option StackConfig)
    (sys : Sys (Instances τ)) (checks : Bool) (config : GraphConfig) (ctx : Context)
    (world₀ : World (Instances τ)) (w : Worker (Instances τ)) (world : World (Instances τ)) :
    Prop where
  started : ∃ (graphId cpu id : UInt32) (stackName : String) (g : Graph (Instances τ))
    (w₀ : Worker (Instances τ)),
    Graph.new (registry sys checks getStackConfig) graphId config cpu = .ok g ∧
      Worker.new id stackName g.id g.nodes g.cpu = .ok w₀ ∧
      w₀.start ctx world₀ = .ok (.ok w, world)

/-- Whatever the stacks' configurations are. -/
structure Launched {τ : Type} (sys : Sys (Instances τ)) (checks : Bool) (config : GraphConfig)
    (ctx : Context) (world₀ : World (Instances τ)) (w : Worker (Instances τ))
    (world : World (Instances τ)) : Prop where
  started : ∃ (getStackConfig : String → Option StackConfig) (graphId cpu id : UInt32)
    (stackName : String) (g : Graph (Instances τ)) (w₀ : Worker (Instances τ)),
    Graph.new (registry sys checks getStackConfig) graphId config cpu = .ok g ∧
      Worker.new id stackName g.id g.nodes g.cpu = .ok w₀ ∧
      w₀.start ctx world₀ = .ok (.ok w, world)

section
variable {τ : Type} {sys : Sys (Instances τ)} {checks : Bool} {config : GraphConfig}
  {ctx : Context} {w : Worker (Instances τ)} {world₀ world : World (Instances τ)}
  {shouldStop : World (Instances τ) → Bool}

theorem LaunchedUnder.launched {getStackConfig : String → Option StackConfig}
    (h : LaunchedUnder getStackConfig sys checks config ctx world₀ w world) :
    Launched sys checks config ctx world₀ w world :=
  ⟨getStackConfig, h.started⟩

theorem Launched.registered (h : Launched sys checks config ctx world₀ w world) :
    Registered sys checks config ctx w world := by
  obtain ⟨getStackConfig, graphId, cpu, id, stackName, g, w₀, hgraph, hnew, hstart⟩ := h.started
  exact ⟨getStackConfig, graphId, cpu, id, stackName, g, w₀, world₀, hgraph, hnew, hstart⟩

namespace Registered

theorem disciplined (h : Registered sys checks config ctx w world) (hsys : sys.Honours)
    (hcards : sys.FinishesHeld) :
    AllDisciplined nothingKept ctx (w.guarded World.Pooled) := by
  intro node hnode
  obtain ⟨n, hn⟩ := List.mem_iff_getElem?.mp hnode
  rw [guarded_node, Option.map_eq_some_iff] at hn
  obtain ⟨node, hn, rfl⟩ := hn
  obtain ⟨_, hbuilt⟩ := h.built
  obtain ⟨name, build, _, hbuild, hmodule⟩ := hbuilt n node hn
  simp only [Node.guarded, hmodule]
  exact registry_disciplined hsys hcards hbuild n

/-- A guarded poll that hands packets over is an end's, of 64 packets at most. -/
theorem guarded_burst (h : Registered sys checks config ctx w world) (hsys : sys.Honours)
    (hcards : sys.FinishesHeld) {n : NodeId} {node : Node (Instances τ)}
    (hnode : (w.guarded World.Pooled).nodes.items[n]? = some node)
    {head : PacketId} {v v' : World (Instances τ)}
    (hpoll : node.module.poll ctx v = .ok (.ok head, v')) :
    (∃ name, config.modules[n]? = some name ∧ name ∈ endNames) ∧
      ∃ ps, ChainOf v'.pkts (some head) ps ∧ ps.length ≤ 64 := by
  rw [guarded_node, Option.map_eq_some_iff] at hnode
  obtain ⟨node, hn, rfl⟩ := hnode
  obtain ⟨_, hbuilt⟩ := h.built
  obtain ⟨name, build, hname, hbuild, hmodule⟩ := hbuilt n node hn
  obtain ⟨hpool, hpoll, hres⟩ := Module.guarded_poll hpoll
  rw [hmodule] at hpoll
  rcases registry_polls hsys hcards hbuild n hpool hpoll hres with
    ⟨hnop, _⟩ | ⟨_, ps, hhead, hend, hchain, _, hlen⟩
  · cases hnop
  · cases hhead
    exact ⟨⟨name, hname, hend⟩, ps, hchain, hlen⟩

theorem guarded_bursts (h : Registered sys checks config ctx w world) (hsys : sys.Honours)
    (hcards : sys.FinishesHeld) : (w.guarded World.Pooled).BurstsAtMost ctx 64 :=
  fun _ _ hnode _ _ _ hpoll => (h.guarded_burst hsys hcards hnode hpoll).2

end Registered

namespace Launched

/-- The runs of the guarded worker keep every ledger that fits them. -/
theorem guarded_ledger {polls forwards : Nat → Prop} {P : (PacketId → Nat) → Books → Prop}
    (hP : Ledger polls forwards P) (h : Launched sys checks config ctx world₀ w world)
    (hsys : sys.Honours) (hcards : sys.FinishesHeld)
    (hstart : P (fun _ => 0) (world₀.books nothingKept)) {evs : List Event}
    {t : Loop (Instances τ)}
    (hrun : Run (Step checks shouldStop (w.guarded World.Pooled) ctx) (Loop.initial world) evs t)
    (hfits : ∀ ev ∈ evs, Fits polls forwards w ev) : Balanced nothingKept P t := by
  obtain ⟨_, _, _, _, _, g, w₀, _, _, hstarted⟩ := h.started
  have hmods := h.registered.disciplined hsys hcards
  have hmods₀ : AllDisciplined nothingKept ctx (w₀.guarded World.Pooled) := by
    intro node hnode
    apply hmods
    rwa [guarded, start_nodes hstarted]
  obtain ⟨_, hinit⟩ := start_balanced hP hmods₀ (start_guarded hstarted) hstart
  exact run_balanced hP hmods hrun (fun ev hev => guarded_fits.mpr (hfits ev hev)) hinit

/-- Every reference is counted as long as polls go over one link at most. -/
theorem owned (h : Launched sys checks config ctx world₀ w world) (hsys : sys.Honours)
    (hcards : sys.FinishesHeld) (hstock : Stocked nothingKept world₀) {evs : List Event}
    {t : Loop (Instances τ)}
    (hrun : Run (Step checks shouldStop (w.guarded World.Pooled) ctx) (Loop.initial world) evs t)
    (hpolls : ∀ n burst, .polled n burst ∈ evs → (w.links n).length ≤ 1) :
    Owned (waiting t.queue.live) (t.world.books nothingKept) :=
  owned_of_balanced (h.guarded_ledger Owned.ledger hsys hcards (.of_stocked hstock) hrun
    (fits_of_polls hpolls))

theorem pooled (h : Launched sys checks config ctx world₀ w world) (hsys : sys.Honours)
    (hcards : sys.FinishesHeld) (hstock : Stocked nothingKept world₀) {evs : List Event}
    {t : Loop (Instances τ)}
    (hrun : Run (Step checks shouldStop (w.guarded World.Pooled) ctx) (Loop.initial world) evs t)
    (hpolls : ∀ n burst, .polled n burst ∈ evs → (w.links n).length ≤ 1) : t.world.Pooled :=
  ((h.owned hsys hcards hstock hrun hpolls).mono fun _ => Nat.zero_le _).place

/-- The poll of an event goes over one link at most. -/
def SingleLink (w : Worker (Instances τ)) (ev : Event) : Prop :=
  ∀ n burst, ev = .polled n burst → (w.links n).length ≤ 1

theorem singleLink_iff {evs : List Event} :
    (∀ ev ∈ evs, SingleLink w ev) ↔
      ∀ n burst, .polled n burst ∈ evs → (w.links n).length ≤ 1 :=
  ⟨fun h n burst hmem => h _ hmem n burst rfl, fun h _ hmem n burst heq => h n burst (heq ▸ hmem)⟩

/-- Such runs are the guarded worker's, from wherever it has come. -/
theorem guarded_run (h : Launched sys checks config ctx world₀ w world) (hsys : sys.Honours)
    (hcards : sys.FinishesHeld) (hstock : Stocked nothingKept world₀) {done evs : List Event}
    {s t : Loop (Instances τ)}
    (hdone : Run (Step checks shouldStop (w.guarded World.Pooled) ctx) (Loop.initial world) done s)
    (hrun : Run (Step checks shouldStop w ctx) s evs t) (hevs : ∀ ev ∈ evs, ev.Unfailed)
    (hpolls : ∀ n burst, .polled n burst ∈ done ++ evs → (w.links n).length ≤ 1) :
    Run (Step checks shouldStop (w.guarded World.Pooled) ctx) s evs t := by
  have hsingle := singleLink_iff.mpr hpolls
  refine run_guarded (C := SingleLink w) (fun more u hmore hC => ?_) hrun hevs fun ev hev =>
    hsingle ev (List.mem_append_right _ hev)
  apply h.pooled hsys hcards hstock (hdone.append hmore)
  refine singleLink_iff.mp fun ev hev => ?_
  rcases List.mem_append.mp hev with hold | hnew
  · exact hsingle ev (List.mem_append_left _ hold)
  · exact hC ev hnew

/-! ### What every worker is shown to do, the launched one does -/

/-- Between two returns a packet is allocated, the pool has it once at most and not while a task
refers to it, and no step returns one that a task refers to. -/
theorem returned_unused (h : Launched sys checks config ctx world₀ w world) (hsys : sys.Honours)
    (hcards : sys.FinishesHeld) (hstock : Stocked nothingKept world₀) {evs : List Event}
    {t : Loop (Instances τ)} (hrun : Run (Step checks shouldStop w ctx) (Loop.initial world) evs t)
    (hevs : ∀ ev ∈ evs, ev.Unfailed)
    (hpolls : ∀ n burst, .polled n burst ∈ evs → (w.links n).length ≤ 1) :
    ((∀ p, Trace.Separated (.returned p) (.allocated p) t.world.log) ∧
      (∀ p, t.world.free p ≤ 1) ∧ ∀ id p, ⟨id, some p⟩ ∈ t.queue.live → t.world.free p = 0) ∧
      ∀ ev u, ev.Unfailed → Step checks shouldStop w ctx t ev u →
        ReturnsUnused (waiting (queuedDuring t ev)) t.world.log u.world.log := by
  have hguarded := h.guarded_run hsys hcards hstock (.nil _) hrun hevs hpolls
  have ht := h.owned hsys hcards hstock hguarded hpolls
  refine ⟨owned_unused ht, fun ev u hev hstep => ?_⟩
  rcases step_guarded checks shouldStop w ctx (h.pooled hsys hcards hstock hguarded hpolls) with
    hsame | ⟨n, e, v, hfailed⟩
  · have hmods := h.registered.disciplined hsys hcards
    exact turn_returnsUnused hmods (step_turn (hsame.trans hstep)) ht
  · obtain ⟨rfl, -⟩ := Prod.mk.inj (Except.ok.inj (hfailed.symm.trans hstep))
    cases hev

/-- What is polled over one link, and passed on over one at least, has been returned or is held
when the loop goes round. -/
theorem settled (h : Launched sys checks config ctx world₀ w world) (hsys : sys.Honours)
    (hcards : sys.FinishesHeld) (hstock : Stocked nothingKept world₀) {evs : List Event}
    {t : Loop (Instances τ)} (hrun : Run (Step checks shouldStop w ctx) (Loop.initial world) evs t)
    (hevs : ∀ ev ∈ evs, ev.Unfailed)
    (hpolls : ∀ n burst, .polled n burst ∈ evs → (w.links n).length = 1)
    (hcalls : ∀ n p, .called n p (.ok ()) ∈ evs → 1 ≤ (w.links n).length) (htop : t.phase = .top)
    {before after : List Event} {n : NodeId} {burst : List PacketId}
    (hsplit : evs = before ++ .polled n burst :: after) :
    ∃ v, Run (Step checks shouldStop w ctx) (Loop.initial world) (before ++ [.polled n burst]) v ∧
      Run (Step checks shouldStop w ctx) v after t ∧
      ∀ p ∈ burst, 0 < t.world.held p ∨ .returned p ∈ t.world.log.drop v.world.log.length := by
  have hfits : ∀ ev ∈ evs, Fits (1 ≤ ·) (1 ≤ ·) w ev := by
    intro ev hev
    cases ev with
    | polled n burst => exact (hpolls n burst hev).ge
    | called n p res =>
      cases res with
      | ok u => exact hcalls n p hev
      | error e => trivial
    | _ => trivial
  have hsingle : ∀ n burst, .polled n burst ∈ evs → (w.links n).length ≤ 1 :=
    fun n burst hmem => (hpolls n burst hmem).le
  subst hsplit
  obtain ⟨u, hbefore, hrest⟩ := hrun.split
  cases hrest with
  | @cons _ v _ _ _ hpoll hafter =>
    have hsofar : ∀ n' burst', .polled n' burst' ∈ before ++ [.polled n burst] →
        (w.links n').length ≤ 1 := by
      intro n' burst' hmem
      apply hsingle n' burst'
      rcases List.mem_append.mp hmem with hold | hnew
      · exact List.mem_append_left _ hold
      · exact List.mem_append_right _ (List.mem_singleton.mp hnew ▸ List.mem_cons_self)
    have hbefore' := h.guarded_run hsys hcards hstock (.nil _) hbefore
      (fun ev hev => hevs ev (List.mem_append_left _ hev))
      (fun n burst hmem => hsingle n burst (List.mem_append_left _ hmem))
    have hpoll' := h.guarded_run hsys hcards hstock hbefore' (.single hpoll)
      (fun ev hev => List.mem_singleton.mp hev ▸ trivial) hsofar
    have hafter' := h.guarded_run hsys hcards hstock (hbefore'.append hpoll') hafter
      (fun ev hev => hevs ev (by simp [hev])) (by simpa using hsingle)
    have hu := h.guarded_ledger accounted_law.ledger hsys hcards (accounted_of_stocked hstock)
      hbefore' fun ev hev => hfits ev (List.mem_append_left _ hev)
    refine ⟨v, hbefore.snoc hpoll, hafter, polled_settled (h.registered.disciplined hsys hcards) hu
      (Run.of_single hpoll') hafter' ?_ (fun ev hev => ?_) htop (run_topEmpty hrun htop)⟩
    · rw [guarded_links]
      exact (hpolls n burst (by simp)).ge
    · exact guarded_fits.mpr (hfits ev (by simp [hev]))

/-- The queue holds out where a round of bursts of 64 packets fits it. -/
theorem fits_queue (h : Launched sys checks config ctx world₀ w world) (hsys : sys.Honours)
    (hcards : sys.FinishesHeld) (hstock : Stocked nothingKept world₀)
    (hround : w.RoundFits ctx 64) {evs : List Event} {t : Loop (Instances τ)}
    (hrun : Run (Step checks shouldStop w ctx) (Loop.initial world) evs t)
    (hpolls : ∀ n burst, .polled n burst ∈ evs → (w.links n).length ≤ 1) :
    w.step checks shouldStop ctx t ≠ .error .queueOverrun := by
  intro hover
  have hsafe : ∀ evs t, Run (Step checks shouldStop (w.guarded World.Pooled) ctx)
      (Loop.initial world) evs t → (∀ ev ∈ evs, SingleLink w ev) → t.world.Pooled :=
    fun _ _ hrun hC => h.pooled hsys hcards hstock hrun (singleLink_iff.mp hC)
  rcases fault_guarded hsafe hrun (singleLink_iff.mpr hpolls) hover with
    hreturned | ⟨hguarded, hover⟩
  · cases hreturned
  · have hbursts := h.registered.guarded_bursts hsys hcards
    exact roomy_no_overrun hbursts (by decide) hround.guarded
      (run_roomy hbursts (by decide) hround.guarded hguarded) hover

end Launched
end

/-! ### A launched worker on the UDP graph -/

namespace Sample

/-- The pool's first free objects. -/
def firstFree {σ : Type} (n : Nat) (w : World σ) : Option (List PacketId) × σ :=
  let ps := ((List.range 64).filter fun p => 0 < w.free p).take n
  (if ps.length = n then some ps else none, w.env)

theorem firstFree_some {σ : Type} {n : Nat} {w : World σ} {ps : List PacketId} {env : σ}
    (h : firstFree n w = (some ps, env)) :
    ps = ((List.range 64).filter fun p => 0 < w.free p).take n ∧ ps.length = n := by
  by_cases hn : (((List.range 64).filter fun p => 0 < w.free p).take n).length = n
  · simp only [firstFree, if_pos hn, Prod.mk.injEq, Option.some.injEq] at h
    obtain ⟨rfl, _⟩ := h
    exact ⟨rfl, hn⟩
  · simp only [firstFree, if_neg hn, Prod.mk.injEq] at h
    cases h.1

theorem honours_of_firstFree {σ : Type} {sys : Sys σ} (hget : sys.mempoolGet = firstFree)
    (hrx : ∀ port queue w, (sys.ethRxBurst port queue Dpdk.burstSize w).1.length ≤
      Dpdk.burstSize) : sys.Honours where
  get_length h := (firstFree_some (hget ▸ h)).2
  get_held {n w ps env} h p := by
    rw [hget] at h
    obtain ⟨rfl, _⟩ := firstFree_some h
    have hsub := List.take_sublist n ((List.range 64).filter fun p => 0 < w.free p)
    by_cases hp : p ∈ (List.range 64).filter fun p => 0 < w.free p
    · have hnodup : ((List.range 64).filter fun p => 0 < w.free p).Nodup :=
        List.nodup_range.filter _
      have hle := List.nodup_iff_count.mp (hnodup.sublist hsub) p
      have hpos := of_decide_eq_true (List.mem_filter.mp hp).2
      omega
    · rw [List.count_eq_zero_of_not_mem fun hmem => hp (hsub.subset hmem)]
      exact Nat.zero_le _
  rx_length := hrx

/-- A card that takes what it is offered. -/
def fairCard : Sys (Instances Unit) where
  __ := quietCard
  mempoolGet := firstFree

theorem fairCard_honours : fairCard.Honours :=
  honours_of_firstFree rfl fun _ _ _ => Nat.zero_le _

theorem fairCard_finishes : fairCard.FinishesHeld := fun _ _ _ _ _ => Nat.zero_le _

theorem udpWorld_stocked : Stocked nothingKept udpWorld :=
  ⟨fun _ => .inl ⟨rfl, rfl⟩, fun _ => rfl, fun _ => rfl, rfl⟩

/-- What a launched worker does in so many turns, and what is then seen of it. -/
def launch {τ α : Type} (sys : Sys (Instances τ)) (world₀ : World (Instances τ)) (checks : Bool)
    (config : GraphConfig) (turns : Nat) (view : Loop (Instances τ) → α) :
    Except EngineFault (List Event × α) := do
  let g ← callModule (Graph.new (registry sys checks fun _ => some udpStack) 0 config 14)
  let w₀ ← callModule (Worker.new 0 "UDP" g.id g.nodes g.cpu)
  match ← callModule (w₀.start ctx world₀) with
  | (.error _, _) => throw .returned
  | (.ok w, world) => do
    let (evs, s) ← Run.iterate (w.step checks (fun _ => false) ctx) turns (Loop.initial world)
    return (evs, view s)

theorem launch_run {τ α : Type} {sys : Sys (Instances τ)} {world₀ : World (Instances τ)}
    {checks : Bool} {config : GraphConfig} {turns : Nat} {view : Loop (Instances τ) → α}
    {evs : List Event} {seen : α}
    (h : launch sys world₀ checks config turns view = .ok (evs, seen)) :
    ∃ w world t,
      LaunchedUnder (fun _ => some udpStack) sys checks config ctx world₀ w world ∧
      Run (Step checks (fun _ => false) w ctx) (Loop.initial world) evs t ∧ view t = seen := by
  simp only [launch, Exec.bind_eq_ok, callModule_ok] at h
  obtain ⟨g, hgraph, w₀, hnew, ⟨started, world⟩, hstart, h⟩ := h
  cases started with
  | error e => cases h
  | ok w =>
    simp only [Exec.bind_eq_ok, Exec.pure_eq_ok, Prod.mk.injEq] at h
    obtain ⟨⟨_, s⟩, hiter, rfl, rfl⟩ := h
    exact ⟨w, world, s, ⟨0, 14, 0, "UDP", g, w₀, hgraph, hnew, hstart⟩, Run.of_iterate hiter, rfl⟩

/-- A launched worker that goes wrong has run to where it does. -/
theorem launch_fault {τ α : Type} {sys : Sys (Instances τ)} {world₀ : World (Instances τ)}
    {checks : Bool} {config : GraphConfig} {turns : Nat} {view : Loop (Instances τ) → α}
    (h : launch sys world₀ checks config turns view = .error .queueOverrun) :
    ∃ w world evs t, Launched sys checks config ctx world₀ w world ∧
      Run (Step checks (fun _ => false) w ctx) (Loop.initial world) evs t ∧
      w.step checks (fun _ => false) ctx t = .error .queueOverrun := by
  simp only [launch, Exec.bind_eq_error, callModule_ne_overrun, callModule_ok, false_or] at h
  obtain ⟨g, hgraph, w₀, hnew, ⟨started, world⟩, hstart, h⟩ := h
  cases started with
  | error e => cases h
  | ok w =>
    rcases Exec.bind_eq_error.mp h with hiter | ⟨_, _, h⟩
    · obtain ⟨evs, t, hrun, hfault⟩ := Run.of_iterate_error hiter
      exact ⟨w, world, evs, t, ⟨fun _ => some udpStack, 0, 14, 0, "UDP", g, w₀, hgraph, hnew,
        hstart⟩, hrun, hfault⟩
    · cases h

/-- The last packet of the first burst goes down the stack. -/
def sendOne : List Event :=
  [.enter, .idle 0, .polled 7 (List.range 32), .pollEnd, .called 5 31 (.ok ()),
    .called 3 31 (.ok ()), .called 1 31 (.ok ()), .called 0 31 (.error .dropped)]

theorem fairCard_sends :
    launch fairCard udpWorld true udpGraph 8 (fun t => (t.queue.index, t.world.held 31)) =
      .ok (sendOne, (31, 1)) := by
  decide +kernel

end Sample

/-! ### The depth of the drain loop -/

/-- **The depth of the drain loop.** From `q` tasks the queue never holds more than
`q + (k - 1) * D`, with at most `k` links a node and `D` the length of the longest path
packets can take; as long as that fits the array, no call writes beyond it. On a graph of
the registered modules it fits as long as polls hand out packets over one link at most. -/
theorem Worker.drain_depth (ctx : Context) :
    (∀ {σ : Type} {w : Worker σ} {k : Nat}, (∀ n, (w.links n).length ≤ k) →
      w.CyclesBroken ctx → ∀ s : Loop σ, s.phase = .drain →
        ∃ D, w.LongestPath ctx s.queue.live D ∧ ∀ checks shouldStop evs t,
          Run (Step checks shouldStop w ctx) s evs t → (∀ ev ∈ evs, ev.IsCall) →
            t.queue.index ≤ s.queue.index + (k - 1) * D ∧
            (s.queue.index + (k - 1) * D ≤ taskQueueSize →
              w.step checks shouldStop ctx t ≠ .error .queueOverrun)) ∧
    ∀ {τ : Type} {sys : Sys (Instances τ)} {checks : Bool} {config : GraphConfig}
      {w : Worker (Instances τ)} {world₀ world : World (Instances τ)},
      Launched sys checks config ctx world₀ w world → sys.Honours → sys.FinishesHeld →
        Stocked nothingKept world₀ → w.CyclesBroken ctx → ∀ shouldStop evs t,
          Run (Step checks shouldStop w ctx) (Loop.initial world) evs t →
            (∀ n burst, .polled n burst ∈ evs → (w.links n).length ≤ 1) →
              t.queue.index ≤ taskQueueSize ∧
                w.step checks shouldStop ctx t ≠ .error .queueOverrun := by
  constructor
  · intro σ w k hlinks hcycles s hphase
    obtain ⟨D, hD⟩ := exists_longestPath hcycles s.queue.live
    refine ⟨D, hD, fun checks shouldStop evs t hrun hevs => ⟨drain_height hlinks hD hevs hrun, ?_⟩⟩
    intro hfits
    exact drain_fits hlinks hD hfits hphase hevs hrun
  · intro τ sys checks config w world₀ world h hsys hcards hstock hcycles shouldStop evs t hrun
      hpolls
    exact ⟨run_index hrun, h.fits_queue hsys hcards hstock (h.registered.round_fits hcycles) hrun
      hpolls⟩

theorem Worker.drain_depth_sample : ∃ w world t,
    Launched Sample.fairCard true udpGraph Sample.ctx Sample.udpWorld w world ∧
      (∃ D, w.LongestPath Sample.ctx [⟨5, some 0⟩] D ∧ ∀ checks shouldStop evs t,
        Run (Step checks shouldStop w Sample.ctx) (Sample.udpDrain world) evs t →
          (∀ ev ∈ evs, ev.IsCall) → t.queue.index ≤ 1 + (4 - 1) * D ∧
            (1 + (4 - 1) * D ≤ taskQueueSize →
              w.step checks shouldStop Sample.ctx t ≠ .error .queueOverrun)) ∧
      Run (Step true (fun _ => false) w Sample.ctx) (Loop.initial world) Sample.sendOne t ∧
        t.queue.index = 31 ∧ t.queue.index ≤ taskQueueSize ∧
          w.step true (fun _ => false) Sample.ctx t ≠ .error .queueOverrun := by
  obtain ⟨w, world, t, hunder, hrun, hseen⟩ := Sample.launch_run Sample.fairCard_sends
  have hlaunched := hunder.launched
  have hcycles := hlaunched.registered.udp_cycles_broken
  have hpolls : ∀ n burst, .polled n burst ∈ Sample.sendOne → (w.links n).length ≤ 1 := by
    intro n burst hmem
    obtain ⟨rfl, -⟩ : n = 7 ∧ burst = List.range 32 := by simpa [Sample.sendOne] using hmem
    rw [hlaunched.registered.links_eq]
    decide
  exact ⟨w, world, t, hlaunched,
    (Worker.drain_depth _).1 w.links_length hcycles (Sample.udpDrain world) rfl, hrun,
    congrArg Prod.fst hseen, (Worker.drain_depth _).2 hlaunched Sample.fairCard_honours
      Sample.fairCard_finishes Sample.udpWorld_stocked hcycles _ _ t hrun hpolls⟩

/-! ### A burst that is handed out twice -/

namespace Sample

/-- The IO node is linked to the user node twice. -/
def twiceGraph : GraphConfig where
  name := "twice"
  modules := ["IoNode", "UserNode"]
  links := [("IoNode", "UserNode"), ("IoNode", "UserNode")]

/-- The objects of a pool, each as often as it holds it. -/
def objects {σ : Type} (w : World σ) (ps : List PacketId) : List PacketId :=
  ps.flatMap fun p => List.replicate (w.free p) p

theorem objects_count {σ : Type} (w : World σ) (p : PacketId) {ps : List PacketId}
    (hnodup : ps.Nodup) : (objects w ps).count p ≤ w.free p := by
  induction ps with
  | nil => exact Nat.zero_le _
  | cons q rest ih =>
    obtain ⟨hq, hrest⟩ := List.nodup_cons.mp hnodup
    have hcount : (objects w (q :: rest)).count p =
        (List.replicate (w.free q) q).count p + (objects w rest).count p :=
      List.count_append ..
    rw [hcount]
    by_cases hp : p = q
    · subst hp
      have hnone : p ∉ objects w rest := by
        intro hmem
        obtain ⟨q, hq', hrep⟩ := List.mem_flatMap.mp hmem
        exact hq (List.eq_of_mem_replicate hrep ▸ hq')
      rw [List.count_replicate_self, List.count_eq_zero_of_not_mem hnone, Nat.add_zero]
    · have hnone : p ∉ List.replicate (w.free q) q := fun hmem => hp (List.eq_of_mem_replicate hmem)
      rw [List.count_eq_zero_of_not_mem hnone, Nat.zero_add]
      exact ih hrest

/-- A pool that gives its first objects, and a card that has received one mbuf at first and two
after that. -/
def burstyCard : Sys (Instances Nat) where
  __ := Sys.quiet
  mempoolGet := fun n w =>
    let ps := (objects w (List.range 64)).take n
    (if ps.length = n then some ps else none, w.env)
  ethRxBurst := fun _ _ _ w =>
    (if w.env.rest = 0 then [Dpdk.Sample.received 7]
      else [Dpdk.Sample.received 7, Dpdk.Sample.received 8], {w.env with rest := w.env.rest + 1})

def twiceWorld : World (Instances Nat) where
  pkts := fun p => {pkt with data := .own p}
  mem := fun _ _ => 0
  mbufs := fun m => ⟨(.room m, 0), 0, 0, 0, 0, none, 0, 0, 0, 0⟩
  free := fun _ => 1
  held := fun _ => 0
  log := []
  rawFreed := []
  wire := []
  env := ⟨fun _ => IoNode.new, fun _ => Ipv4Sender.new, 0, 0⟩

theorem burstyCard_get {n : Nat} {w : World (Instances Nat)} {ps : List PacketId}
    {env : Instances Nat} (h : burstyCard.mempoolGet n w = (some ps, env)) :
    ps = (objects w (List.range 64)).take n ∧ ps.length = n := by
  by_cases hn : ((objects w (List.range 64)).take n).length = n
  · simp only [burstyCard, if_pos hn, Prod.mk.injEq, Option.some.injEq] at h
    obtain ⟨rfl, _⟩ := h
    exact ⟨rfl, hn⟩
  · simp only [burstyCard, if_neg hn, Prod.mk.injEq] at h
    cases h.1

theorem burstyCard_honours : burstyCard.Honours where
  get_length h := (burstyCard_get h).2
  get_held {n w ps env} h p := by
    obtain ⟨rfl, _⟩ := burstyCard_get h
    exact ((List.take_sublist ..).count_le p).trans (objects_count w p List.nodup_range)
  rx_length _ _ w := by
    show (if w.env.rest = 0 then _ else _ : List RxMbuf).length ≤ 64
    split <;> decide

theorem burstyCard_finishes : burstyCard.FinishesHeld := fun _ _ _ _ _ => Nat.zero_le _

theorem twiceWorld_stocked : Stocked nothingKept twiceWorld :=
  ⟨fun _ => .inl ⟨rfl, rfl⟩, fun _ => rfl, fun _ => rfl, rfl⟩

/-- The second burst goes round. -/
theorem burstyCard_overruns :
    launch burstyCard twiceWorld true twiceGraph 9 (fun _ => ()) = .error .queueOverrun := by
  decide +kernel

end Sample

/-- The user node returns the only packet of the first burst once for each link. The second burst
is that packet twice, and is linked to itself. -/
theorem Worker.doubled_burst_overruns : ∃ w world evs t,
    Launched Sample.burstyCard true Sample.twiceGraph Sample.ctx Sample.twiceWorld w world ∧
      Sample.burstyCard.Honours ∧ Sample.burstyCard.FinishesHeld ∧
      Stocked nothingKept Sample.twiceWorld ∧ w.CyclesBroken Sample.ctx ∧
      Run (Step true (fun _ => false) w Sample.ctx) (Loop.initial world) evs t ∧
      w.step true (fun _ => false) Sample.ctx t = .error .queueOverrun := by
  obtain ⟨w, world, evs, t, hlaunched, hrun, hover⟩ :=
    Sample.launch_fault Sample.burstyCard_overruns
  refine ⟨w, world, evs, t, hlaunched, Sample.burstyCard_honours, Sample.burstyCard_finishes,
    Sample.twiceWorld_stocked, ?_, hrun, hover⟩
  -- both nodes are ends, which keep their packets
  apply hlaunched.registered.cycles_broken fun _ => 0
  intro n name hname hend
  have hmem := List.mem_of_getElem? hname
  simp only [Sample.twiceGraph, List.mem_cons, List.not_mem_nil, or_false] at hmem
  exact absurd (by rcases hmem with rfl | rfl <;> decide) hend

end OmniStack
