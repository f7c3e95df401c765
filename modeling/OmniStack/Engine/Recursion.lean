import OmniStack.Engine.Drain.Accounting
import OmniStack.Engine.Drain.Depth
import OmniStack.Lib.DepthFirst

/-! The worker as a structured program.

`task_queue` is a machine's stack. What it computes is a recursion: a task's module is called
on the packet, and where it returns `Ok` the tasks of its links are done, each with all that
comes of it, the last link first (`drain_depth_first`). The rest of the main loop is
structured already: the nodes are polled in turn, each on the world the one before left. So a
run of the worker is a sequence of `Round`s and nothing else, as long as the queue holds out
(`run_iff_rounds`), and what is to be shown of every run can be shown of rounds. -/
namespace OmniStack
open Lib

theorem Event.GoesOn.isCall {ev : Event} (h : ev.GoesOn) : ev.IsCall := by
  cases ev with
  | called => trivial
  | enter | leave | idle | polled | pollEnd | drained | failed => cases h

namespace Worker
variable {σ : Type}

/-! ### The drain loop -/

/-- A task done: its node's module is called, the packet's references are counted for the
links, and these are the tasks it makes. -/
inductive Calls (checks : Bool) (w : Worker σ) (ctx : Context) :
    Task → World σ → Event → World σ → List Task → Prop where
  | forwarded {id : NodeId} {p : PacketId} {node : Node σ} {world world' : World σ} {refcnt : Nat}
      (hnode : w.nodes.items[id]? = some node)
      (hcall : node.module.process ctx p world = .ok (.ok (), world'))
      (hrefs : addRefs checks (world'.pkts p).refcnt node.linksTo.items.length = .ok refcnt) :
      Calls checks w ctx ⟨id, some p⟩ world (.called id p (.ok ()))
        (world'.setPkt p {world'.pkts p with refcnt})
        (node.linksTo.items.map fun m => ⟨m, some p⟩)
  | dropped {id : NodeId} {p : PacketId} {node : Node σ} {world world' : World σ}
      (hnode : w.nodes.items[id]? = some node)
      (hcall : node.module.process ctx p world = .ok (.error .dropped, world')) :
      Calls checks w ctx ⟨id, some p⟩ world (.called id p (.error .dropped)) world' []

variable {checks : Bool} {shouldStop : World σ → Bool} {w : Worker σ} {ctx : Context}

theorem Calls.goesOn {task : Task} {world world' : World σ} {ev : Event} {made : List Task}
    (h : Calls checks w ctx task world ev world' made) : ev.GoesOn := by
  cases h <;> trivial

/-- The stack and the world it works on. -/
def work (s : Loop σ) : List Task × World σ := (s.queue.live, s.world)

/-- A call that lets the loop go on does the top task. -/
theorem step_pops {s t : Loop σ} {ev : Event} (hev : ev.GoesOn)
    (h : Step checks shouldStop w ctx s ev t) :
    Pops (Calls checks w ctx) (work s) ev (work t) ∧ t.phase = .drain := by
  have hturn := step_turn h
  cases hturn with
  | enter | leave | pollEnd | idle | polled | pollFailed | drained => cases hev
  | @forwarded _ _ _ _ _ _ _ hindex htask hnode hcall hrefs hpush =>
    refine ⟨?_, rfl⟩
    simp only [work]
    rw [ArrayStack.pop_live hindex, ArrayStack.pushAll_live hpush, htask]
    exact .pop (.forwarded hnode hcall hrefs)
  | @dropped id p _ world _ hindex htask hnode hcall =>
    have hpop : Pops (Calls checks w ctx) (s.queue.pop.2.live ++ [⟨id, some p⟩], s.world)
        (.called id p (.error .dropped)) (s.queue.pop.2.live ++ [], world) :=
      .pop (.dropped hnode hcall)
    rw [List.append_nil] at hpop
    refine ⟨?_, rfl⟩
    simp only [work]
    rwa [ArrayStack.pop_live hindex, htask]
  | @callFailed _ _ _ _ e _ _ _ _ _ hne =>
    cases e with
    | dropped => exact absurd rfl hne
    | nop | memoryError | unknown | serviceError | ioError | jsonParseError => cases hev

/-- The top task can be done by the loop, unless what it makes does not fit the queue. -/
theorem pops_step {s : Loop σ} {ev : Event} {done : List Task × World σ} (hphase : s.phase = .drain)
    (h : Pops (Calls checks w ctx) (work s) ev done) :
    (∃ t, Step checks shouldStop w ctx s ev t ∧ t.phase = .drain ∧ work t = done) ∨
      w.step checks shouldStop ctx s = .error .queueOverrun := by
  generalize hwork : work s = c at h
  cases h with
  | @pop base made task _ last _ hcall =>
    simp only [work, Prod.mk.injEq] at hwork
    obtain ⟨hlive, rfl⟩ := hwork
    have hindex : s.queue.index ≠ 0 := by
      rw [← ArrayStack.live_length, hlive, List.length_append]
      exact Nat.succ_ne_zero _
    obtain ⟨rfl, htop⟩ := List.append_inj' ((ArrayStack.pop_live hindex).symm.trans hlive) rfl
    have htask := List.singleton_inj.mp htop
    have hstep : w.step checks shouldStop ctx s = w.drainTask checks ctx s := by
      simp only [step, hphase, if_neg hindex]
    cases hcall with
    | @forwarded id p node world world' refcnt hnode hcall hrefs =>
      cases hpush : s.queue.pop.2.pushAll taskQueueSize
          (node.linksTo.items.map fun m => ⟨m, some p⟩) with
      | none =>
        refine .inr (hstep.trans ?_)
        simp only [drainTask, htask, getNode, hnode, hcall, callModule, Exec.ok_bind, hrefs, hpush]
        rfl
      | some queue =>
        have hdo : w.drainTask checks ctx s = .ok (.called id p (.ok ()),
            ⟨queue, .drain, world'.setPkt p {world'.pkts p with refcnt}⟩) := by
          simp only [drainTask, htask, getNode, hnode, hcall, callModule, Exec.ok_bind, hrefs,
            hpush]
          rfl
        refine .inl ⟨_, hstep.trans hdo, rfl, ?_⟩
        rw [work, ArrayStack.pushAll_live hpush]
    | @dropped id p _ _ _ hnode hcall =>
      have hdo : w.drainTask checks ctx s =
          .ok (.called id p (.error .dropped), ⟨s.queue.pop.2, .drain, last⟩) := by
        simp only [drainTask, htask, getNode, hnode, hcall, callModule, Exec.ok_bind]
        rfl
      refine .inl ⟨_, hstep.trans hdo, rfl, ?_⟩
      rw [work, List.append_nil]

/-- Calls that let the loop go on are steps of the machine. -/
theorem run_pops {s t : Loop σ} {evs : List Event} (hphase : s.phase = .drain)
    (hrun : Run (Step checks shouldStop w ctx) s evs t) (hevs : ∀ ev ∈ evs, ev.GoesOn) :
    Run (Pops (Calls checks w ctx)) (work s) evs (work t) ∧ t.phase = .drain := by
  induction hrun with
  | nil s => exact ⟨.nil _, hphase⟩
  | cons hstep _ ih =>
    obtain ⟨hev, hrest⟩ := List.forall_mem_cons.mp hevs
    obtain ⟨hpop, hmid⟩ := step_pops hev hstep
    obtain ⟨hrun, hend⟩ := ih hmid hrest
    exact ⟨.cons hpop hrun, hend⟩

/-- No call of the drain loop writes beyond the queue. -/
def DrainHolds (checks : Bool) (shouldStop : World σ → Bool) (w : Worker σ) (ctx : Context)
    (s : Loop σ) : Prop :=
  ∀ evs t, Run (Step checks shouldStop w ctx) s evs t → (∀ ev ∈ evs, ev.GoesOn) →
    w.step checks shouldStop ctx t ≠ .error .queueOverrun

/-- Steps of the machine are calls, where none overruns the queue. -/
theorem pops_run {s : Loop σ} {evs : List Event} {done : List Task × World σ}
    (hphase : s.phase = .drain) (hfits : DrainHolds checks shouldStop w ctx s)
    (h : Run (Pops (Calls checks w ctx)) (work s) evs done) :
    ∃ t, Run (Step checks shouldStop w ctx) s evs t ∧ (∀ ev ∈ evs, ev.GoesOn) ∧
      t.phase = .drain ∧ work t = done := by
  generalize hwork : work s = c at h
  induction h generalizing s with
  | nil => exact ⟨s, .nil s, by simp, hphase, hwork⟩
  | @cons _ _ _ ev evs hpop _ ih =>
    have hev : ev.GoesOn := by
      cases hpop with
      | pop hcall => exact hcall.goesOn
    subst hwork
    have hstep : (∃ t, Step checks shouldStop w ctx s ev t ∧ t.phase = .drain ∧ work t = _) ∨
        w.step checks shouldStop ctx s = .error .queueOverrun := pops_step hphase hpop
    rcases hstep with ⟨u, hstep, hmid, hu⟩ | hover
    · obtain ⟨t, hrun, hevs, hend, ht⟩ := ih hmid
        (fun evs t hrun hevs => hfits (ev :: evs) t (.cons hstep hrun)
          (List.forall_mem_cons.mpr ⟨hev, hevs⟩)) hu
      exact ⟨t, .cons hstep hrun, List.forall_mem_cons.mpr ⟨hev, hevs⟩, hend, ht⟩
    · exact absurd hover (hfits [] s (.nil s) (by simp))

/-- The tasks, done from the top of the stack. -/
def Drains (checks : Bool) (w : Worker σ) (ctx : Context) (tasks : List Task) :
    World σ → List Event → World σ → Prop :=
  Visits (Calls checks w ctx) tasks.reverse

/-- Where the queue holds out the drain loop is the recursion. -/
theorem drains_iff {s : Loop σ} (hphase : s.phase = .drain)
    (hfits : DrainHolds checks shouldStop w ctx s) {evs : List Event} {world : World σ} :
    (∃ t, Run (Step checks shouldStop w ctx) s evs t ∧ (∀ ev ∈ evs, ev.GoesOn) ∧
      t.phase = .drain ∧ t.queue.index = 0 ∧ t.world = world) ↔
      Drains checks w ctx s.queue.live s.world evs world := by
  refine Iff.trans ?_ run_iff_visits
  constructor
  · intro h
    obtain ⟨t, hrun, hevs, _, hindex, rfl⟩ := h
    have hempty : t.queue.live = [] :=
      List.length_eq_zero_iff.mp ((ArrayStack.live_length _).trans hindex)
    have hpops := (run_pops hphase hrun hevs).1
    rwa [work, work, hempty] at hpops
  · intro h
    obtain ⟨t, hrun, hevs, hend, ht⟩ := pops_run hphase hfits h
    simp only [work, Prod.mk.injEq] at ht
    refine ⟨t, hrun, hevs, hend, ?_, ht.2⟩
    rw [← ArrayStack.live_length, ht.1]
    rfl

/-- A path goes through every node at most once. -/
theorem LongestPath.le_nodes {tasks : List Task} {D : Nat} (h : w.LongestPath ctx tasks D)
    (hcycles : w.CyclesBroken ctx) : D ≤ w.nodes.items.length := by
  rcases h with ⟨_, rfl⟩ | ⟨⟨_, _, hwalk⟩, _⟩
  · exact Nat.zero_le _
  · have hle := (onward_descending hcycles).walk_le hwalk
    rwa [List.length_range] at hle

/-- **The drain loop is a recursion.** Where its calls do not overrun the queue, the loop comes to
the end of the queue by the calls `evs` exactly where the tasks, done depth first from the top, make
these calls and leave that world. With `k` links a node at most, a longest path of `D` links and
room for `q + (k - 1) * D` tasks they do not overrun it. -/
theorem drain_depth_first {s : Loop σ} (hphase : s.phase = .drain) :
    (DrainHolds checks shouldStop w ctx s → ∀ (evs : List Event) (world : World σ),
      (∃ t, Run (Step checks shouldStop w ctx) s evs t ∧ (∀ ev ∈ evs, ev.GoesOn) ∧
        t.phase = .drain ∧ t.queue.index = 0 ∧ t.world = world) ↔
        Drains checks w ctx s.queue.live s.world evs world) ∧
    ∀ k D, (∀ n, (w.links n).length ≤ k) → w.LongestPath ctx s.queue.live D →
      s.queue.index + (k - 1) * D ≤ taskQueueSize → DrainHolds checks shouldStop w ctx s := by
  refine ⟨fun hfits evs world => drains_iff hphase hfits, ?_⟩
  intro k D hlinks hD hfits evs t hrun hevs
  exact drain_fits hlinks hD hfits hphase (fun ev hev => (hevs ev hev).isCall) hrun

theorem drain_depth_first_sample : ∃ w world,
    Registered Sample.quietCard true udpGraph Sample.ctx w world ∧
      ∀ evs last, (∃ t,
        Run (Step true (fun _ => false) w Sample.ctx) (Sample.udpDrain world) evs t ∧
        (∀ ev ∈ evs, ev.GoesOn) ∧ t.phase = .drain ∧ t.queue.index = 0 ∧ t.world = last) ↔
        Drains true w Sample.ctx [⟨5, some 0⟩] world evs last := by
  obtain ⟨w, world, hreg⟩ := Sample.udp_started
  obtain ⟨D, hD⟩ := exists_longestPath hreg.udp_cycles_broken (Sample.udpDrain world).queue.live
  have hshort : 1 + (4 - 1) * D ≤ taskQueueSize := by
    have hnodes : w.nodes.items.length ≤ 32 := w.nodes.bound
    have hle := hD.le_nodes hreg.udp_cycles_broken
    have hsize : taskQueueSize = 2048 := rfl
    omega
  obtain ⟨hrecursion, hroom⟩ := @drain_depth_first _ true (fun _ => false) w Sample.ctx
    (Sample.udpDrain world) rfl
  exact ⟨w, world, hreg, hrecursion (hroom 4 D w.links_length hD hshort)⟩

/-! ### The main loop -/

/-- The nodes polled one after the other, with the tasks that come of it. -/
inductive Polls (w : Worker σ) (ctx : Context) :
    List NodeId → World σ → List Task → World σ → Prop where
  | nil (world : World σ) : Polls w ctx [] world [] world
  | idle {id : NodeId} {rest : List NodeId} {node : Node σ} {world mid last : World σ}
      {tasks : List Task} (hnode : w.nodes.items[id]? = some node)
      (hpoll : node.module.poll ctx world = .ok (.error .nop, mid))
      (hrest : Polls w ctx rest mid tasks last) : Polls w ctx (id :: rest) world tasks last
  | polled {id : NodeId} {rest : List NodeId} {node : Node σ} {world mid last : World σ}
      {head : PacketId} {burst : List PacketId} {tasks : List Task}
      (hnode : w.nodes.items[id]? = some node)
      (hpoll : node.module.poll ctx world = .ok (.ok head, mid))
      (hburst : node.linksTo.items ≠ [] → ChainOf mid.pkts (some head) burst)
      (hrest : Polls w ctx rest mid tasks last) :
      Polls w ctx (id :: rest) world (node.linksTo.items.flatMap (linkTasks burst) ++ tasks) last

theorem Polls.append {l m : List NodeId} {world mid last : World σ} {tasks more : List Task}
    (h : Polls w ctx l world tasks mid) (h' : Polls w ctx m mid more last) :
    Polls w ctx (l ++ m) world (tasks ++ more) last := by
  induction h with
  | nil => exact h'
  | idle hnode hpoll _ ih => exact .idle hnode hpoll (ih h')
  | polled hnode hpoll hburst _ ih =>
    rw [List.append_assoc]
    exact .polled hnode hpoll hburst (ih h')

/-- One turn of the main loop: everything is polled, then everything is done. -/
def Round (checks : Bool) (shouldStop : World σ → Bool) (w : Worker σ) (ctx : Context)
    (world last : World σ) : Prop :=
  shouldStop world = false ∧ ∃ tasks mid evs,
    Polls w ctx w.nodesToPoll.items world tasks mid ∧ Drains checks w ctx tasks mid evs last

/-- The turns of the main loop. -/
def Rounds (checks : Bool) (shouldStop : World σ → Bool) (w : Worker σ) (ctx : Context) :
    World σ → World σ → Prop :=
  Relation.ReflTransGen (Round checks shouldStop w ctx)

/-- Where a run that began at `start` is. -/
def Within (checks : Bool) (shouldStop : World σ → Bool) (w : Worker σ) (ctx : Context)
    (start : World σ) (s : Loop σ) : Prop :=
  match s.phase with
  | .top => s.queue.live = [] ∧ Rounds checks shouldStop w ctx start s.world
  | .poll rest => ∃ before world, w.nodesToPoll.items = before ++ rest ∧
      Rounds checks shouldStop w ctx start world ∧ shouldStop world = false ∧
      Polls w ctx before world s.queue.live s.world
  | .drain => ∃ world tasks mid evs, Rounds checks shouldStop w ctx start world ∧
      shouldStop world = false ∧ Polls w ctx w.nodesToPoll.items world tasks mid ∧
      Run (Pops (Calls checks w ctx)) (tasks, mid) evs (work s)
  | .done (.ok ()) => ∃ world, Rounds checks shouldStop w ctx start world ∧
      shouldStop world = true ∧ destroyNodes ctx w.nodes.items world = .ok s.world
  | .done (.error _) => True

theorem called_within {start : World σ} {s t : Loop σ} {ev : Event} (hphase : s.phase = .drain)
    (hs : Within checks shouldStop w ctx start s) (h : Step checks shouldStop w ctx s ev t)
    (hev : ev.GoesOn) : Within checks shouldStop w ctx start t := by
  obtain ⟨hpop, hnext⟩ := step_pops hev h
  simp only [Within, hphase, hnext] at hs ⊢
  obtain ⟨world, tasks, mid, evs, hrounds, hrun, hpolls, hpops⟩ := hs
  exact ⟨world, tasks, mid, _, hrounds, hrun, hpolls, hpops.snoc hpop⟩

theorem step_within {start : World σ} {s t : Loop σ} {ev : Event}
    (hs : Within checks shouldStop w ctx start s) (h : Step checks shouldStop w ctx s ev t) :
    Within checks shouldStop w ctx start t := by
  have hturn := step_turn h
  cases hturn with
  | enter hphase hrun =>
    simp only [Within, hphase] at hs
    obtain ⟨hempty, hrounds⟩ := hs
    exact ⟨[], s.world, rfl, hrounds, hrun, hempty ▸ .nil _⟩
  | leave hphase hstop hdestroy =>
    simp only [Within, hphase] at hs
    exact ⟨s.world, hs.2, hstop, hdestroy⟩
  | pollEnd hphase =>
    simp only [Within, hphase] at hs
    obtain ⟨before, world, hall, hrounds, hrun, hpolls⟩ := hs
    rw [List.append_nil] at hall
    exact ⟨world, _, _, [], hrounds, hrun, hall ▸ hpolls, .nil _⟩
  | idle hphase hnode hpoll =>
    simp only [Within, hphase] at hs
    obtain ⟨before, world, hall, hrounds, hrun, hpolls⟩ := hs
    refine ⟨_, world, hall.trans (List.append_cons ..), hrounds, hrun, ?_⟩
    have hmore := hpolls.append (.idle hnode hpoll (.nil _))
    rwa [List.append_nil] at hmore
  | polled hphase hnode hpoll _ hchain hpush =>
    simp only [Within, hphase] at hs
    obtain ⟨before, world, hall, hrounds, hrun, hpolls⟩ := hs
    refine ⟨_, world, hall.trans (List.append_cons ..), hrounds, hrun, ?_⟩
    have hmore := hpolls.append (.polled hnode hpoll hchain (.nil _))
    rwa [List.append_nil, ← ArrayStack.pushAll_live hpush] at hmore
  | pollFailed => trivial
  | drained hphase hempty =>
    simp only [Within, hphase] at hs
    obtain ⟨world, tasks, mid, evs, hrounds, hrun, hpolls, hpops⟩ := hs
    have hlive : s.queue.live = [] :=
      List.length_eq_zero_iff.mp ((ArrayStack.live_length _).trans hempty)
    rw [work, hlive] at hpops
    exact ⟨hlive, hrounds.tail ⟨hrun, tasks, mid, evs, hpolls, run_iff_visits.mp hpops⟩⟩
  | forwarded hphase | dropped hphase => exact called_within hphase hs h trivial
  | callFailed => trivial

/-- A run is where its rounds are. -/
theorem run_within {start : World σ} {t : Loop σ} {evs : List Event}
    (hrun : Run (Step checks shouldStop w ctx) (Loop.initial start) evs t) :
    Within checks shouldStop w ctx start t :=
  hrun.invariant (fun _ _ _ hs hst => step_within hs hst) ⟨rfl, .refl⟩

/-! ### From rounds to runs -/

/-- However long the chain is, a walk pushes its packets or overruns the queue. -/
theorem pushChain_cases {pkts : PacketId → Packet} {ptr : Option PacketId} {ps : List PacketId}
    (hchain : ChainOf pkts ptr ps) (id : NodeId) (fuel : Nat) (q : ArrayStack Task) :
    pushChain pkts id fuel ptr q = ofPush (q.pushAll taskQueueSize (linkTasks ps id)) ∨
      pushChain pkts id fuel ptr q = .error .queueOverrun := by
  induction hchain generalizing fuel q with
  | nil => exact .inl (by cases fuel <;> rfl)
  | cons _ ih =>
    cases fuel with
    | zero => exact .inr rfl
    | succ fuel =>
      simp only [pushChain, linkTasks, List.map_cons, ArrayStack.pushAll]
      cases q.push taskQueueSize _ with
      | none => exact .inr rfl
      | some u => exact ih fuel u

theorem pushLinks_cases {pkts : PacketId → Packet} {head : PacketId} {ps : List PacketId}
    {links : List NodeId} (hchain : links ≠ [] → ChainOf pkts (some head) ps)
    (q : ArrayStack Task) :
    pushLinks pkts head links q =
        ofPush (q.pushAll taskQueueSize (links.flatMap (linkTasks ps))) ∨
      pushLinks pkts head links q = .error .queueOverrun := by
  induction links generalizing q with
  | nil => exact .inl rfl
  | cons id rest ih =>
    have hchain := hchain (List.cons_ne_nil _ _)
    rw [pushLinks, List.flatMap_cons, ArrayStack.pushAll_append]
    rcases pushChain_cases hchain id (taskQueueSize + 1) q with hfirst | hover
    · rw [hfirst]
      cases q.pushAll taskQueueSize (linkTasks ps id) with
      | none => exact .inr rfl
      | some u => exact ih (fun _ => hchain) u
    · rw [hover]
      exact .inr rfl

/-- The next node is polled, unless its tasks do not fit the queue. -/
theorem poll_step {s : Loop σ} {id : NodeId} {rest : List NodeId} {node : Node σ}
    {world : World σ} {head : PacketId} {burst : List PacketId}
    (hphase : s.phase = .poll (id :: rest)) (hnode : w.nodes.items[id]? = some node)
    (hpoll : node.module.poll ctx s.world = .ok (.ok head, world))
    (hburst : node.linksTo.items ≠ [] → ChainOf world.pkts (some head) burst) :
    (∃ ev t, Step checks shouldStop w ctx s ev t ∧ t.phase = .poll rest ∧ t.world = world ∧
      t.queue.live = s.queue.live ++ node.linksTo.items.flatMap (linkTasks burst)) ∨
    w.step checks shouldStop ctx s = .error .queueOverrun := by
  have hstep : w.step checks shouldStop ctx s =
      (pushLinks world.pkts head node.linksTo.items s.queue).map fun queue =>
        (.polled id (chain world.pkts (taskQueueSize + 1) (some head)),
          ⟨queue, .poll rest, world⟩) := by
    simp only [step, hphase, pollNode, getNode, hnode, callModule, hpoll, Exec.ok_bind]
    cases pushLinks world.pkts head node.linksTo.items s.queue <;> rfl
  rcases pushLinks_cases hburst s.queue with hpush | hover
  · cases hall : s.queue.pushAll taskQueueSize (node.linksTo.items.flatMap (linkTasks burst)) with
    | none => exact .inr (by rw [hstep, hpush, hall]; rfl)
    | some queue =>
      rw [hpush, hall] at hstep
      exact .inl ⟨_, _, hstep, rfl, rfl, ArrayStack.pushAll_live hall⟩
  · exact .inr (by rw [hstep, hover]; rfl)

/-- No state the run can come to overruns the queue. -/
def NeverOverruns (checks : Bool) (shouldStop : World σ → Bool) (w : Worker σ) (ctx : Context)
    (s : Loop σ) : Prop :=
  ∀ evs t, Run (Step checks shouldStop w ctx) s evs t →
    w.step checks shouldStop ctx t ≠ .error .queueOverrun

theorem NeverOverruns.after {s t : Loop σ} {evs : List Event}
    (h : NeverOverruns checks shouldStop w ctx s)
    (hrun : Run (Step checks shouldStop w ctx) s evs t) :
    NeverOverruns checks shouldStop w ctx t :=
  fun _ _ hrest => h _ _ (hrun.append hrest)

/-- The first of the nodes that are left are polled. -/
theorem polls_run {s : Loop σ} {ids rest : List NodeId} {world last : World σ}
    {tasks : List Task} (hfits : NeverOverruns checks shouldStop w ctx s)
    (hphase : s.phase = .poll (ids ++ rest)) (hworld : s.world = world)
    (h : Polls w ctx ids world tasks last) :
    ∃ evs t, Run (Step checks shouldStop w ctx) s evs t ∧ t.phase = .poll rest ∧ t.world = last ∧
      t.queue.live = s.queue.live ++ tasks := by
  induction h generalizing s with
  | nil => exact ⟨[], s, .nil s, hphase, hworld, (List.append_nil _).symm⟩
  | @idle id ids node world mid last tasks hnode hpoll _ ih =>
    subst hworld
    rw [List.cons_append] at hphase
    have hstep : Step checks shouldStop w ctx s (.idle id)
        {s with phase := .poll (ids ++ rest), world := mid} := by
      simp only [Step, step, hphase, pollNode, getNode, hnode, callModule, hpoll, Exec.ok_bind]
      rfl
    obtain ⟨evs, t, hrun, ht⟩ := ih (hfits.after (.single hstep)) rfl rfl
    exact ⟨_, t, .cons hstep hrun, ht⟩
  | polled hnode hpoll hburst _ ih =>
    subst hworld
    rw [List.cons_append] at hphase
    rcases poll_step hphase hnode hpoll hburst with
      ⟨ev, u, hstep, hu, hworld, hlive⟩ | hover
    · obtain ⟨evs, t, hrun, hend, hlast, ht⟩ := ih (hfits.after (.single hstep)) hu hworld
      refine ⟨_, t, .cons hstep hrun, hend, hlast, ?_⟩
      rw [ht, hlive, List.append_assoc]
    · exact absurd hover (hfits [] s (.nil s))

/-- A round is a run from the top of the loop to its top. -/
theorem round_run {s : Loop σ} {last : World σ}
    (hfits : NeverOverruns checks shouldStop w ctx s) (hphase : s.phase = .top)
    (hempty : s.queue.live = []) (h : Round checks shouldStop w ctx s.world last) :
    ∃ evs t, Run (Step checks shouldStop w ctx) s evs t ∧ t.phase = .top ∧ t.queue.live = [] ∧
      t.world = last := by
  obtain ⟨hgoes, tasks, mid, evs, hpolls, hdrains⟩ := h
  have henter : Step checks shouldStop w ctx s .enter
      {s with phase := .poll w.nodesToPoll.items} := by
    simp only [Step, step, hphase, hgoes]
    rfl
  have hfits := hfits.after (.single henter)
  have hall : Phase.poll w.nodesToPoll.items = .poll (w.nodesToPoll.items ++ []) := by
    rw [List.append_nil]
  obtain ⟨polled, u, hrun, hu, rfl, hlive⟩ := polls_run hfits hall rfl hpolls
  have hend : Step checks shouldStop w ctx u .pollEnd {u with phase := .drain} := by
    simp only [Step, step, hu]
  have hfits := (hfits.after hrun).after (.single hend)
  have htasks : u.queue.live = tasks := by
    rw [hlive]
    show s.queue.live ++ tasks = tasks
    rw [hempty, List.nil_append]
  obtain ⟨t, hcalls, _, ht, hindex, rfl⟩ :=
    (drains_iff (s := {u with phase := .drain}) rfl fun evs t hrun _ => hfits evs t hrun).mpr
      (htasks ▸ hdrains)
  have hdrained : Step checks shouldStop w ctx t .drained {t with phase := .top} := by
    simp only [Step, step, ht, hindex]
    rfl
  refine ⟨_, _, .cons henter (hrun.append (.cons hend (hcalls.snoc hdrained))), rfl, ?_, rfl⟩
  exact List.length_eq_zero_iff.mp ((ArrayStack.live_length _).trans hindex)

theorem rounds_run {start last : World σ}
    (hfits : NeverOverruns checks shouldStop w ctx (Loop.initial start))
    (h : Rounds checks shouldStop w ctx start last) :
    ∃ evs t, Run (Step checks shouldStop w ctx) (Loop.initial start) evs t ∧ t.phase = .top ∧
      t.queue.live = [] ∧ t.world = last := by
  induction h with
  | refl => exact ⟨[], _, .nil _, rfl, rfl, rfl⟩
  | tail _ hround ih =>
    obtain ⟨before, s, hrun, hs, hempty, rfl⟩ := ih
    obtain ⟨evs, t, hmore, ht⟩ := round_run (hfits.after hrun) hs hempty hround
    exact ⟨_, t, hrun.append hmore, ht⟩

/-- **The worker is a structured program.** Where no run overruns the queue, `run` comes to the
top of its loop with a world exactly where rounds come to it, and it returns `Ok` with a world
exactly where rounds come to one that says stop and destroying the modules leaves this one. -/
theorem run_iff_rounds {start : World σ}
    (hfits : NeverOverruns checks shouldStop w ctx (Loop.initial start)) (last : World σ) :
    ((∃ evs t, Run (Step checks shouldStop w ctx) (Loop.initial start) evs t ∧ t.phase = .top ∧
        t.world = last) ↔ Rounds checks shouldStop w ctx start last) ∧
    ((∃ evs t, Run (Step checks shouldStop w ctx) (Loop.initial start) evs t ∧
        t.phase = .done (.ok ()) ∧ t.world = last) ↔
      ∃ world, Rounds checks shouldStop w ctx start world ∧ shouldStop world = true ∧
        destroyNodes ctx w.nodes.items world = .ok last) := by
  refine ⟨⟨?_, ?_⟩, ?_, ?_⟩
  · intro h
    obtain ⟨evs, t, hrun, ht, rfl⟩ := h
    have hwithin := run_within hrun
    simp only [Within, ht] at hwithin
    exact hwithin.2
  · intro h
    obtain ⟨evs, t, hrun, ht, _, hworld⟩ := rounds_run hfits h
    exact ⟨evs, t, hrun, ht, hworld⟩
  · intro h
    obtain ⟨evs, t, hrun, ht, rfl⟩ := h
    have hwithin := run_within hrun
    simpa only [Within, ht] using hwithin
  · intro h
    obtain ⟨world, hrounds, hstop, hdestroy⟩ := h
    obtain ⟨evs, t, hrun, ht, _, rfl⟩ := rounds_run hfits hrounds
    have hleave : Step checks shouldStop w ctx t .leave
        {t with phase := .done (.ok ()), world := last} := by
      simp only [Step, step, ht, hstop, hdestroy, callModule]
      rfl
    exact ⟨_, _, hrun.snoc hleave, rfl, rfl⟩

theorem run_iff_rounds_sample :
    ∃ last, Rounds true (fun _ => false) Sample.worker Sample.ctx Sample.world last ∧
      last.log = [.allocated 0, .allocated 1, .returned 1, .returned 0] := by
  have hfits : NeverOverruns true (fun _ => false) Sample.worker Sample.ctx
      (Loop.initial Sample.world) := fun evs t hrun =>
    roomy_no_overrun Sample.worker_bursts (by decide) Sample.worker_fits
      (run_roomy Sample.worker_bursts (by decide) Sample.worker_fits hrun)
  obtain ⟨t, hrun, ht⟩ := Run.exists_of_iterate
    (Sample.worker.step true (fun _ => false) Sample.ctx) 10 (Loop.initial Sample.world)
    (.enter :: Sample.turn) (fun t => Sample.atTop t && decide (t.world.log =
      [.allocated 0, .allocated 1, .returned 1, .returned 0])) (by decide +kernel)
  obtain ⟨htop, hlog⟩ := (Bool.and_eq_true _ _).mp ht
  exact ⟨t.world, (run_iff_rounds hfits t.world).1.mp ⟨_, t, hrun, Sample.phase_of_atTop htop, rfl⟩,
    of_decide_eq_true hlog⟩

end Worker
end OmniStack
