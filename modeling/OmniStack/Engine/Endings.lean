import OmniStack.Engine.Leaks
import OmniStack.Engine.Recursion

/-! How a structured run ends short.

A run that neither comes to the top of its loop nor returns `Ok` has met a fault or an error.
It meets it where the structured program does: while the modules are destroyed, at a poll, or
at a task somewhere in the recursion, all before it done (`ends_iff_rounds`). With
`run_iff_rounds` nothing is left that a run can do and the structured program cannot. -/
namespace OmniStack
open Lib

/-- A fault, or an error that `run` returns. -/
inductive Ending where
  | fault (f : EngineFault)
  | failed (e : Error)
  deriving DecidableEq

namespace Worker
variable {σ : Type} {checks : Bool} {shouldStop : World σ → Bool} {w : Worker σ} {ctx : Context}

/-- The next turn is the last: it faults, or `run` returns an error. -/
def EndsIn (checks : Bool) (shouldStop : World σ → Bool) (w : Worker σ) (ctx : Context)
    (s : Loop σ) : Ending → Prop
  | .fault f => w.step checks shouldStop ctx s = .error f
  | .failed e => ∃ ev t, Step checks shouldStop w ctx s ev t ∧ t.phase = .done (.error e)

/-- A task that cannot be done. -/
inductive Stops (checks : Bool) (w : Worker σ) (ctx : Context) : Task → World σ → Ending → Prop where
  | noPacket {id : NodeId} {world : World σ} :
      Stops checks w ctx ⟨id, none⟩ world (.fault .nullPacket)
  | noNode {id : NodeId} {p : PacketId} {world : World σ} (hnode : w.nodes.items[id]? = none) :
      Stops checks w ctx ⟨id, some p⟩ world (.fault .badNode)
  | faulted {id : NodeId} {p : PacketId} {node : Node σ} {world : World σ} {g : Fault}
      (hnode : w.nodes.items[id]? = some node)
      (hcall : node.module.process ctx p world = .error g) :
      Stops checks w ctx ⟨id, some p⟩ world (.fault (.inModule g))
  | miscounted {id : NodeId} {p : PacketId} {node : Node σ} {world world' : World σ}
      {f : EngineFault} (hnode : w.nodes.items[id]? = some node)
      (hcall : node.module.process ctx p world = .ok (.ok (), world'))
      (hrefs : addRefs checks (world'.pkts p).refcnt node.linksTo.items.length = .error f) :
      Stops checks w ctx ⟨id, some p⟩ world (.fault f)
  | failed {id : NodeId} {p : PacketId} {node : Node σ} {world world' : World σ} {e : Error}
      (hnode : w.nodes.items[id]? = some node)
      (hcall : node.module.process ctx p world = .ok (.error e, world')) (hne : e ≠ .dropped) :
      Stops checks w ctx ⟨id, some p⟩ world (.failed e)

/-- One of the polls ends the run, the ones before it done. -/
inductive PollsEnd (w : Worker σ) (ctx : Context) : List NodeId → World σ → Ending → Prop where
  | noNode {id : NodeId} {rest : List NodeId} {world : World σ}
      (hnode : w.nodes.items[id]? = none) : PollsEnd w ctx (id :: rest) world (.fault .badNode)
  | faulted {id : NodeId} {rest : List NodeId} {node : Node σ} {world : World σ} {g : Fault}
      (hnode : w.nodes.items[id]? = some node) (hpoll : node.module.poll ctx world = .error g) :
      PollsEnd w ctx (id :: rest) world (.fault (.inModule g))
  | failed {id : NodeId} {rest : List NodeId} {node : Node σ} {world world' : World σ} {e : Error}
      (hnode : w.nodes.items[id]? = some node)
      (hpoll : node.module.poll ctx world = .ok (.error e, world')) (hne : e ≠ .nop) :
      PollsEnd w ctx (id :: rest) world (.failed e)
  | later {before rest : List NodeId} {world mid : World σ} {tasks : List Task} {ending : Ending}
      (hbefore : Polls w ctx before world tasks mid) (hrest : PollsEnd w ctx rest mid ending) :
      PollsEnd w ctx (before ++ rest) world ending

/-- A turn of the main loop that ends the run. -/
inductive RoundEnds (checks : Bool) (shouldStop : World σ → Bool) (w : Worker σ) (ctx : Context)
    (world : World σ) : Ending → Prop where
  | destroying {g : Fault} (hstop : shouldStop world = true)
      (hdestroy : destroyNodes ctx w.nodes.items world = .error g) :
      RoundEnds checks shouldStop w ctx world (.fault (.inModule g))
  | polling {ending : Ending} (hgoes : shouldStop world = false)
      (hpolls : PollsEnd w ctx w.nodesToPoll.items world ending) :
      RoundEnds checks shouldStop w ctx world ending
  | draining {tasks : List Task} {mid : World σ} {ending : Ending}
      (hgoes : shouldStop world = false) (hpolls : Polls w ctx w.nodesToPoll.items world tasks mid)
      (hbreaks : Breaks (Calls checks w ctx) (Stops checks w ctx) tasks.reverse mid ending) :
      RoundEnds checks shouldStop w ctx world ending

/-! ### From runs to rounds -/

theorem pushChain_error {pkts : PacketId → Packet} {id : NodeId} {fuel : Nat}
    {ptr : Option PacketId} {q : ArrayStack Task} {f : EngineFault}
    (h : pushChain pkts id fuel ptr q = .error f) : f = .queueOverrun := by
  induction fuel generalizing ptr q with
  | zero =>
    cases ptr with
    | none => cases h
    | some p =>
      cases h
      rfl
  | succ fuel ih =>
    cases ptr with
    | none => cases h
    | some p =>
      simp only [pushChain] at h
      split at h
      · exact ih h
      · cases h
        rfl

theorem pushLinks_error {pkts : PacketId → Packet} {head : PacketId} {links : List NodeId}
    {q : ArrayStack Task} {f : EngineFault} (h : pushLinks pkts head links q = .error f) :
    f = .queueOverrun := by
  induction links generalizing q with
  | nil => cases h
  | cons id rest ih =>
    simp only [pushLinks] at h
    split at h
    · exact ih h
    · rename_i hpush
      cases h
      exact pushChain_error hpush

/-- A poll that is the last turn. -/
theorem poll_ends {s : Loop σ} {id : NodeId} {rest : List NodeId} {ending : Ending}
    (hphase : s.phase = .poll (id :: rest))
    (hroom : w.step checks shouldStop ctx s ≠ .error .queueOverrun)
    (h : EndsIn checks shouldStop w ctx s ending) : PollsEnd w ctx (id :: rest) s.world ending := by
  cases ending with
  | fault f =>
    have hfault : w.step checks shouldStop ctx s = .error f := h
    simp only [step, hphase, pollNode] at hfault
    cases hnode : w.nodes.items[id]? with
    | none =>
      simp only [getNode, hnode] at hfault
      cases hfault
      exact .noNode hnode
    | some node =>
      simp only [getNode, hnode, Exec.ok_bind] at hfault
      cases hpoll : node.module.poll ctx s.world with
      | error g =>
        rw [hpoll] at hfault
        cases hfault
        exact .faulted hnode hpoll
      | ok polled =>
        obtain ⟨res, world⟩ := polled
        simp only [hpoll, callModule, Exec.ok_bind] at hfault
        cases res with
        | error e => cases e <;> cases hfault
        | ok head =>
          rcases Exec.bind_eq_error.mp hfault with hpush | ⟨_, _, hpure⟩
          · obtain rfl := pushLinks_error hpush
            exact absurd h hroom
          · cases hpure
  | failed e =>
    obtain ⟨ev, t, hstep, hdone⟩ := h
    cases step_turn hstep with
    | pollFailed hpoll hnode hfailed hne =>
      cases hphase.symm.trans hpoll
      cases hdone
      exact .failed hnode hfailed hne
    | callFailed hdrain => cases hphase.symm.trans hdrain
    | enter | leave | pollEnd | idle | polled | drained | forwarded | dropped => cases hdone

/-- A call that is the last turn. -/
theorem call_ends {s : Loop σ} {ending : Ending} (hphase : s.phase = .drain)
    (hroom : w.step checks shouldStop ctx s ≠ .error .queueOverrun)
    (h : EndsIn checks shouldStop w ctx s ending) :
    ∃ below task, s.queue.live = below ++ [task] ∧ Stops checks w ctx task s.world ending := by
  by_cases hindex : s.queue.index = 0
  · have hstep : w.step checks shouldStop ctx s = .ok (.drained, {s with phase := .top}) := by
      simp only [step, hphase, hindex, if_pos]
    cases ending with
    | fault f => cases hstep.symm.trans h
    | failed e =>
      obtain ⟨ev, t, ht, hdone⟩ := h
      cases hstep.symm.trans ht
      cases hdone
  · refine ⟨_, _, ArrayStack.pop_live hindex, ?_⟩
    cases ending with
    | fault f =>
      have hfault : w.step checks shouldStop ctx s = .error f := h
      simp only [step, hphase, if_neg hindex, drainTask] at hfault
      cases htask : s.queue.pop.1 with
      | mk id data =>
        simp only [htask] at hfault
        cases data with
        | none =>
          cases hfault
          exact .noPacket
        | some p =>
          cases hnode : w.nodes.items[id]? with
          | none =>
            simp only [getNode, hnode] at hfault
            cases hfault
            exact .noNode hnode
          | some node =>
            simp only [getNode, hnode, Exec.ok_bind] at hfault
            cases hcall : node.module.process ctx p s.world with
            | error g =>
              rw [hcall] at hfault
              cases hfault
              exact .faulted hnode hcall
            | ok called =>
              obtain ⟨res, world⟩ := called
              simp only [hcall, callModule, Exec.ok_bind] at hfault
              cases res with
              | error e => cases e <;> cases hfault
              | ok u =>
                rcases Exec.bind_eq_error.mp hfault with hrefs | ⟨refcnt, _, hpush⟩
                · exact .miscounted hnode hcall hrefs
                · split at hpush
                  · cases hpush
                  · cases hpush
                    exact absurd h hroom
    | failed e =>
      obtain ⟨ev, t, hstep, hdone⟩ := h
      cases step_turn hstep with
      | callFailed _ _ htask hnode hcall hne =>
        cases hdone
        rw [htask]
        exact .failed hnode hcall hne
      | pollFailed hpoll => cases hphase.symm.trans hpoll
      | enter | leave | pollEnd | idle | polled | drained | forwarded | dropped => cases hdone

/-- Where a run ends, the structured program does. -/
theorem run_ends {start : World σ} {t : Loop σ} {evs : List Event} {ending : Ending}
    (hfits : NeverOverruns checks shouldStop w ctx (Loop.initial start))
    (hreturned : ending ≠ .fault .returned)
    (hrun : Run (Step checks shouldStop w ctx) (Loop.initial start) evs t)
    (h : EndsIn checks shouldStop w ctx t ending) :
    ∃ world, Rounds checks shouldStop w ctx start world ∧
      RoundEnds checks shouldStop w ctx world ending := by
  have hroom := hfits evs t hrun
  have hwithin := run_within hrun
  cases hphase : t.phase with
  | top =>
    simp only [Within, hphase] at hwithin
    refine ⟨t.world, hwithin.2, ?_⟩
    cases hstop : shouldStop t.world with
    | false =>
      have hstep : w.step checks shouldStop ctx t =
          .ok (.enter, {t with phase := .poll w.nodesToPoll.items}) := by
        simp only [step, hphase, hstop]
        rfl
      cases ending with
      | fault f => cases hstep.symm.trans h
      | failed e =>
        obtain ⟨ev, u, hu, hdone⟩ := h
        cases hstep.symm.trans hu
        cases hdone
    | true =>
      cases hdestroy : destroyNodes ctx w.nodes.items t.world with
      | error g =>
        have hstep : w.step checks shouldStop ctx t = .error (.inModule g) := by
          simp only [step, hphase, hstop, hdestroy, callModule]
          rfl
        cases ending with
        | fault f =>
          cases hstep.symm.trans h
          exact .destroying hstop hdestroy
        | failed e =>
          obtain ⟨ev, u, hu, _⟩ := h
          cases hstep.symm.trans hu
      | ok world =>
        have hstep : w.step checks shouldStop ctx t =
            .ok (.leave, {t with phase := .done (.ok ()), world}) := by
          simp only [step, hphase, hstop, hdestroy, callModule]
          rfl
        cases ending with
        | fault f => cases hstep.symm.trans h
        | failed e =>
          obtain ⟨ev, u, hu, hdone⟩ := h
          cases hstep.symm.trans hu
          cases hdone
  | poll ids =>
    simp only [Within, hphase] at hwithin
    obtain ⟨before, world, hall, hrounds, hgoes, hpolls⟩ := hwithin
    cases ids with
    | nil =>
      have hstep : w.step checks shouldStop ctx t = .ok (.pollEnd, {t with phase := .drain}) := by
        simp only [step, hphase]
      cases ending with
      | fault f => cases hstep.symm.trans h
      | failed e =>
        obtain ⟨ev, u, hu, hdone⟩ := h
        cases hstep.symm.trans hu
        cases hdone
    | cons id rest =>
      refine ⟨world, hrounds, .polling hgoes ?_⟩
      rw [hall]
      exact .later hpolls (poll_ends hphase hroom h)
  | drain =>
    simp only [Within, hphase] at hwithin
    obtain ⟨world, tasks, mid, evs, hrounds, hgoes, hpolls, hpops⟩ := hwithin
    obtain ⟨below, task, hlive, hstops⟩ := call_ends hphase hroom h
    refine ⟨world, hrounds, .draining hgoes hpolls ?_⟩
    rw [work, hlive] at hpops
    exact run_iff_breaks.mp ⟨evs, below, task, t.world, hpops, hstops⟩
  | done res =>
    have hstep : w.step checks shouldStop ctx t = .error .returned := by
      simp only [step, hphase]
    cases ending with
    | fault f =>
      cases hstep.symm.trans h
      exact absurd rfl hreturned
    | failed e =>
      obtain ⟨ev, u, hu, _⟩ := h
      cases hstep.symm.trans hu

/-! ### From rounds to runs -/

/-- The top task ends the run. -/
theorem stops_ends {s : Loop σ} {below : List Task} {task : Task} {ending : Ending}
    (hphase : s.phase = .drain) (hlive : s.queue.live = below ++ [task])
    (h : Stops checks w ctx task s.world ending) : EndsIn checks shouldStop w ctx s ending := by
  have hindex : s.queue.index ≠ 0 := by
    rw [← ArrayStack.live_length, hlive, List.length_append]
    exact Nat.succ_ne_zero _
  have htask := List.singleton_inj.mp
    (List.append_inj' ((ArrayStack.pop_live hindex).symm.trans hlive) rfl).2
  have hstep : w.step checks shouldStop ctx s = w.drainTask checks ctx s := by
    simp only [step, hphase, if_neg hindex]
  cases h with
  | noPacket =>
    refine hstep.trans ?_
    simp only [drainTask, htask]
    rfl
  | noNode hnode =>
    refine hstep.trans ?_
    simp only [drainTask, htask, getNode, hnode]
    rfl
  | faulted hnode hcall =>
    refine hstep.trans ?_
    simp only [drainTask, htask, getNode, hnode, Exec.ok_bind, hcall, callModule]
    rfl
  | miscounted hnode hcall hrefs =>
    refine hstep.trans ?_
    simp only [drainTask, htask, getNode, hnode, Exec.ok_bind, hcall, callModule, hrefs]
    rfl
  | @failed id p node _ world' e hnode hcall hne =>
    refine ⟨.called id p (.error e), ⟨s.queue.pop.2, .done (.error e), world'⟩, hstep.trans ?_, rfl⟩
    simp only [drainTask, htask, getNode, hnode, Exec.ok_bind, hcall, callModule]
    cases e <;> first | exact absurd rfl hne | rfl

theorem pollsEnd_run {s : Loop σ} {ids : List NodeId} {world : World σ} {ending : Ending}
    (hfits : NeverOverruns checks shouldStop w ctx s) (hphase : s.phase = .poll ids)
    (hworld : s.world = world) (h : PollsEnd w ctx ids world ending) :
    ∃ evs t, Run (Step checks shouldStop w ctx) s evs t ∧ EndsIn checks shouldStop w ctx t ending := by
  induction h generalizing s with
  | noNode hnode =>
    refine ⟨[], s, .nil s, ?_⟩
    show w.step checks shouldStop ctx s = .error .badNode
    simp only [step, hphase, pollNode, getNode, hnode]
    rfl
  | @faulted _ _ _ _ g hnode hpoll =>
    subst hworld
    refine ⟨[], s, .nil s, ?_⟩
    show w.step checks shouldStop ctx s = .error (.inModule g)
    simp only [step, hphase, pollNode, getNode, hnode, Exec.ok_bind, hpoll, callModule]
    rfl
  | @failed id _ _ _ world' e hnode hpoll hne =>
    subst hworld
    refine ⟨[], s, .nil s, .failed id e, {s with phase := .done (.error e), world := world'}, ?_, rfl⟩
    simp only [Step, step, hphase, pollNode, getNode, hnode, Exec.ok_bind, hpoll, callModule]
    cases e <;> first | exact absurd rfl hne | rfl
  | later hbefore _ ih =>
    obtain ⟨evs, u, hrun, hu, hmid, _⟩ := polls_run hfits hphase hworld hbefore
    obtain ⟨fs, t, hrest, hend⟩ := ih (hfits.after hrun) hu hmid
    exact ⟨_, t, hrun.append hrest, hend⟩

/-- Where the structured program ends, a run does. -/
theorem roundEnds_run {s : Loop σ} {ending : Ending}
    (hfits : NeverOverruns checks shouldStop w ctx s) (hphase : s.phase = .top)
    (hempty : s.queue.live = []) (h : RoundEnds checks shouldStop w ctx s.world ending) :
    ∃ evs t, Run (Step checks shouldStop w ctx) s evs t ∧ EndsIn checks shouldStop w ctx t ending := by
  have henter (hgoes : shouldStop s.world = false) : Step checks shouldStop w ctx s .enter
      {s with phase := .poll w.nodesToPoll.items} := by
    simp only [Step, step, hphase, hgoes]
    rfl
  cases h with
  | @destroying g hstop hdestroy =>
    refine ⟨[], s, .nil s, ?_⟩
    show w.step checks shouldStop ctx s = .error (.inModule g)
    simp only [step, hphase, hstop, hdestroy, callModule]
    rfl
  | polling hgoes hpolls =>
    obtain ⟨evs, t, hrun, hend⟩ := pollsEnd_run (hfits.after (.single (henter hgoes))) rfl rfl hpolls
    exact ⟨_, t, .cons (henter hgoes) hrun, hend⟩
  | @draining tasks mid _ hgoes hpolls hbreaks =>
    have hfits := hfits.after (.single (henter hgoes))
    have hall : Phase.poll w.nodesToPoll.items = .poll (w.nodesToPoll.items ++ []) := by
      rw [List.append_nil]
    obtain ⟨polled, u, hrun, hu, rfl, hlive⟩ := polls_run hfits hall rfl hpolls
    have hend : Step checks shouldStop w ctx u .pollEnd {u with phase := .drain} := by
      simp only [Step, step, hu]
    have hfits := (hfits.after hrun).after (.single hend)
    have htasks : u.queue.live = tasks := by
      rw [hlive]
      show s.queue.live ++ tasks = tasks
      rw [hempty, List.nil_append]
    obtain ⟨es, below, task, world, hpops, hstops⟩ := run_iff_breaks.mpr hbreaks
    rw [← htasks] at hpops
    obtain ⟨t, hcalls, _, ht, hwork⟩ := pops_run (s := {u with phase := .drain}) rfl
      (fun evs t hrun _ => hfits evs t hrun) hpops
    simp only [work, Prod.mk.injEq] at hwork
    obtain ⟨hlast, rfl⟩ := hwork
    exact ⟨_, t, .cons (henter hgoes) (hrun.append (.cons hend hcalls)),
      stops_ends ht hlast hstops⟩

/-- **How the structured program ends short.** Where no run overruns the queue, a run comes to
a turn that faults, or that returns an error, exactly where rounds come to a world whose round
ends so: while the modules are destroyed, at a poll, or at a task of the recursion. -/
theorem ends_iff_rounds {start : World σ}
    (hfits : NeverOverruns checks shouldStop w ctx (Loop.initial start)) {ending : Ending}
    (hreturned : ending ≠ .fault .returned) :
    (∃ evs t, Run (Step checks shouldStop w ctx) (Loop.initial start) evs t ∧
        EndsIn checks shouldStop w ctx t ending) ↔
      ∃ world, Rounds checks shouldStop w ctx start world ∧
        RoundEnds checks shouldStop w ctx world ending := by
  constructor
  · intro h
    obtain ⟨evs, t, hrun, hend⟩ := h
    exact run_ends hfits hreturned hrun hend
  · intro h
    obtain ⟨world, hrounds, hround⟩ := h
    obtain ⟨evs, s, hrun, hs, hempty, rfl⟩ := rounds_run hfits hrounds
    obtain ⟨fs, t, hmore, hend⟩ := roundEnds_run (hfits.after hrun) hs hempty hround
    exact ⟨_, t, hrun.append hmore, hend⟩

end Worker

namespace Sample

theorem deadEndWorker_roomy {evs : List Event} {t : Loop Unit}
    (hrun : Run (Worker.Step true (fun _ => false) deadEndWorker ctx) (Loop.initial world) evs t) :
    deadEndWorker.step true (fun _ => false) ctx t ≠ .error .queueOverrun := by
  have hbursts : deadEndWorker.BurstsAtMost ctx 64 := by
    intro n node hnode world head world' hpoll
    have hmem := List.mem_of_getElem? hnode
    simp only [deadEndWorker, deadEndGraph, List.mem_cons, List.not_mem_nil, or_false] at hmem
    rcases hmem with rfl | rfl
    · simp only [source] at hpoll
      split at hpoll
      · cases hpoll
        exact ⟨[0, 1], linkChain_chain _ (by decide), by decide⟩
      · cases hpoll
    · cases hpoll
  have hclimb {c : Nat} (h : deadEndWorker.Climb ctx 1 c) : c = 0 := by
    cases h with
    | here => rfl
    | link _ hlink _ => cases hlink
  have hfits : deadEndWorker.RoundFits ctx 64 := by
    intro before n after i m c hsplit hlink hpath
    cases before with
    | cons b bs => simp [deadEndWorker] at hsplit
    | nil =>
      obtain ⟨rfl, _⟩ : 0 = n ∧ [] = after := by simpa [deadEndWorker] using hsplit
      have hi : i < 1 := (List.getElem?_eq_some_iff.mp hlink).1
      have hm : m ∈ deadEndWorker.links 0 := List.mem_of_getElem? hlink
      have : m = 1 := by simpa [Worker.links, Graph.linksOf, deadEndWorker, deadEndGraph] using hm
      subst this
      have := hclimb hpath
      simp only [Worker.fanOut, List.map_nil, List.sum_nil, taskQueueSize]
      omega
  exact Worker.roomy_no_overrun hbursts (by decide) hfits
    (Worker.run_roomy hbursts (by decide) hfits hrun)

end Sample

/-- With checks a node without links ends the first round, at its first call. -/
theorem Worker.ends_iff_rounds_sample : ∃ world,
    Rounds true (fun _ => false) Sample.deadEndWorker Sample.ctx Sample.world world ∧
      RoundEnds true (fun _ => false) Sample.deadEndWorker Sample.ctx world (.fault .overflow) := by
  obtain ⟨t, hrun, ht⟩ := Run.exists_of_iterate
    (Sample.deadEndWorker.step true (fun _ => false) Sample.ctx) 3 (Loop.initial Sample.world)
    [.enter, .polled 0 [0, 1], .pollEnd] Sample.underflows (by decide +kernel)
  refine (ends_iff_rounds (fun _ _ hrun => Sample.deadEndWorker_roomy hrun)
    (fun h => by cases h)).mp ⟨_, t, hrun, ?_⟩
  unfold Sample.underflows at ht
  split at ht
  · assumption
  · cases ht

end OmniStack
