import OmniStack.Engine.Forwarding
import OmniStack.Lib.Slots

/-! The tasks the drain loop finds in the queue.

The array starts full of invalid ids and null pointers, and what a pop leaves behind stays
in it. That the loop never sees either rests on three things: the ids of links and polling
nodes are resolved ones (`Resolved`), every task written has such an id and a packet
(`Sound`), and the cells below the index are the ones written last (`ArrayStack.Backed`).
No access in the loops is checked, and none of them needs to be (`tasks_valid`). -/
namespace OmniStack
open Lib
namespace Worker
variable {σ : Type} {checks : Bool} {shouldStop : World σ → Bool} {w : Worker σ} {ctx : Context}

/-! ### Accesses to the queue -/

/-- What a turn does to `task_queue` and `index`, from the index it starts with. -/
def accessesOf (w : Worker σ) (index : Nat) (ev : Event) : List (Access Task) :=
  match ev with
  | .called _ _ _ => .pop (index - 1) :: Access.writes (index - 1) (w.moveOf ev).pushed
  | _ => Access.writes index (w.moveOf ev).pushed

def indexAfter (w : Worker σ) (index : Nat) (ev : Event) : Nat :=
  index - (w.moveOf ev).popped.length + (w.moveOf ev).pushed.length

/-- What a run does to them. -/
def accesses (w : Worker σ) : Nat → List Event → List (Access Task)
  | _, [] => []
  | index, ev :: evs => w.accessesOf index ev ++ w.accesses (w.indexAfter index ev) evs

theorem turn_index {s t : Loop σ} {ev : Event} (h : Turn checks shouldStop w ctx s ev t) :
    t.queue.index = w.indexAfter s.queue.index ev := by
  obtain ⟨rest, hs, ht⟩ := turn_move h
  have hs' := congrArg List.length hs
  have ht' := congrArg List.length ht
  rw [ArrayStack.live_length, List.length_append] at hs' ht'
  unfold indexAfter
  omega

/-- The accesses are what the turn does to the queue, and they keep it backed. -/
theorem turn_backed {s t : Loop σ} {ev : Event} {log : List (Access Task)}
    (h : Turn checks shouldStop w ctx s ev t) (hs : ArrayStack.Backed log s.queue) :
    t.queue = s.queue.replay (w.accessesOf s.queue.index ev) ∧
      ArrayStack.Backed (log ++ w.accessesOf s.queue.index ev) t.queue := by
  cases h with
  | enter | leave | pollEnd | idle | pollFailed | drained =>
    exact ⟨rfl, hs.writes []⟩
  | polled _ hnode _ _ _ hpush =>
    rw [← links_eq hnode] at hpush
    have hreplay := ArrayStack.pushAll_replay hpush
    refine ⟨hreplay, ?_⟩
    show ArrayStack.Backed _ _
    rw [hreplay]
    exact hs.writes _
  | @forwarded n p _ _ _ _ _ _ _ hnode _ _ hpush =>
    rw [← links_eq hnode] at hpush
    have hreplay := ArrayStack.pushAll_replay hpush
    refine ⟨hreplay, ?_⟩
    show ArrayStack.Backed (log ++ .pop (s.queue.index - 1) ::
      Access.writes (s.queue.index - 1) ((w.links n).map fun m => ⟨m, some p⟩)) _
    rw [hreplay, List.append_cons]
    exact hs.pop.writes _
  | dropped | callFailed => exact ⟨rfl, hs.pop⟩

theorem run_backed {s t : Loop σ} {evs : List Event} {log : List (Access Task)}
    (h : Run (Step checks shouldStop w ctx) s evs t) (hs : ArrayStack.Backed log s.queue) :
    t.queue = s.queue.replay (w.accesses s.queue.index evs) ∧
      ArrayStack.Backed (log ++ w.accesses s.queue.index evs) t.queue := by
  induction h generalizing log with
  | nil s =>
    rw [accesses, List.append_nil]
    exact ⟨rfl, hs⟩
  | cons hstep _ ih =>
    obtain ⟨hreplay, hbacked⟩ := turn_backed (step_turn hstep) hs
    obtain ⟨hreplay', hbacked'⟩ := ih hbacked
    rw [turn_index (step_turn hstep)] at hreplay' hbacked'
    rw [List.append_assoc] at hbacked'
    refine ⟨?_, hbacked'⟩
    rw [accesses, ArrayStack.replay_append, ← hreplay]
    exact hreplay'

/-! ### Ids that name nodes -/

/-- The ids of links and of polling nodes are indices of nodes. -/
structure Resolved (w : Worker σ) : Prop where
  links : ∀ n, ∀ m ∈ w.links n, m < w.nodes.items.length
  polls : ∀ n ∈ w.nodesToPoll.items, n < w.nodes.items.length

/-- **What is resolved by name is a node.** -/
theorem start_resolved {factory : Graph.Factory σ} {graphId cpu : UInt32} {config : GraphConfig}
    {g : Graph σ} (hgraph : Graph.new factory graphId config cpu = .ok g) {id : UInt32}
    {stackName : String} {w₀ : Worker σ}
    (hworker : Worker.new id stackName g.id g.nodes g.cpu = .ok w₀) {world₀ world : World σ}
    (hstart : w₀.start ctx world₀ = .ok (.ok w, world)) : Resolved w := by
  obtain ⟨hlength, hlinks⟩ := Graph.new_spec hgraph
  have hnodes : w.nodes.items = g.nodes := by rw [start_nodes hstart, new_nodes hworker]
  constructor
  · intro n m hm
    rw [links, hnodes, hlinks] at hm
    obtain ⟨link, _, htarget⟩ := List.mem_filterMap.mp hm
    unfold Graph.target at htarget
    split at htarget
    · rw [hnodes, hlength]
      exact (List.findIdx?_eq_some_iff_getElem.mp htarget).1
    · cases htarget
  · intro n hn
    rw [start_polls hstart, new_polls hworker, List.nil_append, new_nodes hworker] at hn
    obtain ⟨_, node, hnode, _⟩ := mem_pollIds hn
    rw [hnodes]
    exact (List.getElem?_eq_some_iff.mp hnode).1

/-! ### Tasks that can be worked on -/

/-- The task has a packet, and its id is a node's. -/
def ValidTask (w : Worker σ) (task : Task) : Prop :=
  task.data ≠ none ∧ task.nodeId < w.nodes.items.length

/-- All that the loops will look up is there. -/
structure Sound (w : Worker σ) (s : Loop σ) : Prop where
  tasks : ∀ task ∈ s.queue.live, w.ValidTask task
  polls : ∀ rest, s.phase = .poll rest → ∀ n ∈ rest, n < w.nodes.items.length

/-- Every task that a turn writes is valid. -/
theorem pushed_valid (hw : Resolved w) (ev : Event) :
    ∀ task ∈ (w.moveOf ev).pushed, w.ValidTask task := by
  intro task htask
  cases ev with
  | polled n burst =>
    obtain ⟨m, hm, htask⟩ := List.mem_flatMap.mp htask
    obtain ⟨p, _, rfl⟩ := List.mem_map.mp htask
    exact ⟨Option.some_ne_none p, hw.links n m hm⟩
  | called n p res =>
    cases res with
    | ok u =>
      obtain ⟨m, hm, rfl⟩ := List.mem_map.mp htask
      exact ⟨Option.some_ne_none p, hw.links n m hm⟩
    | error e => cases htask
  | enter | leave | idle | pollEnd | drained | failed => cases htask

theorem turn_polls (hw : Resolved w) {s t : Loop σ} {ev : Event} (hs : Sound w s)
    (h : Turn checks shouldStop w ctx s ev t) :
    ∀ rest, t.phase = .poll rest → ∀ n ∈ rest, n < w.nodes.items.length := by
  intro rest hphase n hn
  cases h with
  | enter =>
    cases hphase
    exact hw.polls n hn
  | idle hpoll | polled hpoll =>
    cases hphase
    exact hs.polls _ hpoll n (List.mem_cons_of_mem _ hn)
  | leave | pollEnd | pollFailed | drained | forwarded | dropped | callFailed => cases hphase

theorem step_sound (hw : Resolved w) {s t : Loop σ} {ev : Event} (hs : Sound w s)
    (h : Step checks shouldStop w ctx s ev t) : Sound w t := by
  refine ⟨fun task htask => ?_, turn_polls hw hs (step_turn h)⟩
  obtain ⟨rest, hlive, hlive'⟩ := turn_move (step_turn h)
  rw [hlive', List.mem_append] at htask
  rcases htask with hold | hnew
  · exact hs.tasks task (hlive ▸ List.mem_append_left _ hold)
  · exact pushed_valid hw ev task hnew

theorem initial_sound (world : World σ) : Sound w (Loop.initial world) :=
  ⟨fun _ h => (by cases h), fun _ h => (by cases h)⟩

/-! ### No access misses -/

/-- An unchecked access that misses: to a node that is not there, or through a null pointer. -/
def EngineFault.Misses : EngineFault → Prop
  | .badNode => True
  | .nullPacket => True
  | _ => False

theorem callModule_hits {α : Type} {x : Exec α} {f : EngineFault} (h : callModule x = .error f) :
    ¬ EngineFault.Misses f := by
  cases x with
  | ok a => cases h
  | error g =>
    cases h
    exact not_false

theorem pushChain_hits {pkts : PacketId → Packet} {id : NodeId} {fuel : Nat}
    {ptr : Option PacketId} {q : ArrayStack Task} {f : EngineFault}
    (h : pushChain pkts id fuel ptr q = .error f) : ¬ EngineFault.Misses f := by
  induction fuel generalizing ptr q with
  | zero =>
    cases ptr with
    | none => cases h
    | some p =>
      cases h
      exact not_false
  | succ fuel ih =>
    cases ptr with
    | none => cases h
    | some p =>
      simp only [pushChain] at h
      split at h
      · exact ih h
      · cases h
        exact not_false

theorem pushLinks_hits {pkts : PacketId → Packet} {head : PacketId} {links : List NodeId}
    {q : ArrayStack Task} {f : EngineFault} (h : pushLinks pkts head links q = .error f) :
    ¬ EngineFault.Misses f := by
  induction links generalizing q with
  | nil => cases h
  | cons id rest ih =>
    simp only [pushLinks] at h
    split at h
    · exact ih h
    · rename_i hpush
      cases h
      exact pushChain_hits hpush

theorem addRefs_hits {refcnt links : Nat} {f : EngineFault}
    (h : addRefs checks refcnt links = .error f) : ¬ EngineFault.Misses f := by
  unfold addRefs at h
  split at h
  · split at h
    · cases h
      exact not_false
    · cases h
  · cases h

theorem getNode_valid {n : NodeId} (hn : n < w.nodes.items.length) {f : EngineFault} :
    w.getNode n ≠ .error f := by
  intro h
  rw [getNode, List.getElem?_eq_getElem hn] at h
  cases h

theorem pollNode_hits {s : Loop σ} {id : NodeId} {rest : List NodeId} {f : EngineFault}
    (hid : id < w.nodes.items.length) (h : w.pollNode ctx id rest s = .error f) :
    ¬ EngineFault.Misses f := by
  simp only [pollNode, Exec.bind_eq_error, getNode_valid hid, false_or, Prod.exists] at h
  obtain ⟨node, _, hcall | ⟨res, world, _, h⟩⟩ := h
  · exact callModule_hits hcall
  · cases res with
    | ok head =>
      rcases Exec.bind_eq_error.mp h with hpush | ⟨_, _, h⟩
      · exact pushLinks_hits hpush
      · cases h
    | error e => cases e <;> cases h

theorem drainTask_hits {s : Loop σ} {f : EngineFault} (hs : Sound w s)
    (hindex : s.queue.index ≠ 0) (h : w.drainTask checks ctx s = .error f) :
    ¬ EngineFault.Misses f := by
  have hvalid : w.ValidTask s.queue.pop.1 := by
    refine hs.tasks _ ?_
    rw [ArrayStack.pop_live hindex]
    exact List.mem_append_right _ List.mem_cons_self
  simp only [drainTask] at h
  cases hdata : s.queue.pop.1.data with
  | none => exact absurd hdata hvalid.1
  | some p =>
    rw [hdata] at h
    simp only [Exec.bind_eq_error, getNode_valid hvalid.2, false_or, Prod.exists] at h
    obtain ⟨node, _, hcall | ⟨res, world, _, h⟩⟩ := h
    · exact callModule_hits hcall
    · cases res with
      | ok u =>
        rcases Exec.bind_eq_error.mp h with hrefs | ⟨_, _, h⟩
        · exact addRefs_hits hrefs
        · split at h
          · cases h
          · cases h
            exact not_false
      | error e => cases e <;> cases h

theorem step_hits {s : Loop σ} {f : EngineFault} (hs : Sound w s)
    (h : w.step checks shouldStop ctx s = .error f) : ¬ EngineFault.Misses f := by
  simp only [step] at h
  cases hphase : s.phase with
  | top =>
    simp only [hphase] at h
    split at h
    · rcases Exec.bind_eq_error.mp h with hdestroy | ⟨_, _, h⟩
      · exact callModule_hits hdestroy
      · cases h
    · cases h
  | poll ids =>
    simp only [hphase] at h
    cases ids with
    | nil => cases h
    | cons id rest => exact pollNode_hits (hs.polls _ hphase id List.mem_cons_self) h
  | drain =>
    simp only [hphase] at h
    split at h
    · cases h
    · rename_i hindex
      exact drainTask_hits hs hindex h
  | done res =>
    simp only [hphase] at h
    cases h
    exact not_false

/-- **Valid tasks.** In every run of a worker on a graph that was built: the ids of links and
of polling nodes are indices of its at most 32 nodes; every cell below the index holds what
was last written to it, was not popped since, and is a packet for one of these nodes; and no
turn looks up a node that is not there or follows a null pointer. -/
theorem tasks_valid {factory : Graph.Factory σ} {graphId cpu : UInt32} {config : GraphConfig}
    {g : Graph σ} (hgraph : Graph.new factory graphId config cpu = .ok g) {id : UInt32}
    {stackName : String} {w₀ : Worker σ}
    (hworker : Worker.new id stackName g.id g.nodes g.cpu = .ok w₀) {world₀ world : World σ}
    (hstart : w₀.start ctx world₀ = .ok (.ok w, world)) {evs : List Event} {t : Loop σ}
    (hrun : Run (Step checks shouldStop w ctx) (Loop.initial world) evs t) :
    w.nodes.items.length ≤ 32 ∧ Resolved w ∧
      t.queue = (Loop.initial world).queue.replay (w.accesses 0 evs) ∧
      (∀ i < t.queue.index, Access.Written (w.accesses 0 evs) i (t.queue.cells i) ∧
        w.ValidTask (t.queue.cells i)) ∧
      ∀ f, w.step checks shouldStop ctx t = .error f → ¬ EngineFault.Misses f := by
  have hw := start_resolved hgraph hworker hstart
  have ht : Sound w t :=
    hrun.invariant (fun _ _ _ hs hst => step_sound hw hs hst) (initial_sound world)
  obtain ⟨hreplay, hbacked⟩ := run_backed hrun (ArrayStack.backed_empty fun _ => Task.default)
  refine ⟨w.nodes.bound, hw, hreplay, fun i hi => ⟨hbacked i hi, ht.tasks _ ?_⟩,
    fun f hfault => step_hits ht hfault⟩
  exact List.mem_map.mpr ⟨i, List.mem_range.mpr hi, rfl⟩

end Worker

/-- Two packets polled and one of them called. -/
theorem Worker.tasks_valid_sample : ∃ evs t,
    Run (Worker.Step true (fun _ => false) Sample.worker Sample.ctx) (Loop.initial Sample.world)
        evs t ∧ t.queue.index = 3 ∧ Sample.worker.nodes.items.length ≤ 32 ∧
      Worker.Resolved Sample.worker ∧
      t.queue = (Loop.initial Sample.world).queue.replay (Sample.worker.accesses 0 evs) ∧
      (∀ i < t.queue.index, Access.Written (Sample.worker.accesses 0 evs) i (t.queue.cells i) ∧
        Sample.worker.ValidTask (t.queue.cells i)) ∧
      ∀ f, Sample.worker.step true (fun _ => false) Sample.ctx t = .error f →
        ¬ EngineFault.Misses f := by
  obtain ⟨t, hrun, hindex⟩ := Run.exists_of_iterate
    (Sample.worker.step true (fun _ => false) Sample.ctx) 4 (Loop.initial Sample.world)
    [.enter, .polled 0 [0, 1], .pollEnd, .called 1 1 (.ok ())]
    (fun t => decide (t.queue.index = 3)) (by decide +kernel)
  have hgraph : Graph.new Sample.factory 0 Sample.config 0 = .ok Sample.graph := rfl
  have hworker : Worker.new 0 "sample" Sample.graph.id Sample.graph.nodes Sample.graph.cpu =
      .ok {Sample.worker with nodesToPoll := .empty} := rfl
  have hstart : Worker.start {Sample.worker with nodesToPoll := .empty} Sample.ctx Sample.world =
      .ok (.ok Sample.worker, Sample.world) := rfl
  exact ⟨_, t, hrun, of_decide_eq_true hindex, Worker.tasks_valid hgraph hworker hstart hrun⟩

end OmniStack
