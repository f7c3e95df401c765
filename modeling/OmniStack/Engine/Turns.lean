import OmniStack.Engine

/-! What one turn of the worker's loops can do.

`Turn` lists the turns of `Worker::run`, each with the conditions it happens under
and the state it leaves; `step_turn` says that a step is one of them. Everything
proved about runs goes through it. -/
namespace OmniStack
open Lib
namespace Worker

/-! ### Chains -/

/-- `ps` is the null-terminated chain from `ptr` on. -/
inductive ChainOf (pkts : PacketId → Packet) : Option PacketId → List PacketId → Prop where
  | nil : ChainOf pkts none []
  | cons {p : PacketId} {ps : List PacketId} :
      ChainOf pkts (pkts p).next ps → ChainOf pkts (some p) (p :: ps)

theorem ChainOf.chain_eq {pkts : PacketId → Packet} {ptr : Option PacketId} {ps : List PacketId}
    (h : ChainOf pkts ptr ps) {fuel : Nat} (hf : ps.length ≤ fuel) : chain pkts fuel ptr = ps := by
  induction h generalizing fuel with
  | nil => cases fuel <;> rfl
  | cons _ ih =>
    cases fuel with
    | zero => simp at hf
    | succ fuel =>
      rw [chain, ih (by simpa using hf)]

/-- Two worlds whose packets of the chain have the same successors. -/
theorem ChainOf.congr {pkts pkts' : PacketId → Packet} {ptr : Option PacketId} {ps : List PacketId}
    (h : ChainOf pkts ptr ps) (hnext : ∀ p ∈ ps, (pkts' p).next = (pkts p).next) :
    ChainOf pkts' ptr ps := by
  induction h with
  | nil => exact .nil
  | cons _ ih =>
    refine .cons ?_
    rw [hnext _ List.mem_cons_self]
    exact ih fun p hp => hnext p (List.mem_cons_of_mem _ hp)

theorem ChainOf.unique {pkts : PacketId → Packet} {ptr : Option PacketId} {ps qs : List PacketId}
    (h : ChainOf pkts ptr ps) (h' : ChainOf pkts ptr qs) : ps = qs := by
  induction h generalizing qs with
  | nil =>
    cases h'
    rfl
  | cons _ ih =>
    cases h' with
    | cons h' => rw [ih h']

theorem ChainOf.suffix {pkts : PacketId → Packet} {ptr : Option PacketId} {ps qs : List PacketId}
    {p : PacketId} (h : ChainOf pkts ptr (ps ++ p :: qs)) : ChainOf pkts (some p) (p :: qs) := by
  induction ps generalizing ptr with
  | nil =>
    cases h with
    | cons h => exact .cons h
  | cons _ _ ih =>
    cases h with
    | cons h => exact ih h

/-- A chain that ends passes no packet twice. -/
theorem ChainOf.nodup {pkts : PacketId → Packet} {ptr : Option PacketId} {ps : List PacketId}
    (h : ChainOf pkts ptr ps) : ps.Nodup := by
  induction h with
  | nil => exact List.nodup_nil
  | @cons p ps hrest ih =>
    refine List.nodup_cons.mpr ⟨fun hp => ?_, ih⟩
    obtain ⟨before, after, rfl⟩ := List.append_of_mem hp
    have heq := (ChainOf.cons hrest).unique hrest.suffix
    have hlen := congrArg List.length heq
    simp at hlen
    omega

/-- A walk that stops short has come to the end of the chain. -/
theorem chainOf_of_length_lt {pkts : PacketId → Packet} {fuel : Nat} {ptr : Option PacketId}
    (h : (chain pkts fuel ptr).length < fuel) : ChainOf pkts ptr (chain pkts fuel ptr) := by
  induction fuel generalizing ptr with
  | zero => exact absurd h (Nat.not_lt_zero _)
  | succ fuel ih =>
    cases ptr with
    | none => exact .nil
    | some p => exact .cons (ih (by simpa [chain] using h))

/-- The tasks a list of packets becomes on one link. -/
def linkTasks (ps : List PacketId) (id : NodeId) : List Task := ps.map fun p => ⟨id, some p⟩

/-- A walk that ends pushed the chain, and the chain ends. -/
theorem pushChain_ok {pkts : PacketId → Packet} {id : NodeId} {fuel : Nat} {ptr : Option PacketId}
    {q q' : ArrayStack Task} (h : pushChain pkts id fuel ptr q = .ok q') :
    q.pushAll taskQueueSize (linkTasks (chain pkts fuel ptr) id) = some q' ∧
      ChainOf pkts ptr (chain pkts fuel ptr) := by
  induction fuel generalizing ptr q with
  | zero =>
    cases ptr with
    | none =>
      cases h
      exact ⟨rfl, .nil⟩
    | some p => cases h
  | succ fuel ih =>
    cases ptr with
    | none =>
      cases h
      exact ⟨rfl, .nil⟩
    | some p =>
      simp only [pushChain] at h
      split at h
      · rename_i u hu
        obtain ⟨hpush, hchain⟩ := ih h
        refine ⟨?_, .cons hchain⟩
        simp only [chain, linkTasks, List.map_cons, ArrayStack.pushAll, hu]
        exact hpush
      · cases h

theorem pushLinks_ok {pkts : PacketId → Packet} {head : PacketId} {links : List NodeId}
    {q q' : ArrayStack Task} (h : pushLinks pkts head links q = .ok q') :
    q.pushAll taskQueueSize
        (links.flatMap (linkTasks (chain pkts (taskQueueSize + 1) (some head)))) = some q' ∧
      (links ≠ [] → ChainOf pkts (some head) (chain pkts (taskQueueSize + 1) (some head))) := by
  induction links generalizing q with
  | nil =>
    cases h
    exact ⟨rfl, fun hne => absurd rfl hne⟩
  | cons id rest ih =>
    simp only [pushLinks] at h
    split at h
    · rename_i u hu
      obtain ⟨hpush, hchain⟩ := pushChain_ok hu
      refine ⟨?_, fun _ => hchain⟩
      rw [List.flatMap_cons, ArrayStack.pushAll_append, hpush]
      exact (ih h).1
    · cases h

/-- Pushes that fail overrun the queue. -/
def ofPush : Option (ArrayStack Task) → Except EngineFault (ArrayStack Task)
  | some q => .ok q
  | none => .error .queueOverrun

/-- On a finite chain a walk is the pushes of its packets. -/
theorem pushChain_eq {pkts : PacketId → Packet} {id : NodeId} {fuel : Nat} {ptr : Option PacketId}
    {ps : List PacketId} (hchain : ChainOf pkts ptr ps) (hf : ps.length ≤ fuel)
    (q : ArrayStack Task) :
    pushChain pkts id fuel ptr q = ofPush (q.pushAll taskQueueSize (linkTasks ps id)) := by
  induction hchain generalizing fuel q with
  | nil => cases fuel <;> rfl
  | cons _ ih =>
    cases fuel with
    | zero => simp at hf
    | succ fuel =>
      simp only [pushChain, linkTasks, List.map_cons, ArrayStack.pushAll]
      cases q.push taskQueueSize _ with
      | none => rfl
      | some u => exact ih (by simpa using hf) u

theorem pushLinks_eq {pkts : PacketId → Packet} {head : PacketId} {ps : List PacketId}
    (hchain : ChainOf pkts (some head) ps) (hf : ps.length ≤ taskQueueSize + 1)
    (links : List NodeId) (q : ArrayStack Task) :
    pushLinks pkts head links q =
      ofPush (q.pushAll taskQueueSize (links.flatMap (linkTasks ps))) := by
  induction links generalizing q with
  | nil => rfl
  | cons id rest ih =>
    rw [pushLinks, pushChain_eq hchain hf, List.flatMap_cons, ArrayStack.pushAll_append]
    cases q.pushAll taskQueueSize (linkTasks ps id) with
    | none => rfl
    | some u => exact ih u

/-! ### Turns -/

variable {σ : Type}

/-- The turns of the three loops. -/
inductive Turn (checks : Bool) (shouldStop : World σ → Bool) (w : Worker σ) (ctx : Context) :
    Loop σ → Event → Loop σ → Prop where
  | enter {s : Loop σ} (hphase : s.phase = .top) (hrun : shouldStop s.world = false) :
      Turn checks shouldStop w ctx s .enter {s with phase := .poll w.nodesToPoll.items}
  | leave {s : Loop σ} {world : World σ} (hphase : s.phase = .top)
      (hstop : shouldStop s.world = true)
      (hdestroy : destroyNodes ctx w.nodes.items s.world = .ok world) :
      Turn checks shouldStop w ctx s .leave {s with phase := .done (.ok ()), world}
  | pollEnd {s : Loop σ} (hphase : s.phase = .poll []) :
      Turn checks shouldStop w ctx s .pollEnd {s with phase := .drain}
  | idle {s : Loop σ} {id : NodeId} {rest : List NodeId} {node : Node σ} {world : World σ}
      (hphase : s.phase = .poll (id :: rest)) (hnode : w.nodes.items[id]? = some node)
      (hpoll : node.module.poll ctx s.world = .ok (.error .nop, world)) :
      Turn checks shouldStop w ctx s (.idle id) {s with phase := .poll rest, world}
  | polled {s : Loop σ} {id : NodeId} {rest : List NodeId} {node : Node σ} {world : World σ}
      {head : PacketId} {queue : ArrayStack Task} {burst : List PacketId}
      (hphase : s.phase = .poll (id :: rest)) (hnode : w.nodes.items[id]? = some node)
      (hpoll : node.module.poll ctx s.world = .ok (.ok head, world))
      (hburst : burst = chain world.pkts (taskQueueSize + 1) (some head))
      (hchain : node.linksTo.items ≠ [] → ChainOf world.pkts (some head) burst)
      (hpush : s.queue.pushAll taskQueueSize (node.linksTo.items.flatMap (linkTasks burst)) =
        some queue) :
      Turn checks shouldStop w ctx s (.polled id burst) { queue, phase := .poll rest, world }
  | pollFailed {s : Loop σ} {id : NodeId} {rest : List NodeId} {node : Node σ} {world : World σ}
      {e : Error} (hphase : s.phase = .poll (id :: rest)) (hnode : w.nodes.items[id]? = some node)
      (hpoll : node.module.poll ctx s.world = .ok (.error e, world)) (hne : e ≠ .nop) :
      Turn checks shouldStop w ctx s (.failed id e) {s with phase := .done (.error e), world}
  | drained {s : Loop σ} (hphase : s.phase = .drain) (hempty : s.queue.index = 0) :
      Turn checks shouldStop w ctx s .drained {s with phase := .top}
  | forwarded {s : Loop σ} {id : NodeId} {pkt : PacketId} {node : Node σ} {world : World σ}
      {refcnt : Nat} {queue : ArrayStack Task}
      (hphase : s.phase = .drain) (hindex : s.queue.index ≠ 0)
      (htask : s.queue.pop.1 = ⟨id, some pkt⟩) (hnode : w.nodes.items[id]? = some node)
      (hcall : node.module.process ctx pkt s.world = .ok (.ok (), world))
      (hrefs : addRefs checks (world.pkts pkt).refcnt node.linksTo.items.length = .ok refcnt)
      (hpush : s.queue.pop.2.pushAll taskQueueSize
        (node.linksTo.items.map fun m => ⟨m, some pkt⟩) = some queue) :
      Turn checks shouldStop w ctx s (.called id pkt (.ok ()))
        { queue, phase := .drain, world := world.setPkt pkt {world.pkts pkt with refcnt} }
  | dropped {s : Loop σ} {id : NodeId} {pkt : PacketId} {node : Node σ} {world : World σ}
      (hphase : s.phase = .drain) (hindex : s.queue.index ≠ 0)
      (htask : s.queue.pop.1 = ⟨id, some pkt⟩) (hnode : w.nodes.items[id]? = some node)
      (hcall : node.module.process ctx pkt s.world = .ok (.error .dropped, world)) :
      Turn checks shouldStop w ctx s (.called id pkt (.error .dropped))
        { queue := s.queue.pop.2, phase := .drain, world }
  | callFailed {s : Loop σ} {id : NodeId} {pkt : PacketId} {node : Node σ} {world : World σ}
      {e : Error} (hphase : s.phase = .drain) (hindex : s.queue.index ≠ 0)
      (htask : s.queue.pop.1 = ⟨id, some pkt⟩) (hnode : w.nodes.items[id]? = some node)
      (hcall : node.module.process ctx pkt s.world = .ok (.error e, world)) (hne : e ≠ .dropped) :
      Turn checks shouldStop w ctx s (.called id pkt (.error e))
        { queue := s.queue.pop.2, phase := .done (.error e), world }

variable {checks : Bool} {shouldStop : World σ → Bool} {w : Worker σ} {ctx : Context}

theorem getNode_ok {id : NodeId} {node : Node σ} :
    w.getNode id = .ok node ↔ w.nodes.items[id]? = some node := by
  unfold getNode
  split
  · rename_i n hn
    rw [hn, Except.ok.injEq, Option.some.injEq]
  · rename_i hn
    rw [hn]
    exact ⟨fun h => (nomatch h), fun h => (nomatch h)⟩

theorem callModule_ok {α : Type} {x : Exec α} {a : α} : callModule x = .ok a ↔ x = .ok a := by
  cases x with
  | ok b => exact ⟨fun h => by cases h; rfl, fun h => by cases h; rfl⟩
  | error f => exact ⟨fun h => (nomatch h), fun h => (nomatch h)⟩

theorem pollNode_turn {s t : Loop σ} {ev : Event} {id : NodeId} {rest : List NodeId}
    (hphase : s.phase = .poll (id :: rest)) (h : w.pollNode ctx id rest s = .ok (ev, t)) :
    Turn checks shouldStop w ctx s ev t := by
  simp only [pollNode, Exec.bind_eq_ok, getNode_ok, callModule_ok, Prod.exists] at h
  obtain ⟨node, hnode, res, world, hpoll, h⟩ := h
  cases res with
  | ok head =>
    simp only [Exec.bind_eq_ok, Exec.pure_eq_ok, Prod.mk.injEq] at h
    obtain ⟨queue, hpush, rfl, rfl⟩ := h
    obtain ⟨hall, hchain⟩ := pushLinks_ok hpush
    exact .polled hphase hnode hpoll rfl hchain hall
  | error e =>
    by_cases hnop : e = .nop
    · subst hnop
      cases h
      exact .idle hphase hnode hpoll
    · have : (.failed id e, {s with phase := .done (.error e), world}) = (ev, t) := by
        cases e <;> first | exact absurd rfl hnop | exact Exec.pure_eq_ok.mp h
      cases this
      exact .pollFailed hphase hnode hpoll hnop

theorem drainTask_turn {s t : Loop σ} {ev : Event} (hphase : s.phase = .drain)
    (hindex : s.queue.index ≠ 0) (h : w.drainTask checks ctx s = .ok (ev, t)) :
    Turn checks shouldStop w ctx s ev t := by
  cases htask : s.queue.pop.1 with
  | mk id data =>
    simp only [drainTask, htask] at h
    cases data with
    | none => cases h
    | some pkt =>
      simp only [Exec.bind_eq_ok, getNode_ok, callModule_ok, Prod.exists] at h
      obtain ⟨node, hnode, res, world, hcall, h⟩ := h
      cases res with
      | ok u =>
        simp only [Exec.bind_eq_ok] at h
        obtain ⟨refcnt, hrefs, h⟩ := h
        split at h
        · rename_i queue hpush
          cases h
          exact .forwarded hphase hindex htask hnode hcall hrefs hpush
        · cases h
      | error e =>
        by_cases hdrop : e = .dropped
        · subst hdrop
          cases h
          exact .dropped hphase hindex htask hnode hcall
        · have : (.called id pkt (.error e),
              { queue := s.queue.pop.2, phase := .done (.error e), world }) = (ev, t) := by
            cases e <;> first | exact absurd rfl hdrop | exact Exec.pure_eq_ok.mp h
          cases this
          exact .callFailed hphase hindex htask hnode hcall hdrop

/-- **Every step is one of the turns.** -/
theorem step_turn {s t : Loop σ} {ev : Event} (h : Step checks shouldStop w ctx s ev t) :
    Turn checks shouldStop w ctx s ev t := by
  simp only [Step, step] at h
  cases hphase : s.phase with
  | top =>
    simp only [hphase] at h
    split at h
    · rename_i hstop
      simp only [Exec.bind_eq_ok, callModule_ok, Exec.pure_eq_ok, Prod.mk.injEq] at h
      obtain ⟨world, hdestroy, rfl, rfl⟩ := h
      exact .leave hphase hstop hdestroy
    · rename_i hrun
      cases h
      exact .enter hphase (by simpa using hrun)
  | poll ids =>
    cases ids with
    | nil =>
      simp only [hphase] at h
      cases h
      exact .pollEnd hphase
    | cons id rest =>
      simp only [hphase] at h
      exact pollNode_turn hphase h
  | drain =>
    simp only [hphase] at h
    split at h
    · rename_i hempty
      cases h
      exact .drained hphase hempty
    · rename_i hindex
      exact drainTask_turn hphase hindex h
  | done res =>
    simp only [hphase] at h
    cases h

/-! ### Turns that overrun the queue -/

theorem getNode_ne_overrun (id : NodeId) : w.getNode id ≠ .error .queueOverrun := by
  unfold getNode
  split <;> simp

theorem callModule_ne_overrun {α : Type} (x : Exec α) : callModule x ≠ .error .queueOverrun := by
  cases x <;> simp [callModule]

theorem addRefs_ne_overrun (refcnt links : Nat) :
    addRefs checks refcnt links ≠ .error .queueOverrun := by
  unfold addRefs
  split
  · split <;> simp
  · simp

theorem pollNode_overrun {s : Loop σ} {id : NodeId} {rest : List NodeId}
    (h : w.pollNode ctx id rest s = .error .queueOverrun) :
    ∃ node head world, w.nodes.items[id]? = some node ∧
      node.module.poll ctx s.world = .ok (.ok head, world) ∧
      pushLinks world.pkts head node.linksTo.items s.queue = .error .queueOverrun := by
  simp only [pollNode, Exec.bind_eq_error, getNode_ne_overrun, callModule_ne_overrun, false_or,
    getNode_ok, callModule_ok, Prod.exists] at h
  obtain ⟨node, hnode, res, world, hpoll, h⟩ := h
  cases res with
  | ok head =>
    simp only [Exec.bind_eq_error] at h
    obtain h | ⟨_, _, h⟩ := h
    · exact ⟨node, head, world, hnode, hpoll, h⟩
    · cases h
  | error e => cases e <;> cases h

theorem drainTask_overrun {s : Loop σ} (h : w.drainTask checks ctx s = .error .queueOverrun) :
    ∃ id pkt node world, s.queue.pop.1 = ⟨id, some pkt⟩ ∧ w.nodes.items[id]? = some node ∧
      node.module.process ctx pkt s.world = .ok (.ok (), world) ∧
      s.queue.pop.2.pushAll taskQueueSize (node.linksTo.items.map fun m => ⟨m, some pkt⟩) =
        none := by
  cases htask : s.queue.pop.1 with
  | mk id data =>
    simp only [drainTask, htask] at h
    cases data with
    | none => cases h
    | some pkt =>
      simp only [Exec.bind_eq_error, getNode_ne_overrun, callModule_ne_overrun, false_or,
        getNode_ok, callModule_ok, Prod.exists] at h
      obtain ⟨node, hnode, res, world, hcall, h⟩ := h
      cases res with
      | ok u =>
        simp only [Exec.bind_eq_error, addRefs_ne_overrun, false_or] at h
        obtain ⟨refcnt, _, h⟩ := h
        split at h
        · cases h
        · rename_i hpush
          exact ⟨id, pkt, node, world, rfl, hnode, hcall, hpush⟩
      | error e => cases e <;> cases h

/-- **A step that overruns the queue** is a poll whose tasks, or a call that returned
`Ok` whose tasks, do not fit. -/
theorem step_overrun {s : Loop σ} (h : w.step checks shouldStop ctx s = .error .queueOverrun) :
    (∃ id rest node head world, s.phase = .poll (id :: rest) ∧ w.nodes.items[id]? = some node ∧
      node.module.poll ctx s.world = .ok (.ok head, world) ∧
      pushLinks world.pkts head node.linksTo.items s.queue = .error .queueOverrun) ∨
    (∃ id pkt node world, s.phase = .drain ∧ s.queue.index ≠ 0 ∧
      s.queue.pop.1 = ⟨id, some pkt⟩ ∧ w.nodes.items[id]? = some node ∧
      node.module.process ctx pkt s.world = .ok (.ok (), world) ∧
      s.queue.pop.2.pushAll taskQueueSize (node.linksTo.items.map fun m => ⟨m, some pkt⟩) =
        none) := by
  simp only [step] at h
  cases hphase : s.phase with
  | top =>
    simp only [hphase] at h
    split at h
    · simp only [Exec.bind_eq_error, callModule_ne_overrun, false_or] at h
      obtain ⟨_, _, h⟩ := h
      cases h
    · cases h
  | poll ids =>
    simp only [hphase] at h
    cases ids with
    | nil => cases h
    | cons id rest =>
      obtain ⟨node, head, world, hnode, hpoll, hpush⟩ := pollNode_overrun h
      exact .inl ⟨id, rest, node, head, world, rfl, hnode, hpoll, hpush⟩
  | drain =>
    simp only [hphase] at h
    split at h
    · cases h
    · rename_i hindex
      obtain ⟨id, pkt, node, world, htask, hnode, hcall, hpush⟩ := drainTask_overrun h
      exact .inr ⟨id, pkt, node, world, rfl, hindex, htask, hnode, hcall, hpush⟩
  | done res =>
    simp only [hphase] at h
    cases h

end Worker
end OmniStack
