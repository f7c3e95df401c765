import Mathlib.Logic.Relation
import OmniStack.Engine.Forwarding

/-! How full the task queue can get.

A task on top of the stack at height `h` is replaced by the tasks of its node's
links, the one of link `i` at height `h + i`. So what can pile up above a task is the
sum of the link positions along a path of nodes that forward: `Climb`. If every task a
full round of polls can queue leaves room for every climb from its node, no write to
the queue is ever out of bounds (`queue_in_bounds`). Eight polling nodes with four
links and bursts of 64 fill the queue exactly, and one forwarding node with two links
behind them overruns it (`full_bursts_overrun`). -/
namespace OmniStack
open Lib
namespace Worker
variable {σ : Type}

/-- A node whose `process` can return `Ok`. -/
def MayForward (w : Worker σ) (ctx : Context) (n : NodeId) : Prop :=
  ∃ node, w.nodes.items[n]? = some node ∧
    ∃ pkt world world', node.module.process ctx pkt world = .ok (.ok (), world')

/-- Every directed cycle of links passes a node that never returns `Ok`. -/
def CyclesBroken (w : Worker σ) (ctx : Context) : Prop :=
  ∀ n, ¬ Relation.TransGen (fun a b => w.MayForward ctx a ∧ b ∈ w.links a) n n

/-- Every poll returns a chain of at most `k` packets. -/
def BurstsAtMost (w : Worker σ) (ctx : Context) (k : Nat) : Prop :=
  ∀ (n : NodeId) (node : Node σ), w.nodes.items[n]? = some node → ∀ world head world',
    node.module.poll ctx world = .ok (.ok head, world') →
      ∃ ps, ChainOf world'.pkts (some head) ps ∧ ps.length ≤ k

/-- The link positions along a path of forwarding nodes, summed up. -/
inductive Climb (w : Worker σ) (ctx : Context) : NodeId → Nat → Prop where
  | here (n : NodeId) : Climb w ctx n 0
  | link {n m : NodeId} {i c : Nat} (hfwd : w.MayForward ctx n) (hlink : (w.links n)[i]? = some m)
      (hrest : Climb w ctx m c) : Climb w ctx n (i + c)

/-- How many links a list of polling nodes has. -/
def fanOut (w : Worker σ) (ids : List NodeId) : Nat := (ids.map fun n => (w.links n).length).sum

/-- The condition: with every poll of a round returning `k` packets, the block of tasks
of each polling node's each link leaves room for every climb from the link's target. -/
def RoundFits (w : Worker σ) (ctx : Context) (k : Nat) : Prop :=
  ∀ before n after i m c, w.nodesToPoll.items = before ++ n :: after →
    (w.links n)[i]? = some m → w.Climb ctx m c → k * (w.fanOut before + (i + 1)) + c ≤ taskQueueSize

/-- A task at height `h` has room for every climb from its node. -/
def HasRoom (w : Worker σ) (ctx : Context) (h : Nat) (task : Task) : Prop :=
  ∀ c, w.Climb ctx task.nodeId c → h + c ≤ taskQueueSize

theorem hasRoom_height {w : Worker σ} {ctx : Context} (h : Nat) (task : Task)
    (hroom : w.HasRoom ctx h task) : h ≤ taskQueueSize := hroom 0 (.here _)

/-- Tasks that have room fit. -/
theorem rooms_fit {w : Worker σ} {ctx : Context} {q : ArrayStack Task} {l : List Task}
    (h : Move.Heights (w.HasRoom ctx) (q.live ++ l)) : q.pushAll taskQueueSize l ≠ none := by
  have hlen := Move.heights_length h hasRoom_height
  rw [List.length_append, ArrayStack.live_length] at hlen
  intro hnone
  have := (ArrayStack.pushAll_eq_none (by omega)).mp hnone
  omega

variable {checks : Bool} {shouldStop : World σ → Bool} {w : Worker σ} {ctx : Context}

theorem pushAll_le {q q' : ArrayStack Task} {l : List Task} (hq : q.index ≤ taskQueueSize)
    (h : q.pushAll taskQueueSize l = some q') : q'.index ≤ taskQueueSize := by
  rw [ArrayStack.pushAll_index h]
  by_contra hover
  have hnone := (ArrayStack.pushAll_eq_none hq).mpr (Nat.not_le.mp hover)
  cases hnone.symm.trans h

/-- What has been written is within the array. -/
theorem run_index {world : World σ} {evs : List Event} {t : Loop σ}
    (h : Run (Step checks shouldStop w ctx) (Loop.initial world) evs t) :
    t.queue.index ≤ taskQueueSize := by
  refine h.invariant (P := fun s => s.queue.index ≤ taskQueueSize) (fun s ev t hs hstep => ?_)
    (Nat.zero_le _)
  have hpop : s.queue.pop.2.index ≤ taskQueueSize := (Nat.sub_le _ _).trans hs
  cases step_turn hstep with
  | enter | leave | pollEnd | idle | pollFailed | drained => exact hs
  | polled _ _ _ _ _ hpush => exact pushAll_le hs hpush
  | forwarded _ _ _ _ _ _ hpush => exact pushAll_le hpop hpush
  | dropped | callFailed => exact hpop

/-! ### The three loops keep room -/

theorem burst_size {k : Nat} {burst : List PacketId} (hk : burst.length ≤ k) (links : List NodeId) :
    (links.flatMap (linkTasks burst)).length ≤ k * links.length := by
  induction links with
  | nil => simp
  | cons m rest ih =>
    rw [List.flatMap_cons, List.length_append, List.length_cons, Nat.mul_succ]
    have hone : (linkTasks burst m).length = burst.length := by simp [linkTasks]
    omega

/-- The tasks of one polling node, above a stack no higher than the nodes before it
can have filled. -/
theorem burst_rooms {k base : Nat} {burst : List PacketId} (hk : burst.length ≤ k)
    (links : List NodeId) (done : Nat) (hbase : base ≤ k * done)
    (hfits : ∀ i m c, links[i]? = some m → w.Climb ctx m c →
      k * (done + (i + 1)) + c ≤ taskQueueSize) :
    Move.Heights (fun h => w.HasRoom ctx (base + h)) (links.flatMap (linkTasks burst)) := by
  induction links generalizing base done with
  | nil => exact Move.heights_nil _
  | cons m rest ih =>
    have hstep : k * (done + 1) = k * done + k := Nat.mul_succ k done
    rw [List.flatMap_cons, Move.heights_append]
    constructor
    · intro i task hi c hc
      have hlt : i < burst.length := by
        simpa [linkTasks] using (List.getElem?_eq_some_iff.mp hi).1
      have hid : task.nodeId = m := by
        simp only [linkTasks, List.getElem?_map, Option.map_eq_some_iff] at hi
        obtain ⟨p, _, rfl⟩ := hi
        rfl
      have := hfits 0 m c rfl (hid ▸ hc)
      rw [Nat.zero_add, hstep] at this
      omega
    · have hbase' : base + burst.length ≤ k * (done + 1) := by omega
      have hrest := ih (done + 1) hbase' (by
        intro i m' c hi hc
        have := hfits (i + 1) m' c hi hc
        rwa [show done + (i + 1 + 1) = done + 1 + (i + 1) by omega] at this)
      simpa only [linkTasks, List.length_map, Nat.add_assoc] using hrest

/-- The tasks of a forwarded packet, in place of one that had room. -/
theorem forward_rooms {base : Nat} {n : NodeId} {pkt : PacketId} (hfwd : w.MayForward ctx n)
    (hroom : w.HasRoom ctx (base + 1) ⟨n, some pkt⟩) :
    Move.Heights (fun h => w.HasRoom ctx (base + h))
      ((w.links n).map fun m => (⟨m, some pkt⟩ : Task)) := by
  intro i task hi c hc
  simp only [List.getElem?_map, Option.map_eq_some_iff] at hi
  obtain ⟨m, hm, rfl⟩ := hi
  have := hroom (i + c) (.link hfwd hm hc)
  omega

/-- What holds between the turns of the loops. -/
structure Roomy (w : Worker σ) (ctx : Context) (k : Nat) (s : Loop σ) : Prop where
  rooms : Move.Heights (w.HasRoom ctx) s.queue.live
  top : s.phase = .top → s.queue.index = 0
  poll : ∀ rest, s.phase = .poll rest → ∃ before, w.nodesToPoll.items = before ++ rest ∧
    s.queue.index ≤ k * w.fanOut before

theorem roomy_initial (k : Nat) (world : World σ) : Roomy w ctx k (Loop.initial world) where
  rooms := Move.heights_nil _
  top := fun _ => rfl
  poll := fun _ h => nomatch h

/-- A poll's tasks have room above what is queued. -/
theorem polled_rooms {k : Nat} {s : Loop σ} {id : NodeId} {rest : List NodeId}
    {burst : List PacketId} (hfits : RoundFits w ctx k) (hs : Roomy w ctx k s)
    (hphase : s.phase = .poll (id :: rest)) (hk : burst.length ≤ k) :
    Move.Heights (w.HasRoom ctx) (s.queue.live ++ (w.links id).flatMap (linkTasks burst)) := by
  obtain ⟨before, hsplit, hindex⟩ := hs.poll _ hphase
  rw [Move.heights_append, ArrayStack.live_length]
  exact ⟨hs.rooms, burst_rooms hk _ _ hindex fun i m c hi hc => hfits _ _ _ _ _ _ hsplit hi hc⟩

theorem called_rooms {k : Nat} {s : Loop σ} {id : NodeId} {pkt : PacketId}
    (hs : Roomy w ctx k s) (hindex : s.queue.index ≠ 0) (htask : s.queue.pop.1 = ⟨id, some pkt⟩) :
    Move.Heights (w.HasRoom ctx) s.queue.pop.2.live ∧
      (w.MayForward ctx id → Move.Heights (w.HasRoom ctx)
        (s.queue.pop.2.live ++ (w.links id).map fun m => ⟨m, some pkt⟩)) := by
  have hrooms := hs.rooms
  rw [ArrayStack.pop_live hindex, htask, Move.heights_append] at hrooms
  refine ⟨hrooms.1, fun hfwd => ?_⟩
  rw [Move.heights_append]
  exact ⟨hrooms.1, forward_rooms hfwd (hrooms.2 0 _ rfl)⟩

theorem burst_length {k : Nat} (hbursts : BurstsAtMost w ctx k) (hk : k ≤ taskQueueSize)
    {id : NodeId} {node : Node σ} (hnode : w.nodes.items[id]? = some node) {world world' : World σ}
    {head : PacketId} (hpoll : node.module.poll ctx world = .ok (.ok head, world')) :
    (chain world'.pkts (taskQueueSize + 1) (some head)).length ≤ k := by
  obtain ⟨ps, hchain, hlen⟩ := hbursts id node hnode world head world' hpoll
  rwa [hchain.chain_eq (by omega)]

theorem step_roomy {k : Nat} (hbursts : BurstsAtMost w ctx k) (hk : k ≤ taskQueueSize)
    (hfits : RoundFits w ctx k) {s t : Loop σ} {ev : Event} (hs : Roomy w ctx k s)
    (h : Step checks shouldStop w ctx s ev t) : Roomy w ctx k t := by
  cases step_turn h with
  | enter hphase =>
    refine ⟨hs.rooms, fun h => (nomatch h), fun rest h => ?_⟩
    cases h
    exact ⟨[], rfl, by rw [hs.top hphase]; exact Nat.zero_le _⟩
  | leave | pollFailed | pollEnd =>
    exact ⟨hs.rooms, fun h => (nomatch h), fun _ h => (nomatch h)⟩
  | idle hphase hnode =>
    refine ⟨hs.rooms, fun h => (nomatch h), fun rest h => ?_⟩
    cases h
    obtain ⟨before, hsplit, hindex⟩ := hs.poll _ hphase
    refine ⟨before ++ [_], by rw [hsplit, List.append_assoc]; rfl, hindex.trans ?_⟩
    simp [fanOut, Nat.mul_add]
  | polled hphase hnode hpoll hburst _ hpush =>
    have hlen := burst_length hbursts hk hnode hpoll
    rw [← hburst] at hlen
    have hrooms := polled_rooms hfits hs hphase hlen
    rw [links_eq hnode, ← ArrayStack.pushAll_live hpush] at hrooms
    refine ⟨hrooms, fun h => (nomatch h), fun rest h => ?_⟩
    cases h
    obtain ⟨before, hsplit, hindex⟩ := hs.poll _ hphase
    refine ⟨before ++ [_], by rw [hsplit, List.append_assoc]; rfl, ?_⟩
    rw [ArrayStack.pushAll_index hpush, fanOut, List.map_append, List.sum_append, Nat.mul_add]
    refine Nat.add_le_add hindex ?_
    simpa [links_eq hnode] using burst_size hlen _
  | drained _ hempty => exact ⟨hs.rooms, fun _ => hempty, fun _ h => (nomatch h)⟩
  | forwarded _ hindex htask hnode hcall _ hpush =>
    have hrooms := (called_rooms hs hindex htask).2 ⟨_, hnode, _, _, _, hcall⟩
    rw [links_eq hnode, ← ArrayStack.pushAll_live hpush] at hrooms
    exact ⟨hrooms, fun h => (nomatch h), fun _ h => (nomatch h)⟩
  | dropped _ hindex htask =>
    exact ⟨(called_rooms hs hindex htask).1, fun h => (nomatch h), fun _ h => (nomatch h)⟩
  | callFailed _ hindex htask =>
    exact ⟨(called_rooms hs hindex htask).1, fun h => (nomatch h), fun _ h => (nomatch h)⟩

/-- Where there is room the next step finds it. -/
theorem roomy_no_overrun {k : Nat} (hbursts : BurstsAtMost w ctx k) (hk : k ≤ taskQueueSize)
    (hfits : RoundFits w ctx k) {s : Loop σ} (hs : Roomy w ctx k s) :
    w.step checks shouldStop ctx s ≠ .error .queueOverrun := by
  intro hover
  obtain ⟨id, rest, node, head, world', hphase, hnode, hpoll, hpush⟩ |
    ⟨id, pkt, node, world', _, hindex, htask, hnode, hcall, hpush⟩ := step_overrun hover
  · obtain ⟨ps, hchain, hlen⟩ := hbursts id node hnode _ _ _ hpoll
    rw [pushLinks_eq hchain (by omega)] at hpush
    have hroom := polled_rooms hfits hs hphase hlen
    rw [links_eq hnode] at hroom
    cases hq : s.queue.pushAll taskQueueSize (node.linksTo.items.flatMap (linkTasks ps)) with
    | none => exact rooms_fit hroom hq
    | some q =>
      rw [hq] at hpush
      cases hpush
  · have hroom := (called_rooms hs hindex htask).2 ⟨node, hnode, _, _, _, hcall⟩
    rw [links_eq hnode] at hroom
    exact rooms_fit hroom hpush

theorem run_roomy {k : Nat} (hbursts : BurstsAtMost w ctx k) (hk : k ≤ taskQueueSize)
    (hfits : RoundFits w ctx k) {world : World σ} {evs : List Event} {s : Loop σ}
    (hrun : Run (Step checks shouldStop w ctx) (Loop.initial world) evs s) : Roomy w ctx k s :=
  hrun.invariant (fun _ _ _ hs hst => step_roomy hbursts hk hfits hs hst) (roomy_initial k world)

/-- **The queue is never overrun**, in any run of polls of at most `k` packets, if a
full round of them leaves room for every climb. -/
theorem queue_in_bounds {k : Nat} (hbursts : BurstsAtMost w ctx k) (hk : k ≤ taskQueueSize)
    (hfits : RoundFits w ctx k) {world : World σ} {evs : List Event} {s : Loop σ}
    (hrun : Run (Step checks shouldStop w ctx) (Loop.initial world) evs s) :
    w.step checks shouldStop ctx s ≠ .error .queueOverrun :=
  roomy_no_overrun hbursts hk hfits (run_roomy hbursts hk hfits hrun)

end Worker

/-! ### A round that fits -/

namespace Sample

theorem worker_bursts : worker.BurstsAtMost ctx 64 := by
  intro n node hnode world head world' hpoll
  have hmem := List.mem_of_getElem? hnode
  simp only [worker, graph, List.mem_cons, List.not_mem_nil, or_false] at hmem
  rcases hmem with rfl | rfl | rfl
  · simp only [source] at hpoll
    split at hpoll
    · cases hpoll
      exact ⟨[0, 1], linkChain_chain _ (by decide), by decide⟩
    · cases hpoll
  · cases hpoll
  · cases hpoll

theorem climb_sink {c : Nat} (h : worker.Climb ctx 2 c) : c = 0 := by
  cases h with
  | here => rfl
  | link _ hlink _ => cases hlink

theorem climb_relay {c : Nat} (h : worker.Climb ctx 1 c) : c ≤ 1 := by
  cases h with
  | here => exact Nat.zero_le 1
  | @link _ m i c _ hlink hrest =>
    have hi : i < 2 := (List.getElem?_eq_some_iff.mp hlink).1
    have hm : m ∈ worker.links 1 := List.mem_of_getElem? hlink
    have : m = 2 := by simpa [Worker.links, Graph.linksOf, worker, graph] using hm
    subst this
    have := climb_sink hrest
    omega

theorem worker_fits : worker.RoundFits ctx 64 := by
  intro before n after i m c hsplit hlink hclimb
  cases before with
  | cons b bs => simp [worker] at hsplit
  | nil =>
    obtain ⟨rfl, _⟩ : 0 = n ∧ [] = after := by simpa [worker] using hsplit
    have hi : i < 1 := (List.getElem?_eq_some_iff.mp hlink).1
    have hm : m ∈ worker.links 0 := List.mem_of_getElem? hlink
    have : m = 1 := by simpa [Worker.links, Graph.linksOf, worker, graph] using hm
    subst this
    have := climb_relay hclimb
    simp only [Worker.fanOut, List.map_nil, List.sum_nil, taskQueueSize]
    omega

end Sample

theorem Worker.queue_in_bounds_sample :
    Sample.worker.step true (fun _ => false) Sample.ctx (Loop.initial Sample.world) ≠
      .error .queueOverrun :=
  Worker.queue_in_bounds Sample.worker_bursts (by decide) Sample.worker_fits (.nil _)

/-! ### Full bursts on eight nodes -/

namespace Sample

/-- Packets in chains of 64: the chain of packet `64 * j` is the burst of poll `j`. -/
def burstPkts (p : PacketId) : Packet :=
  {pkt with next := if p % 64 = 63 then none else some (p + 1)}

/-- Always has a full burst. -/
def burstSource (j : Nat) : Module Unit where
  process := fun _ _ w => .ok (.error .dropped, w)
  poll := fun _ w => .ok (.ok (64 * j), {w with pkts := burstPkts})
  capability := ⟨true, true⟩

def wideNode (j : Nat) : Node Unit := ⟨burstSource j, .ofTake [8, 8, 8, 8]⟩

def forkNode : Node Unit := ⟨relay, .ofTake [9, 9]⟩

def endNode : Node Unit := ⟨sink, .empty⟩

/-- Eight polling nodes with four links each, to a node that forwards over two. -/
def wideWorker : Worker Unit where
  nodes := ⟨(List.range 8).map wideNode ++ [forkNode, endNode], by decide⟩
  nodesToPoll := .ofTake [0, 1, 2, 3, 4, 5, 6, 7]
  id := 0
  graphId := 0
  cpu := 0
  stackName := "sample"

/-- The events of a round of polls. -/
def wideRound : List Event :=
  .enter :: ((List.range 8).map fun j => .polled j ((List.range 64).map fun i => 64 * j + i)) ++
    [.pollEnd]

def overruns (t : Loop Unit) : Bool :=
  match wideWorker.step true (fun _ => false) ctx t with
  | .error .queueOverrun => true
  | _ => false

theorem burst_chain {j : Nat} (hj : j < 8) :
    ∃ ps, Worker.ChainOf burstPkts (some (64 * j)) ps ∧ ps.length ≤ 64 := by
  have hlen : ∀ j < 8, (Worker.chain burstPkts 65 (some (64 * j))).length ≤ 64 := by decide +kernel
  exact ⟨_, Worker.chainOf_of_length_lt (Nat.lt_succ_of_le (hlen j hj)), hlen j hj⟩

theorem sink_drops {p : PacketId} {w w' : World Unit} :
    sink.process ctx p w ≠ .ok (.ok (), w') := by
  intro h
  simp only [sink, giveBack, Exec.bind_eq_ok, Exec.pure_eq_ok, Prod.mk.injEq] at h
  obtain ⟨_, _, h, _⟩ := h
  cases h

theorem wide_node {n : NodeId} {node : Node Unit} (h : wideWorker.nodes.items[n]? = some node) :
    (n < 8 ∧ node = wideNode n) ∨ (n = 8 ∧ node = forkNode) ∨ (n = 9 ∧ node = endNode) := by
  by_cases hn : n < 8
  · left
    simp only [wideWorker] at h
    rw [List.getElem?_append_left (by simpa using hn)] at h
    simp only [List.getElem?_map, List.getElem?_range hn, Option.map_some, Option.some.injEq] at h
    exact ⟨hn, h.symm⟩
  · right
    simp only [wideWorker] at h
    rw [List.getElem?_append_right (by simpa using hn), List.length_map, List.length_range] at h
    obtain ⟨k, hk⟩ : ∃ k, n = 8 + k := ⟨n - 8, (Nat.add_sub_cancel' (Nat.le_of_not_lt hn)).symm⟩
    rw [hk, Nat.add_sub_cancel_left] at h
    rcases k with _ | _ | k
    · exact .inl ⟨hk, (Option.some.inj h).symm⟩
    · exact .inr ⟨hk, (Option.some.inj h).symm⟩
    · cases h

theorem wide_bursts : wideWorker.BurstsAtMost ctx 64 := by
  intro n node hnode world head world' hpoll
  obtain ⟨hn, rfl⟩ | ⟨_, rfl⟩ | ⟨_, rfl⟩ := wide_node hnode
  · cases hpoll
    exact burst_chain hn
  · cases hpoll
  · cases hpoll

/-- Only node 8 forwards, and it links upwards. -/
theorem wide_forward {n m : NodeId} (hfwd : wideWorker.MayForward ctx n)
    (hm : m ∈ wideWorker.links n) : n < m := by
  obtain ⟨node, hnode, p, w, w', hcall⟩ := hfwd
  rw [Worker.links_eq hnode] at hm
  obtain ⟨_, rfl⟩ | ⟨rfl, rfl⟩ | ⟨_, rfl⟩ := wide_node hnode
  · cases hcall
  · have : m = 9 := by simpa [forkNode] using hm
    rw [this]
    decide
  · exact absurd hcall sink_drops

theorem wide_cycles : wideWorker.CyclesBroken ctx := by
  intro n hcycle
  have hlt : ∀ a b, Relation.TransGen
      (fun a b => wideWorker.MayForward ctx a ∧ b ∈ wideWorker.links a) a b → a < b := by
    intro a b h
    induction h with
    | single h => exact wide_forward h.1 h.2
    | tail _ h ih => exact ih.trans (wide_forward h.1 h.2)
  exact absurd (hlt n n hcycle) (Nat.lt_irrefl n)

end Sample

/-- **Full bursts overrun the queue**: with every cycle broken and every burst within 64,
the first call after eight polls writes slot 2048. -/
theorem Worker.full_bursts_overrun :
    Sample.wideWorker.BurstsAtMost Sample.ctx 64 ∧ Sample.wideWorker.CyclesBroken Sample.ctx ∧
      ∃ evs s, Run (Worker.Step true (fun _ => false) Sample.wideWorker Sample.ctx)
          (Loop.initial Sample.world) evs s ∧
        Sample.wideWorker.step true (fun _ => false) Sample.ctx s = .error .queueOverrun := by
  refine ⟨Sample.wide_bursts, Sample.wide_cycles, ?_⟩
  obtain ⟨s, hrun, hover⟩ := Run.exists_of_iterate
    (Sample.wideWorker.step true (fun _ => false) Sample.ctx) 10 (Loop.initial Sample.world)
    Sample.wideRound Sample.overruns (by decide +kernel)
  refine ⟨_, s, hrun, ?_⟩
  unfold Sample.overruns at hover
  split at hover
  · assumption
  · cases hover

end OmniStack
