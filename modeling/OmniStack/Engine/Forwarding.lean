import OmniStack.Engine.Moves

/-! Exactly-once forwarding.

In every iteration of the worker's outer loop the calls of a node's `process` on a
packet are as many as the links over which the packet arrives there: one for every
poll that returned it and every call that returned `Ok`, times the configured links
from that node. The law is the conservation law of the task stack (`Move.run_perm`)
between two moments at which the stack is empty. -/
namespace OmniStack
open Lib
namespace Worker
variable {σ : Type}

def isCall (m : NodeId) (p : PacketId) : Event → Bool
  | .called n q _ => decide (n = m ∧ q = p)
  | _ => false

/-- The calls of `process` on packet `p` at node `m`. -/
def callCount (evs : List Event) (m : NodeId) (p : PacketId) : Nat := evs.countP (isCall m p)

/-- How often an event sends packet `p` to node `m`, `links n m` links leading from
`n` to `m`. -/
def sendsOf (links : NodeId → NodeId → Nat) (m : NodeId) (p : PacketId) : Event → Nat
  | .polled n burst => burst.count p * links n m
  | .called n q (.ok ()) => if q = p then links n m else 0
  | _ => 0

def sendCount (links : NodeId → NodeId → Nat) (evs : List Event) (m : NodeId)
    (p : PacketId) : Nat :=
  (evs.map (sendsOf links m p)).sum

/-! ### The stack counted -/

theorem count_linkTasks (ps : List PacketId) (id m : NodeId) (p : PacketId) :
    (linkTasks ps id).count ⟨m, some p⟩ = if id = m then ps.count p else 0 := by
  induction ps with
  | nil => simp [linkTasks]
  | cons q ps ih =>
    simp only [linkTasks, List.map_cons, List.count_cons] at ih ⊢
    rw [ih]
    by_cases hid : id = m <;> simp [hid]

theorem count_burst (ps : List PacketId) (links : List NodeId) (m : NodeId) (p : PacketId) :
    (links.flatMap (linkTasks ps)).count ⟨m, some p⟩ = ps.count p * links.count m := by
  induction links with
  | nil => simp
  | cons id rest ih =>
    rw [List.flatMap_cons, List.count_append, count_linkTasks, ih, List.count_cons]
    by_cases hid : id = m
    · simp [hid, Nat.mul_add, Nat.add_comm]
    · simp [hid]

theorem count_forward (links : List NodeId) (q p : PacketId) (m : NodeId) :
    (links.map fun k => (⟨k, some q⟩ : Task)).count ⟨m, some p⟩ =
      if q = p then links.count m else 0 := by
  induction links with
  | nil => simp
  | cons id rest ih =>
    rw [List.map_cons, List.count_cons, ih, List.count_cons]
    by_cases hq : q = p <;> simp [hq]

theorem count_pushed (w : Worker σ) (ev : Event) (m : NodeId) (p : PacketId) :
    (w.moveOf ev).pushed.count ⟨m, some p⟩ = sendsOf (fun n m => (w.links n).count m) m p ev := by
  cases ev with
  | enter | leave | idle | pollEnd | drained | failed => rfl
  | polled n burst => exact count_burst burst _ m p
  | called n q res =>
    cases res with
    | ok u => exact count_forward _ q p m
    | error e => rfl

theorem count_popped (w : Worker σ) (evs : List Event) (m : NodeId) (p : PacketId) :
    ((evs.map w.moveOf).flatMap Move.popped).count ⟨m, some p⟩ = callCount evs m p := by
  induction evs with
  | nil => rfl
  | cons ev evs ih =>
    have hev : (w.moveOf ev).popped.count ⟨m, some p⟩ = if isCall m p ev then 1 else 0 := by
      cases ev with
      | enter | leave | idle | pollEnd | drained | failed | polled => rfl
      | called n q res => cases res <;> simp [moveOf, isCall, List.count_cons]
    rw [List.map_cons, List.flatMap_cons, List.count_append, ih, hev]
    simp only [callCount, List.countP_cons, Nat.add_comm]

theorem count_sent (w : Worker σ) (evs : List Event) (m : NodeId) (p : PacketId) :
    ((evs.map w.moveOf).flatMap Move.pushed).count ⟨m, some p⟩ =
      sendCount (fun n m => (w.links n).count m) evs m p := by
  induction evs with
  | nil => rfl
  | cons ev evs ih =>
    rw [List.map_cons, List.flatMap_cons, List.count_append, ih, count_pushed]
    rfl

/-! ### Between two empty stacks -/

variable {checks : Bool} {shouldStop : World σ → Bool} {w : Worker σ} {ctx : Context}

/-- At the condition of the outer loop the queue is empty. -/
def TopEmpty (s : Loop σ) : Prop := s.phase = .top → s.queue.index = 0

theorem step_topEmpty {s t : Loop σ} {ev : Event} (_ : TopEmpty s)
    (h : Step checks shouldStop w ctx s ev t) : TopEmpty t := by
  intro ht
  cases step_turn h with
  | drained _ hempty => exact hempty
  | _ => cases ht

/-- In a run of the main loop the queue is empty whenever the outer loop goes round. -/
theorem run_topEmpty {world : World σ} {evs : List Event} {t : Loop σ}
    (h : Run (Step checks shouldStop w ctx) (Loop.initial world) evs t) (ht : t.phase = .top) :
    t.queue.index = 0 :=
  h.invariant (P := TopEmpty) (fun _ _ _ hs hst => step_topEmpty hs hst) (fun _ => rfl) ht

theorem enter_index {s s' : Loop σ} (h : Step checks shouldStop w ctx s .enter s') :
    s'.queue.index = s.queue.index ∧ s.phase = .top := by
  cases step_turn h with
  | enter hphase => exact ⟨rfl, hphase⟩

/-- Between two moments at which the queue is empty, what was sent was called. -/
theorem calls_eq_sends {s t : Loop σ} {evs : List Event}
    (h : Run (Step checks shouldStop w ctx) s evs t) (hs : s.queue.index = 0)
    (ht : t.queue.index = 0) (m : NodeId) (p : PacketId) :
    callCount evs m p = sendCount (fun n m => (w.links n).count m) evs m p := by
  have hnil : ∀ q : ArrayStack Task, q.index = 0 → q.live = [] := by
    intro q hq
    exact List.length_eq_zero_iff.mp (by rw [ArrayStack.live_length, hq])
  have hperm := Move.run_perm (run_moves h)
  rw [hnil _ hs, hnil _ ht, List.nil_append, List.append_nil] at hperm
  rw [← count_popped w evs m p, ← count_sent w evs m p]
  exact (hperm.count_eq _).symm

/-- **Exactly-once forwarding.** From any turn of the outer loop to the end of the
drain loop, whatever the modules do: the calls of `process` at a node on a packet are
the polled and forwarded occurrences of the packet over configured links to that
node, and the queue is empty again. -/
theorem forwarded_exactly_once {factory : Graph.Factory σ} {graphId cpu : UInt32}
    {config : GraphConfig} {g : Graph σ} (hgraph : Graph.new factory graphId config cpu = .ok g)
    (hnames : config.modules.Nodup) {id : UInt32} {stackName : String} {w₀ w : Worker σ}
    (hworker : Worker.new id stackName g.id g.nodes g.cpu = .ok w₀) {ctx : Context}
    {world₀ world : World σ} (hstart : w₀.start ctx world₀ = .ok (.ok w, world))
    {checks : Bool} {shouldStop : World σ → Bool} {before evs : List Event} {s s' t : Loop σ}
    (hbefore : Run (Step checks shouldStop w ctx) (Loop.initial world) before s)
    (henter : Step checks shouldStop w ctx s .enter s')
    (hrun : Run (Step checks shouldStop w ctx) s' evs t) (htop : t.phase = .top) :
    t.queue.index = 0 ∧
      ∀ m p, callCount evs m p = sendCount (Graph.linkCount config) evs m p := by
  obtain ⟨hindex, hphase⟩ := enter_index henter
  have hs : s'.queue.index = 0 := by rw [hindex, run_topEmpty hbefore hphase]
  have ht : t.queue.index = 0 := run_topEmpty ((hbefore.snoc henter).append hrun) htop
  refine ⟨ht, fun m p => ?_⟩
  have hlinks : (fun n m => (w.links n).count m) = Graph.linkCount config := by
    funext n m
    rw [links, start_nodes hstart, new_nodes hworker]
    exact Graph.new_count hgraph hnames n m
  rw [calls_eq_sends hrun hs ht m p, hlinks]

end Worker

/-! ### A source, a relay and a sink

Small modules that keep the pool's rules, for runs on concrete graphs. -/
namespace Sample

def ctx : Context := ⟨0, 0, 0, 0, "sample"⟩

def pkt : Packet where
  len := 100
  l2Header := ⟨0, 0⟩
  l3Header := ⟨0, 0⟩
  l4Header := ⟨0, 0⟩
  offset := 64
  data := .own 0
  next := none
  nic := 0
  threadId := 0
  refcnt := 1
  bufTy := .localBuf

/-- Four packets, all in the pool. -/
def world : World Unit where
  pkts := fun _ => pkt
  mem := fun _ _ => 0
  mbufs := fun _ => ⟨(.room 0, 0), 0, 0, 0, 0, none, 0, 0, 0, 0⟩
  free := fun p => if p < 4 then 1 else 0
  held := fun _ => 0
  log := []
  rawFreed := []
  wire := []
  env := ()

/-- Chain the packets in the order of the list. -/
def linkChain (w : World Unit) : List PacketId → World Unit
  | [] => w
  | p :: ps => (linkChain w ps).setPkt p {w.pkts p with next := ps.head?}

theorem linkChain_chain (w : World Unit) {ps : List PacketId} (hnodup : ps.Nodup) :
    Worker.ChainOf (linkChain w ps).pkts ps.head? ps := by
  induction ps with
  | nil => exact .nil
  | cons p ps ih =>
    obtain ⟨hp, hps⟩ := List.nodup_cons.mp hnodup
    refine .cons ?_
    have hnext : ((linkChain w (p :: ps)).pkts p).next = ps.head? := by simp [linkChain]
    rw [hnext]
    refine (ih hps).congr fun q hq => ?_
    have hne : q ≠ p := fun h => hp (h ▸ hq)
    rw [linkChain, World.setPkt_pkts_ne _ _ hne]

/-- Gives the packet back, as `UserNode::process` does. -/
def giveBack (ctx : Context) (p : PacketId) (w : World Unit) :
    Exec (Result Unit × World Unit) := do
  return (.error .dropped, ← PacketPool.deallocate true p ctx.threadId w)

/-- Allocates the packets `p :: ps`, if they are in the pool, and hands out their chain. -/
def source (p : PacketId) (ps : List PacketId) : Module Unit where
  process := giveBack
  poll := fun _ w =>
    if (p :: ps).all (fun q => w.free q == 1) then
      .ok (.ok p, linkChain (PacketPool.take w (p :: ps)) (p :: ps))
    else .ok (.error .nop, w)
  capability := ⟨true, true⟩

def relay : Module Unit where
  process := fun _ _ w => .ok (.ok (), w)

def sink : Module Unit where
  process := giveBack

def factory : Graph.Factory Unit
  | "Source" => some fun _ => source 0 [1]
  | "Relay" => some fun _ => relay
  | "Sink" => some fun _ => sink
  | _ => none

def config : GraphConfig where
  name := "sample"
  modules := ["Source", "Relay", "Sink"]
  links := [("Source", "Relay"), ("Relay", "Sink"), ("Relay", "Sink")]

def graph : Graph Unit where
  id := 0
  cpu := 0
  nodes := [⟨source 0 [1], .ofTake [1]⟩, ⟨relay, .ofTake [2, 2]⟩, ⟨sink, .empty⟩]

def worker : Worker Unit where
  nodes := ⟨graph.nodes, by decide⟩
  nodesToPoll := .ofTake [0]
  id := 0
  graphId := 0
  cpu := 0
  stackName := "sample"

/-- The events of one turn of the outer loop, the second packet drained first. -/
def turn : List Event :=
  [.polled 0 [0, 1], .pollEnd, .called 1 1 (.ok ()), .called 2 1 (.error .dropped),
    .called 2 1 (.error .dropped), .called 1 0 (.ok ()), .called 2 0 (.error .dropped),
    .called 2 0 (.error .dropped), .drained]

def atTop (t : Loop Unit) : Bool :=
  match t.phase with
  | .top => true
  | _ => false

theorem phase_of_atTop {t : Loop Unit} (h : atTop t = true) : t.phase = .top := by
  unfold atTop at h
  split at h
  · assumption
  · cases h

end Sample

theorem Worker.forwarded_exactly_once_sample :
    ∃ t, Run (Worker.Step true (fun _ => false) Sample.worker Sample.ctx)
        {Loop.initial Sample.world with phase := .poll [0]} Sample.turn t ∧
      t.queue.index = 0 ∧ ∀ m p, Worker.callCount Sample.turn m p =
        Worker.sendCount (Graph.linkCount Sample.config) Sample.turn m p := by
  obtain ⟨t, hrun, htop⟩ := Run.exists_of_iterate
    (Sample.worker.step true (fun _ => false) Sample.ctx) 9
    {Loop.initial Sample.world with phase := .poll [0]} Sample.turn Sample.atTop (by decide +kernel)
  have hgraph : Graph.new Sample.factory 0 Sample.config 0 = .ok Sample.graph := rfl
  have hworker : Worker.new 0 "sample" Sample.graph.id Sample.graph.nodes Sample.graph.cpu =
      .ok {Sample.worker with nodesToPoll := .empty} := rfl
  have hstart : Worker.start {Sample.worker with nodesToPoll := .empty} Sample.ctx Sample.world =
      .ok (.ok Sample.worker, Sample.world) := rfl
  have henter : Worker.Step true (fun _ => false) Sample.worker Sample.ctx
      (Loop.initial Sample.world) .enter {Loop.initial Sample.world with phase := .poll [0]} := rfl
  exact ⟨t, hrun, Worker.forwarded_exactly_once hgraph (by decide) hworker hstart (.nil _) henter
    hrun (Sample.phase_of_atTop htop)⟩

end OmniStack
