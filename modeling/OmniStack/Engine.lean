import OmniStack.Lib.ArrayVec
import OmniStack.Lib.Run
import OmniStack.Config
import OmniStack.Module

/-! The engine: graphs of modules, and the worker that runs one.

`Graph.new` resolves a configured graph's names to node indices; `Worker.start`
initializes the modules and collects the nodes to poll; `Worker.step` is one turn of
one of the three loops of `Worker::run`:

- `while !should_stop()`, at its condition (`Phase.top`);
- the `for` over the nodes to poll, with those still to visit (`Phase.poll`);
- `while index != 0`, the drain loop (`Phase.drain`).

Every step reports what it did as an `Event`. A run is any sequence of steps. -/
namespace OmniStack
open Lib

abbrev NodeId := Nat

/-- `usize::MAX` -/
def invalidNodeId : NodeId := 2 ^ 64 - 1

structure Task where
  nodeId : NodeId
  data : Option PacketId
  deriving DecidableEq

namespace Task

def default : Task := ⟨invalidNodeId, none⟩

end Task

/-- Why the worker itself goes wrong. -/
inductive EngineFault where
  /-- a write to `task_queue` at or beyond its size -/
  | queueOverrun
  /-- an unchecked access to `nodes` beyond its length -/
  | badNode
  /-- a task's null packet pointer dereferenced -/
  | nullPacket
  /-- `links_to.len() - 1` below zero -/
  | overflow
  /-- a fault inside a module -/
  | inModule (f : Fault)
  /-- `run` has returned -/
  | returned
  deriving DecidableEq, Repr

structure Node (σ : Type) where
  module : Module σ
  linksTo : ArrayVec NodeId 4

namespace Node

def fromModule {σ : Type} (m : Module σ) : Node σ := ⟨m, .empty⟩

end Node

structure Graph (σ : Type) where
  id : UInt32
  cpu : UInt32
  nodes : List (Node σ)

namespace Graph
variable {σ : Type}

/-- The module registry: a builder for each registered name. The instance built for a
node is told apart from the others by the node's index. -/
abbrev Factory (σ : Type) := String → Option (NodeId → Module σ)

def buildNodes (factory : Factory σ) : List String → NodeId → Exec (List (Node σ))
  | [], _ => .ok []
  | name :: rest, id => do
    let build ← unwrap (factory name)
    return Node.fromModule (build id) :: (← buildNodes factory rest (id + 1))

/-- The index of the first module of that name. -/
def resolve (modules : List String) (name : String) : Exec NodeId :=
  unwrap (modules.findIdx? (· == name))

/-- `nodes[src_idx].links_to.push(NodeId(dst_idx))` -/
def addLink (nodes : List (Node σ)) (srcIdx dstIdx : NodeId) : Exec (List (Node σ)) := do
  let node ← unwrap nodes[srcIdx]?
  return nodes.set srcIdx {node with linksTo := ← node.linksTo.push dstIdx}

def addLinks (modules : List String) (nodes : List (Node σ)) :
    List (String × String) → Exec (List (Node σ))
  | [] => .ok nodes
  | (src, dst) :: rest => do
    let srcIdx ← resolve modules src
    let dstIdx ← resolve modules dst
    addLinks modules (← addLink nodes srcIdx dstIdx) rest

def new (factory : Factory σ) (id : UInt32) (config : GraphConfig) (cpu : UInt32) :
    Exec (Graph σ) := do
  let nodes ← buildNodes factory config.modules 0
  return { id, cpu, nodes := ← addLinks config.modules nodes config.links }

end Graph

/-- A worker, apart from `task_queue`: the run keeps that with its `index`. -/
structure Worker (σ : Type) where
  nodes : ArrayVec (Node σ) 32
  nodesToPoll : ArrayVec NodeId 8
  id : UInt32
  graphId : UInt32
  cpu : UInt32
  stackName : String

def taskQueueSize : Nat := 2048

inductive Phase where
  | top
  | poll (rest : List NodeId)
  | drain
  | done (res : Result Unit)

/-- The state of `Worker::run` between two turns of its loops. -/
structure Loop (σ : Type) where
  /-- `task_queue` and `index` -/
  queue : ArrayStack Task
  phase : Phase
  world : World σ

inductive Event where
  /-- the outer loop goes round once more -/
  | enter
  /-- `should_stop`: the modules are destroyed and `run` returns -/
  | leave
  /-- a poll with nothing to report -/
  | idle (node : NodeId)
  /-- a poll returned a packet, the head of this chain -/
  | polled (node : NodeId) (burst : List PacketId)
  /-- every node has been polled -/
  | pollEnd
  /-- `process` was called on a task's packet -/
  | called (node : NodeId) (pkt : PacketId) (res : Result Unit)
  /-- the drain loop has ended -/
  | drained
  /-- a poll failed and `run` returns its error -/
  | failed (node : NodeId) (e : Error)
  deriving DecidableEq

namespace Worker
variable {σ : Type}

def new (id : UInt32) (stackName : String) (graphId : UInt32) (nodes : List (Node σ))
    (cpu : UInt32) : Exec (Worker σ) := do
  return { nodes := ← ArrayVec.ofList nodes, nodesToPoll := .empty, id, graphId, cpu, stackName }

/-- The loop over `nodes.iter_mut().enumerate()` that initializes the modules. -/
def initNodes (ctx : Context) : List (Node σ) → NodeId → ArrayVec NodeId 8 → World σ →
    Exec (Result (ArrayVec NodeId 8) × World σ)
  | [], _, toPoll, world => .ok (.ok toPoll, world)
  | node :: rest, id, toPoll, world => do
    match ← node.module.init ctx world with
    | (.error e, world) => return (.error e, world)
    | (.ok (), world) =>
      let capa := node.module.capability
      if !capa.process then throw .panic
      let toPoll ← if capa.poll then toPoll.push id else pure toPoll
      initNodes ctx rest (id + 1) toPoll world

/-- `run` up to its main loop: the worker with its nodes to poll. -/
def start (w : Worker σ) (ctx : Context) (world : World σ) :
    Exec (Result (Worker σ) × World σ) := do
  match ← initNodes ctx w.nodes.items 0 w.nodesToPoll world with
  | (.error e, world) => return (.error e, world)
  | (.ok toPoll, world) => return (.ok {w with nodesToPoll := toPoll}, world)

end Worker

/-- The main loop before its first turn. -/
def Loop.initial {σ : Type} (world : World σ) : Loop σ where
  queue := ⟨fun _ => Task.default, 0⟩
  phase := .top
  world := world

namespace Worker
variable {σ : Type}

def callModule {α : Type} (x : Exec α) : Except EngineFault α :=
  match x with
  | .ok a => .ok a
  | .error f => .error (.inModule f)

def getNode (w : Worker σ) (id : NodeId) : Except EngineFault (Node σ) :=
  match w.nodes.items[id]? with
  | some node => .ok node
  | none => .error .badNode

/-- The chain from `head` on, cut at `fuel` packets. -/
def chain (pkts : PacketId → Packet) : Nat → Option PacketId → List PacketId
  | 0, _ => []
  | _ + 1, none => []
  | fuel + 1, some p => p :: chain pkts fuel (pkts p).next

/-- `while !pkt.is_null()`: push a task for every packet of the chain. Each turn
writes a slot, so more turns than the queue has slots overrun it. -/
def pushChain (pkts : PacketId → Packet) (nodeId : NodeId) :
    Nat → Option PacketId → ArrayStack Task → Except EngineFault (ArrayStack Task)
  | _, none, queue => .ok queue
  | 0, some _, _ => .error .queueOverrun
  | fuel + 1, some p, queue =>
    match queue.push taskQueueSize ⟨nodeId, some p⟩ with
    | some queue => pushChain pkts nodeId fuel (pkts p).next queue
    | none => .error .queueOverrun

/-- `for &node_id in &node.links_to` of the poll phase. -/
def pushLinks (pkts : PacketId → Packet) (head : PacketId) :
    List NodeId → ArrayStack Task → Except EngineFault (ArrayStack Task)
  | [], queue => .ok queue
  | id :: rest, queue =>
    match pushChain pkts id (taskQueueSize + 1) (some head) queue with
    | .ok queue => pushLinks pkts head rest queue
    | .error f => .error f

/-- One turn of the `for` over the nodes to poll. -/
def pollNode (w : Worker σ) (ctx : Context) (id : NodeId) (rest : List NodeId) (s : Loop σ) :
    Except EngineFault (Event × Loop σ) := do
  let node ← w.getNode id
  let (res, world) ← callModule (node.module.poll ctx s.world)
  match res with
  | .ok head =>
    let queue ← pushLinks world.pkts head node.linksTo.items s.queue
    return (.polled id (chain world.pkts (taskQueueSize + 1) (some head)),
      { queue, phase := .poll rest, world })
  | .error .nop => return (.idle id, {s with phase := .poll rest, world})
  | .error e => return (.failed id e, {s with phase := .done (.error e), world})

/-- `pkt.refcnt += node.links_to.len() - 1`. Adding `usize::MAX` takes one away. -/
def addRefs (checks : Bool) (refcnt links : Nat) : Except EngineFault Nat :=
  if links = 0 then
    if checks then .error .overflow
    else .ok (if refcnt = 0 then 2 ^ 64 - 1 else refcnt - 1)
  else .ok (refcnt + (links - 1))

/-- One turn of the drain loop, `index` not zero. -/
def drainTask (checks : Bool) (w : Worker σ) (ctx : Context) (s : Loop σ) :
    Except EngineFault (Event × Loop σ) := do
  let (task, queue) := s.queue.pop
  match task.data with
  | none => throw .nullPacket
  | some pkt =>
    let node ← w.getNode task.nodeId
    let (res, world) ← callModule (node.module.process ctx pkt s.world)
    match res with
    | .ok () =>
      let links := node.linksTo.items
      let refcnt ← addRefs checks (world.pkts pkt).refcnt links.length
      let world := world.setPkt pkt {world.pkts pkt with refcnt}
      match queue.pushAll taskQueueSize (links.map fun id => ⟨id, some pkt⟩) with
      | some queue => return (.called task.nodeId pkt (.ok ()), { queue, phase := .drain, world })
      | none => throw .queueOverrun
    | .error .dropped =>
      return (.called task.nodeId pkt (.error .dropped), { queue, phase := .drain, world })
    | .error e =>
      return (.called task.nodeId pkt (.error e), { queue, phase := .done (.error e), world })

def destroyNodes (ctx : Context) : List (Node σ) → World σ → Exec (World σ)
  | [], world => .ok world
  | node :: rest, world => do destroyNodes ctx rest (← node.module.destroy ctx world)

/-- One turn of the loop the run is in. `shouldStop` is the flag the signal handler sets. -/
def step (checks : Bool) (shouldStop : World σ → Bool) (w : Worker σ) (ctx : Context)
    (s : Loop σ) : Except EngineFault (Event × Loop σ) :=
  match s.phase with
  | .top =>
    if shouldStop s.world then do
      let world ← callModule (destroyNodes ctx w.nodes.items s.world)
      return (.leave, {s with phase := .done (.ok ()), world})
    else .ok (.enter, {s with phase := .poll w.nodesToPoll.items})
  | .poll [] => .ok (.pollEnd, {s with phase := .drain})
  | .poll (id :: rest) => w.pollNode ctx id rest s
  | .drain =>
    if s.queue.index = 0 then .ok (.drained, {s with phase := .top})
    else w.drainTask checks ctx s
  | .done _ => .error .returned

/-- The graph of `step`. -/
def Step (checks : Bool) (shouldStop : World σ → Bool) (w : Worker σ) (ctx : Context)
    (s : Loop σ) (ev : Event) (t : Loop σ) : Prop :=
  w.step checks shouldStop ctx s = .ok (ev, t)

end Worker
end OmniStack
