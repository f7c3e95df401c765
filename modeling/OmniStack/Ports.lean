import OmniStack.Config
import OmniStack.Lib.Run
import Mathlib.Logic.Function.Basic

/-! Bringing up the network cards.

The IO node of every worker initializes an adapter for each card of the configuration, in
order. All of these calls go through one `Once` and wait for one flag, whatever their port.

A turn is what one worker does up to the next point where another can come in between. What
the library answers is a parameter. A worker that panics stays where it is; the others may
go on or not. -/
namespace OmniStack
open Lib

namespace Ports

def numAdapterMax : Nat := 16
def rxRingSize : UInt16 := 2048
def txRingSize : UInt16 := 2048

/-- The name of the mbuf pool of a port. -/
def poolName (port : UInt16) : String := "mbuf_pool_p" ++ toString port.toNat

/-- What the library answers when a port is set up; a call that returns 0 is `true`. -/
structure EthDev where
  isValidPort : Bool
  infoGet : Bool
  adjustNbRxTxDesc : UInt16 → UInt16 → Option (UInt16 × UInt16)
  configure : (nbRxQueue nbTxQueue : UInt16) → Bool
  flowFlush : Bool
  /-- `rte_eth_dev_socket_id`, as `u32` -/
  socketId : UInt32
  pktmbufPoolCreate : String → UInt32 → Bool
  /-- the port info asked for by `default_rx_conf`, for a queue -/
  defaultRxConf : UInt16 → Bool
  rxQueueSetup : (queue nbRxDesc : UInt16) → UInt32 → Bool
  defaultTxConf : UInt16 → Bool
  txQueueSetup : (queue nbTxDesc : UInt16) → UInt32 → Bool
  start : Bool
  promiscuousEnable : Bool

/-- A condition whose failure panics. -/
def ensure (cond : Bool) : Exec Unit := if cond then .ok () else .error .panic

namespace EthDev

/-- One turn of the loop over the queues. -/
def queueSetup (dev : EthDev) (socketId : UInt32) (rxDesc txDesc queue : UInt16) : Exec Unit := do
  ensure (dev.defaultRxConf queue)
  ensure (dev.rxQueueSetup queue rxDesc socketId)
  ensure (dev.defaultTxConf queue)
  ensure (dev.txQueueSetup queue txDesc socketId)

def queuesSetup (dev : EthDev) (socketId : UInt32) (rxDesc txDesc : UInt16) : List Nat → Exec Unit
  | [] => .ok ()
  | queue :: rest => do
    dev.queueSetup socketId rxDesc txDesc (UInt16.ofNat queue)
    dev.queuesSetup socketId rxDesc txDesc rest

/-- `port_init`, on a core of socket `socketId`: the mbuf pool it has made, if any. A pool that
could not be created is not noticed. -/
def portInit (dev : EthDev) (socketId : UInt32) (port numQueues : UInt16) :
    Exec (Option String) := do
  ensure dev.isValidPort
  ensure dev.infoGet
  let (rxDesc, txDesc) ← unwrap (dev.adjustNbRxTxDesc rxRingSize txRingSize)
  ensure (dev.configure numQueues numQueues)
  ensure dev.flowFlush
  ensure (socketId == dev.socketId)
  let created := dev.pktmbufPoolCreate (poolName port) socketId
  dev.queuesSetup socketId rxDesc txDesc (List.range numQueues.toNat)
  ensure dev.start
  ensure dev.promiscuousEnable
  return if created then some (poolName port) else none

/-- The calls that configure the port and create its mbuf pool succeed. -/
structure Succeeds (dev : EthDev) : Prop where
  isValidPort : dev.isValidPort = true
  infoGet : dev.infoGet = true
  adjustNbRxTxDesc : ∀ rx tx, (dev.adjustNbRxTxDesc rx tx).isSome
  configure : ∀ rx tx, dev.configure rx tx = true
  flowFlush : dev.flowFlush = true
  pktmbufPoolCreate : ∀ name socketId, dev.pktmbufPoolCreate name socketId = true
  defaultRxConf : ∀ queue, dev.defaultRxConf queue = true
  rxQueueSetup : ∀ queue desc socketId, dev.rxQueueSetup queue desc socketId = true
  defaultTxConf : ∀ queue, dev.defaultTxConf queue = true
  txQueueSetup : ∀ queue desc socketId, dev.txQueueSetup queue desc socketId = true
  start : dev.start = true
  promiscuousEnable : dev.promiscuousEnable = true

variable {dev : EthDev}

theorem Succeeds.queuesSetup (h : dev.Succeeds) (socketId : UInt32) (rxDesc txDesc : UInt16)
    (queues : List Nat) : dev.queuesSetup socketId rxDesc txDesc queues = .ok () := by
  induction queues with
  | nil => rfl
  | cons queue rest ih =>
    have hone : dev.queueSetup socketId rxDesc txDesc (UInt16.ofNat queue) = .ok () := by
      simp only [queueSetup, h.defaultRxConf, h.rxQueueSetup, h.defaultTxConf, h.txQueueSetup]
      rfl
    rw [EthDev.queuesSetup, hone]
    exact ih

/-- Where the calls succeed, only the assertion about the sockets can fail. -/
theorem Succeeds.portInit (h : dev.Succeeds) (socketId : UInt32) (port numQueues : UInt16) :
    dev.portInit socketId port numQueues =
      if socketId = dev.socketId then .ok (some (poolName port)) else .error .panic := by
  obtain ⟨desc, hdesc⟩ := Option.isSome_iff_exists.mp (h.adjustNbRxTxDesc rxRingSize txRingSize)
  simp only [EthDev.portInit, h.isValidPort, h.infoGet, hdesc, h.configure, h.flowFlush,
    h.pktmbufPoolCreate, h.queuesSetup, h.start, h.promiscuousEnable]
  by_cases hs : socketId = dev.socketId
  · rw [if_pos hs, beq_iff_eq.mpr hs]
    rfl
  · rw [if_neg hs, beq_eq_false_iff_ne.mpr hs]
    rfl

end EthDev

/-- `std::sync::Once`, where `running` names the worker inside. -/
inductive InitOnce (W : Type) where
  | fresh
  | running (w : W)
  | complete
  | poisoned

/-- A call of `Dpdk::init`: the index of the card in the configuration and the queue. -/
@[ext]
structure Call (nics : List NicConfig) where
  nic : Fin nics.length
  queue : UInt16
  deriving DecidableEq

def Call.port {nics : List NicConfig} (call : Call nics) : UInt16 := nics[call.nic].port

theorem Call.card_mem {nics : List NicConfig} (call : Call nics) : nics[call.nic] ∈ nics :=
  List.getElem_mem call.nic.isLt

/-- How far a worker has come in `IoNode::init`. -/
inductive Stage (nics : List NicConfig) where
  | start
  /-- before `call_once` -/
  | calling (call : Call nics)
  /-- in `port_init` -/
  | initializing (call : Call nics)
  /-- for the flag -/
  | waiting (call : Call nics)
  /-- the adapter has its port and its queue -/
  | adapting (call : Call nics)
  | done
  /-- `Dpdk::init` has panicked or has returned an error -/
  | failed
  /-- the index of the card is past the end of `nic_to_mac` -/
  | crashed
  deriving DecidableEq

/-- No turn is left. -/
def Stage.over {nics : List NicConfig} : Stage nics → Bool
  | done | failed | crashed => true
  | _ => false

/-- A port that `port_init` has set up. -/
structure Port where
  port : UInt16
  numQueues : UInt16
  deriving DecidableEq

structure System (W : Type) (nics : List NicConfig) where
  initOnce : InitOnce W
  initDone : Bool
  /-- the mbuf pools created so far -/
  pools : List String
  /-- the workers that have drawn from `QUEUE_ID`, the first one first -/
  begun : List W
  /-- the ports `port_init` was called for -/
  started : List UInt16
  /-- those for which it has returned -/
  ports : List Port
  /-- the adapters that have a port and a queue -/
  adapters : List (W × Call nics)
  /-- the calls that have returned `Ok` -/
  returned : List (W × Call nics)
  stages : W → Stage nics

/-- The value of `QUEUE_ID`. -/
def System.queueId {W : Type} {nics : List NicConfig} (s : System W nics) : UInt16 :=
  UInt16.ofNat s.begun.length

def initial {W : Type} {nics : List NicConfig} : System W nics where
  initOnce := .fresh
  initDone := false
  pools := []
  begun := []
  started := []
  ports := []
  adapters := []
  returned := []
  stages := fun _ => .start

/-- Where the workers run and what the library answers them. -/
structure Platform (W : Type) where
  /-- `rte_socket_id` on the worker's core -/
  socketId : W → UInt32
  dev : UInt16 → EthDev
  /-- `rte_pktmbuf_alloc_bulk` for the adapter of a card -/
  pktmbufAllocBulk : W → Nat → Bool
  ethMacaddrGet : W → Nat → Bool

/-- The head of the loop over the cards, at the card with this index. -/
def enter {nics : List NicConfig} (nic : Nat) (queue : UInt16) : Stage nics :=
  if h : nic < nics.length then .calling ⟨⟨nic, h⟩, queue⟩ else .done

/-- Where a worker is after a call that returns `Ok`. -/
def next {nics : List NicConfig} (call : Call nics) : Stage nics :=
  if call.nic < numAdapterMax then enter (call.nic + 1) call.queue else .crashed

section
variable {W : Type} [DecidableEq W] {nics : List NicConfig}

def System.move (s : System W nics) (w : W) (stage : Stage nics) : System W nics :=
  {s with stages := Function.update s.stages w stage}

@[simp] theorem move_stages_self (s : System W nics) (w : W) (stage : Stage nics) :
    (s.move w stage).stages w = stage :=
  Function.update_self ..

theorem move_stages_of_ne (s : System W nics) {v w : W} (stage : Stage nics) (h : v ≠ w) :
    (s.move w stage).stages v = s.stages v :=
  Function.update_of_ne h ..

variable (env : Platform W) (numQueues : W → UInt16)

/-- The next turn of a worker whose graph entry lists `numQueues w` cpus. -/
def turn (w : W) (s : System W nics) : Option (System W nics) :=
  match s.stages w with
  | .start => some {s.move w (enter 0 s.queueId) with begun := s.begun ++ [w]}
  | .calling call =>
    match s.initOnce with
    | .fresh =>
      some {s.move w (.initializing call) with
        initOnce := .running w
        started := s.started ++ [call.port]}
    | .running _ => none
    | .complete => some (s.move w (.waiting call))
    | .poisoned => some (s.move w .failed)
  | .initializing call =>
    match (env.dev call.port).portInit (env.socketId w) call.port (numQueues w) with
    | .ok pool =>
      some {s.move w (.waiting call) with
        initOnce := .complete
        initDone := true
        pools := s.pools ++ pool.toList
        ports := s.ports ++ [⟨call.port, numQueues w⟩]}
    | .error _ => some {s.move w .failed with initOnce := .poisoned}
  | .waiting call =>
    if s.initDone then
      some {s.move w (.adapting call) with adapters := s.adapters ++ [(w, call)]}
    else none
  | .adapting call =>
    if poolName call.port ∈ s.pools ∧ env.pktmbufAllocBulk w call.nic ∧
        env.ethMacaddrGet w call.nic then
      some {s.move w (next call) with returned := s.returned ++ [(w, call)]}
    else some (s.move w .failed)
  | .done | .failed | .crashed => none

/-- What a turn can be. -/
inductive Turned (w : W) (s : System W nics) : System W nics → Prop where
  | begin : s.stages w = .start →
    Turned w s {s.move w (enter 0 s.queueId) with begun := s.begun ++ [w]}
  | callFirst {call : Call nics} : s.stages w = .calling call → s.initOnce = .fresh →
    Turned w s {s.move w (.initializing call) with
      initOnce := .running w
      started := s.started ++ [call.port]}
  | callAgain {call : Call nics} : s.stages w = .calling call → s.initOnce = .complete →
    Turned w s (s.move w (.waiting call))
  | callPoisoned {call : Call nics} : s.stages w = .calling call → s.initOnce = .poisoned →
    Turned w s (s.move w .failed)
  | portInit {call : Call nics} {pool : Option String} : s.stages w = .initializing call →
    (env.dev call.port).portInit (env.socketId w) call.port (numQueues w) = .ok pool →
    Turned w s {s.move w (.waiting call) with
      initOnce := .complete
      initDone := true
      pools := s.pools ++ pool.toList
      ports := s.ports ++ [⟨call.port, numQueues w⟩]}
  | portInitPanics {call : Call nics} {e : Fault} : s.stages w = .initializing call →
    (env.dev call.port).portInit (env.socketId w) call.port (numQueues w) = .error e →
    Turned w s {s.move w .failed with initOnce := .poisoned}
  | assigned {call : Call nics} : s.stages w = .waiting call → s.initDone = true →
    Turned w s {s.move w (.adapting call) with adapters := s.adapters ++ [(w, call)]}
  | returns {call : Call nics} : s.stages w = .adapting call → poolName call.port ∈ s.pools →
    env.pktmbufAllocBulk w call.nic = true → env.ethMacaddrGet w call.nic = true →
    Turned w s {s.move w (next call) with returned := s.returned ++ [(w, call)]}
  | adaptFails {call : Call nics} : s.stages w = .adapting call →
    ¬ (poolName call.port ∈ s.pools ∧ env.pktmbufAllocBulk w call.nic ∧
      env.ethMacaddrGet w call.nic) →
    Turned w s (s.move w .failed)

variable {env numQueues} {w : W} {s t : System W nics}

theorem turned (h : turn env numQueues w s = some t) : Turned env numQueues w s t := by
  unfold turn at h
  split at h
  · rename_i hw
    cases h
    exact .begin hw
  · rename_i call hw
    split at h
    · rename_i ho
      cases h
      exact .callFirst hw ho
    · cases h
    · rename_i ho
      cases h
      exact .callAgain hw ho
    · rename_i ho
      cases h
      exact .callPoisoned hw ho
  · rename_i call hw
    split at h
    · rename_i pool hp
      cases h
      exact .portInit hw hp
    · rename_i e hp
      cases h
      exact .portInitPanics hw hp
  · rename_i call hw
    split at h
    · rename_i hd
      cases h
      exact .assigned hw hd
    · cases h
  · rename_i call hw
    split at h
    · rename_i ha
      cases h
      exact .returns hw ha.1 ha.2.1 ha.2.2
    · rename_i ha
      cases h
      exact .adaptFails hw ha
  · cases h
  · cases h
  · cases h

theorem Turned.turn (h : Turned env numQueues w s t) : turn env numQueues w s = some t := by
  cases h with
  | begin hw => simp only [Ports.turn, hw]
  | callFirst hw ho | callAgain hw ho | callPoisoned hw ho => simp only [Ports.turn, hw, ho]
  | portInit hw hp | portInitPanics hw hp => simp only [Ports.turn, hw, hp]
  | assigned hw hd => simp only [Ports.turn, hw, hd, if_true]
  | returns hw hp ha hm => simp only [Ports.turn, hw, hp, ha, hm, and_self, if_true]
  | adaptFails hw ha => simp only [Ports.turn, hw, ha, if_false]

end

end Ports
end OmniStack
