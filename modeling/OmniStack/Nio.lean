import OmniStack.Lib.ArrayVec
import OmniStack.Config
import OmniStack.Module

/-! The IO node: the module that sends through the network adapters and polls them.

An adapter is a state `α` with the operations of the `Adapter` trait. The IO node keeps
the adapters that may have packets to flush in `flushQueue`, below `flushQueueIdx`, and
as bits in `flushFlag`. Accesses the source makes unchecked are faults here when they
miss their array. -/
namespace OmniStack
open Lib

/-- The `Adapter` trait. `stop` only logs. -/
structure Adapter (σ α : Type) where
  init : α → Context → (nic port numQueues queue : UInt16) → World σ →
    Exec (Result MacAddr × α × World σ)
  send : α → Context → PacketId → World σ → Exec (Result Unit × α × World σ)
  recv : α → Context → World σ → Exec (Result PacketId × α × World σ)
  flush : α → Context → World σ → Exec (Result Unit × α × World σ)

structure IoNode (α : Type) where
  flushQueue : Vector UInt8 16
  flushFlag : Nat
  flushQueueIdx : Nat
  adapters : ArrayVec α 16
  nicToMac : Vector MacAddr 16

namespace IoNode
variable {σ α : Type}

def new : IoNode α where
  flushQueue := Vector.replicate 16 0
  flushFlag := 0
  flushQueueIdx := 0
  adapters := .empty
  nicToMac := Vector.replicate 16 MacAddr.new

section
variable (ops : Adapter σ α)

/-- The loop over the stack's network cards. -/
def initNics (builders : String → Option α) (ctx : Context) (numQueues queueId : UInt16) :
    List NicConfig → Nat → IoNode α → World σ → Exec (IoNode α × World σ)
  | [], _, self, w => .ok (self, w)
  | nic :: rest, id, self, w => do
    let adapter ← unwrap (builders nic.adapterName)
    match ← ops.init adapter ctx (UInt16.ofNat id) nic.port numQueues queueId w with
    | (.error _, _, _) => throw .panic
    | (.ok mac, adapter, w) =>
      if h : id < 16 then
        let self := {self with
          nicToMac := self.nicToMac.set id mac
          adapters := ← self.adapters.push adapter}
        initNics builders ctx numQueues queueId rest (id + 1) self w
      else throw .panic

/-- `init`, of a node whose stack is `stackConfig` and whose turn at `QUEUE_ID` is `queueId`. -/
def init (builders : String → Option α) (stackConfig : StackConfig) (queueId : UInt16)
    (ctx : Context) (self : IoNode α) (w : World σ) : Exec (IoNode α × World σ) := do
  let graph ← unwrap stackConfig.graphs[ctx.graphId.toNat]?
  let numQueues := UInt16.ofNat graph.cpus.length
  initNics ops builders ctx numQueues queueId stackConfig.nics 0 self w

/-- `ethh.src = mac` -/
def setSrc (mac : MacAddr) (p : PacketId) (w : World σ) : World σ :=
  w.storeAt p ((w.pkts p).l2Header.offset.toNat + 6) mac.toBytes

/-- Put the adapter in the flush queue, if it is not there. -/
def noteFlush (self : IoNode α) (nic : Nat) : Exec (IoNode α) :=
  if self.flushFlag &&& (1 <<< nic) = 0 then
    if h : self.flushQueueIdx < 16 then
      .ok {self with
        flushQueue := self.flushQueue.set self.flushQueueIdx (UInt8.ofNat nic)
        flushFlag := self.flushFlag ||| (1 <<< nic)
        flushQueueIdx := self.flushQueueIdx + 1}
    else .error .outOfBounds
  else .ok self

def process (ctx : Context) (self : IoNode α) (p : PacketId) (w : World σ) :
    Exec (Result Unit × IoNode α × World σ) := do
  let nic := (w.pkts p).nic.toNat
  let mac ← getUnchecked self.nicToMac[nic]?
  let w := setSrc mac p w
  let adapter ← getUnchecked self.adapters.items[nic]?
  match ← ops.send adapter ctx p w with
  | (.error e, adapter, w) =>
    return (.error e, {self with adapters := self.adapters.set nic adapter}, w)
  | (.ok (), adapter, w) =>
    let self ← noteFlush {self with adapters := self.adapters.set nic adapter} nic
    return (.error .dropped, self, w)

/-- `while self.flush_queue_idx != 0`, from the index on down. -/
def flushAll (ctx : Context) : Nat → IoNode α → World σ → Exec (Result Unit × IoNode α × World σ)
  | 0, self, w => .ok (.ok (), self, w)
  | idx + 1, self, w => do
    let nicToFlush ← getUnchecked self.flushQueue[idx]?
    let nic := nicToFlush.toNat
    let self := {self with
      flushQueueIdx := idx
      flushFlag := self.flushFlag ^^^ (1 <<< nic)}
    let adapter ← getUnchecked self.adapters.items[nic]?
    match ← ops.flush adapter ctx w with
    | (.error e, adapter, w) =>
      return (.error e, {self with adapters := self.adapters.set nic adapter}, w)
    | (.ok (), adapter, w) =>
      flushAll ctx idx {self with adapters := self.adapters.set nic adapter} w

/-- The loop over the adapters, with those already polled. -/
def recvAny (ctx : Context) : List α → List α → World σ →
    Exec (Result PacketId × List α × World σ)
  | polled, [], w => .ok (.error .nop, polled, w)
  | polled, adapter :: rest, w => do
    match ← ops.recv adapter ctx w with
    | (.error .nop, adapter, w) => recvAny ctx (polled ++ [adapter]) rest w
    | (res, adapter, w) => return (res, polled ++ adapter :: rest, w)

def poll (ctx : Context) (self : IoNode α) (w : World σ) :
    Exec (Result PacketId × IoNode α × World σ) := do
  match ← flushAll ops ctx self.flushQueueIdx self w with
  | (.error e, self, w) => return (.error e, self, w)
  | (.ok (), self, w) =>
    let (res, adapters, w) ← recvAny ops ctx [] self.adapters.items w
    return (res, {self with adapters := ← ArrayVec.ofList adapters}, w)

/-- The loop of `destroy`: flush every adapter, whatever comes of it. -/
def flushEach (ctx : Context) : List α → World σ → Exec (World σ)
  | [], w => .ok w
  | adapter :: rest, w => do
    let (_, _, w) ← ops.flush adapter ctx w
    flushEach ctx rest w

def destroy (ctx : Context) (self : IoNode α) (w : World σ) : Exec (World σ) :=
  flushEach ops ctx self.adapters.items w

def capability : ModuleCapa := ⟨true, true⟩

end
end IoNode
end OmniStack
