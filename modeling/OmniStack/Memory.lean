import OmniStack.Lib.Blocks
import OmniStack.ThreadId

/-! Memory pools and their per-thread caches.

A pool is a header and an array of cache pointers, one for each thread id, in a memory zone
of the packet library; the header and the pool's private data both point at the array.
`get_or_create` is serialized by a lock, so a call is one step. The library answers every
call for a zone or a mempool with an address or with nothing (`Answers`). -/
namespace OmniStack
open Lib

def cacheLineSize : Nat := 64

/-- `size_of::<MemoryPool>()` -/
def sizeOfMemoryPool : Nat := 24

/-- A `MemoryPool`, three words in memory. -/
structure MemoryPool where
  mp : Nat
  socketId : UInt32
  /-- the array of cache pointers -/
  cachePerThread : Nat

/-- What the pools use of the library beside its answers. -/
structure MempoolLib where
  /-- `rte_mempool_get_priv` -/
  getPriv : Nat → Nat
  /-- `size_of::<rte_mempool>()` -/
  sizeOfMempool : Nat
  /-- the bytes a mempool's header and private data take -/
  mempoolLen : Nat

/-- The addresses the library gives when it is asked for a zone and for a mempool. -/
structure Answers where
  zone : Option Nat
  mp : Option Nat

structure Memzone where
  name : String
  addr : Nat

/-- A creation that was completed: the name, the zone's address and what was written there. -/
structure Creation where
  name : String
  addr : Nat
  pool : MemoryPool

structure Memory where
  words : Words
  zones : List Memzone
  /-- every block the library has handed out -/
  blocks : List Block
  /-- `GUARD` is poisoned by a panic while it is held -/
  poisoned : Bool
  /-- the creations that were completed, in order -/
  made : List Creation

inductive Outcome where
  | ok (pool : Nat)
  | exhausted
  | panicked
  deriving DecidableEq

/-- The zone's length: the header up to a cache line, and a pointer for every thread. -/
def memzoneLen : Nat :=
  (sizeOfMemoryPool + cacheLineSize - 1) / cacheLineSize * cacheLineSize + 8 * maxThreadNum

/-- The first multiple of a cache line from `addr` on. -/
def alignUp (addr : Nat) : Nat := (addr + cacheLineSize - 1) / cacheLineSize * cacheLineSize

namespace Memory

def initial (words : Words) : Memory := ⟨words, [], [], false, []⟩

/-- The `MemoryPool` at an address. -/
def pool (m : Memory) (addr : Nat) : MemoryPool :=
  ⟨m.words addr, UInt32.ofNat (m.words (addr + 8)), m.words (addr + 16)⟩

def storePool (m : Memory) (addr : Nat) (pool : MemoryPool) : Memory :=
  let words := m.words.store addr pool.mp
  let words := words.store (addr + 8) pool.socketId.toNat
  {m with words := words.store (addr + 16) pool.cachePerThread}

def zoneBlock (addr : Nat) : Block := ⟨addr, memzoneLen⟩

def mempoolBlock (lib : MempoolLib) (mp : Nat) : Block := ⟨mp, lib.mempoolLen⟩

/-- `rte_memzone_lookup` -/
def lookup (m : Memory) (zoneName : String) : Option Memzone :=
  m.zones.find? fun zone => zone.name = zoneName

/-- `rte_memzone_reserve_aligned` has given the zone. -/
def reserve (m : Memory) (zoneName : String) (addr : Nat) : Memory :=
  {m with zones := m.zones ++ [⟨zoneName, addr⟩], blocks := m.blocks ++ [zoneBlock addr]}

/-- `rte_mempool_create` has given the mempool. -/
def createMempool (lib : MempoolLib) (m : Memory) (mp : Nat) : Memory :=
  {m with blocks := m.blocks ++ [mempoolBlock lib mp]}

end Memory

def zoneName (name : String) : String := "zone_" ++ name

namespace MemoryPool

/-- What a creation writes to its zone. -/
def created (socketId : UInt32) (addr mp : Nat) : MemoryPool :=
  ⟨mp, socketId, alignUp (addr + sizeOfMemoryPool)⟩

/-- The end of a creation: the pointer to the caches in the mempool's private data. -/
def setPriv (lib : MempoolLib) (name : String) (addr : Nat) (pool : MemoryPool) (m : Memory) :
    Memory :=
  {m with
    words := m.words.store (lib.getPriv pool.mp) pool.cachePerThread
    made := m.made ++ [⟨name, addr, pool⟩]}

/-- The creation once zone and mempool are there. -/
def finish (lib : MempoolLib) (checks : Bool) (name : String) (socketId : UInt32) (addr mp : Nat)
    (m : Memory) : Outcome × Memory :=
  let pool := created socketId addr mp
  let m := m.storePool addr pool
  if checks && decide (pool.cachePerThread % 64 ≠ 0) then (.panicked, m)
  else if lib.getPriv mp = 0 then (.panicked, m)
  else (.ok addr, setPriv lib name addr pool m)

/-- The names that pass the assertion on their length and `CString::new`. -/
def Admissible (name : String) : Prop := name.utf8ByteSize ≤ 24 ∧ Char.ofNat 0 ∉ name.toList

instance (name : String) : Decidable (Admissible name) := inferInstanceAs (Decidable (_ ∧ _))

/-- The body of `get_or_create`, under the lock. -/
def getOrCreateLocked (lib : MempoolLib) (checks : Bool) (answers : Answers) (name : String)
    (socketId : UInt32) (m : Memory) : Outcome × Memory :=
  if ¬ Admissible name then (.panicked, m)
  else match m.lookup (zoneName name) with
    | some zone => if zone.addr = 0 then (.panicked, m) else (.ok zone.addr, m)
    | none =>
      match answers.zone with
      | none => (.exhausted, m)
      | some addr =>
        let m := m.reserve (zoneName name) addr
        match answers.mp with
        -- the zone stays
        | none => (.exhausted, m)
        | some mp => finish lib checks name socketId addr mp (m.createMempool lib mp)

/-- `MemoryPool::get_or_create`. The numbers and sizes of objects are the library's concern. -/
def getOrCreate (lib : MempoolLib) (checks : Bool) (answers : Answers) (name : String)
    (socketId : UInt32) (m : Memory) : Outcome × Memory :=
  if m.poisoned then (.panicked, m)
  else match getOrCreateLocked lib checks answers name socketId m with
    | (.panicked, m) => (.panicked, {m with poisoned := true})
    | (outcome, m) => (outcome, m)

end MemoryPool
end OmniStack
