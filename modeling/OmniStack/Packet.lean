import OmniStack.Error
import OmniStack.Protocol

/-! Packets, the memory behind them and the pool they come from.

A packet is an object of the packet pool; `data` points at the buffer its bytes are
in, its own or a received mbuf's, and `offset` and `len` bound the window of the
buffer that is the packet's current content. The `World` is what a worker's modules
share: the packet objects, the buffers, the mbufs, the pool and whatever else their
behaviour depends on (`env`: their own state, the network cards, the other threads). -/
namespace OmniStack
open Lib

/-- An object of the packet pool. -/
abbrev PacketId := Nat

/-- A `*mut rte_mbuf`; zero is the null pointer. -/
abbrev MbufPtr := Nat

def defaultOffset : UInt16 := 64

structure Header where
  length : UInt16
  offset : UInt16
  deriving DecidableEq

/-- What `Packet::data` points at. -/
inductive Buffer where
  /-- the `buf` of a packet object -/
  | own (p : PacketId)
  /-- the data room of an mbuf -/
  | room (m : MbufPtr)
  deriving DecidableEq

inductive PktBufType where
  | localBuf
  | mbuf (m : MbufPtr)
  deriving DecidableEq

/-- The received mbuf a packet's last reference gives back. -/
def PktBufType.mbufs : PktBufType → List MbufPtr
  | localBuf => []
  | mbuf m => [m]

structure Packet where
  /-- where the window ends, an offset into the buffer like `offset` -/
  len : UInt16
  l2Header : Header
  l3Header : Header
  l4Header : Header
  offset : UInt16
  data : Buffer
  next : Option PacketId
  nic : UInt16
  threadId : UInt32
  /-- far below the range of its word: every reference is a queue slot or an mbuf -/
  refcnt : Nat
  bufTy : PktBufType
  deriving DecidableEq

/-- The free callback's argument and the count of an external buffer. -/
structure SharedInfo where
  fcbOpaque : PacketId
  refcnt : UInt16
  deriving DecidableEq

structure Mbuf where
  bufAddr : Buffer × Nat
  bufIova : UInt64
  bufLen : UInt16
  dataOff : UInt16
  olFlags : UInt64
  shinfo : Option SharedInfo
  pktLen : UInt32
  dataLen : UInt16
  l2Len : UInt16
  l3Len : UInt16
  deriving DecidableEq

/-- What happens to the packet pool's objects. -/
inductive PoolEvent where
  | allocated (p : PacketId)
  | returned (p : PacketId)
  deriving DecidableEq

structure World (σ : Type) where
  pkts : PacketId → Packet
  mem : Buffer → Bytes
  mbufs : MbufPtr → Mbuf
  /-- how many times the pool holds the object: a second return puts it in twice -/
  free : PacketId → Nat
  /-- how many transmissions of the packet the adapters hold -/
  held : PacketId → Nat
  /-- what has happened to the packet pool, in order -/
  log : List PoolEvent
  /-- the received mbufs given back to their pool, in order -/
  rawFreed : List MbufPtr
  /-- the mbufs the cards have taken, with port and queue, in order -/
  wire : List (UInt16 × UInt16 × MbufPtr)
  env : σ

namespace World
variable {σ : Type}

def setPkt (w : World σ) (p : PacketId) (pkt : Packet) : World σ :=
  {w with pkts := fun q => if q = p then pkt else w.pkts q}

def setMem (w : World σ) (b : Buffer) (m : Bytes) : World σ :=
  {w with mem := fun c => if c = b then m else w.mem c}

def setMbuf (w : World σ) (m : MbufPtr) (mbuf : Mbuf) : World σ :=
  {w with mbufs := fun n => if n = m then mbuf else w.mbufs n}

/-- The buffer a packet's data pointer points at. -/
def bytes (w : World σ) (p : PacketId) : Bytes := w.mem (w.pkts p).data

/-- Write to the buffer a packet's data pointer points at, `off` bytes on. -/
def storeAt (w : World σ) (p : PacketId) (off : Nat) (l : List UInt8) : World σ :=
  w.setMem (w.pkts p).data ((w.bytes p).write off l)

@[simp] theorem setPkt_pkts_same (w : World σ) (p : PacketId) (pkt : Packet) :
    (w.setPkt p pkt).pkts p = pkt := by simp [setPkt]

theorem setPkt_pkts_ne (w : World σ) {p q : PacketId} (pkt : Packet) (h : q ≠ p) :
    (w.setPkt p pkt).pkts q = w.pkts q := by simp [setPkt, h]

@[simp] theorem setPkt_mem (w : World σ) (p : PacketId) (pkt : Packet) :
    (w.setPkt p pkt).mem = w.mem := rfl

@[simp] theorem storeAt_pkts (w : World σ) (p : PacketId) (off : Nat) (l : List UInt8) :
    (w.storeAt p off l).pkts = w.pkts := rfl

@[simp] theorem storeAt_bytes (w : World σ) (p : PacketId) (off : Nat) (l : List UInt8) :
    (w.storeAt p off l).bytes p = (w.bytes p).write off l := by simp [storeAt, bytes, setMem]

/-- Writing to a packet's fields, its data pointer apart, leaves its buffer. -/
theorem setPkt_bytes (w : World σ) {p : PacketId} {pkt : Packet}
    (h : pkt.data = (w.pkts p).data) : (w.setPkt p pkt).bytes p = w.bytes p := by
  simp [bytes, h]

/-- What counting references leaves alone: every byte, and every field but the count. -/
def contents (w : World σ) : (Buffer → Bytes) × (PacketId → Packet) :=
  (w.mem, fun p => {w.pkts p with refcnt := 0})

theorem contents_refcnt (w : World σ) (p : PacketId) (refcnt : Nat) :
    (w.setPkt p {w.pkts p with refcnt}).contents = w.contents := by
  refine Prod.ext rfl (funext fun q => ?_)
  show {(w.setPkt p {w.pkts p with refcnt}).pkts q with refcnt := 0} = {w.pkts q with refcnt := 0}
  by_cases hq : q = p
  · rw [hq, setPkt_pkts_same]
  · rw [setPkt_pkts_ne _ _ hq]

/-- Worlds of the same contents show the same window. -/
theorem window_congr {w w' : World σ} (h : w'.contents = w.contents) (p : PacketId) :
    (w'.pkts p).offset = (w.pkts p).offset ∧ (w'.pkts p).len = (w.pkts p).len ∧
      w'.bytes p = w.bytes p := by
  have hmem : w'.mem = w.mem := congrArg Prod.fst h
  have hpkt := congrFun (congrArg Prod.snd h) p
  have hoffset := congrArg Packet.offset hpkt
  have hlen := congrArg Packet.len hpkt
  have hdata := congrArg Packet.data hpkt
  simp only [contents] at hoffset hlen hdata
  exact ⟨hoffset, hlen, by rw [bytes, bytes, hmem, hdata]⟩

@[simp] theorem setMem_mem_same (w : World σ) (b : Buffer) (m : Bytes) :
    (w.setMem b m).mem b = m := by simp [setMem]

end World

namespace Packet

/-- `Packet::len` -/
def lenOf (checks : Bool) (pkt : Packet) : Exec UInt16 := sub16 checks pkt.len pkt.offset

def setLen (checks : Bool) (pkt : Packet) (len : UInt16) : Exec Packet := do
  return {pkt with len := ← add16 checks len pkt.offset}

theorem setLen_ok (checks : Bool) {pkt : Packet} {len : UInt16}
    (h : len.toNat + pkt.offset.toNat < 2 ^ 16) :
    pkt.setLen checks len = .ok {pkt with len := len + pkt.offset} := by
  rw [setLen, add16_ok checks h]
  rfl

/-- The packet's current content: the bytes of its buffer from `offset` to `len`. -/
def window (pkt : Packet) (m : Bytes) : List UInt8 :=
  m.read pkt.offset.toNat (pkt.len.toNat - pkt.offset.toNat)

end Packet

/-! ### The packet pool -/

namespace PacketPool
variable {σ : Type}

/-- Hand out the objects `ps`, which the mempool chose. Nothing in them is reset. -/
def take (w : World σ) : List PacketId → World σ
  | [] => w
  | p :: ps =>
    take {w with
      free := fun q => if q = p then w.free q - 1 else w.free q
      log := w.log ++ [.allocated p]} ps

/-- Handing out is logged, and leaves the packets, the received mbufs and the wire alone. -/
theorem take_spec (w : World σ) (ps : List PacketId) :
    (take w ps).pkts = w.pkts ∧ (take w ps).rawFreed = w.rawFreed ∧ (take w ps).wire = w.wire ∧
      (take w ps).log = w.log ++ ps.map .allocated := by
  induction ps generalizing w with
  | nil => exact ⟨rfl, rfl, rfl, (List.append_nil _).symm⟩
  | cons p rest ih =>
    obtain ⟨hpkts, hfreed, hwire, hlog⟩ := ih {w with
      free := fun q => if q = p then w.free q - 1 else w.free q
      log := w.log ++ [.allocated p]}
    exact ⟨hpkts, hfreed, hwire, by rw [take, hlog, List.append_assoc]; rfl⟩

/-- `rte_mbuf_raw_free` -/
def rawFree (w : World σ) (m : MbufPtr) : World σ := {w with rawFreed := w.rawFreed ++ [m]}

/-- `MemoryPool::deallocate` -/
def put (w : World σ) (p : PacketId) : World σ :=
  {w with
    free := fun q => if q = p then w.free q + 1 else w.free q
    log := w.log ++ [.returned p]}

/-- `PacketPool::deallocate`. The thread only chooses the cache the object goes through. -/
def deallocate (checks : Bool) (p : PacketId) (_threadId : UInt32) (w : World σ) :
    Exec (World σ) :=
  let pkt := w.pkts p
  if pkt.refcnt = 1 then
    match pkt.bufTy with
    | .mbuf m => .ok (put (rawFree w m) p)
    | .localBuf => .ok (put w p)
  else do
    return w.setPkt p {pkt with refcnt := ← subWord checks pkt.refcnt 1}

/-- One reference given up, seen from outside: the last one returns the packet to the pool
and its mbuf to the card's, any other only lowers the count. -/
def DeallocatedOnce (p : PacketId) (w w' : World σ) : Prop :=
  if (w.pkts p).refcnt = 1 then
    w'.log = w.log ++ [.returned p] ∧ w'.rawFreed = w.rawFreed ++ (w.pkts p).bufTy.mbufs
  else
    w'.log = w.log ∧ w'.rawFreed = w.rawFreed ∧ (w'.pkts p).refcnt + 1 = (w.pkts p).refcnt

/-- What has been given back and who holds the packet is the same. -/
structure SameHolding (p : PacketId) (w w' : World σ) : Prop where
  log : w'.log = w.log
  rawFreed : w'.rawFreed = w.rawFreed
  refcnt : (w'.pkts p).refcnt = (w.pkts p).refcnt
  bufTy : (w'.pkts p).bufTy = (w.pkts p).bufTy

theorem SameHolding.trans {p : PacketId} {w w' w'' : World σ} (h : SameHolding p w w')
    (h' : SameHolding p w' w'') : SameHolding p w w'' where
  log := h'.log.trans h.log
  rawFreed := h'.rawFreed.trans h.rawFreed
  refcnt := h'.refcnt.trans h.refcnt
  bufTy := h'.bufTy.trans h.bufTy

theorem deallocate_once {checks : Bool} {p : PacketId} {threadId : UInt32} {w₀ w w' : World σ}
    (hcounted : 1 ≤ (w₀.pkts p).refcnt) (hsame : SameHolding p w₀ w)
    (h : deallocate checks p threadId w = .ok w') : DeallocatedOnce p w₀ w' := by
  simp only [deallocate, hsame.refcnt] at h
  unfold DeallocatedOnce
  rw [← hsame.log, ← hsame.rawFreed, ← hsame.bufTy]
  by_cases hlast : (w₀.pkts p).refcnt = 1
  · rw [if_pos hlast] at h ⊢
    cases hty : (w.pkts p).bufTy with
    | localBuf =>
      rw [hty] at h
      cases h
      exact ⟨rfl, (List.append_nil _).symm⟩
    | mbuf m =>
      rw [hty] at h
      cases h
      exact ⟨rfl, rfl⟩
  · rw [if_neg hlast, subWord_ok checks hcounted] at h
    rw [if_neg hlast]
    cases h
    refine ⟨rfl, rfl, ?_⟩
    rw [World.setPkt_pkts_same]
    exact Nat.sub_add_cancel hcounted

/-- With a reference to take off, neither build stops. -/
theorem deallocate_ok (checks : Bool) {p : PacketId} (threadId : UInt32) {w : World σ}
    (h : 1 ≤ (w.pkts p).refcnt) : ∃ w', deallocate checks p threadId w = .ok w' := by
  simp only [deallocate]
  split
  · split <;> exact ⟨_, rfl⟩
  · rw [subWord_ok checks h]
    exact ⟨_, rfl⟩

/-- The mbufs' fields and the environment are not its business. -/
theorem deallocate_keeps {checks : Bool} {p : PacketId} {threadId : UInt32} {w w' : World σ}
    (h : deallocate checks p threadId w = .ok w') : w'.mbufs = w.mbufs ∧ w'.env = w.env := by
  simp only [deallocate] at h
  split at h
  · split at h <;>
    · cases h
      exact ⟨rfl, rfl⟩
  · simp only [Exec.bind_eq_ok, Exec.pure_eq_ok] at h
    obtain ⟨n, _, rfl⟩ := h
    exact ⟨rfl, rfl⟩

end PacketPool

/-- `packet_free_callback`: the card is done with a transmission of `p`. -/
def packetFreeCallback {σ : Type} (checks : Bool) (p : PacketId) (w : World σ) : Exec (World σ) :=
  PacketPool.deallocate checks p (w.pkts p).threadId
    {w with held := fun q => if q = p then w.held q - 1 else w.held q}

end OmniStack
