import OmniStack.Module

/-! The packet-processing library the stack runs on.

`Sys` is what the modules use of it. A call may change the environment and reports what
the library did; what that does to the packets, the mbufs and the pool is the model's.
Nothing is assumed of the library here. -/
namespace OmniStack
open Lib

/-- A received mbuf: its pointer, its fields and the contents of its data room. -/
structure RxMbuf where
  ptr : MbufPtr
  mbuf : Mbuf
  room : Bytes

structure Sys (σ : Type) where
  /-- `rte_mempool_generic_get` on the packet pool: the objects, if there are enough -/
  mempoolGet : Nat → World σ → Option (List PacketId) × σ
  /-- `rte_mempool_lookup` of a port's mbuf pool -/
  mempoolLookup : UInt16 → World σ → Option Nat
  /-- `rte_pktmbuf_alloc_bulk`: the mbufs with their fields reset, if there are enough -/
  pktmbufAllocBulk : Nat → Nat → World σ → Option (List (MbufPtr × Mbuf)) × σ
  /-- `rte_eth_tx_burst` on a port and a queue: how many of the offered mbufs are taken,
  and the mbufs whose transmission is done since the last call -/
  ethTxBurst : UInt16 → UInt16 → List MbufPtr → World σ → Nat × List MbufPtr × σ
  /-- `rte_eth_rx_burst` on a port and a queue, for at most so many mbufs -/
  ethRxBurst : UInt16 → UInt16 → Nat → World σ → List RxMbuf × σ
  /-- `rte_eth_macaddr_get` -/
  ethMacaddrGet : UInt16 → World σ → Option MacAddr
  /-- the first initialization of a port, or the wait for it -/
  portInit : UInt16 → UInt16 → World σ → Exec σ
  /-- `rte_ipv4_phdr_cksum` -/
  ipv4PhdrCksum : Ipv4Header → UInt64 → UInt16
  /-- where a packet object lies -/
  objAddr : PacketId → UInt64
  /-- the IO address in the header of a packet object -/
  objIova : PacketId → UInt64
  /-- where a buffer begins -/
  bufferAddr : Buffer → UInt64
  /-- an `rte_mbuf_ext_shared_info` with the free callback, this argument and count one -/
  sharedInfo : PacketId → List UInt8
  /-- how many turns a busy loop is followed for -/
  patience : Nat

/-- A library that does what it is asked for, whose cards receive nothing. -/
def Sys.quiet {σ : Type} : Sys σ where
  mempoolGet := fun n w => (some (List.range n), w.env)
  mempoolLookup := fun _ _ => some 0
  pktmbufAllocBulk := fun _ n w =>
    (some ((List.range n).map fun m => (m, ⟨(.room m, 0), 0, 0, 128, 0, none, 0, 0, 0, 0⟩)), w.env)
  ethTxBurst := fun _ _ ms w => (ms.length, [], w.env)
  ethRxBurst := fun _ _ _ w => ([], w.env)
  ethMacaddrGet := fun _ _ => some MacAddr.new
  portInit := fun _ _ w => .ok w.env
  ipv4PhdrCksum := fun _ _ => 0
  objAddr := fun _ => 0
  objIova := fun _ => 0
  bufferAddr := fun _ => 0
  sharedInfo := fun _ => []
  patience := 1

namespace PacketPool
variable {σ : Type}

/-- `PacketPool::allocate_many` -/
def allocateMany (sys : Sys σ) (n : Nat) (w : World σ) : Result (List PacketId) × World σ :=
  match sys.mempoolGet n w with
  | (some ps, env) => (.ok ps, take {w with env} ps)
  | (none, env) => (.error .memoryError, {w with env})

/-- `PacketPool::allocate` -/
def allocate (sys : Sys σ) (w : World σ) : Exec (Result PacketId × World σ) :=
  match allocateMany sys 1 w with
  | (.ok (p :: _), w) => .ok (.ok p, w)
  | (.ok [], _) => .error .outOfBounds
  | (.error e, w) => .ok (.error e, w)

/-- An allocation that fails changes nothing but the environment; one that succeeds logs the
packet. -/
theorem allocate_cases {sys : Sys σ} {w w' : World σ} {res : Result PacketId}
    (h : allocate sys w = .ok (res, w')) :
    w'.pkts = w.pkts ∧ w'.rawFreed = w.rawFreed ∧ w'.wire = w.wire ∧
      (res = .error .memoryError ∧ w'.log = w.log ∨
        ∃ p ps, res = .ok p ∧ w'.log = w.log ++ (p :: ps).map .allocated) := by
  unfold allocate allocateMany at h
  rcases hget : sys.mempoolGet 1 w with ⟨_ | _ | ⟨p, ps⟩, env⟩
  · simp only [hget, Except.ok.injEq, Prod.mk.injEq] at h
    obtain ⟨rfl, rfl⟩ := h
    exact ⟨rfl, rfl, rfl, .inl ⟨rfl, rfl⟩⟩
  · simp only [hget, reduceCtorEq] at h
  · simp only [hget, Except.ok.injEq, Prod.mk.injEq] at h
    obtain ⟨rfl, rfl⟩ := h
    obtain ⟨hpkts, hfreed, hwire, hlog⟩ := take_spec {w with env} (p :: ps)
    exact ⟨hpkts, hfreed, hwire, .inr ⟨p, ps, rfl, hlog⟩⟩

end PacketPool
end OmniStack
