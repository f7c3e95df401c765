import OmniStack.Sys

/-! The user node: the source and the sink of the stack's payloads. -/
namespace OmniStack
open Lib

namespace UserNode
variable {σ : Type}

def burstSize : Nat := 32

def process (checks : Bool) (ctx : Context) (p : PacketId) (w : World σ) :
    Exec (Result Unit × World σ) := do
  return (.error .dropped, ← PacketPool.deallocate checks p ctx.threadId w)

theorem process_drops {checks : Bool} {ctx : Context} {p : PacketId} {w w' : World σ}
    {res : Result Unit} (h : process checks ctx p w = .ok (res, w')) :
    res = .error .dropped ∧ PacketPool.deallocate checks p ctx.threadId w = .ok w' := by
  simp only [process, Exec.bind_eq_ok, Exec.pure_eq_ok, Prod.mk.injEq] at h
  obtain ⟨w₁, hfreed, rfl, rfl⟩ := h
  exact ⟨rfl, hfreed⟩

/-- The loop over `rx_queue` in reverse: each packet is set up and put before `next`. -/
def buildChain (checks : Bool) : List PacketId → Option PacketId → World σ →
    Exec (Option PacketId × World σ)
  | [], ret, w => .ok (ret, w)
  | p :: rest, ret, w => do
    let pkt := {w.pkts p with data := .own p, bufTy := .localBuf, offset := defaultOffset}
    let pkt ← pkt.setLen checks 36
    buildChain checks rest (some p) (w.setPkt p {pkt with nic := 0, next := ret})

def poll (sys : Sys σ) (checks : Bool) (w : World σ) : Exec (Result PacketId × World σ) := do
  match PacketPool.allocateMany sys burstSize w with
  | (.error e, w) => return (.error e, w)
  | (.ok rxQueue, w) =>
    let (ret, w) ← buildChain checks rxQueue.reverse none w
    match ret with
    | some head => return (.ok head, w)
    | none => throw .outOfBounds

def module (sys : Sys σ) (checks : Bool) : Module σ where
  process := process checks
  poll := fun _ => poll sys checks
  capability := ⟨true, true⟩

end UserNode
end OmniStack
