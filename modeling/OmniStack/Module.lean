import OmniStack.Packet

/-! The interface of a processing node.

A module reads and writes the world it shares with the others and answers with a
result; what it remembers between calls is part of the world's `env`. -/
namespace OmniStack
open Lib

structure Context where
  cpu : UInt32
  workerId : UInt32
  threadId : UInt32
  graphId : UInt32
  stackName : String

structure ModuleCapa where
  process : Bool
  poll : Bool
  deriving DecidableEq

structure Module (σ : Type) where
  init : Context → World σ → Exec (Result Unit × World σ) := fun _ w => .ok (.ok (), w)
  process : Context → PacketId → World σ → Exec (Result Unit × World σ)
  poll : Context → World σ → Exec (Result PacketId × World σ) := fun _ w => .ok (.error .nop, w)
  capability : ModuleCapa := ⟨true, false⟩
  destroy : Context → World σ → Exec (World σ) := fun _ w => .ok w

/-- The packet's headers, window and card are set, and bytes are written. It keeps its buffer and
its references, and the rest of the world is as it was. -/
structure World.Edited {σ : Type} (p : PacketId) (w w' : World σ) : Prop where
  pkt : ∃ pkt, w'.pkts = (w.setPkt p pkt).pkts ∧ pkt.data = (w.pkts p).data ∧
    pkt.bufTy = (w.pkts p).bufTy ∧ pkt.refcnt = (w.pkts p).refcnt
  rest : w' = {w with pkts := w'.pkts, mem := w'.mem}

theorem World.Edited.setPkt {σ : Type} {p : PacketId} {w : World σ} {pkt : Packet}
    (hdata : pkt.data = (w.pkts p).data) (hty : pkt.bufTy = (w.pkts p).bufTy)
    (hrefcnt : pkt.refcnt = (w.pkts p).refcnt) : World.Edited p w (w.setPkt p pkt) :=
  ⟨⟨pkt, rfl, hdata, hty, hrefcnt⟩, rfl⟩

theorem World.Edited.storeAt {σ : Type} {p : PacketId} {w w' : World σ}
    (h : World.Edited p w w') (off : Nat) (l : List UInt8) :
    World.Edited p w (w'.storeAt p off l) where
  pkt := h.pkt
  rest := congrArg (fun v : World σ => {v with mem := (w'.storeAt p off l).mem}) h.rest

/-- Modules in a row: the next one is called when this one returned `Ok`. -/
def andThen {σ : Type} (x : Exec (Result Unit × World σ))
    (next : World σ → Exec (Result Unit × World σ)) : Exec (Result Unit × World σ) := do
  match ← x with
  | (.ok (), w) => next w
  | (.error e, w) => return (.error e, w)

@[simp] theorem andThen_ok {σ : Type} (w : World σ)
    (next : World σ → Exec (Result Unit × World σ)) :
    andThen (.ok (.ok (), w)) next = next w := rfl

@[simp] theorem andThen_failed {σ : Type} (e : Error) (w : World σ)
    (next : World σ → Exec (Result Unit × World σ)) :
    andThen (.ok (.error e, w)) next = .ok (.error e, w) := rfl

@[simp] theorem andThen_fault {σ : Type} (g : Fault)
    (next : World σ → Exec (Result Unit × World σ)) : andThen (.error g) next = .error g := rfl

/-- Both return `Ok`, or one of them ends the row. -/
theorem andThen_eq_ok {σ : Type} {x : Exec (Result Unit × World σ)}
    {next : World σ → Exec (Result Unit × World σ)} {w : World σ} :
    andThen x next = .ok (.ok (), w) ↔
      ∃ w₁, x = .ok (.ok (), w₁) ∧ next w₁ = .ok (.ok (), w) := by
  constructor
  · intro h
    rcases x with e | ⟨e | u, w₁⟩
    · cases h
    · cases h
    · exact ⟨w₁, rfl, h⟩
  · intro h
    obtain ⟨w₁, rfl, h⟩ := h
    exact h

theorem andThen_eq_error {σ : Type} {x : Exec (Result Unit × World σ)}
    {next : World σ → Exec (Result Unit × World σ)} {e : Error} {w : World σ} :
    andThen x next = .ok (.error e, w) ↔
      x = .ok (.error e, w) ∨ ∃ w₁, x = .ok (.ok (), w₁) ∧ next w₁ = .ok (.error e, w) := by
  match x with
  | .error g => simp
  | .ok (.error e', w') => simp
  | .ok (.ok (), w') => simp

theorem andThen_assoc {σ : Type} (x : Exec (Result Unit × World σ))
    (f g : World σ → Exec (Result Unit × World σ)) :
    andThen (andThen x f) g = andThen x fun w => andThen (f w) g := by
  rcases x with e | ⟨e | u, w⟩ <;> rfl

end OmniStack
