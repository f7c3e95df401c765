import OmniStack.Lib.ArrayVec

/-! Who wrote the cells of an array stack.

Writes go to the cell at the index and pops leave theirs behind as it is. Along a log of
such accesses the live cells are `Backed`: each holds what the log's last access to it
wrote. The cells above may hold anything. -/
namespace Lib

/-- An access to a cell, which also moves the index. -/
inductive Access (α : Type) where
  | write (slot : Nat) (a : α)
  | pop (slot : Nat)

namespace Access
variable {α : Type}

def slot : Access α → Nat
  | write i _ => i
  | pop i => i

/-- Writing `l` from cell `i` on. -/
def writes (i : Nat) : List α → List (Access α)
  | [] => []
  | a :: rest => .write i a :: writes (i + 1) rest

/-- The last access to the cell wrote `a` there. -/
def Written (log : List (Access α)) (i : Nat) (a : α) : Prop :=
  ∃ before after, log = before ++ .write i a :: after ∧ ∀ x ∈ after, x.slot ≠ i

theorem written_snoc (log : List (Access α)) (i : Nat) (a : α) :
    Written (log ++ [.write i a]) i a := ⟨log, [], rfl, fun _ hx => absurd hx List.not_mem_nil⟩

theorem Written.snoc {log : List (Access α)} {i : Nat} {a : α} (h : Written log i a)
    {x : Access α} (hx : x.slot ≠ i) : Written (log ++ [x]) i a := by
  obtain ⟨before, after, rfl, hafter⟩ := h
  refine ⟨before, after ++ [x], by rw [List.append_assoc]; rfl, fun y hy => ?_⟩
  rcases List.mem_append.mp hy with hy | hy
  · exact hafter y hy
  · rw [List.mem_singleton.mp hy]
    exact hx

end Access

namespace ArrayStack
variable {α : Type} {size : Nat} {log : List (Access α)}
open Access

def apply (s : ArrayStack α) : Access α → ArrayStack α
  | .write i a => ⟨fun j => if j = i then a else s.cells j, i + 1⟩
  | .pop i => {s with index := i}

/-- The stack after some accesses. -/
def replay (s : ArrayStack α) (log : List (Access α)) : ArrayStack α := log.foldl apply s

theorem replay_append (s : ArrayStack α) (log log' : List (Access α)) :
    s.replay (log ++ log') = (s.replay log).replay log' := List.foldl_append

theorem pushAll_replay {s t : ArrayStack α} {l : List α} (h : s.pushAll size l = some t) :
    t = s.replay (writes s.index l) := by
  induction l generalizing s with
  | nil =>
    cases h
    rfl
  | cons a rest ih =>
    simp only [pushAll] at h
    split at h
    · rename_i u hu
      have hindex := (push_live hu).2.1
      unfold push at hu
      split at hu
      · cases hu
        exact ih h
      · cases hu
    · cases h

/-- Every live cell holds what was last written to it, and was not popped since. -/
def Backed (log : List (Access α)) (s : ArrayStack α) : Prop :=
  ∀ i < s.index, Written log i (s.cells i)

theorem backed_empty (cells : Nat → α) : Backed [] ⟨cells, 0⟩ :=
  fun _ hi => absurd hi (Nat.not_lt_zero _)

theorem Backed.write {s : ArrayStack α} (h : Backed log s) (a : α) :
    Backed (log ++ [.write s.index a]) (s.apply (.write s.index a)) := by
  intro i hi
  by_cases hi' : i = s.index
  · rw [hi']
    simp only [apply, if_pos]
    exact written_snoc log s.index a
  · simp only [apply, if_neg hi']
    have hlt : i < s.index := by
      simp only [apply] at hi
      omega
    exact (h i hlt).snoc (fun heq => hi' heq.symm)

theorem Backed.writes {s : ArrayStack α} (h : Backed log s) (l : List α) :
    Backed (log ++ Access.writes s.index l) (s.replay (Access.writes s.index l)) := by
  induction l generalizing s log with
  | nil =>
    rw [Access.writes, List.append_nil]
    exact h
  | cons a rest ih =>
    have hrest := ih (h.write a)
    rw [List.append_assoc] at hrest
    exact hrest

theorem Backed.pop {s : ArrayStack α} (h : Backed log s) :
    Backed (log ++ [.pop (s.index - 1)]) s.pop.2 := by
  intro i hi
  simp only [ArrayStack.pop] at hi ⊢
  exact (h i (by omega)).snoc (by simp only [slot]; omega)

end ArrayStack
end Lib
