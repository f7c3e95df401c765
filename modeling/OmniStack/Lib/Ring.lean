/-! A bounded ring: first in, first out.

`enqueue` puts an item behind the others while there is room, `dequeue` takes the oldest.
A ring that refuses is unchanged. -/
namespace Lib

structure Ring (α : Type) (cap : Nat) where
  items : List α
  bound : items.length ≤ cap

namespace Ring
variable {α : Type} {cap : Nat}

def empty : Ring α cap := ⟨[], Nat.zero_le cap⟩

/-- The ring with `a` behind its items, if it is not full. -/
def enqueue (r : Ring α cap) (a : α) : Option (Ring α cap) :=
  if h : r.items.length < cap then
    some ⟨r.items ++ [a], by rw [List.length_append]; exact h⟩
  else none

/-- The oldest item and the ring without it, if it is not empty. -/
def dequeue (r : Ring α cap) : Option (α × Ring α cap) :=
  match h : r.items with
  | [] => none
  | a :: rest => some (a, ⟨rest, by
      have := r.bound
      rw [h] at this
      exact Nat.le_of_succ_le this⟩)

theorem enqueue_some {r r' : Ring α cap} {a : α} (h : r.enqueue a = some r') :
    r'.items = r.items ++ [a] := by
  unfold enqueue at h
  split at h
  · cases h
    rfl
  · cases h

theorem enqueue_of_lt {r : Ring α cap} (a : α) (h : r.items.length < cap) :
    ∃ r', r.enqueue a = some r' :=
  ⟨_, dif_pos h⟩

theorem enqueue_full {r : Ring α cap} (a : α) (h : cap ≤ r.items.length) : r.enqueue a = none :=
  dif_neg (Nat.not_lt.mpr h)

theorem dequeue_none {r : Ring α cap} (h : r.dequeue = none) : r.items = [] := by
  unfold dequeue at h
  split at h
  · assumption
  · cases h

theorem dequeue_some {r r' : Ring α cap} {a : α} (h : r.dequeue = some (a, r')) :
    r.items = a :: r'.items := by
  unfold dequeue at h
  split at h
  · cases h
  · rename_i b rest hitems
    cases h
    exact hitems

end Ring
end Lib
