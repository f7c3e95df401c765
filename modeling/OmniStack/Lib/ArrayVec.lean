import OmniStack.Lib.Checked

/-! Arrays of bounded length.

`ArrayVec α cap` is a vector that never holds more than `cap` items: pushing onto a
full one panics. `ArrayStack α` is a stack kept in an array written without bounds
checks: the live part is what lies below `index`, whatever the cells above it hold. -/
namespace Lib

/-- A vector with at most `cap` items. -/
structure ArrayVec (α : Type) (cap : Nat) where
  items : List α
  bound : items.length ≤ cap

namespace ArrayVec
variable {α : Type} {cap : Nat}

def empty : ArrayVec α cap := ⟨[], Nat.zero_le cap⟩

def push (v : ArrayVec α cap) (a : α) : Exec (ArrayVec α cap) :=
  if h : v.items.length < cap then
    .ok ⟨v.items ++ [a], by rw [List.length_append]; exact h⟩
  else .error .panic

/-- The vector of the list's items, when they fit. -/
def ofList (l : List α) : Exec (ArrayVec α cap) :=
  if h : l.length ≤ cap then .ok ⟨l, h⟩ else .error .panic

/-- The list's first items, as many as fit. -/
def ofTake (l : List α) : ArrayVec α cap := ⟨l.take cap, List.length_take_le cap l⟩

/-- The vector with one item replaced. -/
def set (v : ArrayVec α cap) (i : Nat) (a : α) : ArrayVec α cap :=
  ⟨v.items.set i a, by rw [List.length_set]; exact v.bound⟩

/-- The vector with every item changed. -/
def map {β : Type} (f : α → β) (v : ArrayVec α cap) : ArrayVec β cap :=
  ⟨v.items.map f, by rw [List.length_map]; exact v.bound⟩

@[simp] theorem map_items {β : Type} (f : α → β) (v : ArrayVec α cap) :
    (v.map f).items = v.items.map f := rfl

@[simp] theorem ofTake_items (l : List α) : (ofTake l : ArrayVec α cap).items = l.take cap := rfl

theorem push_ok {v w : ArrayVec α cap} {a : α} (h : v.push a = .ok w) :
    w.items = v.items ++ [a] := by
  unfold push at h
  split at h
  · cases h
    rfl
  · cases h

theorem ofList_ok {l : List α} {v : ArrayVec α cap} (h : ofList l = .ok v) : v.items = l := by
  unfold ofList at h
  split at h
  · cases h
    rfl
  · cases h

theorem push_isOk (v : ArrayVec α cap) (a : α) (h : v.items.length < cap) :
    ∃ w, v.push a = .ok w :=
  ⟨_, dif_pos h⟩

theorem ofList_isOk_iff {l : List α} :
    (∃ v : ArrayVec α cap, ofList l = .ok v) ↔ l.length ≤ cap := by
  constructor
  · intro h
    obtain ⟨v, hv⟩ := h
    exact ofList_ok hv ▸ v.bound
  · intro h
    exact ⟨_, dif_pos h⟩

end ArrayVec

/-- A stack in an array: `index` cells are live. -/
structure ArrayStack (α : Type) where
  cells : Nat → α
  index : Nat

namespace ArrayStack
variable {α : Type} {size : Nat}

/-- The live cells, bottom first. -/
def live (s : ArrayStack α) : List α := (List.range s.index).map s.cells

/-- Write the cell at `index` and move up; `none` beyond the array's `size` cells. -/
def push (size : Nat) (s : ArrayStack α) (a : α) : Option (ArrayStack α) :=
  if s.index < size then
    some ⟨fun i => if i = s.index then a else s.cells i, s.index + 1⟩
  else none

/-- Move down and read the cell there. -/
def pop (s : ArrayStack α) : α × ArrayStack α :=
  (s.cells (s.index - 1), {s with index := s.index - 1})

def pushAll (size : Nat) (s : ArrayStack α) : List α → Option (ArrayStack α)
  | [] => some s
  | a :: rest =>
    match s.push size a with
    | some t => pushAll size t rest
    | none => none

@[simp] theorem live_length (s : ArrayStack α) : s.live.length = s.index := by simp [live]

/-- A push adds on top and leaves everything below in place. -/
theorem push_live {s t : ArrayStack α} {a : α} (h : s.push size a = some t) :
    t.live = s.live ++ [a] ∧ t.index = s.index + 1 ∧ s.index < size := by
  unfold push at h
  split at h
  · rename_i hlt
    cases h
    refine ⟨?_, rfl, hlt⟩
    simp only [live, List.range_succ, List.map_append, List.map_cons, List.map_nil, if_true]
    congr 1
    apply List.map_congr_left
    intro i hi
    rw [List.mem_range] at hi
    rw [if_neg (by omega)]
  · cases h

theorem push_eq_none {s : ArrayStack α} {a : α} : s.push size a = none ↔ size ≤ s.index := by
  unfold push
  split <;> simp <;> omega

theorem pushAll_live {s t : ArrayStack α} {l : List α} (h : s.pushAll size l = some t) :
    t.live = s.live ++ l := by
  induction l generalizing s with
  | nil =>
    cases h
    simp
  | cons a rest ih =>
    simp only [pushAll] at h
    split at h
    · rename_i u hu
      rw [ih h, (push_live hu).1, List.append_assoc, List.singleton_append]
    · cases h

theorem pushAll_index {s t : ArrayStack α} {l : List α} (h : s.pushAll size l = some t) :
    t.index = s.index + l.length := by
  rw [← live_length, pushAll_live h, List.length_append, live_length]

/-- Pushes fail exactly when they do not fit. -/
theorem pushAll_eq_none {s : ArrayStack α} {l : List α} (hs : s.index ≤ size) :
    s.pushAll size l = none ↔ size < s.index + l.length := by
  induction l generalizing s with
  | nil => simp [pushAll]; omega
  | cons a rest ih =>
    simp only [pushAll, List.length_cons]
    cases hu : s.push size a with
    | none =>
      have := push_eq_none.mp hu
      simp
      omega
    | some u =>
      obtain ⟨_, hidx, hlt⟩ := push_live hu
      simp only [ih (show u.index ≤ size by omega), hidx]
      omega

theorem pushAll_append (s : ArrayStack α) (l m : List α) :
    s.pushAll size (l ++ m) = (s.pushAll size l).bind (fun t => t.pushAll size m) := by
  induction l generalizing s with
  | nil => rfl
  | cons a rest ih =>
    simp only [List.cons_append, pushAll]
    cases s.push size a with
    | none => rfl
    | some t => exact ih t

/-- What a pop returns was on top, and the rest is what it leaves. -/
theorem pop_live {s : ArrayStack α} (h : s.index ≠ 0) : s.live = s.pop.2.live ++ [s.pop.1] := by
  obtain ⟨n, hn⟩ := Nat.exists_eq_succ_of_ne_zero h
  simp only [live, pop, hn, Nat.succ_eq_add_one, Nat.add_sub_cancel, List.range_succ,
    List.map_append, List.map_cons, List.map_nil]

end ArrayStack
end Lib
