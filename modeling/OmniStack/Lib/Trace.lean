/-! Traces of events, appended to at the end.

`Answered a b l`: every `a` of the trace `l` has a `b` somewhere after it.
`Separated a b l`: between any two `a`s there is a `b`. Appending an `a` keeps the
trace separated if it was answered (`separated_snoc`), and any event but `a` keeps
both. -/
namespace Lib
namespace Trace
variable {E : Type} {a b e : E} {l : List E}

def Answered (a b : E) (l : List E) : Prop := ∀ pre post, l = pre ++ a :: post → b ∈ post

def Separated (a b : E) (l : List E) : Prop :=
  ∀ pre mid post, l = pre ++ a :: (mid ++ a :: post) → b ∈ mid

/-- An event of a longer trace is its last one or one of the trace before. -/
theorem snoc_split {pre post : List E} (h : l ++ [e] = pre ++ a :: post) :
    (post = [] ∧ e = a ∧ l = pre) ∨ ∃ post', post = post' ++ [e] ∧ l = pre ++ a :: post' := by
  cases List.eq_nil_or_concat post with
  | inl hnil =>
    subst hnil
    obtain ⟨hl, he⟩ := List.append_inj' h rfl
    exact .inl ⟨rfl, List.singleton_inj.mp he, hl⟩
  | inr hlast =>
    obtain ⟨post', x, rfl⟩ := hlast
    rw [List.concat_eq_append, ← List.cons_append, ← List.append_assoc] at h
    obtain ⟨hl, he⟩ := List.append_inj' h rfl
    rw [List.singleton_inj.mp he, List.concat_eq_append]
    exact .inr ⟨post', rfl, hl⟩

/-- What holds of every event and the trace before it, when one more is appended. -/
theorem forall_split_snoc {P : List E → E → Prop} :
    (∀ pre a post, l ++ [e] = pre ++ a :: post → P pre a) ↔
      (∀ pre a post, l = pre ++ a :: post → P pre a) ∧ P l e := by
  constructor
  · intro h
    exact ⟨fun pre a post heq => h pre a (post ++ [e]) (by simp [heq]), h l e [] rfl⟩
  · intro h pre a post heq
    obtain ⟨hl, he⟩ := h
    rcases snoc_split heq with ⟨-, rfl, rfl⟩ | ⟨post', -, hpre⟩
    · exact he
    · exact hl pre a post' hpre

theorem answered_nil : Answered a b [] := by
  intro pre post h
  simp at h

theorem separated_nil : Separated a b [] := by
  intro pre mid post h
  simp at h

theorem answered_snoc (hne : a ≠ b) : Answered a b (l ++ [b]) := by
  intro pre post h
  rcases snoc_split h with ⟨_, heq, _⟩ | ⟨post', rfl, _⟩
  · exact absurd heq.symm hne
  · simp

theorem answered_snoc_ne (hl : Answered a b l) (hne : e ≠ a) : Answered a b (l ++ [e]) := by
  intro pre post h
  rcases snoc_split h with ⟨_, heq, _⟩ | ⟨post', rfl, h'⟩
  · exact absurd heq hne
  · exact List.mem_append_left _ (hl pre post' h')

theorem separated_snoc_ne (hl : Separated a b l) (hne : e ≠ a) : Separated a b (l ++ [e]) := by
  intro pre mid post h
  rw [← List.cons_append, ← List.append_assoc] at h
  rcases snoc_split h with ⟨_, heq, _⟩ | ⟨post', _, h'⟩
  · exact absurd heq hne
  · exact hl pre mid post' (by rw [h', List.append_assoc, List.cons_append])

theorem separated_snoc (hl : Separated a b l) (ha : Answered a b l) : Separated a b (l ++ [a]) := by
  intro pre mid post h
  rw [← List.cons_append, ← List.append_assoc] at h
  rcases snoc_split h with ⟨_, _, h'⟩ | ⟨post', _, h'⟩
  · exact ha pre mid h'
  · exact hl pre mid post' (by rw [h', List.append_assoc, List.cons_append])

end Trace
end Lib
