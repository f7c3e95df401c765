/-! Runs of a labelled transition relation.

A `Run` is a finite sequence of steps together with the labels they carry. What a
single step preserves, every run preserves (`Run.invariant`); where only some
steps do, the labels say which (`Run.invariant_of`). -/
namespace Lib

/-- Finitely many steps, with their labels in order. -/
inductive Run {S L : Type} (step : S → L → S → Prop) : S → List L → S → Prop where
  | nil (s : S) : Run step s [] s
  | cons {s t u : S} {l : L} {ls : List L} :
      step s l t → Run step t ls u → Run step s (l :: ls) u

namespace Run
variable {S L : Type} {step : S → L → S → Prop}

theorem single {s t : S} {l : L} (h : step s l t) : Run step s [l] t := .cons h (.nil t)

theorem of_single {s t : S} {l : L} (h : Run step s [l] t) : step s l t := by
  cases h with
  | cons hstep hrest =>
    cases hrest
    exact hstep

theorem append {s t u : S} {ls ms : List L} (h : Run step s ls t) (h' : Run step t ms u) :
    Run step s (ls ++ ms) u := by
  induction h with
  | nil => exact h'
  | cons hstep _ ih => exact .cons hstep (ih h')

theorem snoc {s t u : S} {ls : List L} {l : L} (h : Run step s ls t) (h' : step t l u) :
    Run step s (ls ++ [l]) u :=
  h.append (single h')

/-- A run over a concatenation passes through a state in between. -/
theorem split {s u : S} {ls ms : List L} (h : Run step s (ls ++ ms) u) :
    ∃ t, Run step s ls t ∧ Run step t ms u := by
  induction ls generalizing s with
  | nil => exact ⟨s, .nil s, h⟩
  | cons l ls ih =>
    cases h with
    | cons hstep hrest =>
      obtain ⟨t, hl, hm⟩ := ih hrest
      exact ⟨t, .cons hstep hl, hm⟩

/-- What every step whose label satisfies `C` preserves, a run of such steps preserves. -/
theorem invariant_of {P : S → Prop} {C : L → Prop}
    (hstep : ∀ s l t, P s → C l → step s l t → P t) {s t : S} {ls : List L}
    (h : Run step s ls t) (hC : ∀ l ∈ ls, C l) (hs : P s) : P t := by
  induction h with
  | nil => exact hs
  | cons hst _ ih =>
    exact ih (fun l hl => hC l (List.mem_cons_of_mem _ hl))
      (hstep _ _ _ hs (hC _ List.mem_cons_self) hst)

/-- A statement about a state and the labels that led to it. -/
theorem history {P : List L → S → Prop} {C : L → Prop}
    (hstep : ∀ ls s l t, P ls s → C l → step s l t → P (ls ++ [l]) t) {s t : S} {ls : List L}
    (h : Run step s ls t) (hC : ∀ l ∈ ls, C l) (hs : P [] s) : P ls t := by
  have key : ∀ {s t : S} {ls : List L}, Run step s ls t → (∀ l ∈ ls, C l) → ∀ before, P before s →
      P (before ++ ls) t := by
    intro s t ls h
    induction h with
    | nil => exact fun _ before hs => (List.append_nil before).symm ▸ hs
    | cons hst _ ih =>
      intro hC before hs
      have := ih (fun l hl => hC l (List.mem_cons_of_mem _ hl)) _
        (hstep _ _ _ _ hs (hC _ List.mem_cons_self) hst)
      rwa [List.append_assoc] at this
  exact key h hC [] hs

/-- What every step preserves, every run preserves. -/
theorem invariant {P : S → Prop} (hstep : ∀ s l t, P s → step s l t → P t) {s t : S} {ls : List L}
    (h : Run step s ls t) (hs : P s) : P t :=
  h.invariant_of (C := fun _ => True) (fun s l t hs _ hst => hstep s l t hs hst)
    (fun _ _ => trivial) hs

/-- A run seen through a map of its states and labels that turns steps into steps. -/
theorem map {S' L' : Type} {step' : S' → L' → S' → Prop} (f : S → S') (g : L → L')
    (hstep : ∀ s l t, step s l t → step' (f s) (g l) (f t)) {s t : S} {ls : List L}
    (h : Run step s ls t) : Run step' (f s) (ls.map g) (f t) := by
  induction h with
  | nil s => exact .nil _
  | cons hst _ ih => exact .cons (hstep _ _ _ hst) ih

/-- A run of steps of one kind is a run of steps of a wider kind. -/
theorem mono {step' : S → L → S → Prop} (hstep : ∀ s l t, step s l t → step' s l t) {s t : S}
    {ls : List L} (h : Run step s ls t) : Run step' s ls t := by
  induction h with
  | nil s => exact .nil s
  | cons hst _ ih => exact .cons (hstep _ _ _ hst) ih

/-- What every step of a run says of its label. -/
theorem labels {C : L → Prop} (hstep : ∀ s l t, step s l t → C l) {s t : S} {ls : List L}
    (h : Run step s ls t) : ∀ l ∈ ls, C l := by
  induction h with
  | nil => simp
  | cons hst _ ih => exact List.forall_mem_cons.mpr ⟨hstep _ _ _ hst, ih⟩

/-- A run whose labels all satisfy `C` is a run of such steps. -/
theorem restrict {C : L → Prop} {s t : S} {ls : List L} (h : Run step s ls t)
    (hC : ∀ l ∈ ls, C l) : Run (fun s l t => step s l t ∧ C l) s ls t := by
  induction h with
  | nil s => exact .nil s
  | cons hst _ ih =>
    exact .cons ⟨hst, hC _ List.mem_cons_self⟩ (ih fun l hl => hC l (List.mem_cons_of_mem _ hl))

/-- A rank that every step lowers bounds the length of the runs. -/
theorem length_le {rank : S → Nat} (hrank : ∀ s l t, step s l t → rank t < rank s) {s t : S}
    {ls : List L} (h : Run step s ls t) : ls.length + rank t ≤ rank s := by
  induction h with
  | nil => simp
  | cons hst _ ih =>
    have := hrank _ _ _ hst
    rw [List.length_cons]
    omega

/-- Where every step lowers a rank and some step is possible until the end, there is a run to
the end. -/
theorem exists_final {P final : S → Prop} {rank : S → Nat}
    (hrank : ∀ s l t, step s l t → rank t < rank s) (hstep : ∀ s l t, P s → step s l t → P t)
    (hprogress : ∀ s, P s → ¬ final s → ∃ l t, step s l t) (s : S) (hs : P s) :
    ∃ ls t, Run step s ls t ∧ final t := by
  by_cases hfinal : final s
  · exact ⟨[], s, .nil s, hfinal⟩
  · obtain ⟨l, t, hst⟩ := hprogress s hs hfinal
    have hlt := hrank s l t hst
    obtain ⟨ls, u, hrun, hu⟩ := exists_final hrank hstep hprogress t (hstep s l t hs hst)
    exact ⟨l :: ls, u, .cons hst hrun, hu⟩
termination_by rank s

/-- The labels `ls` followed by a function that says where each leads, if it leads anywhere. -/
def follow (f : L → S → Option S) : List L → S → Option S
  | [], s => some s
  | l :: ls, s => (f l s).bind (follow f ls)

theorem of_follow {f : L → S → Option S} {ls : List L} {s t : S} (h : follow f ls s = some t) :
    Run (fun s l t => f l s = some t) s ls t := by
  induction ls generalizing s with
  | nil =>
    cases h
    exact .nil _
  | cons l ls ih =>
    obtain ⟨u, hu, hrest⟩ := Option.bind_eq_some_iff.mp h
    exact .cons hu (ih hrest)

/-- Runs of a function, one label a step: `n` steps from `s`. -/
def iterate {E : Type} (f : S → Except E (L × S)) : Nat → S → Except E (List L × S)
  | 0, s => .ok ([], s)
  | n + 1, s =>
    match f s with
    | .error e => .error e
    | .ok (l, t) =>
      match iterate f n t with
      | .error e => .error e
      | .ok (ls, u) => .ok (l :: ls, u)

/-- Executing a step function yields a run of its graph. -/
theorem of_iterate {E : Type} {f : S → Except E (L × S)} {n : Nat} {s t : S} {ls : List L}
    (h : iterate f n s = .ok (ls, t)) : Run (fun s l t => f s = .ok (l, t)) s ls t := by
  induction n generalizing s ls with
  | zero =>
    simp only [iterate, Except.ok.injEq, Prod.mk.injEq] at h
    obtain ⟨rfl, rfl⟩ := h
    exact .nil s
  | succ n ih =>
    simp only [iterate] at h
    split at h
    · cases h
    · rename_i l u hstep
      split at h
      · cases h
      · rename_i ms v hrest
        cases h
        exact .cons hstep (ih hrest)

/-- Where the execution stops early it has run to the step that fails. -/
theorem of_iterate_error {E : Type} {f : S → Except E (L × S)} {n : Nat} {s : S} {e : E}
    (h : iterate f n s = .error e) :
    ∃ ls t, Run (fun s l t => f s = .ok (l, t)) s ls t ∧ f t = .error e := by
  induction n generalizing s with
  | zero => cases h
  | succ n ih =>
    simp only [iterate] at h
    split at h
    · rename_i hstep
      cases h
      exact ⟨[], s, .nil s, hstep⟩
    · rename_i l u hstep
      split at h
      · rename_i hrest
        cases h
        obtain ⟨ls, t, hrun, hfails⟩ := ih hrest
        exact ⟨l :: ls, t, .cons hstep hrun, hfails⟩
      · cases h

/-- A run found by execution, with a test of its last state. -/
theorem exists_of_iterate {E : Type} [DecidableEq L] (f : S → Except E (L × S)) (n : Nat) (s : S)
    (ls : List L) (test : S → Bool)
    (h : (match iterate f n s with
      | .ok (ms, t) => decide (ms = ls) && test t
      | .error _ => false) = true) :
    ∃ t, Run (fun s l t => f s = .ok (l, t)) s ls t ∧ test t = true := by
  split at h
  · rename_i ms t hit
    obtain ⟨hms, ht⟩ := (Bool.and_eq_true _ _).mp h
    exact ⟨t, of_iterate (of_decide_eq_true hms ▸ hit), ht⟩
  · cases h

end Run
end Lib
