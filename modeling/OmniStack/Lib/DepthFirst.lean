import OmniStack.Lib.Run
import Mathlib.Data.List.Basic

/-! Work that makes more work, depth first.

`call a s e t l`: doing item `a` in state `s` is seen as `e`, leaves state `t` and makes the
items `l`. A machine keeps what is to be done on a stack and does the top item (`Pops`); the
recursion does an item and then everything that came of it, before it turns to the next
(`Visits`). They are the same: the machine comes down to the empty stack exactly where the
recursion ends (`run_iff_visits`), so what is done by one can be reasoned about in the other.

Where an item stops the machine, the recursion comes to it too (`run_iff_breaks`). -/
namespace Lib
variable {α S E : Type}

/-- The items, each followed by all that comes of it, the item made last first. -/
inductive Visits (call : α → S → E → S → List α → Prop) : List α → S → List E → S → Prop where
  | nil (s : S) : Visits call [] s [] s
  | cons {a : α} {rest made : List α} {s u v t : S} {e : E} {es fs : List E}
      (hcall : call a s e u made) (hmade : Visits call made.reverse u es v)
      (hrest : Visits call rest v fs t) : Visits call (a :: rest) s (e :: (es ++ fs)) t

/-- The machine: the top item is done and what it made takes its place. Stacks are written
bottom first. -/
inductive Pops (call : α → S → E → S → List α → Prop) : List α × S → E → List α × S → Prop where
  | pop {base made : List α} {a : α} {s t : S} {e : E} (hcall : call a s e t made) :
      Pops call (base ++ [a], s) e (base ++ made, t)

variable {call : α → S → E → S → List α → Prop}

namespace Visits

theorem single {a : α} {made : List α} {s u t : S} {e : E} {es : List E}
    (hcall : call a s e u made) (hmade : Visits call made.reverse u es t) :
    Visits call [a] s (e :: es) t := by
  have h : Visits call [a] s (e :: (es ++ [])) t := .cons hcall hmade (.nil t)
  rwa [List.append_nil] at h

theorem single_iff {a : α} {s t : S} : (∃ es, Visits call [a] s es t) ↔
    ∃ e u made es, call a s e u made ∧ Visits call made.reverse u es t := by
  constructor
  · intro ⟨es, h⟩
    cases h with
    | cons hcall hmade hrest =>
      cases hrest
      exact ⟨_, _, _, _, hcall, hmade⟩
  · intro ⟨e, u, made, es, hcall, hmade⟩
    exact ⟨_, single hcall hmade⟩

theorem append {l m : List α} {s u t : S} {es fs : List E} (h : Visits call l s es u)
    (h' : Visits call m u fs t) : Visits call (l ++ m) s (es ++ fs) t := by
  induction h with
  | nil => exact h'
  | cons hcall hmade _ _ ih =>
    rw [List.cons_append, List.cons_append, List.append_assoc]
    exact .cons hcall hmade (ih h')

/-- Items in a row are done one part after the other. -/
theorem split {l m : List α} {s t : S} {es : List E} (h : Visits call (l ++ m) s es t) :
    ∃ fs gs u, es = fs ++ gs ∧ Visits call l s fs u ∧ Visits call m u gs t := by
  induction l generalizing s es with
  | nil => exact ⟨[], es, s, rfl, .nil s, h⟩
  | cons a l ih =>
    cases h with
    | @cons _ _ _ _ _ _ _ _ es' _ hcall hmade hrest =>
      obtain ⟨fs, gs, u, rfl, hl, hm⟩ := ih hrest
      exact ⟨_, gs, u, by rw [List.cons_append, List.append_assoc], .cons hcall hmade hl, hm⟩

theorem append_iff {l m : List α} {s t : S} : (∃ es, Visits call (l ++ m) s es t) ↔
    ∃ u, (∃ es, Visits call l s es u) ∧ ∃ es, Visits call m u es t := by
  constructor
  · intro ⟨es, h⟩
    obtain ⟨fs, gs, u, _, hfirst, hrest⟩ := h.split
    exact ⟨u, ⟨fs, hfirst⟩, gs, hrest⟩
  · intro ⟨u, ⟨fs, hfirst⟩, gs, hrest⟩
    exact ⟨fs ++ gs, hfirst.append hrest⟩

/-- What every call says of its event. -/
theorem events {C : E → Prop} (hC : ∀ a s e t made, call a s e t made → C e) {l : List α}
    {s t : S} {es : List E} (h : Visits call l s es t) : ∀ e ∈ es, C e := by
  induction h with
  | nil => simp
  | cons hcall _ _ ihmade ihrest =>
    exact List.forall_mem_cons.mpr
      ⟨hC _ _ _ _ _ hcall, List.forall_mem_append.mpr ⟨ihmade, ihrest⟩⟩

/-- What every call preserves. -/
theorem invariant {P : S → Prop} (hstep : ∀ a s e t made, P s → call a s e t made → P t)
    {l : List α} {s t : S} {es : List E} (h : Visits call l s es t) (hs : P s) : P t := by
  induction h with
  | nil => exact hs
  | cons hcall _ _ ihmade ihrest => exact ihrest (ihmade (hstep _ _ _ _ _ hs hcall))

/-- The machine does what the recursion does, whatever lies below. -/
theorem run {l : List α} {s t : S} {es : List E} (h : Visits call l s es t) (base : List α) :
    Run (Pops call) (base ++ l.reverse, s) es (base, t) := by
  induction h generalizing base with
  | nil s =>
    rw [List.reverse_nil, List.append_nil]
    exact .nil _
  | @cons a rest made s u v t e es fs hcall _ _ ihmade ihrest =>
    rw [List.reverse_cons, ← List.append_assoc]
    have hdone := ihmade (base ++ rest.reverse)
    rw [List.reverse_reverse] at hdone
    exact .cons (.pop hcall) (hdone.append (ihrest base))

end Visits

/-- **The machine and the recursion.** The stack is empty exactly when its items are done, the
top one first. -/
theorem run_iff_visits {stack : List α} {s t : S} {es : List E} :
    Run (Pops call) (stack, s) es ([], t) ↔ Visits call stack.reverse s es t := by
  constructor
  · have key : ∀ {c d : List α × S} {es : List E}, Run (Pops call) c es d → d.1 = [] →
        Visits call c.1.reverse c.2 es d.2 := by
      intro c d es h
      induction h with
      | nil c =>
        intro hempty
        rw [hempty]
        exact .nil _
      | cons hpop _ ih =>
        intro hempty
        cases hpop with
        | pop hcall =>
          have hrest := ih hempty
          rw [List.reverse_append] at hrest
          obtain ⟨fs, gs, u, rfl, hmade, hbase⟩ := hrest.split
          rw [List.reverse_append]
          exact .cons hcall hmade hbase
    intro h
    exact key h rfl
  · intro h
    have hrun := h.run []
    rwa [List.reverse_reverse] at hrun

/-! ### Items that stop the work -/

/-- The recursion comes to an item that stops it, in the way `f`. -/
inductive Breaks {F : Type} (call : α → S → E → S → List α → Prop) (stops : α → S → F → Prop) :
    List α → S → F → Prop where
  | now {a : α} {rest : List α} {s : S} {f : F} (hstop : stops a s f) :
      Breaks call stops (a :: rest) s f
  | inside {a : α} {rest made : List α} {s u : S} {e : E} {f : F} (hcall : call a s e u made)
      (hmade : Breaks call stops made.reverse u f) : Breaks call stops (a :: rest) s f
  | later {a : α} {rest made : List α} {s u v : S} {e : E} {es : List E} {f : F}
      (hcall : call a s e u made) (hmade : Visits call made.reverse u es v)
      (hrest : Breaks call stops rest v f) : Breaks call stops (a :: rest) s f

namespace Breaks
variable {F : Type} {stops : α → S → F → Prop}

/-- One item stops by itself, or in what it made. -/
theorem single_iff {a : α} {s : S} {f : F} : Breaks call stops [a] s f ↔
    stops a s f ∨ ∃ e u made, call a s e u made ∧ Breaks call stops made.reverse u f := by
  constructor
  · intro h
    cases h with
    | now hstop => exact .inl hstop
    | inside hcall hmade => exact .inr ⟨_, _, _, hcall, hmade⟩
    | later _ _ hrest => cases hrest
  · intro h
    rcases h with hstop | ⟨e, u, made, hcall, hmade⟩
    · exact .now hstop
    · exact .inside hcall hmade

theorem append {l : List α} {s : S} {f : F} (h : Breaks call stops l s f) (m : List α) :
    Breaks call stops (l ++ m) s f := by
  induction h with
  | now hstop => exact .now hstop
  | inside hcall hmade => exact .inside hcall hmade
  | later hcall hmade _ ih => exact .later hcall hmade ih

theorem after {l m : List α} {s u : S} {es : List E} {f : F} (h : Visits call l s es u)
    (hbreak : Breaks call stops m u f) : Breaks call stops (l ++ m) s f := by
  induction h with
  | nil => exact hbreak
  | cons hcall hmade _ _ ih => exact .later hcall hmade (ih hbreak)

/-- It stops in the first part, or in the second after the first is done. -/
theorem split {l m : List α} {s : S} {f : F} (h : Breaks call stops (l ++ m) s f) :
    Breaks call stops l s f ∨ ∃ es u, Visits call l s es u ∧ Breaks call stops m u f := by
  induction l generalizing s with
  | nil => exact .inr ⟨[], s, .nil s, h⟩
  | cons a l ih =>
    cases h with
    | now hstop => exact .inl (.now hstop)
    | inside hcall hmade => exact .inl (.inside hcall hmade)
    | later hcall hmade hrest =>
      rcases ih hrest with hfirst | ⟨es, u, hl, hm⟩
      · exact .inl (.later hcall hmade hfirst)
      · exact .inr ⟨_, u, .cons hcall hmade hl, hm⟩

theorem append_iff {l m : List α} {s : S} {f : F} : Breaks call stops (l ++ m) s f ↔
    Breaks call stops l s f ∨ ∃ u, (∃ es, Visits call l s es u) ∧ Breaks call stops m u f := by
  constructor
  · intro h
    rcases h.split with hfirst | ⟨es, u, hfirst, hrest⟩
    · exact .inl hfirst
    · exact .inr ⟨u, ⟨es, hfirst⟩, hrest⟩
  · intro h
    rcases h with hfirst | ⟨u, ⟨es, hfirst⟩, hrest⟩
    · exact hfirst.append m
    · exact .after hfirst hrest

/-- The machine comes to the item too, whatever lies below. -/
theorem run {l : List α} {s : S} {f : F} (h : Breaks call stops l s f) (base : List α) :
    ∃ es below a t, Run (Pops call) (base ++ l.reverse, s) es (below ++ [a], t) ∧ stops a t f := by
  induction h generalizing base with
  | @now a rest s f hstop =>
    rw [List.reverse_cons, ← List.append_assoc]
    exact ⟨[], _, a, s, .nil _, hstop⟩
  | @inside a rest made s u e f hcall _ ih =>
    obtain ⟨es, below, b, t, hrun, hstop⟩ := ih (base ++ rest.reverse)
    rw [List.reverse_cons, ← List.append_assoc]
    rw [List.reverse_reverse] at hrun
    exact ⟨_, below, b, t, .cons (.pop hcall) hrun, hstop⟩
  | @later a rest made s u v e es f hcall hmade _ ih =>
    obtain ⟨fs, below, b, t, hrun, hstop⟩ := ih base
    have hdone := hmade.run (base ++ rest.reverse)
    rw [List.reverse_cons, ← List.append_assoc]
    rw [List.reverse_reverse] at hdone
    exact ⟨_, below, b, t, .cons (.pop hcall) (hdone.append hrun), hstop⟩

end Breaks

/-- The machine has an item on top that stops it exactly where the recursion comes to one. -/
theorem run_iff_breaks {F : Type} {stops : α → S → F → Prop} {stack : List α} {s : S} {f : F} :
    (∃ es below a t, Run (Pops call) (stack, s) es (below ++ [a], t) ∧ stops a t f) ↔
      Breaks call stops stack.reverse s f := by
  constructor
  · have key : ∀ {c d : List α × S} {es : List E}, Run (Pops call) c es d →
        ∀ below a, d.1 = below ++ [a] → stops a d.2 f → Breaks call stops c.1.reverse c.2 f := by
      intro c d es h
      induction h with
      | nil c =>
        intro below a hstack hstop
        rw [hstack, List.reverse_append]
        exact .now hstop
      | cons hpop _ ih =>
        intro below a hstack hstop
        cases hpop with
        | pop hcall =>
          have hrest := ih below a hstack hstop
          rw [List.reverse_append] at hrest
          rw [List.reverse_append]
          rcases hrest.split with hmade | ⟨fs, u, hmade, hbase⟩
          · exact .inside hcall hmade
          · exact .later hcall hmade hbase
    intro h
    obtain ⟨es, below, a, t, hrun, hstop⟩ := h
    exact key hrun below a rfl hstop
  · intro h
    have hrun := h.run []
    rwa [List.reverse_reverse] at hrun

end Lib
