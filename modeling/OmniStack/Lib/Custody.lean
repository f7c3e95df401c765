import Mathlib.Data.List.Nodup

/-! Journals of objects that are allocated and taken.

An object is `Outstanding` from its allocation until something happens to it again. Where
the objects of a store are distinct and outstanding, some are taken and others allocated in
their place, the store's objects are so again (`outstanding_refilled`). -/
namespace Lib

/-- What happens to the objects `A` with contents `C`. -/
inductive Custody (A C : Type) where
  | allocated (a : A)
  /-- taken, with what is in it -/
  | taken (a : A) (content : C)

namespace Custody
variable {A C : Type} {l later : List (Custody A C)} {a : A}

def object : Custody A C → A
  | allocated a => a
  | taken a _ => a

def takes : Custody A C → Option (A × C)
  | allocated _ => none
  | taken a content => some (a, content)

/-- The objects that were taken, in order. -/
def takenOf (l : List (Custody A C)) : List (A × C) := l.filterMap takes

/-- The object has been allocated, and nothing has happened to it since. -/
def Outstanding (l : List (Custody A C)) (a : A) : Prop :=
  ∃ before after, l = before ++ .allocated a :: after ∧ ∀ ev ∈ after, ev.object ≠ a

theorem Outstanding.append (h : Outstanding l a) (hlater : ∀ ev ∈ later, ev.object ≠ a) :
    Outstanding (l ++ later) a := by
  obtain ⟨before, after, rfl, hafter⟩ := h
  refine ⟨before, after ++ later, by rw [List.append_assoc]; rfl, fun ev hev => ?_⟩
  rcases List.mem_append.mp hev with hev | hev
  · exact hafter ev hev
  · exact hlater ev hev

/-- The object has been taken, and nothing has happened to it since. -/
def Gone (l : List (Custody A C)) (a : A) : Prop :=
  ∃ before content after, l = before ++ .taken a content :: after ∧ ∀ ev ∈ after, ev.object ≠ a

/-- The last thing that happened to an object is one thing. -/
theorem Outstanding.not_gone (h : Outstanding l a) : ¬ Gone l a := by
  obtain ⟨before, after, rfl, hafter⟩ := h
  intro hgone
  obtain ⟨before', content, after', heq, hafter'⟩ := hgone
  rcases List.append_eq_append_iff.mp heq with ⟨between, _, heq⟩ | ⟨between, _, heq⟩ <;>
  cases between with
  | nil => cases heq
  | cons ev between =>
    simp only [List.cons_append, List.cons.injEq] at heq
    obtain ⟨_, rfl⟩ := heq
    first
    | exact hafter (.taken a content) (by simp) rfl
    | exact hafter' (.allocated a) (by simp) rfl

/-- Where something happens to distinct objects in turn, it is the last thing that happens to
each. -/
theorem last_of_map (l : List (Custody A C)) {f : A → Custody A C} (hf : ∀ a, (f a).object = a)
    {objects : List A} (hnodup : objects.Nodup) (ha : a ∈ objects) :
    ∃ before after, l ++ objects.map f = before ++ f a :: after ∧
      ∀ ev ∈ after, ev.object ≠ a := by
  obtain ⟨before, after, rfl⟩ := List.append_of_mem ha
  refine ⟨l ++ before.map f, after.map f, ?_, fun ev hev => ?_⟩
  · rw [List.map_append, List.append_assoc]
    rfl
  · obtain ⟨b, hb, rfl⟩ := List.mem_map.mp hev
    have hnot : a ∉ after := (List.nodup_cons.mp (List.nodup_append.mp hnodup).2.1).1
    rw [hf]
    exact fun heq => hnot (heq ▸ hb)

theorem outstanding_allocated (l : List (Custody A C)) {new : List A} (hnodup : new.Nodup)
    (ha : a ∈ new) : Outstanding (l ++ new.map .allocated) a :=
  last_of_map l (fun _ => rfl) hnodup ha

theorem gone_taken (l : List (Custody A C)) (content : A → C) {sent : List A}
    (hnodup : sent.Nodup) (ha : a ∈ sent) :
    Gone (l ++ sent.map fun a => .taken a (content a)) a := by
  obtain ⟨before, after, hlast⟩ := last_of_map l (f := fun a => .taken a (content a))
    (fun _ => rfl) hnodup ha
  exact ⟨before, content a, after, hlast⟩

/-- Some objects are taken and new ones allocated: the others and the new ones are distinct
and outstanding. -/
theorem outstanding_refilled {sent rest new : List A} (content : A → C)
    (hnodup : (sent ++ rest).Nodup) (hout : ∀ a ∈ rest, Outstanding l a) (hnew : new.Nodup)
    (hfresh : ∀ a ∈ new, ¬ Outstanding (l ++ sent.map fun a => .taken a (content a)) a) :
    (new ++ rest).Nodup ∧ ∀ a ∈ new ++ rest,
      Outstanding (l ++ (sent.map fun a => .taken a (content a)) ++ new.map .allocated) a := by
  obtain ⟨_, hrest, hapart⟩ := List.nodup_append.mp hnodup
  have hstill : ∀ a ∈ rest, Outstanding (l ++ sent.map fun a => .taken a (content a)) a := by
    intro a ha
    apply (hout a ha).append
    intro ev hev
    obtain ⟨b, hb, rfl⟩ := List.mem_map.mp hev
    exact hapart b hb a ha
  have hdisjoint : ∀ a ∈ new, ∀ b ∈ rest, a ≠ b :=
    fun a ha b hb heq => hfresh a ha (heq ▸ hstill b hb)
  refine ⟨List.nodup_append.mpr ⟨hnew, hrest, hdisjoint⟩, fun a ha => ?_⟩
  rcases List.mem_append.mp ha with ha | ha
  · exact outstanding_allocated _ hnew ha
  · apply (hstill a ha).append
    intro ev hev
    obtain ⟨b, hb, rfl⟩ := List.mem_map.mp hev
    exact hdisjoint b hb a ha

/-! ### Taken once -/

/-- After `l`, no object is taken that is gone already. -/
def Once (l later : List (Custody A C)) : Prop :=
  ∀ before a content after, later = before ++ .taken a content :: after → ¬ Gone (l ++ before) a

theorem Once.nil : Once l [] := by
  intro before a content after h
  cases before <;> cases h

theorem Once.append {more : List (Custody A C)} (h : Once l later)
    (hmore : Once (l ++ later) more) : Once l (later ++ more) := by
  intro before a content after heq
  rcases List.append_eq_append_iff.mp heq with ⟨between, rfl, hmid⟩ | ⟨between, rfl, hmid⟩
  · rw [← List.append_assoc]
    exact hmore between a content after hmid
  · cases between with
    | nil =>
      rw [List.append_nil] at hmore
      exact List.append_nil (l ++ before) ▸ hmore [] a content after hmid.symm
    | cons ev between =>
      simp only [List.cons_append, List.cons.injEq] at hmid
      obtain ⟨rfl, _⟩ := hmid
      exact h before a content between rfl

theorem Once.allocated (new : List A) : Once l (new.map Custody.allocated) := by
  intro before a content after heq
  have hmem : Custody.taken a content ∈ new.map Custody.allocated := by
    rw [heq]
    exact List.mem_append_right _ List.mem_cons_self
  obtain ⟨b, _, hb⟩ := List.mem_map.mp hmem
  cases hb

/-- Distinct objects that are outstanding are taken once. -/
theorem Once.taken (content : A → C) {sent : List A} (hnodup : sent.Nodup)
    (hout : ∀ a ∈ sent, Outstanding l a) : Once l (sent.map fun a => .taken a (content a)) := by
  induction sent generalizing l with
  | nil => exact .nil
  | cons a rest ih =>
    obtain ⟨hnot, hnodup⟩ := List.nodup_cons.mp hnodup
    have hfirst : Once l [Custody.taken a (content a)] := by
      intro before b c after heq
      cases before with
      | nil =>
        simp only [List.nil_append, List.cons.injEq, Custody.taken.injEq] at heq
        obtain ⟨⟨rfl, _⟩, _⟩ := heq
        rw [List.append_nil]
        exact (hout a List.mem_cons_self).not_gone
      | cons ev before => cases before <;> cases heq
    apply hfirst.append (ih hnodup _)
    intro b hb
    apply (hout b (List.mem_cons_of_mem _ hb)).append
    intro ev hev
    rw [List.mem_singleton.mp hev]
    intro (heq : a = b)
    exact hnot (heq ▸ hb)

theorem takenOf_allocated (l : List (Custody A C)) (new : List A) :
    takenOf (l ++ new.map .allocated) = takenOf l := by
  have hnone : (new.map allocated).filterMap (takes (C := C)) = [] := by
    apply List.filterMap_eq_nil_iff.mpr
    intro ev hev
    obtain ⟨a, _, rfl⟩ := List.mem_map.mp hev
    rfl
  rw [takenOf, List.filterMap_append, hnone, List.append_nil]
  rfl

theorem takenOf_taken (l : List (Custody A C)) (sent : List A) (content : A → C) :
    takenOf (l ++ sent.map fun a => .taken a (content a)) =
      takenOf l ++ sent.map fun a => (a, content a) := by
  have hall : (sent.map fun a => taken a (content a)).filterMap takes =
      sent.map fun a => (a, content a) := by
    rw [List.filterMap_map, ← List.filterMap_eq_map]
    rfl
  rw [takenOf, List.filterMap_append, hall]
  rfl

end Custody
end Lib
