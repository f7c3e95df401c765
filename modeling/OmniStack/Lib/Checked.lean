import Mathlib.Algebra.Order.Ring.Nat
import Mathlib.Control.Monad.Basic
import Mathlib.Data.List.Forall2

/-! Fixed-width arithmetic, with and without overflow checks.

A build with overflow checks stops at the first operation whose result does not
fit; a build without them wraps. Every operation here takes that choice as
`checks`, so "no operation wraps" is "the checked build does not stop". Where the result
fits both builds compute it (`add16_ok`, `sub16_ok`). An unchecked access is a fault when
it misses its object (`Exec.InBounds`). -/
namespace Lib

/-- Why a computation has no value. -/
inductive Fault where
  /-- a checked operation whose result does not fit -/
  | overflow
  /-- an assertion, an `unwrap` or a checked access that fails -/
  | panic
  /-- an unchecked access outside its object -/
  | outOfBounds
  /-- a loop that has not ended within the turns it was given -/
  | spin
  deriving DecidableEq, Repr

abbrev Exec (α : Type) := Except Fault α

namespace Exec
variable {α β ε : Type}

@[simp] theorem bind_eq_ok {x : Except ε α} {f : α → Except ε β} {b : β} :
    (x >>= f) = .ok b ↔ ∃ a, x = .ok a ∧ f a = .ok b := by
  cases x with
  | error e => exact ⟨fun h => (nomatch h), fun ⟨_, h, _⟩ => (nomatch h)⟩
  | ok a =>
    refine ⟨fun h => ⟨a, rfl, h⟩, ?_⟩
    rintro ⟨_, h, h'⟩
    cases h
    exact h'

theorem bind_eq_error {x : Except ε α} {f : α → Except ε β} {e : ε} :
    (x >>= f) = .error e ↔ x = .error e ∨ ∃ a, x = .ok a ∧ f a = .error e := by
  cases x with
  | error e' =>
    refine ⟨fun h => .inl (by cases h; rfl), ?_⟩
    rintro (h | ⟨_, h, _⟩)
    · cases h
      rfl
    · cases h
  | ok a =>
    refine ⟨fun h => .inr ⟨a, rfl, h⟩, ?_⟩
    rintro (h | ⟨_, h, h'⟩)
    · cases h
    · cases h
      exact h'

@[simp] theorem pure_eq_ok {a b : α} : (pure a : Except ε α) = .ok b ↔ a = b :=
  ⟨fun h => Except.ok.inj h, fun h => h ▸ rfl⟩

/-- A run over a list returns the entries its elements return, one each and in their order. -/
theorem mapM_eq_ok {f : α → Except ε β} {l : List α} {xs : List β} :
    l.mapM f = .ok xs ↔ List.Forall₂ (fun a b => f a = .ok b) l xs := by
  induction l generalizing xs with
  | nil =>
    rw [List.mapM_nil, pure_eq_ok, List.forall₂_nil_left_iff]
    exact eq_comm
  | cons a l ih =>
    rw [List.forall₂_cons_left_iff]
    simp only [List.mapM_cons, bind_eq_ok, pure_eq_ok, ih]
    constructor
    · intro ⟨b, hb, bs, hbs, hxs⟩
      exact ⟨b, bs, hb, hbs, hxs.symm⟩
    · intro ⟨b, bs, hb, hbs, hxs⟩
      exact ⟨b, hb, bs, hbs, hxs.symm⟩

/-- A run over a list returns if its elements do. -/
theorem mapM_isOk_iff {f : α → Except ε β} {l : List α} :
    (∃ xs, l.mapM f = .ok xs) ↔ ∀ a ∈ l, ∃ x, f a = .ok x := by
  simp only [mapM_eq_ok]
  induction l with
  | nil => exact ⟨fun _ _ h => (nomatch h), fun _ => ⟨[], .nil⟩⟩
  | cons a l ih =>
    rw [List.forall_mem_cons, ← ih]
    constructor
    · intro h
      obtain ⟨_, h⟩ := h
      cases h with
      | cons hfirst hrest => exact ⟨⟨_, hfirst⟩, _, hrest⟩
    · intro h
      obtain ⟨⟨x, hx⟩, xs, hxs⟩ := h
      exact ⟨x :: xs, .cons hx hxs⟩

/-- Running over a list in another order gives the results in another order. -/
theorem mapM_perm {f : α → Except ε β} {l l' : List α} (h : l.Perm l') {xs : List β}
    (hxs : l.mapM f = .ok xs) : ∃ xs', l'.mapM f = .ok xs' ∧ xs.Perm xs' := by
  induction h generalizing xs with
  | nil => exact ⟨xs, hxs, .refl _⟩
  | cons a _ ih =>
    simp only [List.mapM_cons, bind_eq_ok, pure_eq_ok] at hxs ⊢
    obtain ⟨b, hb, bs, hbs, rfl⟩ := hxs
    obtain ⟨bs', hbs', hperm⟩ := ih hbs
    exact ⟨b :: bs', ⟨b, hb, bs', hbs', rfl⟩, hperm.cons b⟩
  | swap a a' l =>
    simp only [List.mapM_cons, bind_eq_ok, pure_eq_ok] at hxs ⊢
    obtain ⟨b', hb', _, ⟨b, hb, bs, hbs, rfl⟩, rfl⟩ := hxs
    exact ⟨b :: b' :: bs, ⟨b, hb, _, ⟨b', hb', bs, hbs, rfl⟩, rfl⟩, .swap b b' bs⟩
  | trans _ _ ih₁ ih₂ =>
    obtain ⟨ys, hys, hperm₁⟩ := ih₁ hxs
    obtain ⟨zs, hzs, hperm₂⟩ := ih₂ hys
    exact ⟨zs, hzs, hperm₁.trans hperm₂⟩

@[simp] theorem ok_bind (a : α) (f : α → Except ε β) : (Except.ok a >>= f) = f a := rfl

end Exec

/-- An unchecked access to an array that holds this. -/
def getUnchecked {α : Type} : Option α → Exec α
  | some a => .ok a
  | none => .error .outOfBounds

@[simp] theorem getUnchecked_eq_ok {α : Type} {o : Option α} {a : α} :
    getUnchecked o = .ok a ↔ o = some a := by
  cases o with
  | none => exact ⟨fun h => (nomatch h), fun h => (nomatch h)⟩
  | some b => exact ⟨fun h => by cases h; rfl, fun h => by cases h; rfl⟩

/-- No unchecked access of the computation misses its object. -/
def Exec.InBounds {α : Type} (x : Exec α) : Prop := x ≠ .error .outOfBounds

namespace Exec.InBounds
variable {α β : Type}

theorem ok (a : α) : InBounds (.ok a) := fun h => nomatch h

theorem pure (a : α) : InBounds (Pure.pure a) := fun h => nomatch h

theorem bind {x : Exec α} {f : α → Exec β} (hx : x.InBounds)
    (hf : ∀ a, x = .ok a → (f a).InBounds) :
    (x >>= f).InBounds := by
  intro h
  rcases Exec.bind_eq_error.mp h with h | ⟨a, ha, h⟩
  · exact hx h
  · exact hf a ha h

theorem access {o : Option α} {a : α} (h : o = some a) : (getUnchecked o).InBounds := by
  rw [h]
  exact ok a

end Exec.InBounds

/-- Nothing goes wrong in the computation but a loop that does not end. -/
def Exec.OnlySpins {α : Type} (x : Exec α) : Prop := ∀ f, x = .error f → f = .spin

namespace Exec.OnlySpins
variable {α β : Type}

theorem ok (a : α) : OnlySpins (.ok a) := nofun

theorem pure (a : α) : OnlySpins (Pure.pure a) := nofun

theorem bind {x : Exec α} {f : α → Exec β} (hx : x.OnlySpins)
    (hf : ∀ a, x = .ok a → (f a).OnlySpins) : (x >>= f).OnlySpins := by
  intro g h
  rcases Exec.bind_eq_error.mp h with h | ⟨a, ha, h⟩
  · exact hx g h
  · exact hf a ha g h

theorem access {o : Option α} {a : α} (h : o = some a) : (getUnchecked o).OnlySpins := by
  rw [h]
  exact ok a

end Exec.OnlySpins

/-! ### 16 bits -/

def add16 (checks : Bool) (a b : UInt16) : Exec UInt16 :=
  if checks && decide (2 ^ 16 ≤ a.toNat + b.toNat) then .error .overflow else .ok (a + b)

def sub16 (checks : Bool) (a b : UInt16) : Exec UInt16 :=
  if checks && decide (a.toNat < b.toNat) then .error .overflow else .ok (a - b)

theorem toNat_add16 {a b : UInt16} (h : a.toNat + b.toNat < 2 ^ 16) :
    (a + b).toNat = a.toNat + b.toNat := by
  rw [UInt16.toNat_add]
  exact Nat.mod_eq_of_lt h

theorem toNat_sub16 {a b : UInt16} (h : b.toNat ≤ a.toNat) : (a - b).toNat = a.toNat - b.toNat :=
  UInt16.toNat_sub_of_le a b (UInt16.le_iff_toNat_le.mpr h)

/-- A sum that fits is computed by either build. -/
theorem add16_ok (checks : Bool) {a b : UInt16} (h : a.toNat + b.toNat < 2 ^ 16) :
    add16 checks a b = .ok (a + b) := by
  have hfits : decide (2 ^ 16 ≤ a.toNat + b.toNat) = false := decide_eq_false (by omega)
  rw [add16, hfits, Bool.and_false]
  rfl

theorem sub16_ok (checks : Bool) {a b : UInt16} (h : b.toNat ≤ a.toNat) :
    sub16 checks a b = .ok (a - b) := by
  have : ¬ a.toNat < b.toNat := by omega
  simp [sub16, this]

/-- Whichever build computes a sum, it is the wrapped one. -/
theorem add16_eq_ok {checks : Bool} {a b c : UInt16} (h : add16 checks a b = .ok c) :
    c = a + b := by
  unfold add16 at h
  split at h
  · cases h
  · exact (Except.ok.inj h).symm

theorem sub16_eq_ok {checks : Bool} {a b c : UInt16} (h : sub16 checks a b = .ok c) :
    c = a - b := by
  unfold sub16 at h
  split at h
  · cases h
  · exact (Except.ok.inj h).symm

theorem add16_overflow {a b : UInt16} (h : 2 ^ 16 ≤ a.toNat + b.toNat) :
    add16 true a b = .error .overflow := by
  rw [add16, decide_eq_true h]
  rfl

theorem sub16_overflow {a b : UInt16} (h : a.toNat < b.toNat) :
    sub16 true a b = .error .overflow := by simp [sub16, h]

/-- The checked difference exists exactly when it is not negative. -/
theorem sub16_checked_eq {a b c : UInt16} :
    sub16 true a b = .ok c ↔ b.toNat ≤ a.toNat ∧ c = a - b := by
  by_cases h : b.toNat ≤ a.toNat
  · rw [sub16_ok true h]
    exact ⟨fun he => ⟨h, (Except.ok.inj he).symm⟩, fun ⟨_, he⟩ => by rw [he]⟩
  · rw [sub16_overflow (by omega)]
    exact ⟨fun he => (nomatch he), fun ⟨hle, _⟩ => absurd hle h⟩

theorem sub16_inBounds (checks : Bool) (a b : UInt16) : (sub16 checks a b).InBounds := by
  unfold sub16
  split <;> exact fun h => nomatch h

/-! ### 32 bits -/

/-- `a << n`. Without checks the hardware takes the shift modulo the width. -/
def shl32 (checks : Bool) (a : UInt32) (n : UInt8) : Exec UInt32 :=
  if checks && decide (32 ≤ n) then .error .overflow else .ok (a <<< (n.toUInt32 % 32))

/-! ### 64 bits -/

def add64 (checks : Bool) (a b : UInt64) : Exec UInt64 :=
  if checks && decide (2 ^ 64 ≤ a.toNat + b.toNat) then .error .overflow else .ok (a + b)

def sub64 (checks : Bool) (a b : UInt64) : Exec UInt64 :=
  if checks && decide (a.toNat < b.toNat) then .error .overflow else .ok (a - b)

theorem add64_eq_ok {checks : Bool} {a b c : UInt64} (h : add64 checks a b = .ok c) :
    c = a + b := by
  unfold add64 at h
  split at h
  · cases h
  · exact (Except.ok.inj h).symm

theorem sub64_eq_ok {checks : Bool} {a b c : UInt64} (h : sub64 checks a b = .ok c) :
    c = a - b := by
  unfold sub64 at h
  split at h
  · cases h
  · exact (Except.ok.inj h).symm

theorem add64_inBounds (checks : Bool) (a b : UInt64) : (add64 checks a b).InBounds := by
  unfold add64
  split <;> exact fun h => nomatch h

theorem sub64_inBounds (checks : Bool) (a b : UInt64) : (sub64 checks a b).InBounds := by
  unfold sub64
  split <;> exact fun h => nomatch h

/-! ### The native word -/

/-- `a - b` on 64-bit words. -/
def subWord (checks : Bool) (a b : Nat) : Exec Nat :=
  if a < b then (if checks then .error .overflow else .ok (a + 2 ^ 64 - b)) else .ok (a - b)

theorem subWord_ok (checks : Bool) {a b : Nat} (h : b ≤ a) : subWord checks a b = .ok (a - b) := by
  simp [subWord, show ¬ a < b by omega]

theorem subWord_inBounds (checks : Bool) (a b : Nat) : (subWord checks a b).InBounds := by
  unfold subWord
  split
  · split <;> exact fun h => nomatch h
  · exact fun h => nomatch h

end Lib
