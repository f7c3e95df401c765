import OmniStack.Lib.Checked
import Mathlib.Data.Fin.Basic
import Mathlib.Logic.Function.Basic

/-! Thread ids.

The server gives out ids from a table of fixed size, going round. An id is used from the
`next` that returns it until a `free` of it, whoever asks for that. -/
namespace OmniStack
open Lib

def maxThreadNum : Nat := 2048

/-- `NEXT_THREAD_ID` and `THREAD_ID_USED`. -/
structure ThreadId where
  nextThreadId : Fin maxThreadNum
  threadIdUsed : Fin maxThreadNum → Bool

namespace ThreadId

def initial : ThreadId := ⟨⟨0, by decide⟩, fun _ => false⟩

/-- `NEXT_THREAD_ID = (NEXT_THREAD_ID + 1) % MAX_THREAD_NUM` -/
def advance (t : ThreadId) : ThreadId :=
  {t with nextThreadId := ⟨(t.nextThreadId + 1) % maxThreadNum, Nat.mod_lt _ (by decide)⟩}

/-- The loop of `next`. -/
def nextFrom : Nat → ThreadId → Option UInt32 × ThreadId
  | 0, t => (none, t)
  | n + 1, t =>
    if t.threadIdUsed t.nextThreadId then nextFrom n t.advance
    else
      let used := Function.update t.threadIdUsed t.nextThreadId true
      (some (UInt32.ofNat t.nextThreadId), {t.advance with threadIdUsed := used})

def next (t : ThreadId) : Option UInt32 × ThreadId := nextFrom maxThreadNum t

/-- `free`: the index is checked. -/
def free (id : UInt32) (t : ThreadId) : Exec ThreadId :=
  if h : id.toNat < maxThreadNum then
    .ok {t with threadIdUsed := Function.update t.threadIdUsed ⟨id.toNat, h⟩ false}
  else .error .panic

/-- The id is marked in the table. -/
def Used (t : ThreadId) (id : UInt32) : Prop :=
  ∃ h : id.toNat < maxThreadNum, t.threadIdUsed ⟨id.toNat, h⟩ = true

theorem toNat_ofFin (i : Fin maxThreadNum) : (UInt32.ofNat i).toNat = i := by
  have hlt : (i : Nat) < 2 ^ 32 := Nat.lt_of_lt_of_le i.isLt (by decide)
  rw [UInt32.toNat_ofNat']
  exact Nat.mod_eq_of_lt hlt

theorem used_ofFin {t : ThreadId} {i : Fin maxThreadNum} :
    t.Used (UInt32.ofNat i) ↔ t.threadIdUsed i = true := by
  have hi := toNat_ofFin i
  constructor
  · intro h
    obtain ⟨h, hused⟩ := h
    have hfin : (⟨(UInt32.ofNat i).toNat, h⟩ : Fin maxThreadNum) = i := Fin.ext hi
    rwa [hfin] at hused
  · intro hused
    have hlt : (UInt32.ofNat i).toNat < maxThreadNum := hi.symm ▸ i.isLt
    have hfin : (⟨(UInt32.ofNat i).toNat, hlt⟩ : Fin maxThreadNum) = i := Fin.ext hi
    exact ⟨hlt, by rwa [hfin]⟩

theorem initial_used (id : UInt32) : ¬ initial.Used id := by
  intro h
  obtain ⟨_, h⟩ := h
  cases h

/-- Setting one entry of the table. -/
theorem used_update {t : ThreadId} {i nextId : Fin maxThreadNum} {b : Bool} {id : UInt32} :
    (⟨nextId, Function.update t.threadIdUsed i b⟩ : ThreadId).Used id ↔
      if id = UInt32.ofNat i then b = true else t.Used id := by
  by_cases hid : id = UInt32.ofNat i
  · subst hid
    rw [used_ofFin, if_pos rfl]
    have hself : Function.update t.threadIdUsed i b i = b := Function.update_self ..
    exact iff_of_eq (congrArg (· = true) hself)
  · rw [if_neg hid]
    have hne (h : id.toNat < maxThreadNum) : (⟨id.toNat, h⟩ : Fin maxThreadNum) ≠ i := by
      intro heq
      obtain rfl := heq
      exact hid UInt32.ofNat_toNat.symm
    have hother (h : id.toNat < maxThreadNum) :
        Function.update t.threadIdUsed i b ⟨id.toNat, h⟩ = t.threadIdUsed ⟨id.toNat, h⟩ :=
      Function.update_of_ne (hne h) _ _
    exact exists_congr fun h => iff_of_eq (congrArg (· = true) (hother h))

theorem nextFrom_some {n : Nat} {t t' : ThreadId} {id : UInt32}
    (h : nextFrom n t = (some id, t')) :
    id.toNat < maxThreadNum ∧ ¬ t.Used id ∧ ∀ x, t'.Used x ↔ x = id ∨ t.Used x := by
  induction n generalizing t with
  | zero => cases h
  | succ n ih =>
    rw [nextFrom] at h
    split at h
    · exact ih (t := t.advance) h
    · rename_i hfree
      cases h
      refine ⟨(toNat_ofFin _).symm ▸ t.nextThreadId.isLt, mt used_ofFin.mp hfree, fun x => ?_⟩
      refine used_update.trans ?_
      by_cases hx : x = UInt32.ofNat t.nextThreadId <;> simp [hx]

theorem nextFrom_none {n : Nat} {t t' : ThreadId} (h : nextFrom n t = (none, t')) :
    t'.threadIdUsed = t.threadIdUsed := by
  induction n generalizing t with
  | zero =>
    cases h
    rfl
  | succ n ih =>
    rw [nextFrom] at h
    split at h
    · exact ih (t := t.advance) h
    · cases h

/-- An id that is given out was not used, and is the only one whose mark changes. -/
theorem next_some {t t' : ThreadId} {id : UInt32} (h : t.next = (some id, t')) :
    id.toNat < maxThreadNum ∧ ¬ t.Used id ∧ ∀ x, t'.Used x ↔ x = id ∨ t.Used x :=
  nextFrom_some h

/-- Where none is given out the table stays. -/
theorem next_none {t t' : ThreadId} (h : t.next = (none, t')) (x : UInt32) :
    t'.Used x ↔ t.Used x := by
  unfold Used
  rw [nextFrom_none h]

/-- The pointer's id, if it is free. -/
theorem next_eq {t : ThreadId} (h : t.threadIdUsed t.nextThreadId = false) :
    t.next = (some (UInt32.ofNat t.nextThreadId),
      {t.advance with threadIdUsed := Function.update t.threadIdUsed t.nextThreadId true}) := by
  show nextFrom (2047 + 1) t = _
  rw [nextFrom, h]
  rfl

theorem free_ok {t t' : ThreadId} {id : UInt32} (h : t.free id = .ok t') :
    id.toNat < maxThreadNum ∧ ∀ x, t'.Used x ↔ x ≠ id ∧ t.Used x := by
  unfold free at h
  split at h
  · rename_i hlt
    cases h
    refine ⟨hlt, fun x => used_update.trans ?_⟩
    rw [UInt32.ofNat_toNat]
    by_cases hx : x = id <;> simp [hx]
  · cases h

/-- `free` stops the thread exactly at the ids beyond the table. -/
theorem free_isOk_iff {t : ThreadId} {id : UInt32} :
    (∃ t', t.free id = .ok t') ↔ id.toNat < maxThreadNum := by
  unfold free
  split
  · rename_i h
    exact ⟨fun _ => h, fun _ => ⟨_, rfl⟩⟩
  · rename_i h
    refine ⟨?_, fun hlt => absurd hlt h⟩
    intro h
    obtain ⟨_, h⟩ := h
    cases h

/-- The table when `n` ids have been given out and none has come back. -/
def table (n : Nat) : ThreadId :=
  ⟨⟨n % maxThreadNum, Nat.mod_lt _ (by decide)⟩, fun i => decide ((i : Nat) < n)⟩

theorem next_table {n : Nat} (h : n < maxThreadNum) :
    (table n).next = (some (UInt32.ofNat n), table (n + 1)) := by
  have hn : n % maxThreadNum = n := Nat.mod_eq_of_lt h
  have hfree : (table n).threadIdUsed (table n).nextThreadId = false := by
    simp only [table, hn, Nat.lt_irrefl, decide_false]
  have hid : ((table n).nextThreadId : Nat) = n := hn
  have hpointer : (table n).advance.nextThreadId = (table (n + 1)).nextThreadId := by
    apply Fin.ext
    show (n % maxThreadNum + 1) % maxThreadNum = (n + 1) % maxThreadNum
    rw [hn]
  have hused : Function.update (table n).threadIdUsed (table n).nextThreadId true =
      (table (n + 1)).threadIdUsed := by
    funext i
    by_cases hi : i = (table n).nextThreadId
    · subst hi
      rw [Function.update_self]
      exact (decide_eq_true (by omega)).symm
    · rw [Function.update_of_ne hi]
      have hne : (i : Nat) ≠ n := fun h => hi (Fin.ext (h.trans hid.symm))
      exact decide_eq_decide.mpr (by omega)
  rw [ThreadId.next_eq hfree, hid, hused]
  show (_, (⟨(table n).advance.nextThreadId, _⟩ : ThreadId)) = _
  rw [hpointer]

theorem table_zero : table 0 = initial := by
  simp [initial, table]

/-- The first id, from a table that has given out none. -/
theorem next_initial : initial.next = (some 0, table 1) := by
  rw [← table_zero]
  exact next_table (by decide)

end ThreadId
end OmniStack
