import OmniStack.Lib.Run
import OmniStack.ThreadId

/-! Going round the table of thread ids.

`next` looks at the ids from the pointer on, in a circle, and takes the first that is
free. Over any sequence of calls the table marks the ids that are out
(`used_iff_outstanding`), so what a call passes is out, and the pointer meets an id again
only after it has met every other (`allocates`). -/
namespace OmniStack
open Lib

namespace ThreadId

/-! ### One call -/

/-- The ids the loop of `next` passes over. -/
def passedFrom : Nat → ThreadId → List UInt32
  | 0, _ => []
  | n + 1, t =>
    if t.threadIdUsed t.nextThreadId then
      UInt32.ofNat t.nextThreadId :: passedFrom n t.advance
    else []

def passed (t : ThreadId) : List UInt32 := passedFrom maxThreadNum t

theorem mod_lt_maxThreadNum (i : Nat) : i % maxThreadNum < maxThreadNum :=
  Nat.mod_lt i (by decide)

/-- The place a count comes to, going round. -/
def slot (i : Nat) : Fin maxThreadNum := ⟨i % maxThreadNum, mod_lt_maxThreadNum i⟩

theorem slot_self (i : Fin maxThreadNum) : slot i = i := Fin.ext (Nat.mod_eq_of_lt i.isLt)

theorem slot_eq_iff {i j : Nat} : slot i = slot j ↔ i % maxThreadNum = j % maxThreadNum := by
  rw [slot, slot, Fin.mk.injEq]

theorem slot_add_length (i : Nat) : slot (i + maxThreadNum) = slot i :=
  slot_eq_iff.mpr (Nat.add_mod_right i maxThreadNum)

/-- Every place is met in the round that starts after a given one, that one last. -/
theorem exists_slot (i : Nat) (y : Fin maxThreadNum) (h : y ≠ slot i) :
    ∃ j, j + 1 < maxThreadNum ∧ slot (i + 1 + j) = y := by
  have hy := y.isLt
  have hi : i % maxThreadNum < maxThreadNum := Nat.mod_lt _ (by decide)
  have hne : (y : Nat) ≠ i % maxThreadNum := fun heq => h (Fin.ext heq)
  have hdecomp := Nat.div_add_mod i maxThreadNum
  simp only [maxThreadNum] at hy hi hne hdecomp ⊢
  by_cases hlt : i % 2048 < y
  · refine ⟨y - i % 2048 - 1, by omega, Fin.ext ?_⟩
    simp only [slot, maxThreadNum]
    omega
  · refine ⟨y + 2048 - i % 2048 - 1, by omega, Fin.ext ?_⟩
    simp only [slot, maxThreadNum]
    omega

theorem advance_slot {t : ThreadId} {q : Nat} (h : t.nextThreadId = slot q) :
    t.advance.nextThreadId = slot (q + 1) := by
  apply Fin.ext
  simp only [advance, h, slot, maxThreadNum]
  omega

/-- The loop passes a run of used ids, to the first that is free if there is one. -/
structure Scans (n : Nat) (t : ThreadId) (q k : Nat) : Prop where
  bound : k ≤ n
  passes : passedFrom n t = (List.range k).map fun j => UInt32.ofNat (slot (q + j))
  used : ∀ j < k, t.threadIdUsed (slot (q + j)) = true
  finds : k < n → t.threadIdUsed (slot (q + k)) = false ∧
    nextFrom n t = (some (UInt32.ofNat (slot (q + k))),
      ⟨slot (q + k + 1), Function.update t.threadIdUsed (slot (q + k)) true⟩)
  misses : k = n → nextFrom n t = (none, ⟨slot (q + n), t.threadIdUsed⟩)

theorem exists_scans (n : Nat) {t : ThreadId} {q : Nat} (hq : t.nextThreadId = slot q) :
    ∃ k, Scans n t q k := by
  induction n generalizing t q with
  | zero =>
    refine ⟨0, Nat.le_refl 0, rfl, fun j hj => absurd hj (Nat.not_lt_zero j),
      fun h => absurd h (Nat.lt_irrefl 0), fun _ => ?_⟩
    rw [nextFrom, Nat.add_zero, ← hq]
  | succ n ih =>
    cases hused : t.threadIdUsed t.nextThreadId with
    | false =>
      refine ⟨0, Nat.zero_le _, ?_, fun j hj => absurd hj (Nat.not_lt_zero j), fun _ => ?_,
        fun h => absurd h (by omega)⟩
      · rw [passedFrom, hused]
        rfl
      · rw [Nat.add_zero, ← hq, nextFrom, hused]
        refine ⟨rfl, ?_⟩
        rw [← advance_slot hq]
        rfl
    | true =>
      obtain ⟨k, h⟩ := ih (advance_slot hq)
      have hshift (j : Nat) : q + 1 + j = q + (j + 1) := by omega
      refine ⟨k + 1, Nat.succ_le_succ h.bound, ?_, fun j hj => ?_, fun hk => ?_, fun hk => ?_⟩
      · rw [passedFrom, if_pos hused, h.passes, List.range_succ_eq_map, List.map_cons,
          List.map_map, hq]
        simp only [Function.comp_def, hshift, Nat.add_zero, Nat.succ_eq_add_one]
      · cases j with
        | zero => rwa [Nat.add_zero, ← hq]
        | succ j =>
          rw [← hshift]
          exact h.used j (by omega)
      · rw [nextFrom, if_pos hused, ← hshift]
        exact h.finds (by omega)
      · rw [nextFrom, if_pos hused, ← hshift]
        exact h.misses (by omega)

/-- No id is given out exactly if all are used, and then nothing changes. -/
theorem next_none_iff (t : ThreadId) :
    t.next.1 = none ↔ ∀ i, t.threadIdUsed i = true := by
  obtain ⟨k, h⟩ := exists_scans maxThreadNum (slot_self t.nextThreadId).symm
  constructor
  · intro hnone i
    have hk : k = maxThreadNum := by
      by_contra hne
      have hsome := (h.finds (Nat.lt_of_le_of_ne h.bound hne)).2
      rw [next, hsome] at hnone
      cases hnone
    by_cases hi : i = t.nextThreadId
    · have hfirst := h.used 0 (hk ▸ (by decide))
      rwa [Nat.add_zero, slot_self, ← hi] at hfirst
    · obtain ⟨j, hj, rfl⟩ := exists_slot t.nextThreadId i (by rwa [slot_self])
      rw [Nat.add_assoc]
      exact h.used (1 + j) (by omega)
  · intro hall
    have hk : k = maxThreadNum := by
      by_contra hne
      have hfree := (h.finds (Nat.lt_of_le_of_ne h.bound hne)).1
      rw [hall] at hfree
      cases hfree
    rw [next, h.misses hk]

theorem next_full {t : ThreadId} (h : t.next.1 = none) : t.next.2 = t := by
  obtain ⟨k, hscan⟩ := exists_scans maxThreadNum (slot_self t.nextThreadId).symm
  by_cases hk : k = maxThreadNum
  · rw [next, hscan.misses hk, slot_add_length, slot_self]
  · have hsome := (hscan.finds (Nat.lt_of_le_of_ne hscan.bound hk)).2
    rw [next, hsome] at h
    cases h

/-! ### Any sequence of calls -/

/-- A call, with the ids it passed over and what it returned. -/
inductive Event where
  | next (passed : List UInt32) (result : Option UInt32)
  | free (id : UInt32)

inductive Step : ThreadId → Event → ThreadId → Prop where
  | next (t : ThreadId) : Step t (.next t.passed t.next.1) t.next.2
  | free {t t' : ThreadId} {id : UInt32} (h : t.free id = .ok t') : Step t (.free id) t'

/-- The id has been returned, and not been freed since. -/
def Outstanding (l : List Event) (id : UInt32) : Prop :=
  ∃ before passed after, l = before ++ .next passed (some id) :: after ∧ .free id ∉ after

theorem not_outstanding_nil (id : UInt32) : ¬ Outstanding [] id := by
  intro h
  obtain ⟨before, _, _, heq, _⟩ := h
  cases before <;> cases heq

theorem outstanding_snoc {l : List Event} {ev : Event} {id : UInt32} :
    Outstanding (l ++ [ev]) id ↔
      (∃ passed, ev = .next passed (some id)) ∨ ev ≠ .free id ∧ Outstanding l id := by
  constructor
  · intro h
    obtain ⟨before, passed, after, heq, hfree⟩ := h
    rcases List.eq_nil_or_concat after with rfl | ⟨after, last, rfl⟩
    · have hlast := List.append_inj' heq rfl
      exact .inl ⟨passed, (List.cons.inj hlast.2).1⟩
    · rw [List.concat_eq_append] at heq hfree
      rw [← List.cons_append, ← List.append_assoc] at heq
      obtain ⟨rfl, hev⟩ := List.append_inj' heq rfl
      obtain rfl := (List.cons.inj hev).1
      rw [List.mem_append, not_or, List.mem_singleton] at hfree
      exact .inr ⟨fun h => hfree.2 h.symm, before, passed, after, rfl, hfree.1⟩
  · intro h
    rcases h with ⟨passed, rfl⟩ | ⟨hne, before, passed, after, rfl, hfree⟩
    · exact ⟨l, passed, [], rfl, List.not_mem_nil⟩
    · refine ⟨before, passed, after ++ [ev], by simp, ?_⟩
      rw [List.mem_append, not_or, List.mem_singleton]
      exact ⟨hfree, fun h => hne h.symm⟩

/-- The table marks the ids that are out. -/
theorem used_iff_outstanding {l : List Event} {t : ThreadId} (h : Run Step initial l t)
    (id : UInt32) : t.Used id ↔ Outstanding l id := by
  refine Run.history (C := fun _ => True)
    (P := fun (l : List Event) (t : ThreadId) => ∀ id, t.Used id ↔ Outstanding l id)
    ?_ h (fun _ _ => trivial) (fun id => ?_) id
  · intro l t ev t' hinv _ hstep id
    rw [outstanding_snoc, ← hinv id]
    cases hstep with
    | next =>
      cases hnext : t.next with
      | mk result t' =>
        cases result with
        | none =>
          rw [next_none hnext id]
          simp
        | some new =>
          rw [(next_some hnext).2.2 id]
          simp [eq_comm]
    | free hfree =>
      rw [(free_ok hfree).2 id]
      simp [eq_comm]
  · exact iff_of_false (initial_used id) (not_outstanding_nil id)

/-- An id that is out can be freed. -/
theorem free_outstanding {l : List Event} {t : ThreadId} (h : Run Step initial l t) {id : UInt32}
    (hout : Outstanding l id) : ∃ t', t.free id = .ok t' := by
  obtain ⟨hlt, _⟩ := (used_iff_outstanding h id).mpr hout
  exact free_isOk_iff.mpr hlt

/-- What a call returns is in the table and was not out. -/
theorem returned_fresh {before after : List Event} {t : ThreadId} {passed : List UInt32}
    {id : UInt32} (h : Run Step initial (before ++ .next passed (some id) :: after) t) :
    id.toNat < maxThreadNum ∧ ¬ Outstanding before id := by
  obtain ⟨u, hbefore, hrest⟩ := h.split
  rw [← used_iff_outstanding hbefore]
  generalize hev : Event.next passed (some id) = ev at hrest
  cases hrest with
  | cons hstep _ =>
    cases hstep with
    | free => cases hev
    | next =>
      have hres : u.next = (some id, u.next.2) := Prod.ext (Event.next.inj hev).2.symm rfl
      exact ⟨(next_some hres).1, (next_some hres).2.1⟩

/-- A call returns none exactly if every id is out. -/
theorem next_none_iff_outstanding {l : List Event} {t : ThreadId} (h : Run Step initial l t) :
    t.next.1 = none ↔ ∀ id : UInt32, id.toNat < maxThreadNum → Outstanding l id := by
  rw [next_none_iff]
  constructor
  · intro hall id hid
    rw [← used_iff_outstanding h]
    exact ⟨hid, hall _⟩
  · intro hall i
    rw [← used_ofFin, used_iff_outstanding h]
    exact hall _ ((toNat_ofFin i).symm ▸ i.isLt)

/-! ### How far apart two returns of an id are -/

/-- The id was out when a call passed over it. -/
def PassedOut (earlier later : List Event) (id : UInt32) : Prop :=
  ∃ before passed result after, later = before ++ .next passed result :: after ∧
    id ∈ passed ∧ Outstanding (earlier ++ before) id

/-- The id was returned, or passed over because it was out. -/
def Met (earlier later : List Event) (id : UInt32) : Prop :=
  (∃ passed, Event.next passed (some id) ∈ later) ∨ PassedOut earlier later id

theorem PassedOut.append {earlier later : List Event} {id : UInt32}
    (h : PassedOut earlier later id) (more : List Event) :
    PassedOut earlier (later ++ more) id := by
  obtain ⟨before, passed, result, after, rfl, hmem, hout⟩ := h
  exact ⟨before, passed, result, after ++ more, by simp, hmem, hout⟩

theorem Met.append {earlier later : List Event} {id : UInt32} (h : Met earlier later id)
    (more : List Event) : Met earlier (later ++ more) id := by
  rcases h with ⟨passed, hmem⟩ | h
  · exact .inl ⟨passed, List.mem_append_left _ hmem⟩
  · exact .inr (h.append more)

/-- What a call passes over is out. -/
theorem passed_out {l : List Event} {t : ThreadId} (h : Run Step initial l t) {q k j : Nat}
    (hscan : Scans maxThreadNum t q k) (hj : j < k) :
    UInt32.ofNat (slot (q + j)) ∈ t.passed ∧ Outstanding l (UInt32.ofNat (slot (q + j))) := by
  refine ⟨?_, ?_⟩
  · rw [passed, hscan.passes]
    exact List.mem_map.mpr ⟨j, List.mem_range.mpr hj, rfl⟩
  · rw [← used_iff_outstanding h, used_ofFin]
    exact hscan.used j hj

/-- The pointer meets every id it moves past. -/
theorem moves_past {earlier l : List Event} {u t : ThreadId} {q : Nat}
    (hu : Run Step initial earlier u) (hq : u.nextThreadId = slot q) (h : Run Step u l t) :
    ∃ k, t.nextThreadId = slot (q + k) ∧
      ∀ j < k, Met earlier l (UInt32.ofNat (slot (q + j))) := by
  refine (Run.history (C := fun _ => True)
    (P := fun (l : List Event) (t : ThreadId) => Run Step initial (earlier ++ l) t ∧
      ∃ k, t.nextThreadId = slot (q + k) ∧
        ∀ j < k, Met earlier l (UInt32.ofNat (slot (q + j))))
    ?_ h (fun _ _ => trivial) ?_).2
  · intro l t ev t' hinv _ hstep
    obtain ⟨hrun, k, hk, hmet⟩ := hinv
    refine ⟨by rw [← List.append_assoc]; exact hrun.snoc hstep, ?_⟩
    cases hstep with
    | free hfree =>
      refine ⟨k, ?_, fun j hj => (hmet j hj).append _⟩
      rw [← hk]
      unfold free at hfree
      split at hfree
      · cases hfree
        rfl
      · cases hfree
    | next =>
      obtain ⟨m, hscan⟩ := exists_scans maxThreadNum hk
      by_cases hm : m = maxThreadNum
      · refine ⟨k, ?_, fun j hj => (hmet j hj).append _⟩
        rw [next, hscan.misses hm]
        exact slot_add_length _
      · obtain ⟨_, hnext⟩ := hscan.finds (Nat.lt_of_le_of_ne hscan.bound hm)
        refine ⟨k + (m + 1), ?_, fun j hj => ?_⟩
        · rw [next, hnext]
          simp only [Nat.add_assoc]
        · by_cases hold : j < k
          · exact (hmet j hold).append _
          · obtain ⟨i, rfl⟩ := Nat.exists_eq_add_of_le (Nat.le_of_not_lt hold)
            rw [← Nat.add_assoc]
            by_cases hpassed : i < m
            · obtain ⟨hmem, hout⟩ := passed_out hrun hscan hpassed
              exact .inr ⟨l, _, _, [], rfl, hmem, hout⟩
            · obtain rfl : i = m := by omega
              refine .inl ⟨t.passed, List.mem_append_right _ ?_⟩
              rw [List.mem_singleton, next, hnext]
  · refine ⟨by rwa [List.append_nil], 0, hq, fun j hj => absurd hj (Nat.not_lt_zero j)⟩

/-- The call that returns an id moves the pointer just past it. -/
theorem next_some_scans {t : ThreadId} {id : UInt32} (h : t.next.1 = some id) {q : Nat}
    (hq : t.nextThreadId = slot q) :
    ∃ k, Scans maxThreadNum t q k ∧ id = UInt32.ofNat (slot (q + k)) ∧
      t.next.2.nextThreadId = slot (q + k + 1) := by
  obtain ⟨k, hscan⟩ := exists_scans maxThreadNum hq
  refine ⟨k, hscan, ?_⟩
  by_cases hk : k = maxThreadNum
  · rw [next, hscan.misses hk] at h
    cases h
  · obtain ⟨_, hnext⟩ := hscan.finds (Nat.lt_of_le_of_ne hscan.bound hk)
    rw [next, hnext] at h ⊢
    exact ⟨(Option.some.inj h).symm, rfl⟩

theorem step_next {t t' : ThreadId} {passed : List UInt32} {result : Option UInt32}
    (h : Step t (.next passed result) t') :
    passed = t.passed ∧ t.next.1 = result ∧ t' = t.next.2 := by
  generalize hev : Event.next passed result = ev at h
  cases h with
  | next =>
    obtain ⟨hpassed, hresult⟩ := Event.next.inj hev
    exact ⟨hpassed, hresult.symm, rfl⟩
  | free => cases hev

theorem ofFin_inj {i j : Fin maxThreadNum} (h : UInt32.ofNat i = UInt32.ofNat j) : i = j := by
  have := congrArg UInt32.toNat h
  rw [toNat_ofFin, toNat_ofFin] at this
  exact Fin.ext this

/-- Between two returns of an id the pointer has gone round. -/
theorem met_between {before mid after : List Event} {t : ThreadId} {p p' : List UInt32}
    {x y : UInt32}
    (h : Run Step initial (before ++ .next p (some x) :: (mid ++ .next p' (some x) :: after)) t)
    (hy : y.toNat < maxThreadNum) (hne : y ≠ x) :
    (∃ passed, Event.next passed (some y) ∈ mid) ∨
      PassedOut (before ++ [.next p (some x)]) (mid ++ [.next p' (some x)]) y := by
  obtain ⟨u, hbefore, hrest⟩ := h.split
  cases hrest with
  | cons hfirst hrest =>
    obtain ⟨v, hmid, hrest⟩ := hrest.split
    cases hrest with
    | cons hlast _ =>
      have hearlier := hbefore.snoc hfirst
      obtain ⟨_, hx, rfl⟩ := step_next hfirst
      obtain ⟨rfl, hx', rfl⟩ := step_next hlast
      obtain ⟨n, _, hid, hpointer⟩ := next_some_scans hx (slot_self u.nextThreadId).symm
      obtain ⟨k, hk, hmet⟩ := moves_past hearlier hpointer hmid
      obtain ⟨m, hscan, hid', _⟩ := next_some_scans hx' hk
      have hround := slot_eq_iff.mp (ofFin_inj (hid.symm.trans hid'))
      obtain ⟨j, hj, hslot⟩ := exists_slot (u.nextThreadId + n) ⟨y.toNat, hy⟩ (by
        intro heq
        apply hne
        rw [hid, ← heq]
        exact UInt32.ofNat_toNat.symm)
      have hyslot : y = UInt32.ofNat (slot (u.nextThreadId + n + 1 + j)) := by
        rw [hslot]
        exact UInt32.ofNat_toNat.symm
      have hlong : j < k + m := by
        simp only [maxThreadNum] at hround hj
        omega
      rw [hyslot]
      by_cases hold : j < k
      · rcases hmet j hold with hret | hout
        · exact .inl hret
        · exact .inr (hout.append _)
      · obtain ⟨i, rfl⟩ := Nat.exists_eq_add_of_le (Nat.le_of_not_lt hold)
        obtain ⟨hmem, hout⟩ := passed_out (hearlier.append hmid) hscan (j := i) (by omega)
        rw [← Nat.add_assoc]
        exact .inr ⟨mid, _, _, [], rfl, hmem, hout⟩

/-- What the allocator promises after a sequence of calls. -/
structure Allocates (l : List Event) (t : ThreadId) : Prop where
  pointer : (t.nextThreadId : Nat) < maxThreadNum
  fresh : ∀ before passed id after, l = before ++ .next passed (some id) :: after →
    id.toNat < maxThreadNum ∧ ¬ Outstanding before id
  exhausted : t.next.1 = none ↔ ∀ id : UInt32, id.toNat < maxThreadNum → Outstanding l id
  unchanged : t.next.1 = none → t.next.2 = t
  freeable : ∀ id, Outstanding l id → ∃ t', t.free id = .ok t'
  /-- between two returns of an id every other one is returned, or out when it is passed -/
  between : ∀ before p mid p' after (x y : UInt32),
    l = before ++ .next p (some x) :: (mid ++ .next p' (some x) :: after) →
    y.toNat < maxThreadNum → y ≠ x →
    (∃ passed, Event.next passed (some y) ∈ mid) ∨
      PassedOut (before ++ [.next p (some x)]) (mid ++ [.next p' (some x)]) y

/-- **The allocator over any sequence of calls**, also where an id is freed that is not
out. -/
theorem allocates {l : List Event} {t : ThreadId} (h : Run Step initial l t) : Allocates l t where
  pointer := t.nextThreadId.isLt
  fresh before passed id after heq := returned_fresh (heq ▸ h)
  exhausted := next_none_iff_outstanding h
  unchanged := next_full
  freeable _ hout := free_outstanding h hout
  between before p mid p' after x y heq hy hne := by
    subst heq
    exact met_between h hy hne

theorem allocates_sample :
    ∃ l t, Run Step initial l t ∧ l.length = 2 ∧ Allocates l t := by
  have hfirst : Step initial (.next initial.passed initial.next.1) initial.next.2 := .next initial
  have hout : Outstanding [.next initial.passed initial.next.1] 0 :=
    ⟨[], initial.passed, [], by rw [next_initial]; rfl, List.not_mem_nil⟩
  obtain ⟨t, hfree⟩ := free_outstanding (Run.single hfirst) hout
  have hrun := (Run.single hfirst).snoc (.free hfree)
  exact ⟨_, t, hrun, rfl, allocates hrun⟩

end ThreadId
end OmniStack
