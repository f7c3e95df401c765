import Mathlib.Data.List.Find
import Mathlib.Data.List.Nodup

/-! A list of keyed values in which the first value of a key stays.

`insert` skips a value whose key is there already, so a lookup in the list is a lookup in
everything that was ever inserted, in order (`find_insert`), and keys do not repeat
(`insert_nodup`). Where no two values share a key their order does not matter
(`find_perm`). -/
namespace Lib.FirstWins
variable {α κ : Type} [BEq κ] (key : α → κ)

def find (l : List α) (k : κ) : Option α := l.find? fun a => key a == k

/-- Skip a value whose key is there already. -/
def insert (l : List α) (a : α) : List α :=
  if (find key l (key a)).isSome then l else l ++ [a]

theorem find_append (l xs : List α) (k : κ) :
    find key (l ++ xs) k = (find key l k).or (find key xs k) := List.find?_append

variable [LawfulBEq κ]

/-- Inserting is appending, as far as lookups go. -/
theorem find_insert (l : List α) (a : α) (k : κ) :
    find key (insert key l a) k = find key (l ++ [a]) k := by
  unfold insert
  split
  · rename_i hthere
    rw [find_append]
    by_cases hk : key a = k
    · subst hk
      obtain ⟨b, hb⟩ := Option.isSome_iff_exists.mp hthere
      rw [hb, Option.some_or]
    · have hskip : find key [a] k = none :=
        List.find?_eq_none.mpr fun b hb => by
          rw [List.mem_singleton.mp hb, beq_iff_eq]
          exact hk
      rw [hskip, Option.or_none]
  · rfl

theorem find_of_mem_keys {l : List α} {k : κ} (h : k ∈ l.map key) : (find key l k).isSome := by
  obtain ⟨b, hb, hk⟩ := List.mem_map.mp h
  rw [find, List.find?_isSome]
  exact ⟨b, hb, by rw [hk]; exact BEq.rfl⟩

theorem insert_nodup {l : List α} (a : α) (h : (l.map key).Nodup) :
    ((insert key l a).map key).Nodup := by
  unfold insert
  split
  · exact h
  · rename_i hnew
    rw [List.map_append, List.nodup_append]
    refine ⟨h, List.nodup_singleton _, ?_⟩
    intro k hk k' hk' heq
    subst heq
    rw [List.map_singleton, List.mem_singleton] at hk'
    subst hk'
    exact hnew (find_of_mem_keys key hk)

theorem find_foldl_insert (xs l : List α) (k : κ) :
    find key (xs.foldl (insert key) l) k = find key (l ++ xs) k := by
  induction xs generalizing l with
  | nil => rw [List.foldl_nil, List.append_nil]
  | cons a xs ih =>
    calc find key (xs.foldl (insert key) (insert key l a)) k
        = (find key (insert key l a) k).or (find key xs k) := by rw [ih, find_append]
      _ = (find key (l ++ [a]) k).or (find key xs k) := by rw [find_insert]
      _ = find key (l ++ a :: xs) k := by
        rw [← find_append, List.append_assoc, List.singleton_append]

theorem foldl_insert_nodup (xs : List α) {l : List α} (h : (l.map key).Nodup) :
    ((xs.foldl (insert key) l).map key).Nodup := by
  induction xs generalizing l with
  | nil => exact h
  | cons a xs ih => exact ih (insert_nodup key a h)

/-- The order of values with different keys does not matter. -/
theorem find_perm {l l' : List α} (h : l.Perm l') (hnodup : (l.map key).Nodup) (k : κ) :
    find key l k = find key l' k := by
  apply List.find?_eq_find?_of_perm h
  intro x hx y hy
  have hxk : key x = k := eq_of_beq hx.2
  have hyk : key y = k := eq_of_beq hy.2
  exact List.inj_on_of_nodup_map hnodup hx.1 hy.1 (hxk.trans hyk.symm)

end Lib.FirstWins
