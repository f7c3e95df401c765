import Mathlib.Algebra.BigOperators.Group.List.Basic
import Mathlib.Algebra.Order.Ring.Nat
import Mathlib.Data.List.Nodup
import Mathlib.Logic.Relation
import Mathlib.Order.Lattice.Nat
import OmniStack.Lib.Worklist

/-! Graphs without cycles, and stacks that walk them.

`succ` lists the successors of a vertex. If no walk comes back to where it was and only
finitely many vertices have successors (`Descending`), walks are bounded in length, and
there is one weight with `W a = 1 + Σ W b` over the successors `b` of `a`.

A stack whose top is replaced by its successors, or by nothing, walks the graph depth first.
It never grows by more than `k - 1` for each edge of the longest walk (`height_le`), and it
takes no more moves than its items weigh (`moves_le_weight`). -/
namespace Lib
namespace Descent
variable {α : Type} (succ : α → List α)

def Edge (a b : α) : Prop := b ∈ succ a

/-- There is a walk of `d` edges from `a`. -/
def WalkFrom (a : α) (d : Nat) : Prop :=
  ∃ rest : List α, rest.length = d ∧ (a :: rest).IsChain (Edge succ)

/-- No walk comes back, and whatever has successors is in `sources`. -/
structure Descending (sources : List α) : Prop where
  acyclic : ∀ a, ¬ Relation.TransGen (Edge succ) a a
  sources : ∀ a, succ a ≠ [] → a ∈ sources

variable {succ} {a b : α} {d : Nat}

/-! ### Walks -/

theorem walkFrom_zero (a : α) : WalkFrom succ a 0 := ⟨[], rfl, .singleton a⟩

theorem walkFrom_edge (h : b ∈ succ a) (hb : WalkFrom succ b d) : WalkFrom succ a (d + 1) := by
  obtain ⟨rest, hlen, hchain⟩ := hb
  exact ⟨b :: rest, by rw [List.length_cons, hlen], .cons_cons h hchain⟩

/-- All but the last vertex of a walk have successors. -/
theorem sources_of_chain {l : List α} (h : l.IsChain (Edge succ)) :
    ∀ x ∈ l.dropLast, succ x ≠ [] := by
  induction h with
  | nil => simp
  | singleton => simp
  | @cons_cons a b l hedge _ ih =>
    intro x hx
    rw [List.dropLast_cons_of_ne_nil (List.cons_ne_nil _ _), List.mem_cons] at hx
    rcases hx with rfl | hx
    · exact List.ne_nil_of_mem hedge
    · exact ih x hx

namespace Descending
variable {sources : List α}

/-- No walk passes a vertex twice. -/
theorem nodup (h : Descending succ sources) {l : List α} (hl : l.IsChain (Edge succ)) :
    l.Nodup := by
  have htrans : l.Pairwise (Relation.TransGen (Edge succ)) :=
    (hl.imp fun _ _ => Relation.TransGen.single).pairwise
  apply htrans.imp
  intro a b hab heq
  exact h.acyclic _ (heq ▸ hab)

/-- A walk is no longer than there are vertices with successors. -/
theorem walk_le (h : Descending succ sources) (hwalk : WalkFrom succ a d) :
    d ≤ sources.length := by
  obtain ⟨rest, hlen, hchain⟩ := hwalk
  have hnodup : (a :: rest).dropLast.Nodup := (h.nodup hchain).sublist (List.dropLast_sublist _)
  have hsub : (a :: rest).dropLast ⊆ sources := fun x hx =>
    h.sources x (sources_of_chain hchain x hx)
  have hle := (List.subperm_of_subset hnodup hsub).length_le
  rw [List.length_dropLast, List.length_cons, Nat.add_sub_cancel] at hle
  omega

/-- Among the walks from finitely or infinitely many vertices there is a longest one. -/
theorem exists_longest (h : Descending succ sources) {S : α → Prop} (hS : S a) :
    ∃ D, IsGreatest {d | ∃ x, S x ∧ WalkFrom succ x d} D := by
  have hne : {d | ∃ x, S x ∧ WalkFrom succ x d}.Nonempty := ⟨0, a, hS, walkFrom_zero a⟩
  have hbound : BddAbove {d | ∃ x, S x ∧ WalkFrom succ x d} := by
    refine ⟨sources.length, fun d hd => ?_⟩
    obtain ⟨x, _, hwalk⟩ := hd
    exact h.walk_le hwalk
  exact ⟨sSup _, Nat.sSup_mem hne hbound, fun d hd => le_csSup hbound hd⟩

/-- Going down an edge comes to an end. -/
theorem wellFounded (h : Descending succ sources) : WellFounded fun b a => b ∈ succ a := by
  have hdepth (a : α) : IsGreatest {d | WalkFrom succ a d} (sSup {d | WalkFrom succ a d}) := by
    obtain ⟨D, hD⟩ := h.exists_longest (S := fun x => x = a) rfl
    have hset : {d | ∃ x, x = a ∧ WalkFrom succ x d} = {d | WalkFrom succ a d} := by
      simp only [exists_eq_left]
    rw [hset] at hD
    rwa [hD.csSup_eq]
  refine Subrelation.wf
    (r := fun b a => sSup {d | WalkFrom succ b d} < sSup {d | WalkFrom succ a d})
    (fun {b a} hedge => ?_) (measure _).wf
  exact (hdepth a).2 (walkFrom_edge hedge (hdepth b).1)

end Descending

/-! ### Weights -/

/-- What it costs to work off `a` and everything that comes of it. -/
def IsWeight (succ : α → List α) (W : α → Nat) : Prop :=
  ∀ a, W a = 1 + ((succ a).map W).sum

/-- **There is exactly one weight.** -/
theorem Descending.existsUnique_weight {sources : List α} (h : Descending succ sources) :
    ∃! W, IsWeight succ W := by
  have hwf := h.wellFounded
  refine ⟨hwf.fix fun a rec => 1 + ((succ a).attach.map fun b => rec b.1 b.2).sum, ?_, ?_⟩
  · intro a
    conv_lhs => rw [hwf.fix_eq]
    congr 2
    exact List.attach_map_val
  · intro W hW
    funext a
    induction a using hwf.induction with
    | _ a ih =>
      rw [hW a, hwf.fix_eq]
      congr 2
      rw [List.map_congr_left ih]
      exact List.attach_map_val.symm

/-! ### Stacks -/

/-- The top item is replaced by its successors, or by nothing. -/
def Expands (succ : α → List α) (s : List α) (m : Move α) (t : List α) : Prop :=
  Move.Step s m t ∧ ∃ a, m.popped = [a] ∧ (m.pushed = [] ∨ m.pushed = succ a)

/-- An item at this height has room for every walk from it. -/
def Room (succ : α → List α) (k bound h : Nat) (a : α) : Prop :=
  ∀ d, WalkFrom succ a d → h + (k - 1) * d ≤ bound

/-- The successors of an item with room have room in its place. -/
theorem step_room {k bound : Nat} (hk : ∀ a, (succ a).length ≤ k) {s t : List α} {m : Move α}
    (h : Expands succ s m t) (hs : Move.Heights (Room succ k bound) s) :
    Move.Heights (Room succ k bound) t := by
  obtain ⟨⟨rest, rfl, rfl⟩, a, hpopped, hpushed⟩ := h
  rw [hpopped, Move.heights_append] at hs
  rw [Move.heights_append]
  refine ⟨hs.1, ?_⟩
  rcases hpushed with hnone | hsucc
  · rw [hnone]
    exact Move.heights_nil _
  · intro i b hb d hwalk
    rw [hsucc] at hb
    have hi : i < (succ a).length := (List.getElem?_eq_some_iff.mp hb).1
    have hlen := hk a
    have hroom : rest.length + (0 + 1) + (k - 1) * (d + 1) ≤ bound :=
      hs.2 0 a rfl (d + 1) (walkFrom_edge (List.mem_of_getElem? hb) hwalk)
    rw [Nat.mul_succ] at hroom
    omega

/-- **How high the stack gets.** -/
theorem height_le {k D : Nat} (hk : ∀ a, (succ a).length ≤ k) {s t : List α} {ms : List (Move α)}
    (hD : ∀ a ∈ s, ∀ d, WalkFrom succ a d → d ≤ D) (hrun : Run (Expands succ) s ms t) :
    t.length ≤ s.length + (k - 1) * D := by
  have hs : Move.Heights (Room succ k (s.length + (k - 1) * D)) s := by
    intro i a hi d hwalk
    have hlt : i < s.length := (List.getElem?_eq_some_iff.mp hi).1
    have hle := Nat.mul_le_mul_left (k - 1) (hD a (List.mem_of_getElem? hi) d hwalk)
    omega
  have ht := hrun.invariant (P := Move.Heights (Room succ k (s.length + (k - 1) * D)))
    (fun _ _ _ hs hst => step_room hk hst hs) hs
  apply Move.heights_length ht
  intro n a hroom
  have := hroom 0 (walkFrom_zero a)
  omega

/-- **How many moves it takes.** What is left on the stack is not paid for yet. -/
theorem moves_le_weight {W : α → Nat} (hW : IsWeight succ W) {s t : List α} {ms : List (Move α)}
    (hrun : Run (Expands succ) s ms t) : ms.length + (t.map W).sum ≤ (s.map W).sum := by
  induction hrun with
  | nil s => simp
  | @cons _ _ _ m _ hstep _ ih =>
    obtain ⟨⟨rest, rfl, rfl⟩, a, hpopped, hpushed⟩ := hstep
    have hpaid : (m.pushed.map W).sum + 1 ≤ W a := by
      rcases hpushed with hnone | hsucc
      · rw [hnone, hW a]
        simp
      · rw [hsucc, hW a]
        omega
    rw [hpopped]
    simp only [List.map_append, List.sum_append, List.length_cons, List.map_cons, List.map_nil,
      List.sum_cons, List.sum_nil] at ih ⊢
    omega

end Descent
end Lib
