import OmniStack.Engine.Books
import OmniStack.Engine.QueueBound

/-! The order in which a burst is processed.

The drain loop takes tasks off the top of the stack, and a burst lies on it first
packet lowest: its last packet is the first to be called. So on a graph without
fan-out the calls at a node follow the burst's order only if there is nothing to
order, that is if the burst has one packet, or none that is queued
(`arrival_order`). -/
namespace OmniStack
open Lib
namespace Worker
variable {σ : Type}

def callOn (m : NodeId) (burst : List PacketId) : Event → Option PacketId
  | .called n p _ => if n = m ∧ p ∈ burst then some p else none
  | _ => none

/-- The packets of the burst that `process` is called on at node `m`, in order. -/
def calls (evs : List Event) (m : NodeId) (burst : List PacketId) : List PacketId :=
  evs.filterMap (callOn m burst)

theorem calls_snoc (evs : List Event) (ev : Event) (m : NodeId) (burst : List PacketId) :
    calls (evs ++ [ev]) m burst = calls evs m burst ++ calls [ev] m burst :=
  List.filterMap_append

theorem count_calls {evs : List Event} {m : NodeId} {burst : List PacketId} {p : PacketId}
    (hp : p ∈ burst) : (calls evs m burst).count p = callCount evs m p := by
  induction evs with
  | nil => rfl
  | cons ev evs ih =>
    have hev : (calls [ev] m burst).count p = if isCall m p ev then 1 else 0 := by
      cases ev with
      | called n q res =>
        by_cases hq : q = p
        · by_cases hn : n = m <;> simp [calls, callOn, isCall, hn, hq, hp]
        · by_cases hn : n = m ∧ q ∈ burst <;> simp [calls, callOn, isCall, hn, hq]
      | _ => rfl
    have hsplit : calls (ev :: evs) m burst = calls [ev] m burst ++ calls evs m burst :=
      List.filterMap_append (l := [ev])
    rw [hsplit, List.count_append, ih, hev]
    simp only [callCount, List.countP_cons, Nat.add_comm]

/-! ### Tasks of other packets -/

/-- No task of the list refers to a packet of the burst. -/
def Apart (burst : List PacketId) (l : List Task) : Prop :=
  ∀ task ∈ l, ∀ p ∈ burst, task.data ≠ some p

/-- An event that does not poll a packet of the burst. -/
def PollsOthers (burst : List PacketId) : Event → Prop
  | .polled _ other => ∀ p ∈ burst, p ∉ other
  | _ => True

theorem apart_append {burst : List PacketId} {l l' : List Task} :
    Apart burst (l ++ l') ↔ Apart burst l ∧ Apart burst l' := by
  simp only [Apart, List.mem_append, or_imp, forall_and]

/-- Calls on other packets and polls of other packets queue other packets. -/
theorem pushed_apart {w : Worker σ} {burst : List PacketId} {ev : Event}
    (hev : PollsOthers burst ev) (hpopped : Apart burst (w.moveOf ev).popped) :
    Apart burst (w.moveOf ev).pushed := by
  intro task htask p hp
  cases ev with
  | polled n other =>
    simp only [moveOf, List.mem_flatMap, linkTasks, List.mem_map] at htask
    obtain ⟨_, _, q, hq, rfl⟩ := htask
    intro h
    cases h
    exact hev p hp hq
  | called n q res =>
    cases res with
    | ok u =>
      simp only [moveOf, List.mem_map] at htask
      obtain ⟨_, _, rfl⟩ := htask
      exact hpopped ⟨n, some q⟩ (by simp [moveOf]) p hp
    | error e => simp [moveOf] at htask
  | _ => simp [moveOf] at htask

theorem calls_apart {w : Worker σ} {burst : List PacketId} {ev : Event} (m : NodeId)
    (hpopped : Apart burst (w.moveOf ev).popped) : calls [ev] m burst = [] := by
  cases ev with
  | called n q res =>
    have hq : q ∉ burst := by
      intro hq
      refine hpopped ⟨n, some q⟩ ?_ q hq rfl
      cases res <;> simp [moveOf]
    simp [calls, callOn, hq]
  | _ => rfl

/-- An event takes nothing off the stack, or the task it calls. -/
theorem popped_cases (w : Worker σ) (ev : Event) :
    (w.moveOf ev).popped = [] ∨
      ∃ n p res, ev = .called n p res ∧ (w.moveOf ev).popped = [⟨n, some p⟩] := by
  cases ev with
  | called n p res =>
    refine .inr ⟨n, p, res, rfl, ?_⟩
    cases res <;> rfl
  | _ => exact .inl rfl

variable {checks : Bool} {shouldStop : World σ → Bool} {w : Worker σ} {ctx : Context}

/-- A burst that is not queued is not called. -/
theorem not_queued_not_called {burst : List PacketId} {s t : Loop σ} {evs : List Event}
    (hrun : Run (Step checks shouldStop w ctx) s evs t) (hs : Apart burst s.queue.live)
    (hothers : ∀ ev ∈ evs, PollsOthers burst ev) (m : NodeId) : calls evs m burst = [] := by
  have key : calls evs m burst = [] ∧ Apart burst t.queue.live := by
    refine hrun.history (P := fun ls v => calls ls m burst = [] ∧ Apart burst v.queue.live)
      (C := PollsOthers burst) (fun ls u ev v hu hev hst => ?_) hothers ⟨rfl, hs⟩
    obtain ⟨hcalls, hapart⟩ := hu
    obtain ⟨rest, hu, hv⟩ := turn_move (step_turn hst)
    rw [hu, apart_append] at hapart
    refine ⟨by rw [calls_snoc, hcalls, calls_apart m hapart.2, List.append_nil], ?_⟩
    rw [hv, apart_append]
    exact ⟨hapart.1, pushed_apart hev hapart.2⟩
  exact key.1

/-! ### The last packet is called first -/

/-- Either no packet of the burst has been called at its node and the burst lies on the
stack under tasks of other packets, or the first one called was the last of the burst. -/
def LastFirst (m : NodeId) (qs : List PacketId) (q : PacketId) (evs : List Event) (s : Loop σ) :
    Prop :=
  (calls evs m (qs ++ [q]) = [] ∧ ∃ base above,
    s.queue.live = base ++ linkTasks (qs ++ [q]) m ++ above ∧ Apart (qs ++ [q]) above) ∨
  (calls evs m (qs ++ [q])).head? = some q

theorem step_lastFirst {m : NodeId} {qs : List PacketId} {q : PacketId} {evs : List Event}
    {s t : Loop σ} {ev : Event} (hs : LastFirst m qs q evs s) (hev : PollsOthers (qs ++ [q]) ev)
    (h : Step checks shouldStop w ctx s ev t) : LastFirst m qs q (evs ++ [ev]) t := by
  rcases hs with ⟨hcalls, base, above, hlive, hapart⟩ | hhead
  · obtain ⟨rest, hs, ht⟩ := turn_move (step_turn h)
    rw [hlive] at hs
    rcases popped_cases w ev with hnone | ⟨n, p, res, rfl, hone⟩
    · -- nothing is called
      have hpop : Apart (qs ++ [q]) (w.moveOf ev).popped := by simp [hnone, Apart]
      rw [hnone, List.append_nil] at hs
      refine .inl ⟨by rw [calls_snoc, hcalls, calls_apart m hpop, List.append_nil], base,
        above ++ (w.moveOf ev).pushed, ?_, apart_append.mpr ⟨hapart, pushed_apart hev hpop⟩⟩
      rw [ht, ← hs, List.append_assoc]
    · rw [hone] at hs
      cases List.eq_nil_or_concat above with
      | inl hnil =>
        -- the burst is on top: its last packet is called
        subst hnil
        have hlast : base ++ linkTasks (qs ++ [q]) m ++ [] =
            base ++ linkTasks qs m ++ [⟨m, some q⟩] := by simp [linkTasks]
        rw [hlast] at hs
        have htask := List.singleton_inj.mp (List.append_inj' hs rfl).2
        cases htask
        right
        rw [calls_snoc, hcalls]
        simp [calls, callOn]
      | inr hsome =>
        -- a task above the burst is called, and what it queues stays above
        obtain ⟨above', x, rfl⟩ := hsome
        rw [List.concat_eq_append, ← List.append_assoc] at hs
        obtain ⟨hrest, htask⟩ := List.append_inj' hs rfl
        rw [List.concat_eq_append, apart_append] at hapart
        have hpop : Apart (qs ++ [q]) (w.moveOf (.called n p res)).popped := by
          rw [hone, ← htask]
          exact hapart.2
        refine .inl ⟨by rw [calls_snoc, hcalls, calls_apart m hpop, List.append_nil], base,
          above' ++ (w.moveOf (.called n p res)).pushed, ?_,
          apart_append.mpr ⟨hapart.1, pushed_apart hev hpop⟩⟩
        rw [ht, ← hrest, List.append_assoc _ above']
  · right
    rw [calls_snoc, List.head?_append, hhead]
    rfl

/-- A sublist that starts with the last item is that item. -/
theorem sublist_of_last {qs c : List PacketId} {q : PacketId} (hq : q ∉ qs)
    (h : (q :: c).Sublist (qs ++ [q])) : c = [] := by
  obtain ⟨l, l', heq, hl, hl'⟩ := List.sublist_append_iff.mp h
  cases l with
  | nil =>
    have hlen := hl'.length_le
    rw [List.nil_append] at heq
    rw [← heq, List.length_cons, List.length_singleton] at hlen
    exact List.length_eq_zero_iff.mp (by omega)
  | cons x l =>
    have hx : q = x := (List.cons.inj heq).1
    exact absurd (hl.subset (hx ▸ List.mem_cons_self)) hq

/-- A queued packet is called before the stack is empty. -/
theorem queued_called {s t : Loop σ} {evs : List Event}
    (hrun : Run (Step checks shouldStop w ctx) s evs t) (hdone : t.queue.index = 0) {m : NodeId}
    {p : PacketId} (hp : ⟨m, some p⟩ ∈ s.queue.live) : 1 ≤ callCount evs m p := by
  have hnil : t.queue.live = [] :=
    List.length_eq_zero_iff.mp (by rw [ArrayStack.live_length, hdone])
  have hperm := (Move.run_perm (run_moves hrun)).count_eq (⟨m, some p⟩ : Task)
  rw [hnil, List.append_nil, List.count_append, count_popped] at hperm
  have := List.count_pos_iff.mpr hp
  omega

/-- A burst of two packets or more is called out of order at the node it is sent to. -/
theorem long_burst_reversed {s t : Loop σ} {evs : List Event} {m : NodeId} {burst : List PacketId}
    (hrun : Run (Step checks shouldStop w ctx) s evs t) (hdone : t.queue.index = 0)
    (hlive : ∃ base, s.queue.live = base ++ linkTasks burst m)
    (hothers : ∀ ev ∈ evs, PollsOthers burst ev) (hnodup : burst.Nodup)
    (hlen : 1 < burst.length) : ¬ (calls evs m burst).Sublist burst := by
  intro hsub
  obtain ⟨base, hlive⟩ := hlive
  cases List.eq_nil_or_concat burst with
  | inl hnil => simp [hnil] at hlen
  | inr hlast =>
    obtain ⟨qs, q, rfl⟩ := hlast
    rw [List.concat_eq_append] at *
    have hqueued : ∀ p ∈ qs ++ [q], p ∈ calls evs m (qs ++ [q]) := by
      intro p hp
      have hmem : ⟨m, some p⟩ ∈ s.queue.live := by
        rw [hlive]
        exact List.mem_append_right _ (List.mem_map_of_mem (f := fun p => (⟨m, some p⟩ : Task)) hp)
      have hcount := queued_called hrun hdone hmem
      rw [← count_calls hp] at hcount
      exact List.count_pos_iff.mp hcount
    have hfirst : LastFirst m qs q evs t := by
      refine hrun.history (P := LastFirst m qs q) (C := PollsOthers (qs ++ [q]))
        (fun _ _ _ _ hs hev hst => step_lastFirst hs hev hst) hothers (.inl ⟨rfl, base, [], ?_, ?_⟩)
      · rw [hlive, List.append_nil]
      · simp [Apart]
    have hq : q ∉ qs := fun hq =>
      (List.nodup_append.mp hnodup).2.2 q hq q (List.mem_singleton.mpr rfl) rfl
    have hhead : (calls evs m (qs ++ [q])).head? = some q := by
      rcases hfirst with ⟨hnone, _⟩ | hhead
      · have := hqueued q (by simp)
        simp [hnone] at this
      · exact hhead
    obtain ⟨c, hc⟩ : ∃ c, calls evs m (qs ++ [q]) = q :: c := by
      cases h : calls evs m (qs ++ [q]) with
      | nil => simp [h] at hhead
      | cons x c =>
        rw [h] at hhead
        exact ⟨c, by rw [show x = q from Option.some.inj hhead]⟩
    rw [hc] at hsub hqueued
    rw [sublist_of_last hq hsub] at hqueued
    obtain ⟨q', hq'⟩ : ∃ q', q' ∈ qs := by
      cases qs with
      | nil => simp at hlen
      | cons x _ => exact ⟨x, List.mem_cons_self⟩
    have : q' = q := List.mem_singleton.mp (hqueued q' (List.mem_append_left _ hq'))
    exact hq (this ▸ hq')

/-- The calls of a packet that no node sees twice are in any order. -/
theorem short_burst_sublist {evs : List Event} {m : NodeId} {burst : List PacketId}
    (hlen : burst.length ≤ 1) (honce : ∀ p ∈ burst, callCount evs m p ≤ 1) :
    (calls evs m burst).Sublist burst := by
  match burst, hlen with
  | [], _ =>
    have : calls evs m [] = [] := by
      refine List.filterMap_eq_nil_iff.mpr fun ev _ => ?_
      cases ev <;> simp [callOn]
    rw [this]
  | [p], _ =>
    have hall : ∀ q ∈ calls evs m [p], q = p := by
      intro q hq
      obtain ⟨ev, _, hev⟩ := List.mem_filterMap.mp hq
      cases ev with
      | called n r res =>
        simp only [callOn, List.mem_singleton] at hev
        split at hev
        · rename_i h
          cases hev
          exact h.2
        · cases hev
      | _ => cases hev
    have heq := List.eq_replicate_of_mem hall
    have hcount := honce p (List.mem_singleton.mpr rfl)
    rw [← count_calls (List.mem_singleton.mpr rfl), List.count_eq_length.mpr
      (fun q hq => (hall q hq).symm)] at hcount
    rw [heq]
    exact (List.replicate_sublist_replicate p).mpr hcount

/-! ### No node sees a packet twice -/

/-- One task of the packet at most, and every node that has been called on it leads to
that task's node. -/
structure Onward (w : Worker σ) (ctx : Context) (p : PacketId) (evs : List Event) (s : Loop σ) :
    Prop where
  once : ∀ m, callCount evs m p ≤ 1
  single : waiting s.queue.live p ≤ 1
  leads : ∀ k, ⟨k, some p⟩ ∈ s.queue.live → ∀ m, 1 ≤ callCount evs m p →
    Relation.TransGen (fun a b => w.MayForward ctx a ∧ b ∈ w.links a) m k

theorem waiting_append (l l' : List Task) (p : PacketId) :
    waiting (l ++ l') p = waiting l p + waiting l' p := by
  simp only [waiting, List.map_append, List.count_append]

theorem waiting_eq_zero {l : List Task} {p : PacketId} : waiting l p = 0 ↔ Apart [p] l := by
  rw [waiting, List.count_eq_zero, List.mem_map]
  constructor
  · intro h task htask q hq heq
    rw [List.mem_singleton.mp hq] at heq
    exact h ⟨task, htask, heq⟩
  · rintro h ⟨task, htask, heq⟩
    exact h task htask p (List.mem_singleton.mpr rfl) heq

theorem callCount_snoc (evs : List Event) (ev : Event) (m : NodeId) (p : PacketId) :
    callCount (evs ++ [ev]) m p = callCount evs m p + callCount [ev] m p := List.countP_append

theorem callCount_apart {ev : Event} {p : PacketId} (m : NodeId)
    (hpopped : Apart [p] (w.moveOf ev).popped) : callCount [ev] m p = 0 := by
  rw [← count_calls (List.mem_singleton_self p), calls_apart m hpopped]
  rfl

/-- A turn that does not call the packet. -/
theorem onward_apart {p : PacketId} {evs : List Event} {s t : Loop σ} {ev : Event}
    (hs : Onward w ctx p evs s) (hev : PollsOthers [p] ev)
    (hmove : Move.Step s.queue.live (w.moveOf ev) t.queue.live)
    (hpopped : Apart [p] (w.moveOf ev).popped) : Onward w ctx p (evs ++ [ev]) t := by
  obtain ⟨rest, hlive, hlive'⟩ := hmove
  have hpushed := pushed_apart hev hpopped
  have hcount : ∀ m, callCount (evs ++ [ev]) m p = callCount evs m p := fun m => by
    rw [callCount_snoc, callCount_apart m hpopped, Nat.add_zero]
  refine ⟨fun m => (hcount m).symm ▸ hs.once m, ?_, fun k hk m hm => ?_⟩
  · have := hs.single
    rw [hlive, waiting_append, waiting_eq_zero.mpr hpopped] at this
    rw [hlive', waiting_append, waiting_eq_zero.mpr hpushed]
    exact this
  · rw [hcount] at hm
    rw [hlive', List.mem_append] at hk
    refine hs.leads k ?_ m hm
    rw [hlive]
    rcases hk with hk | hk
    · exact List.mem_append_left _ hk
    · exact absurd rfl (hpushed _ hk p (List.mem_singleton.mpr rfl))

theorem mayForward_of_called {s t : Loop σ} {n : NodeId} {p : PacketId}
    (h : Step checks shouldStop w ctx s (.called n p (.ok ())) t) : w.MayForward ctx n := by
  cases step_turn h with
  | forwarded _ _ _ hnode hcall => exact ⟨_, hnode, _, _, _, hcall⟩

/-- A turn that calls the packet: its node has not been called on it before, or a cycle
of forwarding nodes would lead back to it. -/
theorem onward_called {p : PacketId} {evs : List Event} {s t : Loop σ} {n : NodeId}
    {res : Result Unit} (hlinks : ∀ n, (w.links n).length ≤ 1) (hbroken : CyclesBroken w ctx)
    (hs : Onward w ctx p evs s) (h : Step checks shouldStop w ctx s (.called n p res) t) :
    Onward w ctx p (evs ++ [.called n p res]) t := by
  obtain ⟨rest, hlive, hlive'⟩ := turn_move (step_turn h)
  have hone : (w.moveOf (.called n p res)).popped = [⟨n, some p⟩] := by cases res <;> rfl
  rw [hone] at hlive
  have hsingle := hs.single
  rw [hlive, waiting_pop, bump_same] at hsingle
  have hrest : waiting rest p = 0 := by omega
  have hqueued : ⟨n, some p⟩ ∈ s.queue.live := by simp [hlive]
  have hfresh : callCount evs n p = 0 := by
    by_contra hcalled
    exact hbroken n (hs.leads n hqueued n (by omega))
  have hcount : ∀ m, callCount (evs ++ [.called n p res]) m p =
      callCount evs m p + if n = m then 1 else 0 := fun m => by
    rw [callCount_snoc]
    by_cases hm : n = m <;> simp [callCount, isCall, hm]
  -- what the call queues: at most one task of the packet, behind a link of a node that forwards
  have hpushed : waiting (w.moveOf (.called n p res)).pushed p ≤ 1 ∧
      ∀ k, ⟨k, some p⟩ ∈ (w.moveOf (.called n p res)).pushed →
        w.MayForward ctx n ∧ k ∈ w.links n := by
    cases res with
    | error e => exact ⟨Nat.zero_le 1, fun k hk => by simp [moveOf] at hk⟩
    | ok u =>
      refine ⟨?_, fun k hk => ⟨mayForward_of_called h, by simpa [moveOf] using hk⟩⟩
      calc waiting ((w.links n).map fun m => (⟨m, some p⟩ : Task)) p
          ≤ (((w.links n).map fun m => (⟨m, some p⟩ : Task)).map Task.data).length :=
            List.count_le_length
        _ = (w.links n).length := by simp
        _ ≤ 1 := hlinks n
  refine ⟨fun m => ?_, ?_, fun k hk m hm => ?_⟩
  · rw [hcount]
    by_cases hm : n = m
    · subst hm
      simp [hfresh]
    · simpa [hm] using hs.once m
  · rw [hlive', waiting_append, hrest, Nat.zero_add]
    exact hpushed.1
  · rw [hlive', List.mem_append] at hk
    have hnew : w.MayForward ctx n ∧ k ∈ w.links n := by
      rcases hk with hk | hk
      · exact absurd rfl (waiting_eq_zero.mp hrest _ hk p (List.mem_singleton.mpr rfl))
      · exact hpushed.2 k hk
    by_cases hmn : n = m
    · exact hmn ▸ .single hnew
    · rw [hcount, if_neg hmn, Nat.add_zero] at hm
      exact (hs.leads n hqueued m hm).tail hnew

theorem step_onward {p : PacketId} {evs : List Event} {s t : Loop σ} {ev : Event}
    (hlinks : ∀ n, (w.links n).length ≤ 1) (hbroken : CyclesBroken w ctx)
    (hs : Onward w ctx p evs s) (hev : PollsOthers [p] ev)
    (h : Step checks shouldStop w ctx s ev t) : Onward w ctx p (evs ++ [ev]) t := by
  rcases popped_cases w ev with hnone | ⟨n, q, res, rfl, hone⟩
  · exact onward_apart hs hev (turn_move (step_turn h)) (by simp [hnone, Apart])
  · by_cases hq : q = p
    · subst hq
      exact onward_called hlinks hbroken hs h
    · exact onward_apart hs hev (turn_move (step_turn h)) (by simp [hone, Apart, hq])

/-! ### Order kept -/

theorem polled_live {s u : Loop σ} {n : NodeId} {burst : List PacketId}
    (h : Step checks shouldStop w ctx s (.polled n burst) u) :
    u.queue.live = s.queue.live ++ (w.links n).flatMap (linkTasks burst) ∧
      (w.links n ≠ [] → burst.Nodup) := by
  cases step_turn h with
  | polled _ hnode _ _ hchain hpush =>
    rw [links_eq hnode]
    exact ⟨ArrayStack.pushAll_live hpush, fun hne => (hchain hne).nodup⟩

/-- **When arrival order is kept.** On a graph without fan-out, the calls on a polled
burst follow its order at every node, from the poll to the end of the drain loop, exactly
if the burst is not queued at all or has one packet that no node sees twice. Where every
cycle passes a node that never returns `Ok`, no node does. -/
theorem arrival_order (hlinks : ∀ n, (w.links n).length ≤ 1) {s u t : Loop σ} {n : NodeId}
    {burst : List PacketId} (hpoll : Step checks shouldStop w ctx s (.polled n burst) u)
    (hfresh : ∀ p ∈ burst, ∀ id, ⟨id, some p⟩ ∉ s.queue.live) {evs : List Event}
    (hrun : Run (Step checks shouldStop w ctx) u evs t) (hdone : t.queue.index = 0)
    (hothers : ∀ n' other, .polled n' other ∈ evs → ∀ p ∈ burst, p ∉ other) :
    ((∀ m, (calls evs m burst).Sublist burst) ↔ w.links n = [] ∨
      (burst.length ≤ 1 ∧ ∀ m, ∀ p ∈ burst, callCount evs m p ≤ 1)) ∧
    (CyclesBroken w ctx →
      ((∀ m, (calls evs m burst).Sublist burst) ↔ w.links n = [] ∨ burst.length ≤ 1)) := by
  obtain ⟨hlive, hnodup⟩ := polled_live hpoll
  have hpolls : ∀ ev ∈ evs, PollsOthers burst ev := by
    intro ev hev
    cases ev with
    | polled n' other => exact hothers n' other hev
    | _ => trivial
  have hsub : (∀ m, (calls evs m burst).Sublist burst) → w.links n = [] ∨ burst.length ≤ 1 := by
    intro hsub
    by_contra hcond
    obtain ⟨hne, hlen⟩ := not_or.mp hcond
    obtain ⟨m, hm⟩ : ∃ m, w.links n = [m] := by
      have := List.length_pos_iff.mpr hne
      exact List.length_eq_one_iff.mp (Nat.le_antisymm (hlinks n) this)
    rw [hm, List.flatMap_singleton] at hlive
    exact long_burst_reversed hrun hdone ⟨_, hlive⟩ hpolls (hnodup hne) (by omega) (hsub m)
  have hnone : w.links n = [] → ∀ m, (calls evs m burst).Sublist burst := by
    intro hnil m
    have hapart : Apart burst u.queue.live := by
      rw [hlive, hnil, List.flatMap_nil, List.append_nil]
      rintro ⟨id, data⟩ htask p hp heq
      exact hfresh p hp id (heq ▸ htask)
    rw [not_queued_not_called hrun hapart hpolls m]
    exact List.nil_sublist burst
  constructor
  · constructor
    · intro h
      rcases hsub h with hnil | hlen
      · exact .inl hnil
      · refine .inr ⟨hlen, fun m p hp => ?_⟩
        rw [← count_calls hp]
        exact ((h m).count_le p).trans (List.count_le_length.trans hlen)
    · rintro (hnil | ⟨hlen, honce⟩)
      · exact hnone hnil
      · exact fun m => short_burst_sublist hlen (honce m)
  · intro hbroken
    refine ⟨hsub, ?_⟩
    rintro (hnil | hlen)
    · exact hnone hnil
    · refine fun m => short_burst_sublist hlen fun p hp => ?_
      have hburst : burst = [p] := by
        match burst, hlen, hp with
        | [q], _, hp => rw [List.mem_singleton.mp hp]
      subst hburst
      have hbase : waiting s.queue.live p = 0 := waiting_eq_zero.mpr <| by
        rintro ⟨id, data⟩ htask q hq heq
        exact hfresh q hq id (heq ▸ htask)
      have hinit : Onward w ctx p [] u := by
        refine ⟨fun _ => Nat.zero_le 1, ?_, fun _ _ _ hm => absurd hm (Nat.not_succ_le_zero 0)⟩
        rw [hlive, waiting_links]
        simpa [spread, hbase] using hlinks n
      exact (hrun.history (P := Onward w ctx p) (C := PollsOthers [p])
        (fun _ _ _ _ hs hev hst => step_onward hlinks hbroken hs hev hst) hpolls hinit).once m

end Worker

/-! ### A burst of two -/

namespace Sample

/-- The source, the relay and the sink in a row. -/
def rowConfig : GraphConfig where
  name := "row"
  modules := ["Source", "Relay", "Sink"]
  links := [("Source", "Relay"), ("Relay", "Sink")]

def rowGraph : Graph Unit where
  id := 0
  cpu := 0
  nodes := [⟨source 0 [1], .ofTake [1]⟩, ⟨relay, .ofTake [2]⟩, ⟨sink, .empty⟩]

def rowWorker : Worker Unit where
  nodes := ⟨rowGraph.nodes, by decide⟩
  nodesToPoll := .ofTake [0]
  id := 0
  graphId := 0
  cpu := 0
  stackName := "row"

/-- What follows the poll of packets 0 and 1. -/
def rowDrain : List Event :=
  [.pollEnd, .called 1 1 (.ok ()), .called 2 1 (.error .dropped), .called 1 0 (.ok ()),
    .called 2 0 (.error .dropped), .drained]

def polling : Loop Unit := {Loop.initial world with phase := .poll [0]}

theorem rowWorker_links (n : NodeId) : (rowWorker.links n).length ≤ 1 := by
  match n with
  | 0 => decide
  | 1 => decide
  | 2 => decide
  | _ + 3 => exact Nat.zero_le 1

theorem rowWorker_run : ∃ u t,
    Worker.Step true (fun _ => false) rowWorker ctx polling (.polled 0 [0, 1]) u ∧
    Run (Worker.Step true (fun _ => false) rowWorker ctx) u rowDrain t ∧ t.queue.index = 0 := by
  obtain ⟨t, hrun, ht⟩ := Run.exists_of_iterate (rowWorker.step true (fun _ => false) ctx) 7 polling
    (.polled 0 [0, 1] :: rowDrain) (fun t => decide (t.queue.index = 0)) (by decide +kernel)
  cases hrun with
  | @cons _ u _ _ _ hpoll hrun => exact ⟨u, t, hpoll, hrun, of_decide_eq_true ht⟩

end Sample

theorem Worker.arrival_order_sample :
    (∀ m, (Worker.calls Sample.rowDrain m [0, 1]).Sublist [0, 1]) ↔
      Sample.rowWorker.links 0 = [] ∨ ([0, 1].length ≤ 1 ∧
        ∀ m, ∀ p ∈ [0, 1], Worker.callCount Sample.rowDrain m p ≤ 1) := by
  obtain ⟨u, t, hpoll, hrun, hdone⟩ := Sample.rowWorker_run
  refine (Worker.arrival_order Sample.rowWorker_links hpoll (fun p _ id h => ?_) hrun hdone
    (fun n other h => ?_)).1
  · simp [Sample.polling, Loop.initial, ArrayStack.live] at h
  · simp [Sample.rowDrain] at h

/-- **A burst is processed backwards**: on an accepted graph without fan-out, the relay is
called on packet 1 and then on packet 0 of the polled burst 0, 1. -/
theorem Worker.burst_reversed :
    Graph.new Sample.factory 0 Sample.rowConfig 0 = .ok Sample.rowGraph ∧
    (∀ n, (Sample.rowWorker.links n).length ≤ 1) ∧
    ∃ u t, Worker.Step true (fun _ => false) Sample.rowWorker Sample.ctx Sample.polling
        (.polled 0 [0, 1]) u ∧
      Run (Worker.Step true (fun _ => false) Sample.rowWorker Sample.ctx) u Sample.rowDrain t ∧
      t.queue.index = 0 ∧ ¬ (Worker.calls Sample.rowDrain 1 [0, 1]).Sublist [0, 1] := by
  obtain ⟨u, t, hpoll, hrun, hdone⟩ := Sample.rowWorker_run
  exact ⟨rfl, Sample.rowWorker_links, u, t, hpoll, hrun, hdone, by decide⟩

end OmniStack
