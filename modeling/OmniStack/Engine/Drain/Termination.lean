import OmniStack.Engine.Drain.Depth

/-! The drain loop ends.

A node weighs one, and a node that can return `Ok` besides what its links lead to. Where
every cycle is broken there is exactly one such weight (`existsUnique_weighs`), every call
takes at least one off what the queued tasks weigh (`call_lowers`), and so the loop comes to
its end whatever the modules do (`drain_terminates`). -/
namespace OmniStack
open Lib
namespace Worker
variable {σ : Type} {checks : Bool} {shouldStop : World σ → Bool} {w : Worker σ} {ctx : Context}
  {W : NodeId → Nat}

/-- `W` counts the calls a task for a node can lead to. -/
structure Weighs (w : Worker σ) (ctx : Context) (W : NodeId → Nat) : Prop where
  keeps : ∀ n, ¬ w.MayForward ctx n → W n = 1
  forwards : ∀ n, w.MayForward ctx n → W n = 1 + ((w.links n).map W).sum

theorem weighs_iff : w.Weighs ctx W ↔ Descent.IsWeight (w.onward ctx) W := by
  constructor
  · intro h n
    unfold onward
    split
    · rename_i hfwd
      exact h.forwards n hfwd
    · rename_i hfwd
      exact h.keeps n hfwd
  · intro h
    refine ⟨fun n hfwd => ?_, fun n hfwd => ?_⟩
    · have hn := h n
      rwa [onward, if_neg hfwd] at hn
    · have hn := h n
      rwa [onward, if_pos hfwd] at hn

theorem existsUnique_weighs (hcycles : w.CyclesBroken ctx) : ∃! W, w.Weighs ctx W := by
  simp only [weighs_iff]
  exact (onward_descending hcycles).existsUnique_weight

/-- What the tasks weigh together. -/
def taskWeight (W : NodeId → Nat) (s : Loop σ) : Nat :=
  (s.queue.live.map fun task => W task.nodeId).sum

theorem taskWeight_eq (s : Loop σ) : taskWeight W s = ((nodesOf s).map W).sum := by
  rw [nodesOf, List.map_map]
  rfl

/-- Every task weighs something. -/
theorem index_le_weight (hW : w.Weighs ctx W) (s : Loop σ) : s.queue.index ≤ taskWeight W s := by
  have hpos (n : NodeId) : 1 ≤ W n := by
    rw [weighs_iff.mp hW n]
    exact Nat.le_add_right 1 _
  have hsum (l : List Task) : l.length ≤ (l.map fun task => W task.nodeId).sum := by
    induction l with
    | nil => exact Nat.le_refl 0
    | cons task rest ih =>
      have := hpos task.nodeId
      rw [List.length_cons, List.map_cons, List.sum_cons]
      omega
  rw [← ArrayStack.live_length]
  exact hsum s.queue.live

/-- The calls of a run are paid for by the tasks it started with. -/
theorem calls_add_weight_le (hW : w.Weighs ctx W) {s t : Loop σ} {evs : List Event}
    (hevs : ∀ ev ∈ evs, ev.IsCall) (hrun : Run (Step checks shouldStop w ctx) s evs t) :
    evs.length + taskWeight W t ≤ taskWeight W s := by
  have hle := Descent.moves_le_weight (weighs_iff.mp hW) (run_expands hevs hrun)
  rwa [List.length_map, ← taskWeight_eq, ← taskWeight_eq] at hle

theorem call_lowers (hW : w.Weighs ctx W) {s t : Loop σ} {ev : Event} (hev : ev.IsCall)
    (h : Step checks shouldStop w ctx s ev t) : taskWeight W t < taskWeight W s := by
  have hle := calls_add_weight_le hW (List.forall_mem_singleton.mpr hev) (.single h)
  rw [List.length_singleton] at hle
  omega

/-- There is no next turn of the drain loop: its condition fails, `run` has returned, or the
call at hand stops the worker. -/
def DrainOver (checks : Bool) (shouldStop : World σ → Bool) (w : Worker σ) (ctx : Context)
    (t : Loop σ) : Prop :=
  (t.phase = .drain ∧ t.queue.index = 0) ∨ (∃ res, t.phase = .done res) ∨
    ∃ f, w.step checks shouldStop ctx t = .error f

/-- As long as the loop is not over it makes another call. -/
theorem drain_progress {s : Loop σ} (hs : s.phase = .drain ∨ ∃ res, s.phase = .done res)
    (hover : ¬ DrainOver checks shouldStop w ctx s) :
    ∃ ev t, Step checks shouldStop w ctx s ev t ∧ ev.IsCall := by
  have hphase : s.phase = .drain := hs.resolve_right fun hdone => hover (.inr (.inl hdone))
  cases hstep : w.step checks shouldStop ctx s with
  | error f => exact absurd (.inr (.inr ⟨f, hstep⟩)) hover
  | ok next =>
    obtain ⟨ev, t⟩ := next
    refine ⟨ev, t, hstep, ?_⟩
    cases step_turn hstep with
    | forwarded | dropped | callFailed => trivial
    | drained _ hempty => exact absurd (.inl ⟨hphase, hempty⟩) hover
    | enter htop | leave htop =>
      rw [hphase] at htop
      cases htop
    | pollEnd hpoll | idle hpoll | polled hpoll | pollFailed hpoll =>
      rw [hphase] at hpoll
      cases hpoll

/-- **The drain loop ends.** With every cycle broken there is one weight, and from any
queue and whatever the modules do the calls made and the tasks left are at most what the
queued tasks weigh; and there is a run of calls to where the loop is over. -/
theorem drain_terminates (hcycles : w.CyclesBroken ctx) :
    (∃! W, w.Weighs ctx W) ∧ ∀ W, w.Weighs ctx W →
      ∀ checks shouldStop (s : Loop σ), s.phase = .drain →
        (∀ evs t, Run (Step checks shouldStop w ctx) s evs t → (∀ ev ∈ evs, ev.IsCall) →
          evs.length + t.queue.index ≤ taskWeight W s) ∧
        ∃ evs t, Run (Step checks shouldStop w ctx) s evs t ∧ (∀ ev ∈ evs, ev.IsCall) ∧
          DrainOver checks shouldStop w ctx t := by
  refine ⟨existsUnique_weighs hcycles, fun W hW checks shouldStop s hphase => ⟨?_, ?_⟩⟩
  · intro evs t hrun hevs
    have hle := calls_add_weight_le hW hevs hrun
    have hleft := index_le_weight hW t
    omega
  · have hrank : ∀ s ev t, Step checks shouldStop w ctx s ev t ∧ Event.IsCall ev →
        taskWeight W t < taskWeight W s := fun _ _ _ h => call_lowers hW h.2 h.1
    have hstep : ∀ (s : Loop σ) ev t, (s.phase = .drain ∨ ∃ res, s.phase = .done res) →
        Step checks shouldStop w ctx s ev t ∧ Event.IsCall ev →
        t.phase = .drain ∨ ∃ res, t.phase = .done res := by
      intro s ev t hs h
      rcases hs with hdrain | ⟨res, hdone⟩
      · exact calls_phase hdrain (List.forall_mem_singleton.mpr h.2) (.single h.1)
      · have hstep := h.1
        simp only [Step, step, hdone] at hstep
        cases hstep
    have hprogress : ∀ s, (s.phase = .drain ∨ ∃ res, s.phase = .done res) →
        ¬ DrainOver checks shouldStop w ctx s →
        ∃ ev t, Step checks shouldStop w ctx s ev t ∧ Event.IsCall ev :=
      fun _ hs hover => drain_progress hs hover
    obtain ⟨evs, t, hrun, hover⟩ := Run.exists_final hrank hstep hprogress s (.inl hphase)
    exact ⟨evs, t, hrun.mono fun _ _ _ h => h.1, hrun.labels fun _ _ _ h => h.2, hover⟩

end Worker

/-- The UDP graph is one whose links go round. -/
theorem Worker.drain_terminates_sample : ∃ w world,
    Registered Sample.quietCard true udpGraph Sample.ctx w world ∧
      (∃! W, w.Weighs Sample.ctx W) ∧ ∀ W, w.Weighs Sample.ctx W →
        ∀ checks shouldStop (s : Loop (Instances Unit)), s.phase = .drain →
          (∀ evs t, Run (Step checks shouldStop w Sample.ctx) s evs t → (∀ ev ∈ evs, ev.IsCall) →
            evs.length + t.queue.index ≤ taskWeight W s) ∧
          ∃ evs t, Run (Step checks shouldStop w Sample.ctx) s evs t ∧ (∀ ev ∈ evs, ev.IsCall) ∧
            DrainOver checks shouldStop w Sample.ctx t := by
  obtain ⟨w, world, hreg⟩ := Sample.udp_started
  exact ⟨w, world, hreg, Worker.drain_terminates hreg.udp_cycles_broken⟩

end OmniStack
