import OmniStack.Ports
import Mathlib.Algebra.Order.BigOperators.Group.Finset

/-! The turns of the workers.

How the stage a worker is in agrees with the `Once`, with the records of the adapters and of
the calls that have returned. Every run ends, and until then some worker has a turn,
whatever the library answers (`Reachable.to_end`). -/
namespace OmniStack
open Lib

namespace Ports
variable {W : Type} {nics : List NicConfig}

section Stages

/-- How many calls a worker has behind it; those of a worker that has failed do not count. -/
def Stage.passed : Stage nics → Nat
  | start | failed => 0
  | calling call | initializing call | waiting call | adapting call => call.nic
  | done => nics.length
  | crashed => numAdapterMax + 1

/-- The call a worker is in. -/
def Stage.call? : Stage nics → Option (Call nics)
  | calling call | initializing call | waiting call | adapting call => some call
  | start | done | failed | crashed => none

/-- More turns than a worker has left. -/
def Stage.rank : Stage nics → Nat
  | start => 4 * nics.length + 1
  | calling call => 4 * (nics.length - call.nic)
  | initializing call => 4 * (nics.length - call.nic) - 1
  | waiting call => 4 * (nics.length - call.nic) - 2
  | adapting call => 4 * (nics.length - call.nic) - 3
  | done | failed | crashed => 0

theorem enter_cases (nic : Nat) (queue : UInt16) :
    ((enter nic queue : Stage nics) = .done ∧ nics.length ≤ nic) ∨
      ∃ h : nic < nics.length, enter nic queue = .calling ⟨⟨nic, h⟩, queue⟩ := by
  by_cases h : nic < nics.length
  · exact .inr ⟨h, dif_pos h⟩
  · exact .inl ⟨dif_neg h, Nat.not_lt.mp h⟩

theorem next_cases (call : Call nics) :
    (next call = .done ∧ nics.length = call.nic + 1) ∨
      (next call = .crashed ∧ numAdapterMax ≤ call.nic) ∨
      ∃ h : call.nic + 1 < nics.length, next call = .calling ⟨⟨call.nic + 1, h⟩, call.queue⟩ ∧
        call.nic < numAdapterMax := by
  by_cases hmax : call.nic < numAdapterMax
  · rw [next, if_pos hmax]
    rcases @enter_cases nics (call.nic + 1) call.queue with ⟨hdone, hlen⟩ | ⟨h, hcall⟩
    · exact .inl ⟨hdone, Nat.le_antisymm hlen call.nic.isLt⟩
    · exact .inr (.inr ⟨h, hcall, hmax⟩)
  · exact .inr (.inl ⟨if_neg hmax, Nat.not_lt.mp hmax⟩)

theorem next_calling (call : Call nics) (hmax : call.nic < numAdapterMax)
    (h : call.nic + 1 < nics.length) :
    next call = .calling ⟨⟨call.nic + 1, h⟩, call.queue⟩ := by
  rw [next, if_pos hmax, enter, dif_pos h]

end Stages

section Invariant
variable (env : Platform W) (numQueues : W → UInt16)

/-- What has become of the first port. -/
inductive Phase (s : System W nics) : Prop where
  | fresh : s.initOnce = .fresh → s.started = [] → s.ports = [] → s.pools = [] →
    s.adapters = [] → Phase s
  | running {w : W} {call : Call nics} : s.initOnce = .running w →
    s.stages w = .initializing call → s.started = [call.port] → s.ports = [] → s.pools = [] →
    s.adapters = [] → Phase s
  | complete {w : W} {call : Call nics} {pool : Option String} : s.initOnce = .complete →
    s.initDone = true → s.started = [call.port] → s.ports = [⟨call.port, numQueues w⟩] →
    (env.dev call.port).portInit (env.socketId w) call.port (numQueues w) = .ok pool →
    s.pools = pool.toList → Phase s
  | poisoned {call : Call nics} : s.initOnce = .poisoned → s.started = [call.port] →
    s.ports = [] → s.adapters = [] → Phase s

/-- How the stage of a worker agrees with the `Once` and the adapters. -/
def Stage.Agrees (s : System W nics) (w : W) : Stage nics → Prop
  | initializing _ => s.initOnce = .running w
  | waiting _ => s.initOnce = .complete
  | adapting call => s.initOnce = .complete ∧ (w, call) ∈ s.adapters
  | failed => s.initOnce = .poisoned ∨ ∃ call, (w, call) ∈ s.adapters
  | start | calling _ | done | crashed => True

structure Books (s : System W nics) : Prop where
  phase : Phase env numQueues s
  agrees : ∀ w, (s.stages w).Agrees s w
  bound : ∀ w call, (s.stages w).call? = some call → call.nic ≤ numAdapterMax
  passed : ∀ w (nic : Fin nics.length), nic.val < (s.stages w).passed →
    ∃ queue, (w, ⟨nic, queue⟩) ∈ s.returned
  returned : ∀ a ∈ s.returned, a ∈ s.adapters ∧ env.pktmbufAllocBulk a.1 a.2.nic = true ∧
    env.ethMacaddrGet a.1 a.2.nic = true

variable {env numQueues} {v w : W} {s t : System W nics}

/-- A worker that is not in `port_init`, on a turn that starts nothing. -/
theorem Phase.quiet (hs : Phase env numQueues s) (hw : ∀ call, s.stages w ≠ .initializing call)
    (hother : ∀ v, v ≠ w → t.stages v = s.stages v) (honce : t.initOnce = s.initOnce)
    (hdone : t.initDone = s.initDone) (hstarted : t.started = s.started)
    (hports : t.ports = s.ports) (hpools : t.pools = s.pools)
    (hadapters : t.adapters = s.adapters ∨ s.initOnce = .complete) : Phase env numQueues t := by
  have hnone : s.initOnce ≠ .complete → s.adapters = [] → t.adapters = [] := by
    intro hne hnil
    rcases hadapters with heq | hc
    · rw [heq, hnil]
    · exact absurd hc hne
  cases hs with
  | fresh ho hst hp hpl ha =>
    exact .fresh (honce.trans ho) (hstarted.trans hst) (hports.trans hp) (hpools.trans hpl)
      (hnone (by simp [ho]) ha)
  | @running v call ho hv hst hp hpl ha =>
    have hne : v ≠ w := by
      intro heq
      obtain rfl := heq
      exact hw call hv
    exact .running (honce.trans ho) ((hother v hne).trans hv) (hstarted.trans hst)
      (hports.trans hp) (hpools.trans hpl) (hnone (by simp [ho]) ha)
  | complete ho hd hst hp hok hpl =>
    exact .complete (honce.trans ho) (hdone.trans hd) (hstarted.trans hst) (hports.trans hp) hok
      (hpools.trans hpl)
  | poisoned ho hst hp ha =>
    exact .poisoned (honce.trans ho) (hstarted.trans hst) (hports.trans hp)
      (hnone (by simp [ho]) ha)

/-- The flag is up only when `port_init` has returned. -/
theorem Books.complete (hb : Books env numQueues s) {call : Call nics}
    (h : s.stages w = .waiting call) : s.initOnce = .complete := by
  have := hb.agrees w
  rw [h] at this
  exact this

theorem Books.running (hb : Books env numQueues s) {call : Call nics}
    (h : s.stages w = .initializing call) :
    s.initOnce = .running w ∧ s.started = [call.port] ∧ s.ports = [] ∧ s.pools = [] ∧
      s.adapters = [] := by
  have ho : s.initOnce = .running w := by
    have := hb.agrees w
    rwa [h] at this
  cases hb.phase with
  | fresh ho' => rw [ho] at ho'; cases ho'
  | running ho' hv hst hp hpl ha =>
    rw [ho] at ho'
    cases ho'
    rw [h] at hv
    cases hv
    exact ⟨ho, hst, hp, hpl, ha⟩
  | complete ho' => rw [ho] at ho'; cases ho'
  | poisoned ho' => rw [ho] at ho'; cases ho'

/-- An adapter has its port only after `port_init` has returned. -/
theorem Books.complete_of_adapter (hb : Books env numQueues s) {a : W × Call nics}
    (ha : a ∈ s.adapters) : s.initOnce = .complete := by
  cases hb.phase with
  | fresh _ _ _ _ hnil => rw [hnil] at ha; cases ha
  | running _ _ _ _ _ hnil => rw [hnil] at ha; cases ha
  | complete ho => exact ho
  | poisoned _ _ _ hnil => rw [hnil] at ha; cases ha

/-- What a `Once` that is complete has left behind. -/
theorem Phase.of_complete (h : Phase env numQueues s) (ho : s.initOnce = .complete) :
    ∃ (w : W) (call : Call nics) (pool : Option String), s.initDone = true ∧
      s.started = [call.port] ∧ s.ports = [⟨call.port, numQueues w⟩] ∧
      (env.dev call.port).portInit (env.socketId w) call.port (numQueues w) = .ok pool ∧
      s.pools = pool.toList := by
  cases h with
  | fresh ho' => rw [ho] at ho'; cases ho'
  | running ho' => rw [ho] at ho'; cases ho'
  | complete _ hd hst hp hok hpl => exact ⟨_, _, _, hd, hst, hp, hok, hpl⟩
  | poisoned ho' => rw [ho] at ho'; cases ho'

theorem Books.flag (hb : Books env numQueues s) (ho : s.initOnce = .complete) :
    s.initDone = true := by
  obtain ⟨_, _, _, hd, -⟩ := hb.phase.of_complete ho
  exact hd

/-- The others agree with the `Once` after a turn as before: for them it has been called, and
they are not inside. -/
theorem Stage.Agrees.other {stage : Stage nics} (h : stage.Agrees s v) (hv : v ≠ w)
    (honce : s.initOnce ≠ .fresh → s.initOnce ≠ .running w → t.initOnce = s.initOnce)
    (hadapters : s.adapters ⊆ t.adapters) : stage.Agrees t v := by
  cases stage with
  | start | calling | done | crashed => trivial
  | initializing =>
    have ho : s.initOnce = .running v := h
    exact (honce (by simp [ho]) (by simp [ho, hv])).trans ho
  | waiting =>
    have ho : s.initOnce = .complete := h
    exact (honce (by simp [ho]) (by simp [ho])).trans ho
  | adapting =>
    have ho : s.initOnce = .complete := h.1
    exact ⟨(honce (by simp [ho]) (by simp [ho])).trans ho, hadapters h.2⟩
  | failed =>
    rcases h with ho | ⟨call, ha⟩
    · exact .inl ((honce (by simp [ho]) (by simp [ho])).trans ho)
    · exact .inr ⟨call, hadapters ha⟩

theorem enter_agrees (nic : Nat) (queue : UInt16) : (enter nic queue : Stage nics).Agrees s w := by
  rcases @enter_cases nics nic queue with ⟨h, -⟩ | ⟨_, h⟩ <;> (rw [h]; trivial)

theorem next_agrees (call : Call nics) : (next call).Agrees s w := by
  rcases next_cases call with ⟨h, -⟩ | ⟨h, -⟩ | ⟨_, h, -⟩ <;> (rw [h]; trivial)

theorem Books.initial : Books env numQueues (initial : System W nics) where
  phase := .fresh rfl rfl rfl rfl rfl
  agrees _ := trivial
  bound _ _ h := by cases h
  passed _ _ h := absurd h (Nat.not_lt_zero _)
  returned _ h := by cases h

end Invariant

section Turns
variable [DecidableEq W] {env : Platform W} {numQueues : W → UInt16} {w : W} {s t : System W nics}

/-- A turn leaves the other workers where they are and loses no record. -/
theorem Turned.frame (h : Turned env numQueues w s t) :
    (∀ v, v ≠ w → t.stages v = s.stages v) ∧ s.adapters ⊆ t.adapters ∧ s.returned ⊆ t.returned := by
  cases h with
  | begin | callFirst | callAgain | callPoisoned | portInit | portInitPanics | adaptFails =>
    exact ⟨fun v hv => move_stages_of_ne s _ hv, List.Subset.refl _, List.Subset.refl _⟩
  | assigned =>
    exact ⟨fun v hv => move_stages_of_ne s _ hv, List.subset_append_left .., List.Subset.refl _⟩
  | returns =>
    exact ⟨fun v hv => move_stages_of_ne s _ hv, List.Subset.refl _, List.subset_append_left ..⟩

/-- Only the worker inside changes a `Once` that has been called. -/
theorem Books.once_kept (hb : Books env numQueues s) (h : Turned env numQueues w s t)
    (hfresh : s.initOnce ≠ .fresh) (hw : s.initOnce ≠ .running w) : t.initOnce = s.initOnce := by
  cases h with
  | begin | callAgain | callPoisoned | assigned | returns | adaptFails => rfl
  | callFirst _ ho => exact absurd ho hfresh
  | portInit hin | portInitPanics hin => exact absurd (hb.running hin).1 hw

theorem Books.phase_turned (hb : Books env numQueues s) (h : Turned env numQueues w s t) :
    Phase env numQueues t := by
  have hother := h.frame.1
  cases h with
  | begin hw | callAgain hw | callPoisoned hw | returns hw | adaptFails hw =>
    exact hb.phase.quiet (by simp [hw]) hother rfl rfl rfl rfl rfl (.inl rfl)
  | assigned hw =>
    exact hb.phase.quiet (by simp [hw]) hother rfl rfl rfl rfl rfl (.inr (hb.complete hw))
  | @callFirst call hw ho =>
    cases hb.phase with
    | fresh _ hst hp hpl ha =>
      exact .running rfl (move_stages_self ..) (by simp [hst]) hp hpl ha
    | running ho' => rw [ho] at ho'; cases ho'
    | complete ho' => rw [ho] at ho'; cases ho'
    | poisoned ho' => rw [ho] at ho'; cases ho'
  | portInit hw hok =>
    obtain ⟨-, hst, hp, hpl, -⟩ := hb.running hw
    exact .complete rfl rfl hst (by simp [hp]) hok (by simp [hpl])
  | portInitPanics hw =>
    obtain ⟨-, hst, hp, -, ha⟩ := hb.running hw
    exact .poisoned rfl hst hp ha

/-- A worker agrees with the `Once` after its own turn. -/
theorem Books.agrees_self (hb : Books env numQueues s) (h : Turned env numQueues w s t) :
    (t.stages w).Agrees t w := by
  cases h with
  | begin =>
    show ((s.move w _).stages w).Agrees _ w
    rw [move_stages_self]
    exact enter_agrees ..
  | callFirst =>
    show ((s.move w _).stages w).Agrees _ w
    rw [move_stages_self]
    rfl
  | callAgain _ ho =>
    rw [move_stages_self]
    exact ho
  | callPoisoned _ ho =>
    rw [move_stages_self]
    exact .inl ho
  | portInit =>
    show ((s.move w _).stages w).Agrees _ w
    rw [move_stages_self]
    rfl
  | portInitPanics =>
    show ((s.move w _).stages w).Agrees _ w
    rw [move_stages_self]
    exact .inl rfl
  | assigned hw =>
    show ((s.move w _).stages w).Agrees _ w
    rw [move_stages_self]
    exact ⟨hb.complete hw, by simp⟩
  | returns =>
    show ((s.move w _).stages w).Agrees _ w
    rw [move_stages_self]
    exact next_agrees ..
  | @adaptFails call hw =>
    rw [move_stages_self]
    have := hb.agrees w
    rw [hw] at this
    exact .inr ⟨call, this.2⟩

theorem Books.agrees_turned (hb : Books env numQueues s) (h : Turned env numQueues w s t) :
    ∀ v, (t.stages v).Agrees t v := by
  intro v
  by_cases hv : v = w
  · subst hv
    exact hb.agrees_self h
  · rw [h.frame.1 v hv]
    exact (hb.agrees v).other hv (hb.once_kept h) h.frame.2.1

theorem passed_enter_zero (queue : UInt16) : (enter 0 queue : Stage nics).passed = 0 := by
  rcases @enter_cases nics 0 queue with ⟨h, hlen⟩ | ⟨_, h⟩
  · rw [h]
    exact Nat.le_zero.mp hlen
  · rw [h]
    rfl

theorem passed_next (call : Call nics) (h : call.nic ≤ numAdapterMax) :
    (next call).passed = call.nic + 1 := by
  rcases next_cases call with ⟨hn, hlen⟩ | ⟨hn, hmax⟩ | ⟨_, hn, -⟩
  · rw [hn]
    exact hlen
  · rw [hn, Nat.le_antisymm h hmax]
    rfl
  · rw [hn]
    rfl

/-- A turn passes a card only when the call for it returns. -/
theorem Turned.passed (h : Turned env numQueues w s t) :
    (t.stages w).passed = 0 ∨ (t.stages w).passed = (s.stages w).passed ∨
      ∃ call, s.stages w = .adapting call ∧ t.stages w = next call ∧ (w, call) ∈ t.returned := by
  cases h with
  | begin =>
    refine .inl ?_
    show ((s.move w _).stages w).passed = 0
    rw [move_stages_self, passed_enter_zero]
  | callPoisoned | adaptFails =>
    refine .inl ?_
    rw [move_stages_self]
    rfl
  | portInitPanics =>
    refine .inl ?_
    show ((s.move w _).stages w).passed = 0
    rw [move_stages_self]
    rfl
  | callAgain hw =>
    refine .inr (.inl ?_)
    rw [move_stages_self, hw]
    rfl
  | callFirst hw | portInit hw | assigned hw =>
    refine .inr (.inl ?_)
    show ((s.move w _).stages w).passed = _
    rw [move_stages_self, hw]
    rfl
  | returns hw => exact .inr (.inr ⟨_, hw, move_stages_self .., by simp⟩)

/-- The call a worker is in after its turn: the same one, its first one or the one after. -/
theorem Turned.call (h : Turned env numQueues w s t) {call : Call nics}
    (hc : (t.stages w).call? = some call) :
    (s.stages w).call? = some call ∨
      (s.stages w = .start ∧ call.nic.val = 0 ∧ call.queue = s.queueId ∧
        t.begun = s.begun ++ [w]) ∨
      ∃ before, s.stages w = .adapting before ∧ before.nic < numAdapterMax ∧
        call.nic.val = before.nic + 1 ∧ call.queue = before.queue := by
  cases h with
  | begin hw =>
    change ((s.move w _).stages w).call? = some call at hc
    rw [move_stages_self] at hc
    rcases @enter_cases nics 0 s.queueId with ⟨hdone, -⟩ | ⟨hlt, hcall⟩
    · rw [hdone] at hc
      cases hc
    · rw [hcall] at hc
      cases hc
      exact .inr (.inl ⟨hw, rfl, rfl, rfl⟩)
  | callPoisoned | adaptFails =>
    rw [move_stages_self] at hc
    cases hc
  | portInitPanics =>
    change ((s.move w _).stages w).call? = some call at hc
    rw [move_stages_self] at hc
    cases hc
  | callAgain hw =>
    rw [move_stages_self] at hc
    rw [hw]
    exact .inl hc
  | callFirst hw | portInit hw | assigned hw =>
    change ((s.move w _).stages w).call? = some call at hc
    rw [move_stages_self] at hc
    rw [hw]
    exact .inl hc
  | @returns before hw =>
    change ((s.move w _).stages w).call? = some call at hc
    rw [move_stages_self] at hc
    rcases next_cases before with ⟨hn, -⟩ | ⟨hn, -⟩ | ⟨hlt, hn, hmax⟩
    · rw [hn] at hc
      cases hc
    · rw [hn] at hc
      cases hc
    · rw [hn] at hc
      cases hc
      exact .inr (.inr ⟨before, hw, hmax, rfl, rfl⟩)

theorem Books.bound_turned (hb : Books env numQueues s) (h : Turned env numQueues w s t) :
    ∀ v call, (t.stages v).call? = some call → call.nic ≤ numAdapterMax := by
  intro v call hc
  by_cases hv : v = w
  · subst hv
    rcases h.call hc with hs | ⟨-, hnic, -⟩ | ⟨before, -, hmax, hnic, -⟩
    · exact hb.bound v call hs
    · rw [hnic]
      exact Nat.zero_le _
    · rw [hnic]
      exact hmax
  · rw [h.frame.1 v hv] at hc
    exact hb.bound v call hc

theorem Books.passed_turned (hb : Books env numQueues s) (h : Turned env numQueues w s t) :
    ∀ v (nic : Fin nics.length), nic.val < (t.stages v).passed →
      ∃ queue, (v, ⟨nic, queue⟩) ∈ t.returned := by
  intro v nic hnic
  have hkept : nic.val < (s.stages v).passed → ∃ queue, (v, ⟨nic, queue⟩) ∈ t.returned := by
    intro hs
    obtain ⟨queue, hq⟩ := hb.passed v nic hs
    exact ⟨queue, h.frame.2.2 hq⟩
  by_cases hv : v = w
  · subst hv
    rcases h.passed with h0 | heq | ⟨call, hs, ht, hmem⟩
    · rw [h0] at hnic
      exact absurd hnic (Nat.not_lt_zero _)
    · exact hkept (heq ▸ hnic)
    · rw [ht, passed_next call (hb.bound v call (by rw [hs]; rfl))] at hnic
      rcases Nat.lt_succ_iff_lt_or_eq.mp hnic with hlt | heq
      · exact hkept (by rw [hs]; exact hlt)
      · rw [Fin.ext heq]
        exact ⟨call.queue, hmem⟩
  · rw [h.frame.1 v hv] at hnic
    exact hkept hnic

theorem Books.returned_turned (hb : Books env numQueues s) (h : Turned env numQueues w s t) :
    ∀ a ∈ t.returned, a ∈ t.adapters ∧ env.pktmbufAllocBulk a.1 a.2.nic = true ∧
      env.ethMacaddrGet a.1 a.2.nic = true := by
  have hkept : ∀ a ∈ s.returned, a ∈ t.adapters ∧ env.pktmbufAllocBulk a.1 a.2.nic = true ∧
      env.ethMacaddrGet a.1 a.2.nic = true := by
    intro a ha
    exact ⟨h.frame.2.1 (hb.returned a ha).1, (hb.returned a ha).2⟩
  cases h with
  | begin | callFirst | callAgain | callPoisoned | portInit | portInitPanics | assigned
  | adaptFails => exact hkept
  | returns hw hp halloc hmac =>
    intro a ha
    rcases List.mem_append.mp ha with hs | hlast
    · exact hkept a hs
    · obtain rfl := List.mem_singleton.mp hlast
      have := hb.agrees w
      rw [hw] at this
      exact ⟨this.2, halloc, hmac⟩

theorem Books.turned (hb : Books env numQueues s) (h : Turned env numQueues w s t) :
    Books env numQueues t :=
  ⟨hb.phase_turned h, hb.agrees_turned h, hb.bound_turned h, hb.passed_turned h,
    hb.returned_turned h⟩

theorem rank_enter (nic : Nat) (queue : UInt16) :
    (enter nic queue : Stage nics).rank ≤ 4 * (nics.length - nic) := by
  rcases @enter_cases nics nic queue with ⟨h, -⟩ | ⟨_, h⟩
  · rw [h]
    exact Nat.zero_le _
  · rw [h]
    exact Nat.le_refl _

theorem rank_next (call : Call nics) : (next call).rank ≤ 4 * (nics.length - (call.nic + 1)) := by
  unfold next
  split
  · exact rank_enter ..
  · exact Nat.zero_le _

/-- Every turn leaves a worker with fewer of them. -/
theorem Turned.rank (h : Turned env numQueues w s t) :
    ∃ stage, t.stages = (s.move w stage).stages ∧ stage.rank < (s.stages w).rank := by
  cases h with
  | begin hw =>
    refine ⟨_, rfl, ?_⟩
    rw [hw]
    exact Nat.lt_succ_of_le (rank_enter ..)
  | @callFirst call hw | @callAgain call hw | @callPoisoned call hw | @portInit call _ hw
  | @portInitPanics call _ hw | @assigned call hw | @adaptFails call hw =>
    refine ⟨_, rfl, ?_⟩
    have := call.nic.isLt
    rw [hw]
    simp only [Stage.rank]
    omega
  | @returns call hw =>
    refine ⟨_, rfl, ?_⟩
    have hnext := rank_next call
    have hnic := call.nic.isLt
    have hlt : 4 * (nics.length - (call.nic + 1)) < 4 * (nics.length - call.nic) - 3 := by omega
    rw [hw]
    exact hnext.trans_lt hlt

end Turns

section Runs
variable [DecidableEq W] (env : Platform W) (numQueues : W → UInt16)

def Reachable (s : System W nics) : Prop :=
  ∃ ws, Run (fun s w t => turn env numQueues w s = some t) initial ws s

variable {env numQueues} {w : W} {s t : System W nics}

theorem Reachable.initial : Reachable env numQueues (initial : System W nics) := ⟨[], .nil _⟩

theorem Reachable.turn (h : Reachable env numQueues s)
    (ht : turn env numQueues w s = some t) : Reachable env numQueues t := by
  obtain ⟨ws, hrun⟩ := h
  exact ⟨ws ++ [w], hrun.snoc ht⟩

theorem Reachable.books (h : Reachable env numQueues s) : Books env numQueues s := by
  obtain ⟨ws, hrun⟩ := h
  exact hrun.invariant (fun s w t hb hst => hb.turned (turned hst)) .initial

/-- Where a worker is not done some worker has a turn: it, or the one in `port_init`. -/
theorem Books.progress (hb : Books env numQueues s) (hw : (s.stages w).over = false) :
    ∃ v t, (v = w ∨ s.stages v ≠ .start) ∧ Ports.turn env numQueues v s = some t := by
  have inside : ∀ v call, s.stages v = .initializing call →
      ∃ t, Ports.turn env numQueues v s = some t := by
    intro v call hv
    cases hp : (env.dev call.port).portInit (env.socketId v) call.port (numQueues v) with
    | ok pool => exact ⟨_, (Turned.portInit hv hp).turn⟩
    | error e => exact ⟨_, (Turned.portInitPanics hv hp).turn⟩
  cases hst : s.stages w with
  | start => exact ⟨w, _, .inl rfl, (Turned.begin hst).turn⟩
  | calling call =>
    cases hb.phase with
    | fresh ho => exact ⟨w, _, .inl rfl, (Turned.callFirst hst ho).turn⟩
    | running _ hv =>
      obtain ⟨t, ht⟩ := inside _ _ hv
      exact ⟨_, t, .inr (by simp [hv]), ht⟩
    | complete ho => exact ⟨w, _, .inl rfl, (Turned.callAgain hst ho).turn⟩
    | poisoned ho => exact ⟨w, _, .inl rfl, (Turned.callPoisoned hst ho).turn⟩
  | initializing call =>
    obtain ⟨t, ht⟩ := inside w call hst
    exact ⟨w, t, .inl rfl, ht⟩
  | waiting call => exact ⟨w, _, .inl rfl, (Turned.assigned hst (hb.flag (hb.complete hst))).turn⟩
  | adapting call =>
    by_cases ha : poolName call.port ∈ s.pools ∧ env.pktmbufAllocBulk w call.nic ∧
        env.ethMacaddrGet w call.nic
    · exact ⟨w, _, .inl rfl, (Turned.returns hst ha.1 ha.2.1 ha.2.2).turn⟩
    · exact ⟨w, _, .inl rfl, (Turned.adaptFails hst ha).turn⟩
  | done | failed | crashed => rw [hst] at hw; cases hw

variable [Fintype W]

/-- The turns that all workers together have left. -/
def System.rank (s : System W nics) : Nat := ∑ w, (s.stages w).rank

theorem rank_turn (h : Ports.turn env numQueues w s = some t) : t.rank < s.rank := by
  obtain ⟨stage, hstages, hlt⟩ := (turned h).rank
  rw [System.rank, hstages]
  refine Finset.sum_lt_sum (fun v _ => ?_) ⟨w, Finset.mem_univ w, ?_⟩
  · by_cases hv : v = w
    · subst hv
      rw [move_stages_self]
      exact hlt.le
    · rw [move_stages_of_ne s stage hv]
  · rw [move_stages_self]
    exact hlt

/-- From every reachable state a run leads to one in which every worker is done. -/
theorem Reachable.to_end (h : Reachable env numQueues s) :
    ∃ ws t, Run (fun s w t => Ports.turn env numQueues w s = some t) s ws t ∧
      Reachable env numQueues t ∧ ∀ w, (t.stages w).over = true := by
  have hprogress : ∀ s : System W nics, Reachable env numQueues s →
      (¬ ∀ w, (s.stages w).over = true) → ∃ w t, Ports.turn env numQueues w s = some t := by
    intro s hs hnot
    obtain ⟨w, hw⟩ := not_forall.mp hnot
    obtain ⟨v, t, -, ht⟩ := hs.books.progress (Bool.eq_false_iff.mpr hw)
    exact ⟨v, t, ht⟩
  obtain ⟨ws, t, hrun, hover⟩ := Run.exists_final (fun _ _ _ ht => rank_turn ht)
    (fun _ _ _ hs ht => Reachable.turn hs ht) hprogress s h
  exact ⟨ws, t, hrun, hrun.invariant (fun _ _ _ hs ht => hs.turn ht) h, hover⟩

end Runs

end Ports
end OmniStack
