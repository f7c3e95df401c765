import Mathlib.Algebra.BigOperators.Fin
import Mathlib.Algebra.Order.BigOperators.Group.Finset
import OmniStack.Startup

/-! How the process ends.

Before ctrl-c one request that is out of range is enough to end the server or the whole process. If
the server cannot be set up, the main thread waits for its flag and nothing else happens. Once
the server has left its loop no worker gets an id any more, and one that has none yet can only fail
and take the process with it: main does not return. Where every worker has its id, it can. -/
namespace OmniStack
open Lib

namespace Startup
variable {cpus : List UInt32} {host : Host} {s t : System cpus} {a : Action cpus}
  {as : List (Action cpus)}

/-! ### A request that ends it -/

/-- The process runs on, and its server with it. -/
def System.Standing (s : System cpus) : Prop := s.aborted = false ∧ s.server ≠ .ended

/-- No worker fails, and no system call of the server's. -/
def Action.Calm : Action cpus → Prop
  | .fails _ | .serverFails => False
  | _ => True

theorem Acted.standing (h : Acted host s a t) (hs : Threads s) (ha : a.Calm)
    (hstop : t.stopFlag = false) :
    t.Standing ↔ s.Standing ∧ ∀ req, a = .foreign req → Server.InRange req := by
  cases h with
  | ctrlC => cases hstop
  | serverFails | fails => cases ha
  | leave _ hflag =>
    rw [hflag] at hstop
    cases hstop
  | removeSocket hserver =>
    rw [hs.left hserver] at hstop
    cases hstop
  | panics _ hrange => exact iff_of_false (fun h => h.2 rfl) fun h => hrange (h.2 _ rfl)
  | aborts _ hrange => exact iff_of_false (fun h => by cases h.1) fun h => hrange (h.2 _ rfl)
  | foreign _ hids =>
    refine ⟨fun h => ⟨h, fun req heq => ?_⟩, And.left⟩
    cases heq
    exact Server.handle_isOk_iff.mp ⟨_, hids⟩
  | bind hserver | up hserver =>
    refine ⟨fun h => ⟨⟨h.1, by simp [hserver]⟩, fun _ heq => ?_⟩, fun h => ⟨h.1.1, by simp⟩⟩
    cases heq
  | serve | seesUp | launch | refuse | launchedAll | join | lcoresWaited | connect | receive | init
  | stop =>
    refine ⟨fun h => ⟨h, fun _ heq => ?_⟩, And.left⟩
    cases heq

/-- **One request is enough**: until ctrl-c, and as long as no worker and no system call of the
server's fails, the process and its server run on exactly if no other client has sent a thread id
that is out of range. -/
theorem standing_iff (hrun : Run (Step host) initial as s) (has : ∀ a ∈ as, a.Calm)
    (hstop : s.stopFlag = false) :
    s.Standing ↔ ∀ req, .foreign req ∈ as → Server.InRange req := by
  have hstep (before : List (Action cpus)) (u : System cpus) (b : Action cpus) (v : System cpus)
      (hu : (Fleet host u ∧ Threads u) ∧ (u.stopFlag = false →
        (u.Standing ↔ ∀ req, .foreign req ∈ before → Server.InRange req)))
      (hb : b.Calm) (hst : Step host u b v) : (Fleet host v ∧ Threads v) ∧ (v.stopFlag = false →
        (v.Standing ↔ ∀ req, .foreign req ∈ before ++ [b] → Server.InRange req)) := by
    have hacted := (acted hst).2
    refine ⟨⟨hu.1.1.step hacted, hu.1.2.step hu.1.1 hacted⟩, fun hv => ?_⟩
    have hustop : u.stopFlag = false := by
      by_contra hflag
      rw [hacted.stopFlag (Bool.not_eq_false _ ▸ hflag)] at hv
      cases hv
    rw [hacted.standing hu.1.2 hb hv, hu.2 hustop]
    simp only [List.mem_append, List.mem_singleton, or_imp, forall_and, eq_comm]
  have hinitial : (initial : System cpus).Standing := ⟨rfl, by simp [initial]⟩
  exact (hrun.history hstep has
    ⟨⟨.initial, .initial⟩, fun _ => iff_of_true hinitial fun _ h => by cases h⟩).2 hstop

-- an id that is out of range, in a release build
example : ∃ s : System Sample.threeCpus, Reachable Sample.twoLcores s ∧ s.stopFlag = false ∧
    ¬ s.Standing := by
  let as : List (Action Sample.threeCpus) := [.bind, .up, .foreign (.threadExit 2048)]
  have hrun : Run (Step Sample.twoLcores) initial as
      {initial with upFlag := true, aborted := true, server := .serving} := Run.of_follow rfl
  refine ⟨_, ⟨_, hrun⟩, rfl, fun hs => ?_⟩
  have hrange := (standing_iff hrun (by simp [as, Action.Calm]) rfl).mp hs (.threadExit 2048)
    (by simp [as])
  exact absurd hrange (by simp [Server.InRange, maxThreadNum])

/-! ### A server that is never up -/

/-- The server has ended before it was up. -/
structure Hung (s : System cpus) : Prop where
  server : s.server = .ended
  upFlag : s.upFlag = false
  main : s.main = .waiting
  workers : ∀ w, s.workers w = .made

/-- Only ctrl-c has an effect, and none that anybody sees. -/
theorem Hung.step (hs : Hung s) (h : Acted host s a t) :
    Hung t ∧ t.aborted = s.aborted := by
  have hserver := hs.server
  have hmain := hs.main
  have hup := hs.upFlag
  cases h with
  | ctrlC => exact ⟨{hs with}, rfl⟩
  | bind h | up h | serve h | foreign h | panics h | aborts h | leave h | removeSocket h =>
    rw [hserver] at h
    cases h
  | serverFails _ h => exact absurd hserver h
  | seesUp _ h =>
    rw [hup] at h
    cases h
  | launch h | refuse h | launchedAll h | join h | lcoresWaited h =>
    rw [hmain] at h
    cases h
  | connect h | receive h | init h | stop h =>
    rw [hs.workers] at h
    cases h
  | fails h =>
    rw [hs.workers] at h
    cases h

/-- **A server that cannot be set up hangs the process**: from then on, in any order of steps and
whether or not ctrl-c comes, main waits for the flag and no worker is launched. -/
theorem setup_failed_hangs (h : Reachable host s) (hserver : s.server = .ended)
    (hup : s.upFlag = false) (hrun : Run (Step host) s as t) :
    t.main = .waiting ∧ t.aborted = s.aborted ∧ ∀ w, t.workers w = .made := by
  have hmain := h.threads.main_of_up hup
  have hmade (w : Fin cpus.length) : s.workers w = .made := by
    rw [h.fleet.made, hmain]
    exact Nat.zero_le _
  have hstep (u v : System cpus) (b : Action cpus) (hu : Hung u ∧ u.aborted = s.aborted)
      (hst : Step host u b v) : Hung v ∧ v.aborted = s.aborted := by
    obtain ⟨hv, haborted⟩ := hu.1.step (acted hst).2
    exact ⟨hv, haborted.trans hu.2⟩
  obtain ⟨ht, haborted⟩ :=
    hrun.invariant (fun u b v => hstep u v b) ⟨⟨hserver, hup, hmain, hmade⟩, rfl⟩
  exact ⟨ht.main, haborted, ht.workers⟩

theorem setup_failed_hangs_sample : ∃ s : System Sample.threeCpus, Reachable Sample.twoLcores s ∧
    ∀ as t, Run (Step Sample.twoLcores) s as t → t.main = .waiting := by
  obtain ⟨s, hs⟩ := Sample.failed_reach
  exact ⟨s, hs.reachable, fun as t hrun =>
    (setup_failed_hangs hs.reachable hs.server hs.upFlag hrun).1⟩

/-! ### A worker that is late -/

/-- The server has left its loop. -/
def System.Left (s : System cpus) : Prop := s.server = .closing ∨ s.server = .ended

theorem Acted.left (h : Acted host s a t) (hs : s.Left) : t.Left := by
  cases h with
  | ctrlC | foreign | seesUp | launch | refuse | launchedAll | join | lcoresWaited | connect
  | receive | init | stop | aborts | fails | serve => exact hs
  | bind h | up h => rcases hs with hs | hs <;> rw [hs] at h <;> cases h
  | panics | removeSocket | serverFails => exact .inr rfl
  | leave => exact .inl rfl

/-- The worker has no id and is, or is to be, on an lcore. -/
def Unanswered (host : Host) (w : Fin cpus.length) (stage : Stage) : Prop :=
  (stage = .made ∧ First host w) ∨ (stage.active = true ∧ stage.threadId? = none)

structure Late (host : Host) (w : Fin cpus.length) (s : System cpus) : Prop where
  left : s.Left
  unanswered : Unanswered host w (s.workers w)

theorem Unanswered.move {w v : Fin cpus.length} {stage : Stage}
    (hs : Unanswered host w (s.workers w)) (hself : w = v → Unanswered host w stage) :
    Unanswered host w ((s.move v stage).workers w) := by
  by_cases hv : w = v
  · subst hv
    rw [System.move_workers_self]
    exact hself rfl
  · rwa [System.move_workers_of_ne s stage hv]

/-- A worker that has its id was not late. -/
theorem Unanswered.not_entered {w : Fin cpus.length} {stage : Stage} {id : UInt32}
    (h : Unanswered host w stage) : stage.threadId? ≠ some id := by
  rcases h with ⟨rfl, -⟩ | ⟨-, hnone⟩
  · simp [Stage.threadId?]
  · rw [hnone]
    simp

theorem Late.step {w : Fin cpus.length} (hs : Late host w s) (hfleet : Fleet host s)
    (h : Acted host s a t) : Late host w t := by
  refine ⟨h.left hs.left, ?_⟩
  have hlate := hs.unanswered
  -- only the loop answers, and only an answered worker goes on
  have hentered {v : Fin cpus.length} {id : UInt32} {stage : Stage}
      (hv : (s.workers v).threadId? = some id) : w = v → Unanswered host w stage := by
    intro heq
    subst heq
    exact absurd hv hlate.not_entered
  cases h with
  | ctrlC | bind | up | foreign | panics | aborts | leave | removeSocket | serverFails | seesUp
  | launchedAll | join | lcoresWaited | fails => exact hlate
  | serve h => rcases hs.left with hleft | hleft <;> rw [hleft] at h <;> cases h
  | launch => exact hlate.move fun _ => .inr ⟨rfl, rfl⟩
  | connect => exact hlate.move fun _ => .inr ⟨rfl, rfl⟩
  | receive hv | init hv | stop hv => exact hlate.move (hentered (by rw [hv]; rfl))
  | @refuse v hmain hbusy =>
    refine hlate.move fun heq => ?_
    subst heq
    have hmade : s.workers w = .made := (hfleet.launching hmain w).mpr le_rfl
    rcases hlate with ⟨-, hfirst⟩ | ⟨hactive, -⟩
    · rcases hbusy with hbusy | hbusy
      · rw [hfirst.1] at hbusy
        cases hbusy
      · exact absurd hbusy (hfleet.idle hfirst hmade)
    · rw [hmade] at hactive
      cases hactive

/-- It stays late. -/
theorem Late.run {w : Fin cpus.length} (hs : Late host w s) (h : Reachable host s)
    (hrun : Run (Step host) s as t) : Late host w t := by
  have hstep (u v : System cpus) (b : Action cpus) (hu : Late host w u ∧ Fleet host u)
      (hst : Step host u b v) : Late host w v ∧ Fleet host v :=
    ⟨hu.1.step hu.2 (acted hst).2, hu.2.step (acted hst).2⟩
  exact (hrun.invariant (fun u b v => hstep u v b) ⟨hs, h.fleet⟩).1

theorem Late.not_returned {w : Fin cpus.length} (hs : Late host w s) (h : Reachable host s) :
    s.main ≠ .returned := by
  intro hmain
  rcases hs.unanswered with ⟨hmade, -⟩ | ⟨hactive, -⟩
  · have hle := (h.fleet.made w).mp hmade
    rw [hmain] at hle
    exact absurd w.isLt (Nat.not_lt.mpr hle)
  · exact h.threads.not_quiet hactive hmain

theorem Reachable.run (h : Reachable host s) (hrun : Run (Step host) s as t) :
    Reachable host t := by
  obtain ⟨before, hbefore⟩ := h
  exact ⟨before ++ as, hbefore.append hrun⟩

/-- **A worker that is late is fatal**: once the server has left its loop, if a worker on an lcore
has no id yet, or the first worker of one is still to be launched, then main does not return,
whatever comes. -/
theorem late_worker_fatal (h : Reachable host s) {w : Fin cpus.length} (hlate : Late host w s)
    (hrun : Run (Step host) s as t) : t.main ≠ .returned :=
  (hlate.run h hrun).not_returned (h.run hrun)

theorem late_worker_fatal_sample : ∃ s : System Sample.threeCpus, Reachable Sample.twoLcores s ∧
    s.main = .joining ∧ ∀ as t, Run (Step Sample.twoLcores) s as t → t.main ≠ .returned := by
  obtain ⟨s, hs⟩ := Sample.early_reach
  have hsecond : s.workers (Sample.worker 1) = .launched := (Option.some.inj (hs.worker 1)).symm
  have hlate : Late Sample.twoLcores (Sample.worker 1) s :=
    ⟨.inl hs.server, .inr ⟨by rw [hsecond]; rfl, by rw [hsecond]; rfl⟩⟩
  exact ⟨s, hs.reachable, hs.main, fun as t hrun => late_worker_fatal hs.reachable hlate hrun⟩

/-! ### A process that can end -/

/-- Every launched worker has its id, ctrl-c has come and the server has left its loop. -/
structure Winding (s : System cpus) : Prop where
  aborted : s.aborted = false
  stopped : s.stopFlag = true
  left : s.Left
  main : s.main = .joining ∨ s.main = .waitingLcores ∨ s.main = .returned
  workers : ∀ w, s.workers w = .refused ∨ ((s.workers w).threadId?).isSome = true

/-- What takes such a process to its end. -/
def Action.winds : Action cpus → Bool
  | .removeSocket | .join | .lcoresWaited | .receive _ | .init _ | .stop _ => true
  | _ => false

/-- One step on the way. -/
def WindStep (host : Host) (s : System cpus) (a : Action cpus) (t : System cpus) :
    Prop :=
  Step host s a t ∧ a.winds = true

theorem Winding.move (hs : Winding s) {w : Fin cpus.length} {stage : Stage}
    (hstage : stage.threadId?.isSome = true) : Winding (s.move w stage) where
  aborted := hs.aborted
  stopped := hs.stopped
  left := hs.left
  main := hs.main
  workers v := by
    by_cases hv : v = w
    · subst hv
      rw [System.move_workers_self]
      exact .inr hstage
    · rw [System.move_workers_of_ne s stage hv]
      exact hs.workers v

theorem Winding.step (hs : Winding s) (h : WindStep host s a t) : Winding t := by
  obtain ⟨hst, hwinds⟩ := h
  have hacted := (acted hst).2
  have hleft := hacted.left hs.left
  cases hacted with
  | ctrlC | bind | up | serve | foreign | panics | aborts | leave | serverFails | seesUp | launch
  | refuse | launchedAll | connect | fails => cases hwinds
  | removeSocket => exact {hs with left := hleft}
  | join => exact {hs with main := .inr (.inl rfl)}
  | lcoresWaited => exact {hs with main := .inr (.inr rfl)}
  | receive | init | stop => exact hs.move rfl

theorem threadId?_answered {data : Except ServiceError ResponseData}
    (h : (Stage.answered data).threadId?.isSome = true) : ∃ id, data = .ok (.threadEnter id) := by
  cases data with
  | error e => cases h
  | ok data =>
    cases data with
    | none | fdCreate => cases h
    | threadEnter id => exact ⟨id, rfl⟩

/-- Until main has returned there is a step to take. -/
theorem Winding.progress (hs : Winding s) (hmain : s.main ≠ .returned) :
    ∃ a t, WindStep host s a t := by
  have haborted := hs.aborted
  by_cases hactive : ∃ w, (s.workers w).active = true
  · obtain ⟨w, hw⟩ := hactive
    rcases hs.workers w with hrefused | hid
    · rw [hrefused] at hw
      cases hw
    · cases hst : s.workers w with
      | made | refused | launched | connected =>
        rw [hst] at hid
        cases hid
      | returned id =>
        rw [hst] at hw
        cases hw
      | answered data =>
        rw [hst] at hid
        obtain ⟨id, rfl⟩ := threadId?_answered hid
        exact ⟨.receive w, s.move w (.entered id), by simp [Step, act, haborted, hst], rfl⟩
      | entered id =>
        exact ⟨.init w, s.move w (.running id), by simp [Step, act, haborted, hst], rfl⟩
      | running id =>
        exact ⟨.stop w, s.move w (.returned id), by simp [Step, act, haborted, hst, hs.stopped],
          rfl⟩
  · rcases hs.left with hclosing | hover
    · exact ⟨.removeSocket, {s with server := .ended}, by simp [Step, act, haborted, hclosing],
        rfl⟩
    · rcases hs.main with hjoin | hwait | hreturned
      · exact ⟨.join, {s with main := .waitingLcores}, by simp [Step, act, haborted, hjoin, hover],
          rfl⟩
      · have hbusy : s.busy = [] := List.eq_nil_iff_forall_not_mem.mpr fun cpu hcpu => by
          obtain ⟨w, hw, -⟩ := System.mem_busy.mp hcpu
          exact hactive ⟨w, hw⟩
        have hwaited : host.mpWaitLcore s.busy = true :=
          (host.mpWaitLcore_iff _).mpr (by simp [hbusy])
        exact ⟨.lcoresWaited, {s with main := .returned},
          by simp [Step, act, haborted, hwait, hwaited], rfl⟩
      · exact absurd hreturned hmain

/-- The steps a worker has left. -/
def Stage.rank : Stage → Nat
  | answered _ => 3
  | entered _ => 2
  | running _ => 1
  | _ => 0

def Main.rank : Main → Nat
  | joining => 2
  | waitingLcores => 1
  | _ => 0

def ServerStage.rank : ServerStage → Nat
  | ended => 0
  | _ => 1

def System.rank (s : System cpus) : Nat :=
  ∑ w, (s.workers w).rank + s.main.rank + s.server.rank

theorem rank_move {w : Fin cpus.length} {stage : Stage} (h : stage.rank < (s.workers w).rank) :
    (s.move w stage).rank < s.rank := by
  have hsum : ∑ v, ((s.move w stage).workers v).rank < ∑ v, (s.workers v).rank := by
    refine Finset.sum_lt_sum (fun v _ => ?_) ⟨w, Finset.mem_univ w, ?_⟩
    · by_cases hv : v = w
      · subst hv
        rw [System.move_workers_self]
        exact h.le
      · rw [System.move_workers_of_ne s stage hv]
    · rwa [System.move_workers_self]
  exact Nat.add_lt_add_right (Nat.add_lt_add_right hsum _) _

theorem rank_wind (h : WindStep host s a t) : t.rank < s.rank := by
  obtain ⟨hst, hwinds⟩ := h
  cases (acted hst).2 with
  | ctrlC | bind | up | serve | foreign | panics | aborts | leave | serverFails | seesUp | launch
  | refuse | launchedAll | connect | fails => cases hwinds
  | removeSocket h =>
    simp only [System.rank, h, ServerStage.rank]
    omega
  | join h | lcoresWaited h =>
    simp only [System.rank, h, Main.rank]
    omega
  | receive h | init h | stop h => exact rank_move (by simp [h, Stage.rank])

theorem Main.launches_done {main : Main} {total : Nat}
    (h : main = .joining ∨ main = .waitingLcores ∨ main = .returned) :
    main.launches total = total := by
  rcases h with rfl | rfl | rfl <;> rfl

/-- **When main can return**: with every launch done and the server out of its loop, main can still
return exactly if every worker that was not refused has been sent its id. -/
theorem returns_iff (h : Reachable host s)
    (hmain : s.main = .joining ∨ s.main = .waitingLcores ∨ s.main = .returned) (hleft : s.Left)
    (haborted : s.aborted = false) :
    (∃ as t, Run (Step host) s as t ∧ t.main = .returned) ↔
      ∀ w, s.workers w = .refused ∨ ((s.workers w).threadId?).isSome = true := by
  constructor
  · intro hreturns w
    obtain ⟨as, t, hrun, ht⟩ := hreturns
    by_contra hnot
    obtain ⟨hrefused, hid⟩ := not_or.mp hnot
    have hnone : (s.workers w).threadId? = none := Option.not_isSome_iff_eq_none.mp hid
    suffices hactive : (s.workers w).active = true by
      have hlate : Late host w s := ⟨hleft, .inr ⟨hactive, hnone⟩⟩
      exact (hlate.run h hrun).not_returned (h.run hrun) ht
    cases hw : s.workers w with
    | made =>
      have hle := (h.fleet.made w).mp hw
      rw [Main.launches_done hmain] at hle
      exact absurd w.isLt (Nat.not_lt.mpr hle)
    | refused => exact absurd hw hrefused
    | returned id =>
      rw [hw] at hnone
      cases hnone
    | launched | connected | answered | entered | running => rfl
  · intro hworkers
    -- ctrl-c, if it has not come, and then one step after the other
    have hctrlC : Step host s .ctrlC {s with stopFlag := true} := by simp [Step, act, haborted]
    have hwinding : Winding {s with stopFlag := true} :=
      ⟨haborted, rfl, hleft, hmain, hworkers⟩
    have hfinal : ∃ as t, Run (WindStep host) {s with stopFlag := true} as t ∧
        t.main = .returned :=
      Run.exists_final (fun _ _ _ hst => rank_wind hst)
        (fun _ _ _ (hs : Winding _) hst => hs.step hst) (fun _ hs hnot => hs.progress hnot) _
        hwinding
    obtain ⟨as, t, hrun, ht⟩ := hfinal
    exact ⟨_, t, .cons hctrlC (hrun.mono fun _ _ _ hst => hst.1), ht⟩

theorem returns_iff_sample : ∃ (s : System Sample.threeCpus) (as : List (Action Sample.threeCpus))
    (t : System Sample.threeCpus), Reachable Sample.twoLcores s ∧ s.main = .joining ∧
      Run (Step Sample.twoLcores) s as t ∧ t.main = .returned := by
  obtain ⟨s, hs⟩ := Sample.late_reach
  have hworkers (n : Fin 3) : s.workers (Sample.worker n) = .refused ∨
      ((s.workers (Sample.worker n)).threadId?).isSome = true := by
    have hworker := hs.worker n
    generalize s.workers (Sample.worker n) = stage at hworker
    fin_cases n <;> obtain rfl := Option.some.inj hworker <;> decide
  obtain ⟨as, t, hrun, ht⟩ :=
    (returns_iff hs.reachable (.inl hs.main) (.inl hs.server) hs.aborted).mpr hworkers
  exact ⟨s, as, t, hs.reachable, hs.main, hrun, ht⟩

end Startup
end OmniStack
