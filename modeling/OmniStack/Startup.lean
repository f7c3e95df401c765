import Mathlib.Tactic.FinCases
import OmniStack.Boot
import OmniStack.Service

/-! Starting up and shutting down: the main thread, the server's thread, the workers and ctrl-c.

`Engine::run` starts the server, waits for its flag, launches a worker on each graph's lcore, joins
the server and waits for the lcores. A worker asks the server for its thread id first. The order in
which the threads take their steps is arbitrary, and so is when ctrl-c comes. A worker whose `run`
returns an error panics where it must not unwind, which aborts the process; a panic of the server's
thread does so in a release build. Which launches are accepted, and when the wait for the lcores
ends, is up to the library (`Host`). -/
namespace OmniStack
open Lib

namespace Startup

/-- What the process runs on and how it was built. -/
structure Host where
  /-- the cpus that are lcores, besides the main one -/
  lcores : UInt32 → Bool
  /-- `rte_eal_remote_launch` on a cpu succeeds while these lcores are busy. -/
  remoteLaunch : List UInt32 → UInt32 → Bool
  /-- `rte_eal_mp_wait_lcore` returns while these lcores are busy. -/
  mpWaitLcore : List UInt32 → Bool
  /-- A launch is refused on a cpu that is no lcore and on an lcore that is busy. -/
  remoteLaunch_iff : ∀ busy cpu, remoteLaunch busy cpu = true ↔ lcores cpu = true ∧ cpu ∉ busy
  /-- The wait is over when no lcore is busy. -/
  mpWaitLcore_iff : ∀ busy, mpWaitLcore busy = true ↔ ∀ cpu ∈ busy, lcores cpu = false
  /-- A panic of the server's thread aborts the process: `panic = "abort"`, as in a release build.
  Otherwise it ends the thread. -/
  panicAborts : Bool

theorem Host.refused (host : Host) {busy : List UInt32} {cpu : UInt32}
    (h : host.remoteLaunch busy cpu = false) : host.lcores cpu = false ∨ cpu ∈ busy := by
  have hnot := mt (host.remoteLaunch_iff busy cpu).mpr (Bool.eq_false_iff.mp h)
  rwa [not_and_or, Bool.not_eq_true, not_not] at hnot

/-- How far `Engine::run` has come since it started the server. -/
inductive Main where
  | waiting
  /-- in `run_workers`, before the launch of this worker -/
  | launching (next : Nat)
  | joining
  | waitingLcores
  | returned
  deriving DecidableEq

/-- How many workers the main thread is done with, of all. -/
def Main.launches (total : Nat) : Main → Nat
  | waiting => 0
  | launching next => next
  | joining | waitingLcores | returned => total

/-- How far `Server::run` has come. -/
inductive ServerStage where
  | starting
  | bound
  | serving
  /-- behind the loop, before the socket is removed -/
  | closing
  /-- the thread has ended, with whatever result -/
  | ended
  deriving DecidableEq

/-- The socket is there to connect to. -/
def ServerStage.listening : ServerStage → Bool
  | bound | serving | closing => true
  | starting | ended => false

/-- How far a worker has come. -/
inductive Stage where
  | made
  /-- `rte_eal_remote_launch` has returned an error, which nobody reads -/
  | refused
  | launched
  /-- the request for an id is on its way -/
  | connected
  | answered (data : Except ServiceError ResponseData)
  /-- the id is set, the modules are not initialized yet -/
  | entered (threadId : UInt32)
  /-- in the main loop -/
  | running (threadId : UInt32)
  | returned (threadId : UInt32)
  deriving DecidableEq

namespace Stage

/-- The worker occupies its lcore. -/
def active : Stage → Bool
  | made | refused | returned _ => false
  | launched | connected | answered _ | entered _ | running _ => true

/-- The id the worker has, or has been sent. -/
def threadId? : Stage → Option UInt32
  | answered (.ok (.threadEnter id)) | entered id | running id | returned id => some id
  | _ => none

end Stage

/-- The process, with a worker for each of the cpus. -/
structure System (cpus : List UInt32) where
  /-- `SERVER_UP_FLAG` -/
  upFlag : Bool
  /-- `STOP_FLAG` -/
  stopFlag : Bool
  aborted : Bool
  main : Main
  server : ServerStage
  ids : ThreadId
  workers : Fin cpus.length → Stage

def initial {cpus : List UInt32} : System cpus where
  upFlag := false
  stopFlag := false
  aborted := false
  main := .waiting
  server := .starting
  ids := .initial
  workers := fun _ => .made

inductive Action (cpus : List UInt32) where
  /-- the signal handler -/
  | ctrlC
  | bind
  | up
  /-- the server's answer to a worker -/
  | serve (w : Fin cpus.length)
  /-- its answer to a request from elsewhere -/
  | foreign (req : Request)
  /-- the loop ends at its condition -/
  | leave
  | removeSocket
  /-- `?` returns an error of the system from `Server::run` -/
  | serverFails
  | seesUp
  | launch
  | launchedAll
  | join
  | lcoresWaited
  | connect (w : Fin cpus.length)
  | receive (w : Fin cpus.length)
  /-- every module is initialized -/
  | init (w : Fin cpus.length)
  /-- the main loop ends at its condition, and the modules are destroyed -/
  | stop (w : Fin cpus.length)
  /-- `run` returns an error or panics -/
  | fails (w : Fin cpus.length)

section
variable {cpus : List UInt32}

namespace System

def move (s : System cpus) (w : Fin cpus.length) (stage : Stage) : System cpus :=
  {s with workers := Function.update s.workers w stage}

@[simp] theorem move_workers_self (s : System cpus) (w : Fin cpus.length) (stage : Stage) :
    (s.move w stage).workers w = stage :=
  Function.update_self ..

theorem move_workers_of_ne (s : System cpus) {v w : Fin cpus.length} (stage : Stage) (h : v ≠ w) :
    (s.move w stage).workers v = s.workers v :=
  Function.update_of_ne h ..

/-- The lcores that workers are on. -/
def busy (s : System cpus) : List UInt32 :=
  ((List.finRange cpus.length).filter fun w => (s.workers w).active).map fun w => cpus[w]

theorem mem_busy {s : System cpus} {cpu : UInt32} :
    cpu ∈ s.busy ↔ ∃ w : Fin cpus.length, (s.workers w).active = true ∧ cpus[w] = cpu := by
  simp only [busy, List.mem_map, List.mem_filter, List.mem_finRange, true_and]

/-- The server's thread panics. -/
def serverPanics (host : Host) (s : System cpus) : System cpus :=
  if host.panicAborts then {s with aborted := true} else {s with server := .ended}

end System

/-- What an action does where it is possible. -/
def act (host : Host) (a : Action cpus) (s : System cpus) : Option (System cpus) :=
  if s.aborted then none
  else match a with
    | .ctrlC => some {s with stopFlag := true}
    | .bind => if s.server = .starting then some {s with server := .bound} else none
    | .up => if s.server = .bound then some {s with server := .serving, upFlag := true} else none
    | .serve w =>
      match s.server, s.workers w with
      | .serving, .connected =>
        match Server.handle .threadEnter s.ids with
        | .ok (data, ids) => some {s.move w (.answered data) with ids}
        | .error _ => some (s.serverPanics host)
      | _, _ => none
    | .foreign req =>
      match s.server with
      | .serving =>
        match Server.handle req s.ids with
        | .ok (_, ids) => some {s with ids}
        | .error _ => some (s.serverPanics host)
      | _ => none
    | .leave =>
      if s.server = .serving ∧ s.stopFlag then some {s with server := .closing} else none
    | .removeSocket => if s.server = .closing then some {s with server := .ended} else none
    | .serverFails =>
      if s.server = .closing ∨ s.server = .ended then none
      else some {s with server := .ended}
    | .seesUp => if s.main = .waiting ∧ s.upFlag then some {s with main := .launching 0} else none
    | .launch =>
      match s.main with
      | .launching n =>
        if h : n < cpus.length then
          let cpu := cpus[n]
          let stage := if host.remoteLaunch s.busy cpu then .launched else .refused
          some {s.move ⟨n, h⟩ stage with main := .launching (n + 1)}
        else none
      | _ => none
    | .launchedAll =>
      if s.main = .launching cpus.length then some {s with main := .joining} else none
    | .join =>
      if s.main = .joining ∧ s.server = .ended then some {s with main := .waitingLcores}
      else none
    | .lcoresWaited =>
      if s.main = .waitingLcores ∧ host.mpWaitLcore s.busy then
        some {s with main := .returned}
      else none
    | .connect w =>
      match s.workers w with
      | .launched => if s.server.listening then some (s.move w .connected) else none
      | _ => none
    | .receive w =>
      match s.workers w with
      | .answered (.ok (.threadEnter id)) => some (s.move w (.entered id))
      | _ => none
    | .init w =>
      match s.workers w with
      | .entered id => some (s.move w (.running id))
      | _ => none
    | .stop w =>
      match s.workers w with
      | .running id => if s.stopFlag then some (s.move w (.returned id)) else none
      | _ => none
    | .fails w => if (s.workers w).active then some {s with aborted := true} else none

/-! ### What a step can be -/

inductive Acted (host : Host) (s : System cpus) : Action cpus → System cpus → Prop where
  | ctrlC : Acted host s .ctrlC {s with stopFlag := true}
  | bind : s.server = .starting → Acted host s .bind {s with server := .bound}
  | up : s.server = .bound → Acted host s .up {s with server := .serving, upFlag := true}
  | serve {w : Fin cpus.length} {data : Except ServiceError ResponseData} {ids : ThreadId} :
    s.server = .serving → s.workers w = .connected →
    Server.handle .threadEnter s.ids = .ok (data, ids) →
    Acted host s (.serve w) {s.move w (.answered data) with ids}
  | foreign {req : Request} {data : Except ServiceError ResponseData} {ids : ThreadId} :
    s.server = .serving → Server.handle req s.ids = .ok (data, ids) →
    Acted host s (.foreign req) {s with ids}
  | panics {req : Request} : s.server = .serving → ¬ Server.InRange req →
    host.panicAborts = false → Acted host s (.foreign req) {s with server := .ended}
  | aborts {req : Request} : s.server = .serving → ¬ Server.InRange req →
    host.panicAborts = true → Acted host s (.foreign req) {s with aborted := true}
  | leave : s.server = .serving → s.stopFlag = true →
    Acted host s .leave {s with server := .closing}
  | removeSocket : s.server = .closing → Acted host s .removeSocket {s with server := .ended}
  | serverFails : s.server ≠ .closing → s.server ≠ .ended →
    Acted host s .serverFails {s with server := .ended}
  | seesUp : s.main = .waiting → s.upFlag = true →
    Acted host s .seesUp {s with main := .launching 0}
  | launch {w : Fin cpus.length} : s.main = .launching w → host.lcores cpus[w] = true →
    cpus[w] ∉ s.busy →
    Acted host s .launch {s.move w .launched with main := .launching (w + 1)}
  | refuse {w : Fin cpus.length} : s.main = .launching w →
    (host.lcores cpus[w] = false ∨ cpus[w] ∈ s.busy) →
    Acted host s .launch {s.move w .refused with main := .launching (w + 1)}
  | launchedAll : s.main = .launching cpus.length →
    Acted host s .launchedAll {s with main := .joining}
  | join : s.main = .joining → s.server = .ended →
    Acted host s .join {s with main := .waitingLcores}
  | lcoresWaited : s.main = .waitingLcores → (∀ cpu ∈ s.busy, host.lcores cpu = false) →
    Acted host s .lcoresWaited {s with main := .returned}
  | connect {w : Fin cpus.length} : s.workers w = .launched → s.server.listening = true →
    Acted host s (.connect w) (s.move w .connected)
  | receive {w : Fin cpus.length} {id : UInt32} :
    s.workers w = .answered (.ok (.threadEnter id)) →
    Acted host s (.receive w) (s.move w (.entered id))
  | init {w : Fin cpus.length} {id : UInt32} : s.workers w = .entered id →
    Acted host s (.init w) (s.move w (.running id))
  | stop {w : Fin cpus.length} {id : UInt32} : s.workers w = .running id → s.stopFlag = true →
    Acted host s (.stop w) (s.move w (.returned id))
  | fails {w : Fin cpus.length} : (s.workers w).active = true →
    Acted host s (.fails w) {s with aborted := true}

variable {host : Host} {s t : System cpus} {a : Action cpus}

theorem not_inRange {req : Request} {ids : ThreadId} {fault : Fault}
    (h : Server.handle req ids = .error fault) : ¬ Server.InRange req := by
  intro hrange
  have hok : ∃ out, Server.handle req ids = .ok out := Server.handle_isOk_iff.mpr hrange
  obtain ⟨out, hout⟩ := hok
  rw [h] at hout
  cases hout

theorem acted (h : act host a s = some t) : s.aborted = false ∧ Acted host s a t := by
  unfold act at h
  split at h
  · cases h
  · rename_i hrunning
    refine ⟨Bool.eq_false_iff.mpr hrunning, ?_⟩
    cases a with
    | ctrlC =>
      cases h
      exact .ctrlC
    | bind =>
      obtain ⟨hact, h⟩ := Option.ite_none_right_eq_some.mp h
      cases h
      exact .bind hact
    | up =>
      obtain ⟨hact, h⟩ := Option.ite_none_right_eq_some.mp h
      cases h
      exact .up hact
    | serve w =>
      dsimp only at h
      split at h
      · rename_i hserver hw
        split at h
        · rename_i data ids hids
          cases h
          exact .serve hserver hw hids
        · rename_i hids
          exact absurd trivial (not_inRange hids)
      · cases h
    | foreign req =>
      dsimp only at h
      split at h
      · rename_i hserver
        split at h
        · rename_i data ids hids
          cases h
          exact .foreign hserver hids
        · rename_i hids
          have hrange := not_inRange hids
          cases h
          unfold System.serverPanics
          split
          · exact .aborts hserver hrange ‹_›
          · exact .panics hserver hrange (Bool.eq_false_iff.mpr ‹_›)
      · cases h
    | leave =>
      obtain ⟨hact, h⟩ := Option.ite_none_right_eq_some.mp h
      cases h
      exact .leave hact.1 hact.2
    | removeSocket =>
      obtain ⟨hact, h⟩ := Option.ite_none_right_eq_some.mp h
      cases h
      exact .removeSocket hact
    | serverFails =>
      obtain ⟨hact, h⟩ := Option.ite_none_left_eq_some.mp h
      cases h
      exact .serverFails (fun h => hact (.inl h)) fun h => hact (.inr h)
    | seesUp =>
      obtain ⟨hact, h⟩ := Option.ite_none_right_eq_some.mp h
      cases h
      exact .seesUp hact.1 hact.2
    | launch =>
      dsimp only at h
      split at h
      · rename_i n hmain
        split at h
        · rename_i hn
          cases h
          cases haccept : host.remoteLaunch s.busy cpus[n] with
          | true =>
            obtain ⟨hlcore, hidle⟩ := (host.remoteLaunch_iff ..).mp haccept
            exact .launch hmain hlcore hidle
          | false => exact .refuse hmain (host.refused haccept)
        · cases h
      · cases h
    | launchedAll =>
      obtain ⟨hact, h⟩ := Option.ite_none_right_eq_some.mp h
      cases h
      exact .launchedAll hact
    | join =>
      obtain ⟨hact, h⟩ := Option.ite_none_right_eq_some.mp h
      cases h
      exact .join hact.1 hact.2
    | lcoresWaited =>
      obtain ⟨hact, h⟩ := Option.ite_none_right_eq_some.mp h
      cases h
      exact .lcoresWaited hact.1 ((host.mpWaitLcore_iff _).mp hact.2)
    | connect w =>
      dsimp only at h
      split at h
      · rename_i hw
        split at h
        · rename_i hlistening
          cases h
          exact .connect hw hlistening
        · cases h
      · cases h
    | receive w =>
      dsimp only at h
      split at h
      · rename_i id hw
        cases h
        exact .receive hw
      · cases h
    | init w =>
      dsimp only at h
      split at h
      · rename_i id hw
        cases h
        exact .init hw
      · cases h
    | stop w =>
      dsimp only at h
      split at h
      · rename_i id hw
        split at h
        · rename_i hstop
          cases h
          exact .stop hw hstop
        · cases h
      · cases h
    | fails w =>
      obtain ⟨hact, h⟩ := Option.ite_none_right_eq_some.mp h
      cases h
      exact .fails hact

/-! ### What becomes of the workers -/

/-- What becomes of a worker that has been launched. -/
inductive Moves (stopFlag : Bool) : Stage → Stage → Prop where
  | connect : Moves stopFlag .launched .connected
  | answer (data : Except ServiceError ResponseData) : Moves stopFlag .connected (.answered data)
  | receive (id : UInt32) : Moves stopFlag (.answered (.ok (.threadEnter id))) (.entered id)
  | init (id : UInt32) : Moves stopFlag (.entered id) (.running id)
  | stop (id : UInt32) : stopFlag = true → Moves stopFlag (.running id) (.returned id)

namespace Moves
variable {stopFlag : Bool} {before after : Stage}

theorem active (h : Moves stopFlag before after) : before.active = true := by
  cases h <;> rfl

theorem ne_made (h : Moves stopFlag before after) : after ≠ .made := by
  cases h <;> simp

theorem ne_refused (h : Moves stopFlag before after) : after ≠ .refused := by
  cases h <;> simp

theorem stopped (h : Moves stopFlag before after) {id : UInt32} (hid : after = .returned id) :
    stopFlag = true := by
  cases h with
  | stop _ hstop => exact hstop
  | connect | answer | receive | init => cases hid

end Moves

/-- What a launch makes of the worker. -/
inductive Launches (host : Host) (s : System cpus) (w : Fin cpus.length) : Stage → Prop where
  | launched : host.lcores cpus[w] = true → cpus[w] ∉ s.busy → Launches host s w .launched
  | refused : (host.lcores cpus[w] = false ∨ cpus[w] ∈ s.busy) → Launches host s w .refused

/-- What a step does to the workers and to the main thread's count of them. -/
inductive Workers (host : Host) (s t : System cpus) : Prop where
  | same : t.workers = s.workers → t.main.launches cpus.length = s.main.launches cpus.length →
    Workers host s t
  | moved {w : Fin cpus.length} {stage : Stage} : Moves s.stopFlag (s.workers w) stage →
    t.workers = Function.update s.workers w stage → t.main = s.main → Workers host s t
  | launch {w : Fin cpus.length} {stage : Stage} : s.main = .launching w →
    Launches host s w stage → t.workers = Function.update s.workers w stage →
    t.main = .launching (w + 1) → Workers host s t

theorem Acted.workers (h : Acted host s a t) : Workers host s t := by
  cases h with
  | ctrlC | bind | up | foreign | panics | aborts | leave | removeSocket | serverFails | fails =>
    exact .same rfl rfl
  | seesUp hmain | launchedAll hmain | join hmain | lcoresWaited hmain =>
    exact .same rfl (by simp [Main.launches, hmain])
  | serve _ hw => exact .moved (hw ▸ .answer _) rfl rfl
  | launch hmain hlcore hidle => exact .launch hmain (.launched hlcore hidle) rfl rfl
  | refuse hmain hbusy => exact .launch hmain (.refused hbusy) rfl rfl
  | connect hw => exact .moved (hw ▸ .connect) rfl rfl
  | receive hw => exact .moved (hw ▸ .receive _) rfl rfl
  | init hw => exact .moved (hw ▸ .init _) rfl rfl
  | stop hw hstop => exact .moved (hw ▸ .stop _ hstop) rfl rfl

/-- The workers in every reachable state. -/
structure Fleet (host : Host) (s : System cpus) : Prop where
  made : ∀ w : Fin cpus.length, s.workers w = .made ↔ s.main.launches cpus.length ≤ w
  alone : ∀ v w, (s.workers v).active = true → (s.workers w).active = true →
    cpus[v] = cpus[w] → v = w
  lcore : ∀ w, s.workers w ≠ .made → s.workers w ≠ .refused → host.lcores cpus[w] = true
  refused : ∀ w, s.workers w = .refused → host.lcores cpus[w] = false ∨
    ∃ v < w, cpus[v] = cpus[w] ∧ s.workers v ≠ .refused
  stopped : ∀ w id, s.workers w = .returned id → s.stopFlag = true

theorem Fleet.initial : Fleet host (initial : System cpus) where
  made w := by simp [Startup.initial, Main.launches]
  alone v w hv := by cases hv
  lcore w hw := absurd rfl hw
  refused w hw := by cases hw
  stopped w id hw := by cases hw

/-- Before its launch a worker is made, and the earlier ones are not. -/
theorem Fleet.launching (hs : Fleet host s) {w : Fin cpus.length} (h : s.main = .launching w)
    (v : Fin cpus.length) : s.workers v = .made ↔ w ≤ v := by
  rw [hs.made v, h]
  rfl

/-- A worker that moves on. -/
theorem Fleet.moved (hs : Fleet host s) {w : Fin cpus.length} {stage : Stage}
    (hmoves : Moves s.stopFlag (s.workers w) stage)
    (hworkers : t.workers = Function.update s.workers w stage) (hmain : t.main = s.main)
    (hstop : s.stopFlag = true → t.stopFlag = true) : Fleet host t := by
  have hactive := hmoves.active
  have hself : t.workers w = stage := by rw [hworkers, Function.update_self]
  have hother {v : Fin cpus.length} (hv : v ≠ w) : t.workers v = s.workers v := by
    rw [hworkers, Function.update_of_ne hv]
  have hwas {stage' : Stage} (hidle : stage'.active = false) : s.workers w ≠ stage' := by
    intro h
    rw [h, hidle] at hactive
    cases hactive
  have hactive' (v : Fin cpus.length) (hv : (t.workers v).active = true) :
      (s.workers v).active = true := by
    by_cases heq : v = w
    · exact heq ▸ hactive
    · rwa [hother heq] at hv
  constructor
  · intro v
    by_cases heq : v = w
    · subst heq
      rw [hself, hmain, ← hs.made v]
      exact iff_of_false hmoves.ne_made (hwas rfl)
    · rw [hother heq, hmain]
      exact hs.made v
  · exact fun v v' hv hv' => hs.alone v v' (hactive' v hv) (hactive' v' hv')
  · intro v hmade hrefused
    by_cases heq : v = w
    · subst heq
      exact hs.lcore v (hwas rfl) (hwas rfl)
    · rw [hother heq] at hmade hrefused
      exact hs.lcore v hmade hrefused
  · intro v hv
    by_cases heq : v = w
    · subst heq
      exact absurd (hself.symm.trans hv) hmoves.ne_refused
    · rw [hother heq] at hv
      refine (hs.refused v hv).imp_right fun h => ?_
      obtain ⟨u, hlt, hcpu, hu⟩ := h
      refine ⟨u, hlt, hcpu, ?_⟩
      by_cases hu' : u = w
      · rw [hu', hself]
        exact hmoves.ne_refused
      · rwa [hother hu']
  · intro v id hv
    by_cases heq : v = w
    · subst heq
      exact hstop (hmoves.stopped (hself.symm.trans hv))
    · rw [hother heq] at hv
      exact hstop (hs.stopped v id hv)

theorem Launches.ne_made {w : Fin cpus.length} {stage : Stage} (h : Launches host s w stage) :
    stage ≠ .made := by
  cases h <;> simp

/-- A worker whose turn it is to be launched. -/
theorem Fleet.launch (hs : Fleet host s) {w : Fin cpus.length} {stage : Stage}
    (hmain : s.main = .launching w) (hlaunch : Launches host s w stage)
    (hworkers : t.workers = Function.update s.workers w stage)
    (hmain' : t.main = .launching (w + 1)) (hstop : s.stopFlag = true → t.stopFlag = true) :
    Fleet host t := by
  have hturn := hs.launching hmain
  have hself : t.workers w = stage := by rw [hworkers, Function.update_self]
  have hother {v : Fin cpus.length} (hv : v ≠ w) : t.workers v = s.workers v := by
    rw [hworkers, Function.update_of_ne hv]
  have hbefore {v : Fin cpus.length} (hv : s.workers v ≠ .made) : v < w :=
    lt_of_not_ge fun h => hv ((hturn v).mpr h)
  -- who is on an lcore was there before, but for the worker itself if it is launched
  have hactive {v : Fin cpus.length} (hv : (t.workers v).active = true) :
      (v = w ∧ cpus[w] ∉ s.busy) ∨ (v ≠ w ∧ (s.workers v).active = true) := by
    by_cases heq : v = w
    · subst heq
      rw [hself] at hv
      cases hlaunch with
      | launched _ hidle => exact .inl ⟨rfl, hidle⟩
      | refused => cases hv
    · rw [hother heq] at hv
      exact .inr ⟨heq, hv⟩
  constructor
  · intro v
    rw [hmain']
    by_cases heq : v = w
    · subst heq
      rw [hself]
      exact iff_of_false hlaunch.ne_made (Nat.not_succ_le_self _)
    · rw [hother heq, hturn v]
      have hne : (w : Nat) ≠ v := fun h => heq (Fin.ext h.symm)
      show (w : Nat) ≤ v ↔ (w : Nat) + 1 ≤ v
      omega
  · intro v v' hv hv' hcpu
    rcases hactive hv with ⟨rfl, hidle⟩ | ⟨-, hv⟩ <;>
      rcases hactive hv' with ⟨rfl, hidle'⟩ | ⟨-, hv'⟩
    · rfl
    · exact absurd (System.mem_busy.mpr ⟨v', hv', hcpu.symm⟩) hidle
    · exact absurd (System.mem_busy.mpr ⟨v, hv, hcpu⟩) hidle'
    · exact hs.alone v v' hv hv' hcpu
  · intro v hmade hrefused
    by_cases heq : v = w
    · subst heq
      rw [hself] at hrefused
      cases hlaunch with
      | launched hlcore => exact hlcore
      | refused => exact absurd rfl hrefused
    · rw [hother heq] at hmade hrefused
      exact hs.lcore v hmade hrefused
  · intro v hv
    by_cases heq : v = w
    · subst heq
      rw [hself] at hv
      cases hlaunch with
      | launched => cases hv
      | refused hbusy =>
        refine hbusy.imp_right fun hbusy => ?_
        obtain ⟨u, hu, hcpu⟩ := System.mem_busy.mp hbusy
        have hlt : u < v := hbefore fun h => by rw [h] at hu; cases hu
        refine ⟨u, hlt, hcpu, fun h => ?_⟩
        rw [hother hlt.ne] at h
        rw [h] at hu
        cases hu
    · rw [hother heq] at hv
      refine (hs.refused v hv).imp_right fun h => ?_
      obtain ⟨u, hlt, hcpu, hu⟩ := h
      have hvw : v < w := hbefore fun h => by rw [h] at hv; cases hv
      refine ⟨u, hlt, hcpu, ?_⟩
      rwa [hother (hlt.trans hvw).ne]
  · intro v id hv
    by_cases heq : v = w
    · subst heq
      rw [hself] at hv
      cases hlaunch <;> cases hv
    · rw [hother heq] at hv
      exact hstop (hs.stopped v id hv)

theorem Acted.stopFlag (h : Acted host s a t) (hstop : s.stopFlag = true) :
    t.stopFlag = true := by
  cases h <;> first | rfl | exact hstop

theorem Fleet.step (hs : Fleet host s) (h : Acted host s a t) : Fleet host t := by
  cases h.workers with
  | same hworkers hlaunches =>
    constructor
    · rw [hworkers, hlaunches]
      exact hs.made
    · rw [hworkers]
      exact hs.alone
    · rw [hworkers]
      exact hs.lcore
    · rw [hworkers]
      exact hs.refused
    · rw [hworkers]
      exact fun w id hw => h.stopFlag (hs.stopped w id hw)
  | moved hmoves hworkers hmain => exact hs.moved hmoves hworkers hmain h.stopFlag
  | launch hmain hlaunch hworkers hmain' => exact hs.launch hmain hlaunch hworkers hmain' h.stopFlag

/-- A worker that is busy is on an lcore. -/
theorem Fleet.busy (hs : Fleet host s) {w : Fin cpus.length} (hw : (s.workers w).active = true) :
    host.lcores cpus[w] = true :=
  hs.lcore w (fun h => by rw [h] at hw; cases hw) fun h => by rw [h] at hw; cases hw

/-- The wait for the lcores is a wait for the workers. -/
theorem Fleet.quiet_iff (hs : Fleet host s) :
    (∀ cpu ∈ s.busy, host.lcores cpu = false) ↔ ∀ w, (s.workers w).active = false := by
  constructor
  · intro h w
    refine Bool.eq_false_iff.mpr fun hw => ?_
    have hnot := h cpus[w] (System.mem_busy.mpr ⟨w, hw, rfl⟩)
    rw [hs.busy hw] at hnot
    cases hnot
  · intro h cpu hcpu
    obtain ⟨w, hw, -⟩ := System.mem_busy.mp hcpu
    rw [h w] at hw
    cases hw

/-! ### The flags and the two other threads -/

structure Threads (s : System cpus) : Prop where
  waits : s.main ≠ .waiting → s.upFlag = true
  bound : s.upFlag = true → s.server ≠ .starting ∧ s.server ≠ .bound
  left : s.server = .closing → s.stopFlag = true
  joined : s.main = .waitingLcores ∨ s.main = .returned → s.server = .ended
  quiet : s.main = .returned → ∀ w, (s.workers w).active = false

theorem Threads.initial : Threads (initial : System cpus) where
  waits h := absurd rfl h
  bound h := by cases h
  left h := by cases h
  joined h := by rcases h with h | h <;> cases h
  quiet h := by cases h

theorem Threads.main_of_up (hs : Threads s) (h : s.upFlag = false) : s.main = .waiting := by
  by_contra hmain
  rw [hs.waits hmain] at h
  cases h

/-- Main is past the server only when that has ended. -/
theorem Threads.not_joined (hs : Threads s) (h : s.server ≠ .ended) :
    ¬ (s.main = .waitingLcores ∨ s.main = .returned) :=
  mt hs.joined h

/-- After main has returned no worker is on its lcore. -/
theorem Threads.not_quiet (hs : Threads s) {w : Fin cpus.length}
    (h : (s.workers w).active = true) : s.main ≠ .returned := by
  intro hmain
  rw [hs.quiet hmain w] at h
  cases h

/-- The server ends. -/
theorem Threads.ended (hs : Threads s) : Threads {s with server := .ended} where
  waits := hs.waits
  bound _ := by simp
  left h := by cases h
  joined _ := rfl
  quiet := hs.quiet

theorem Threads.step (hs : Threads s) (hfleet : Fleet host s) (h : Acted host s a t) :
    Threads t := by
  cases h with
  | ctrlC => exact {hs with left := fun _ => rfl}
  | bind hserver =>
    have hup : s.upFlag ≠ true := fun h => (hs.bound h).1 hserver
    exact {hs with
      bound := fun h => absurd h hup
      left := fun h => by cases h
      joined := fun h => absurd h (hs.not_joined (by simp [hserver]))}
  | up hserver =>
    exact {hs with
      waits := fun _ => rfl
      bound := fun _ => by simp
      left := fun h => by cases h
      joined := fun h => absurd h (hs.not_joined (by simp [hserver]))}
  | serve hserver =>
    exact {hs with quiet := fun h => absurd (.inr h) (hs.not_joined (by simp [hserver]))}
  | foreign => exact {hs with}
  | panics | removeSocket | serverFails => exact hs.ended
  | leave hserver hstop =>
    exact {hs with
      bound := fun _ => by simp
      left := fun _ => hstop
      joined := fun h => absurd h (hs.not_joined (by simp [hserver]))}
  | seesUp _ hup =>
    exact {hs with
      waits := fun _ => hup
      joined := fun h => by rcases h with h | h <;> cases h
      quiet := fun h => by cases h}
  | launch hmain | refuse hmain | launchedAll hmain =>
    exact {hs with
      waits := fun _ => hs.waits (by simp [hmain])
      joined := fun h => by rcases h with h | h <;> cases h
      quiet := fun h => by cases h}
  | join hmain hserver =>
    exact {hs with
      waits := fun _ => hs.waits (by simp [hmain])
      joined := fun _ => hserver
      quiet := fun h => by cases h}
  | lcoresWaited hmain hidle =>
    exact {hs with
      waits := fun _ => hs.waits (by simp [hmain])
      joined := fun _ => hs.joined (.inl hmain)
      quiet := fun _ => hfleet.quiet_iff.mp hidle}
  | connect hw | receive hw | init hw | stop hw =>
    exact {hs with quiet := fun h => absurd h (hs.not_quiet (by rw [hw]; rfl))}
  | aborts | fails => exact {hs with}

/-! ### Every order of steps -/

/-- One step of any thread. -/
def Step (host : Host) (s : System cpus) (a : Action cpus) (t : System cpus) : Prop :=
  act host a s = some t

def Reachable (host : Host) (s : System cpus) : Prop :=
  ∃ as, Run (Step host) initial as s

theorem Reachable.fleet (h : Reachable host s) : Fleet host s := by
  obtain ⟨as, hrun⟩ := h
  exact hrun.invariant (fun _ _ _ hs hst => hs.step (acted hst).2) .initial

theorem Reachable.threads (h : Reachable host s) : Threads s := by
  obtain ⟨as, hrun⟩ := h
  have hstep (u v : System cpus) (b : Action cpus) (hu : Fleet host u ∧ Threads u)
      (hst : Step host u b v) : Fleet host v ∧ Threads v :=
    ⟨hu.1.step (acted hst).2, hu.2.step hu.1 (acted hst).2⟩
  exact (hrun.invariant (fun u b v => hstep u v b) ⟨.initial, .initial⟩).2

end

/-- A host with these lcores. -/
def Host.ofLcores (lcores : UInt32 → Bool) (panicAborts : Bool) : Host where
  lcores
  remoteLaunch busy cpu := lcores cpu && !busy.contains cpu
  mpWaitLcore busy := busy.all fun cpu => !lcores cpu
  remoteLaunch_iff busy cpu := by simp
  mpWaitLcore_iff busy := by simp
  panicAborts

/-! ### Three workers on two lcores -/

namespace Sample

def threeCpus : List UInt32 := [1, 2, 1]

def twoLcores : Host := .ofLcores (fun cpu => cpu == 1 || cpu == 2) true

/-- One of the three. -/
def worker (n : Fin 3) : Fin threeCpus.length := n

/-- What is told of a state. -/
structure Told where
  upFlag : Bool
  stopFlag : Bool
  main : Main
  server : ServerStage
  workers : List Stage
  deriving DecidableEq

def told (s : System threeCpus) : Option Told :=
  if s.aborted then none
  else some ⟨s.upFlag, s.stopFlag, s.main, s.server,
    [s.workers (worker 0), s.workers (worker 1), s.workers (worker 2)]⟩

/-- A state that a run leads to. -/
structure Reaches (as : List (Action threeCpus)) (x : Told) (s : System threeCpus) : Prop where
  run : Run (Step twoLcores) initial as s
  aborted : s.aborted = false
  upFlag : s.upFlag = x.upFlag
  stopFlag : s.stopFlag = x.stopFlag
  main : s.main = x.main
  server : s.server = x.server
  workers : [s.workers (worker 0), s.workers (worker 1), s.workers (worker 2)] = x.workers

theorem exists_reaches {as : List (Action threeCpus)} {x : Told}
    (h : (Run.follow (act twoLcores) as initial).bind told = some x) : ∃ s, Reaches as x s := by
  obtain ⟨s, hs, htold⟩ := Option.bind_eq_some_iff.mp h
  have hrun : Run (Step twoLcores) initial as s := Run.of_follow hs
  unfold told at htold
  split at htold
  · cases htold
  · rename_i haborted
    cases htold
    exact ⟨s, hrun, Bool.eq_false_iff.mpr haborted, rfl, rfl, rfl, rfl, rfl⟩

theorem Reaches.reachable {as : List (Action threeCpus)} {x : Told} {s : System threeCpus}
    (h : Reaches as x s) : Reachable twoLcores s := ⟨as, h.run⟩

theorem Reaches.worker {as : List (Action threeCpus)} {x : Told} {s : System threeCpus}
    (h : Reaches as x s) (n : Fin 3) : x.workers[(n : Nat)]? = some (s.workers (worker n)) := by
  rw [← h.workers]
  fin_cases n <;> rfl

/-- The server is up and the workers are launched. -/
def launches : List (Action threeCpus) :=
  [.bind, .up, .seesUp, .launch, .launch, .launch, .launchedAll]

def enters (w : Fin threeCpus.length) : List (Action threeCpus) :=
  [.connect w, .serve w, .receive w, .init w]

/-- The third worker's lcore is taken. -/
theorem launches_reach : ∃ s, Reaches launches
    ⟨true, false, .joining, .serving, [.launched, .launched, .refused]⟩ s :=
  exists_reaches (by decide +kernel)

/-- Both others are in their loops. -/
theorem enters_reach : ∃ s, Reaches (launches ++ enters (worker 0) ++ enters (worker 1))
    ⟨true, false, .joining, .serving, [.running 0, .running 1, .refused]⟩ s :=
  exists_reaches (by decide +kernel)

/-- Ctrl-c comes when the second is not served. -/
theorem early_reach : ∃ s, Reaches (launches ++ enters (worker 0) ++ [.ctrlC, .leave])
    ⟨true, true, .joining, .closing, [.running 0, .launched, .refused]⟩ s :=
  exists_reaches (by decide +kernel)

theorem late_reach : ∃ s, Reaches
    (launches ++ enters (worker 0) ++ enters (worker 1) ++ [.ctrlC, .leave])
    ⟨true, true, .joining, .closing, [.running 0, .running 1, .refused]⟩ s :=
  exists_reaches (by decide +kernel)

theorem failed_reach : ∃ s, Reaches [.serverFails]
    ⟨false, false, .waiting, .ended, [.made, .made, .made]⟩ s :=
  exists_reaches (by decide +kernel)

end Sample

section
variable {cpus : List UInt32} {host : Host} {s t : System cpus} {a : Action cpus}

/-! ### What no order of steps breaks -/

/-- The worker is the first on its lcore. -/
def First (host : Host) (w : Fin cpus.length) : Prop :=
  host.lcores cpus[w] = true ∧ ∀ v < w, cpus[v] ≠ cpus[w]

/-- The first worker on an lcore is not refused. -/
theorem Fleet.first (hs : Fleet host s) {w : Fin cpus.length} (hw : First host w) :
    s.workers w ≠ .refused := by
  intro hrefused
  rcases hs.refused w hrefused with hlcore | ⟨v, hlt, hcpu, -⟩
  · rw [hw.1] at hlcore
    cases hlcore
  · exact hw.2 v hlt hcpu

/-- A first worker finds its lcore idle. -/
theorem Fleet.idle (hs : Fleet host s) {w : Fin cpus.length} (hw : First host w)
    (hmade : s.workers w = .made) : cpus[w] ∉ s.busy := by
  intro hbusy
  obtain ⟨v, hv, hcpu⟩ := System.mem_busy.mp hbusy
  have hlt : v < w := by
    by_contra hle
    have hmade' := (hs.made v).mpr (((hs.made w).mp hmade).trans (not_lt.mp hle))
    rw [hmade'] at hv
    cases hv
  exact hw.2 v hlt hcpu

/-- While nobody has stopped, the others are. -/
theorem Fleet.first_of_running (hs : Fleet host s) (hstop : s.stopFlag = false)
    {w : Fin cpus.length} (hmade : s.workers w ≠ .made) (hrefused : s.workers w ≠ .refused) :
    First host w := by
  have hactive {v : Fin cpus.length} (hmade : s.workers v ≠ .made)
      (hrefused : s.workers v ≠ .refused) : (s.workers v).active = true := by
    cases hv : s.workers v with
    | made => exact absurd hv hmade
    | refused => exact absurd hv hrefused
    | returned id =>
      rw [hs.stopped v id hv] at hstop
      cases hstop
    | launched | connected | answered | entered | running => rfl
  have hearlier {v : Fin cpus.length} (hlt : v < w) : s.workers v ≠ .made := fun h =>
    hmade ((hs.made w).mpr (((hs.made v).mp h).trans hlt.le))
  -- an earlier worker that was not refused is still on the lcore
  have hnone {v : Fin cpus.length} (hlt : v < w) (hcpu : cpus[v] = cpus[w]) :
      s.workers v = .refused := by
    by_contra hv
    exact hlt.ne (hs.alone v w (hactive (hearlier hlt) hv) (hactive hmade hrefused) hcpu)
  have hlcore := hs.lcore w hmade hrefused
  refine ⟨hlcore, fun v hlt hcpu => ?_⟩
  rcases hs.refused v (hnone hlt hcpu) with hnot | ⟨u, hu, hcpu', hnot⟩
  · rw [hcpu, hlcore] at hnot
    cases hnot
  · exact hnot (hnone (hu.trans hlt) (hcpu'.trans hcpu))

/-- **Starting up, in any order of steps**: a worker is launched only after the server's socket is
bound; no lcore has two workers at a time; before ctrl-c exactly the first worker of each lcore is
launched and the others are dropped; a worker returns only after ctrl-c; and `Engine::run` returns
only when the server has ended and every worker has returned or was never launched. -/
theorem startup_safe (h : Reachable host s) :
    (∀ w, s.workers w ≠ .made → s.upFlag = true ∧ s.server ≠ .starting ∧ s.server ≠ .bound) ∧
      (∀ v w, (s.workers v).active = true → (s.workers w).active = true → cpus[v] = cpus[w] →
        v = w) ∧
      (s.stopFlag = false → ∀ w, s.workers w ≠ .made →
        (s.workers w ≠ .refused ↔ First host w)) ∧
      (∀ w id, s.workers w = .returned id → s.stopFlag = true) ∧
      (s.main = .returned → s.server = .ended ∧
        ∀ w, s.workers w = .refused ∨ ∃ id, s.workers w = .returned id) := by
  have hfleet := h.fleet
  have hthreads := h.threads
  refine ⟨fun w hw => ?_, hfleet.alone, fun hstop w hw => ?_, hfleet.stopped, fun hmain => ?_⟩
  · have hup : s.upFlag = true := by
      refine hthreads.waits fun hmain => hw ((hfleet.made w).mpr ?_)
      rw [hmain]
      exact Nat.zero_le _
    exact ⟨hup, hthreads.bound hup⟩
  · exact ⟨hfleet.first_of_running hstop hw, hfleet.first⟩
  · refine ⟨hthreads.joined (.inr hmain), fun w => ?_⟩
    have hidle := hthreads.quiet hmain w
    cases hw : s.workers w with
    | refused => exact .inl rfl
    | returned id => exact .inr ⟨id, rfl⟩
    | made =>
      have hle := (hfleet.made w).mp hw
      rw [hmain] at hle
      exact absurd w.isLt (Nat.not_lt.mpr hle)
    | launched | connected | answered | entered | running =>
      rw [hw] at hidle
      cases hidle

theorem startup_safe_sample : ∃ s, Reachable Sample.twoLcores s ∧
    s.workers (Sample.worker 2) = .refused ∧ ¬ First Sample.twoLcores (Sample.worker 2) := by
  obtain ⟨s, hs⟩ := Sample.launches_reach
  have hthird : s.workers (Sample.worker 2) = .refused := (Option.some.inj (hs.worker 2)).symm
  refine ⟨s, hs.reachable, hthird, fun hfirst => ?_⟩
  exact ((startup_safe hs.reachable).2.2.1 hs.stopFlag (Sample.worker 2) (by simp [hthird])).mpr
    hfirst hthird

/-! ### Which stacks lose no worker -/

/-- The main thread comes to every launch. -/
theorem exists_launching {n : Nat} (hn : n ≤ cpus.length) :
    ∃ s : System cpus, Reachable host s ∧ s.main = .launching n ∧ s.stopFlag = false ∧
      s.aborted = false := by
  induction n with
  | zero =>
    exact ⟨{(initial : System cpus) with main := .launching 0, server := .serving, upFlag := true},
      ⟨[.bind, .up, .seesUp], Run.of_follow rfl⟩, rfl, rfl, rfl⟩
  | succ n ih =>
    obtain ⟨s, ⟨as, hrun⟩, hmain, hstop, haborted⟩ := ih (Nat.le_of_succ_le hn)
    have hlt : n < cpus.length := hn
    let stage := if host.remoteLaunch s.busy cpus[n] then Stage.launched else .refused
    have hlaunch : Step host s .launch
        {s.move ⟨n, hlt⟩ stage with main := .launching (n + 1)} := by
      simp only [Step, act, haborted, hmain, dif_pos hlt]
      rfl
    exact ⟨{s.move ⟨n, hlt⟩ stage with main := .launching (n + 1)},
      ⟨as ++ [.launch], hrun.snoc hlaunch⟩, rfl, hstop, haborted⟩

theorem forall_first_iff :
    (∀ w : Fin cpus.length, First host w) ↔
      cpus.Nodup ∧ ∀ cpu ∈ cpus, host.lcores cpu = true := by
  constructor
  · intro h
    refine ⟨List.pairwise_iff_getElem.mpr fun i j hi hj hlt => ?_, fun cpu hcpu => ?_⟩
    · exact (h ⟨j, hj⟩).2 ⟨i, hi⟩ hlt
    · obtain ⟨i, hi, rfl⟩ := List.mem_iff_getElem.mp hcpu
      exact (h ⟨i, hi⟩).1
  · intro h w
    refine ⟨h.2 _ (List.getElem_mem w.isLt), fun v hlt => ?_⟩
    exact List.pairwise_iff_getElem.mp h.1 v w v.isLt w.isLt hlt

/-- **Which stacks lose no worker**: of a stack that boots no worker is ever dropped exactly if the
cpus that its entries list are lcores and no two are the same, be they of one entry or of two. -/
theorem none_dropped_iff {σ : Type} {config : ConfigManager} {factory : Graph.Factory σ}
    {stackName : String} {stackConfig : StackConfig} {ws : List (Worker σ)}
    (hboot : Engine.boot config factory stackName = .ok ws)
    (hstack : config.getStackConfig stackName = some stackConfig) :
    (∀ s : System (ws.map Worker.cpu), Reachable host s → ∀ w, s.workers w ≠ .refused) ↔
      (stackConfig.graphs.flatMap GraphEntry.cpus).Nodup ∧
        ∀ cpu ∈ stackConfig.graphs.flatMap GraphEntry.cpus, host.lcores cpu = true := by
  obtain ⟨stackConfig', hstack', hbooted, -⟩ := Engine.boot_workers hboot
  obtain rfl := Option.some.inj (hstack.symm.trans hstack')
  rw [← Engine.booted_cpus hbooted, ← forall_first_iff]
  constructor
  · intro h w
    obtain ⟨s, hs, hmain, hstop, -⟩ := @exists_launching (ws.map Worker.cpu) host _ le_rfl
    refine hs.fleet.first_of_running hstop (fun hmade => ?_) (h s hs w)
    have hle := (hs.fleet.made w).mp hmade
    rw [hmain] at hle
    exact absurd w.isLt (Nat.not_lt.mpr hle)
  · exact fun h s hs w => hs.fleet.first (h w)

theorem none_dropped_iff_sample : ∃ ws, Engine.boot Sample.fourCpus
    (registry Sample.quietCard false Sample.fourCpus.getStackConfig) "UDP" = .ok ws ∧
    ∀ s : System (ws.map Worker.cpu),
      Reachable (.ofLcores (fun cpu => decide (cpu < 20)) true) s →
        ∀ w, s.workers w ≠ .refused := by
  obtain ⟨ws, hws⟩ := Sample.fourCpus_boots
  have hstack : Sample.fourCpus.getStackConfig "UDP" = some Sample.onFourCpus := rfl
  have hnodup : (Sample.onFourCpus.graphs.flatMap GraphEntry.cpus).Nodup := by
    show ([12, 14, 16, 18] : List UInt32).Nodup
    simp
  have hlcores : ∀ cpu ∈ Sample.onFourCpus.graphs.flatMap GraphEntry.cpus,
      decide (cpu < 20) = true := by
    show ∀ cpu ∈ ([12, 14, 16, 18] : List UInt32), decide (cpu < 20) = true
    simp
  exact ⟨ws, hws, (none_dropped_iff hws hstack).mpr ⟨hnodup, hlcores⟩⟩

/-! ### Thread ids -/

/-- The ids of the workers are in use, and no two have the same. -/
structure Entered (s : System cpus) : Prop where
  used : ∀ w id, (s.workers w).threadId? = some id → s.ids.Used id
  distinct : ∀ v w id, (s.workers v).threadId? = some id → (s.workers w).threadId? = some id → v = w

/-- Nobody else gives an id back. -/
def Action.Keeps (a : Action cpus) : Prop := ∀ id, a ≠ .foreign (.threadExit id)

theorem Entered.of_same (hs : Entered s) (hids : ∀ id, s.ids.Used id → t.ids.Used id)
    (hworkers : ∀ w id, (t.workers w).threadId? = some id → (s.workers w).threadId? = some id) :
    Entered t where
  used w id hw := hids id (hs.used w id (hworkers w id hw))
  distinct v w id hv hw := hs.distinct v w id (hworkers v id hv) (hworkers w id hw)

/-- A worker that takes another stage keeps its id or has none. -/
theorem Entered.move (hs : Entered s) {w : Fin cpus.length} {stage : Stage}
    (hstage : ∀ id, stage.threadId? = some id → (s.workers w).threadId? = some id) :
    Entered (s.move w stage) := by
  refine hs.of_same (fun _ h => h) fun v id hv => ?_
  by_cases heq : v = w
  · subst heq
    rw [System.move_workers_self] at hv
    exact hstage id hv
  · rwa [System.move_workers_of_ne s stage heq] at hv

/-- The answer to a worker: its id was not in use. -/
theorem Entered.serve (hs : Entered s) {w : Fin cpus.length}
    {data : Except ServiceError ResponseData} {ids : ThreadId}
    (hids : Server.handle .threadEnter s.ids = .ok (data, ids)) :
    Entered {s.move w (.answered data) with ids} := by
  have hother {v : Fin cpus.length} (hv : v ≠ w) := System.move_workers_of_ne s (.answered data) hv
  rcases Server.handle_cases hids with
    ⟨new, -, rfl, hnext⟩ | ⟨-, rfl, hnext⟩ | ⟨_, h, -⟩ | ⟨h, -⟩
  · obtain ⟨-, hfresh, hused⟩ := ThreadId.next_some hnext
    have hid (v : Fin cpus.length) (id : UInt32)
        (hv : ((s.move w (.answered (.ok (.threadEnter new)))).workers v).threadId? = some id) :
        (v = w ∧ id = new) ∨ (v ≠ w ∧ (s.workers v).threadId? = some id) := by
      by_cases heq : v = w
      · subst heq
        rw [System.move_workers_self] at hv
        exact .inl ⟨rfl, (Option.some.inj hv).symm⟩
      · rw [hother heq] at hv
        exact .inr ⟨heq, hv⟩
    constructor
    · intro v id hv
      rw [hused]
      rcases hid v id hv with ⟨-, rfl⟩ | ⟨-, hv⟩
      · exact .inl rfl
      · exact .inr (hs.used v id hv)
    · intro v v' id hv hv'
      rcases hid v id hv with ⟨rfl, rfl⟩ | ⟨-, hold⟩ <;>
        rcases hid v' _ hv' with ⟨rfl, hnew⟩ | ⟨-, hold'⟩
      · rfl
      · exact absurd (hs.used v' _ hold') hfresh
      · exact absurd (hs.used v _ (hnew ▸ hold)) hfresh
      · exact hs.distinct v v' id hold hold'
  · have hmoved : Entered (s.move w (.answered (.error .unknown))) := hs.move fun _ h => by cases h
    exact hmoved.of_same (fun id h => (ThreadId.next_none hnext id).mpr h) fun _ _ h => h
  · cases h
  · exact absurd rfl h

theorem Entered.foreign (hs : Entered s) {req : Request} (hreq : ∀ id, req ≠ .threadExit id)
    {data : Except ServiceError ResponseData} {ids : ThreadId}
    (hids : Server.handle req s.ids = .ok (data, ids)) : Entered {s with ids} := by
  refine hs.of_same (fun id h => ?_) fun _ _ h => h
  show ids.Used id
  rcases Server.handle_cases hids with ⟨_, -, -, hnext⟩ | ⟨-, -, hnext⟩ | ⟨id', h, -⟩ | ⟨-, -, rfl⟩
  · exact ((ThreadId.next_some hnext).2.2 id).mpr (.inr h)
  · exact (ThreadId.next_none hnext id).mpr h
  · exact absurd h (hreq id')
  · exact h

theorem Entered.step (hs : Entered s) (h : Acted host s a t) (ha : a.Keeps) : Entered t := by
  cases h with
  | ctrlC | bind | up | panics | aborts | leave | removeSocket | serverFails | seesUp | launchedAll
  | join | lcoresWaited | fails => exact {hs with}
  | serve _ _ hids => exact hs.serve hids
  | foreign _ hids => exact hs.foreign (fun id hreq => ha id (hreq ▸ rfl)) hids
  | launch | refuse | connect =>
    refine {hs.move fun _ h => ?_ with}
    cases h
  | receive hw | init hw | stop hw =>
    refine {hs.move fun _ h => ?_ with}
    rw [hw]
    exact h

/-- **The workers' ids are theirs**: as long as no other client of the server gives back an id,
no two workers have the same one, in any order of steps. -/
theorem ids_distinct {as : List (Action cpus)} (hrun : Run (Step host) initial as s)
    (has : ∀ a ∈ as, a.Keeps) : ∀ v w id, (s.workers v).threadId? = some id →
      (s.workers w).threadId? = some id → v = w := by
  have hinitial : Entered (initial : System cpus) :=
    ⟨fun _ _ h => (nomatch h), fun _ _ _ h => (nomatch h)⟩
  exact (hrun.invariant_of (fun _ _ _ hs ha hst => hs.step (acted hst).2 ha) has hinitial).distinct

theorem ids_distinct_sample : ∃ s : System Sample.threeCpus, Reachable Sample.twoLcores s ∧
    (s.workers (Sample.worker 0)).threadId? = some 0 ∧
    (s.workers (Sample.worker 1)).threadId? ≠ some 0 := by
  obtain ⟨s, hs⟩ := Sample.enters_reach
  have hfirst : (s.workers (Sample.worker 0)).threadId? = some 0 :=
    congrArg Stage.threadId? (Option.some.inj (hs.worker 0)).symm
  refine ⟨s, hs.reachable, hfirst, fun hsecond => ?_⟩
  have hkeeps : ∀ a ∈ Sample.launches ++ Sample.enters (Sample.worker 0) ++
      Sample.enters (Sample.worker 1), a.Keeps := by
    intro a ha id heq
    subst heq
    simp [Sample.launches, Sample.enters] at ha
  exact absurd (ids_distinct hs.run hkeeps _ _ 0 hfirst hsecond) (by decide)

end
end Startup
end OmniStack
