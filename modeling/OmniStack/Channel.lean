import OmniStack.Lib.Ring

/-! The channel of object pointers between threads or processes.

All holders of a channel point at one ring of the packet library. The calls on it are a parameter,
`RteRing`, and what is relied on is that the ring is a bounded first-in first-out queue of the
pointers given to it, `RteRing.Fifo`. `recv` does not return the pointer it takes: it casts the
out-parameter's entry and dereferences it, so what comes out is the word in memory behind the
pointer. The memory is therefore part of the state. -/
namespace OmniStack
open Lib

/-- A `*mut u8`; zero is the null pointer. -/
abbrev ObjPtr := UInt64

inductive ChannelError where
  | writeFull
  | readEmpty
  deriving DecidableEq, Repr

/-- The library's calls on a ring. -/
structure RteRing (R : Type) where
  /-- `rte_ring_mp_enqueue`: zero if the pointer is in the ring now -/
  mpEnqueue : R → ObjPtr → Int × R
  /-- `rte_ring_mc_dequeue` with its out-parameter: zero if that has been written -/
  mcDequeue : R → ObjPtr → Int × ObjPtr × R

/-- A ring is a queue of at most `cap` pointers, of which `items` are there, the oldest first. -/
structure RteRing.Fifo {R : Type} (sys : RteRing R) (items : R → List ObjPtr) (cap : Nat) :
    Prop where
  enqueued : ∀ ring obj, (items ring).length < cap →
    ∃ ring', sys.mpEnqueue ring obj = (0, ring') ∧ items ring' = items ring ++ [obj]
  full : ∀ ring obj, cap ≤ (items ring).length → ∃ r ≠ 0, sys.mpEnqueue ring obj = (r, ring)
  dequeued : ∀ ring objs obj rest, items ring = obj :: rest →
    ∃ ring', sys.mcDequeue ring objs = (0, obj, ring') ∧ items ring' = rest
  empty : ∀ ring objs, items ring = [] → ∃ r ≠ 0, sys.mcDequeue ring objs = (r, objs, ring)

/-- The ring of a channel, and the word of memory behind every pointer. -/
structure IpcChannel (R : Type) where
  ring : R
  mem : ObjPtr → ObjPtr

namespace IpcChannel
variable {R H : Type} (sys : RteRing R)

def send (ch : IpcChannel R) (obj : ObjPtr) : Except ChannelError Unit × IpcChannel R :=
  let (r, ring) := sys.mpEnqueue ch.ring obj
  (if r = 0 then .ok () else .error .writeFull, {ch with ring})

def recv (ch : IpcChannel R) : Except ChannelError ObjPtr × IpcChannel R :=
  let (r, objs, ring) := sys.mcDequeue ch.ring 0
  -- `*objs.get_unchecked(0).cast()` reads behind the pointer in `objs[0]`
  (if r = 0 then .ok (ch.mem objs) else .error .readEmpty, {ch with ring})

/-- What a holder of the channel does, or any thread to the memory. -/
inductive Op (H : Type) where
  | send (holder : H) (obj : ObjPtr)
  | recv (holder : H)
  | store (mem : ObjPtr → ObjPtr)

inductive Outcome where
  | sent (obj : ObjPtr) (res : Except ChannelError Unit)
  | received (res : Except ChannelError ObjPtr)
  | stored

def step (ch : IpcChannel R) : Op H → Outcome × IpcChannel R
  | .send _ obj => ((.sent obj (ch.send sys obj).1), (ch.send sys obj).2)
  | .recv _ => (.received (ch.recv sys).1, (ch.recv sys).2)
  | .store mem => (.stored, {ch with mem})

/-- The calls in the order in which they take effect, and what each returned. -/
def run (ch : IpcChannel R) : List (Op H) → List Outcome
  | [] => []
  | op :: ops => (ch.step sys op).1 :: run (ch.step sys op).2 ops

def accepted (outcomes : List Outcome) : List ObjPtr :=
  outcomes.filterMap fun
    | .sent obj (.ok ()) => some obj
    | _ => none

def returned (outcomes : List Outcome) : List ObjPtr :=
  outcomes.filterMap fun
    | .received (.ok obj) => some obj
    | _ => none

section
variable (items : R → List ObjPtr)

/-- The pointer a `recv` would take has its own address stored behind it. -/
def HeadPointsToItself (ch : IpcChannel R) : Prop :=
  ∀ obj rest, items ch.ring = obj :: rest → ch.mem obj = obj

/-- At every `recv` of the run. -/
def PointToThemselves (ch : IpcChannel R) : List (Op H) → Prop
  | [] => True
  | op :: ops =>
    (∀ holder, op = .recv holder → ch.HeadPointsToItself items) ∧
      PointToThemselves (ch.step sys op).2 ops

end

section
variable {sys} {items : R → List ObjPtr} {cap : Nat} (hring : sys.Fifo items cap)
include hring

/-! ### One call -/

theorem send_cases (ch : IpcChannel R) (obj : ObjPtr) :
    (∃ ring, ch.send sys obj = (.ok (), {ch with ring}) ∧ items ring = items ch.ring ++ [obj]) ∨
    ch.send sys obj = (.error .writeFull, ch) := by
  rcases Nat.lt_or_ge (items ch.ring).length cap with hroom | hfull
  · obtain ⟨ring, henqueue, hitems⟩ := hring.enqueued ch.ring obj hroom
    exact .inl ⟨ring, by simp [send, henqueue], hitems⟩
  · obtain ⟨r, hr, henqueue⟩ := hring.full ch.ring obj hfull
    exact .inr (by simp [send, henqueue, hr])

theorem recv_cases (ch : IpcChannel R) :
    (∃ obj ring, ch.recv sys = (.ok (ch.mem obj), {ch with ring}) ∧
      items ch.ring = obj :: items ring) ∨
    ch.recv sys = (.error .readEmpty, ch) ∧ items ch.ring = [] := by
  cases hitems : items ch.ring with
  | nil =>
    obtain ⟨r, hr, hdequeue⟩ := hring.empty ch.ring 0 hitems
    exact .inr ⟨by simp [recv, hdequeue, hr], rfl⟩
  | cons obj rest =>
    obtain ⟨ring, hdequeue, rfl⟩ := hring.dequeued ch.ring 0 obj rest hitems
    exact .inl ⟨obj, ring, by simp [recv, hdequeue], rfl⟩

/-- A call that fails changes nothing. -/
theorem failed_unchanged (ch : IpcChannel R) :
    (∀ obj, (ch.send sys obj).1 = .error .writeFull → (ch.send sys obj).2 = ch) ∧
    ((ch.recv sys).1 = .error .readEmpty → (ch.recv sys).2 = ch) := by
  constructor
  · intro obj hfull
    rcases ch.send_cases hring obj with ⟨ring, hsend, _⟩ | hsend
    · rw [hsend] at hfull
      cases hfull
    · rw [hsend]
  · intro hempty
    rcases ch.recv_cases hring with ⟨obj, ring, hrecv, _⟩ | ⟨hrecv, _⟩
    · rw [hrecv] at hempty
      cases hempty
    · rw [hrecv]

/-! ### Runs -/

/-- From any state: what is returned is a prefix of what is in the ring and what is accepted
later, exactly when every pointer taken points to itself. -/
theorem returned_prefix_iff (ch : IpcChannel R) (ops : List (Op H)) :
    returned (ch.run sys ops) <+: items ch.ring ++ accepted (ch.run sys ops) ↔
      ch.PointToThemselves sys items ops := by
  induction ops generalizing ch with
  | nil => simp [run, returned, PointToThemselves]
  | cons op ops ih =>
    rw [run, PointToThemselves, ← ih (ch.step sys op).2]
    cases op with
    | send holder obj =>
      rcases ch.send_cases hring obj with ⟨ring, hsend, hitems⟩ | hsend
      · simp [step, hsend, hitems, returned, accepted]
      · simp [step, hsend, returned, accepted]
    | recv holder =>
      rcases ch.recv_cases hring with ⟨obj, ring, hrecv, hitems⟩ | ⟨hrecv, hitems⟩
      · simp [step, hrecv, hitems, returned, accepted, List.cons_prefix_cons, HeadPointsToItself]
      · simp [step, hrecv, hitems, returned, accepted, HeadPointsToItself]
    | store mem => simp [step, returned, accepted]

/-- **A channel is a queue of pointers to themselves.** In a run of calls of any holders on a
channel with an empty ring, over any memory, the pointers returned are a prefix of those accepted
and failed calls change nothing, if and only if every pointer taken points to itself. -/
theorem fifo_iff {ring : R} (hempty : items ring = []) (mem : ObjPtr → ObjPtr)
    (ops : List (Op H)) :
    (returned (run sys ⟨ring, mem⟩ ops) <+: accepted (run sys ⟨ring, mem⟩ ops) ∧
      ∀ ch : IpcChannel R,
        (∀ obj, (ch.send sys obj).1 = .error .writeFull → (ch.send sys obj).2 = ch) ∧
        ((ch.recv sys).1 = .error .readEmpty → (ch.recv sys).2 = ch)) ↔
      PointToThemselves sys items ⟨ring, mem⟩ ops := by
  have hprefix := returned_prefix_iff hring ⟨ring, mem⟩ ops
  rw [hempty, List.nil_append] at hprefix
  rw [← hprefix]
  exact ⟨fun h => h.1, fun h => ⟨h, failed_unchanged hring⟩⟩

end
end IpcChannel

/-! ### A ring with room for one -/

/-- A bounded ring, with the library's error numbers `-ENOBUFS` and `-ENOENT`. -/
def RteRing.bounded (cap : Nat) : RteRing (Ring ObjPtr cap) where
  mpEnqueue ring obj :=
    match ring.enqueue obj with
    | some ring => (0, ring)
    | none => (-105, ring)
  mcDequeue ring objs :=
    match ring.dequeue with
    | some (obj, ring) => (0, obj, ring)
    | none => (-2, objs, ring)

theorem RteRing.bounded_fifo (cap : Nat) : (bounded cap).Fifo Ring.items cap where
  enqueued ring obj hroom := by
    obtain ⟨ring', henqueue⟩ := Ring.enqueue_of_lt obj hroom
    exact ⟨ring', by simp [bounded, henqueue], Ring.enqueue_some henqueue⟩
  full ring obj hfull := ⟨-105, by decide, by simp [bounded, Ring.enqueue_full obj hfull]⟩
  dequeued ring objs obj rest hitems := by
    cases hdequeue : ring.dequeue with
    | none =>
      rw [Ring.dequeue_none hdequeue] at hitems
      cases hitems
    | some out =>
      obtain ⟨obj', ring'⟩ := out
      obtain ⟨rfl, rfl⟩ := List.cons.inj ((Ring.dequeue_some hdequeue).symm.trans hitems)
      exact ⟨ring', by simp [bounded, hdequeue], rfl⟩
  empty ring objs hitems := by
    cases hdequeue : ring.dequeue with
    | none => exact ⟨-2, by decide, by simp [bounded, hdequeue]⟩
    | some out =>
      rw [Ring.dequeue_some hdequeue] at hitems
      cases hitems

namespace IpcChannel

namespace Sample

/-- Two holders, of which the second finds the ring full and the first finds it empty. -/
def twoHolders : List (Op Nat) := [.send 0 4096, .send 1 8192, .recv 1, .recv 0]

/-- What they see where every word holds its own address. -/
def seen : List Outcome :=
  run (.bounded 1) ⟨Ring.empty, id⟩ twoHolders

end Sample

theorem fifo_iff_sample : returned Sample.seen = [4096] ∧
    returned Sample.seen <+: accepted Sample.seen := by
  refine ⟨rfl, ((fifo_iff (RteRing.bounded_fifo 1) rfl id Sample.twoHolders).mpr ?_).1⟩
  simp only [Sample.twoHolders, PointToThemselves, HeadPointsToItself, reduceCtorEq, and_true,
    false_implies, implies_true, true_and]
  exact ⟨fun _ _ _ _ _ => rfl, fun _ _ _ _ _ => rfl⟩

/-- **The word behind the pointer** comes out: of a pointer to zeroed memory, null. -/
theorem pointee_returned :
    returned (run (.bounded 1) ⟨Ring.empty, fun _ => 0⟩ [Op.send 0 4096, Op.recv 1]) = [0] ∧
    accepted (run (.bounded 1) ⟨Ring.empty, fun _ => 0⟩ [Op.send 0 4096, Op.recv 1]) = [4096] ∧
    ¬ returned (run (.bounded 1) ⟨Ring.empty, fun _ => 0⟩ [Op.send 0 4096, Op.recv 1]) <+:
      accepted (run (.bounded 1) ⟨Ring.empty, fun _ => 0⟩ [Op.send 0 4096, Op.recv 1]) := by
  refine ⟨rfl, rfl, ?_⟩
  show ¬ [(0 : ObjPtr)] <+: [4096]
  decide

end IpcChannel
end OmniStack
