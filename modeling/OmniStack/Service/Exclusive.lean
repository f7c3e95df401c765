import OmniStack.Lib.Run
import OmniStack.Service

/-! Whose a thread id is.

The server keeps no owners: any client's `ThreadExit` frees the id it names. What a client
has been given is therefore not in the server's state but in the system's (`Grant`), from
the response that carries the id to the client's own exit of it. Ids are exclusive as long
as no client exits what another has been given (`ids_exclusive`); one exit too many shows
only when the table has come round (`reissued`). -/
namespace OmniStack
open Lib

namespace Service

/-- An id that a response gave to a client and that the client has not exited. -/
structure Grant (C : Type) where
  client : C
  id : UInt32
  /-- the client has read the response -/
  received : Bool
  deriving DecidableEq

/-- The server's table, gone when the server is, and the grants. -/
structure System (C : Type) where
  server : Option ThreadId
  grants : List (Grant C)

inductive Act (C : Type) where
  /-- the server handles a client's request, with this result -/
  | request (client : C) (req : Request) (data : Except ServiceError ResponseData)
  /-- a request takes the server down -/
  | crash (client : C) (req : Request)
  /-- a client reads the response with its id -/
  | receive (client : C) (id : UInt32)

variable {C : Type} [DecidableEq C]

/-- What a request that was handled does to the grants. -/
def account (client : C) (req : Request) (data : Except ServiceError ResponseData)
    (grants : List (Grant C)) : List (Grant C) :=
  match req, data with
  | .threadExit id, .ok _ => grants.filter fun g => ¬ (g.client = client ∧ g.id = id)
  | _, .ok (.threadEnter id) => ⟨client, id, false⟩ :: grants
  | _, _ => grants

/-- The response with this grant is read. -/
def receive (client : C) (id : UInt32) (grants : List (Grant C)) : List (Grant C) :=
  grants.map fun g => if g = ⟨client, id, false⟩ then ⟨client, id, true⟩ else g

inductive Step : System C → Act C → System C → Prop where
  | request {ids ids' : ThreadId} {grants : List (Grant C)} {client : C} {req : Request}
      {data : Except ServiceError ResponseData} :
      Server.handle req ids = .ok (data, ids') →
      Step ⟨some ids, grants⟩ (.request client req data)
        ⟨some ids', account client req data grants⟩
  | crash {ids : ThreadId} {grants : List (Grant C)} {client : C} {req : Request} {e : Fault} :
      Server.handle req ids = .error e →
      Step ⟨some ids, grants⟩ (.crash client req) ⟨none, grants⟩
  | receive {server : Option ThreadId} {grants : List (Grant C)} {client : C} {id : UInt32} :
      ⟨client, id, false⟩ ∈ grants →
      Step ⟨server, grants⟩ (.receive client id) ⟨server, receive client id grants⟩

def initial : System C := ⟨some .initial, []⟩

/-- A `ThreadExit` does not name what another client has been given. -/
def Own (s : System C) : Act C → Prop
  | .request client (.threadExit id) _ => ∀ g ∈ s.grants, g.id = id → g.client = client
  | _ => True

/-- Every grant's id is marked in the server's table. -/
def Marked (s : System C) : Prop := ∀ ids, s.server = some ids → ∀ g ∈ s.grants, ids.Used g.id

theorem mem_receive {client : C} {id : UInt32} {grants : List (Grant C)} {g : Grant C}
    (h : g ∈ receive client id grants) : ∃ g' ∈ grants, g'.client = g.client ∧ g'.id = g.id := by
  obtain ⟨g', hmem, heq⟩ := List.mem_map.mp h
  split at heq
  · rename_i hg
    subst hg heq
    exact ⟨_, hmem, rfl, rfl⟩
  · exact ⟨g', hmem, by rw [heq], by rw [heq]⟩

theorem step_marked {s s' : System C} {act : Act C} (h : Marked s) (hown : Own s act)
    (hstep : Step s act s') : Marked s' := by
  cases hstep with
  | crash hhandle =>
    intro ids hids
    cases hids
  | receive hmem =>
    intro ids hids g hg
    obtain ⟨g', hg', -, hid⟩ := mem_receive hg
    exact hid ▸ h ids hids g' hg'
  | @request ids ids' grants client req data hhandle =>
    intro ids₁ hids g hg
    obtain rfl := Option.some.inj hids
    have hused := h ids rfl
    rcases Server.handle_cases hhandle with
      ⟨id, rfl, rfl, hnext⟩ | ⟨rfl, rfl, hnext⟩ | ⟨id, rfl, rfl, hfree⟩ | ⟨-, rfl, rfl⟩
    · -- the new grant's id is the one just marked
      rw [(ThreadId.next_some hnext).2.2]
      rcases List.mem_cons.mp hg with rfl | hg
      · exact .inl rfl
      · exact .inr (hused g hg)
    · exact (ThreadId.next_none hnext _).mpr (hused g hg)
    · -- what is left is of other clients, who hold other ids
      obtain ⟨hmem, hother⟩ := List.mem_filter.mp hg
      rw [(ThreadId.free_ok hfree).2]
      refine ⟨fun hid => ?_, hused g hmem⟩
      exact of_decide_eq_true hother ⟨hown g hmem hid, hid⟩
    · have hkept : account client req (.error .invalidRequest) grants = grants := by
        cases req <;> rfl
      exact hused g (hkept ▸ hg)

theorem run_marked {s : System C} {acts : List (Act C)}
    (hrun : Run (fun s act s' => Step s act s' ∧ Own s act) initial acts s) : Marked s := by
  refine hrun.invariant (P := Marked) (fun s act s' h hstep => ?_) ?_
  · exact step_marked h hstep.2 hstep.1
  · intro ids _ g hg
    cases hg

/-- In a run in which nobody exits what another has been given, an id that a `ThreadEnter`
returns has been given to no one, by a response read or still on its way, who has not
exited it. -/
theorem ids_exclusive {s s' : System C} {acts : List (Act C)} {client : C} {id : UInt32}
    (hrun : Run (fun s act s' => Step s act s' ∧ Own s act) initial acts s)
    (henter : Step s (.request client .threadEnter (.ok (.threadEnter id))) s') :
    ∀ g ∈ s.grants, g.id ≠ id := by
  intro g hg heq
  obtain rfl := heq
  cases henter with
  | @request ids ids' grants _ _ _ hhandle =>
    have hused := run_marked hrun ids rfl g hg
    rcases Server.handle_cases hhandle with ⟨id, -, hdata, hnext⟩ | ⟨-, hdata, -⟩ |
      ⟨_, hreq, -, -⟩ | ⟨hreq, -, -⟩
    · cases hdata
      exact (ThreadId.next_some hnext).2.1 hused
    · cases hdata
    · cases hreq
    · exact hreq rfl

/-! ### An exit of another's id -/

open ThreadId (table next_table)

/-- Clients up to `n` have entered, the last one first. -/
def enteredGrants : Nat → List (Grant Nat)
  | 0 => []
  | n + 1 => ⟨n, UInt32.ofNat n, false⟩ :: enteredGrants n

theorem first_mem_entered (n : Nat) : ⟨0, 0, false⟩ ∈ enteredGrants (n + 1) := by
  induction n with
  | zero => exact List.mem_singleton.mpr rfl
  | succ n ih => exact List.mem_cons_of_mem _ ih

theorem enter_step {n : Nat} (h : n < maxThreadNum) :
    Step ⟨some (table n), enteredGrants n⟩
      (.request n .threadEnter (.ok (.threadEnter (UInt32.ofNat n))))
      ⟨some (table (n + 1)), enteredGrants (n + 1)⟩ := by
  apply Step.request
  rw [Server.handle, next_table h]

theorem entered_run {n : Nat} (h : n ≤ maxThreadNum) :
    ∃ acts, Run Step initial acts ⟨some (table n), enteredGrants n⟩ := by
  induction n with
  | zero => exact ⟨[], .nil _⟩
  | succ n ih =>
    obtain ⟨acts, hrun⟩ := ih (Nat.le_of_succ_le h)
    exact ⟨_, hrun.snoc (enter_step h)⟩

/-- Client zero has read its id, every id is given out, and client one exits client zero's:
the next client to enter gets it too. -/
theorem reissued :
    ∃ acts s s', Run Step (initial : System Nat) acts s ∧
      Step s (.request maxThreadNum .threadEnter (.ok (.threadEnter 0))) s' ∧
      ⟨0, 0, true⟩ ∈ s.grants := by
  obtain ⟨acts, hrun⟩ := entered_run (Nat.le_refl maxThreadNum)
  let exited : ThreadId := ⟨⟨0, by decide⟩, Function.update (table maxThreadNum).threadIdUsed
    ⟨0, by decide⟩ false⟩
  have hfirst : ⟨0, 0, false⟩ ∈ enteredGrants maxThreadNum := first_mem_entered 2047
  have hreceive := hrun.snoc (Step.receive hfirst)
  have hexit : Server.handle (.threadExit 0) (table maxThreadNum) = .ok (.ok .none, exited) := rfl
  have hexited := hreceive.snoc (l := .request 1 (.threadExit 0) (.ok .none)) (.request hexit)
  have hfree : exited.threadIdUsed exited.nextThreadId = false :=
    Function.update_self (⟨0, by decide⟩ : Fin maxThreadNum) false (table maxThreadNum).threadIdUsed
  obtain ⟨ids, hnext⟩ : ∃ ids, exited.next = (some 0, ids) := ⟨_, ThreadId.next_eq hfree⟩
  have henter : Server.handle .threadEnter exited = .ok (.ok (.threadEnter 0), ids) := by
    rw [Server.handle, hnext]
  refine ⟨_, _, _, hexited, .request henter, List.mem_filter.mpr ⟨?_, rfl⟩⟩
  exact List.mem_map.mpr ⟨⟨0, 0, false⟩, hfirst, if_pos rfl⟩

/-! ### An exit of one's own id -/

/-- Client zero has entered, read its id and left; client one is still there. -/
def leavingActs : List (Act Nat) :=
  [.request 0 .threadEnter (.ok (.threadEnter 0)), .request 1 .threadEnter (.ok (.threadEnter 1)),
    .receive 0 0, .request 0 (.threadExit 0) (.ok .none)]

theorem leaving_run : ∃ ids,
    Run (fun s act s' => Step s act s' ∧ Own s act) (initial : System Nat) leavingActs
      ⟨some ids, [⟨1, 1, false⟩]⟩ ∧ ∃ ids', ids.next = (some 2, ids') := by
  have hfirst : Step (initial : System Nat) (.request 0 .threadEnter (.ok (.threadEnter 0)))
      ⟨some (table 1), enteredGrants 1⟩ := @enter_step 0 (by decide)
  have hsecond : Step ⟨some (table 1), enteredGrants 1⟩
      (.request 1 .threadEnter (.ok (.threadEnter 1))) ⟨some (table 2), enteredGrants 2⟩ :=
    @enter_step 1 (by decide)
  have hreceive : Step ⟨some (table 2), enteredGrants 2⟩ (.receive 0 0)
      ⟨some (table 2), [⟨1, 1, false⟩, ⟨0, 0, true⟩]⟩ := .receive (first_mem_entered 1)
  obtain ⟨ids, hleft, hnext⟩ : ∃ ids,
      Server.handle (.threadExit 0) (table 2) = .ok (.ok .none, ids) ∧
        ids.next = (some 2, _) := ⟨_, rfl, ThreadId.next_eq (by decide)⟩
  have hexit : Step ⟨some (table 2), [⟨1, 1, false⟩, ⟨0, 0, true⟩]⟩
      (.request 0 (.threadExit 0) (.ok .none)) ⟨some ids, [⟨1, 1, false⟩]⟩ := .request hleft
  have hown : Own (⟨some (table 2), [⟨1, 1, false⟩, ⟨0, 0, true⟩]⟩ : System Nat)
      (.request 0 (.threadExit 0) (.ok .none)) := by
    simp [Own]
  exact ⟨ids, .cons ⟨hfirst, trivial⟩ <| .cons ⟨hsecond, trivial⟩ <| .cons ⟨hreceive, trivial⟩ <|
    .single ⟨hexit, hown⟩, _, hnext⟩

theorem ids_exclusive_sample :
    ∃ s s', Run (fun s act s' => Step s act s' ∧ Own s act) (initial : System Nat) leavingActs s ∧
      Step s (.request 2 .threadEnter (.ok (.threadEnter 2))) s' ∧
      s.grants = [⟨1, 1, false⟩] ∧ ∀ g ∈ s.grants, g.id ≠ 2 := by
  obtain ⟨ids, hrun, ids', hnext⟩ := leaving_run
  have henter : Server.handle .threadEnter ids = .ok (.ok (.threadEnter 2), ids') := by
    rw [Server.handle, hnext]
  have hstep : Step ⟨some ids, [⟨1, 1, false⟩]⟩ (.request 2 .threadEnter (.ok (.threadEnter 2)))
      ⟨some ids', [⟨2, 2, false⟩, ⟨1, 1, false⟩]⟩ := .request henter
  exact ⟨_, _, hrun, hstep, rfl, ids_exclusive hrun hstep⟩

end Service
end OmniStack
