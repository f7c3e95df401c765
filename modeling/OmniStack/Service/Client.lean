import OmniStack.Error
import OmniStack.Lib.Run
import OmniStack.Service

/-! Calls of `send_request` and the server, step by step.

A call has a connection of its own. It writes its request and reads the response, and
tries again on the same connection when either times out. The server takes one connection
at a time: it reads from it, makes its response, writes it and closes it, and the calls go
on in between. -/
namespace OmniStack
open Lib

namespace Client

/-- How far `send_request` has come; the number is that of the attempt. -/
inductive Progress where
  | idle
  | writing (attempt : Nat)
  | reading (attempt : Nat)
  | done (res : Result Response)

/-- The server's end of a connection. -/
inductive Peer where
  | absent
  | backlog
  | opened
  /-- the response is made and not yet written -/
  | replying (response : Response)
  /-- the stream is about to be dropped -/
  | closing
  | closed

/-- A call and its connection, with the bytes that are not yet read. -/
structure Call where
  progress : Progress
  peer : Peer
  toServer : List UInt8
  toClient : List UInt8

def maxRetries : Nat := 5

/-- `continue`: the next attempt, if there is one. -/
def retry (attempt : Nat) : Progress :=
  if attempt + 1 < maxRetries then .writing (attempt + 1) else .done (.error .serviceError)

/-- The result of a read of the response. -/
def received (serde : Serde) (read : List UInt8) : Result Response :=
  match serde.responseFromSlice read with
  | some response => .ok response
  | none => .error .jsonParseError

/-- What the server's loop is about. -/
inductive Loop (C : Type) where
  | free
  | busy (call : C)
  | down

inductive Act where
  | connect
  | refused
  | write
  /-- a timeout or an interrupt, with so many bytes written -/
  | writeFails (kind : ErrorKind) (written : Nat)
  | writeBreaks
  | read
  | readFails (kind : ErrorKind)
  | readBreaks
  | accept
  | serverRead
  | serverReadFails (kind : ErrorKind) (deregister : Bool)
  | serverWrite
  | serverWriteFails (kind : ErrorKind) (deregister : Bool)
  | close

/-- The server is done with a stream, at once if it cannot go on. -/
def dropped {C : Type} (c : C) (goes : Bool) (call : Call) : Loop C × Call :=
  if goes then (.busy c, {call with peer := .closing})
  else (.down, {call with peer := .closed, toServer := []})

/-- One step of a call of `send_request(ThreadEnter)` or of the server with its connection. -/
inductive CallStep {C : Type} (serde : Serde) (c : C) :
    Loop C → ThreadId → Call → Act → Loop C → ThreadId → Call → Prop where
  | connect {loop : Loop C} {ids : ThreadId} :
    CallStep serde c loop ids ⟨.idle, .absent, [], []⟩ .connect
      loop ids ⟨.writing 0, .backlog, [], []⟩
  | refused {loop : Loop C} {ids : ThreadId} :
    CallStep serde c loop ids ⟨.idle, .absent, [], []⟩ .refused
      loop ids ⟨.done (.error .ioError), .absent, [], []⟩
  | write {loop : Loop C} {ids : ThreadId} {i : Nat} {peer : Peer}
      {toServer toClient : List UInt8} :
    peer ≠ .closed →
    CallStep serde c loop ids ⟨.writing i, peer, toServer, toClient⟩ .write
      loop ids ⟨.reading i, peer, toServer ++ serde.requestToVec .threadEnter, toClient⟩
  | writeFails {loop : Loop C} {ids : ThreadId} {i n : Nat} {peer : Peer}
      {toServer toClient : List UInt8} {kind : ErrorKind} :
    peer ≠ .closed → kind.retryable = true → n < (serde.requestToVec .threadEnter).length →
    CallStep serde c loop ids ⟨.writing i, peer, toServer, toClient⟩ (.writeFails kind n)
      loop ids ⟨retry i, peer, toServer ++ (serde.requestToVec .threadEnter).take n, toClient⟩
  | writeBreaks {loop : Loop C} {ids : ThreadId} {i : Nat} {peer : Peer}
      {toServer toClient : List UInt8} :
    CallStep serde c loop ids ⟨.writing i, peer, toServer, toClient⟩ .writeBreaks
      loop ids ⟨.done (.error .serviceError), peer, toServer, []⟩
  /-- some bytes, or the end of the stream -/
  | read {loop : Loop C} {ids : ThreadId} {i : Nat} {peer : Peer} {toServer toClient : List UInt8} :
    toClient ≠ [] ∨ peer = .closed →
    CallStep serde c loop ids ⟨.reading i, peer, toServer, toClient⟩ .read
      loop ids ⟨.done (received serde (toClient.take 512)), peer, toServer, []⟩
  | readFails {loop : Loop C} {ids : ThreadId} {i : Nat} {peer : Peer} {toServer : List UInt8}
      {kind : ErrorKind} :
    peer ≠ .closed → kind.retryable = true →
    CallStep serde c loop ids ⟨.reading i, peer, toServer, []⟩ (.readFails kind)
      loop ids ⟨retry i, peer, toServer, []⟩
  | readBreaks {loop : Loop C} {ids : ThreadId} {i : Nat} {toServer : List UInt8} :
    CallStep serde c loop ids ⟨.reading i, .closed, toServer, []⟩ .readBreaks
      loop ids ⟨.done (.error .serviceError), .closed, toServer, []⟩
  | accept {ids : ThreadId} {progress : Progress} {toServer toClient : List UInt8} :
    CallStep serde c .free ids ⟨progress, .backlog, toServer, toClient⟩ .accept
      .free ids ⟨progress, .opened, toServer, toClient⟩
  /-- some bytes, or the end of the stream where the call has returned -/
  | serverRead {ids ids' : ThreadId} {progress : Progress} {toServer toClient : List UInt8}
      {response : Response} :
    toServer ≠ [] ∨ (∃ res, progress = .done res) →
    Server.respond serde (toServer.take 512) ids = .ok (response, ids') →
    CallStep serde c .free ids ⟨progress, .opened, toServer, toClient⟩ .serverRead
      (.busy c) ids' ⟨progress, .replying response, toServer.drop 512, toClient⟩
  | serverPanics {ids : ThreadId} {progress : Progress} {toServer toClient : List UInt8}
      {e : Fault} :
    toServer ≠ [] ∨ (∃ res, progress = .done res) →
    Server.respond serde (toServer.take 512) ids = .error e →
    CallStep serde c .free ids ⟨progress, .opened, toServer, toClient⟩ .serverRead
      .down ids ⟨progress, .closed, [], toClient⟩
  | serverReadFails {loop : Loop C} {ids : ThreadId} {progress : Progress}
      {toServer toClient : List UInt8} {kind : ErrorKind} {deregister : Bool} {call : Call} :
    dropped c (Server.goesOn deregister kind) ⟨progress, .opened, toServer, toClient⟩ =
      (loop, call) →
    CallStep serde c .free ids ⟨progress, .opened, toServer, toClient⟩
      (.serverReadFails kind deregister) loop ids call
  | serverWrite {ids : ThreadId} {progress : Progress} {response : Response}
      {toServer toClient : List UInt8} :
    (∀ res, progress ≠ .done res) →
    CallStep serde c (.busy c) ids ⟨progress, .replying response, toServer, toClient⟩ .serverWrite
      (.busy c) ids ⟨progress, .closing, toServer, toClient ++ serde.responseToVec response⟩
  | serverWriteFails {loop : Loop C} {ids : ThreadId} {progress : Progress} {response : Response}
      {toServer toClient : List UInt8} {kind : ErrorKind} {deregister : Bool} {call : Call} :
    dropped c (Server.goesOn deregister kind) ⟨progress, .replying response, toServer, toClient⟩ =
      (loop, call) →
    CallStep serde c (.busy c) ids ⟨progress, .replying response, toServer, toClient⟩
      (.serverWriteFails kind deregister) loop ids call
  | close {ids : ThreadId} {progress : Progress} {toServer toClient : List UInt8} :
    CallStep serde c (.busy c) ids ⟨progress, .closing, toServer, toClient⟩ .close
      .free ids ⟨progress, .closed, [], toClient⟩

/-- The server and every call there will be. -/
structure System (C : Type) where
  loop : Loop C
  ids : ThreadId
  calls : C → Call

def initial {C : Type} : System C := ⟨.free, .initial, fun _ => ⟨.idle, .absent, [], []⟩⟩

variable {C : Type} [DecidableEq C]

/-- A step of one call or of the server with its connection. -/
inductive Step (serde : Serde) : System C → C × Act → System C → Prop where
  | call {loop loop' : Loop C} {ids ids' : ThreadId} {calls : C → Call} {c : C} {act : Act}
      {call' : Call} :
    CallStep serde c loop ids (calls c) act loop' ids' call' →
    Step serde ⟨loop, ids, calls⟩ (c, act) ⟨loop', ids', Function.update calls c call'⟩

/-- No call is in progress. -/
def Quiet (s : System C) : Prop :=
  ∀ c, (s.calls c).progress = .idle ∨ ∃ res, (s.calls c).progress = .done res

/-- The server and one call. -/
structure Pair (C : Type) where
  loop : Loop C
  ids : ThreadId
  call : Call

def PairStep {C : Type} (serde : Serde) (c : C) (v : Pair C) (act : Act) (w : Pair C) : Prop :=
  CallStep serde c v.loop v.ids v.call act w.loop w.ids w.call

/-- The server's steps with a connection, in a row, are the arm of its event. -/
theorem arm_run {C : Type} {serde : Serde} (c : C) {ids ids' : ThreadId} {progress : Progress}
    {toServer toClient : List UInt8} {response : Response} {goes deregister : Bool}
    (hread : toServer ≠ []) (hprogress : ∀ res, progress ≠ .done res)
    (harm : Server.onToken serde ⟨.ok (toServer.take 512), .ok (), deregister⟩ ids =
      .ok (some ⟨response, true⟩, goes, ids')) :
    Run (PairStep serde c) ⟨.free, ids, ⟨progress, .opened, toServer, toClient⟩⟩
      [.serverRead, .serverWrite, .close]
      ⟨.free, ids', ⟨progress, .closed, [], toClient ++ serde.responseToVec response⟩⟩ := by
  obtain ⟨⟨response', ids₁⟩, hrespond, heq⟩ := Exec.bind_eq_ok.mp harm
  cases heq
  have hserverRead : PairStep serde c ⟨.free, ids, ⟨progress, .opened, toServer, toClient⟩⟩
      .serverRead ⟨.busy c, ids', ⟨progress, .replying response, toServer.drop 512, toClient⟩⟩ :=
    CallStep.serverRead (.inl hread) hrespond
  have hserverWrite : PairStep serde c
      ⟨.busy c, ids', ⟨progress, .replying response, toServer.drop 512, toClient⟩⟩ .serverWrite
      ⟨.busy c, ids', ⟨progress, .closing, toServer.drop 512,
        toClient ++ serde.responseToVec response⟩⟩ :=
    CallStep.serverWrite hprogress
  exact .cons hserverRead <| .cons hserverWrite <| .single CallStep.close

end Client
end OmniStack
