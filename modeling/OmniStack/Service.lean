import OmniStack.ThreadId

/-! The service that gives out thread ids: requests, responses and the server's loop.

The server reads at most one buffer from a connection for each event, takes what it read
for one request and writes one response. Whichever way the arm of the event ends, the
stream it made from the descriptor is dropped there, and with it the connection. -/
namespace OmniStack
open Lib

inductive SocketAddr where
  | v4 (ip : UInt32) (port : UInt16)
  | v6 (ip : BitVec 128) (port : UInt16) (flowinfo scopeId : UInt32)
  deriving DecidableEq

structure OwnedFd where
  fd : UInt32
  deriving DecidableEq

inductive Request where
  | threadEnter
  | threadExit (threadId : UInt32)
  | fdCreate (sockAddr : SocketAddr)
  | fdClose (fd : OwnedFd)
  deriving DecidableEq

inductive ResponseData where
  | none
  | threadEnter (threadId : UInt32)
  | fdCreate (fd : OwnedFd)
  deriving DecidableEq

inductive ServiceError where
  | ioError
  | invalidRequest
  | jsonParseError
  | unknown
  deriving DecidableEq

structure Response where
  data : Except ServiceError ResponseData

/-- The JSON text of requests and responses. -/
structure Serde where
  requestToVec : Request → List UInt8
  /-- `serde_json::from_slice::<Request>` -/
  requestFromSlice : List UInt8 → Option Request
  responseToVec : Response → List UInt8
  /-- `serde_json::from_slice::<Response>` -/
  responseFromSlice : List UInt8 → Option Response

/-- `std::io::ErrorKind`, as far as it is told apart. -/
inductive ErrorKind where
  | wouldBlock
  | interrupted
  | other
  deriving DecidableEq

/-- `matches!(e.kind(), WouldBlock | Interrupted)` -/
def ErrorKind.retryable : ErrorKind → Bool
  | .other => false
  | _ => true

namespace Server

/-- What the server does with a request. -/
def handle (req : Request) (ids : ThreadId) : Exec (Except ServiceError ResponseData × ThreadId) :=
  match req with
  | .threadEnter =>
    match ids.next with
    | (some id, ids) => .ok (.ok (.threadEnter id), ids)
    | (none, ids) => .ok (.error .unknown, ids)
  | .threadExit threadId => do
    let ids ← ids.free threadId
    return (.ok .none, ids)
  | _ => .ok (.error .invalidRequest, ids)

/-- The response to what was read. -/
def respond (serde : Serde) (read : List UInt8) (ids : ThreadId) : Exec (Response × ThreadId) :=
  match serde.requestFromSlice read with
  | some req => do
    let (data, ids) ← handle req ids
    return (⟨data⟩, ids)
  | none => .ok (⟨.error .invalidRequest⟩, ids)

/-- What the system calls of one event answer. -/
structure Io where
  /-- `stream.read`, of at most 512 bytes -/
  read : Except ErrorKind (List UInt8)
  /-- `stream.write_all` -/
  write : Except ErrorKind Unit
  /-- `poll.registry().deregister` gives no error -/
  deregister : Bool

/-- A response the server made, and whether it was written whole. -/
structure Reply where
  response : Response
  written : Bool

/-- An error of the stream: the server returns if it cannot deregister a stream that is
not to be tried again. -/
def goesOn (deregister : Bool) (kind : ErrorKind) : Bool := kind.retryable || deregister

/-- The arm of a connection's event: the reply, and whether the loop goes on. -/
def onToken (serde : Serde) (io : Io) (ids : ThreadId) : Exec (Option Reply × Bool × ThreadId) :=
  match io.read with
  | .error kind => .ok (none, goesOn io.deregister kind, ids)
  | .ok read => do
    let (response, ids) ← respond serde read ids
    match io.write with
    | .ok () => return (some ⟨response, true⟩, true, ids)
    | .error kind => return (some ⟨response, false⟩, goesOn io.deregister kind, ids)

/-! ### The loop -/

inductive Status where
  | serving
  | returned
  | panicked
  deriving DecidableEq

/-- The server between two events. -/
structure State where
  ids : ThreadId
  /-- the connections it has open -/
  streams : List Nat
  status : Status
  /-- the replies it made, and on which connections -/
  replies : List (Nat × Reply)

inductive Event where
  /-- a connection is accepted; `register` may fail -/
  | accept (fd : Nat) (registered : Bool)
  /-- something happens on a connection -/
  | token (fd : Nat) (io : Io)

def Event.fd : Event → Nat
  | .accept fd _ => fd
  | .token fd _ => fd

def State.initial : State := ⟨.initial, [], .serving, []⟩

/-- The arm of a connection in the server's state: the connection is closed. -/
def serve (serde : Serde) (fd : Nat) (io : Io) (s : State) : State :=
  let streams := s.streams.filter fun stream => stream ≠ fd
  match onToken serde io s.ids with
  | .error _ => {s with streams, status := .panicked}
  | .ok (reply, goesOn, ids) =>
    { ids
      streams
      status := if goesOn then .serving else .returned
      replies := s.replies ++ reply.toList.map fun reply => (fd, reply) }

/-- One event. Nothing that happens on a connection the server has closed reaches it. -/
def step (serde : Serde) (s : State) (e : Event) : State :=
  if s.status ≠ .serving then s
  else match e with
    | .accept fd true => {s with streams := fd :: s.streams}
    | .accept _ false => {s with status := .returned}
    | .token fd io => if fd ∈ s.streams then serve serde fd io s else s

def run (serde : Serde) (s : State) (events : List Event) : State := events.foldl (step serde) s

theorem run_snoc (serde : Serde) (s : State) (events : List Event) (e : Event) :
    run serde s (events ++ [e]) = step serde (run serde s events) e := by
  rw [run, List.foldl_append]
  rfl

/-! ### Requests -/

/-- A request changes the table as the ids do, and stops the server only with an id beyond
the table. -/
theorem handle_cases {req : Request} {ids ids' : ThreadId}
    {data : Except ServiceError ResponseData} (h : handle req ids = .ok (data, ids')) :
    (∃ id, req = .threadEnter ∧ data = .ok (.threadEnter id) ∧ ids.next = (some id, ids')) ∨
    (req = .threadEnter ∧ data = .error .unknown ∧ ids.next = (none, ids')) ∨
    (∃ id, req = .threadExit id ∧ data = .ok .none ∧ ids.free id = .ok ids') ∨
    (req ≠ .threadEnter ∧ data = .error .invalidRequest ∧ ids' = ids) := by
  cases req with
  | threadEnter =>
    unfold handle at h
    rcases hnext : ids.next with ⟨_ | id, ids₁⟩
    · rw [hnext] at h
      cases h
      exact .inr (.inl ⟨rfl, rfl, rfl⟩)
    · rw [hnext] at h
      cases h
      exact .inl ⟨id, rfl, rfl, rfl⟩
  | threadExit id =>
    obtain ⟨ids₁, hfree, h⟩ := Exec.bind_eq_ok.mp h
    cases h
    exact .inr (.inr (.inl ⟨id, rfl, rfl, hfree⟩))
  | fdCreate sockAddr =>
    cases h
    exact .inr (.inr (.inr ⟨Request.noConfusion, rfl, rfl⟩))
  | fdClose fd =>
    cases h
    exact .inr (.inr (.inr ⟨Request.noConfusion, rfl, rfl⟩))

/-- The requests the server survives. -/
def InRange : Request → Prop
  | .threadExit threadId => threadId.toNat < maxThreadNum
  | _ => True

theorem handle_isOk_iff {req : Request} {ids : ThreadId} :
    (∃ out, handle req ids = .ok out) ↔ InRange req := by
  cases req with
  | threadEnter =>
    refine ⟨fun _ => trivial, fun _ => ?_⟩
    unfold handle
    rcases ids.next with ⟨_ | id, ids₁⟩
    · exact ⟨_, rfl⟩
    · exact ⟨_, rfl⟩
  | threadExit id =>
    refine Iff.trans ?_ (ThreadId.free_isOk_iff (t := ids))
    constructor
    · intro h
      obtain ⟨out, h⟩ := h
      obtain ⟨ids₁, hfree, -⟩ := Exec.bind_eq_ok.mp h
      exact ⟨ids₁, hfree⟩
    · intro h
      obtain ⟨ids₁, hfree⟩ := h
      refine ⟨(.ok .none, ids₁), ?_⟩
      rw [handle, hfree]
      rfl
  | fdCreate sockAddr => exact ⟨fun _ => trivial, fun _ => ⟨_, rfl⟩⟩
  | fdClose fd => exact ⟨fun _ => trivial, fun _ => ⟨_, rfl⟩⟩

/-! ### The texts of some requests and responses -/

def text (chars : List Char) : List UInt8 := chars.map fun c => UInt8.ofNat c.toNat

def requestText : Request → List UInt8
  | .threadEnter => text "\"ThreadEnter\"".toList
  | .threadExit threadId =>
    text ("\x7b\"ThreadExit\":\x7b\"thread_id\":".toList ++ Nat.toDigits 10 threadId.toNat ++
      "\x7d\x7d".toList)
  -- no sample sends these
  | _ => text "null".toList

def responseText : Response → List UInt8
  | ⟨.ok (.threadEnter threadId)⟩ =>
    text ("\x7b\"data\":\x7b\"Ok\":\x7b\"ThreadEnter\":\x7b\"thread_id\":".toList ++
      Nat.toDigits 10 threadId.toNat ++ "\x7d\x7d\x7d\x7d".toList)
  | ⟨.error .invalidRequest⟩ => text "\x7b\"data\":\x7b\"Err\":\"InvalidRequest\"\x7d\x7d".toList
  | ⟨.error .unknown⟩ => text "\x7b\"data\":\x7b\"Err\":\"Unknown\"\x7d\x7d".toList
  | ⟨.ok .none⟩ => text "\x7b\"data\":\x7b\"Ok\":\"None\"\x7d\x7d".toList
  | _ => text "null".toList

def sampleResponses : List Response :=
  [⟨.error .unknown⟩, ⟨.error .invalidRequest⟩, ⟨.ok .none⟩] ++
    (List.range maxThreadNum).map fun id => ⟨.ok (.threadEnter (UInt32.ofNat id))⟩

/-- The requests and responses of the samples, read from their texts. -/
def sampleSerde : Serde where
  requestToVec := requestText
  requestFromSlice read := [.threadEnter, .threadExit 2048].find? fun req => requestText req = read
  responseToVec := responseText
  responseFromSlice read := sampleResponses.find? fun res => responseText res = read

end Server
end OmniStack
