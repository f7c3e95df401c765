import OmniStack.Service

/-! Requests on one connection.

A connection is a stream of bytes, read in pieces. The server answers the piece it reads
first as if it were a request, and drops the stream with it, also where the read only has
to be tried again: of what comes later nothing is read (`framed_iff`). -/
namespace OmniStack
open Lib

namespace Server
variable {serde : Serde}

/-- The requests one by one: the responses, and the table they leave. -/
def handleAll : List Request → ThreadId → Exec (List Response × ThreadId)
  | [], ids => .ok ([], ids)
  | req :: rest, ids => do
    let (data, ids) ← handle req ids
    let (responses, ids) ← handleAll rest ids
    return (⟨data⟩ :: responses, ids)

/-- What a client that sends the requests writes. -/
def sent (serde : Serde) (reqs : List Request) : List UInt8 := reqs.flatMap serde.requestToVec

/-- A read before the end of the stream: some bytes, or to be tried again. -/
inductive Piece where
  | bytes (read : List UInt8)
  | again (kind : ErrorKind)

/-- The end of the stream: the peer hangs up, and the server's write fails if the peer is
gone altogether; or the stream breaks. -/
inductive End where
  | hangUp (write : Except ErrorKind Unit)
  | broken

namespace Piece

def Valid : Piece → Prop
  | .bytes read => read ≠ [] ∧ read.length ≤ 512
  | .again kind => kind.retryable = true

def read : Piece → List UInt8
  | .bytes read => read
  | .again _ => []

/-- What the system calls answer while the peer is there. -/
def io : Piece → Io
  | .bytes read => ⟨.ok read, .ok (), true⟩
  | .again kind => ⟨.error kind, .ok (), true⟩

end Piece

def End.io : End → Io
  | .hangUp write => ⟨.ok [], write, true⟩
  | .broken => ⟨.error .other, .ok (), true⟩

/-- The requests as the server comes to read them: the pieces are what was written, all of
it if the peer hangs up. -/
structure Delivery (serde : Serde) (reqs : List Request) (pieces : List Piece)
    (last : Option End) : Prop where
  valid : ∀ piece ∈ pieces, piece.Valid
  written : pieces.flatMap Piece.read <+: sent serde reqs
  whole : ∀ write, last = some (.hangUp write) → pieces.flatMap Piece.read = sent serde reqs

/-- A server with one connection. -/
def accepted (ids : ThreadId) (fd : Nat) : State := ⟨ids, [fd], .serving, []⟩

/-- The server after these reads, and the end of the stream. -/
def served (serde : Serde) (ids : ThreadId) (fd : Nat) (pieces : List Piece) (last : Option End) :
    State :=
  run serde (accepted ids fd) ((pieces.map Piece.io ++ last.toList.map End.io).map (.token fd))

/-- The responses that were written. -/
def State.responses (s : State) : List Response :=
  (s.replies.filter fun reply => reply.2.written).map fun reply => reply.2.response

/-- The requests are answered one by one and in order, on a connection that stays. -/
structure Framed (serde : Serde) (ids : ThreadId) (fd : Nat) (reqs : List Request)
    (pieces : List Piece) (last : Option End) : Prop where
  stays : ∀ before after, pieces = before ++ after →
    fd ∈ (served serde ids fd before none).streams
  answered : pieces.flatMap Piece.read = sent serde reqs → ∀ responses ids',
    handleAll reqs ids = .ok (responses, ids') →
      (served serde ids fd pieces last).responses = responses ∧
        (served serde ids fd pieces last).ids = ids'

theorem run_one (ids : ThreadId) (fd : Nat) (io : Io) :
    run serde (accepted ids fd) [.token fd io] = serve serde fd io (accepted ids fd) := by
  simp [run, step, accepted]

/-- The first read on a connection closes it. -/
theorem first_closes (ids : ThreadId) (fd : Nat) (piece : Piece) :
    fd ∉ (served serde ids fd [piece] none).streams := by
  have hstep : served serde ids fd [piece] none = serve serde fd piece.io (accepted ids fd) :=
    run_one ids fd piece.io
  have hstreams : (serve serde fd piece.io (accepted ids fd)).streams =
      [fd].filter fun stream => stream ≠ fd := by
    unfold serve
    split <;> rfl
  rw [hstep, hstreams]
  simp

/-- A hang-up is answered, too. -/
theorem hangUp_served (hnil : serde.requestFromSlice [] = none) (ids : ThreadId) (fd : Nat)
    (write : Except ErrorKind Unit) :
    (served serde ids fd [] (some (.hangUp write))).replies =
      [(fd, ⟨⟨.error .invalidRequest⟩, write.toBool⟩)] ∧
    (served serde ids fd [] (some (.hangUp write))).ids = ids := by
  have hstep : served serde ids fd [] (some (.hangUp write)) =
      serve serde fd (End.hangUp write).io (accepted ids fd) :=
    run_one ids fd (End.hangUp write).io
  have hrespond : respond serde [] ids = .ok (⟨.error .invalidRequest⟩, ids) := by
    rw [respond, hnil]
  have htoken : ∃ goes, onToken serde (End.hangUp write).io ids =
      .ok (some ⟨⟨.error .invalidRequest⟩, write.toBool⟩, goes, ids) := by
    rcases write with kind | u
    · refine ⟨goesOn true kind, ?_⟩
      simp only [onToken, End.io, hrespond]
      rfl
    · refine ⟨true, ?_⟩
      simp only [onToken, End.io, hrespond]
      rfl
  obtain ⟨goes, htoken⟩ := htoken
  rw [hstep]
  unfold serve
  rw [show (accepted ids fd).ids = ids from rfl, htoken]
  exact ⟨rfl, rfl⟩

theorem sent_eq_nil (hnil : serde.requestFromSlice [] = none) {reqs : List Request}
    (hreqs : ∀ req ∈ reqs, serde.requestFromSlice (serde.requestToVec req) = some req)
    (h : sent serde reqs = []) : reqs = [] := by
  rcases reqs with _ | ⟨req, rest⟩
  · rfl
  · have hempty : serde.requestToVec req = [] := List.flatMap_eq_nil_iff.mp h req List.mem_cons_self
    have hparse := hreqs req List.mem_cons_self
    rw [hempty, hnil] at hparse
    cases hparse

/-- The requests on a connection are answered one by one, in order and on a connection that
stays, only as long as nothing is read from it and no read has to be tried again; and where
the peer hangs up without a request, only if the answer to that cannot be written. -/
theorem framed_iff (serde : Serde) (ids : ThreadId) (fd : Nat) (reqs : List Request)
    (pieces : List Piece) (last : Option End)
    (hnil : serde.requestFromSlice [] = none)
    (hreqs : ∀ req ∈ reqs, serde.requestFromSlice (serde.requestToVec req) = some req)
    (hdelivery : Delivery serde reqs pieces last) :
    Framed serde ids fd reqs pieces last ↔
      pieces = [] ∧ ∀ write, last = some (.hangUp write) → write ≠ .ok () := by
  constructor
  · intro h
    have hpieces : pieces = [] := by
      rcases pieces with _ | ⟨piece, rest⟩
      · rfl
      · exact absurd (h.stays [piece] rest rfl) (first_closes ids fd piece)
    subst hpieces
    refine ⟨rfl, ?_⟩
    intro write heq heq'
    obtain rfl := heq
    obtain rfl := heq'
    have hsent := hdelivery.whole _ rfl
    obtain rfl := sent_eq_nil hnil hreqs hsent.symm
    have hanswered := (h.answered hsent [] ids rfl).1
    rw [State.responses, (hangUp_served hnil ids fd _).1] at hanswered
    cases hanswered
  · intro h
    obtain ⟨rfl, hend⟩ := h
    refine ⟨fun before after heq => ?_, fun hsent responses ids' hall => ?_⟩
    · obtain ⟨rfl, -⟩ := List.append_eq_nil_iff.mp heq.symm
      exact List.mem_singleton.mpr rfl
    · obtain rfl := sent_eq_nil hnil hreqs hsent.symm
      cases hall
      rcases last with _ | (write | _)
      · exact ⟨rfl, rfl⟩
      · obtain ⟨hreplies, hids⟩ := hangUp_served hnil ids fd write
        refine ⟨?_, hids⟩
        rcases write with kind | u
        · rw [State.responses, hreplies]
          rfl
        · exact absurd rfl (hend _ rfl)
      · have hstep : served serde ids fd [] (some .broken) =
            serve serde fd End.broken.io (accepted ids fd) := run_one ids fd End.broken.io
        rw [hstep]
        exact ⟨rfl, rfl⟩

/-- Two requests that come in two reads. -/
def twice : List Piece :=
  [.bytes (requestText .threadEnter), .bytes (requestText .threadEnter)]

theorem twice_delivery : Delivery sampleSerde [.threadEnter, .threadEnter] twice none where
  valid := by
    intro piece hmem
    obtain rfl : piece = .bytes (requestText .threadEnter) := by simpa [twice] using hmem
    exact ⟨by decide, by decide⟩
  written := by decide
  whole := fun _ h => (by cases h)

theorem framed_iff_sample :
    Framed sampleSerde .initial 5 [.threadEnter, .threadEnter] twice none ↔
      twice = [] ∧ ∀ write, (none : Option End) = some (.hangUp write) → write ≠ .ok () :=
  framed_iff sampleSerde .initial 5 _ twice none (by decide) (by decide) twice_delivery

/-- The second gets no response: the server has closed the connection. -/
theorem second_unanswered :
    (served sampleSerde .initial 5 twice none).responses.length = 1 ∧
      5 ∉ (served sampleSerde .initial 5 twice none).streams ∧
      ¬ Framed sampleSerde .initial 5 [.threadEnter, .threadEnter] twice none := by
  refine ⟨by decide, by decide, fun h => ?_⟩
  exact first_closes .initial 5 _ (h.stays [_] [_] rfl)

end Server
end OmniStack
