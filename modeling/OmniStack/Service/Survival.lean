import OmniStack.Lib.Trace
import OmniStack.Service
import Mathlib.Data.List.Induction

/-! What the server survives.

A `ThreadExit` of an id beyond the table stops the only server thread; a second request
on a connection is never read. Where every request comes first on its connection and
exits an id of the table, the server goes on and answers each (`survives_iff`). -/
namespace OmniStack
open Lib

namespace Server
variable {serde : Serde}

/-- The request that an event brings. -/
def Event.request (serde : Serde) : Event → Option Request
  | .accept _ _ => none
  | .token _ io =>
    match io.read with
    | .ok read => serde.requestFromSlice read
    | .error _ => none

theorem request_token {fd : Nat} {io : Io} {req : Request} :
    Event.request serde (.token fd io) = some req ↔
      ∃ read, io.read = .ok read ∧ serde.requestFromSlice read = some req := by
  rcases hread : io.read with kind | read
  · simp [Event.request, hread]
  · simp [Event.request, hread]

/-- The error an event meets on its stream, when it is read or when it is written. -/
def Io.failure (io : Io) : Option ErrorKind :=
  match io.read, io.write with
  | .error kind, _ => some kind
  | .ok _, .error kind => some kind
  | .ok _, .ok () => none

/-- A reply the peer has got, unless its end of the stream is gone. -/
def Reply.Delivered (reply : Reply) (io : Io) : Prop :=
  reply.written = true ∨ io.write = .error .other

/-- The server has come through an event: it serves the other clients as before, and has
answered the request. -/
structure Survived (serde : Serde) (s : State) (e : Event) : Prop where
  serving : (step serde s e).status = .serving
  others : ∀ fd ∈ s.streams, fd ≠ e.fd → fd ∈ (step serde s e).streams
  answered : ∀ fd io req, e = .token fd io → e.request serde = some req →
    ∃ reply, (step serde s e).replies = s.replies ++ [(fd, reply)] ∧ reply.Delivered io

/-- The server comes through every event. -/
def Survives (serde : Serde) (events : List Event) : Prop :=
  ∀ before e after, events = before ++ e :: after → Survived serde (run serde .initial before) e

/-- The connection is accepted and nothing has happened on it. -/
def Fresh (before : List Event) (fd : Nat) : Prop :=
  ∃ pre post, before = pre ++ .accept fd true :: post ∧ ∀ e ∈ post, e.fd ≠ fd

/-- An event that does no harm after those before. -/
def Harmless (serde : Serde) (before : List Event) : Event → Prop
  | .accept _ registered => registered = true
  | .token fd io =>
    (∀ req, Event.request serde (.token fd io) = some req →
      Fresh before fd ∧ InRange req ∧ (io.write = .ok () ∨ io.write = .error .other)) ∧
    (Fresh before fd → ∀ kind, io.failure = some kind → goesOn io.deregister kind = true)

theorem fresh_snoc {before : List Event} {e : Event} {fd : Nat} :
    Fresh (before ++ [e]) fd ↔ e = .accept fd true ∨ (e.fd ≠ fd ∧ Fresh before fd) := by
  constructor
  · intro h
    obtain ⟨pre, post, heq, hpost⟩ := h
    rcases List.eq_nil_or_concat post with rfl | ⟨post, last, rfl⟩
    · obtain ⟨-, he⟩ := List.append_inj' heq rfl
      exact .inl (List.singleton_inj.mp he)
    · rw [List.concat_eq_append] at heq hpost
      rw [← List.cons_append, ← List.append_assoc] at heq
      obtain ⟨hbefore, he⟩ := List.append_inj' heq rfl
      obtain rfl := List.singleton_inj.mp he
      exact .inr ⟨hpost e (by simp), pre, post, hbefore,
        fun e' he' => hpost e' (List.mem_append_left _ he')⟩
  · intro h
    rcases h with rfl | ⟨hne, pre, post, rfl, hpost⟩
    · exact ⟨before, [], rfl, by simp⟩
    · refine ⟨pre, post ++ [e], by simp, fun e' he' => ?_⟩
      rcases List.mem_append.mp he' with he' | he'
      · exact hpost e' he'
      · rwa [List.mem_singleton.mp he']

/-- An event closes its connection, and no other. -/
theorem serve_streams (serde : Serde) (fd : Nat) (io : Io) (s : State) :
    (serve serde fd io s).streams = s.streams.filter fun stream => stream ≠ fd := by
  unfold serve
  split <;> rfl

/-- While the server serves, the open connections are those on which nothing has happened. -/
theorem streams_iff {before : List Event} (hserving : ∀ pre post, before = pre ++ post →
    (run serde .initial pre).status = .serving) (fd : Nat) :
    fd ∈ (run serde .initial before).streams ↔ Fresh before fd := by
  induction before using List.reverseRecOn with
  | nil =>
    refine ⟨fun h => (by cases h), ?_⟩
    intro h
    obtain ⟨pre, post, heq, -⟩ := h
    simp at heq
  | append_singleton before e ih =>
    have hbefore := hserving before [e] rfl
    have hafter := hserving (before ++ [e]) [] (by simp)
    have ih := ih fun pre post h => hserving pre (post ++ [e]) (by simp [h])
    rw [run_snoc] at hafter ⊢
    rw [fresh_snoc, ← ih]
    generalize run serde .initial before = s at *
    unfold step at hafter ⊢
    rw [if_neg (not_not.mpr hbefore)] at hafter ⊢
    cases e with
    | accept fd' registered =>
      cases registered with
      | true =>
        by_cases hfd : fd = fd'
        · simp [hfd]
        · simp [Event.fd, hfd, Ne.symm hfd]
      | false => cases hafter
    | token fd' io =>
      dsimp only
      split
      · rw [serve_streams]
        constructor
        · intro h
          obtain ⟨hmem, hne⟩ := List.mem_filter.mp h
          exact .inr ⟨Ne.symm (of_decide_eq_true hne), hmem⟩
        · intro h
          rcases h with h | ⟨hne, hmem⟩
          · cases h
          · exact List.mem_filter.mpr ⟨hmem, decide_eq_true (Ne.symm hne)⟩
      · rename_i hclosed
        by_cases hfd : fd = fd'
        · simp [Event.fd, hfd, hclosed]
        · simp [Event.fd, Ne.symm hfd]

theorem respond_isOk_iff {read : List UInt8} {ids : ThreadId} :
    (∃ out, respond serde read ids = .ok out) ↔
      ∀ req, serde.requestFromSlice read = some req → InRange req := by
  unfold respond
  cases serde.requestFromSlice read with
  | none => exact ⟨fun _ req h => (by cases h), fun _ => ⟨_, rfl⟩⟩
  | some req =>
    constructor
    · intro h req' hreq
      obtain ⟨out, h⟩ := h
      obtain rfl := Option.some.inj hreq
      obtain ⟨handled, hhandle, -⟩ := Exec.bind_eq_ok.mp h
      exact handle_isOk_iff.mp ⟨handled, hhandle⟩
    · intro h
      obtain ⟨⟨data, ids₁⟩, hhandle⟩ := (@handle_isOk_iff req ids).mpr (h req rfl)
      refine ⟨(⟨data⟩, ids₁), ?_⟩
      show (handle req ids >>= _) = _
      rw [hhandle]
      rfl

/-- What becomes of an event: the server stops at a request out of range, and else goes on
unless the stream has an error and cannot be deregistered. -/
theorem onToken_cases (serde : Serde) (io : Io) (ids : ThreadId) :
    (∃ read req e, io.read = .ok read ∧ serde.requestFromSlice read = some req ∧ ¬ InRange req ∧
      onToken serde io ids = .error e) ∨
    ∃ reply goes ids', onToken serde io ids = .ok (reply, goes, ids') ∧
      (goes = true ↔ ∀ kind, io.failure = some kind → goesOn io.deregister kind = true) ∧
      ∀ read, io.read = .ok read →
        (∀ req, serde.requestFromSlice read = some req → InRange req) ∧
        ∃ response, reply = some ⟨response, io.write.toBool⟩ := by
  rcases hread : io.read with kind | read
  · refine .inr ⟨none, goesOn io.deregister kind, ids, ?_, ?_, fun read h => (by cases h)⟩
    · simp only [onToken, hread]
    · simp only [Io.failure, hread, Option.some.injEq, forall_eq']
  · by_cases hrange : ∀ req, serde.requestFromSlice read = some req → InRange req
    · obtain ⟨⟨response, ids₁⟩, hrespond⟩ := (@respond_isOk_iff serde read ids).mpr hrange
      rcases hwrite : io.write with kind | u
      · refine .inr ⟨some ⟨response, false⟩, goesOn io.deregister kind, ids₁, ?_, ?_, ?_⟩
        · simp only [onToken, hread, hrespond, hwrite]
          rfl
        · simp only [Io.failure, hread, hwrite, Option.some.injEq, forall_eq']
        · intro read' hread'
          obtain rfl := Except.ok.inj hread'
          exact ⟨hrange, response, rfl⟩
      · refine .inr ⟨some ⟨response, true⟩, true, ids₁, ?_, ?_, ?_⟩
        · simp only [onToken, hread, hrespond, hwrite]
          rfl
        · simp [Io.failure, hread, hwrite]
        · intro read' hread'
          obtain rfl := Except.ok.inj hread'
          exact ⟨hrange, response, rfl⟩
    · have herror : ¬ ∃ out, respond serde read ids = .ok out := mt respond_isOk_iff.mp hrange
      obtain ⟨req, hreq⟩ := not_forall.mp hrange
      obtain ⟨hreq, hout⟩ := Classical.not_imp.mp hreq
      rcases hrespond : respond serde read ids with e | out
      · refine .inl ⟨read, req, e, rfl, hreq, hout, ?_⟩
        simp only [onToken, hread, hrespond]
        rfl
      · exact absurd ⟨out, hrespond⟩ herror

section
variable {before : List Event} {s : State} {fd : Nat} {io : Io}

theorem survived_accept_iff (hserving : s.status = .serving) {registered : Bool} :
    Survived serde s (.accept fd registered) ↔ registered = true := by
  have hstep : ¬ s.status ≠ .serving := not_not.mpr hserving
  cases registered with
  | true =>
    have heq : step serde s (.accept fd true) = {s with streams := fd :: s.streams} := if_neg hstep
    refine ⟨fun _ => rfl, fun _ => ⟨?_, fun fd' hfd' _ => ?_, ?_⟩⟩
    · rw [heq]
      exact hserving
    · rw [heq]
      exact List.mem_cons_of_mem _ hfd'
    · intro fd' io req h
      cases h
  | false =>
    have heq : step serde s (.accept fd false) = {s with status := .returned} := if_neg hstep
    refine ⟨fun h => ?_, fun h => (by cases h)⟩
    have hreturned := h.serving
    rw [heq] at hreturned
    cases hreturned

/-- What happens on a connection that is not open has no effect. -/
theorem survived_closed_iff (hserving : s.status = .serving) (hfd : fd ∉ s.streams) :
    Survived serde s (.token fd io) ↔ Event.request serde (.token fd io) = none := by
  have heq : step serde s (.token fd io) = s :=
    (if_neg (not_not.mpr hserving)).trans (if_neg hfd)
  constructor
  · intro h
    by_contra hsome
    obtain ⟨req, hreq⟩ := Option.ne_none_iff_exists'.mp hsome
    obtain ⟨reply, hreplies, -⟩ := h.answered fd io req rfl hreq
    rw [heq] at hreplies
    simp at hreplies
  · intro hnone
    refine ⟨by rw [heq]; exact hserving, fun fd' hmem _ => by rwa [heq], ?_⟩
    intro fd' io' req hevent hreq
    rw [hnone] at hreq
    cases hreq

/-- The replies of an open connection's event. -/
theorem serve_replies (fd : Nat) {reply : Option Reply} {goes : Bool} {ids' : ThreadId}
    (h : onToken serde io s.ids = .ok (reply, goes, ids')) :
    (serve serde fd io s).replies = s.replies ++ reply.toList.map (fun reply => (fd, reply)) ∧
      (serve serde fd io s).status = if goes then .serving else .returned := by
  unfold serve
  rw [h]
  exact ⟨rfl, rfl⟩

theorem survived_open_iff (hserving : s.status = .serving) (hfd : fd ∈ s.streams) :
    Survived serde s (.token fd io) ↔
      (∀ req, Event.request serde (.token fd io) = some req →
        InRange req ∧ (io.write = .ok () ∨ io.write = .error .other)) ∧
      ∀ kind, io.failure = some kind → goesOn io.deregister kind = true := by
  have heq : step serde s (.token fd io) = serve serde fd io s :=
    (if_neg (not_not.mpr hserving)).trans (if_pos hfd)
  rcases onToken_cases serde io s.ids with ⟨read, req, e, hread, hreq, hout, herror⟩ |
    ⟨reply, goes, ids', hok, hgoes, hreplied⟩
  · -- a request out of range
    refine ⟨fun h => ?_, fun h => ?_⟩
    · have hstatus := h.serving
      rw [heq, serve, herror] at hstatus
      cases hstatus
    · exact absurd (h.1 req (request_token.mpr ⟨read, hread, hreq⟩)).1 hout
  · obtain ⟨hreplies, hstatus⟩ := serve_replies fd hok
    constructor
    · intro h
      refine ⟨fun req hreq => ?_, hgoes.mp ?_⟩
      · obtain ⟨read, hread, hparse⟩ := request_token.mp hreq
        obtain ⟨hrange, response, hreply⟩ := hreplied read hread
        refine ⟨hrange req hparse, ?_⟩
        obtain ⟨reply', hreplies', hdelivered⟩ := h.answered fd io req rfl hreq
        rw [heq, hreplies, hreply] at hreplies'
        obtain ⟨-, hlast⟩ := List.append_inj' hreplies' rfl
        cases hlast
        rcases hdelivered with hwritten | hgone
        · rcases hwrite : io.write with kind | u
          · rw [hwrite] at hwritten
            cases hwritten
          · exact .inl rfl
        · exact .inr hgone
      · have hserves := h.serving
        rw [heq, hstatus] at hserves
        by_contra hstops
        rw [if_neg hstops] at hserves
        cases hserves
    · intro h
      obtain ⟨hrequests, hfailures⟩ := h
      refine ⟨?_, fun fd' hmem hne => ?_, ?_⟩
      · rw [heq, hstatus, if_pos (hgoes.mpr hfailures)]
      · rw [heq, serve_streams]
        exact List.mem_filter.mpr ⟨hmem, decide_eq_true hne⟩
      · intro fd' io' req hevent hreq
        cases hevent
        obtain ⟨read, hread, hparse⟩ := request_token.mp hreq
        obtain ⟨-, response, hreply⟩ := hreplied read hread
        refine ⟨⟨response, io.write.toBool⟩, by rw [heq, hreplies, hreply]; rfl, ?_⟩
        rcases (hrequests req hreq).2 with hwrite | hwrite
        · exact .inl (by rw [hwrite]; rfl)
        · exact .inr hwrite

/-- One event, where the open connections are the fresh ones. -/
theorem survived_iff {e : Event} (hserving : s.status = .serving)
    (hfresh : ∀ fd, fd ∈ s.streams ↔ Fresh before fd) :
    Survived serde s e ↔ Harmless serde before e := by
  cases e with
  | accept fd registered => exact survived_accept_iff hserving
  | token fd io =>
    by_cases hfd : fd ∈ s.streams
    · have hf := (hfresh fd).mp hfd
      refine (survived_open_iff hserving hfd).trans
        (and_congr (forall₂_congr fun req hreq => ?_) ?_)
      · exact ⟨fun h => ⟨hf, h⟩, fun h => h.2⟩
      · exact ⟨fun h _ => h, fun h => h hf⟩
    · have hstale : ¬ Fresh before fd := mt (hfresh fd).mpr hfd
      refine (survived_closed_iff hserving hfd).trans ⟨fun hnone => ?_, fun h => ?_⟩
      · refine ⟨fun req hreq => ?_, fun hf => absurd hf hstale⟩
        rw [hnone] at hreq
        cases hreq
      · by_contra hsome
        obtain ⟨req, hreq⟩ := Option.ne_none_iff_exists'.mp hsome
        exact hstale (h.1 req hreq).1

end

/-- The server serves at every moment of a sequence it comes through. -/
theorem Survives.serving {events : List Event} (h : Survives serde events) {pre post : List Event}
    (heq : events = pre ++ post) : (run serde .initial pre).status = .serving := by
  rcases List.eq_nil_or_concat pre with rfl | ⟨pre, e, rfl⟩
  · rfl
  · rw [List.concat_eq_append] at heq ⊢
    rw [run_snoc]
    exact (h pre e post (by rw [heq, List.append_assoc]; rfl)).serving

/-- The server comes through a sequence of events, serving on and answering every request,
exactly when each event does no harm: a request is the first thing on its connection, it
exits no id beyond the table, its response can be written unless the peer is gone, and a
broken stream can be deregistered. -/
theorem survives_iff (serde : Serde) (events : List Event) :
    Survives serde events ↔
      ∀ before e after, events = before ++ e :: after → Harmless serde before e := by
  induction events using List.reverseRecOn with
  | nil =>
    refine ⟨fun _ before e after h => ?_, fun _ before e after h => ?_⟩
    · simp at h
    · simp at h
  | append_singleton events last ih =>
    refine Trace.forall_split_snoc.trans (Iff.trans ?_ Trace.forall_split_snoc.symm)
    rw [← ih]
    refine and_congr_right fun h => ?_
    exact survived_iff (Survives.serving h (List.append_nil events).symm)
      (streams_iff fun pre post heq => Survives.serving h heq)

/-- A client that connects and exits the first id beyond the table. -/
def exitBeyond : List Event :=
  [.accept 5 true, .token 5 ⟨.ok (requestText (.threadExit 2048)), .ok (), true⟩]

/-- It takes the server down. -/
theorem exit_beyond_panics :
    (run sampleSerde .initial exitBeyond).status = .panicked ∧
      ¬ Survives sampleSerde exitBeyond := by
  have hdown : (run sampleSerde .initial exitBeyond).status = .panicked := by decide
  refine ⟨hdown, fun h => ?_⟩
  have hserving := Survives.serving h (List.append_nil _).symm
  rw [hdown] at hserving
  cases hserving

end Server
end OmniStack
