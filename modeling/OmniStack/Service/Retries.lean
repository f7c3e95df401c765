import OmniStack.Lib.Owners
import OmniStack.Lib.Run
import OmniStack.Service.Client

/-! Whose the used ids are when no call is in progress.

A call that times out reading its response writes the request again, on a connection that
the server has closed or is about to close, and returns an error; the id in the response
is used and nobody's (`response_lost`). Where no read of a response times out, a write
that times out has written nothing and the server can write to whoever waits, the used ids
are those that calls have returned, one each (`ids_returned`). -/
namespace OmniStack
open Lib

namespace Client

/-- The id a response gives. -/
def idOf : Response → Option UInt32
  | ⟨.ok (.threadEnter id)⟩ => some id
  | _ => none

/-- The responses to a `ThreadEnter`. -/
def Answers (response : Response) : Prop :=
  response.data = .error .unknown ∨
    ∃ id : UInt32, id.toNat < maxThreadNum ∧ response.data = .ok (.threadEnter id)

/-- What the texts of a `ThreadEnter` and of its responses are read as. -/
structure Texts (serde : Serde) : Prop where
  request : serde.requestFromSlice (serde.requestToVec .threadEnter) = some .threadEnter
  request_len : (serde.requestToVec .threadEnter).length ≤ 512
  request_nil : serde.requestFromSlice [] = none
  response : ∀ response, Answers response →
    serde.responseFromSlice (serde.responseToVec response) = some response
  response_len : ∀ response, Answers response → (serde.responseToVec response).length ≤ 512
  response_nil : serde.responseFromSlice [] = none

/-- The id a call has returned. -/
def returned : Result Response → Option UInt32
  | .ok response => idOf response
  | .error _ => none

/-- The server's end where the request has not been read. -/
def Unread (peer : Peer) : Prop := peer = .backlog ∨ peer = .opened

/-- The server's end after its event. -/
def Shut (peer : Peer) : Prop := peer = .closing ∨ peer = .closed

/-- What a call can be at where nothing is lost, and the id that is its own: one in a response
the server is to write, in one that is to be read, or in one that was returned. -/
inductive Sound (serde : Serde) : Call → Option UInt32 → Prop where
  | idle : Sound serde ⟨.idle, .absent, [], []⟩ none
  | writing {i : Nat} {peer : Peer} {toServer : List UInt8} :
    Unread peer ∧ toServer = [] ∨ Shut peer → Sound serde ⟨.writing i, peer, toServer, []⟩ none
  | waiting {i : Nat} {peer : Peer} {toServer : List UInt8} :
    Unread peer → toServer = serde.requestToVec .threadEnter →
    Sound serde ⟨.reading i, peer, toServer, []⟩ none
  | replying {i : Nat} {toServer : List UInt8} {response : Response} :
    Answers response → Sound serde ⟨.reading i, .replying response, toServer, []⟩ (idOf response)
  | answered {i : Nat} {peer : Peer} {toServer toClient : List UInt8} {response : Response} :
    Shut peer → Answers response → toClient = serde.responseToVec response →
    Sound serde ⟨.reading i, peer, toServer, toClient⟩ (idOf response)
  /-- the server could not read the request -/
  | dropped {i : Nat} {peer : Peer} {toServer : List UInt8} :
    Shut peer → Sound serde ⟨.reading i, peer, toServer, []⟩ none
  | done {res : Result Response} {peer : Peer} {toServer : List UInt8} :
    (Unread peer → toServer = []) → (∀ response, peer = .replying response → idOf response = none) →
    Sound serde ⟨.done res, peer, toServer, []⟩ (returned res)

/-- No read of a response times out, a write that times out has written nothing, and a
response is lost only with the call gone. -/
def Steady (call : Call) : Act → Prop
  | .readFails _ => False
  | .writeFails _ written => written = 0
  | .serverWriteFails _ _ => ∃ res, call.progress = .done res
  | _ => True

/-- What a step does to the used ids and to the id that is a call's own: nothing, or an id is
marked and becomes the call's. -/
def Books (ids ids' : ThreadId) (held held' : Option UInt32) : Prop :=
  ((∀ x, ids'.Used x ↔ ids.Used x) ∧ held' = held) ∨
    ∃ id, held = none ∧ held' = some id ∧ ¬ ids.Used id ∧ ∀ x, ids'.Used x ↔ x = id ∨ ids.Used x

theorem Books.refl {ids : ThreadId} {held : Option UInt32} : Books ids ids held held :=
  .inl ⟨fun _ => Iff.rfl, rfl⟩

variable {serde : Serde}

/-- The server's answer to the text of a `ThreadEnter`. -/
theorem respond_enter (texts : Texts serde) {ids ids' : ThreadId} {response : Response}
    (h : Server.respond serde (serde.requestToVec .threadEnter) ids = .ok (response, ids')) :
    Answers response ∧ Books ids ids' none (idOf response) := by
  unfold Server.respond at h
  rw [texts.request] at h
  obtain ⟨⟨data, ids₁⟩, hhandle, heq⟩ := Exec.bind_eq_ok.mp h
  cases heq
  rcases Server.handle_cases hhandle with ⟨id, -, rfl, hnext⟩ | ⟨-, rfl, hnext⟩ |
    ⟨id, hreq, -, -⟩ | ⟨hreq, -, -⟩
  · obtain ⟨hlt, hfree, hused⟩ := ThreadId.next_some hnext
    exact ⟨.inr ⟨id, hlt, rfl⟩, .inr ⟨id, rfl, rfl, hfree, hused⟩⟩
  · exact ⟨.inl rfl, .inl ⟨ThreadId.next_none hnext, rfl⟩⟩
  · cases hreq
  · exact absurd rfl hreq

/-- The server's answer to the end of a stream gives no id. -/
theorem respond_nil (texts : Texts serde) {ids ids' : ThreadId} {response : Response}
    (h : Server.respond serde [] ids = .ok (response, ids')) :
    idOf response = none ∧ ids' = ids := by
  rw [Server.respond, texts.request_nil] at h
  cases h
  exact ⟨rfl, rfl⟩

/-- A response is read as it was written. -/
theorem received_eq (texts : Texts serde) {response : Response} (h : Answers response) :
    received serde ((serde.responseToVec response).take 512) = .ok response := by
  rw [List.take_of_length_le (texts.response_len response h), received, texts.response response h]

theorem response_ne_nil (texts : Texts serde) {response : Response} (h : Answers response) :
    serde.responseToVec response ≠ [] := by
  intro hnil
  have hread := texts.response response h
  rw [hnil, texts.response_nil] at hread
  cases hread

theorem Shut.not_unread {peer : Peer} (h : Shut peer) : ¬ Unread peer := by
  rcases h with rfl | rfl <;> rintro (h | h) <;> cases h

theorem Shut.not_replying {peer : Peer} (h : Shut peer) (response : Response) :
    peer ≠ .replying response := by
  rcases h with rfl | rfl <;> exact Peer.noConfusion

theorem Unread.not_replying {peer : Peer} (h : Unread peer) (response : Response) :
    peer ≠ .replying response := by
  rcases h with rfl | rfl <;> exact Peer.noConfusion

theorem Unread.not_closed {peer : Peer} (h : Unread peer) : peer ≠ .closed := by
  rcases h with rfl | rfl <;> exact Peer.noConfusion

/-- A call that has returned, with its stream shut. -/
theorem done_sound {res : Result Response} {peer : Peer} {toServer : List UInt8} (h : Shut peer) :
    Sound serde ⟨.done res, peer, toServer, []⟩ (returned res) :=
  .done (fun hunread => absurd hunread h.not_unread)
    fun response heq => absurd heq (h.not_replying response)

/-- A call that gives up before it has written anything. -/
theorem given_up {peer : Peer} {toServer : List UInt8} {e : Error}
    (h : Unread peer ∧ toServer = [] ∨ Shut peer) :
    Sound serde ⟨.done (.error e), peer, toServer, []⟩ none := by
  rcases h with ⟨hunread, rfl⟩ | hshut
  · exact .done (fun _ => rfl) fun response heq => absurd heq (hunread.not_replying response)
  · exact done_sound hshut

/-- An attempt that wrote nothing. -/
theorem retry_sound (i : Nat) {peer : Peer} {toServer : List UInt8}
    (h : Unread peer ∧ toServer = [] ∨ Shut peer) :
    Sound serde ⟨retry i, peer, toServer, []⟩ none := by
  unfold retry
  split
  · exact .writing h
  · exact given_up h

/-- A stream the server leaves before it has answered. -/
theorem shut_sound {call : Call} {held : Option UInt32} (h : Sound serde call held)
    (hopened : call.peer = .opened) {peer : Peer} {toServer : List UInt8} (hshut : Shut peer) :
    Sound serde ⟨call.progress, peer, toServer, call.toClient⟩ held := by
  have hunread : Unread call.peer := .inr hopened
  cases h with
  | idle => cases hopened
  | writing => exact .writing (.inr hshut)
  | waiting => exact .dropped hshut
  | replying => cases hopened
  | answered hshut' => exact absurd hunread hshut'.not_unread
  | dropped hshut' => exact absurd hunread hshut'.not_unread
  | done => exact done_sound hshut

/-- A stream that is dropped. -/
theorem dropped_shut {C : Type} {c : C} {goes : Bool} {call call' : Call} {loop : Loop C}
    (h : Client.dropped c goes call = (loop, call')) :
    ∃ peer toServer, Shut peer ∧ call' = ⟨call.progress, peer, toServer, call.toClient⟩ := by
  unfold Client.dropped at h
  split at h
  · cases h
    exact ⟨.closing, call.toServer, .inl rfl, rfl⟩
  · cases h
    exact ⟨.closed, [], .inr rfl, rfl⟩

/-- What one step leaves, case by case of what the call is at. -/
theorem step_sound (texts : Texts serde) {C : Type} {c : C} {loop loop' : Loop C}
    {ids ids' : ThreadId} {call call' : Call} {act : Act} {held : Option UInt32}
    (h : Sound serde call held) (hstep : CallStep serde c loop ids call act loop' ids' call')
    (hsteady : Steady call act) :
    ∃ held', Sound serde call' held' ∧ Books ids ids' held held' := by
  cases hstep with
  | connect =>
    cases h
    exact ⟨none, .writing (.inl ⟨.inl rfl, rfl⟩), .refl⟩
  | refused =>
    cases h
    exact ⟨none, .done (fun _ => rfl) (fun _ heq => by cases heq), .refl⟩
  | write hpeer =>
    cases h with
    | writing h =>
      rcases h with ⟨hunread, rfl⟩ | hshut
      · exact ⟨none, .waiting hunread rfl, .refl⟩
      · exact ⟨none, .dropped hshut, .refl⟩
  | @writeFails _ _ i n peer toServer toClient kind hpeer hkind hlen =>
    cases h with
    | writing h =>
      obtain rfl : n = 0 := hsteady
      rw [List.take_zero, List.append_nil]
      exact ⟨none, retry_sound i h, .refl⟩
  | writeBreaks =>
    cases h with
    | writing h => exact ⟨none, given_up h, .refl⟩
  | read hready =>
    cases h with
    | waiting hunread htext => exact absurd hready (by simp [hunread.not_closed])
    | replying hanswers => exact absurd hready (by simp)
    | answered hshut hanswers htext =>
      rw [htext, received_eq texts hanswers]
      exact ⟨_, done_sound hshut, .refl⟩
    | dropped hshut =>
      rw [List.take_nil, received, texts.response_nil]
      exact ⟨none, done_sound hshut, .refl⟩
  | readFails => exact hsteady.elim
  | readBreaks =>
    cases h with
    | waiting hunread htext => exact absurd rfl hunread.not_closed
    | answered hshut hanswers htext => exact absurd htext.symm (response_ne_nil texts hanswers)
    | dropped hshut => exact ⟨none, done_sound hshut, .refl⟩
  | accept =>
    have hopened : Unread .opened := .inr rfl
    cases h with
    | writing h =>
      rcases h with ⟨-, hempty⟩ | hshut
      · exact ⟨none, .writing (.inl ⟨hopened, hempty⟩), .refl⟩
      · exact absurd (.inl rfl) hshut.not_unread
    | waiting hunread htext => exact ⟨none, .waiting hopened htext, .refl⟩
    | answered hshut => exact absurd (.inl rfl) hshut.not_unread
    | dropped hshut => exact absurd (.inl rfl) hshut.not_unread
    | done hempty =>
      exact ⟨_, .done (fun _ => hempty (.inl rfl)) (fun _ heq => by cases heq), .refl⟩
  | serverRead hready hrespond =>
    have hopened : Unread .opened := .inr rfl
    cases h with
    | writing h =>
      rcases h with ⟨-, hempty⟩ | hshut
      · exact absurd hready (by simp [hempty])
      · exact absurd hopened hshut.not_unread
    | waiting hunread htext =>
      rw [htext, List.take_of_length_le texts.request_len] at hrespond
      obtain ⟨hanswers, hbooks⟩ := respond_enter texts hrespond
      exact ⟨_, .replying hanswers, hbooks⟩
    | answered hshut => exact absurd hopened hshut.not_unread
    | dropped hshut => exact absurd hopened hshut.not_unread
    | done hempty =>
      rw [hempty hopened, List.take_nil] at hrespond
      obtain ⟨hid, rfl⟩ := respond_nil texts hrespond
      refine ⟨_, .done (fun hunread => ?_) (fun response heq => ?_), .refl⟩
      · exact absurd rfl (hunread.not_replying _)
      · cases heq
        exact hid
  | serverPanics => exact ⟨held, shut_sound h rfl (.inr rfl), .refl⟩
  | serverReadFails hdropped =>
    obtain ⟨peer, toServer, hpeer, rfl⟩ := dropped_shut hdropped
    exact ⟨held, shut_sound h rfl hpeer, .refl⟩
  | serverWrite hprogress =>
    cases h with
    | writing h =>
      rcases h with ⟨hunread, -⟩ | hshut
      · exact absurd rfl (hunread.not_replying _)
      · exact absurd rfl (hshut.not_replying _)
    | waiting hunread => exact absurd rfl (hunread.not_replying _)
    | replying hanswers => exact ⟨_, .answered (.inl rfl) hanswers rfl, .refl⟩
    | answered hshut => exact absurd rfl (hshut.not_replying _)
    | dropped hshut => exact absurd rfl (hshut.not_replying _)
    | done => exact absurd rfl (hprogress _)
  | serverWriteFails hdropped =>
    obtain ⟨peer, toServer, hpeer, rfl⟩ := dropped_shut hdropped
    obtain ⟨res, hdone⟩ := hsteady
    cases h with
    | done => exact ⟨_, done_sound hpeer, .refl⟩
    | _ => cases hdone
  | close =>
    have hclosed : Shut .closed := .inr rfl
    cases h with
    | writing h => exact ⟨none, .writing (.inr hclosed), .refl⟩
    | waiting hunread => exact absurd hunread (Shut.not_unread (.inl rfl))
    | answered hshut hanswers htext => exact ⟨_, .answered hclosed hanswers htext, .refl⟩
    | dropped => exact ⟨none, .dropped hclosed, .refl⟩
    | done => exact ⟨_, done_sound hclosed, .refl⟩

variable {C : Type}

/-- Every call is sound, and the used ids are the calls' own. -/
def Kept (serde : Serde) (s : System C) : Prop :=
  ∃ held : C → Option UInt32, (∀ c, Sound serde (s.calls c) (held c)) ∧ Owners s.ids.Used held

theorem initial_kept : Kept serde (initial : System C) :=
  ⟨fun _ => none, fun _ => .idle, .empty ThreadId.initial_used⟩

variable [DecidableEq C]

theorem step_kept (texts : Texts serde) {s t : System C} {l : C × Act} (h : Kept serde s)
    (hstep : Step serde s l t) (hsteady : Steady (s.calls l.1) l.2) : Kept serde t := by
  obtain ⟨held, hsound, howned⟩ := h
  cases hstep with
  | @call loop loop' ids ids' calls c act call' hcall =>
    obtain ⟨held', hsound', hbooks⟩ := step_sound texts (hsound c) hcall hsteady
    refine ⟨Function.update held c held', fun c' => ?_, ?_⟩
    · show Sound serde (Function.update calls c call' c') (Function.update held c held' c')
      by_cases hc : c' = c
      · subst hc
        rw [Function.update_self, Function.update_self]
        exact hsound'
      · rw [Function.update_of_ne hc, Function.update_of_ne hc]
        exact hsound c'
    · rcases hbooks with ⟨hused, rfl⟩ | ⟨id, hnone, rfl, hfree, hused⟩
      · rw [Function.update_eq_self]
        exact howned.congr hused
      · exact howned.give hnone hfree hused

/-- A call that is not in progress has the id it returned. -/
theorem Sound.held_eq {call : Call} {held : Option UInt32} (h : Sound serde call held)
    (hquiet : call.progress = .idle ∨ ∃ res, call.progress = .done res) (id : UInt32) :
    held = some id ↔ call.progress = .done (.ok ⟨.ok (.threadEnter id)⟩) := by
  cases h with
  | idle => exact ⟨fun h => (by cases h), fun h => (by cases h)⟩
  | @done res =>
    rcases res with e | ⟨e | ⟨⟩ | id' | fd⟩ <;> simp [returned, idOf, eq_comm]
  | _ => rcases hquiet with h | ⟨res, h⟩ <;> cases h

/-- In a run in which no read of a response times out, no write times out half done and no
response is lost under a waiting call, the used ids are those that calls have returned
whenever no call is in progress, and no two calls have returned one. -/
theorem ids_returned (texts : Texts serde) {s : System C} {acts : List (C × Act)}
    (hrun : Run (fun s l t => Step serde s l t ∧ Steady (s.calls l.1) l.2) initial acts s)
    (hquiet : Quiet s) :
    (∀ id, s.ids.Used id ↔
      ∃ c, (s.calls c).progress = .done (.ok ⟨.ok (.threadEnter id)⟩)) ∧
    ∀ c c' id, (s.calls c).progress = .done (.ok ⟨.ok (.threadEnter id)⟩) →
      (s.calls c').progress = .done (.ok ⟨.ok (.threadEnter id)⟩) → c = c' := by
  have hkept : Kept serde s := by
    refine hrun.invariant (P := Kept serde) (fun s l t h hstep => ?_) initial_kept
    exact step_kept texts h hstep.1 hstep.2
  obtain ⟨held, hsound, howned⟩ := hkept
  have hheld (c : C) (id : UInt32) := (hsound c).held_eq (hquiet c) id
  refine ⟨fun id => ?_, fun c c' id hc hc' => ?_⟩
  · rw [howned.marked_iff]
    exact exists_congr fun c => hheld c id
  · exact howned.unique c c' id ((hheld c id).mpr hc) ((hheld c' id).mpr hc')

/-! ### Runs of one call -/

section
open Server

theorem text_ascii {chars : List Char} (h : ∀ c ∈ chars, c.toNat < 256) :
    (text chars).map (fun b => Char.ofNat b.toNat) = chars := by
  rw [text, List.map_map]
  refine (List.map_congr_left fun c hc => ?_).trans (List.map_id chars)
  show Char.ofNat (UInt8.ofNat c.toNat).toNat = c
  rw [UInt8.toNat_ofNat_of_lt' (h c hc), Char.ofNat_toNat]

theorem digits_ascii (n : Nat) : ∀ c ∈ Nat.toDigits 10 n, c.toNat < 256 := by
  intro c hc
  have hdigit := Nat.isDigit_of_mem_toDigits (by decide) (by decide) hc
  simp only [Char.isDigit, Bool.and_eq_true, decide_eq_true_eq] at hdigit
  have hle : c.toNat ≤ 57 := hdigit.2
  omega

/-- The number in a text is read back. -/
theorem digits_inj {m n : Nat} (h : text (Nat.toDigits 10 m) = text (Nat.toDigits 10 n)) :
    m = n := by
  have hchars : Nat.toDigits 10 m = Nat.toDigits 10 n := by
    rw [← text_ascii (digits_ascii m), h, text_ascii (digits_ascii n)]
  rw [← @Nat.ofDigitChars_ten_toDigits m, hchars, Nat.ofDigitChars_ten_toDigits]

theorem text_append (a b : List Char) : text (a ++ b) = text a ++ text b := List.map_append

theorem enterText_inj {id id' : UInt32}
    (h : responseText ⟨.ok (.threadEnter id)⟩ = responseText ⟨.ok (.threadEnter id')⟩) :
    id = id' := by
  simp only [responseText, text_append, List.append_assoc, List.append_cancel_left_eq,
    List.append_cancel_right_eq] at h
  exact UInt32.toNat_inj.mp (digits_inj h)

theorem enterText_take (id : UInt32) :
    (responseText ⟨.ok (.threadEnter id)⟩).take 15 =
      text "\x7b\"data\":\x7b\"Ok\":\x7b".toList := by
  simp only [responseText, text_append, List.append_assoc]
  rw [List.take_append_of_le_length (by decide)]
  decide

/-- Among the sample's responses the text of an id is that of no other. -/
theorem enterText_unique {response : Response} (hmem : response ∈ sampleResponses) {id : UInt32}
    (h : responseText response = responseText ⟨.ok (.threadEnter id)⟩) :
    response = ⟨.ok (.threadEnter id)⟩ := by
  have htake := congrArg (List.take 15) h
  rw [enterText_take] at htake
  rcases List.mem_append.mp hmem with hmem | hmem
  · exfalso
    revert htake
    simp only [List.mem_cons, List.not_mem_nil, or_false] at hmem
    rcases hmem with rfl | rfl | rfl <;> decide
  · obtain ⟨n, -, rfl⟩ := List.mem_map.mp hmem
    rw [enterText_inj h]

theorem enter_mem {id : UInt32} (h : id.toNat < maxThreadNum) :
    ⟨.ok (.threadEnter id)⟩ ∈ sampleResponses :=
  List.mem_append_right _ (List.mem_map.mpr
    ⟨id.toNat, List.mem_range.mpr h, by rw [UInt32.ofNat_toNat]⟩)

theorem enterText_length {id : UInt32} (h : id.toNat < maxThreadNum) :
    (responseText ⟨.ok (.threadEnter id)⟩).length ≤ 512 := by
  have hdigits : (Nat.toDigits 10 id.toNat).length ≤ 4 :=
    (Nat.length_toDigits_le_iff (by decide) (by decide)).mpr (Nat.lt_of_lt_of_le h (by decide))
  have htext (chars : List Char) : (text chars).length = chars.length := List.length_map ..
  simp only [responseText, htext, List.length_append]
  have hprefix :
      "\x7b\"data\":\x7b\"Ok\":\x7b\"ThreadEnter\":\x7b\"thread_id\":".toList.length = 42 := rfl
  have hsuffix : "\x7d\x7d\x7d\x7d".toList.length = 4 := rfl
  omega

theorem sample_response (read : List UInt8) :
    sampleSerde.responseFromSlice read =
      sampleResponses.find? fun response => responseText response = read := rfl

theorem sample_texts : Texts sampleSerde where
  request := by decide
  request_len := by decide
  request_nil := by decide
  response := by
    intro response h
    obtain ⟨_⟩ := response
    rcases h with rfl | ⟨id, hid, rfl⟩
    · rfl
    · rw [sample_response]
      rcases hfind : sampleResponses.find? (fun response =>
          responseText response = responseText ⟨.ok (.threadEnter id)⟩) with _ | found
      · exact absurd (List.find?_eq_none.mp hfind _ (enter_mem hid)) (by simp)
      · have hfound := List.find?_some hfind
        have hmem := List.mem_of_find?_eq_some hfind
        rw [decide_eq_true_eq] at hfound
        rw [enterText_unique hmem hfound] at hfind
        exact hfind
  response_len := by
    intro response h
    obtain ⟨_⟩ := response
    rcases h with rfl | ⟨id, hid, rfl⟩
    · decide
    · exact enterText_length hid
  response_nil := by
    rw [sample_response]
    refine List.find?_eq_none.mpr fun response hmem htext => ?_
    rcases List.mem_append.mp hmem with hmem | hmem
    · revert htext
      simp only [List.mem_cons, List.not_mem_nil, or_false] at hmem
      rcases hmem with rfl | rfl | rfl <;> decide
    · obtain ⟨n, -, rfl⟩ := List.mem_map.mp hmem
      have htake := enterText_take (UInt32.ofNat n)
      rw [of_decide_eq_true htext] at htake
      cases htake

/-- A step of the server or of call `c`, with nothing lost. -/
def SteadyStep (c : Nat) (v : Pair Nat) (act : Act) (w : Pair Nat) : Prop :=
  PairStep sampleSerde c v act w ∧ Steady v.call act

/-- The call in the system where the others are as `calls` says. -/
def Pair.within (v : Pair Nat) (calls : Nat → Call) (c : Nat) : System Nat :=
  ⟨v.loop, v.ids, Function.update calls c v.call⟩

@[simp] theorem within_calls (v : Pair Nat) (calls : Nat → Call) (c : Nat) :
    (v.within calls c).calls c = v.call := by
  simp [Pair.within]

theorem within_step {calls : Nat → Call} {c : Nat} {v w : Pair Nat} {act : Act}
    (h : PairStep sampleSerde c v act w) :
    Step sampleSerde (v.within calls c) (c, act) (w.within calls c) := by
  have hcall : Function.update calls c v.call c = v.call := Function.update_self ..
  have hstep : Step sampleSerde (v.within calls c) (c, act)
      ⟨w.loop, w.ids, Function.update (v.within calls c).calls c w.call⟩ :=
    .call (by rw [hcall]; exact h)
  have hupdate : Function.update (v.within calls c).calls c w.call = (w.within calls c).calls :=
    Function.update_idem ..
  rwa [hupdate] at hstep

theorem within_run {calls : Nat → Call} {c : Nat} {v w : Pair Nat} {acts : List Act}
    (h : Run (SteadyStep c) v acts w) :
    Run (fun s l t => Step sampleSerde s l t ∧ Steady (s.calls l.1) l.2) (v.within calls c)
      (acts.map fun act => (c, act)) (w.within calls c) := by
  refine h.map (fun v => v.within calls c) (fun act => (c, act)) fun v act w hstep => ?_
  exact ⟨within_step hstep.1, by rw [within_calls]; exact hstep.2⟩

/-- The system where no call but zero has begun. -/
def Pair.alone (v : Pair Nat) : System Nat :=
  ⟨v.loop, v.ids, Function.update (initial : System Nat).calls 0 v.call⟩

theorem alone_calls (v : Pair Nat) (c : Nat) :
    v.alone.calls c = if c = 0 then v.call else ⟨.idle, .absent, [], []⟩ := by
  by_cases hc : c = 0
  · subst hc
    exact Function.update_self (0 : Nat) v.call (initial : System Nat).calls
  · rw [if_neg hc]
    exact Function.update_of_ne hc v.call (initial : System Nat).calls

/-- The call's connection when nothing has begun. -/
def Pair.initial : Pair Nat := ⟨.free, .table 0, ⟨.idle, .absent, [], []⟩⟩

theorem initial_within (c : Nat) :
    Pair.initial.within (Client.initial : System Nat).calls c = Client.initial := by
  have hcalls : Function.update (Client.initial : System Nat).calls c Pair.initial.call =
      (Client.initial : System Nat).calls := Function.update_eq_self ..
  show (⟨_, .table 0, Function.update _ _ _⟩ : System Nat) = _
  rw [hcalls, ThreadId.table_zero]
  rfl

theorem alone_quiet {v : Pair Nat} (h : ∃ res, v.call.progress = .done res) : Quiet v.alone := by
  intro c
  rw [alone_calls]
  split
  · exact .inr h
  · exact .inl rfl

theorem respond_table {n : Nat} (h : n < maxThreadNum) :
    respond sampleSerde ((requestText .threadEnter).take 512) (.table n) =
      .ok (⟨.ok (.threadEnter (UInt32.ofNat n))⟩, .table (n + 1)) := by
  have htext : (requestText .threadEnter).take 512 = sampleSerde.requestToVec .threadEnter :=
    List.take_of_length_le sample_texts.request_len
  rw [htext, respond, sample_texts.request]
  show (handle .threadEnter (.table n) >>= _) = _
  rw [handle, ThreadId.next_table h]
  rfl

/-- The response with the `n`th id. -/
def enterText (n : Nat) : List UInt8 :=
  sampleSerde.responseToVec ⟨.ok (.threadEnter (UInt32.ofNat n))⟩

/-- The call's request is on its way, and `n` ids are given out. -/
def requested (n : Nat) (progress : Progress) : Pair Nat :=
  ⟨.free, .table n, ⟨progress, .backlog, requestText .threadEnter, []⟩⟩

/-- The server has answered it and closed the connection. -/
def answered (n : Nat) (progress : Progress) : Pair Nat :=
  ⟨.free, .table (n + 1), ⟨progress, .closed, [], enterText n⟩⟩

/-- The server answers while the call stands still. -/
theorem answer_run (c : Nat) {n : Nat} (hn : n < maxThreadNum) {progress : Progress}
    (h : ∀ res, progress ≠ .done res) :
    Run (SteadyStep c) (requested n progress) [.accept, .serverRead, .serverWrite, .close]
      (answered n progress) := by
  have haccept : PairStep sampleSerde c (requested n progress) .accept
      ⟨.free, .table n, ⟨progress, .opened, requestText .threadEnter, []⟩⟩ := CallStep.accept
  have hread : PairStep sampleSerde c
      ⟨.free, .table n, ⟨progress, .opened, requestText .threadEnter, []⟩⟩ .serverRead
      ⟨.busy c, .table (n + 1),
        ⟨progress, .replying ⟨.ok (.threadEnter (UInt32.ofNat n))⟩, [], []⟩⟩ :=
    CallStep.serverRead (.inl (by decide)) (respond_table hn)
  have hwrite : PairStep sampleSerde c
      ⟨.busy c, .table (n + 1),
        ⟨progress, .replying ⟨.ok (.threadEnter (UInt32.ofNat n))⟩, [], []⟩⟩ .serverWrite
      ⟨.busy c, .table (n + 1), ⟨progress, .closing, [], enterText n⟩⟩ := CallStep.serverWrite h
  have hclose : PairStep sampleSerde c
      ⟨.busy c, .table (n + 1), ⟨progress, .closing, [], enterText n⟩⟩ .close
      (answered n progress) := CallStep.close
  exact .cons ⟨haccept, trivial⟩ <| .cons ⟨hread, trivial⟩ <| .cons ⟨hwrite, trivial⟩ <|
    .single ⟨hclose, trivial⟩

/-- The call is about to write its request. -/
def connected (n attempt : Nat) : Pair Nat :=
  ⟨.free, .table n, ⟨.writing attempt, .backlog, [], []⟩⟩

theorem connect_step (c : Nat) : SteadyStep c .initial .connect (connected 0 0) :=
  ⟨CallStep.connect, trivial⟩

theorem write_step (c n attempt : Nat) :
    SteadyStep c (connected n attempt) .write (requested n (.reading attempt)) :=
  ⟨CallStep.write Peer.noConfusion, trivial⟩

/-- A call that waits too long for its response tries again when the server has closed the
connection. -/
def lostActs : List Act :=
  [.connect, .write] ++ [.readFails .wouldBlock] ++
    [.accept, .serverRead, .serverWrite, .close] ++ [.writeBreaks]

def lost : Pair Nat := ⟨.free, .table 1, ⟨.done (.error .serviceError), .closed, [], []⟩⟩

theorem lost_run : Run (PairStep sampleSerde 0) .initial lostActs lost := by
  have hrequest : Run (PairStep sampleSerde 0) .initial [.connect, .write]
      (requested 0 (.reading 0)) :=
    .cons (connect_step 0).1 (.single (write_step 0 0 0).1)
  have hfails : PairStep sampleSerde 0 (requested 0 (.reading 0)) (.readFails .wouldBlock)
      (requested 0 (.writing 1)) := CallStep.readFails Peer.noConfusion rfl
  have hbreaks : PairStep sampleSerde 0 (answered 0 (.writing 1)) .writeBreaks lost :=
    CallStep.writeBreaks
  have hanswer : Run (SteadyStep 0) (requested 0 (.writing 1))
      [.accept, .serverRead, .serverWrite, .close] (answered 0 (.writing 1)) :=
    answer_run 0 (by decide) fun _ => Progress.noConfusion
  have hanswered := hanswer.mono fun _ _ _ => And.left
  exact ((hrequest.append (.single hfails)).append hanswered).append (.single hbreaks)

/-- No call is in progress then, the first id is used, and no call has returned it. -/
theorem response_lost :
    Run (Step sampleSerde) (initial : System Nat) (lostActs.map fun act => (0, act)) lost.alone ∧
      Quiet lost.alone ∧ lost.alone.ids.Used 0 ∧
      ∀ c response, (lost.alone.calls c).progress ≠ .done (.ok response) := by
  have hrun := lost_run.map (fun v => v.within (initial : System Nat).calls 0)
    (fun act => (0, act)) fun _ _ _ => within_step
  rw [initial_within] at hrun
  have hnext := ThreadId.next_table (by decide : 0 < maxThreadNum)
  refine ⟨hrun, alone_quiet ⟨_, rfl⟩, ?_, fun c response => ?_⟩
  · exact ((ThreadId.next_some hnext).2.2 0).mpr (.inl rfl)
  · rw [alone_calls]
    split
    · exact fun h => by cases h
    · exact Progress.noConfusion

/-! ### Two calls -/

/-- The system where no call but these two has begun. -/
def both (loop : Loop Nat) (ids : ThreadId) (first second : Call) : System Nat :=
  ⟨loop, ids, Function.update (Function.update (initial : System Nat).calls 0 first) 1 second⟩

theorem both_calls (loop : Loop Nat) (ids : ThreadId) (first second : Call) (c : Nat) :
    (both loop ids first second).calls c =
      if c = 1 then second else if c = 0 then first else ⟨.idle, .absent, [], []⟩ := by
  simp only [both, Function.update_apply]
  rfl

theorem first_run {v w : Pair Nat} {acts : List Act} (h : Run (SteadyStep 0) v acts w)
    (second : Call) :
    Run (fun s l t => Step sampleSerde s l t ∧ Steady (s.calls l.1) l.2)
      (both v.loop v.ids v.call second) (acts.map fun act => (0, act))
      (both w.loop w.ids w.call second) := by
  have hboth (v : Pair Nat) : v.within (Function.update (initial : System Nat).calls 1 second) 0 =
      both v.loop v.ids v.call second := by
    rw [Pair.within, both]
    exact congrArg (System.mk v.loop v.ids) (Function.update_comm (by decide) ..)
  rw [← hboth, ← hboth]
  exact within_run h

theorem second_run {v w : Pair Nat} {acts : List Act} (h : Run (SteadyStep 1) v acts w)
    (first : Call) :
    Run (fun s l t => Step sampleSerde s l t ∧ Steady (s.calls l.1) l.2)
      (both v.loop v.ids first v.call) (acts.map fun act => (1, act))
      (both w.loop w.ids first w.call) :=
  within_run h

/-- The call has returned the `n`th id. -/
def returnedCall (n : Nat) : Call :=
  ⟨.done (.ok ⟨.ok (.threadEnter (UInt32.ofNat n))⟩), .closed, [], []⟩

/-- A call reads its response when `m` ids are given out. -/
theorem read_step (c : Nat) {n : Nat} (hn : n < maxThreadNum) (m attempt : Nat) :
    SteadyStep c ⟨.free, .table m, ⟨.reading attempt, .closed, [], enterText n⟩⟩ .read
      ⟨.free, .table m, returnedCall n⟩ := by
  have hreceived : received sampleSerde ((enterText n).take 512) =
      .ok ⟨.ok (.threadEnter (UInt32.ofNat n))⟩ :=
    received_eq sample_texts (.inr ⟨UInt32.ofNat n, by
      rw [UInt32.toNat_ofNat_of_lt' (Nat.lt_trans hn (by decide))]
      exact hn, rfl⟩)
  have hread : CallStep sampleSerde c .free (.table m)
      ⟨.reading attempt, .closed, [], enterText n⟩ .read .free (.table m)
      ⟨.done (received sampleSerde ((enterText n).take 512)), .closed, [], []⟩ := .read (.inr rfl)
  rw [hreceived] at hread
  exact ⟨hread, trivial⟩

/-- Call zero's first write times out; call one is served before it. -/
def twoActs : List (Nat × Act) :=
  [(0, .connect), (0, .writeFails .wouldBlock 0), (1, .connect), (1, .write), (0, .write),
    (1, .accept), (1, .serverRead), (1, .serverWrite), (1, .close), (1, .read),
    (0, .accept), (0, .serverRead), (0, .serverWrite), (0, .close), (0, .read)]

def twoServed : System Nat := both .free (.table 2) (returnedCall 1) (returnedCall 0)

theorem two_run :
    Run (fun s l t => Step sampleSerde s l t ∧ Steady (s.calls l.1) l.2) (initial : System Nat)
      twoActs twoServed := by
  have htimeout : SteadyStep 0 (connected 0 0) (.writeFails .wouldBlock 0) (connected 0 1) :=
    ⟨CallStep.writeFails Peer.noConfusion rfl (by decide), rfl⟩
  have hretries := first_run (.cons (connect_step 0) (.single htimeout)) Pair.initial.call
  have hrequest := second_run (.cons (connect_step 1) (.single (write_step 1 0 0)))
    (connected 0 1).call
  have hwrite := first_run (.single (write_step 0 0 1)) (requested 0 (.reading 0)).call
  have hsecond := second_run ((answer_run 1 (by decide : 0 < maxThreadNum)
    fun _ => Progress.noConfusion).snoc (read_step 1 (by decide : 0 < maxThreadNum) 1 0))
    (requested 0 (.reading 1)).call
  have hfirst := first_run ((answer_run 0 (by decide : 1 < maxThreadNum)
    fun _ => Progress.noConfusion).snoc (read_step 0 (by decide : 1 < maxThreadNum) 2 1))
    (returnedCall 0)
  have hinitial : both .free (.table 0) Pair.initial.call Pair.initial.call =
      (initial : System Nat) := by
    rw [both, ThreadId.table_zero]
    exact congrArg (System.mk _ _) ((congrArg (Function.update · 1 _)
      (Function.update_eq_self (0 : Nat) (initial : System Nat).calls)).trans
      (Function.update_eq_self (1 : Nat) (initial : System Nat).calls))
  rw [← hinitial]
  exact (((hretries.append hrequest).append hwrite).append hsecond).append hfirst

theorem ids_returned_sample :
    Run (fun s l t => Step sampleSerde s l t ∧ Steady (s.calls l.1) l.2) (initial : System Nat)
      twoActs twoServed ∧
    (∀ id, twoServed.ids.Used id ↔
      ∃ c, (twoServed.calls c).progress = .done (.ok ⟨.ok (.threadEnter id)⟩)) ∧
    ∀ c c' id, (twoServed.calls c).progress = .done (.ok ⟨.ok (.threadEnter id)⟩) →
      (twoServed.calls c').progress = .done (.ok ⟨.ok (.threadEnter id)⟩) → c = c' := by
  have hquiet : Quiet twoServed := by
    intro c
    rw [twoServed, both_calls]
    split
    · exact .inr ⟨_, rfl⟩
    · split
      · exact .inr ⟨_, rfl⟩
      · exact .inl rfl
  exact ⟨two_run, ids_returned sample_texts two_run hquiet⟩

end

end Client
end OmniStack
