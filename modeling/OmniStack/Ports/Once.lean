import OmniStack.Ports.Turns

/-! One port for all.

Whichever worker comes first initializes the port of its first card, and the `Once` never
runs again. The port of another card is never set up: its adapter finds no pool, and the
assertion fails. With one port for all cards every call succeeds. -/
namespace OmniStack
open Lib

namespace Ports
variable {W : Type} {nics : List NicConfig}

/-- `port_init` was called for the port exactly once, and has returned. -/
def System.Initialized (s : System W nics) (port : UInt16) : Prop :=
  s.started.count port = 1 ∧ ∃ p ∈ s.ports, p.port = port

/-- All cards are on one port, the workers on its socket, and the buffers and the address of
each adapter can be had. -/
structure OnePort (env : Platform W) (nics : List NicConfig) : Prop where
  port : ∀ _ : W, ∀ card ∈ nics, ∀ card' ∈ nics, card.port = card'.port
  socket : ∀ w, ∀ card ∈ nics, env.socketId w = (env.dev card.port).socketId
  answers : ∀ w nic, nic < nics.length → nic ≤ numAdapterMax →
    env.pktmbufAllocBulk w nic = true ∧ env.ethMacaddrGet w nic = true

section
variable {env : Platform W} {numQueues : W → UInt16} {w : W} {s t : System W nics}

theorem Call.succeeds (hdev : ∀ card ∈ nics, (env.dev card.port).Succeeds) (call : Call nics) :
    (env.dev call.port).Succeeds :=
  hdev _ call.card_mem

/-- The port that was initialized is the port of every card. -/
theorem Books.initialized (hb : Books env numQueues s) (hone : OnePort env nics)
    (ho : s.initOnce = .complete) {card : NicConfig} (hcard : card ∈ nics) :
    s.Initialized card.port := by
  obtain ⟨v, call, -, -, hst, hp, -⟩ := hb.phase.of_complete ho
  have hport : call.port = card.port := hone.port v _ call.card_mem _ hcard
  exact ⟨by rw [hst, hport]; simp, ⟨_, by rw [hp]; exact List.mem_singleton_self _, hport⟩⟩

/-- Only one port was ever started. -/
theorem Phase.same_port (h : Phase env numQueues s) {port port' : UInt16}
    (hp : s.started.count port = 1) (hp' : s.started.count port' = 1) : port = port' := by
  have hone : ∀ first : UInt16, s.started = [first] → port = port' := by
    intro first hst
    have hmem : port ∈ s.started := List.count_pos_iff.mp (by omega)
    have hmem' : port' ∈ s.started := List.count_pos_iff.mp (by omega)
    rw [hst] at hmem hmem'
    exact (List.mem_singleton.mp hmem).trans (List.mem_singleton.mp hmem').symm
  cases h with
  | fresh _ hst => rw [hst] at hp; cases hp
  | running _ _ hst => exact hone _ hst
  | complete _ _ hst => exact hone _ hst
  | poisoned _ hst => exact hone _ hst

theorem Books.pool (hb : Books env numQueues s) (hone : OnePort env nics)
    (hdev : ∀ card ∈ nics, (env.dev card.port).Succeeds) (ho : s.initOnce = .complete)
    (call : Call nics) : poolName call.port ∈ s.pools := by
  obtain ⟨v, first, pool, -, -, -, hok, hpools⟩ := hb.phase.of_complete ho
  have hsocket : env.socketId v = (env.dev first.port).socketId := hone.socket v _ first.card_mem
  have hport : first.port = call.port := hone.port v _ first.card_mem _ call.card_mem
  rw [(first.succeeds hdev).portInit, if_pos hsocket] at hok
  cases hok
  rw [hpools, hport]
  exact List.mem_singleton_self _

end

variable [DecidableEq W]

/-- What the initialization of the cards `nics` owes the workers: no call fails, no call
returns before its port is initialized, in the end every port of a card is initialized, and
the end comes. -/
structure Initializes (env : Platform W) (numQueues : W → UInt16) (nics : List NicConfig) :
    Prop where
  ok : ∀ s : System W nics, Reachable env numQueues s → ∀ w, s.stages w ≠ .failed
  before : ∀ s : System W nics, Reachable env numQueues s →
    ∀ a ∈ s.returned, s.Initialized a.2.port
  once : ∀ s : System W nics, Reachable env numQueues s → (∀ w, (s.stages w).over = true) →
    ∀ _ : W, ∀ card ∈ nics, s.Initialized card.port
  progress : ∀ s : System W nics, Reachable env numQueues s →
    (∃ w, (s.stages w).over = false) → ∃ w t, turn env numQueues w s = some t
  ends : ∃ bound, ∀ ws (s : System W nics),
    Run (fun s w t => turn env numQueues w s = some t) initial ws s → ws.length ≤ bound

section
variable {env : Platform W} {numQueues : W → UInt16} {w : W} {s t : System W nics}

theorem enter_ne_failed (nic : Nat) (queue : UInt16) :
    (enter nic queue : Stage nics) ≠ .failed := by
  rcases @enter_cases nics nic queue with ⟨h, -⟩ | ⟨_, h⟩ <;> simp [h]

theorem next_ne_failed (call : Call nics) : next call ≠ .failed := by
  rcases next_cases call with ⟨h, -⟩ | ⟨h, -⟩ | ⟨_, h, -⟩ <;> simp [h]

/-- With one port no turn fails. -/
theorem OnePort.turned (hone : OnePort env nics)
    (hdev : ∀ card ∈ nics, (env.dev card.port).Succeeds) (hb : Books env numQueues s)
    (ho : s.initOnce ≠ .poisoned) (h : Turned env numQueues w s t) :
    t.initOnce ≠ .poisoned ∧ t.stages w ≠ .failed := by
  cases h with
  | begin =>
    refine ⟨ho, ?_⟩
    show (s.move w _).stages w ≠ _
    rw [move_stages_self]
    exact enter_ne_failed _ _
  | callFirst | portInit =>
    refine ⟨by simp, ?_⟩
    show (s.move w _).stages w ≠ _
    simp
  | callAgain => exact ⟨ho, by simp⟩
  | callPoisoned _ hp => exact absurd hp ho
  | @portInitPanics call e hw herr =>
    have hsocket : env.socketId w = (env.dev call.port).socketId := hone.socket w _ call.card_mem
    rw [(call.succeeds hdev).portInit, if_pos hsocket] at herr
    cases herr
  | assigned =>
    refine ⟨ho, ?_⟩
    show (s.move w _).stages w ≠ _
    simp
  | returns =>
    refine ⟨ho, ?_⟩
    show (s.move w _).stages w ≠ _
    rw [move_stages_self]
    exact next_ne_failed _
  | @adaptFails call hw hnot =>
    have hag := hb.agrees w
    rw [hw] at hag
    have hans := hone.answers w call.nic call.nic.isLt (hb.bound w call (by rw [hw]; rfl))
    exact absurd ⟨hb.pool hone hdev hag.1 call, hans⟩ hnot

theorem OnePort.never_fails (hone : OnePort env nics)
    (hdev : ∀ card ∈ nics, (env.dev card.port).Succeeds) (h : Reachable env numQueues s) :
    s.initOnce ≠ .poisoned ∧ ∀ w, s.stages w ≠ .failed := by
  obtain ⟨ws, hrun⟩ := h
  refine (hrun.invariant (P := fun s => Reachable env numQueues s ∧
    s.initOnce ≠ .poisoned ∧ ∀ w, s.stages w ≠ .failed) ?_ ⟨.initial, by simp [initial], ?_⟩).2
  · intro s w t h ht
    obtain ⟨hr, ho, hf⟩ := h
    have hfine := hone.turned hdev hr.books ho (Ports.turned ht)
    refine ⟨hr.turn ht, hfine.1, fun v => ?_⟩
    by_cases hv : v = w
    · rw [hv]
      exact hfine.2
    · rw [(Ports.turned ht).frame.1 v hv]
      exact hf v
  · intro w hw
    cases hw

/-- A worker that is done without a failure has passed every card, or as many as there is
room for. -/
theorem passed_of_over {stage : Stage nics} (hover : stage.over = true) (hne : stage ≠ .failed)
    {nic : Nat} (hlen : nic < nics.length) (hmax : nic ≤ numAdapterMax) : nic < stage.passed := by
  cases stage with
  | done => exact hlen
  | crashed => exact Nat.lt_succ_of_le hmax
  | failed => exact absurd rfl hne
  | start | calling | initializing | waiting | adapting => cases hover

theorem OnePort.initializes [Fintype W] (hone : OnePort env nics)
    (hdev : ∀ card ∈ nics, (env.dev card.port).Succeeds) : Initializes env numQueues nics where
  ok s h := (hone.never_fails hdev h).2
  before s h a ha := by
    have hadapter := (h.books.returned a ha).1
    exact h.books.initialized hone (h.books.complete_of_adapter hadapter) a.2.card_mem
  once s h hover w card hcard := by
    have hlen : 0 < nics.length := List.length_pos_of_mem hcard
    have hpassed := passed_of_over (hover w) ((hone.never_fails hdev h).2 w) hlen (Nat.zero_le _)
    obtain ⟨queue, hret⟩ := h.books.passed w ⟨0, hlen⟩ hpassed
    have hadapter := (h.books.returned _ hret).1
    exact h.books.initialized hone (h.books.complete_of_adapter hadapter) hcard
  progress s h hw := by
    obtain ⟨_, hw⟩ := hw
    obtain ⟨v, t, -, ht⟩ := h.books.progress hw
    exact ⟨v, t, ht⟩
  ends := ⟨System.rank initial, fun ws s hrun =>
    Nat.le_of_add_right_le (hrun.length_le fun _ _ _ ht => rank_turn ht)⟩

/-- Any worker may be the one that initializes the port of the first card. -/
theorem reaches_initializing (w : W) (first : Call nics) (hfirst : enter 0 0 = .calling first) :
    ∃ s : System W nics, Reachable env numQueues s ∧ s.stages w = .initializing first := by
  have hstart : Reachable env numQueues (initial : System W nics) := .initial
  have hbegin := hstart.turn (Turned.begin rfl : Turned env numQueues w _ _).turn
  refine ⟨_, hbegin.turn (Turned.callFirst ?_ rfl).turn, move_stages_self ..⟩
  exact (move_stages_self ..).trans hfirst

theorem Initializes.onePort [Fintype W]
    (hdev : ∀ card ∈ nics, (env.dev card.port).Succeeds) (h : Initializes env numQueues nics) :
    OnePort env nics := by
  have hstart : Reachable env numQueues (initial : System W nics) := .initial
  obtain ⟨-, s, -, hs, hover⟩ := hstart.to_end
  have hport : ∀ _ : W, ∀ card ∈ nics, ∀ card' ∈ nics, card.port = card'.port := by
    intro w card hcard card' hcard'
    have hcount := (h.once s hs hover w card hcard).1
    have hcount' := (h.once s hs hover w card' hcard').1
    exact hs.books.phase.same_port hcount hcount'
  refine ⟨hport, fun w card hcard => ?_, fun w nic hlen hmax => ?_⟩
  · by_contra hne
    have hlen : 0 < nics.length := List.length_pos_of_mem hcard
    let call : Call nics := ⟨⟨0, hlen⟩, 0⟩
    have heq : call.port = card.port := hport w _ call.card_mem card hcard
    have herr : (env.dev call.port).portInit (env.socketId w) call.port (numQueues w) =
        .error .panic := by
      rw [(call.succeeds hdev).portInit, if_neg (heq ▸ hne)]
    obtain ⟨t, ht, hcall⟩ := reaches_initializing w call (dif_pos hlen)
    exact h.ok _ (ht.turn (Turned.portInitPanics hcall herr).turn) w (move_stages_self ..)
  · have hpassed := passed_of_over (hover w) (h.ok s hs w) hlen hmax
    obtain ⟨queue, hret⟩ := hs.books.passed w ⟨nic, hlen⟩ hpassed
    exact (hs.books.returned _ hret).2

/-- The cards are initialized as they should, whatever the order of the turns, exactly when
they are all on one port, the workers on its socket, and the adapters get their buffers and
their addresses. -/
theorem initializes_iff [Fintype W] (hdev : ∀ card ∈ nics, (env.dev card.port).Succeeds) :
    Initializes env numQueues nics ↔ OnePort env nics :=
  ⟨fun h => h.onePort hdev, fun h => h.initializes hdev⟩

end

/-- A port whose calls all succeed. -/
def EthDev.working : EthDev where
  isValidPort := true
  infoGet := true
  adjustNbRxTxDesc := fun rx tx => some (rx, tx)
  configure := fun _ _ => true
  flowFlush := true
  socketId := 0
  pktmbufPoolCreate := fun _ _ => true
  defaultRxConf := fun _ => true
  rxQueueSetup := fun _ _ _ => true
  defaultTxConf := fun _ => true
  txQueueSetup := fun _ _ _ => true
  start := true
  promiscuousEnable := true

theorem EthDev.working_succeeds : EthDev.working.Succeeds where
  isValidPort := rfl
  infoGet := rfl
  adjustNbRxTxDesc _ _ := rfl
  configure _ _ := rfl
  flowFlush := rfl
  pktmbufPoolCreate _ _ := rfl
  defaultRxConf _ := rfl
  rxQueueSetup _ _ _ := rfl
  defaultTxConf _ := rfl
  txQueueSetup _ _ _ := rfl
  start := rfl
  promiscuousEnable := rfl

/-- Everything succeeds, on one socket. -/
def Platform.working (W : Type) : Platform W where
  socketId := fun _ => 0
  dev := fun _ => EthDev.working
  pktmbufAllocBulk := fun _ _ => true
  ethMacaddrGet := fun _ _ => true

def sampleCard (port : UInt16) : NicConfig := ⟨"Dpdk", port, ⟨#v[0, 0, 0, 0]⟩, ⟨#v[0, 0, 0, 0]⟩⟩

theorem initializes_iff_sample :
    (∀ card ∈ [sampleCard 0, sampleCard 0],
      ((Platform.working (Fin 2)).dev card.port).Succeeds) ∧
      Initializes (Platform.working (Fin 2)) (fun _ => 2) [sampleCard 0, sampleCard 0] := by
  have hdev : ∀ card ∈ [sampleCard 0, sampleCard 0],
      ((Platform.working (Fin 2)).dev card.port).Succeeds := fun _ _ => EthDev.working_succeeds
  refine ⟨hdev, (initializes_iff hdev).mpr ⟨?_, fun _ _ _ => rfl, fun _ _ _ _ => ⟨rfl, rfl⟩⟩⟩
  intro _ card hcard card' hcard'
  simp only [List.mem_cons, List.not_mem_nil, or_false, or_self] at hcard hcard'
  rw [hcard, hcard']

/-- One worker and two cards: the port of the second is never initialized. -/
theorem second_port_fails :
    (∀ card ∈ [sampleCard 0, sampleCard 1],
      ((Platform.working (Fin 1)).dev card.port).Succeeds) ∧
      ¬ Initializes (Platform.working (Fin 1)) (fun _ => 1) [sampleCard 0, sampleCard 1] := by
  refine ⟨fun _ _ => EthDev.working_succeeds, fun h => ?_⟩
  have hrun : ((Run.follow (turn (Platform.working (Fin 1)) fun _ => 1) [0, 0, 0, 0, 0, 0, 0, 0]
      (initial : System (Fin 1) [sampleCard 0, sampleCard 1])).map fun s => s.stages 0) =
        some .failed := by
    decide
  obtain ⟨s, hs, hfailed⟩ := Option.map_eq_some_iff.mp hrun
  exact h.ok s ⟨_, Run.of_follow hs⟩ 0 hfailed

end Ports
end OmniStack
