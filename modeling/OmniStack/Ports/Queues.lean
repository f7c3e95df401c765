import OmniStack.Nio
import OmniStack.Ports.Once
import Mathlib.Data.Fintype.EquivFin

/-! The queues of the adapters.

Every `IoNode::init` draws its queue from one counter for the IO nodes of all workers, while the
port is configured with the number of cpus of one entry, that of the worker that came first.
Every adapter has a queue of its own below that number, and none is left over, only if there
is one card and the entry of every call lists as many cpus as there are calls.

The `W` of the turns are the calls of `IoNode::init` here. A worker makes those of its own IO
nodes one after the other; the calls of different workers come in any order. -/
namespace OmniStack
open Lib

namespace Ports
variable {W : Type} {nics : List NicConfig}

section Draws

/-- The queue of a call is its place in the order in which they have drawn. -/
structure Draws (s : System W nics) : Prop where
  nodup : s.begun.Nodup
  begun : ∀ w, w ∈ s.begun ↔ s.stages w ≠ .start
  call : ∀ w call, (s.stages w).call? = some call →
    ∃ i, s.begun[i]? = some w ∧ call.queue = UInt16.ofNat i
  adapter : ∀ a ∈ s.adapters, ∃ i, s.begun[i]? = some a.1 ∧ a.2.queue = UInt16.ofNat i

variable {s t : System W nics} {w : W}

theorem Draws.initial : Draws (initial : System W nics) where
  nodup := List.nodup_nil
  begun _ := by simp [Ports.initial]
  call _ _ h := by cases h
  adapter _ h := by cases h

/-- A call has one place. -/
theorem Draws.place_inj (hd : Draws s) {i j : Nat} (hi : s.begun[i]? = some w)
    (hj : s.begun[j]? = some w) : i = j :=
  (List.getElem?_inj (List.getElem?_eq_some_iff.mp hi).1 hd.nodup).mp (hi.trans hj.symm)

/-- The adapters of a call have one queue. -/
theorem Draws.queue_eq (hd : Draws s) {call call' : Call nics} (ha : (w, call) ∈ s.adapters)
    (ha' : (w, call') ∈ s.adapters) : call.queue = call'.queue := by
  obtain ⟨i, hi, hq⟩ := hd.adapter _ ha
  obtain ⟨j, hj, hq'⟩ := hd.adapter _ ha'
  rw [hq, hq', hd.place_inj hi hj]

theorem Draws.length_le [Fintype W] (hd : Draws s) : s.begun.length ≤ Fintype.card W :=
  hd.nodup.length_le_card

variable [DecidableEq W] {env : Platform W} {numQueues : W → UInt16}

/-- A call draws on its first turn and never again. -/
theorem Turned.begun (h : Turned env numQueues w s t) :
    t.stages w ≠ .start ∧ ((s.stages w = .start ∧ t.begun = s.begun ++ [w]) ∨
      (s.stages w ≠ .start ∧ t.begun = s.begun)) := by
  have hnext : ∀ call : Call nics, next call ≠ .start := by
    intro call
    rcases next_cases call with ⟨h, -⟩ | ⟨h, -⟩ | ⟨_, h, -⟩ <;> simp [h]
  have henter : ∀ queue, (enter 0 queue : Stage nics) ≠ .start := by
    intro queue
    rcases @enter_cases nics 0 queue with ⟨h, -⟩ | ⟨_, h⟩ <;> simp [h]
  cases h with
  | begin hw =>
    refine ⟨?_, .inl ⟨hw, rfl⟩⟩
    show (s.move w _).stages w ≠ _
    rw [move_stages_self]
    exact henter _
  | returns hw =>
    refine ⟨?_, .inr ⟨by simp [hw], rfl⟩⟩
    show (s.move w _).stages w ≠ _
    rw [move_stages_self]
    exact hnext _
  | callFirst hw | portInit hw | portInitPanics hw | assigned hw =>
    refine ⟨?_, .inr ⟨by simp [hw], rfl⟩⟩
    show (s.move w _).stages w ≠ _
    simp
  | callAgain hw | callPoisoned hw | adaptFails hw =>
    exact ⟨by simp, .inr ⟨by simp [hw], rfl⟩⟩

/-- A place in the order is kept. -/
theorem Turned.place (h : Turned env numQueues w s t) {i : Nat} {v : W}
    (hi : s.begun[i]? = some v) : t.begun[i]? = some v := by
  rcases h.begun.2 with ⟨-, heq⟩ | ⟨-, heq⟩
  · rw [heq, List.getElem?_append_left (List.getElem?_eq_some_iff.mp hi).1, hi]
  · rw [heq, hi]

theorem Turned.adapters (h : Turned env numQueues w s t) :
    t.adapters = s.adapters ∨
      ∃ call, s.stages w = .waiting call ∧ t.adapters = s.adapters ++ [(w, call)] := by
  cases h with
  | begin | callFirst | callAgain | callPoisoned | portInit | portInitPanics | returns
  | adaptFails => exact .inl rfl
  | assigned hw => exact .inr ⟨_, hw, rfl⟩

theorem Draws.turned (hd : Draws s) (h : Turned env numQueues w s t) : Draws t where
  nodup := by
    rcases h.begun.2 with ⟨hw, heq⟩ | ⟨-, heq⟩
    · rw [heq]
      have hnew : w ∉ s.begun := fun hmem => (hd.begun w).mp hmem hw
      exact hd.nodup.append (List.nodup_singleton w) (by simpa using hnew)
    · rw [heq]
      exact hd.nodup
  begun v := by
    by_cases hv : v = w
    · subst hv
      refine ⟨fun _ => h.begun.1, fun _ => ?_⟩
      rcases h.begun.2 with ⟨-, heq⟩ | ⟨hw, heq⟩
      · simp [heq]
      · rw [heq]
        exact (hd.begun v).mpr hw
    · rw [h.frame.1 v hv, ← hd.begun v]
      rcases h.begun.2 with ⟨-, heq⟩ | ⟨-, heq⟩
      · simp [heq, hv]
      · rw [heq]
  call v call hc := by
    by_cases hv : v = w
    · subst hv
      rcases h.call hc with hs | ⟨-, -, hq, heq⟩ | ⟨before, hs, -, -, hq⟩
      · obtain ⟨i, hi, hqi⟩ := hd.call v call hs
        exact ⟨i, h.place hi, hqi⟩
      · exact ⟨s.begun.length, by simp [heq], hq⟩
      · obtain ⟨i, hi, hqi⟩ := hd.call v before (by rw [hs]; rfl)
        exact ⟨i, h.place hi, hq.trans hqi⟩
    · rw [h.frame.1 v hv] at hc
      obtain ⟨i, hi, hqi⟩ := hd.call v call hc
      exact ⟨i, h.place hi, hqi⟩
  adapter a ha := by
    have hkept : a ∈ s.adapters → ∃ i, t.begun[i]? = some a.1 ∧ a.2.queue = UInt16.ofNat i := by
      intro hs
      obtain ⟨i, hi, hq⟩ := hd.adapter a hs
      exact ⟨i, h.place hi, hq⟩
    rcases h.adapters with heq | ⟨call, hw, heq⟩
    · exact hkept (heq ▸ ha)
    · rw [heq] at ha
      rcases List.mem_append.mp ha with hs | hlast
      · exact hkept hs
      · obtain rfl := List.mem_singleton.mp hlast
        obtain ⟨i, hi, hq⟩ := hd.call w call (by rw [hw]; rfl)
        exact ⟨i, h.place hi, hq⟩

theorem Reachable.draws (h : Reachable env numQueues s) : Draws s := by
  obtain ⟨ws, hrun⟩ := h
  exact hrun.invariant (fun s w t hd ht => hd.turned (Ports.turned ht)) .initial

/-- Once all calls have drawn every place is taken. -/
theorem Draws.full [Fintype W] (hd : Draws s) (h : ∀ w, s.stages w ≠ .start) :
    s.begun.length = Fintype.card W := by
  have huniv : s.begun.toFinset = Finset.univ :=
    Finset.eq_univ_iff_forall.mpr fun w => List.mem_toFinset.mpr ((hd.begun w).mpr (h w))
  rw [← List.toFinset_card_of_nodup hd.nodup, huniv, Finset.card_univ]

end Draws

theorem toNat_place {i n : Nat} {queues : UInt16} (hi : i < n) (hn : queues.toNat = n) :
    (UInt16.ofNat i).toNat = i :=
  UInt16.toNat_ofNat_of_lt' (hi.trans (hn ▸ queues.toNat_lt))

theorem Call.nic_eq (hnics : nics.length = 1) (call call' : Call nics) : call.nic = call'.nic := by
  have := call.nic.isLt
  have := call'.nic.isLt
  exact Fin.ext (by omega)

theorem Call.port_eq (hnics : nics.length = 1) (call call' : Call nics) :
    call.port = call'.port :=
  congrArg (fun nic => nics[nic].port) (Call.nic_eq hnics call call')

section Assigned
variable {env : Platform W} {numQueues : W → UInt16} {s t : System W nics} {w : W}

/-- A call that is over has adapters, if the port could be initialized. -/
theorem Books.adapter_of_over (hb : Books env numQueues s) (ho : s.initOnce = .complete)
    (hlen : 0 < nics.length) (hover : (s.stages w).over = true) :
    ∃ call, (w, call) ∈ s.adapters := by
  by_cases hfailed : s.stages w = .failed
  · have hag := hb.agrees w
    rw [hfailed] at hag
    rcases hag with hp | hcall
    · rw [ho] at hp
      cases hp
    · exact hcall
  · have hpassed := passed_of_over hover hfailed hlen (Nat.zero_le _)
    obtain ⟨queue, hret⟩ := hb.passed w ⟨0, hlen⟩ hpassed
    exact ⟨_, (hb.returned _ hret).1⟩

theorem Books.complete_of_port (hb : Books env numQueues s) {p : Port} (hp : p ∈ s.ports) :
    s.initOnce = .complete := by
  cases hb.phase with
  | fresh _ _ hnil => rw [hnil] at hp; cases hp
  | running _ _ _ hnil => rw [hnil] at hp; cases hp
  | complete ho => exact ho
  | poisoned _ _ hnil => rw [hnil] at hp; cases hp

variable [DecidableEq W]

/-- A turn of a call that comes after others: they have returned. -/
def InTurn (env : Platform W) (numQueues : W → UInt16) (before : W → W → Prop)
    (s : System W nics) (w : W) (t : System W nics) : Prop :=
  (∀ v, before v w → s.stages v = .done) ∧ turn env numQueues w s = some t

/-- Reachable by calls of which some come before others. -/
def InOrder (env : Platform W) (numQueues : W → UInt16) (before : W → W → Prop)
    (s : System W nics) : Prop :=
  ∃ ws, Run (InTurn env numQueues before) initial ws s

/-- Every adapter has a queue its port was configured with, no two adapters of a port have the
same, and in the end none is left over. -/
structure Assigns (env : Platform W) (numQueues : W → UInt16) (before : W → W → Prop)
    (nics : List NicConfig) : Prop where
  below : ∀ s : System W nics, InOrder env numQueues before s → ∀ a ∈ s.adapters,
    ∃ p ∈ s.ports, p.port = a.2.port ∧ a.2.queue < p.numQueues
  distinct : ∀ s : System W nics, InOrder env numQueues before s → ∀ a ∈ s.adapters,
    ∀ b ∈ s.adapters, a.2.port = b.2.port → a.2.queue = b.2.queue → a = b
  owned : ∀ s : System W nics, InOrder env numQueues before s →
    (∀ w, (s.stages w).over = true) → ∀ p ∈ s.ports, ∀ queue < p.numQueues,
      ∃ a ∈ s.adapters, a.2.port = p.port ∧ a.2.queue = queue

variable {before : W → W → Prop}

theorem InOrder.initial : InOrder env numQueues before (initial : System W nics) := ⟨[], .nil _⟩

theorem InOrder.reachable (h : InOrder env numQueues before s) : Reachable env numQueues s := by
  obtain ⟨ws, hrun⟩ := h
  exact ⟨ws, hrun.mono fun _ _ _ hturn => hturn.2⟩

theorem InOrder.inTurn (h : InOrder env numQueues before s)
    (ht : InTurn env numQueues before s w t) : InOrder env numQueues before t := by
  obtain ⟨ws, hrun⟩ := h
  exact ⟨ws ++ [w], hrun.snoc ht⟩

/-- A call that has begun comes after calls that have returned. -/
theorem InOrder.waits (h : InOrder env numQueues before s) {v w : W} (hbefore : before v w)
    (hw : s.stages w ≠ .start) : s.stages v = .done := by
  obtain ⟨ws, hrun⟩ := h
  refine hrun.invariant (P := fun s => ∀ v w, before v w → s.stages w ≠ .start →
    s.stages v = .done) ?_ (fun _ _ _ hw => absurd rfl hw) v w hbefore hw
  intro s u t hwaits hturn v w hbefore hw
  have hframe := (Ports.turned hturn.2).frame.1
  have hv : s.stages v = .done := by
    by_cases hwu : w = u
    · exact hturn.1 v (hwu ▸ hbefore)
    · exact hwaits v w hbefore (hframe w hwu ▸ hw)
  -- a call that has returned has no further turn
  have hvu : v ≠ u := by
    rintro rfl
    have hnone := hturn.2
    rw [turn, hv] at hnone
    cases hnone
  rw [hframe v hvu, hv]

/-- A call that has begun goes on whatever the order. -/
theorem InOrder.turn (h : InOrder env numQueues before s) (hw : s.stages w ≠ .start)
    (ht : Ports.turn env numQueues w s = some t) : InOrder env numQueues before t :=
  h.inTurn ⟨fun _ hbefore => h.waits hbefore hw, ht⟩

/-- With one card a call's place is its queue, below the number the port has. -/
theorem assigns_of_card [Fintype W] (hnics : nics.length = 1)
    (hqueues : ∀ w, (numQueues w).toNat = Fintype.card W) :
    Assigns env numQueues before nics := by
  have hplace : ∀ s : System W nics, Reachable env numQueues s → ∀ a ∈ s.adapters,
      ∃ i, s.begun[i]? = some a.1 ∧ i < Fintype.card W ∧ a.2.queue.toNat = i := by
    intro s hs a ha
    obtain ⟨i, hi, hq⟩ := hs.draws.adapter a ha
    have hlt : i < Fintype.card W :=
      (List.getElem?_eq_some_iff.mp hi).1.trans_le hs.draws.length_le
    exact ⟨i, hi, hlt, by rw [hq, toNat_place hlt (hqueues a.1)]⟩
  refine ⟨fun s hin a ha => ?_, fun s hin a ha b hb _ hq => ?_,
    fun s hin hover p hp queue hlt => ?_⟩ <;> have hs := hin.reachable
  · have hc := hs.books.complete_of_adapter ha
    obtain ⟨w, call, -, -, -, hports, -⟩ := hs.books.phase.of_complete hc
    obtain ⟨i, -, hlt, hq⟩ := hplace s hs a ha
    refine ⟨_, by rw [hports]; exact List.mem_singleton_self _, Call.port_eq hnics call a.2, ?_⟩
    rw [UInt16.lt_iff_toNat_lt, hq, hqueues w]
    exact hlt
  · obtain ⟨i, hi, -, hqi⟩ := hplace s hs a ha
    obtain ⟨j, hj, -, hqj⟩ := hplace s hs b hb
    have hij : i = j := by rw [← hqi, ← hqj, hq]
    have hw : a.1 = b.1 := by
      rw [hij, hj] at hi
      exact (Option.some.inj hi).symm
    exact Prod.ext hw (Call.ext (Call.nic_eq hnics a.2 b.2) hq)
  · have hc := hs.books.complete_of_port hp
    obtain ⟨v, call, -, -, -, hports, -⟩ := hs.books.phase.of_complete hc
    rw [hports] at hp
    obtain rfl := List.mem_singleton.mp hp
    have hfull : s.begun.length = Fintype.card W := by
      refine hs.draws.full fun w hw => ?_
      have := hover w
      rw [hw] at this
      cases this
    have hq : queue.toNat < s.begun.length := by
      rw [hfull, ← hqueues v]
      exact UInt16.lt_iff_toNat_lt.mp hlt
    obtain ⟨own, hown⟩ := hs.books.adapter_of_over hc (by omega) (hover s.begun[queue.toNat])
    obtain ⟨i, hi, -, hqi⟩ := hplace s hs _ hown
    have hiq := hs.draws.place_inj hi (List.getElem?_eq_getElem hq)
    exact ⟨_, hown, Call.port_eq hnics _ _, UInt16.toNat_inj.mp (hqi.trans hiq)⟩

/-- Once the port has been initialized it stays what it is. -/
theorem Turned.ports (hb : Books env numQueues s) (ho : s.initOnce = .complete)
    (h : Turned env numQueues w s t) : t.initOnce = .complete ∧ t.ports = s.ports := by
  cases h with
  | begin | callAgain | assigned | returns | adaptFails => exact ⟨ho, rfl⟩
  | callFirst _ hf => rw [ho] at hf; cases hf
  | callPoisoned _ hp => rw [ho] at hp; cases hp
  | portInit hw | portInitPanics hw =>
    have hrunning := (hb.running hw).1
    rw [ho] at hrunning
    cases hrunning

/-- Only a call with more cards than it has room for goes past the end of `nic_to_mac`. -/
theorem Turned.crashed (h : Turned env numQueues w s t) (ht : t.stages w = .crashed) :
    numAdapterMax < nics.length := by
  cases h with
  | begin =>
    have henter := (move_stages_self s w (enter 0 s.queueId)).symm.trans ht
    rcases @enter_cases nics 0 s.queueId with ⟨hdone, -⟩ | ⟨_, hcall⟩
    · cases hdone.symm.trans henter
    · cases hcall.symm.trans henter
  | callFirst | callAgain | callPoisoned | portInit | portInitPanics | assigned | adaptFails =>
    cases (move_stages_self s w _).symm.trans ht
  | @returns call =>
    have hnext := (move_stages_self s w (next call)).symm.trans ht
    rcases next_cases call with ⟨hdone, -⟩ | ⟨-, hmax⟩ | ⟨_, hcall, -⟩
    · cases hdone.symm.trans hnext
    · exact hmax.trans_lt call.nic.isLt
    · cases hcall.symm.trans hnext

theorem Reachable.crashed (h : Reachable env numQueues s) (hw : s.stages w = .crashed) :
    numAdapterMax < nics.length := by
  obtain ⟨ws, hrun⟩ := h
  refine hrun.invariant (P := fun s => ∀ w, s.stages w = .crashed → numAdapterMax < nics.length)
    ?_ (fun _ hw => by cases hw) w hw
  intro s u t hs hturn w hw
  have hturned := Ports.turned hturn
  by_cases hwu : w = u
  · exact hturned.crashed (hwu ▸ hw)
  · exact hs w (hturned.frame.1 w hwu ▸ hw)

/-- A call that waits gets its adapter. -/
theorem InOrder.assigned (hs : InOrder env numQueues before s) {call : Call nics}
    (hw : s.stages w = .waiting call) :
    ∃ t, InOrder env numQueues before t ∧ t.stages w = .adapting call ∧
      t.adapters = s.adapters ++ [(w, call)] ∧ t.initOnce = s.initOnce ∧ t.pools = s.pools ∧
      t.ports = s.ports := by
  have hbooks := hs.reachable.books
  have hflag := hbooks.flag (hbooks.complete hw)
  have hassigned := hs.turn (by simp [hw]) (Turned.assigned hw hflag).turn
  exact ⟨_, hassigned, move_stages_self .., rfl, rfl, rfl, rfl⟩

/-- A further card gets through to its adapter. -/
theorem InOrder.called (hs : InOrder env numQueues before s) (ho : s.initOnce = .complete)
    {call : Call nics} (hw : s.stages w = .calling call) :
    ∃ t, InOrder env numQueues before t ∧ t.adapters = s.adapters ++ [(w, call)] ∧
      t.ports = s.ports := by
  have hwaiting := hs.turn (by simp [hw]) (Turned.callAgain hw ho).turn
  obtain ⟨t, ht, -, hadapters, -, -, hports⟩ := hwaiting.assigned (move_stages_self ..)
  exact ⟨t, ht, hadapters, hports⟩

/-- A call whose pool is there returns if the buffers and the address can be had. -/
theorem InOrder.returned (hs : InOrder env numQueues before s) {call : Call nics}
    (hw : s.stages w = .waiting call) (hpool : poolName call.port ∈ s.pools)
    (halloc : env.pktmbufAllocBulk w call.nic = true)
    (hmac : env.ethMacaddrGet w call.nic = true) :
    ∃ t, InOrder env numQueues before t ∧ t.stages w = next call ∧
      t.adapters = s.adapters ++ [(w, call)] ∧ t.initOnce = s.initOnce ∧ t.ports = s.ports := by
  obtain ⟨t, ht, hadapting, hadapters, ho, hpools, hports⟩ := hs.assigned hw
  have hreturns := ht.turn (by simp [hadapting])
    (Turned.returns hadapting (hpools ▸ hpool) halloc hmac).turn
  exact ⟨_, hreturns, move_stages_self .., hadapters, ho, hports⟩

/-- Where everything succeeds any call that none comes before may initialize the port. -/
theorem reaches_waiting (hfree : ∀ v, ¬ before v w) (first : Call nics)
    (hfirst : enter 0 0 = .calling first) :
    ∃ s : System W nics, InOrder (Platform.working W) numQueues before s ∧
      s.stages w = .waiting first ∧ s.initOnce = .complete ∧
      s.ports = [⟨first.port, numQueues w⟩] ∧ poolName first.port ∈ s.pools := by
  have hstart : InOrder (Platform.working W) numQueues before (initial : System W nics) :=
    .initial
  obtain ⟨s, hs, hcalling, ho, hports⟩ : ∃ s : System W nics,
      InOrder (Platform.working W) numQueues before s ∧ s.stages w = .calling first ∧
        s.initOnce = .fresh ∧ s.ports = [] :=
    ⟨_, hstart.inTurn ⟨fun v hbefore => absurd hbefore (hfree v), (Turned.begin rfl).turn⟩,
      (move_stages_self ..).trans hfirst, rfl, rfl⟩
  obtain ⟨t, ht, hinit, htports⟩ : ∃ t : System W nics,
      InOrder (Platform.working W) numQueues before t ∧ t.stages w = .initializing first ∧
        t.ports = [] :=
    ⟨_, hs.turn (by simp [hcalling]) (Turned.callFirst hcalling ho).turn, move_stages_self ..,
      hports⟩
  have hok : ((Platform.working W).dev first.port).portInit ((Platform.working W).socketId w)
      first.port (numQueues w) = .ok (some (poolName first.port)) :=
    (EthDev.working_succeeds.portInit ..).trans (if_pos rfl)
  refine ⟨_, ht.turn (by simp [hinit]) (Turned.portInit hinit hok).turn, move_stages_self ..,
    rfl, ?_, by simp⟩
  show t.ports ++ _ = _
  rw [htports]
  rfl

/-- A second card would have no queue of its own: its port is the first one or has none. -/
theorem Assigns.card_eq_one (h : Assigns (Platform.working W) numQueues before nics)
    (hfree : ∀ v, ¬ before v w) (hlen : 0 < nics.length) : nics.length = 1 := by
  by_contra hne
  have hsecond : 1 < nics.length := by omega
  have hfirst : enter 0 0 = .calling (⟨⟨0, hlen⟩, 0⟩ : Call nics) := dif_pos hlen
  obtain ⟨s, hs, hw, ho, hports, hpool⟩ :=
    @reaches_waiting W nics numQueues w _ before hfree _ hfirst
  obtain ⟨t, ht, hnext, htadapters, hto, htports⟩ := hs.returned hw hpool rfl rfl
  rw [next_calling _ (by decide : 0 < numAdapterMax) hsecond] at hnext
  obtain ⟨u, hu, huadapters, huports⟩ := ht.called (hto.trans ho) hnext
  rw [htadapters] at huadapters
  obtain ⟨p, hp, hport, -⟩ := h.below u hu (w, ⟨⟨1, hsecond⟩, 0⟩) (by simp [huadapters])
  rw [huports, htports, hports] at hp
  obtain rfl := List.mem_singleton.mp hp
  have heq := h.distinct u hu (w, ⟨⟨0, hlen⟩, 0⟩) (by simp [huadapters])
    (w, ⟨⟨1, hsecond⟩, 0⟩) (by simp [huadapters]) hport rfl
  simp at heq

/-- With one card on a platform where everything succeeds a call that is over has returned. -/
theorem Reachable.done_of_over (hs : Reachable (Platform.working W) numQueues s)
    (hnics : nics.length = 1) (hover : (s.stages w).over = true) : s.stages w = .done := by
  have hone : OnePort (Platform.working W) nics := by
    refine ⟨fun _ card hcard card' hcard' => ?_, fun _ _ _ => rfl, fun _ _ _ _ => ⟨rfl, rfl⟩⟩
    obtain ⟨only, rfl⟩ := List.length_eq_one_iff.mp hnics
    rw [List.mem_singleton.mp hcard, List.mem_singleton.mp hcard']
  have hfailed := (hone.never_fails (fun _ _ => EthDev.working_succeeds) hs).2 w
  have hcrashed : s.stages w ≠ .crashed := fun hcrashed =>
    absurd (hs.crashed hcrashed) (by simp [hnics, numAdapterMax])
  cases hw : s.stages w with
  | done => rfl
  | failed => exact absurd hw hfailed
  | crashed => exact absurd hw hcrashed
  | start | calling | initializing | waiting | adapting =>
    rw [hw] at hover
    cases hover

/-- With one card on a platform where everything succeeds some call has a turn as long as one is
not over: a call that has begun, or one that comes after calls that have returned. -/
theorem InOrder.progress (hs : InOrder (Platform.working W) numQueues before s)
    (hwf : WellFounded before) (hnics : nics.length = 1) (hw : (s.stages w).over = false) :
    ∃ v t, InTurn (Platform.working W) numQueues before s v t := by
  induction w using hwf.induction with
  | _ w ih =>
    by_cases hbefore : ∀ v, before v w → s.stages v = .done
    · obtain ⟨v, t, hv, ht⟩ := hs.reachable.books.progress hw
      rcases hv with rfl | hv
      · exact ⟨v, t, hbefore, ht⟩
      · exact ⟨v, t, fun _ hbefore => hs.waits hbefore hv, ht⟩
    · obtain ⟨v, hv⟩ := not_forall.mp hbefore
      obtain ⟨hvw, hv⟩ := Classical.not_imp.mp hv
      refine ih v hvw (Bool.eq_false_iff.mpr fun hover => hv ?_)
      exact hs.reachable.done_of_over hnics hover

/-- From every state of such a run an order leads to one in which every call has returned. -/
theorem InOrder.to_end [Fintype W] (hs : InOrder (Platform.working W) numQueues before s)
    (hwf : WellFounded before) (hnics : nics.length = 1) :
    ∃ ws t, Run (InTurn (Platform.working W) numQueues before) s ws t ∧
      InOrder (Platform.working W) numQueues before t ∧ ∀ w, (t.stages w).over = true := by
  have hprogress : ∀ s : System W nics, InOrder (Platform.working W) numQueues before s →
      (¬ ∀ w, (s.stages w).over = true) →
        ∃ w t, InTurn (Platform.working W) numQueues before s w t := by
    intro s hs hnot
    obtain ⟨w, hw⟩ := not_forall.mp hnot
    exact hs.progress hwf hnics (Bool.eq_false_iff.mpr hw)
  obtain ⟨ws, t, hrun, hover⟩ := Run.exists_final (fun _ _ _ hturn => rank_turn hturn.2)
    (fun _ _ _ hs hturn => InOrder.inTurn hs hturn) hprogress s hs
  exact ⟨ws, t, hrun, hrun.invariant (fun _ _ _ hs hturn => hs.inTurn hturn) hs, hover⟩

/-- With one card the queues of its port are one for each call. -/
theorem Assigns.all_own [Fintype W] (h : Assigns (Platform.working W) numQueues before nics)
    (hwf : WellFounded before) (hnics : nics.length = 1) (hfree : ∀ v, ¬ before v w) :
    (numQueues w).toNat = Fintype.card W := by
  have hlen : 0 < nics.length := by omega
  have hfirst : enter 0 0 = .calling (⟨⟨0, hlen⟩, 0⟩ : Call nics) := dif_pos hlen
  obtain ⟨s, hs, -, ho, hports, -⟩ := @reaches_waiting W nics numQueues w _ before hfree _ hfirst
  obtain ⟨ws, t, hrun, ht, hover⟩ := hs.to_end hwf hnics
  have hkept : Reachable (Platform.working W) numQueues t ∧ t.initOnce = .complete ∧
      t.ports = s.ports := by
    refine hrun.invariant (P := fun t => Reachable (Platform.working W) numQueues t ∧
      t.initOnce = .complete ∧ t.ports = s.ports) ?_ ⟨hs.reachable, ho, rfl⟩
    intro t v u h hu
    obtain ⟨ht, ho, hp⟩ := h
    have hstep := (Ports.turned hu.2).ports ht.books ho
    exact ⟨ht.turn hu.2, hstep.1, hstep.2.trans hp⟩
  obtain ⟨hreach, hto, htports⟩ := hkept
  rw [hports] at htports
  have hadapter : ∀ v, ∃ call : Call nics, (v, call) ∈ t.adapters :=
    fun v => hreach.books.adapter_of_over hto hlen (hover v)
  choose call hcall using hadapter
  have hbelow : ∀ v, (call v).queue.toNat < (numQueues w).toNat := by
    intro v
    obtain ⟨p, hp, -, hlt⟩ := h.below t ht _ (hcall v)
    rw [htports] at hp
    obtain rfl := List.mem_singleton.mp hp
    exact UInt16.lt_iff_toNat_lt.mp hlt
  let queueOf : W → Fin (numQueues w).toNat := fun v => ⟨(call v).queue.toNat, hbelow v⟩
  have hinj : Function.Injective queueOf := by
    intro v v' hq
    have hqueue : (call v).queue = (call v').queue := UInt16.toNat_inj.mp (Fin.mk.inj hq)
    exact congrArg Prod.fst
      (h.distinct t ht _ (hcall v) _ (hcall v') (Call.port_eq hnics _ _) hqueue)
  have hsurj : Function.Surjective queueOf := by
    intro i
    have hi : (UInt16.ofNat i).toNat = i := toNat_place i.isLt rfl
    obtain ⟨a, ha, -, hq⟩ := h.owned t ht hover ⟨_, numQueues w⟩
      (by rw [htports]; exact List.mem_singleton_self _) (UInt16.ofNat i)
      (UInt16.lt_iff_toNat_lt.mpr (hi.trans_lt i.isLt))
    refine ⟨a.1, Fin.ext ?_⟩
    show (call a.1).queue.toNat = i
    rw [hreach.draws.queue_eq (hcall a.1) ha, hq, hi]
  rw [Fintype.card_of_bijective ⟨hinj, hsurj⟩, Fintype.card_fin]

/-- Nothing goes wrong where there is nothing to initialize. -/
theorem assigns_of_no_call (hno : ∀ (_ : W) (_ : Call nics), False) :
    Assigns env numQueues before nics where
  below _ _ a _ := (hno a.1 a.2).elim
  distinct _ _ a _ := (hno a.1 a.2).elim
  owned s hs _ p hp := by
    have hbooks := hs.reachable.books
    obtain ⟨w, call, -⟩ := hbooks.phase.of_complete (hbooks.complete_of_port hp)
    exact (hno w call).elim

omit [DecidableEq W] in
/-- Where calls that come after each other read one number of queues, every call's number is that
of one which none comes before. -/
theorem exists_free (hwf : WellFounded before)
    (hsame : ∀ v w, before v w → numQueues v = numQueues w) (w : W) :
    ∃ v, (∀ u, ¬ before u v) ∧ numQueues v = numQueues w := by
  induction w using hwf.induction with
  | _ w ih =>
    by_cases hfree : ∀ u, ¬ before u w
    · exact ⟨w, hfree, rfl⟩
    · obtain ⟨u, hu⟩ := not_forall.mp hfree
      have hbefore := not_not.mp hu
      obtain ⟨v, hv, heq⟩ := ih u hbefore
      exact ⟨v, hv, heq.trans (hsame u w hbefore)⟩

/-- The queues fit on every platform exactly when there is one card with a queue for every
call, or nothing to initialize. -/
theorem assigns_iff [Fintype W] (hwf : WellFounded before)
    (hsame : ∀ v w, before v w → numQueues v = numQueues w) :
    (∀ env : Platform W, Assigns env numQueues before nics) ↔
      IsEmpty W ∨ nics = [] ∨
        (nics.length = 1 ∧ ∀ w, (numQueues w).toNat = Fintype.card W) := by
  constructor
  · intro h
    rcases isEmpty_or_nonempty W with hempty | ⟨⟨w⟩⟩
    · exact .inl hempty
    · rcases List.eq_nil_or_concat nics with hnil | ⟨cards, card, hcards⟩
      · exact .inr (.inl hnil)
      · have hlen : 0 < nics.length := by simp [hcards]
        obtain ⟨v, hfree, -⟩ := exists_free hwf hsame w
        have hone := (h (.working W)).card_eq_one hfree hlen
        refine .inr (.inr ⟨hone, fun w => ?_⟩)
        obtain ⟨v, hfree, heq⟩ := exists_free hwf hsame w
        rw [← heq]
        exact (h (.working W)).all_own hwf hone hfree
  · intro h env
    rcases h with hempty | rfl | ⟨hnics, hqueues⟩
    · exact assigns_of_no_call fun w _ => hempty.false w
    · exact assigns_of_no_call fun _ call => call.nic.elim0
    · exact assigns_of_card hnics hqueues

end Assigned

section Graphs

/-- A graph that `Engine::run` makes: the index of its entry and its cpu. -/
structure Graph where
  id : UInt32
  cpu : UInt32

/-- `num_queues` of a worker, as `IoNode::init` reads it. -/
def numQueues (config : StackConfig) (g : Graph) : UInt16 :=
  match config.graphs[g.id.toNat]? with
  | some entry => UInt16.ofNat entry.cpus.length
  | none => 0

end Graphs

end Ports

namespace Engine

/-- The graphs that are to be built: the entry of each, its index and the cpu. -/
def plan (entries : List GraphEntry) : List (GraphEntry × Ports.Graph) :=
  entries.zipIdx.flatMap fun g => g.1.cpus.map fun cpu => (g.1, ⟨UInt32.ofNat g.2, cpu⟩)

/-- The entry of a graph is there. -/
theorem plan_entry {entries : List GraphEntry} {place : GraphEntry × Ports.Graph}
    (h : place ∈ plan entries) : ∃ entry, entries[place.2.id.toNat]? = some entry := by
  obtain ⟨⟨entry, id⟩, hentry, hcpu⟩ := List.mem_flatMap.mp h
  obtain ⟨cpu, -, rfl⟩ := List.mem_map.mp hcpu
  have hid : id < entries.length := (List.mem_zipIdx' hentry).1
  have hle : (UInt32.ofNat id).toNat ≤ id := by
    rw [UInt32.toNat_ofNat']
    exact Nat.mod_le ..
  exact ⟨_, List.getElem?_eq_getElem (hle.trans_lt hid)⟩

end Engine

namespace Ports

section Calls

/-- A call of `IoNode::init`: the number of the worker that makes it, the worker's graph, and
which of the graph's IO nodes it is for. -/
structure InitCall where
  worker : Nat
  graph : Graph
  node : Nat

/-- A worker initializes its nodes one after the other. -/
def InitCall.Before (call call' : InitCall) : Prop :=
  call.worker = call'.worker ∧ call.node < call'.node

variable (getGraphConfig : String → Option GraphConfig)

/-- How many IO nodes the graph of an entry has: one each time its config lists the module. -/
def ioNodes (entry : GraphEntry) : Nat :=
  match getGraphConfig entry.name with
  | some graphConfig => graphConfig.modules.count "IoNode"
  | none => 0

/-- The calls of `IoNode::init`. The launch of a worker may be refused, or the worker may stop
before; `comes` says to how many of its IO nodes the worker with a number comes. -/
def calls (entries : List GraphEntry) (comes : Nat → Nat) : List InitCall :=
  (Engine.plan entries).zipIdx.flatMap fun g =>
    (List.range (min (ioNodes getGraphConfig g.1.1) (comes g.2))).map fun node =>
      ⟨g.2, g.1.2, node⟩

variable {getGraphConfig} {entries : List GraphEntry} {comes : Nat → Nat}

theorem mem_calls {call : InitCall} (h : call ∈ calls getGraphConfig entries comes) :
    ∃ entry, (Engine.plan entries)[call.worker]? = some (entry, call.graph) := by
  obtain ⟨⟨⟨entry, graph⟩, worker⟩, hplace, hnode⟩ := List.mem_flatMap.mp h
  obtain ⟨node, -, rfl⟩ := List.mem_map.mp hnode
  exact ⟨entry, List.mem_zipIdx_iff_getElem?.mp hplace⟩

/-- The calls of one worker are for one graph. -/
theorem InitCall.Before.graph_eq {call call' : InitCall} (h : call.Before call')
    (hcall : call ∈ calls getGraphConfig entries comes)
    (hcall' : call' ∈ calls getGraphConfig entries comes) : call.graph = call'.graph := by
  obtain ⟨entry, hentry⟩ := mem_calls hcall
  obtain ⟨entry', hentry'⟩ := mem_calls hcall'
  rw [h.1, hentry'] at hentry
  exact (congrArg Prod.snd (Option.some.inj hentry)).symm

variable (getGraphConfig) (config : StackConfig) (comes : Nat → Nat)

/-- A call goes over the cards with the number of queues of its graph. -/
theorem init_eq {σ α : Type} (ops : Adapter σ α) (builders : String → Option α)
    (queueId : UInt16) (ctx : Context) (node : IoNode α) (world : World σ) {call : InitCall}
    (h : call ∈ calls getGraphConfig config.graphs comes) (hctx : ctx.graphId = call.graph.id) :
    IoNode.init ops builders config queueId ctx node world =
      IoNode.initNics ops builders ctx (numQueues config call.graph) queueId config.nics 0 node
        world := by
  obtain ⟨_, hplace⟩ := mem_calls h
  obtain ⟨entry, hentry⟩ := Engine.plan_entry (List.mem_of_getElem? hplace)
  simp only [IoNode.init, numQueues, hctx, hentry]
  rfl

/-- The adapters of a list of calls get the queues they should. -/
def AssignsCalls (calls : List InitCall) (env : Platform (Fin calls.length)) : Prop :=
  Assigns env (fun v => numQueues config calls[v].graph) (fun v w => calls[v].Before calls[w])
    config.nics

variable {config} in
theorem assignsCalls_iff {calls : List InitCall}
    (hsame : ∀ call ∈ calls, ∀ call' ∈ calls, call.Before call' → call.graph = call'.graph) :
    (∀ env, AssignsCalls config calls env) ↔
      calls = [] ∨ config.nics = [] ∨
        (config.nics.length = 1 ∧ ∀ call ∈ calls,
          (numQueues config call.graph).toNat = calls.length) := by
  have hempty : IsEmpty (Fin calls.length) ↔ calls = [] := by
    rw [← not_nonempty_iff, ← Fin.pos_iff_nonempty, List.length_pos_iff, not_not]
  have hwf : WellFounded fun v w : Fin calls.length => calls[v].Before calls[w] :=
    Subrelation.wf (fun h => h.2) (InvImage.wf (fun v : Fin calls.length => calls[v].node)
      Nat.lt_wfRel.wf)
  have hqueues : ∀ v w : Fin calls.length, calls[v].Before calls[w] →
      numQueues config calls[v].graph = numQueues config calls[w].graph := fun v w hbefore =>
    congrArg (numQueues config)
      (hsame _ (List.getElem_mem v.isLt) _ (List.getElem_mem w.isLt) hbefore)
  simp only [AssignsCalls]
  rw [assigns_iff hwf hqueues, Fintype.card_fin, hempty, List.forall_mem_iff_getElem,
    Fin.forall_iff]
  rfl

/-- For a configuration the queues fit exactly when no `IoNode::init` is called, or there is no
card, or there is one card and the entry of every call lists as many cpus as there are calls. -/
theorem queues_iff :
    (∀ env, AssignsCalls config (calls getGraphConfig config.graphs comes) env) ↔
      calls getGraphConfig config.graphs comes = [] ∨ config.nics = [] ∨
        (config.nics.length = 1 ∧ ∀ call ∈ calls getGraphConfig config.graphs comes,
          (numQueues config call.graph).toNat =
            (calls getGraphConfig config.graphs comes).length) :=
  assignsCalls_iff fun _ hcall _ hcall' hbefore => hbefore.graph_eq hcall hcall'

/-- Two entries of one cpu each share the card's port. -/
def twoEntries : StackConfig where
  name := "UDP"
  nics := [sampleCard 0]
  routes := []
  graphs := [⟨"UDP", [1]⟩, ⟨"UDP", [2]⟩]

/-- The calls for them, each graph with one IO node. -/
def twoCalls : List InitCall :=
  calls (fun _ => some ⟨"UDP", ["IoNode"], []⟩) twoEntries.graphs fun _ => 1

/-- The second worker draws queue 1 of a port that has one queue. -/
theorem queue_past_count : ¬ AssignsCalls twoEntries twoCalls (.working _) := by
  intro h
  have hrun : ((Run.follow
      (turn (Platform.working (Fin twoCalls.length))
        fun v => numQueues twoEntries twoCalls[v].graph)
      [⟨0, by decide⟩, ⟨1, by decide⟩, ⟨0, by decide⟩, ⟨0, by decide⟩, ⟨1, by decide⟩,
        ⟨1, by decide⟩]
      (initial : System _ twoEntries.nics)).map fun s => (s.adapters, s.ports)) =
        some ([(⟨1, by decide⟩, ⟨⟨0, by decide⟩, 1⟩)], [⟨0, 1⟩]) := by
    decide
  -- each worker makes one call
  have hfree : ∀ v w : Fin twoCalls.length, ¬ twoCalls[v].Before twoCalls[w] := by
    intro v w hbefore
    have hnode : ∀ w : Fin twoCalls.length, twoCalls[w].node = 0 := by decide
    have hlt := hbefore.2
    rw [hnode v, hnode w] at hlt
    exact absurd hlt (Nat.lt_irrefl 0)
  obtain ⟨s, hs, heq⟩ := Option.map_eq_some_iff.mp hrun
  obtain ⟨hadapters, hports⟩ := Prod.mk.inj heq
  have hrun' : Run (InTurn (.working _) (fun v => numQueues twoEntries twoCalls[v].graph)
      fun v w => twoCalls[v].Before twoCalls[w]) initial _ s :=
    (Run.of_follow hs).mono fun _ w _ ht => ⟨fun v hbefore => absurd hbefore (hfree v w), ht⟩
  obtain ⟨p, hp, -, hlt⟩ := h.below s ⟨_, hrun'⟩ _
    (by rw [hadapters]; exact List.mem_singleton_self _)
  rw [hports] at hp
  obtain rfl := List.mem_singleton.mp hp
  exact absurd hlt (by decide)

end Calls

end Ports
end OmniStack
