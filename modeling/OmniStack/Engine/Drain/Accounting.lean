import OmniStack.Engine.Drain.Counts
import OmniStack.Engine.QueueBound
import OmniStack.Modules.Transmit
import OmniStack.Registry

/-! The drain loop counts its references right.

A call takes one reference in hand. The rule for modules (`GivesOne`) is that a call that
returns `Ok` has only seen free callbacks, and one that returns `Dropped` has besides given
up exactly the reference in hand, to the pool or to an adapter. Under it every turn of the
drain loop is a run of small steps (`turn_micros`). The registered modules keep it
(`registry_givesOne`). -/
namespace OmniStack
open Lib

/-! ### What a call may do -/

/-- Free callbacks of transmissions the adapters hold. -/
inductive Callbacks : Holdings → Holdings → Prop where
  | refl (h : Holdings) : Callbacks h h
  | cons {h h' : Holdings} {p : PacketId} (hheld : 0 < h.held p)
      (hrest : Callbacks (h.finish p) h') : Callbacks h h'

/-- One reference of `p` is given up, with free callbacks before and after. -/
inductive GivesUp (p : PacketId) : Holdings → Holdings → Prop where
  | returned {h mid h' : Holdings} (hbefore : Callbacks h mid)
      (hafter : Callbacks (mid.deallocate p) h') : GivesUp p h h'
  | sent {h mid h' : Holdings} (hbefore : Callbacks h mid)
      (hafter : Callbacks (mid.hold p) h') : GivesUp p h h'

namespace Callbacks

theorem trans {h h' h'' : Holdings} (hfirst : Callbacks h h') (hthen : Callbacks h' h'') :
    Callbacks h h'' := by
  induction hfirst with
  | refl => exact hthen
  | cons hheld _ ih => exact .cons hheld (ih hthen)

/-- Each callback is a small step. -/
theorem micros {c : Count} {h' : Holdings} (h : Callbacks c.holdings h') :
    ∃ ms, Run Micro.Step c ms {c with holdings := h'} := by
  generalize hc : c.holdings = h₀ at h
  induction h generalizing c with
  | refl =>
    subst hc
    exact ⟨[], .nil c⟩
  | cons hheld _ ih =>
    subst hc
    obtain ⟨ms, hrun⟩ := ih (c := {c with holdings := c.holdings.finish _}) rfl
    exact ⟨_, .cons (.finished hheld) hrun⟩

end Callbacks

theorem GivesUp.micros {c : Count} {p : PacketId} {h' : Holdings} (h : GivesUp p c.holdings h')
    (hhand : c.inHand = some p) :
    ∃ ms, Run Micro.Step c ms {c with inHand := none, holdings := h'} := by
  cases h with
  | @returned mid _ hbefore hafter =>
    obtain ⟨ms, hms⟩ := hbefore.micros
    obtain ⟨ns, hns⟩ := Callbacks.micros (c := ⟨c.tasks, none, mid.deallocate p⟩) hafter
    exact ⟨_, hms.append (.cons (.returned hhand) hns)⟩
  | @sent mid _ hbefore hafter =>
    obtain ⟨ms, hms⟩ := hbefore.micros
    obtain ⟨ns, hns⟩ := Callbacks.micros (c := ⟨c.tasks, none, mid.hold p⟩) hafter
    exact ⟨_, hms.append (.cons (.sent hhand) hns)⟩

/-! ### The holdings of a world -/

def World.holdings {σ : Type} (w : World σ) : Holdings where
  refcnt := fun p => (w.pkts p).refcnt
  free := w.free
  held := w.held
  mbufs := fun p => (w.pkts p).bufTy.mbufs
  log := w.log
  rawFreed := w.rawFreed

/-- A module that gives up exactly one reference when it drops a packet, and none when it
passes it on. -/
structure GivesOne {σ : Type} (ctx : Context) (m : Module σ) : Prop where
  forwarded : ∀ {w w' : World σ} {p : PacketId}, m.process ctx p w = .ok (.ok (), w') →
    Callbacks w.holdings w'.holdings
  dropped : ∀ {w w' : World σ} {p : PacketId}, m.process ctx p w = .ok (.error .dropped, w') →
    GivesUp p w.holdings w'.holdings

section World
variable {σ : Type}

/-- What is written to a packet beside its count and its mbuf is not in the holdings. -/
theorem holdings_setPkt {w : World σ} {p : PacketId} {pkt : Packet}
    (hrefcnt : pkt.refcnt = (w.pkts p).refcnt) (hty : pkt.bufTy = (w.pkts p).bufTy) :
    (w.setPkt p pkt).holdings = w.holdings := by
  simp only [World.holdings, World.setPkt, Holdings.mk.injEq, and_true, true_and]
  constructor <;>
  · funext q
    by_cases hq : q = p <;> simp [hq, hrefcnt, hty]

theorem holdings_setRefcnt (w : World σ) (p : PacketId) (n : Nat) :
    (w.setPkt p {w.pkts p with refcnt := n}).holdings = w.holdings.setRefcnt p n := by
  simp only [World.holdings, World.setPkt, Holdings.setRefcnt, Holdings.mk.injEq, and_true,
    true_and]
  constructor <;>
  · funext q
    by_cases hq : q = p <;> simp [hq]

@[simp] theorem holdings_storeAt (w : World σ) (p : PacketId) (off : Nat) (l : List UInt8) :
    (w.storeAt p off l).holdings = w.holdings := rfl

theorem holdings_deallocate {checks : Bool} {p : PacketId} {threadId : UInt32} {w w' : World σ}
    (h : PacketPool.deallocate checks p threadId w = .ok w') :
    w'.holdings = w.holdings.deallocate p := by
  simp only [PacketPool.deallocate] at h
  by_cases hlast : (w.pkts p).refcnt = 1
  · rw [(Holdings.deallocate_last (show w.holdings.refcnt p = 1 from hlast)).1]
    rw [if_pos hlast] at h
    split at h <;>
    · rename_i hty
      cases h
      simp only [World.holdings, Holdings.putBack, PacketPool.put, PacketPool.rawFree, hty,
        PktBufType.mbufs, List.append_nil]
      rfl
  · rw [(Holdings.deallocate_shared (show w.holdings.refcnt p ≠ 1 from hlast)).1]
    rw [if_neg hlast] at h
    simp only [Exec.bind_eq_ok, Exec.pure_eq_ok] at h
    obtain ⟨n, hn, rfl⟩ := h
    rw [holdings_setRefcnt]
    congr 1
    unfold subWord at hn
    by_cases hzero : (w.pkts p).refcnt = 0
    · rw [if_pos (show w.holdings.refcnt p = 0 from hzero)]
      rw [if_pos (by omega)] at hn
      split at hn
      · cases hn
      · cases hn
        rw [hzero, Nat.zero_add]
    · rw [if_neg (show w.holdings.refcnt p ≠ 0 from hzero)]
      rw [if_neg (by omega)] at hn
      cases hn
      rfl

end World

/-! ### The drain loop -/

/-- The count of a loop's state: between two turns no reference is in hand. -/
def Loop.count {σ : Type} (s : Loop σ) : Count :=
  ⟨Worker.waiting s.queue.live, none, s.world.holdings⟩

/-- A turn of the drain loop after which the loop goes on. -/
def Event.GoesOn : Event → Prop
  | .called _ _ (.ok ()) => True
  | .called _ _ (.error .dropped) => True
  | _ => False

namespace Worker
variable {σ : Type} {checks : Bool} {shouldStop : World σ → Bool} {w : Worker σ} {ctx : Context}

/-- The task on top is taken. -/
theorem take_micro {s : Loop σ} {id : NodeId} {p : PacketId} (hindex : s.queue.index ≠ 0)
    (htask : s.queue.pop.1 = ⟨id, some p⟩) :
    Micro.Step s.count (.taken p) ⟨waiting s.queue.pop.2.live, some p, s.world.holdings⟩ := by
  have htasks : s.count.tasks = bump (waiting s.queue.pop.2.live) p := by
    show waiting s.queue.live = _
    rw [ArrayStack.pop_live hindex, htask, waiting_pop]
  have hlowered : lower s.count.tasks p = waiting s.queue.pop.2.live := by
    rw [htasks]
    funext q
    by_cases hq : q = p
    · rw [hq, lower_same, bump_same, Nat.add_sub_cancel]
    · rw [lower_ne _ hq, bump_ne _ hq]
  rw [← hlowered]
  exact .taken (by rw [htasks, bump_same]; omega) rfl

/-- **A turn of the drain loop is a run of small steps.** -/
theorem turn_micros (hmods : ∀ node ∈ w.nodes.items, GivesOne ctx node.module)
    (hlinks : ∀ n, w.MayForward ctx n → 1 ≤ (w.links n).length) {s t : Loop σ} {ev : Event}
    (hev : ev.GoesOn) (h : Turn checks shouldStop w ctx s ev t) :
    ∃ ms, Run Micro.Step s.count ms t.count := by
  cases h with
  | enter | leave | pollEnd | idle | polled | pollFailed | drained => cases hev
  | @forwarded id p node world refcnt queue _ hindex htask hnode hcall hrefs hpush =>
    have hlen := hlinks id ⟨node, hnode, _, _, _, hcall⟩
    rw [links_eq hnode] at hlen
    obtain ⟨ms, hms⟩ := Callbacks.micros (c := ⟨waiting s.queue.pop.2.live, some p, _⟩)
      ((hmods _ (List.mem_of_getElem? hnode)).forwarded hcall)
    have hrefs' : refcnt = (world.pkts p).refcnt + (node.linksTo.items.length - 1) := by
      have := addRefs_ok hrefs (.inl hlen)
      omega
    have hlast : Micro.Step ⟨waiting s.queue.pop.2.live, some p, world.holdings⟩
        (.forwarded p node.linksTo.items.length)
        ⟨waiting queue.live, none, (world.setPkt p {world.pkts p with refcnt}).holdings⟩ := by
      rw [ArrayStack.pushAll_live hpush, waiting_forward, holdings_setRefcnt, hrefs']
      exact .forwarded rfl hlen
    exact ⟨_, .cons (take_micro hindex htask) (hms.snoc hlast)⟩
  | @dropped id p node world _ hindex htask hnode hcall =>
    obtain ⟨ms, hms⟩ := GivesUp.micros (c := ⟨waiting s.queue.pop.2.live, some p, _⟩)
      ((hmods _ (List.mem_of_getElem? hnode)).dropped hcall) rfl
    exact ⟨_, .cons (take_micro hindex htask) hms⟩
  | @callFailed _ _ _ _ e _ _ _ _ _ hne =>
    cases e with
    | dropped => exact absurd rfl hne
    | _ => cases hev

theorem run_micros (hmods : ∀ node ∈ w.nodes.items, GivesOne ctx node.module)
    (hlinks : ∀ n, w.MayForward ctx n → 1 ≤ (w.links n).length) {s t : Loop σ} {evs : List Event}
    (hrun : Run (Step checks shouldStop w ctx) s evs t) (hevs : ∀ ev ∈ evs, ev.GoesOn) :
    ∃ ms, Run Micro.Step s.count ms t.count := by
  induction hrun with
  | nil s => exact ⟨[], .nil _⟩
  | cons hstep _ ih =>
    obtain ⟨ms, hms⟩ := turn_micros hmods hlinks (hevs _ List.mem_cons_self) (step_turn hstep)
    obtain ⟨ns, hns⟩ := ih fun ev hev => hevs ev (List.mem_cons_of_mem _ hev)
    exact ⟨_, hms.append hns⟩

/-- **The drain loop counts its references right.** If nodes that return `Ok` have a link
and modules that drop a packet give up one reference, a packet whose count is right when
the loop starts has a right count after every turn and after every small step of every turn,
free callbacks among them. It goes back to the pool, once and its mbuf with it, at the small
step that takes its last reference and at no other, and in the pool its count is one. -/
theorem drain_exact (hmods : ∀ node ∈ w.nodes.items, GivesOne ctx node.module)
    (hlinks : ∀ n, w.MayForward ctx n → 1 ≤ (w.links n).length) {s t : Loop σ} {evs : List Event}
    (hrun : Run (Step checks shouldStop w ctx) s evs t) (hevs : ∀ ev ∈ evs, ev.GoesOn) :
    ∃ ms, ∀ p, s.count.Settled p → Run (Micro.Exact p) s.count ms t.count ∧
      t.count.Settled p ∧ s.count.ReturnsExactly p t.count := by
  obtain ⟨ms, hms⟩ := run_micros hmods hlinks hrun hevs
  exact ⟨ms, fun p hp => Micro.run_exact hms hp⟩

end Worker

namespace Sample

theorem giveBack_givesOne {m : Module Unit} (hm : m.process = giveBack) : GivesOne ctx m where
  forwarded := fun h => by
    rw [hm] at h
    exact absurd h sink_drops
  dropped := fun h => by
    rw [hm] at h
    simp only [giveBack, Exec.bind_eq_ok, Exec.pure_eq_ok, Prod.mk.injEq] at h
    obtain ⟨w₁, hdealloc, _, rfl⟩ := h
    exact .returned (.refl _) (holdings_deallocate hdealloc ▸ .refl _)

theorem relay_givesOne : GivesOne ctx relay where
  forwarded := fun h => by
    cases h
    exact .refl _
  dropped := fun h => by cases h

theorem worker_givesOne : ∀ node ∈ worker.nodes.items, GivesOne ctx node.module := by
  intro node hnode
  simp only [worker, graph, List.mem_cons, List.not_mem_nil, or_false] at hnode
  rcases hnode with rfl | rfl | rfl
  · exact giveBack_givesOne rfl
  · exact relay_givesOne
  · exact giveBack_givesOne rfl

theorem worker_linked (n : NodeId) (h : worker.MayForward ctx n) :
    1 ≤ (worker.links n).length := by
  obtain ⟨node, hnode, p, w, w', hcall⟩ := h
  rw [Worker.links_eq hnode]
  have hmem := List.mem_of_getElem? hnode
  simp only [worker, graph, List.mem_cons, List.not_mem_nil, or_false] at hmem
  rcases hmem with rfl | rfl | rfl
  · exact absurd hcall sink_drops
  · decide
  · exact absurd hcall sink_drops

/-- A task for the relay, on a received packet outside the pool. -/
def drainStart : Loop Unit where
  queue := ⟨fun _ => ⟨1, some 0⟩, 1⟩
  phase := .drain
  world := {world with
    pkts := fun _ => {pkt with bufTy := .mbuf 7}
    free := fun p => if p = 0 then 0 else 1}

/-- Forwarded over two links and dropped twice. -/
def drainEvents : List Event :=
  [.called 1 0 (.ok ()), .called 2 0 (.error .dropped), .called 2 0 (.error .dropped)]

def mbufFreed (t : Loop Unit) : Bool := decide (t.world.rawFreed = [7] ∧ t.world.free 0 = 1)

end Sample

theorem Worker.drain_exact_sample :
    ∃ t, Run (Worker.Step true (fun _ => false) Sample.worker Sample.ctx) Sample.drainStart
        Sample.drainEvents t ∧ t.world.rawFreed = [7] ∧
      Sample.drainStart.count.Settled 0 ∧ ∃ ms, ∀ p, Sample.drainStart.count.Settled p →
        Run (Micro.Exact p) Sample.drainStart.count ms t.count ∧ t.count.Settled p ∧
          Sample.drainStart.count.ReturnsExactly p t.count := by
  obtain ⟨t, hrun, hfreed⟩ := Run.exists_of_iterate
    (Sample.worker.step true (fun _ => false) Sample.ctx) 3 Sample.drainStart
    Sample.drainEvents Sample.mbufFreed (by decide +kernel)
  refine ⟨t, hrun, (of_decide_eq_true hfreed).1, .inl ⟨rfl, by decide⟩, ?_⟩
  apply Worker.drain_exact Sample.worker_givesOne Sample.worker_linked hrun
  intro ev hev
  simp only [Sample.drainEvents, List.mem_cons, List.not_mem_nil, or_false] at hev
  rcases hev with rfl | rfl | rfl <;> trivial

/-! ### The modules keep the rule -/

section Modules
variable {σ : Type} {ctx : Context} {checks : Bool}

theorem holdings_edited {p : PacketId} {w w' : World σ} (h : World.Edited p w w') :
    w'.holdings = w.holdings := by
  obtain ⟨⟨pkt, hpkts, _, hty, hrefcnt⟩, hrest⟩ := h
  rw [← holdings_setPkt hrefcnt hty, hrest, hpkts]
  rfl

/-- A module that passes every packet on and touches neither its count nor its mbuf. -/
theorem givesOne_of_edits {m : Module σ}
    (h : ∀ {w w' : World σ} {p : PacketId} {res : Result Unit},
      m.process ctx p w = .ok (res, w') → res = .ok () ∧ World.Edited p w w') :
    GivesOne ctx m where
  forwarded := fun hcall => by
    rw [holdings_edited (h hcall).2]
    exact .refl _
  dropped := fun hcall => by
    cases (h hcall).1

theorem EthSender.givesOne : GivesOne (σ := σ) ctx (EthSender.module checks) :=
  givesOne_of_edits EthSender.process_edits

theorem EthReceiver.givesOne : GivesOne (σ := σ) ctx (EthReceiver.module checks) :=
  givesOne_of_edits EthReceiver.process_edits

theorem UdpSender.givesOne : GivesOne (σ := σ) ctx (UdpSender.module checks) :=
  givesOne_of_edits UdpSender.process_edits

theorem UdpReceiver.givesOne : GivesOne (σ := σ) ctx (UdpReceiver.module checks) :=
  givesOne_of_edits UdpReceiver.process_edits

theorem Ipv4Sender.givesOne {τ : Type} {getStackConfig : String → Option StackConfig}
    {id : NodeId} : GivesOne (σ := Instances τ) ctx (Ipv4Sender.module checks getStackConfig id) :=
  givesOne_of_edits Ipv4Sender.process_edits

theorem Ipv4Receiver.givesOne : GivesOne (σ := σ) ctx (Ipv4Receiver.module checks) where
  forwarded := fun h => by
    rcases Ipv4Receiver.process_edits h with ⟨_, hedited⟩ | ⟨hres, _⟩
    · rw [holdings_edited hedited]
      exact .refl _
    · cases hres
  dropped := fun h => by
    rcases Ipv4Receiver.process_edits h with ⟨hres, _⟩ | ⟨_, w₁, hedited, hfreed⟩
    · cases hres
    · rw [holdings_deallocate hfreed, holdings_edited hedited]
      exact .returned (.refl _) (.refl _)

theorem UserNode.givesOne {sys : Sys σ} : GivesOne ctx (UserNode.module sys checks) where
  forwarded := fun h => by
    cases (UserNode.process_drops h).1
  dropped := fun h => by
    rw [holdings_deallocate (UserNode.process_drops h).2]
    exact .returned (.refl _) (.refl _)

/-! ### Sending -/

/-- The mbuf transmits packet `p`. -/
def transmits (mbufs : MbufPtr → Mbuf) (p : PacketId) (m : MbufPtr) : Bool :=
  (mbufs m).shinfo.any fun info => decide (info.fcbOpaque = p)

/-- The cards are done only with transmissions that the adapters hold. -/
def Sys.FinishesHeld (sys : Sys σ) : Prop :=
  ∀ port queue ms w p, (sys.ethTxBurst port queue ms w).2.1.countP (transmits w.mbufs p) ≤ w.held p

namespace Dpdk
variable {sys : Sys σ}

theorem finish_holdings {m : MbufPtr} {w w' : World σ} {info : SharedInfo}
    (hinfo : (w.mbufs m).shinfo = some info) (h : finish checks m w = .ok w') :
    w'.holdings = w.holdings.finish info.fcbOpaque ∧ w'.mbufs = w.mbufs := by
  simp only [finish, hinfo, packetFreeCallback] at h
  have hkeeps := PacketPool.deallocate_keeps h
  exact ⟨holdings_deallocate h, hkeeps.1⟩

theorem finishAll_callbacks {ms : List MbufPtr} {w w' : World σ}
    (h : finishAll checks ms w = .ok w')
    (hheld : ∀ p, ms.countP (transmits w.mbufs p) ≤ w.held p) :
    Callbacks w.holdings w'.holdings := by
  induction ms generalizing w with
  | nil =>
    cases h
    exact .refl _
  | cons m rest ih =>
    simp only [finishAll, Exec.bind_eq_ok] at h
    obtain ⟨mid, hmid, h⟩ := h
    cases hinfo : (w.mbufs m).shinfo with
    | none =>
      simp only [finish, hinfo, Except.ok.injEq] at hmid
      subst hmid
      apply ih h
      intro p
      have := hheld p
      rwa [List.countP_cons, transmits, hinfo] at this
    | some info =>
      obtain ⟨hholdings, hmbufs⟩ := finish_holdings hinfo hmid
      have hdone (p : PacketId) : rest.countP (transmits w.mbufs p) +
          (if info.fcbOpaque = p then 1 else 0) ≤ w.held p := by
        have := hheld p
        rw [List.countP_cons, transmits, hinfo] at this
        simpa using this
      have hleft : mid.held = lower w.held info.fcbOpaque := by
        show mid.holdings.held = _
        rw [hholdings, Holdings.finish_eq]
        rfl
      refine .cons (p := info.fcbOpaque) ?_ (hholdings ▸ ih h fun p => ?_)
      · have := hdone info.fcbOpaque
        rw [if_pos rfl] at this
        show 0 < w.held info.fcbOpaque
        omega
      · have := hdone p
        rw [hmbufs, hleft]
        by_cases hp : p = info.fcbOpaque
        · rw [hp, lower_same]
          rw [hp, if_pos rfl] at this
          omega
        · rw [lower_ne _ hp]
          omega

theorem flushLoop_callbacks (hcards : sys.FinishesHeld) {fuel start : Nat} {self self' : Dpdk}
    {w w' : World σ} (h : flushLoop sys checks fuel start self w = .ok (self', w')) :
    Callbacks w.holdings w'.holdings := by
  induction fuel generalizing start self w with
  | zero =>
    simp only [flushLoop] at h
    split at h
    · cases h
      exact .refl _
    · cases h
  | succ fuel ih =>
    simp only [flushLoop] at h
    split at h
    · cases h
      exact .refl _
    · simp only [Exec.bind_eq_ok] at h
      obtain ⟨mid, hfinish, txIdx, _, h⟩ := h
      have hcallbacks := finishAll_callbacks hfinish fun p => hcards _ _ _ w p
      exact hcallbacks.trans (ih h)

theorem putMbufs_holdings (w : World σ) (ms : List (MbufPtr × Mbuf)) :
    (putMbufs w ms).holdings = w.holdings := by
  induction ms generalizing w with
  | nil => rfl
  | cons m rest ih => exact ih _

theorem allocBulk_holdings {self self' : Dpdk} {n : Nat} {w w' : World σ} {ok : Bool}
    (h : allocBulk sys self n w = (ok, self', w')) : w'.holdings = w.holdings := by
  unfold allocBulk at h
  split at h
  · simp only [Prod.mk.injEq] at h
    obtain ⟨_, _, rfl⟩ := h
    exact putMbufs_holdings _ _
  · simp only [Prod.mk.injEq] at h
    obtain ⟨_, _, rfl⟩ := h
    rfl

theorem flush_callbacks (hcards : sys.FinishesHeld) {self self' : Dpdk} {w w' : World σ}
    {res : Result Unit} (h : flush sys checks self w = .ok (res, self', w')) :
    Callbacks w.holdings w'.holdings := by
  simp only [flush] at h
  split at h
  · simp only [Except.ok.injEq, Prod.mk.injEq] at h
    rw [h.2.2]
    exact .refl _
  · obtain ⟨⟨mid, w₁⟩, hloop, h⟩ := Exec.bind_eq_ok.mp h
    have hcallbacks := flushLoop_callbacks hcards hloop
    dsimp only at h
    split at h <;>
    · rename_i halloc
      simp only [Exec.pure_eq_ok, Prod.mk.injEq] at h
      rw [← h.2.2, allocBulk_holdings halloc]
      exact hcallbacks

/-- Handing a packet over comes first, and the free callbacks of the burst after it. -/
theorem send_callbacks (hcards : sys.FinishesHeld) {self self' : Dpdk} {p : PacketId}
    {w w' : World σ} {res : Result Unit} (h : send sys checks self ctx p w = .ok (res, self', w')) :
    Callbacks (w.holdings.hold p) w'.holdings := by
  simp only [send, Exec.bind_eq_ok] at h
  obtain ⟨m, _, len, _, addr, _, ⟨flags, w₁⟩, hoffload, h⟩ := h
  have hw₁ : w₁.holdings = w.holdings := by
    rw [offload_spec hoffload, holdings_storeAt]
    exact holdings_setPkt (by rfl) (by rfl)
  rw [← hw₁]
  split at h
  · obtain ⟨⟨res₁, self₁, w₂⟩, hflush, h⟩ := Exec.bind_eq_ok.mp h
    have hcallbacks := flush_callbacks hcards hflush
    cases res₁ <;>
    · simp only [Exec.pure_eq_ok, Prod.mk.injEq] at h
      rw [← h.2.2]
      exact hcallbacks
  · simp only [Exec.pure_eq_ok, Prod.mk.injEq] at h
    rw [← h.2.2]
    exact .refl _

end Dpdk

/-- `IoNode` gives the reference to the adapter. -/
theorem IoNode.process_givesUp {sys : Sys σ} (hcards : sys.FinishesHeld) {self self' : IoNode Dpdk}
    {p : PacketId} {w w' : World σ} {res : Result Unit}
    (h : IoNode.process (Dpdk.adapter sys checks) ctx self p w = .ok (res, self', w')) :
    res ≠ .ok () ∧ GivesUp p w.holdings w'.holdings := by
  simp only [IoNode.process, Exec.bind_eq_ok] at h
  obtain ⟨mac, _, adapter, _, ⟨res₁, adapter₁, w₁⟩, hsend, h⟩ := h
  have hcallbacks := Dpdk.send_callbacks hcards hsend
  have hgives : GivesUp p w.holdings w₁.holdings := .sent (.refl _) hcallbacks
  cases res₁ with
  | error e =>
    simp only [Exec.pure_eq_ok, Prod.mk.injEq] at h
    obtain ⟨rfl, _, rfl⟩ := h
    exact ⟨fun hres => (by cases hres), hgives⟩
  | ok u =>
    simp only [Exec.bind_eq_ok, Exec.pure_eq_ok, Prod.mk.injEq] at h
    obtain ⟨self₁, _, rfl, _, rfl⟩ := h
    exact ⟨fun hres => (by cases hres), hgives⟩

/-- Every registered module keeps the rule. -/
theorem registry_givesOne {τ : Type} {sys : Sys (Instances τ)} (hcards : sys.FinishesHeld)
    {getStackConfig : String → Option StackConfig} {name : String}
    {build : NodeId → Module (Instances τ)}
    (h : registry sys checks getStackConfig name = some build) (id : NodeId) :
    GivesOne ctx (build id) := by
  unfold registry at h
  split at h <;> cases h
  · constructor
    · intro w w' p hcall
      exact absurd hcall IoNode.module_keeps
    · intro w w' p hcall
      obtain ⟨self, w₁, env, hsent, rfl⟩ := IoNode.keep_eq_ok hcall
      exact (IoNode.process_givesUp hcards hsent).2
  · exact UserNode.givesOne
  · exact EthSender.givesOne
  · exact EthReceiver.givesOne
  · exact Ipv4Sender.givesOne
  · exact Ipv4Receiver.givesOne
  · exact UdpSender.givesOne
  · exact UdpReceiver.givesOne

end Modules

end OmniStack
