import OmniStack.Engine.Returns

/-! Packets that are polled come back.

As long as every poll and every call that hands a packet on does so at a node with a
link, a polled packet's count never exceeds the number of its tasks and transmissions
(`Tracked`): a reference given up is taken off the count or was the last one, and the
count is never zero. So when no task is left, the packet has been returned or an
adapter holds it. A node without links loses the packet: its task is gone and its
reference is nobody's (`unlinked_relay_leaks`). -/
namespace OmniStack
open Lib

/-- A packet is someone else's, or is counted and has at most one reference more than
tasks and transmissions: the module's that allocated it. -/
def Accounted (a : Account) : Prop :=
  (a.free = 0 ∧ a.tasks = 0 ∧ a.held = 0 ∧ a.kept = 0) ∨
    (1 ≤ a.refcnt ∧ a.refcnt ≤ a.tasks + a.held + 1)

theorem accounted_law : AccountLaw (1 ≤ ·) (1 ≤ ·) Accounted where
  hold := fun h => by simp only [Accounted] at h ⊢; omega
  unhold := fun _ h => by simp only [Accounted] at h ⊢; omega
  unkeep := fun _ h => by simp only [Accounted] at h ⊢; omega
  last := fun h _ => by simp only [Accounted] at h ⊢; omega
  shared := fun h _ => by
    simp only [Accounted] at h ⊢
    split <;> omega
  allocate := fun _ h => by simp only [Accounted] at h ⊢; omega
  handOver := fun {a k c} _ hc h => by
    simp only [Accounted] at h ⊢
    rcases h with hidle | hcount
    · have hzero : c = 0 := by omega
      subst hzero
      omega
    · omega
  forward := fun hk hn h => by simp only [Accounted] at h ⊢; omega

theorem accounted_of_stocked {σ : Type} {kept : σ → PacketId → Nat} {w : World σ}
    (h : Stocked kept w) : EveryAccount Accounted (fun _ => 0) (w.books kept) := by
  intro p
  have hp := h.place p
  have hheld := h.held p
  have hkept := h.kept p
  simp only [Accounted, Books.account, World.books, true_and]
  omega

/-- Since the log read `start`, packet `p` has been returned, or its count is covered
by tasks and transmissions. -/
def Tracked (p : PacketId) (start : List PoolEvent) (T : PacketId → Nat) (b : Books) : Prop :=
  ∃ added, b.log = start ++ added ∧
    (.returned p ∈ added ∨ (1 ≤ b.refcnt p ∧ b.refcnt p ≤ T p + b.held p))

namespace Tracked
variable {p q : PacketId} {start : List PoolEvent} {T : PacketId → Nat} {b : Books}

/-- An operation that leaves the log alone and keeps the cover. -/
theorem of_cover {T' : PacketId → Nat} {b' : Books} (h : Tracked p start T b)
    (hlog : b'.log = b.log)
    (hcover : 1 ≤ b.refcnt p → b.refcnt p ≤ T p + b.held p →
      1 ≤ b'.refcnt p ∧ b'.refcnt p ≤ T' p + b'.held p) : Tracked p start T' b' := by
  obtain ⟨added, hadded, hreturned | ⟨hpos, hle⟩⟩ := h
  · exact ⟨added, hlog.trans hadded, .inl hreturned⟩
  · exact ⟨added, hlog.trans hadded, .inr (hcover hpos hle)⟩

theorem deallocate (h : Tracked p start (bump T q) b) : Tracked p start T (b.deallocate q) := by
  by_cases hlast : b.refcnt q = 1
  · rw [Books.deallocate_last hlast]
    obtain ⟨added, hadded, hcover⟩ := h
    refine ⟨added ++ [.returned q], by rw [hadded, List.append_assoc], ?_⟩
    by_cases hq : p = q
    · exact .inl (by simp [hq])
    · rcases hcover with hreturned | hcover
      · exact .inl (List.mem_append_left _ hreturned)
      · exact .inr (by simpa [bump_ne _ hq] using hcover)
  · by_cases hq : p = q
    · subst hq
      refine h.of_cover (by unfold Books.deallocate; rw [if_neg hlast]; rfl) fun hpos hle => ?_
      rw [Books.deallocate_shared (by omega)]
      rw [bump_same] at hle
      simp only [Books.setRefcnt, if_pos]
      omega
    · refine h.of_cover (by unfold Books.deallocate; rw [if_neg hlast]; rfl) fun hpos hle => ?_
      rw [bump_ne _ hq] at hle
      unfold Books.deallocate
      simpa [hlast, Books.setRefcnt, hq] using ⟨hpos, hle⟩

theorem hold (h : Tracked p start (bump T q) b) : Tracked p start T (b.hold q) := by
  refine h.of_cover rfl fun hpos hle => ⟨hpos, ?_⟩
  by_cases hq : p = q
  · subst hq
    simp only [Books.hold, bump_same] at hle ⊢
    omega
  · simpa [Books.hold, bump_ne _ hq] using hle

theorem unhold (hheld : 0 < b.held q) (h : Tracked p start T b) :
    Tracked p start (bump T q) (b.unhold q) := by
  refine h.of_cover rfl fun hpos hle => ⟨hpos, ?_⟩
  by_cases hq : p = q
  · subst hq
    simp only [Books.unhold, bump_same, lower_same]
    omega
  · simpa [Books.unhold, bump_ne _ hq, lower_ne _ hq] using hle

theorem le_of_bump (h : Tracked p start T b) : Tracked p start (bump T q) (b.unkeep q) :=
  h.of_cover rfl fun hpos hle => ⟨hpos, hle.trans (Nat.add_le_add_right (le_bump T q p) _)⟩

theorem allocate (h : Tracked p start T b) : Tracked p start T (b.allocate q) := by
  obtain ⟨added, hadded, hcover⟩ := h
  refine ⟨added ++ [.allocated q], ?_, ?_⟩
  · simp only [Books.allocate, hadded, List.append_assoc]
  · exact hcover.imp (List.mem_append_left _) id

theorem forward {k n : Nat} (hk : 1 ≤ k) (hn : 0 < k ∨ 0 < b.refcnt q → n + 1 = b.refcnt q + k)
    (h : Tracked p start (bump T q) b) : Tracked p start (spread T k [q]) (b.setRefcnt q n) := by
  refine h.of_cover rfl fun hpos hle => ?_
  by_cases hq : p = q
  · subst hq
    have := hn (.inl hk)
    simp only [bump_same, spread_single_same, Books.setRefcnt, if_pos] at hle ⊢
    omega
  · rw [bump_ne _ hq] at hle
    simpa [Books.setRefcnt, spread_single_ne _ _ hq, hq] using ⟨hpos, hle⟩

theorem ledger (p : PacketId) (start : List PoolEvent) :
    Ledger (1 ≤ ·) (1 ≤ ·) (Tracked p start) where
  hold := hold
  unhold := unhold
  unkeep := fun _ h => h.le_of_bump
  deallocate := deallocate
  allocate := fun _ h => h.allocate
  handOver := fun {T b k ps} _ _ h =>
    h.of_cover rfl fun hpos hle =>
      ⟨hpos, hle.trans (by simp only [spread, Books.handOver]; omega)⟩
  forward := forward

end Tracked

namespace Worker
variable {σ : Type} {kept : σ → PacketId → Nat} {ctx : Context} {w : Worker σ} {checks : Bool}
  {shouldStop : World σ → Bool}

/-- If the next turn hands a packet on, from a poll or a call that returns `Ok`, its
node has a link. -/
structure HasOutlet (w : Worker σ) (ctx : Context) (s : Loop σ) : Prop where
  poll : ∀ id rest node head world, s.phase = .poll (id :: rest) →
    w.nodes.items[id]? = some node → node.module.poll ctx s.world = .ok (.ok head, world) →
    node.linksTo.items ≠ []
  call : ∀ id pkt node world, s.phase = .drain → s.queue.pop.1 = ⟨id, some pkt⟩ →
    w.nodes.items[id]? = some node → node.module.process ctx pkt s.world = .ok (.ok (), world) →
    node.linksTo.items ≠ []

theorem HasOutlet.fits {s t : Loop σ} {ev : Event} (h : HasOutlet w ctx s)
    (hturn : Turn checks shouldStop w ctx s ev t) : Fits (1 ≤ ·) (1 ≤ ·) w ev := by
  cases hturn with
  | polled hphase hnode hpoll =>
    show 1 ≤ (w.links _).length
    rw [links_eq hnode]
    exact List.length_pos_iff.mpr (h.poll _ _ _ _ _ hphase hnode hpoll)
  | forwarded hphase _ htask hnode hcall =>
    show 1 ≤ (w.links _).length
    rw [links_eq hnode]
    exact List.length_pos_iff.mpr (h.call _ _ _ _ hphase htask hnode hcall)
  | _ => trivial

theorem callModule_ne_overflow {α : Type} (x : Exec α) : callModule x ≠ .error .overflow := by
  cases x <;> simp [callModule]

theorem getNode_ne_overflow (id : NodeId) : w.getNode id ≠ .error .overflow := by
  unfold getNode
  split <;> simp

theorem addRefs_overflow {refcnt links : Nat}
    (h : addRefs checks refcnt links = .error .overflow) : links = 0 := by
  unfold addRefs at h
  split at h
  · assumption
  · cases h

theorem pushChain_ne_overflow (pkts : PacketId → Packet) (id : NodeId) (fuel : Nat)
    (ptr : Option PacketId) (q : ArrayStack Task) :
    pushChain pkts id fuel ptr q ≠ .error .overflow := by
  induction fuel generalizing ptr q with
  | zero => cases ptr <;> simp [pushChain]
  | succ fuel ih =>
    cases ptr with
    | none => simp [pushChain]
    | some p =>
      simp only [pushChain]
      split
      · exact ih _ _
      · simp

theorem pushLinks_ne_overflow (pkts : PacketId → Packet) (head : PacketId) (links : List NodeId)
    (q : ArrayStack Task) : pushLinks pkts head links q ≠ .error .overflow := by
  induction links generalizing q with
  | nil => simp [pushLinks]
  | cons id rest ih =>
    simp only [pushLinks]
    split
    · exact ih _
    · rename_i f hf
      intro hover
      cases hover
      exact pushChain_ne_overflow _ _ _ _ _ hf

theorem pollNode_ne_overflow {id : NodeId} {rest : List NodeId} {s : Loop σ} :
    w.pollNode ctx id rest s ≠ .error .overflow := by
  intro h
  simp only [pollNode, Exec.bind_eq_error, getNode_ne_overflow, callModule_ne_overflow,
    false_or, Prod.exists] at h
  obtain ⟨node, _, res, world, _, h⟩ := h
  cases res with
  | ok head =>
    simp only [Exec.bind_eq_error, pushLinks_ne_overflow, false_or] at h
    obtain ⟨_, _, h⟩ := h
    cases h
  | error e => cases e <;> cases h

/-- A step underflows a count only at a node without links that returned `Ok`. -/
theorem step_overflow {s : Loop σ} (h : w.step checks shouldStop ctx s = .error .overflow) :
    ∃ id pkt node world, s.phase = .drain ∧ s.queue.pop.1 = ⟨id, some pkt⟩ ∧
      w.nodes.items[id]? = some node ∧ node.module.process ctx pkt s.world = .ok (.ok (), world) ∧
      node.linksTo.items = [] := by
  simp only [step] at h
  cases hphase : s.phase with
  | top =>
    simp only [hphase] at h
    split at h
    · simp only [Exec.bind_eq_error, callModule_ne_overflow, false_or] at h
      obtain ⟨_, _, h⟩ := h
      cases h
    · cases h
  | poll ids =>
    simp only [hphase] at h
    cases ids with
    | nil => cases h
    | cons id rest => exact absurd h pollNode_ne_overflow
  | drain =>
    simp only [hphase] at h
    split at h
    · cases h
    · cases htask : s.queue.pop.1 with
      | mk id data =>
        simp only [drainTask, htask] at h
        cases data with
        | none => cases h
        | some pkt =>
          simp only [Exec.bind_eq_error, getNode_ne_overflow, callModule_ne_overflow, false_or,
            getNode_ok, callModule_ok, Prod.exists] at h
          obtain ⟨node, hnode, res, world, hcall, h⟩ := h
          cases res with
          | ok u =>
            simp only [Exec.bind_eq_error] at h
            rcases h with h | ⟨refcnt, _, h⟩
            · exact ⟨id, pkt, node, world, rfl, rfl, hnode, hcall,
                List.length_eq_zero_iff.mp (addRefs_overflow h)⟩
            · split at h <;> cases h
          | error e => cases e <;> cases h
  | done res =>
    simp only [hphase] at h
    cases h

/-- After a poll over at least one link every polled packet is tracked. -/
theorem polled_tracked (hmods : AllDisciplined kept ctx w) {s t : Loop σ} {n : NodeId}
    {burst : List PacketId} (h : Step checks shouldStop w ctx s (.polled n burst) t)
    (hlinks : 1 ≤ (w.links n).length)
    (hs : EveryAccount Accounted (waiting s.queue.live) (s.world.books kept)) {p : PacketId}
    (hp : p ∈ burst) :
    Tracked p t.world.log (waiting t.queue.live) (t.world.books kept) := by
  cases step_turn h with
  | @polled _ _ node _ head queue _ _ hnode hpoll _ hchain hpush =>
    obtain ⟨ps, hps, ⟨b, htraffic, hkept, hbooks⟩⟩ :=
      (hmods _ (List.mem_of_getElem? hnode)).polled hpoll
    rw [links_eq hnode] at hlinks
    have hburst : ps = burst := hps.unique (hchain (List.length_pos_iff.mp hlinks))
    subst hburst
    have hcount : 1 ≤ ps.count p := List.count_pos_iff.mpr hp
    have hmul : 1 ≤ node.linksTo.items.length * ps.count p := Nat.mul_pos hlinks hcount
    refine ⟨[], (List.append_nil _).symm, .inr ?_⟩
    rw [ArrayStack.pushAll_live hpush, waiting_links, hbooks]
    -- the poll had a reference of the packet, so it is not someone else's
    have haccount := accounted_law.ledger.traffic htraffic hs p
    have := hkept p
    simp only [Accounted, Books.account] at haccount
    simp only [spread, Books.handOver]
    omega

theorem accounted_of_balanced {s : Loop σ} (h : Balanced kept (EveryAccount Accounted) s)
    (hlive : ∀ res, s.phase ≠ .done res) :
    EveryAccount Accounted (waiting s.queue.live) (s.world.books kept) := by
  obtain ⟨T, hT, rfl | ⟨⟨res, hdone⟩, _⟩⟩ := h
  · exact hT
  · exact absurd hdone (hlive res)

/-- What a poll hands over is settled when the loop goes round again. -/
theorem polled_settled (hmods : AllDisciplined kept ctx w) {u v t : Loop σ} {n : NodeId}
    {burst : List PacketId} {after : List Event}
    (hu : Balanced kept (EveryAccount Accounted) u)
    (hpoll : Step checks shouldStop w ctx u (.polled n burst) v)
    (hafter : Run (Step checks shouldStop w ctx) v after t)
    (hlinks : 1 ≤ (w.links n).length) (hfits : ∀ ev ∈ after, Fits (1 ≤ ·) (1 ≤ ·) w ev)
    (htop : t.phase = .top) (hempty : t.queue.index = 0) :
    ∀ p ∈ burst, 0 < t.world.held p ∨ .returned p ∈ t.world.log.drop v.world.log.length := by
  intro p hp
  have hlive : ∀ res, u.phase ≠ .done res := by
    intro res hdone
    simp only [Step, step, hdone] at hpoll
    cases hpoll
  have hv : Tracked p v.world.log (waiting v.queue.live) (v.world.books kept) :=
    polled_tracked hmods hpoll hlinks (accounted_of_balanced hu hlive) hp
  have ht := run_balanced (Tracked.ledger p v.world.log) hmods hafter hfits ⟨_, hv, .inl rfl⟩
  obtain ⟨T, ⟨added, hlog, hcover⟩, rfl | ⟨⟨res, hdone⟩, _⟩⟩ := ht
  · have hnone : waiting t.queue.live p = 0 := by
      have hlive : t.queue.live = [] :=
        List.length_eq_zero_iff.mp (by rw [ArrayStack.live_length, hempty])
      rw [hlive]
      rfl
    have hdrop : t.world.log.drop v.world.log.length = added := by
      rw [show t.world.log = _ from hlog, List.drop_left]
    rcases hcover with hreturned | ⟨hpos, hle⟩
    · exact .inr (hdrop ▸ hreturned)
    · rw [hnone] at hle
      have : (t.world.books kept).held p = t.world.held p := rfl
      omega
  · rw [htop] at hdone
    cases hdone

/-- **Nothing polled is lost.** In every run in which only nodes with links hand packets
on, no count underflows, and whenever the outer loop goes round, every packet polled
before has since been returned to the pool or is held for transmission. -/
theorem polled_returned_or_held {w₀ : Worker σ} (hmods : AllDisciplined kept ctx w₀)
    {world₀ world : World σ} (hstock : Stocked kept world₀)
    (hstart : w₀.start ctx world₀ = .ok (.ok w, world)) {evs : List Event} {t : Loop σ}
    (hrun : Run (fun s ev u => HasOutlet w ctx s ∧ Step checks shouldStop w ctx s ev u)
      (Loop.initial world) evs t) :
    (HasOutlet w ctx t → w.step checks shouldStop ctx t ≠ .error .overflow) ∧
      (t.phase = .top → ∀ before n burst after, evs = before ++ .polled n burst :: after →
        ∃ v, Run (Step checks shouldStop w ctx) (Loop.initial world)
            (before ++ [.polled n burst]) v ∧
          Run (Step checks shouldStop w ctx) v after t ∧
          ∀ p ∈ burst, 0 < t.world.held p ∨
            .returned p ∈ t.world.log.drop v.world.log.length) := by
  constructor
  · intro hout hover
    obtain ⟨id, pkt, node, world', hphase, htask, hnode, hcall, hnil⟩ := step_overflow hover
    exact hout.call id pkt node world' hphase htask hnode hcall hnil
  intro htop before n burst after hevs
  obtain ⟨hmods', hinit⟩ :=
    start_balanced accounted_law.ledger hmods hstart (accounted_of_stocked hstock)
  have hfits : ∀ ev ∈ evs, Fits (1 ≤ ·) (1 ≤ ·) w ev :=
    hrun.labels fun _ _ _ h => h.1.fits (step_turn h.2)
  have hsteps : Run (Step checks shouldStop w ctx) (Loop.initial world) evs t :=
    hrun.mono fun _ _ _ h => h.2
  subst hevs
  obtain ⟨u, hbefore, hpolled⟩ := hsteps.split
  cases hpolled with
  | @cons _ v _ _ _ hpoll hafter =>
    have hu := run_balanced accounted_law.ledger hmods' hbefore
      (fun ev hev => hfits ev (List.mem_append_left _ hev)) hinit
    exact ⟨v, hbefore.snoc hpoll, hafter, polled_settled hmods' hu hpoll hafter
      (hfits (.polled n burst) (by simp)) (fun ev hev => hfits ev (by simp [hev])) htop
      (run_topEmpty hsteps htop)⟩

end Worker

namespace Sample

/-- A node of the sample worker that hands packets on has a link. -/
theorem worker_outlet (s : Loop Unit) : worker.HasOutlet ctx s where
  poll := fun id rest node head world _ hnode hpoll => by
    have hmem := List.mem_of_getElem? hnode
    simp only [worker, graph, List.mem_cons, List.not_mem_nil, or_false] at hmem
    rcases hmem with rfl | rfl | rfl
    · simp
    · cases hpoll
    · cases hpoll
  call := fun id pkt node world _ _ hnode hcall => by
    have hmem := List.mem_of_getElem? hnode
    simp only [worker, graph, List.mem_cons, List.not_mem_nil, or_false] at hmem
    rcases hmem with rfl | rfl | rfl
    · simp
    · simp
    · cases (giveBack_gaveUp hcall).1

end Sample

theorem Worker.polled_returned_or_held_sample :
    ∃ t, Run (Worker.Step true (fun _ => false) Sample.worker Sample.ctx)
        (Loop.initial Sample.world) (.enter :: Sample.turn) t ∧ t.phase = .top ∧
      (Sample.worker.HasOutlet Sample.ctx t →
        Sample.worker.step true (fun _ => false) Sample.ctx t ≠ .error .overflow) ∧
      (t.phase = .top → ∀ before n burst after,
        .enter :: Sample.turn = before ++ .polled n burst :: after →
        ∃ v, Run (Worker.Step true (fun _ => false) Sample.worker Sample.ctx)
            (Loop.initial Sample.world) (before ++ [.polled n burst]) v ∧
          Run (Worker.Step true (fun _ => false) Sample.worker Sample.ctx) v after t ∧
          ∀ p ∈ burst, 0 < t.world.held p ∨
            .returned p ∈ t.world.log.drop v.world.log.length) := by
  obtain ⟨t, hrun, htop⟩ := Run.exists_of_iterate
    (Sample.worker.step true (fun _ => false) Sample.ctx) 10 (Loop.initial Sample.world)
    (.enter :: Sample.turn) Sample.atTop (by decide +kernel)
  have hstart : Worker.start {Sample.worker with nodesToPoll := .empty} Sample.ctx Sample.world =
      .ok (.ok Sample.worker, Sample.world) := rfl
  exact ⟨t, hrun, Sample.phase_of_atTop htop,
    Worker.polled_returned_or_held Sample.worker_disciplined Sample.world_stocked hstart
      (hrun.mono fun s _ _ h => ⟨Sample.worker_outlet s, h⟩)⟩

/-! ### A node without links -/

namespace Sample

/-- The source linked to a relay with nowhere to go. -/
def deadEndConfig : GraphConfig where
  name := "dead end"
  modules := ["Source", "Relay"]
  links := [("Source", "Relay")]

def deadEndGraph : Graph Unit where
  id := 0
  cpu := 0
  nodes := [⟨source 0 [1], .ofTake [1]⟩, ⟨relay, .empty⟩]

def deadEndWorker : Worker Unit where
  nodes := ⟨deadEndGraph.nodes, by decide⟩
  nodesToPoll := .ofTake [0]
  id := 0
  graphId := 0
  cpu := 0
  stackName := "dead end"

theorem deadEndWorker_disciplined {v : ArrayVec NodeId 8} :
    Worker.AllDisciplined keeps ctx {deadEndWorker with nodesToPoll := v} := by
  intro node hnode
  simp only [deadEndWorker, deadEndGraph, List.mem_cons, List.not_mem_nil, or_false] at hnode
  rcases hnode with rfl | rfl
  · exact source_disciplined (by decide)
  · exact relay_disciplined

/-- With checks, the next turn stops at the count's underflow. -/
def underflows (t : Loop Unit) : Bool :=
  match deadEndWorker.step true (fun _ => false) ctx t with
  | .error .overflow => true
  | _ => false

/-- The outer loop goes round, and the two polled packets are neither in the pool nor held. -/
def lost (t : Loop Unit) : Bool :=
  atTop t && decide (t.world.log = [.allocated 0, .allocated 1] ∧ t.world.held 0 = 0)

end Sample

/-- **A node without links loses packets**: on an accepted graph of modules that keep
the rules, the checked build stops at an underflow, and in the unchecked build the
drain loop ends with packets that are neither returned nor held. -/
theorem Worker.unlinked_relay_leaks :
    Graph.new Sample.factory 0 Sample.deadEndConfig 0 = .ok Sample.deadEndGraph ∧
    Worker.new 0 "dead end" 0 Sample.deadEndGraph.nodes 0 =
      .ok {Sample.deadEndWorker with nodesToPoll := .empty} ∧
    Worker.start {Sample.deadEndWorker with nodesToPoll := .empty} Sample.ctx Sample.world =
      .ok (.ok Sample.deadEndWorker, Sample.world) ∧
    Worker.AllDisciplined Sample.keeps Sample.ctx
      {Sample.deadEndWorker with nodesToPoll := .empty} ∧
    Stocked Sample.keeps Sample.world ∧
    (∃ evs t, Run (Worker.Step true (fun _ => false) Sample.deadEndWorker Sample.ctx)
        (Loop.initial Sample.world) evs t ∧
      Sample.deadEndWorker.step true (fun _ => false) Sample.ctx t = .error .overflow) ∧
    ∃ evs t, Run (Worker.Step false (fun _ => false) Sample.deadEndWorker Sample.ctx)
        (Loop.initial Sample.world) (.enter :: .polled 0 [0, 1] :: evs) t ∧ t.phase = .top ∧
      t.world.held 0 = 0 ∧ ∀ p, .returned p ∉ t.world.log := by
  refine ⟨rfl, rfl, rfl, Sample.deadEndWorker_disciplined, Sample.world_stocked, ?_, ?_⟩
  · obtain ⟨t, hrun, ht⟩ := Run.exists_of_iterate
      (Sample.deadEndWorker.step true (fun _ => false) Sample.ctx) 3 (Loop.initial Sample.world)
      [.enter, .polled 0 [0, 1], .pollEnd] Sample.underflows (by decide +kernel)
    refine ⟨_, t, hrun, ?_⟩
    unfold Sample.underflows at ht
    split at ht
    · assumption
    · cases ht
  · obtain ⟨t, hrun, ht⟩ := Run.exists_of_iterate
      (Sample.deadEndWorker.step false (fun _ => false) Sample.ctx) 6 (Loop.initial Sample.world)
      [.enter, .polled 0 [0, 1], .pollEnd, .called 1 1 (.ok ()), .called 1 0 (.ok ()), .drained]
      Sample.lost (by decide +kernel)
    obtain ⟨htop, hlost⟩ := (Bool.and_eq_true _ _).mp ht
    obtain ⟨hlog, hheld⟩ := of_decide_eq_true hlost
    exact ⟨_, t, hrun, Sample.phase_of_atTop htop, hheld, fun p => by simp [hlog]⟩

end OmniStack
