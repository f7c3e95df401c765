import OmniStack.Engine.Recursion
import OmniStack.Engine.Tasks
import OmniStack.Ownership

/-! The packet pool under the registered modules.

On a graph of the registered modules whose ends have one link each and whose other nodes have
one at least, every packet of the pool is in it with nothing referring to it, or it is out and
its count is exactly its tasks and its transmissions. This holds in every state of every run
(`pool_conserved`), so no packet is lost and none comes back while it is in use. With it the
engine itself never goes wrong: the queue holds out, every node is there and no count
underflows (`only_modules_fault`). What is assumed is what the packet library promises: it
hands out packets it has, and finishes each transmission once. -/
namespace OmniStack
open Lib Worker

/-! ### The law -/

/-- In the pool, with nothing referring to it; or out, and every reference is counted. -/
def Conserved (a : Account) : Prop :=
  (a.free = 1 ∧ a.refcnt = 1 ∧ a.tasks = 0 ∧ a.held = 0 ∧ a.kept = 0) ∨
    (a.free = 0 ∧ 1 ≤ a.refcnt ∧ a.tasks + a.held + a.kept = a.refcnt)

/-- Not a packet of the pool. -/
def Elsewhere (a : Account) : Prop := a.free = 0 ∧ a.tasks = 0 ∧ a.held = 0 ∧ a.kept = 0

theorem conserved_law : AccountLaw (· = 1) (1 ≤ ·) Conserved where
  hold := fun h => by simp only [Conserved] at h ⊢; omega
  unhold := fun _ h => by simp only [Conserved] at h ⊢; omega
  unkeep := fun _ h => by simp only [Conserved] at h ⊢; omega
  last := fun h _ => by simp only [Conserved] at h ⊢; omega
  shared := fun h _ => by
    simp only [Conserved] at h ⊢
    split <;> omega
  allocate := fun _ h => by simp only [Conserved] at h ⊢; omega
  handOver := fun {a k c} hk hc h => by
    subst hk
    simp only [Conserved] at h ⊢
    omega
  forward := fun hk hn h => by simp only [Conserved] at h ⊢; omega

theorem elsewhere_law : AccountLaw (· = 1) (1 ≤ ·) Elsewhere where
  hold := fun h => by simp only [Elsewhere] at h ⊢; omega
  unhold := fun _ h => by simp only [Elsewhere] at h ⊢; omega
  unkeep := fun _ h => by simp only [Elsewhere] at h ⊢; omega
  last := fun h _ => by simp only [Elsewhere] at h ⊢; omega
  shared := fun h _ => by simp only [Elsewhere] at h ⊢; omega
  allocate := fun _ h => by simp only [Elsewhere] at h ⊢; omega
  handOver := fun {a k c} hk hc h => by
    subst hk
    simp only [Elsewhere] at h ⊢
    omega
  forward := fun _ _ h => by simp only [Elsewhere] at h ⊢; omega

namespace Ledger
variable {polls forwards polls' forwards' : Nat → Prop} {P Q : (PacketId → Nat) → Books → Prop}

/-- A ledger for fewer polls and forwards. -/
theorem mono (h : Ledger polls forwards P) (hpolls : ∀ k, polls' k → polls k)
    (hforwards : ∀ k, forwards' k → forwards k) : Ledger polls' forwards' P where
  hold := h.hold
  unhold := h.unhold
  unkeep := h.unkeep
  deallocate := h.deallocate
  allocate := h.allocate
  handOver hk hkept hb := h.handOver (hpolls _ hk) hkept hb
  forward hk hn hb := h.forward (hforwards _ hk) hn hb

/-- Two ledgers kept at once. -/
theorem and (hP : Ledger polls forwards P) (hQ : Ledger polls forwards Q) :
    Ledger polls forwards fun T b => P T b ∧ Q T b where
  hold h := ⟨hP.hold h.1, hQ.hold h.2⟩
  unhold hheld h := ⟨hP.unhold hheld h.1, hQ.unhold hheld h.2⟩
  unkeep hkept h := ⟨hP.unkeep hkept h.1, hQ.unkeep hkept h.2⟩
  deallocate h := ⟨hP.deallocate h.1, hQ.deallocate h.2⟩
  allocate hfree h := ⟨hP.allocate hfree h.1, hQ.allocate hfree h.2⟩
  handOver hk hkept h := ⟨hP.handOver hk hkept h.1, hQ.handOver hk hkept h.2⟩
  forward hk hn h := ⟨hP.forward hk hn h.1, hQ.forward hk hn h.2⟩

end Ledger

/-- What is conserved of a pool with the packets `S`. -/
def Keeps (S : PacketId → Prop) (T : PacketId → Nat) (b : Books) : Prop :=
  ((∀ p, S p → Conserved (b.account T p)) ∧ ∀ p, ¬ S p → Elsewhere (b.account T p)) ∧ Owned T b

theorem keeps_ledger (S : PacketId → Prop) : Ledger (· = 1) (1 ≤ ·) (Keeps S) :=
  ((conserved_law.ledger_on S).and (elsewhere_law.ledger_on fun p => ¬ S p)).and
    (Owned.ledger.mono (fun _ hk => Nat.le_of_eq hk) fun _ _ => trivial)

theorem keeps_of_stocked {σ : Type} {w : World σ} (h : Stocked nothingKept w) :
    Keeps (fun p => w.free p = 1) (fun _ => 0) (w.books nothingKept) := by
  refine ⟨⟨fun p hp => ?_, fun p hp => ?_⟩, .of_stocked h⟩
  · have hin : w.free p = 1 := hp
    have hplace := h.place p
    have hheld := h.held p
    simp only [Conserved, Books.account, World.books, nothingKept, true_and, and_true]
    omega
  · have hout : w.free p ≠ 1 := hp
    have hplace := h.place p
    have hheld := h.held p
    simp only [Elsewhere, Books.account, World.books, nothingKept, true_and, and_true]
    omega

/-- Whatever is queued, the packets are placed. -/
theorem Keeps.pooled {σ : Type} {S : PacketId → Prop} {T : PacketId → Nat} {w : World σ}
    (h : Keeps S T (w.books nothingKept)) : w.Pooled :=
  (h.2.mono fun _ => Nat.zero_le _).place

/-! ### Piped graphs -/

/-- The ends have one link each, the other nodes have one at least. -/
structure GraphConfig.Piped (config : GraphConfig) : Prop where
  ends : ∀ n name, config.modules[n]? = some name → name ∈ endNames →
    (config.links.filterMap (Graph.target config.modules n)).length = 1
  others : ∀ n name, config.modules[n]? = some name → name ∉ endNames →
    1 ≤ (config.links.filterMap (Graph.target config.modules n)).length

section
variable {τ : Type} {sys : Sys (Instances τ)} {checks : Bool} {config : GraphConfig}
  {ctx : Context} {w : Worker (Instances τ)} {world₀ world : World (Instances τ)}
  {shouldStop : World (Instances τ) → Bool}

/-- Polls go over one link and calls over one at least. -/
theorem Registered.fits (h : Registered sys checks config ctx w world) (hsys : sys.Honours)
    (hcards : sys.FinishesHeld) (hpipes : config.Piped) {s t : Loop (Instances τ)} {ev : Event}
    (hstep : Step checks shouldStop (w.guarded World.Pooled) ctx s ev t) :
    Fits (· = 1) (1 ≤ ·) w ev := by
  cases step_turn hstep with
  | polled _ hnode hpoll =>
    obtain ⟨name, hname, hend⟩ := (h.guarded_burst hsys hcards hnode hpoll).1
    show (w.links _).length = 1
    rw [h.links_eq]
    exact hpipes.ends _ _ hname hend
  | forwarded _ _ _ hnode hcall =>
    have hfwd : (w.guarded World.Pooled).MayForward ctx _ := ⟨_, hnode, _, _, _, hcall⟩
    obtain ⟨name, hname, hend⟩ := h.forward_name (guarded_mayForward.mp hfwd)
    show 1 ≤ (w.links _).length
    rw [h.links_eq]
    exact hpipes.others _ _ hname hend
  | enter | leave | pollEnd | idle | pollFailed | drained | dropped | callFailed => trivial

namespace Launched

/-- The runs of the guarded worker keep what is conserved. -/
theorem guarded_balanced (h : Launched sys checks config ctx world₀ w world)
    (hsys : sys.Honours) (hcards : sys.FinishesHeld) (hpipes : config.Piped)
    (hstock : Stocked nothingKept world₀) {evs : List Event} {t : Loop (Instances τ)}
    (hrun : Run (Step checks shouldStop (w.guarded World.Pooled) ctx) (Loop.initial world) evs t) :
    Balanced nothingKept (Keeps fun p => world₀.free p = 1) t :=
  h.guarded_ledger (keeps_ledger _) hsys hcards (keeps_of_stocked hstock) hrun
    (hrun.labels fun _ _ _ hstep => h.registered.fits hsys hcards hpipes hstep)

theorem piped_pooled (h : Launched sys checks config ctx world₀ w world)
    (hsys : sys.Honours) (hcards : sys.FinishesHeld) (hpipes : config.Piped)
    (hstock : Stocked nothingKept world₀) {evs : List Event} {t : Loop (Instances τ)}
    (hrun : Run (Step checks shouldStop (w.guarded World.Pooled) ctx) (Loop.initial world) evs t) :
    t.world.Pooled := by
  obtain ⟨T, hT, _⟩ := h.guarded_balanced hsys hcards hpipes hstock hrun
  exact hT.pooled

end Launched

/-- No count underflows: whoever passes a packet on has a link. -/
theorem Registered.no_overflow (h : Registered sys checks config ctx w world)
    (hpipes : config.Piped) {b : Bool} (s : Loop (Instances τ)) :
    w.step b shouldStop ctx s ≠ .error .overflow := by
  intro hover
  obtain ⟨id, pkt, node, world', _, _, hnode, hcall, hnil⟩ := step_overflow hover
  obtain ⟨name, hname, hend⟩ := h.forward_name ⟨node, hnode, _, _, _, hcall⟩
  have hlinks := hpipes.others id name hname hend
  rw [← h.links_eq, Worker.links_eq hnode, hnil] at hlinks
  exact absurd hlinks (Nat.not_succ_le_zero 0)

end

/-! ### What is conserved -/

/-- Neither a poll nor a call fails. -/
def Event.Succeeds : Event → Prop
  | .failed _ _ => False
  | .called _ _ (.error e) => e = .dropped
  | _ => True

theorem Event.Succeeds.unfailed {ev : Event} (h : ev.Succeeds) : ev.Unfailed := by
  cases ev with
  | failed => exact h
  | enter | leave | idle | polled | pollEnd | called | drained => trivial

namespace Worker
variable {σ : Type} {polls forwards : Nat → Prop} {P : (PacketId → Nat) → Books → Prop}
  {kept : σ → PacketId → Nat} {ctx : Context} {w : Worker σ} {checks : Bool}
  {shouldStop : World σ → Bool}

/-- As long as nothing fails a ledger is one of exactly the tasks that are queued. -/
theorem step_exact (hP : Ledger polls forwards P) (hmods : AllDisciplined kept ctx w)
    {s t : Loop σ} {ev : Event} (h : Step checks shouldStop w ctx s ev t)
    (hfits : Fits polls forwards w ev) (hgood : ev.Succeeds)
    (hs : P (waiting s.queue.live) (s.world.books kept)) :
    P (waiting t.queue.live) (t.world.books kept) := by
  have hturn := step_turn h
  obtain ⟨T, hT, rfl | ⟨⟨res, hdone⟩, _⟩⟩ := turn_balanced hP hmods hturn hfits hs
  · exact hT
  · cases hturn with
    | leave _ _ hdestroy => exact destroy_ledger hP hmods hdestroy hs
    | callFailed _ _ _ _ _ hne => exact absurd hgood hne
    | pollFailed => cases hgood
    | enter | pollEnd | idle | polled | drained | forwarded | dropped => cases hdone

theorem run_exact (hP : Ledger polls forwards P) (hmods : AllDisciplined kept ctx w)
    {s t : Loop σ} {evs : List Event} (h : Run (Step checks shouldStop w ctx) s evs t)
    (hfits : ∀ ev ∈ evs, Fits polls forwards w ev) (hgood : ∀ ev ∈ evs, ev.Succeeds)
    (hs : P (waiting s.queue.live) (s.world.books kept)) :
    P (waiting t.queue.live) (t.world.books kept) :=
  h.invariant_of (P := fun s => P (waiting s.queue.live) (s.world.books kept))
    (C := fun ev => Fits polls forwards w ev ∧ ev.Succeeds)
    (fun _ _ _ hs' hev hst => step_exact hP hmods hst hev.1 hev.2 hs')
    (fun ev hev => ⟨hfits ev hev, hgood ev hev⟩) hs

end Worker

/-- Packet `p` is in the pool, with the count it was created with, and nothing refers to it. -/
structure Loop.Resting {σ : Type} (s : Loop σ) (p : PacketId) : Prop where
  free : s.world.free p = 1
  refcnt : (s.world.pkts p).refcnt = 1
  tasks : waiting s.queue.live p = 0
  held : s.world.held p = 0

/-- Packet `p` is out of the pool, and its count is its tasks and its transmissions. -/
structure Loop.InUse {σ : Type} (s : Loop σ) (p : PacketId) : Prop where
  free : s.world.free p = 0
  counted : 1 ≤ (s.world.pkts p).refcnt
  refs : waiting s.queue.live p + s.world.held p = (s.world.pkts p).refcnt

/-! ### On the UDP graph -/

theorem udpGraph_piped : udpGraph.Piped := by
  have hall : ∀ n < 8,
      (udpGraph.links.filterMap (Graph.target udpGraph.modules n)).length = 1 := by decide +kernel
  have hone {n : NodeId} {name : String} (hname : udpGraph.modules[n]? = some name) :=
    hall n (List.getElem?_eq_some_iff.mp hname).1
  exact ⟨fun _ _ hname _ => hone hname, fun _ _ hname _ => Nat.le_of_eq (hone hname).symm⟩

namespace Sample

theorem sendOne_succeeds : ∀ ev ∈ sendOne, ev.Succeeds := by
  simp [sendOne, Event.Succeeds]

end Sample

section
variable {τ : Type} {sys : Sys (Instances τ)} {checks : Bool} {config : GraphConfig}
  {ctx : Context} {w : Worker (Instances τ)} {world₀ world : World (Instances τ)}
  {shouldStop : World (Instances τ) → Bool}

namespace Launched

/-- **The pool is conserved.** On a piped graph of the registered modules, in every state that
is reached without a failure, a packet of the pool rests in it or is in use with its count
exact, a packet that is not of the pool is not touched, and two returns of a packet have an
allocation between them. When the loop goes round, what is in use is held by adapters alone. -/
theorem pool_conserved (h : Launched sys checks config ctx world₀ w world)
    (hsys : sys.Honours) (hcards : sys.FinishesHeld) (hpipes : config.Piped)
    (hstock : Stocked nothingKept world₀) {evs : List Event} {t : Loop (Instances τ)}
    (hrun : Run (Step checks shouldStop w ctx) (Loop.initial world) evs t)
    (hevs : ∀ ev ∈ evs, ev.Succeeds) :
    (∀ p, world₀.free p = 1 → t.Resting p ∨ t.InUse p) ∧
      (∀ p, world₀.free p = 0 →
        t.world.free p = 0 ∧ waiting t.queue.live p = 0 ∧ t.world.held p = 0) ∧
      (∀ p, Trace.Separated (.returned p) (.allocated p) t.world.log) ∧
      (t.phase = .top → ∀ p, t.InUse p → t.world.held p = (t.world.pkts p).refcnt) := by
  have hreg := h.registered
  have hguarded := run_guarded (C := fun _ => True)
    (fun _ _ hrun _ => h.piped_pooled hsys hcards hpipes hstock hrun) hrun
    (fun ev hev => (hevs ev hev).unfailed) fun _ _ => trivial
  have hbalanced : Balanced nothingKept (Keeps fun p => world₀.free p = 1) (Loop.initial world) :=
    @guarded_balanced _ _ _ _ _ _ _ _ shouldStop h hsys hcards hpipes hstock _ _ (.nil _)
  obtain ⟨T, hinit, hT⟩ := hbalanced
  have hexact : T = waiting (Loop.initial world).queue.live := by
    rcases hT with hT | ⟨⟨res, hdone⟩, _⟩
    · exact hT
    · cases hdone
  subst hexact
  obtain ⟨⟨hpool, helse⟩, howned⟩ := run_exact (keeps_ledger _) (hreg.disciplined hsys hcards)
    hguarded (hguarded.labels fun _ _ _ hstep =>
      guarded_fits.mpr (hreg.fits hsys hcards hpipes hstep)) hevs hinit
  refine ⟨fun p hp => ?_, fun p hp => ?_, howned.separated, fun htop p huse => ?_⟩
  · rcases hpool p hp with ⟨hfree, hrefcnt, htasks, hheld, _⟩ | ⟨hfree, hcounted, hrefs⟩
    · exact .inl ⟨hfree, hrefcnt, htasks, hheld⟩
    · exact .inr ⟨hfree, hcounted, hrefs⟩
  · have hout : ¬ world₀.free p = 1 := by omega
    obtain ⟨hfree, htasks, hheld, _⟩ := helse p hout
    exact ⟨hfree, htasks, hheld⟩
  · have hempty : t.queue.live = [] :=
      List.length_eq_zero_iff.mp ((ArrayStack.live_length _).trans (run_topEmpty hrun htop))
    have hrefs := huse.refs
    rw [hempty] at hrefs
    exact (Nat.zero_add _).symm.trans hrefs

theorem pool_conserved_sample : ∃ w world t,
    Launched Sample.fairCard true udpGraph Sample.ctx Sample.udpWorld w world ∧
      Run (Step true (fun _ => false) w Sample.ctx) (Loop.initial world) Sample.sendOne t ∧
      t.world.held 31 = 1 ∧ (∀ p, t.Resting p ∨ t.InUse p) ∧
      ∀ p, Trace.Separated (.returned p) (.allocated p) t.world.log := by
  obtain ⟨w, world, t, hunder, hrun, hseen⟩ := Sample.launch_run Sample.fairCard_sends
  have hlaunched := hunder.launched
  obtain ⟨hpool, _, hseparated, _⟩ := pool_conserved hlaunched Sample.fairCard_honours
    Sample.fairCard_finishes udpGraph_piped Sample.udpWorld_stocked hrun Sample.sendOne_succeeds
  exact ⟨w, world, t, hlaunched, hrun, congrArg Prod.snd hseen, fun p => hpool p rfl, hseparated⟩

/-- The queue holds out. -/
theorem never_overruns (h : Launched sys checks config ctx world₀ w world)
    (hsys : sys.Honours) (hcards : sys.FinishesHeld) (hpipes : config.Piped)
    (hcycles : w.CyclesBroken ctx) (hstock : Stocked nothingKept world₀) :
    NeverOverruns checks shouldStop w ctx (Loop.initial world) := by
  intro evs t hrun hover
  have hreg := h.registered
  rcases fault_guarded (C := fun _ => True)
      (fun _ _ hrun _ => h.piped_pooled hsys hcards hpipes hstock hrun) hrun (fun _ _ => trivial)
      hover with hreturned | ⟨hguarded, hover⟩
  · cases hreturned
  · have hbursts := hreg.guarded_bursts hsys hcards
    have hround : (w.guarded World.Pooled).RoundFits ctx 64 := (hreg.round_fits hcycles).guarded
    exact roomy_no_overrun hbursts (by decide) hround
      (run_roomy hbursts (by decide) hround hguarded) hover

/-- **Only modules go wrong.** On a piped graph of the registered modules whose cycles are
broken, what stops a run that has not returned is a fault inside a module: the engine never
writes beyond its queue, follows a null pointer, looks up a node that is not there or takes a
count below zero. -/
theorem only_modules_fault (h : Launched sys checks config ctx world₀ w world)
    (hsys : sys.Honours) (hcards : sys.FinishesHeld) (hpipes : config.Piped)
    (hcycles : w.CyclesBroken ctx) (hstock : Stocked nothingKept world₀) {evs : List Event}
    {t : Loop (Instances τ)} (hrun : Run (Step checks shouldStop w ctx) (Loop.initial world) evs t)
    {f : EngineFault} (hfault : w.step checks shouldStop ctx t = .error f) :
    f = .returned ∨ ∃ g, f = .inModule g := by
  obtain ⟨_, _, _, _, _, g, w₀, hgraph, hnew, hstart⟩ := h.started
  have hsound : Sound w t := hrun.invariant
    (fun _ _ _ hs hst => step_sound (start_resolved hgraph hnew hstart) hs hst)
    (initial_sound world)
  have hhits := step_hits hsound hfault
  cases f with
  | queueOverrun =>
    exact absurd hfault (h.never_overruns hsys hcards hpipes hcycles hstock evs t hrun)
  | badNode => exact absurd trivial hhits
  | nullPacket => exact absurd trivial hhits
  | overflow => exact absurd hfault (h.registered.no_overflow hpipes t)
  | inModule g => exact .inr ⟨g, rfl⟩
  | returned => exact .inl rfl

theorem only_modules_fault_sample : ∃ w world t,
    Launched Sample.fairCard true udpGraph Sample.ctx Sample.udpWorld w world ∧
      Run (Step true (fun _ => false) w Sample.ctx) (Loop.initial world) Sample.sendOne t ∧
      ∀ f, w.step true (fun _ => false) Sample.ctx t = .error f →
        f = .returned ∨ ∃ g, f = .inModule g := by
  obtain ⟨w, world, t, hunder, hrun, _⟩ := Sample.launch_run Sample.fairCard_sends
  have hlaunched := hunder.launched
  exact ⟨w, world, t, hlaunched, hrun, fun _ hfault =>
    only_modules_fault hlaunched Sample.fairCard_honours Sample.fairCard_finishes udpGraph_piped
      hlaunched.registered.udp_cycles_broken Sample.udpWorld_stocked hrun hfault⟩

end Launched
end
end OmniStack
