import OmniStack.Engine.Books
import OmniStack.Engine.QueueBound

/-! Modules that are only used well.

What the engine asks of its modules it asks of every world, but a real module can only promise
it of the worlds that come up: a poll chains the packets the pool gives it, and a pool that
holds a packet twice gives a chain that never ends. `Module.guarded` is the module as far as
it is called on `safe` worlds and its polls do not fail. A worker of guarded modules does what
the worker does (`step_guarded`), so when its runs stay on safe worlds the worker's runs are
its runs (`run_guarded`), and everything proved of every worker holds of this one. -/
namespace OmniStack
open Lib
variable {σ : Type}

open Classical in
/-- A poll outside the safe worlds is a fault here, and so is one that fails. -/
noncomputable def Module.guarded (safe : World σ → Prop) (m : Module σ) : Module σ where
  init := m.init
  process := m.process
  poll := fun ctx w =>
    if safe w ∧ ∀ e w', m.poll ctx w = .ok (.error e, w') → e = .nop then m.poll ctx w
    else .error .panic
  capability := m.capability
  destroy := m.destroy

theorem Module.guarded_poll {safe : World σ → Prop} {m : Module σ} {ctx : Context}
    {w w' : World σ} {res : Result PacketId}
    (h : (m.guarded safe).poll ctx w = .ok (res, w')) :
    safe w ∧ m.poll ctx w = .ok (res, w') ∧ ∀ e, res = .error e → e = .nop := by
  simp only [guarded] at h
  split at h
  · rename_i hgood
    refine ⟨hgood.1, h, fun e he => hgood.2 e w' ?_⟩
    rw [← he]
    exact h
  · cases h

/-- Anything but the poll that fails the run. -/
def Event.Unfailed : Event → Prop
  | .failed _ _ => False
  | _ => True

noncomputable def Node.guarded (safe : World σ → Prop) (node : Node σ) : Node σ :=
  {node with module := node.module.guarded safe}

namespace Worker

/-- The worker of the guarded modules. -/
noncomputable def guarded (safe : World σ → Prop) (w : Worker σ) : Worker σ :=
  {w with nodes := w.nodes.map (Node.guarded safe)}

variable {safe : World σ → Prop} {w : Worker σ} {ctx : Context} {checks : Bool}
  {shouldStop : World σ → Bool}

theorem guarded_node (n : NodeId) :
    (w.guarded safe).nodes.items[n]? = (w.nodes.items[n]?).map (Node.guarded safe) :=
  List.getElem?_map

/-! ### The same graph -/

@[simp] theorem guarded_links (n : NodeId) : (w.guarded safe).links n = w.links n := by
  simp only [links, Graph.linksOf, guarded_node]
  cases w.nodes.items[n]? <;> rfl

theorem guarded_fits {polls forwards : Nat → Prop} {ev : Event} :
    Fits polls forwards (w.guarded safe) ev ↔ Fits polls forwards w ev := by
  unfold Fits
  simp only [guarded_links]

@[simp] theorem guarded_mayForward {n : NodeId} :
    (w.guarded safe).MayForward ctx n ↔ w.MayForward ctx n := by
  simp only [MayForward, guarded_node, Option.map_eq_some_iff]
  constructor
  · rintro ⟨_, ⟨node, hnode, rfl⟩, hforwards⟩
    exact ⟨node, hnode, hforwards⟩
  · rintro ⟨node, hnode, hforwards⟩
    exact ⟨_, ⟨node, hnode, rfl⟩, hforwards⟩

theorem Climb.of_guarded {n : NodeId} {c : Nat} (h : (w.guarded safe).Climb ctx n c) :
    w.Climb ctx n c := by
  induction h with
  | here n => exact .here n
  | link hfwd hlink _ ih =>
    rw [guarded_links] at hlink
    exact .link (guarded_mayForward.mp hfwd) hlink ih

theorem RoundFits.guarded {k : Nat} (h : w.RoundFits ctx k) :
    (w.guarded safe).RoundFits ctx k := by
  intro before n after i m c hpolls hlink hclimb
  have hfan : (w.guarded safe).fanOut before = w.fanOut before := by
    simp only [fanOut, guarded_links]
  rw [guarded_links] at hlink
  rw [hfan]
  exact h before n after i m c hpolls hlink hclimb.of_guarded

/-! ### The same runs -/

theorem guarded_destroy (nodes : List (Node σ)) (world : World σ) :
    destroyNodes ctx (nodes.map (Node.guarded safe)) world = destroyNodes ctx nodes world := by
  induction nodes generalizing world with
  | nil => rfl
  | cons node rest ih =>
    simp only [List.map_cons, destroyNodes, ih]
    rfl

theorem guarded_init (nodes : List (Node σ)) (id : NodeId) (toPoll : ArrayVec NodeId 8)
    (world : World σ) :
    initNodes ctx (nodes.map (Node.guarded safe)) id toPoll world =
      initNodes ctx nodes id toPoll world := by
  induction nodes generalizing id toPoll world with
  | nil => rfl
  | cons node rest ih =>
    simp only [List.map_cons, initNodes, ih]
    rfl

/-- A worker starts as its guarded one does. -/
theorem start_guarded {w₀ : Worker σ} {world₀ world : World σ}
    (h : w₀.start ctx world₀ = .ok (.ok w, world)) :
    (w₀.guarded safe).start ctx world₀ = .ok (.ok (w.guarded safe), world) := by
  simp only [start, Exec.bind_eq_ok] at h ⊢
  obtain ⟨⟨res, mid⟩, hinit, h⟩ := h
  refine ⟨(res, mid), (guarded_init _ _ _ _).trans hinit, ?_⟩
  cases res with
  | error e => cases h
  | ok toPoll =>
    cases h
    rfl

theorem guarded_getNode (id : NodeId) :
    (w.guarded safe).getNode id = (w.getNode id).map (Node.guarded safe) := by
  unfold getNode
  rw [guarded_node]
  cases w.nodes.items[id]? <;> rfl

/-- On a safe world the guarded node is polled with the same outcome, unless the poll fails. -/
theorem pollNode_guarded (w : Worker σ) (ctx : Context) (id : NodeId) (rest : List NodeId)
    {s : Loop σ} (hsafe : safe s.world) :
    (w.guarded safe).pollNode ctx id rest s = w.pollNode ctx id rest s ∨
      ∃ e t, w.pollNode ctx id rest s = .ok (.failed id e, t) := by
  simp only [pollNode, guarded_getNode]
  cases w.getNode id with
  | error f => exact .inl rfl
  | ok node =>
    by_cases hgood : ∀ e w', node.module.poll ctx s.world = .ok (.error e, w') → e = .nop
    · refine .inl ?_
      have hpoll : (node.module.guarded safe).poll ctx s.world = node.module.poll ctx s.world :=
        if_pos ⟨hsafe, hgood⟩
      simp only [Except.map, Exec.ok_bind, Node.guarded, hpoll]
    · push Not at hgood
      obtain ⟨e, world, hpoll, hne⟩ := hgood
      refine .inr ⟨e, {s with phase := .done (.error e), world}, ?_⟩
      simp only [Exec.ok_bind, hpoll, callModule]
      cases e <;> first | exact absurd rfl hne | rfl

theorem drainTask_guarded (s : Loop σ) :
    (w.guarded safe).drainTask checks ctx s = w.drainTask checks ctx s := by
  simp only [drainTask]
  cases s.queue.pop.1.data with
  | none => rfl
  | some pkt =>
    simp only [guarded_getNode]
    cases w.getNode s.queue.pop.1.nodeId <;> rfl

/-- **A guarded worker does what the worker does**, on safe worlds, up to the poll that fails. -/
theorem step_guarded (checks : Bool) (shouldStop : World σ → Bool) (w : Worker σ) (ctx : Context)
    {s : Loop σ} (hsafe : safe s.world) :
    (w.guarded safe).step checks shouldStop ctx s = w.step checks shouldStop ctx s ∨
      ∃ n e t, w.step checks shouldStop ctx s = .ok (.failed n e, t) := by
  simp only [step]
  cases s.phase with
  | top =>
    refine .inl ?_
    simp only [guarded, ArrayVec.map_items, guarded_destroy w.nodes.items s.world]
  | poll ids =>
    cases ids with
    | nil => exact .inl rfl
    | cons id rest =>
      rcases pollNode_guarded w ctx id rest hsafe with hsame | ⟨e, t, hfailed⟩
      · exact .inl hsame
      · exact .inr ⟨id, e, t, hfailed⟩
  | drain =>
    refine .inl ?_
    simp only [drainTask_guarded]
  | done res => exact .inl rfl

/-- **The runs of the guarded worker are the worker's**, up to the poll that fails, as long as
runs whose events satisfy `C` stay on safe worlds. -/
theorem run_guarded {C : Event → Prop} {s t : Loop σ} {evs : List Event}
    (hsafe : ∀ evs t, Run (Step checks shouldStop (w.guarded safe) ctx) s evs t →
      (∀ ev ∈ evs, C ev) → safe t.world)
    (hrun : Run (Step checks shouldStop w ctx) s evs t) (hevs : ∀ ev ∈ evs, ev.Unfailed)
    (hC : ∀ ev ∈ evs, C ev) : Run (Step checks shouldStop (w.guarded safe) ctx) s evs t := by
  refine (hrun.history (P := fun evs t =>
    Run (Step checks shouldStop (w.guarded safe) ctx) s evs t ∧ ∀ ev ∈ evs, C ev)
    (C := fun ev => ev.Unfailed ∧ C ev) (fun done u ev v hdone hev hstep => ?_)
    (fun ev hev => ⟨hevs ev hev, hC ev hev⟩) ⟨.nil s, fun _ h => (nomatch h)⟩).1
  obtain ⟨hguarded, hdone⟩ := hdone
  have hall : ∀ ev' ∈ done ++ [ev], C ev' := by
    intro ev' hev'
    rcases List.mem_append.mp hev' with hold | hnew
    · exact hdone ev' hold
    · exact List.mem_singleton.mp hnew ▸ hev.2
  refine ⟨hguarded.snoc ?_, hall⟩
  rcases step_guarded checks shouldStop w ctx (hsafe done u hguarded hdone) with
    hsame | ⟨n, e, t, hfailed⟩
  · exact hsame.trans hstep
  · have heq := Except.ok.inj (hfailed.symm.trans hstep)
    obtain rfl := (congrArg Prod.fst heq).symm
    cases hev.1

/-- A poll that fails ends the run. -/
theorem run_failed {s t : Loop σ} {evs : List Event}
    (hrun : Run (Step checks shouldStop w ctx) s evs t) :
    (∀ ev ∈ evs, ev.Unfailed) ∨ ∃ res, t.phase = .done res := by
  refine hrun.history (P := fun evs t => (∀ ev ∈ evs, ev.Unfailed) ∨ ∃ res, t.phase = .done res)
    (C := fun _ => True) (fun done u ev v hdone _ hstep => ?_) (fun _ _ => trivial) (.inl (by simp))
  rcases hdone with hdone | ⟨res, hphase⟩
  · by_cases hev : ev.Unfailed
    · refine .inl fun ev' hev' => ?_
      rcases List.mem_append.mp hev' with hold | hnew
      · exact hdone ev' hold
      · rwa [List.mem_singleton.mp hnew]
    · right
      cases step_turn hstep with
      | pollFailed => exact ⟨_, rfl⟩
      | enter | leave | pollEnd | idle | polled | drained | forwarded | dropped | callFailed =>
        exact absurd trivial hev
  · simp only [Step, step, hphase] at hstep
    cases hstep

/-- What goes wrong in a run goes wrong in the guarded worker's. -/
theorem fault_guarded {C : Event → Prop} {s t : Loop σ} {evs : List Event} {f : EngineFault}
    (hsafe : ∀ evs t, Run (Step checks shouldStop (w.guarded safe) ctx) s evs t →
      (∀ ev ∈ evs, C ev) → safe t.world)
    (hrun : Run (Step checks shouldStop w ctx) s evs t) (hC : ∀ ev ∈ evs, C ev)
    (hfault : w.step checks shouldStop ctx t = .error f) :
    f = .returned ∨ Run (Step checks shouldStop (w.guarded safe) ctx) s evs t ∧
      (w.guarded safe).step checks shouldStop ctx t = .error f := by
  rcases run_failed hrun with hevs | ⟨res, hphase⟩
  · have hguarded := run_guarded hsafe hrun hevs hC
    rcases step_guarded checks shouldStop w ctx (hsafe evs t hguarded hC) with
      hsame | ⟨n, e, u, hfailed⟩
    · exact .inr ⟨hguarded, hsame.trans hfault⟩
    · cases hfailed.symm.trans hfault
  · simp only [step, hphase, Except.error.injEq] at hfault
    exact .inl hfault.symm

end Worker
end OmniStack
