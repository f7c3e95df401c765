import OmniStack.Engine.Forwarding
import OmniStack.Modules.Eth

/-! The branches of a fan-out.

A node that returns `Ok` puts its packet on the queue once for every link, and all these
tasks are the same packet. The drain loop takes them last link first, each with the whole
branch behind it, so a successor sees the packet as the branches of the later links have
left it: as the node left it for the last link, and for the others if those branches put
back what they change. -/
namespace OmniStack
open Lib

/-- What a module's `process` sees of its packet. -/
structure View where
  offset : UInt16
  len : UInt16
  l2Header : Header
  l3Header : Header
  l4Header : Header
  nic : UInt16
  window : List UInt8
  deriving DecidableEq

def World.view {σ : Type} (w : World σ) (p : PacketId) : View where
  offset := (w.pkts p).offset
  len := (w.pkts p).len
  l2Header := (w.pkts p).l2Header
  l3Header := (w.pkts p).l3Header
  l4Header := (w.pkts p).l4Header
  nic := (w.pkts p).nic
  window := (w.pkts p).window (w.bytes p)

/-- Counting references changes nothing a module sees. -/
theorem World.view_refcnt {σ : Type} (w : World σ) (p : PacketId) (refcnt : Nat) :
    (w.setPkt p {w.pkts p with refcnt}).view p = w.view p := by
  have hbytes : (w.setPkt p {w.pkts p with refcnt}).bytes p = w.bytes p := World.setPkt_bytes w rfl
  simp only [view, hbytes, World.setPkt_pkts_same]
  rfl

namespace Worker
variable {σ : Type} {checks : Bool} {shouldStop : World σ → Bool} {w : Worker σ} {ctx : Context}

/-- In the drain loop, while tasks are left, a step is a call. -/
theorem drain_step {s t : Loop σ} {ev : Event} (hphase : s.phase = .drain)
    (hindex : s.queue.index ≠ 0) (h : Step checks shouldStop w ctx s ev t) :
    ∃ id pkt res, ev = .called id pkt res ∧ s.queue.pop.1 = ⟨id, some pkt⟩ ∧
      (t.phase = .drain ∨ ∃ res, t.phase = .done res) := by
  cases step_turn h with
  | enter hother | leave hother | pollEnd hother | idle hother | polled hother
  | pollFailed hother =>
    rw [hphase] at hother
    cases hother
  | drained _ hempty => exact absurd hempty hindex
  | forwarded _ _ htask | dropped _ _ htask => exact ⟨_, _, _, rfl, htask, .inl rfl⟩
  | callFailed _ _ htask => exact ⟨_, _, _, rfl, htask, .inr ⟨_, rfl⟩⟩

/-- A run that has returned goes no further. -/
theorem done_stuck {s t : Loop σ} {ev : Event} {res : Result Unit} (hphase : s.phase = .done res)
    (h : Step checks shouldStop w ctx s ev t) : False := by
  simp only [Step, step, hphase] at h
  cases h

theorem moveOf_popped_le (w : Worker σ) (ev : Event) : (w.moveOf ev).popped.length ≤ 1 := by
  cases ev with
  | called n p res => cases res <;> exact Nat.le_refl 1
  | _ => exact Nat.zero_le 1

/-- Every task of a branch is on the packet it began with, and so is every call. -/
theorem branch_calls {pkt : PacketId} {tasks rest : List Task} {evs : List Event}
    (h : Run Move.Step tasks (evs.map w.moveOf) rest)
    (htasks : ∀ task ∈ tasks, task.data = some pkt)
    (hcalls : ∀ ev ∈ evs, ∃ id p res, ev = .called id p res) :
    ∀ ev ∈ evs, ∃ id res, ev = .called id pkt res := by
  induction evs generalizing tasks with
  | nil => simp
  | cons ev evs ih =>
    obtain ⟨⟨id, p, res, rfl⟩, hothers⟩ := List.forall_mem_cons.mp hcalls
    cases h with
    | cons hstep hrest =>
      obtain ⟨below, rfl, rfl⟩ := hstep
      have hp : p = pkt := by
        have := htasks ⟨id, some p⟩ (by cases res <;> simp [moveOf])
        exact Option.some.inj this
      subst hp
      refine List.forall_mem_cons.mpr ⟨⟨id, res, rfl⟩, ih hrest (fun task htask => ?_) hothers⟩
      rcases List.mem_append.mp htask with hmem | hmem
      · exact htasks task (List.mem_append_left _ hmem)
      · cases res with
        | ok u =>
          simp only [moveOf, List.mem_map] at hmem
          obtain ⟨_, _, rfl⟩ := hmem
          rfl
        | error e => simp [moveOf] at hmem

/-! ### The calls of a fan-out -/

/-- Node `n` returned `Ok` on the packet and left the world `left`, and the run from there
has come down to the task of its link `i`, to node `m`. -/
structure FanOut (checks : Bool) (shouldStop : World σ → Bool) (w : Worker σ) (ctx : Context)
    (n : NodeId) (pkt : PacketId) (left : World σ) (i : Nat) (m : NodeId) (s s₁ t : Loop σ)
    (evs : List Event) : Prop where
  returned : ∃ node, w.nodes.items[n]? = some node ∧
    node.module.process ctx pkt s.world = .ok (.ok (), left)
  forked : Step checks shouldStop w ctx s (.called n pkt (.ok ())) s₁
  link : (w.links n)[i]? = some m
  run : Run (Step checks shouldStop w ctx) s₁ evs t
  down : t.queue.index ≤ s.queue.index + i

/-- The tasks of some of a node's links. -/
def tasksOn (pkt : PacketId) (links : List NodeId) : List Task := links.map fun m => ⟨m, some pkt⟩

/-- The call on link `i` is made in `u`, after the events `before`: these are the calls of
the later links' branches and no others. -/
structure CalledIn (checks : Bool) (shouldStop : World σ → Bool) (w : Worker σ) (ctx : Context)
    (n : NodeId) (pkt : PacketId) (i : Nat) (m : NodeId) (s₁ t : Loop σ) (evs before : List Event)
    (u : Loop σ) : Prop where
  run : Run (Step checks shouldStop w ctx) s₁ before u
  rest : ∃ after, evs = before ++ after ∧ Run (Step checks shouldStop w ctx) u after t
  next : ∀ ev v, Step checks shouldStop w ctx u ev v → ∃ res, ev = .called m pkt res
  calls : ∀ ev ∈ before, ∃ id res, ev = .called id pkt res
  branches : Run Move.Step (tasksOn pkt ((w.links n).drop (i + 1))) (before.map w.moveOf) []

/-- Every event of the run leaves what is seen of the packet as it found it. -/
def Undisturbed (checks : Bool) (shouldStop : World σ → Bool) (w : Worker σ) (ctx : Context)
    (pkt : PacketId) (s : Loop σ) (evs : List Event) (t : Loop σ) : Prop :=
  Run (fun a ev b => Step checks shouldStop w ctx a ev b ∧ b.world.view pkt = a.world.view pkt)
    s evs t

theorem Undisturbed.view_eq {pkt : PacketId} {s t : Loop σ} {evs : List Event}
    (h : Undisturbed checks shouldStop w ctx pkt s evs t) : t.world.view pkt = s.world.view pkt :=
  h.invariant (P := fun v => v.world.view pkt = s.world.view pkt)
    (fun _ _ _ hs hstep => hstep.2.trans hs) rfl

section
variable {n m : NodeId} {pkt : PacketId} {left : World σ} {i : Nat} {s s₁ t : Loop σ}
  {evs : List Event}

/-- What the fan-out leaves on the queue and of the packet. -/
theorem FanOut.forked_spec (h : FanOut checks shouldStop w ctx n pkt left i m s s₁ t evs) :
    s₁.phase = .drain ∧ s.queue.index ≠ 0 ∧
      s₁.queue.live = s.queue.pop.2.live ++ tasksOn pkt (w.links n) ∧
      s₁.world.view pkt = left.view pkt := by
  obtain ⟨node, hnode, hleft⟩ := h.returned
  cases step_turn h.forked with
  | forwarded _ hindex _ hnode' hcall _ hpush =>
    obtain rfl := Option.some.inj (hnode.symm.trans hnode')
    rw [hleft] at hcall
    obtain rfl : left = _ := by simpa using hcall
    refine ⟨rfl, hindex, ?_, World.view_refcnt _ _ _⟩
    rw [ArrayStack.pushAll_live hpush, tasksOn, links_eq hnode]

/-- Between calls of the drain loop the run drains or has returned. -/
theorem drain_run {base : List Task} {u : Loop σ} {before : List Event}
    (hphase : s₁.phase = .drain)
    (h : Run (fun a ev b => Step checks shouldStop w ctx a ev b ∧
      base.length < a.queue.live.length) s₁ before u) :
    (u.phase = .drain ∨ ∃ res, u.phase = .done res) ∧
      ∀ ev ∈ before, ∃ id p res, ev = .called id p res := by
  have hstep (a : Loop σ) (ev : Event) (b : Loop σ)
      (ha : a.phase = .drain ∨ ∃ res, a.phase = .done res)
      (hab : Step checks shouldStop w ctx a ev b ∧ base.length < a.queue.live.length) :
      (b.phase = .drain ∨ ∃ res, b.phase = .done res) ∧ ∃ id p res, ev = .called id p res := by
    rcases ha with ha | ⟨res, ha⟩
    · have hindex : a.queue.index ≠ 0 := by
        have := hab.2
        rw [ArrayStack.live_length] at this
        omega
      obtain ⟨id, p, res, hev, _, hb⟩ := drain_step ha hindex hab.1
      exact ⟨hb, id, p, res, hev⟩
    · exact (done_stuck ha hab.1).elim
  exact h.history (P := fun ls v => (v.phase = .drain ∨ ∃ res, v.phase = .done res) ∧
      ∀ ev ∈ ls, ∃ id p res, ev = .called id p res) (C := fun _ => True)
    (fun ls a ev b ha _ hab => by
      obtain ⟨hb, hev⟩ := hstep a ev b ha.1 hab
      refine ⟨hb, fun ev' hev' => ?_⟩
      rcases List.mem_append.mp hev' with hmem | hmem
      · exact ha.2 ev' hmem
      · exact (List.mem_singleton.mp hmem) ▸ hev)
    (fun _ _ => trivial) ⟨.inl hphase, by simp⟩

/-- The call on a link comes after the whole branches of the later links, and nothing else. -/
theorem FanOut.calledIn (h : FanOut checks shouldStop w ctx n pkt left i m s s₁ t evs) :
    ∃ before u, CalledIn checks shouldStop w ctx n pkt i m s₁ t evs before u ∧
      (i + 1 = (w.links n).length → u = s₁) := by
  obtain ⟨hphase, hindex, hlive, _⟩ := h.forked_spec
  obtain ⟨hi, hm⟩ := List.getElem?_eq_some_iff.mp h.link
  have hbelow : s.queue.pop.2.live.length + 1 = s.queue.index := by
    rw [ArrayStack.live_length]
    exact Nat.succ_pred_eq_of_ne_zero hindex
  -- the tasks of the links up to `i`, and those above them
  have hsplit : s₁.queue.live = (s.queue.pop.2.live ++ tasksOn pkt ((w.links n).take (i + 1))) ++
      tasksOn pkt ((w.links n).drop (i + 1)) := by
    rw [hlive, List.append_assoc, tasksOn, tasksOn, tasksOn, ← List.map_append,
      List.take_append_drop]
  have hbase : (s.queue.pop.2.live ++ tasksOn pkt ((w.links n).take (i + 1))).length =
      s.queue.index + i := by
    rw [List.length_append, tasksOn, List.length_map, List.length_take]
    omega
  obtain ⟨before, after, u, hevs, hbefore, hafter, hu, hdone⟩ :=
    Move.run_through (fun s : Loop σ => s.queue.live) w.moveOf
      (fun _ _ _ hst => turn_move (step_turn hst)) (moveOf_popped_le w) h.run hsplit
      (by rw [hbase, ArrayStack.live_length]; exact h.down)
  obtain ⟨huphase, hcalls⟩ := drain_run hphase hbefore
  have hpkt := branch_calls hdone (fun task htask => by
    obtain ⟨_, _, rfl⟩ := List.mem_map.mp htask
    rfl) hcalls
  have hheight : u.queue.index = s.queue.index + i := by
    rw [← ArrayStack.live_length, hu, hbase]
  have hnext (ev : Event) (v : Loop σ) (hst : Step checks shouldStop w ctx u ev v) :
      ∃ res, ev = .called m pkt res := by
    rcases huphase with hdrain | ⟨res, hreturned⟩
    · obtain ⟨id, p, res, rfl, htop, _⟩ := drain_step hdrain (by omega) hst
      have hlast : u.queue.live = _ := ArrayStack.pop_live (by omega)
      rw [hu, htop, List.take_succ_eq_append_getElem hi, tasksOn, List.map_append,
        ← List.append_assoc] at hlast
      have htask := (List.append_inj' hlast rfl).2
      simp only [List.map_cons, List.map_nil, List.cons.injEq, Task.mk.injEq, Option.some.injEq,
        and_true] at htask
      obtain ⟨hid, rfl⟩ := htask
      exact ⟨res, by rw [← hm, hid]⟩
    · exact (done_stuck hreturned hst).elim
  refine ⟨before, u, ⟨hbefore.mono fun _ _ _ hst => hst.1, ⟨after, hevs, hafter⟩, hnext, hpkt,
    hdone⟩, fun hlast => ?_⟩
  cases hbefore with
  | nil => rfl
  | cons hst _ =>
    have hhigher := hst.2
    rw [hlive, hbase, List.length_append, tasksOn, List.length_map] at hhigher
    omega

/-- **The branches run in turn.** The successor on the last link sees the packet as the node
left it; any other is called once the later links' branches are through, and sees it so
if their calls leave what is seen of the packet as they find it. Two fan-outs in which
they do show a common successor the same, whatever the order of the links. -/
theorem branches_in_turn {w' : Worker σ} {left' : World σ} {i' : Nat} {s' s₁' t' : Loop σ}
    {evs' : List Event} (h : FanOut checks shouldStop w ctx n pkt left i m s s₁ t evs)
    (h' : FanOut checks shouldStop w' ctx n pkt left' i' m s' s₁' t' evs')
    (hsame : left.view pkt = left'.view pkt) :
    ∃ before u before' u',
      CalledIn checks shouldStop w ctx n pkt i m s₁ t evs before u ∧
      CalledIn checks shouldStop w' ctx n pkt i' m s₁' t' evs' before' u' ∧
      (i + 1 = (w.links n).length → u.world.view pkt = left.view pkt) ∧
      (Undisturbed checks shouldStop w ctx pkt s₁ before u →
        u.world.view pkt = left.view pkt) ∧
      (Undisturbed checks shouldStop w ctx pkt s₁ before u →
        Undisturbed checks shouldStop w' ctx pkt s₁' before' u' →
        u.world.view pkt = u'.world.view pkt) := by
  obtain ⟨before, u, hcalled, hlast⟩ := h.calledIn
  obtain ⟨before', u', hcalled', _⟩ := h'.calledIn
  have hleft := h.forked_spec.2.2.2
  have hleft' := h'.forked_spec.2.2.2
  refine ⟨before, u, before', u', hcalled, hcalled', fun hi => ?_, fun hquiet => ?_,
    fun hquiet hquiet' => ?_⟩
  · rw [hlast hi, hleft]
  · rw [hquiet.view_eq, hleft]
  · rw [hquiet.view_eq, hquiet'.view_eq, hleft, hleft', hsame]

end

end Worker

/-! ### A receiver and a sink behind one node -/

namespace Sample

/-- The relay's links, in this order, are to an Ethernet receiver and to a sink. -/
def splitWorker (links : List NodeId) : Worker Unit where
  nodes := ⟨[⟨source 0 [], .ofTake [1]⟩, ⟨relay, .ofTake links⟩,
    ⟨EthReceiver.module true, .empty⟩, ⟨sink, .empty⟩], (by decide : 4 ≤ 32)⟩
  nodesToPoll := .ofTake [0]
  id := 0
  graphId := 0
  cpu := 0
  stackName := "split"

/-- The fan-out and `n` calls more: the events, the heights of the queue before and after, and what
is seen of the packet before, between and after. -/
def splitRun (links : List NodeId) (n : Nat) :
    Except EngineFault (List Event × Nat × Nat × View × View × View) := do
  let step := (splitWorker links).step true (fun _ => false) ctx
  let (_, s) ← Run.iterate step 3 (Loop.initial world)
  let (ev, s₁) ← step s
  let (evs, t) ← Run.iterate step n s₁
  return (ev :: evs, s.queue.index, t.queue.index, s.world.view 0, s₁.world.view 0,
    t.world.view 0)

/-- The sink is called before the receiver, or after it. -/
theorem splitRun_eq : ∃ seen,
    splitRun [2, 3] 1 =
      .ok ([.called 1 0 (.ok ()), .called 3 0 (.error .dropped)], 1, 1, seen, seen, seen) ∧
    splitRun [3, 2] 0 = .ok ([.called 1 0 (.ok ())], 1, 2, seen, seen, seen) :=
  ⟨_, rfl, rfl⟩

/-- The fan-out of such a run, as far as the receiver's call. -/
theorem splitRun_fanOut {links : List NodeId} {i n top : Nat} {evs : List Event} {seen : View}
    (h : splitRun links n = .ok (.called 1 0 (.ok ()) :: evs, 1, top, seen, seen, seen))
    (hlink : ((splitWorker links).links 1)[i]? = some 2) (htop : top ≤ 1 + i) : ∃ s s₁ t,
    Worker.FanOut true (fun _ => false) (splitWorker links) ctx 1 0 s.world i 2 s s₁ t evs ∧
      s.world.view 0 = seen ∧ s₁.world.view 0 = seen ∧ t.world.view 0 = seen := by
  simp only [splitRun, Exec.bind_eq_ok, Exec.pure_eq_ok, Prod.exists, Prod.mk.injEq,
    List.cons.injEq] at h
  obtain ⟨_, s, _, _, s₁, hfork, _, t, hrun, ⟨rfl, rfl⟩, hs, rfl, hseen, hforked, hleft⟩ := h
  refine ⟨s, s₁, t, ?_, hseen, hforked, hleft⟩
  exact {
    returned := ⟨⟨relay, .ofTake links⟩, rfl, rfl⟩
    forked := hfork
    link := hlink
    run := Run.of_iterate hrun
    down := by rw [hs]; exact htop }

end Sample

/-- The receiver sees the same, called first or after the sink. -/
theorem Worker.branches_in_turn_sample :
    ∃ (s s₁ t s' s₁' t' : Loop Unit) (before before' : List Event) (u u' : Loop Unit),
      FanOut true (fun _ => false) (Sample.splitWorker [2, 3]) Sample.ctx 1 0 s.world 0 2 s s₁ t
        [.called 3 0 (.error .dropped)] ∧
      FanOut true (fun _ => false) (Sample.splitWorker [3, 2]) Sample.ctx 1 0 s'.world 1 2 s' s₁' t'
        [] ∧
      Undisturbed true (fun _ => false) (Sample.splitWorker [2, 3]) Sample.ctx 0 s₁ before u ∧
      Undisturbed true (fun _ => false) (Sample.splitWorker [3, 2]) Sample.ctx 0 s₁' before' u' ∧
      u.world.view 0 = u'.world.view 0 := by
  obtain ⟨seen, hafter, hfirst⟩ := Sample.splitRun_eq
  obtain ⟨s, s₁, t, hfan, hs, hs₁, ht⟩ := Sample.splitRun_fanOut (i := 0) hafter rfl (by decide)
  obtain ⟨s', s₁', t', hfan', hs', -, -⟩ := Sample.splitRun_fanOut (i := 1) hfirst rfl (by decide)
  obtain ⟨before, u, before', u', hcalled, hcalled', -, -, hsame⟩ :=
    branches_in_turn hfan hfan' (hs.trans hs'.symm)
  have hquiet : Undisturbed true (fun _ => false) (Sample.splitWorker [2, 3]) Sample.ctx 0 s₁ before
      u := by
    obtain ⟨after, hevs, hrest⟩ := hcalled.rest
    have hrun := hcalled.run
    cases before with
    | nil =>
      cases hrun
      exact .nil _
    | cons ev before =>
      obtain ⟨rfl, hnone⟩ := List.cons.inj hevs
      obtain ⟨rfl, rfl⟩ := List.append_eq_nil_iff.mp hnone.symm
      cases hrest
      exact .single ⟨hrun.of_single, ht.trans hs₁.symm⟩
  have hquiet' : Undisturbed true (fun _ => false) (Sample.splitWorker [3, 2]) Sample.ctx 0 s₁'
      before' u' := by
    obtain ⟨after, hevs, -⟩ := hcalled'.rest
    have hrun := hcalled'.run
    obtain ⟨rfl, -⟩ := List.append_eq_nil_iff.mp hevs.symm
    cases hrun
    exact .nil _
  exact ⟨s, s₁, t, s', s₁', t', before, before', u, u', hfan, hfan', hquiet, hquiet',
    hsame hquiet hquiet'⟩

/-! ### Two receivers behind one node -/

namespace Sample

def twinConfig : GraphConfig where
  name := "twins"
  modules := ["Source", "Relay", "Left", "Right", "Sink"]
  links := [("Source", "Relay"), ("Relay", "Left"), ("Relay", "Right"), ("Left", "Sink"),
    ("Right", "Sink")]

/-- Left and right are Ethernet receivers. -/
def twinFactory : Graph.Factory Unit
  | "Source" => some fun _ => source 0 []
  | "Relay" => some fun _ => relay
  | "Left" | "Right" => some fun _ => EthReceiver.module true
  | "Sink" => some fun _ => sink
  | _ => none

def twinGraph : Graph Unit where
  id := 0
  cpu := 0
  nodes := [⟨source 0 [], .ofTake [1]⟩, ⟨relay, .ofTake [2, 3]⟩,
    ⟨EthReceiver.module true, .ofTake [4]⟩, ⟨EthReceiver.module true, .ofTake [4]⟩,
    ⟨sink, .empty⟩]

def twinWorker : Worker Unit where
  nodes := ⟨twinGraph.nodes, by decide⟩
  nodesToPoll := .ofTake [0]
  id := 0
  graphId := 0
  cpu := 0
  stackName := "twins"

def twinStep (s : Loop Unit) : Except EngineFault (Event × Loop Unit) :=
  twinWorker.step true (fun _ => false) ctx s

/-- From the start to the call of the left receiver: the events, the heights of the queue
before the fan-out and before that call, and the packet's offset there and at the relay. -/
def twinRun : Except EngineFault (List Event × Nat × Nat × UInt16 × UInt16) := do
  let (e₁, a) ← twinStep (Loop.initial world)
  let (e₂, b) ← twinStep a
  let (e₃, s) ← twinStep b
  let (e₄, s₁) ← twinStep s
  let (e₅, c) ← twinStep s₁
  let (e₆, u) ← twinStep c
  let (e₇, _) ← twinStep u
  return ([e₁, e₂, e₃, e₄, e₅, e₆, e₇], s.queue.index, u.queue.index, (s.world.pkts 0).offset,
    (u.world.pkts 0).offset)

theorem twinRun_eq : twinRun = .ok ([.enter, .polled 0 [0], .pollEnd, .called 1 0 (.ok ()),
    .called 3 0 (.ok ()), .called 4 0 (.error .dropped), .called 2 0 (.ok ())], 1, 1, 64, 78) := rfl

/-- The fan-out of the run above, as far as the left receiver's call. -/
theorem twinFanOut : ∃ evs s s₁ u v,
    Run (Worker.Step true (fun _ => false) twinWorker ctx) (Loop.initial world) evs s ∧
    Worker.FanOut true (fun _ => false) twinWorker ctx 1 0 s.world 0 2 s s₁ u
      [.called 3 0 (.ok ()), .called 4 0 (.error .dropped)] ∧
    Worker.Step true (fun _ => false) twinWorker ctx u (.called 2 0 (.ok ())) v ∧
    (s.world.pkts 0).offset = 64 ∧ (u.world.pkts 0).offset = 78 := by
  have hrun := twinRun_eq
  simp only [twinRun, Exec.bind_eq_ok, Exec.pure_eq_ok, Prod.exists, Prod.mk.injEq,
    List.cons.injEq, and_true] at hrun
  obtain ⟨e₁, a, h₁, e₂, b, h₂, e₃, s, h₃, e₄, s₁, h₄, e₅, c, h₅, e₆, u, h₆, e₇, v, h₇,
    ⟨rfl, rfl, rfl, rfl, rfl, rfl, rfl⟩, hs, hu, hbefore, hafter⟩ := hrun
  refine ⟨_, s, s₁, u, v, .cons h₁ (.cons h₂ (.single h₃)), ?_, h₇, hbefore, hafter⟩
  exact {
    returned := ⟨⟨relay, .ofTake [2, 3]⟩, rfl, rfl⟩
    forked := h₄
    link := rfl
    run := .cons h₅ (.single h₆)
    down := by rw [hs, hu] }

end Sample

/-- **Two Ethernet receivers behind one node**: the right one strips the header first, and
the left one is called on a packet that starts fourteen bytes on. -/
theorem Worker.second_receiver_shifted :
    Graph.new Sample.twinFactory 0 Sample.twinConfig 0 = .ok Sample.twinGraph ∧
    Worker.new 0 "twins" 0 Sample.twinGraph.nodes 0 =
      .ok {Sample.twinWorker with nodesToPoll := .empty} ∧
    Worker.start {Sample.twinWorker with nodesToPoll := .empty} Sample.ctx Sample.world =
      .ok (.ok Sample.twinWorker, Sample.world) ∧
    ∃ evs s s₁ u v,
      Run (Worker.Step true (fun _ => false) Sample.twinWorker Sample.ctx)
        (Loop.initial Sample.world) evs s ∧
      Worker.FanOut true (fun _ => false) Sample.twinWorker Sample.ctx 1 0 s.world 0 2 s s₁ u
        [.called 3 0 (.ok ()), .called 4 0 (.error .dropped)] ∧
      Worker.Step true (fun _ => false) Sample.twinWorker Sample.ctx u (.called 2 0 (.ok ())) v ∧
      u.world.view 0 ≠ s.world.view 0 := by
  obtain ⟨evs, s, s₁, u, v, hrun, hfan, hcall, hbefore, hafter⟩ := Sample.twinFanOut
  refine ⟨rfl, rfl, rfl, evs, s, s₁, u, v, hrun, hfan, hcall, fun hview => ?_⟩
  have hoffset : (u.world.pkts 0).offset = (s.world.pkts 0).offset := congrArg View.offset hview
  rw [hbefore, hafter] at hoffset
  exact absurd hoffset (by decide)

end OmniStack
