import OmniStack.Engine.QueueBound
import OmniStack.Lib.Descent
import OmniStack.Modules.Bursts
import OmniStack.Registry

/-! How deep the drain loop digs.

The drain loop walks the links a packet can pass depth first (`call_expands`): the stack of
its tasks' nodes is a `Descent` stack over `onward`. So with at most `k` links a node it
never holds more than `k - 1` tasks for every link of the longest path, on top of those it
started with (`drain_height`). -/
namespace OmniStack
open Lib

/-- A call of `process`, whatever it returned. -/
def Event.IsCall : Event → Prop
  | .called _ _ _ => True
  | _ => False

namespace Worker
variable {σ : Type} {checks : Bool} {shouldStop : World σ → Bool} {w : Worker σ} {ctx : Context}

open Classical in
/-- The links that packets can leave a node over. -/
noncomputable def onward (w : Worker σ) (ctx : Context) (n : NodeId) : List NodeId :=
  if w.MayForward ctx n then w.links n else []

theorem mem_onward {n m : NodeId} : m ∈ w.onward ctx n ↔ w.MayForward ctx n ∧ m ∈ w.links n := by
  unfold onward
  split
  · rename_i hfwd
    exact ⟨fun hm => ⟨hfwd, hm⟩, fun hm => hm.2⟩
  · rename_i hfwd
    exact ⟨fun hm => absurd hm List.not_mem_nil, fun hm => absurd hm.1 hfwd⟩

theorem onward_length {k : Nat} (hlinks : ∀ n, (w.links n).length ≤ k) (n : NodeId) :
    (w.onward ctx n).length ≤ k := by
  unfold onward
  split
  · exact hlinks n
  · exact Nat.zero_le k

/-- Where every cycle is broken packets go downhill. -/
theorem onward_descending (h : w.CyclesBroken ctx) :
    Descent.Descending (w.onward ctx) (List.range w.nodes.items.length) where
  acyclic := fun n hcycle =>
    h n (Relation.TransGen.mono (fun _ _ hedge => mem_onward.mp hedge) _ _ hcycle)
  sources := fun n hne => by
    obtain ⟨m, hm⟩ := List.exists_mem_of_ne_nil _ hne
    obtain ⟨node, hnode, _⟩ := (mem_onward.mp hm).1
    exact List.mem_range.mpr (List.getElem?_eq_some_iff.mp hnode).1

/-- The nodes of the tasks, bottom first. -/
def nodesOf (s : Loop σ) : List NodeId := s.queue.live.map Task.nodeId

theorem nodesOf_length (s : Loop σ) : (nodesOf s).length = s.queue.index := by
  rw [nodesOf, List.length_map, ArrayStack.live_length]

/-- **A call replaces its task by the onward links, or by nothing.** -/
theorem call_expands {s t : Loop σ} {ev : Event} (hev : ev.IsCall)
    (h : Step checks shouldStop w ctx s ev t) :
    Descent.Expands (w.onward ctx) (nodesOf s) ((w.moveOf ev).map Task.nodeId) (nodesOf t) := by
  refine ⟨Move.step_map Task.nodeId (turn_move (step_turn h)), ?_⟩
  cases step_turn h with
  | enter | leave | pollEnd | idle | polled | pollFailed | drained => cases hev
  | @forwarded n p node _ _ _ _ _ _ hnode hcall =>
    have hlinks : ((w.links n).map fun m => (⟨m, some p⟩ : Task)).map Task.nodeId = w.links n := by
      rw [List.map_map]
      exact List.map_id _
    refine ⟨n, rfl, .inr ?_⟩
    show ((w.links n).map fun m => (⟨m, some p⟩ : Task)).map Task.nodeId = w.onward ctx n
    rw [hlinks, onward, if_pos ⟨node, hnode, p, _, _, hcall⟩]
  | @dropped n => exact ⟨n, rfl, .inl rfl⟩
  | @callFailed n => exact ⟨n, rfl, .inl rfl⟩

/-- A run of calls is a run of the stack of nodes. -/
theorem run_expands {s t : Loop σ} {evs : List Event} (hevs : ∀ ev ∈ evs, ev.IsCall)
    (hrun : Run (Step checks shouldStop w ctx) s evs t) :
    Run (Descent.Expands (w.onward ctx)) (nodesOf s)
      (evs.map fun ev => (w.moveOf ev).map Task.nodeId) (nodesOf t) :=
  (hrun.restrict hevs).map nodesOf (fun ev => (w.moveOf ev).map Task.nodeId)
    fun _ _ _ h => call_expands h.2 h.1

/-- `D` is the length of the longest link path that starts at the node of a task and goes on
from nodes that can return `Ok` only; zero without tasks. -/
def LongestPath (w : Worker σ) (ctx : Context) (tasks : List Task) (D : Nat) : Prop :=
  (tasks = [] ∧ D = 0) ∨
    IsGreatest {d | ∃ n, n ∈ tasks.map Task.nodeId ∧ Descent.WalkFrom (w.onward ctx) n d} D

theorem exists_longestPath (hcycles : w.CyclesBroken ctx) (tasks : List Task) :
    ∃ D, w.LongestPath ctx tasks D := by
  cases tasks with
  | nil => exact ⟨0, .inl ⟨rfl, rfl⟩⟩
  | cons task rest =>
    have hmem : task.nodeId ∈ (task :: rest).map Task.nodeId := List.mem_cons_self
    obtain ⟨D, hD⟩ := (onward_descending hcycles).exists_longest hmem
    exact ⟨D, .inr hD⟩

theorem LongestPath.le {tasks : List Task} {D : Nat} (h : w.LongestPath ctx tasks D) :
    ∀ n ∈ tasks.map Task.nodeId, ∀ d, Descent.WalkFrom (w.onward ctx) n d → d ≤ D := by
  intro n hn d hwalk
  rcases h with ⟨rfl, _⟩ | hgreatest
  · cases hn
  · exact hgreatest.2 ⟨n, hn, hwalk⟩

/-- After calls the loop goes on or has returned. -/
theorem calls_phase {s t : Loop σ} {evs : List Event} (hphase : s.phase = .drain)
    (hevs : ∀ ev ∈ evs, ev.IsCall) (hrun : Run (Step checks shouldStop w ctx) s evs t) :
    t.phase = .drain ∨ ∃ res, t.phase = .done res := by
  refine hrun.invariant_of (P := fun s => s.phase = .drain ∨ ∃ res, s.phase = .done res)
    (C := Event.IsCall) (fun s ev t _ hev hst => ?_) hevs (.inl hphase)
  cases step_turn hst with
  | enter | leave | pollEnd | idle | polled | pollFailed | drained => cases hev
  | forwarded | dropped => exact .inl rfl
  | callFailed => exact .inr ⟨_, rfl⟩

/-- How high the queue gets after some calls. -/
theorem drain_height {k D : Nat} (hlinks : ∀ n, (w.links n).length ≤ k) {s t : Loop σ}
    (hD : w.LongestPath ctx s.queue.live D) {evs : List Event} (hevs : ∀ ev ∈ evs, ev.IsCall)
    (hrun : Run (Step checks shouldStop w ctx) s evs t) :
    t.queue.index ≤ s.queue.index + (k - 1) * D := by
  have hheight := Descent.height_le (onward_length hlinks) hD.le (run_expands hevs hrun)
  rwa [nodesOf_length, List.length_map, ArrayStack.live_length] at hheight

/-- Nor does the next call write beyond the height that is allowed. -/
theorem drain_fits {k D : Nat} (hlinks : ∀ n, (w.links n).length ≤ k) {s t : Loop σ}
    (hD : w.LongestPath ctx s.queue.live D) (hfits : s.queue.index + (k - 1) * D ≤ taskQueueSize)
    (hphase : s.phase = .drain) {evs : List Event} (hevs : ∀ ev ∈ evs, ev.IsCall)
    (hrun : Run (Step checks shouldStop w ctx) s evs t) :
    w.step checks shouldStop ctx t ≠ .error .queueOverrun := by
  intro hover
  obtain ⟨_, _, _, _, _, hpoll, _⟩ | ⟨n, p, node, world, _, hindex, htask, hnode, hcall, hpush⟩ :=
    step_overrun hover
  · rcases calls_phase hphase hevs hrun with hdrain | ⟨_, hdone⟩
    · rw [hdrain] at hpoll
      cases hpoll
    · rw [hdone] at hpoll
      cases hpoll
  · have honward : w.onward ctx n = node.linksTo.items := by
      rw [onward, if_pos ⟨node, hnode, p, _, _, hcall⟩, links_eq hnode]
    have hnodes : nodesOf t = t.queue.pop.2.live.map Task.nodeId ++ [n] := by
      rw [nodesOf, ArrayStack.pop_live hindex, htask, List.map_append]
      rfl
    have hmove : Descent.Expands (w.onward ctx) (nodesOf t) ⟨[n], w.onward ctx n⟩
        (t.queue.pop.2.live.map Task.nodeId ++ w.onward ctx n) :=
      ⟨⟨_, hnodes, rfl⟩, n, rfl, .inr rfl⟩
    have hheight := Descent.height_le (onward_length hlinks) hD.le
      ((run_expands hevs hrun).snoc hmove)
    rw [honward, List.length_append, List.length_map, List.length_map, ArrayStack.live_length,
      ArrayStack.live_length] at hheight
    have hover := (ArrayStack.pushAll_eq_none (by omega)).mp hpush
    rw [List.length_map] at hover
    omega

/-! ### Graphs of the registered modules -/

/-- Link positions along a path are at most `k - 1` each. -/
theorem climb_le {k : Nat} (hlinks : ∀ n, (w.links n).length ≤ k) {n : NodeId} {c : Nat}
    (h : w.Climb ctx n c) : ∃ d, Descent.WalkFrom (w.onward ctx) n d ∧ c ≤ (k - 1) * d := by
  induction h with
  | here n => exact ⟨0, Descent.walkFrom_zero n, Nat.zero_le _⟩
  | @link n m i c hfwd hlink _ ih =>
    obtain ⟨d, hwalk, hc⟩ := ih
    have hi : i < (w.links n).length := (List.getElem?_eq_some_iff.mp hlink).1
    have hlen := hlinks n
    have hm : m ∈ w.onward ctx n := mem_onward.mpr ⟨hfwd, List.mem_of_getElem? hlink⟩
    refine ⟨d + 1, Descent.walkFrom_edge hm hwalk, ?_⟩
    rw [Nat.mul_succ]
    omega

theorem links_length (w : Worker σ) (n : NodeId) : (w.links n).length ≤ 4 := by
  unfold links Graph.linksOf
  split
  · rename_i node _
    exact node.linksTo.bound
  · exact Nat.zero_le 4

/-- Where all links leave a few nodes the fan-out is theirs. -/
theorem fanOut_le {k : Nat} (hlinks : ∀ n, (w.links n).length ≤ k) {ids sources : List NodeId}
    (hnodup : ids.Nodup) (hsources : ∀ n ∈ ids, w.links n ≠ [] → n ∈ sources) :
    w.fanOut ids ≤ k * sources.length := by
  have hlinked : w.fanOut ids ≤ k * (ids.filter fun n => !(w.links n).isEmpty).length := by
    clear hnodup hsources
    induction ids with
    | nil => exact Nat.zero_le _
    | cons n rest ih =>
      have hn := hlinks n
      simp only [fanOut, List.map_cons, List.sum_cons, List.filter_cons] at ih ⊢
      cases hnil : w.links n with
      | nil => simpa [hnil] using ih
      | cons m ms =>
        rw [hnil] at hn
        simp only [List.isEmpty_cons, Bool.not_false, if_true, List.length_cons, Nat.mul_succ]
        simp only [List.length_cons] at hn
        omega
  refine hlinked.trans (Nat.mul_le_mul_left k ?_)
  refine (List.subperm_of_subset (hnodup.filter _) fun n hn => ?_).length_le
  obtain ⟨hmem, hne⟩ := List.mem_filter.mp hn
  apply hsources n hmem
  intro hnil
  rw [hnil] at hne
  cases hne

end Worker

/-- A worker started on a graph of the registered modules. -/
structure Registered {τ : Type} (sys : Sys (Instances τ)) (checks : Bool) (config : GraphConfig)
    (ctx : Context) (w : Worker (Instances τ)) (world : World (Instances τ)) : Prop where
  started : ∃ (getStackConfig : String → Option StackConfig) (graphId cpu id : UInt32)
    (stackName : String) (g : Graph (Instances τ)) (w₀ : Worker (Instances τ))
    (world₀ : World (Instances τ)),
    Graph.new (registry sys checks getStackConfig) graphId config cpu = .ok g ∧
      Worker.new id stackName g.id g.nodes g.cpu = .ok w₀ ∧
      w₀.start ctx world₀ = .ok (.ok w, world)

namespace Registered
variable {τ : Type} {sys : Sys (Instances τ)} {checks : Bool} {config : GraphConfig}
  {ctx : Context} {w : Worker (Instances τ)} {world : World (Instances τ)}

theorem links_eq (h : Registered sys checks config ctx w world) (n : NodeId) :
    w.links n = config.links.filterMap (Graph.target config.modules n) := by
  obtain ⟨_, _, _, _, _, g, w₀, _, hgraph, hnew, hstart⟩ := h.started
  rw [Worker.links, Worker.start_nodes hstart, Worker.new_nodes hnew]
  exact (Graph.new_spec hgraph).2 n

/-- A node's module is the one registered under its name. -/
theorem built (h : Registered sys checks config ctx w world) :
    ∃ getStackConfig : String → Option StackConfig, ∀ n node, w.nodes.items[n]? = some node →
      ∃ name build, config.modules[n]? = some name ∧
        registry sys checks getStackConfig name = some build ∧ node.module = build n := by
  obtain ⟨getStackConfig, _, _, _, _, g, w₀, _, hgraph, hnew, hstart⟩ := h.started
  refine ⟨getStackConfig, fun n node hnode => ?_⟩
  rw [Worker.start_nodes hstart, Worker.new_nodes hnew] at hnode
  obtain ⟨name, build, hname, hbuild, hmodule⟩ := Graph.new_built hgraph n node hnode
  exact ⟨name, build, hname, hbuild, by rw [hmodule, Nat.zero_add]⟩

/-- Only the nodes between the ends pass packets on. -/
theorem forward_name (h : Registered sys checks config ctx w world) {n : NodeId}
    (hfwd : w.MayForward ctx n) : ∃ name, config.modules[n]? = some name ∧ name ∉ endNames := by
  obtain ⟨_, hbuilt⟩ := h.built
  obtain ⟨node, hnode, p, world₁, world₂, hcall⟩ := hfwd
  obtain ⟨name, build, hname, hbuild, hmodule⟩ := hbuilt n node hnode
  rw [hmodule] at hcall
  exact ⟨name, hname, fun hend => registry_keeps hbuild hend _ hcall⟩

/-- Cycles are broken where a rank goes down along the links between the ends. -/
theorem cycles_broken (h : Registered sys checks config ctx w world) (rank : NodeId → Nat)
    (hrank : ∀ n name, config.modules[n]? = some name → name ∉ endNames →
      ∀ m ∈ config.links.filterMap (Graph.target config.modules n), rank m < rank n) :
    w.CyclesBroken ctx := by
  intro n hcycle
  have hlt : ∀ a b, Relation.TransGen
      (fun a b => w.MayForward ctx a ∧ b ∈ w.links a) a b → rank b < rank a := by
    intro a b hab
    have hedge (a b : NodeId) (hedge : w.MayForward ctx a ∧ b ∈ w.links a) : rank b < rank a := by
      obtain ⟨name, hname, hend⟩ := h.forward_name hedge.1
      exact hrank a name hname hend b (h.links_eq a ▸ hedge.2)
    induction hab with
    | single hab => exact hedge _ _ hab
    | tail _ hbc ih => exact (hedge _ _ hbc).trans ih
  exact absurd (hlt n n hcycle) (Nat.lt_irrefl _)

/-- The polling nodes with links are the first of their names. -/
theorem polling_sources (h : Registered sys checks config ctx w world) :
    ∀ n ∈ w.nodesToPoll.items, w.links n ≠ [] →
      n ∈ endNames.filterMap fun name => config.modules.findIdx? (· == name) := by
  obtain ⟨getStackConfig, graphId, cpu, id, stackName, g, w₀, world₀, hgraph, hnew, hstart⟩ :=
    h.started
  intro n hn hne
  rw [Worker.start_polls hstart, Worker.new_polls hnew, List.nil_append,
    Worker.new_nodes hnew] at hn
  obtain ⟨_, node, hnode, hpoll⟩ := Worker.mem_pollIds hn
  rw [Nat.sub_zero] at hnode
  obtain ⟨name, build, hname, hbuild, hmodule⟩ := Graph.new_built hgraph n node hnode
  rw [hmodule] at hpoll
  have hend := registry_poll hbuild _ hpoll
  rw [h.links_eq] at hne
  obtain ⟨m, hm⟩ := List.exists_mem_of_ne_nil _ hne
  obtain ⟨link, _, htarget⟩ := List.mem_filterMap.mp hm
  unfold Graph.target at htarget
  split at htarget
  · rename_i hsrc
    obtain ⟨hlt, hfound, _⟩ := List.findIdx?_eq_some_iff_getElem.mp hsrc
    have hsame : link.1 = name := by
      rw [List.getElem?_eq_getElem hlt] at hname
      rw [← Option.some.inj hname]
      exact (eq_of_beq hfound).symm
    exact List.mem_filterMap.mpr ⟨name, hend, hsame ▸ hsrc⟩
  · cases htarget

/-- With every cycle broken a full round of polls leaves room for everything. -/
theorem round_fits (h : Registered sys checks config ctx w world) (hcycles : w.CyclesBroken ctx) :
    w.RoundFits ctx 64 := by
  intro before n after i m c hsplit hlink hclimb
  obtain ⟨d, hwalk, hc⟩ := Worker.climb_le w.links_length hclimb
  have hd := (Worker.onward_descending hcycles).walk_le hwalk
  rw [List.length_range] at hd
  have hnodes := w.nodes.bound
  have hnodup : w.nodesToPoll.items.Nodup := by
    obtain ⟨_, _, _, _, _, _, w₀, _, _, hnew, hstart⟩ := h.started
    rw [Worker.start_polls hstart, Worker.new_polls hnew, List.nil_append]
    exact Worker.pollIds_nodup _ _
  have hfan := Worker.fanOut_le w.links_length hnodup h.polling_sources
  have hsources : (endNames.filterMap fun name =>
      config.modules.findIdx? (· == name)).length ≤ 2 := List.length_filterMap_le _ _
  have hsum : w.fanOut w.nodesToPoll.items =
      w.fanOut before + ((w.links n).length + w.fanOut after) := by
    rw [hsplit]
    simp [Worker.fanOut]
  have hi : i < (w.links n).length := (List.getElem?_eq_some_iff.mp hlink).1
  unfold taskQueueSize
  omega

/-- The links of the UDP graph go round through both ends. -/
theorem udp_cycles_broken (h : Registered sys checks udpGraph ctx w world) :
    w.CyclesBroken ctx := by
  apply h.cycles_broken (fun n => [0, 1, 3, 2, 2, 3, 1, 0].getD n 0)
  intro n name hname hend
  have hn : n < 8 := (List.getElem?_eq_some_iff.mp hname).1
  have hall : ∀ n < 8, udpGraph.modules[n]?.any (fun name => decide (name ∈ endNames)) = true ∨
      ∀ m ∈ udpGraph.links.filterMap (Graph.target udpGraph.modules n),
        [0, 1, 3, 2, 2, 3, 1, 0].getD m 0 < [0, 1, 3, 2, 2, 3, 1, 0].getD n 0 := by decide +kernel
  rcases hall n hn with hends | hdown
  · rw [hname] at hends
    exact absurd (of_decide_eq_true hends) hend
  · exact hdown

end Registered

/-! ### A worker on the UDP graph -/

namespace Sample

def quietCard : Sys (Instances Unit) := Sys.quiet

def udpStack : StackConfig where
  name := "UDP"
  nics := [⟨"Dpdk", 0, ⟨#v[10, 0, 14, 1]⟩, ⟨#v[255, 255, 0, 0]⟩⟩]
  routes := []
  graphs := [⟨"UDP", [14]⟩]

def udpWorld : World (Instances Unit) where
  pkts := fun p => {pkt with data := .own p}
  mem := fun _ _ => 0
  mbufs := fun _ => ⟨(.room 0, 0), 0, 0, 0, 0, none, 0, 0, 0, 0⟩
  free := fun _ => 1
  held := fun _ => 0
  log := []
  rawFreed := []
  wire := []
  env := ⟨fun _ => IoNode.new, fun _ => Ipv4Sender.new, 0, ()⟩

def udpRegistry : Graph.Factory (Instances Unit) := registry quietCard true fun _ => some udpStack

/-- A worker on the UDP graph, started. -/
def startUdp : Exec (Result (Worker (Instances Unit)) × World (Instances Unit)) := do
  let g ← Graph.new udpRegistry 0 udpGraph 14
  let w₀ ← Worker.new 0 "UDP" g.id g.nodes g.cpu
  w₀.start ctx udpWorld

theorem udp_started : ∃ w world, Registered quietCard true udpGraph ctx w world := by
  have hstarts : startUdp.map (fun started => started.1.toBool) = .ok true := by decide +kernel
  cases hstart : startUdp with
  | error e =>
    rw [hstart] at hstarts
    cases hstarts
  | ok started =>
    obtain ⟨res, world⟩ := started
    rw [hstart] at hstarts
    cases res with
    | error e => cases hstarts
    | ok w =>
      obtain ⟨g, hgraph, hstart⟩ := Exec.bind_eq_ok.mp hstart
      obtain ⟨w₀, hnew, hstart⟩ := Exec.bind_eq_ok.mp hstart
      exact ⟨w, world, ⟨fun _ => some udpStack, 0, 14, 0, "UDP", g, w₀, udpWorld, hgraph, hnew,
        hstart⟩⟩

/-- A task for the UDP sender. -/
def udpDrain (world : World (Instances Unit)) : Loop (Instances Unit) where
  queue := ⟨fun _ => ⟨5, some 0⟩, 1⟩
  phase := .drain
  world := world

end Sample

end OmniStack
