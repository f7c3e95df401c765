import OmniStack.Conservation
import OmniStack.Engine.Rows
import OmniStack.Receive
import OmniStack.RoundTrip

/-! The shipped UDP stack as a plain program.

`config/graph/udp.json` wires eight modules. `udp_program` says what a worker on it does: until it
is told to stop it takes a burst from the cards and one from the user node, sends the user's packets
down through UDP, IPv4 and Ethernet to the cards, the last first, and then takes the received ones
up through Ethernet, IPv4 and UDP to the user node, the last first. Nothing of the task queue, the
links or the reference counts is left in it. -/
namespace OmniStack
open Lib Worker

variable {τ : Type}

/-! ### The nodes of a started worker -/

namespace Registered
variable {sys : Sys (Instances τ)} {checks : Bool} {config : GraphConfig} {ctx : Context}
  {w : Worker (Instances τ)} {world : World (Instances τ)}

/-- Every name of the graph has its node. -/
theorem node_at (h : Registered sys checks config ctx w world) :
    ∃ getStackConfig : String → Option StackConfig, ∀ n name, config.modules[n]? = some name →
      ∃ node build, w.nodes.items[n]? = some node ∧
        registry sys checks getStackConfig name = some build ∧ node.module = build n ∧
        node.linksTo.items = config.links.filterMap (Graph.target config.modules n) := by
  obtain ⟨getStackConfig, hbuilt⟩ := h.built
  have hlength : w.nodes.items.length = config.modules.length := by
    obtain ⟨_, _, _, _, _, g, w₀, _, hgraph, hnew, hstart⟩ := h.started
    rw [start_nodes hstart, new_nodes hnew]
    exact (Graph.new_spec hgraph).1
  refine ⟨getStackConfig, fun n name hname => ?_⟩
  have hn : n < w.nodes.items.length := hlength ▸ (List.getElem?_eq_some_iff.mp hname).1
  have hnode : w.nodes.items[n]? = some w.nodes.items[n] := List.getElem?_eq_getElem hn
  obtain ⟨name', build, hname', hbuild, hmodule⟩ := hbuilt n _ hnode
  obtain rfl := Option.some.inj (hname.symm.trans hname')
  refine ⟨_, build, hnode, hbuild, hmodule, ?_⟩
  rw [← h.links_eq, Worker.links, Graph.linksOf_some hnode]

theorem pollIds_eq {σ : Type} {names : List String} {nodes : List (Node σ)} {id : Nat}
    (h : nodes.map (fun node => node.module.capability.poll) =
      names.map fun name => decide (name ∈ endNames)) :
    pollIds nodes id = (names.zipIdx id).filterMap fun e =>
      if e.1 ∈ endNames then some e.2 else none := by
  induction nodes generalizing names id with
  | nil =>
    obtain rfl := List.map_eq_nil_iff.mp h.symm
    rfl
  | cons node rest ih =>
    obtain ⟨name, names, rfl, hname, hrest⟩ := List.map_eq_cons_iff.mp h.symm
    have hpoll : node.module.capability.poll = decide (name ∈ endNames) := hname.symm
    rw [pollIds, hpoll, List.zipIdx_cons, ih hrest.symm]
    by_cases hend : name ∈ endNames <;> simp only [hend, decide_true, decide_false,
      List.filterMap_cons, if_true, if_false, Bool.false_eq_true]

/-- The worker polls the nodes at the ends, as they are listed. -/
theorem polls_eq (h : Registered sys checks config ctx w world) :
    w.nodesToPoll.items = (config.modules.zipIdx).filterMap fun e =>
      if e.1 ∈ endNames then some e.2 else none := by
  obtain ⟨getStackConfig, _, _, _, _, g, w₀, _, hgraph, hnew, hstart⟩ := h.started
  rw [start_polls hstart, new_polls hnew, List.nil_append, new_nodes hnew]
  apply pollIds_eq
  apply List.ext_getElem?
  intro n
  have hlength := (Graph.new_spec hgraph).1
  rw [List.getElem?_map, List.getElem?_map]
  cases hnode : g.nodes[n]? with
  | none =>
    rw [List.getElem?_eq_none (hlength ▸ List.getElem?_eq_none_iff.mp hnode)]
    rfl
  | some node =>
    obtain ⟨name, build, hname, hbuild, hmodule⟩ := Graph.new_built hgraph n node hnode
    rw [hname, Option.map_some, Option.map_some, hmodule, registry_poll_iff hbuild]

end Registered

/-! ### The program -/

namespace UdpStack
variable (sys : Sys (Instances τ)) (checks : Bool)

/-- The way of a packet from a card to the user node. -/
def up : List (Process (Instances τ)) :=
  [fun _ => EthReceiver.process checks, Ipv4Receiver.process checks,
    fun _ => UdpReceiver.process checks, UserNode.process checks]

/-- The way of a packet from the user node to its card. -/
def down : List (Process (Instances τ)) :=
  [fun _ => UdpSender.process checks, fun _ p w => (w.env.ipv4Senders 3).process checks p w,
    fun _ => EthSender.process checks, fun ctx p w =>
      IoNode.keep 0 (IoNode.process (Dpdk.adapter sys checks) ctx (w.env.ioNodes 0) p w)]

/-- The cards are polled first, then the user node. -/
def inlets : List (Inlet (Instances τ)) :=
  [⟨0, fun ctx w => IoNode.keep 0 (IoNode.poll (Dpdk.adapter sys checks) ctx (w.env.ioNodes 0) w),
      2, up checks⟩,
    ⟨7, fun _ => UserNode.poll sys checks, 5, down sys checks⟩]

end UdpStack

section
variable {sys : Sys (Instances τ)} {checks : Bool} {ctx : Context} {w : Worker (Instances τ)}
  {world₀ world : World (Instances τ)} {shouldStop : World (Instances τ) → Bool}

/-- The eight nodes are the two rows and what is polled at their heads. -/
theorem Registered.udp_straight (h : Registered sys checks udpGraph ctx w world) :
    Straight w ctx (UdpStack.inlets sys checks) := by
  obtain ⟨getStackConfig, hnodes⟩ := h.node_at
  have at_ (n : NodeId) (name : String) (build : NodeId → Module (Instances τ)) (m : NodeId)
      (hname : udpGraph.modules[n]? = some name)
      (hbuild : registry sys checks getStackConfig name = some build)
      (hlink : udpGraph.links.filterMap (Graph.target udpGraph.modules n) = [m]) :
      ∃ node, w.nodes.items[n]? = some node ∧ node.module = build n ∧ node.linksTo.items = [m] := by
    obtain ⟨node, build', hnode, hbuild', hmodule, hlinks⟩ := hnodes n name hname
    obtain rfl := Option.some.inj (hbuild.symm.trans hbuild')
    exact ⟨node, hnode, hmodule, hlinks.trans hlink⟩
  obtain ⟨n₀, h₀, hm₀, hl₀⟩ := at_ 0 "IoNode" _ 2 rfl rfl (by decide +kernel)
  obtain ⟨n₁, h₁, hm₁, hl₁⟩ := at_ 1 "EthSender" _ 0 rfl rfl (by decide +kernel)
  obtain ⟨n₂, h₂, hm₂, hl₂⟩ := at_ 2 "EthReceiver" _ 4 rfl rfl (by decide +kernel)
  obtain ⟨n₃, h₃, hm₃, hl₃⟩ := at_ 3 "Ipv4Sender" _ 1 rfl rfl (by decide +kernel)
  obtain ⟨n₄, h₄, hm₄, hl₄⟩ := at_ 4 "Ipv4Receiver" _ 6 rfl rfl (by decide +kernel)
  obtain ⟨n₅, h₅, hm₅, hl₅⟩ := at_ 5 "UdpSender" _ 3 rfl rfl (by decide +kernel)
  obtain ⟨n₆, h₆, hm₆, hl₆⟩ := at_ 6 "UdpReceiver" _ 7 rfl rfl (by decide +kernel)
  obtain ⟨n₇, h₇, hm₇, hl₇⟩ := at_ 7 "UserNode" _ 5 rfl rfl (by decide +kernel)
  have hup : Row w ctx 2 (UdpStack.up checks) := by
    have hlast : Row w ctx 7 [n₇.module.process] :=
      .last h₇ fun p v v' => by
        rw [hm₇]
        exact UserNode.module_keeps
    have hrow := Row.link h₂ hl₂ (.link h₄ hl₄ (.link h₆ hl₆ hlast))
    rwa [hm₂, hm₄, hm₆, hm₇] at hrow
  have hdown : Row w ctx 5 (UdpStack.down sys checks) := by
    have hlast : Row w ctx 0 [n₀.module.process] :=
      .last h₀ fun p v v' => by
        rw [hm₀]
        exact IoNode.module_keeps
    have hrow := Row.link h₅ hl₅ (.link h₃ hl₃ (.link h₁ hl₁ hlast))
    rwa [hm₅, hm₃, hm₁, hm₀] at hrow
  constructor
  · rw [h.polls_eq]
    show _ = [0, 7]
    decide +kernel
  · intro i hi
    simp only [UdpStack.inlets, List.mem_cons, List.not_mem_nil, or_false] at hi
    rcases hi with rfl | rfl
    · exact ⟨n₀, h₀, by rw [hm₀]; rfl, hl₀⟩
    · exact ⟨n₇, h₇, by rw [hm₇]; rfl, hl₇⟩
  · intro i hi
    simp only [UdpStack.inlets, List.mem_cons, List.not_mem_nil, or_false] at hi
    rcases hi with rfl | rfl
    · exact hup
    · exact hdown

/-- **The UDP worker is a plain program.** Without a queue, links or counts: a run comes to the
top of its loop in a world exactly where some passes of the program do, it returns `Ok` where the
flag is seen after them and the modules are destroyed, and it ends any other way, by a fault
or an error, exactly where a pass of the program does, or the modules' destruction. -/
theorem udp_program (h : Launched sys checks udpGraph ctx world₀ w world) (hsys : sys.Honours)
    (hcards : sys.FinishesHeld) (hstock : Stocked nothingKept world₀) (last : World (Instances τ))
    {ending : Ending} (hreturned : ending ≠ .fault .returned) :
    ((∃ evs t, Run (Step checks shouldStop w ctx) (Loop.initial world) evs t ∧ t.phase = .top ∧
        t.world = last) ↔ Passes shouldStop ctx (UdpStack.inlets sys checks) world last) ∧
    ((∃ evs t, Run (Step checks shouldStop w ctx) (Loop.initial world) evs t ∧
        t.phase = .done (.ok ()) ∧ t.world = last) ↔
      ∃ v, Passes shouldStop ctx (UdpStack.inlets sys checks) world v ∧ shouldStop v = true ∧
        destroyNodes ctx w.nodes.items v = .ok last) ∧
    ((∃ evs t, Run (Step checks shouldStop w ctx) (Loop.initial world) evs t ∧
        EndsIn checks shouldStop w ctx t ending) ↔
      ∃ v, Passes shouldStop ctx (UdpStack.inlets sys checks) world v ∧
        ((shouldStop v = true ∧ ∃ g, destroyNodes ctx w.nodes.items v = .error g ∧
            ending = .fault (.inModule g)) ∨
          (shouldStop v = false ∧ PassEnds ctx (UdpStack.inlets sys checks) v ending))) := by
  have hreg := h.registered
  have hfits : NeverOverruns checks shouldStop w ctx (Loop.initial world) :=
    h.never_overruns hsys hcards udpGraph_piped hreg.udp_cycles_broken hstock
  have hstraight := hreg.udp_straight
  obtain ⟨htop, hdone⟩ := run_iff_rounds hfits last
  refine ⟨htop.trans hstraight.rounds_iff, hdone.trans ?_, (ends_iff_rounds hfits hreturned).trans ?_⟩
  · simp only [hstraight.rounds_iff]
  · simp only [hstraight.rounds_iff, hstraight.roundEnds_iff]

end

namespace Sample

/-- Is the run at the top of its loop, and is packet 31 held? -/
def roundSeen (t : Loop (Instances Unit)) : Bool × Nat :=
  match t.phase with
  | .top => (true, t.world.held 31)
  | _ => (false, t.world.held 31)

theorem roundSeen_phase {t : Loop (Instances Unit)} {n : Nat} (h : roundSeen t = (true, n)) :
    t.phase = .top ∧ t.world.held 31 = n := by
  unfold roundSeen at h
  split at h
  · rename_i hphase
    exact ⟨hphase, congrArg Prod.snd h⟩
  · cases h

/-- A full round: the user node's 32 packets are all sent. -/
theorem fairCard_round : (launch fairCard udpWorld true udpGraph 133 roundSeen).map Prod.snd =
    .ok (true, 1) := by
  decide +kernel

end Sample

theorem udp_program_sample : ∃ w world last,
    Launched Sample.fairCard true udpGraph Sample.ctx Sample.udpWorld w world ∧
      Passes (fun _ => false) Sample.ctx (UdpStack.inlets Sample.fairCard true) world last ∧
      last.held 31 = 1 := by
  have hround := Sample.fairCard_round
  cases hlaunch :
      Sample.launch Sample.fairCard Sample.udpWorld true udpGraph 133 Sample.roundSeen with
  | error f =>
    rw [hlaunch] at hround
    cases hround
  | ok seen =>
    obtain ⟨evs, seen⟩ := seen
    rw [hlaunch] at hround
    obtain rfl := Except.ok.inj hround
    obtain ⟨w, world, t, hunder, hrun, hseen⟩ := Sample.launch_run hlaunch
    have hlaunched := hunder.launched
    obtain ⟨htop, hheld⟩ := Sample.roundSeen_phase hseen
    have hother : Ending.fault .nullPacket ≠ .fault .returned := nofun
    obtain ⟨hpasses, _⟩ := @udp_program _ _ _ _ _ _ _ (fun _ => false) hlaunched
      Sample.fairCard_honours Sample.fairCard_finishes Sample.udpWorld_stocked t.world _ hother
    exact ⟨w, world, t.world, hlaunched, hpasses.mp ⟨evs, t, hrun, htop, rfl⟩, hheld⟩

end OmniStack
