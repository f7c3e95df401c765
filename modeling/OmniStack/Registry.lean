import Mathlib.Logic.Function.Basic
import OmniStack.Engine
import OmniStack.Modules.Dpdk
import OmniStack.Modules.Eth
import OmniStack.Modules.Ipv4
import OmniStack.Modules.Udp
import OmniStack.User

/-! The modules that are registered, under their names.

What a module remembers between calls is kept with the environment, an instance for each
node. Two modules have such state: the IO node its adapters and flush queue, the IPv4 sender
its route table. -/
namespace OmniStack
open Lib

structure Instances (τ : Type) where
  ioNodes : NodeId → IoNode Dpdk
  ipv4Senders : NodeId → Ipv4Sender
  /-- `QUEUE_ID`, which all IO nodes count up -/
  queueId : UInt16
  /-- the cards, the pools and the other threads -/
  rest : τ

/-- The builders of the registered adapters. -/
def adapterBuilders : String → Option Dpdk
  | "Dpdk" => some Dpdk.new
  | _ => none

variable {τ : Type}

namespace IoNode

/-- What an IO node's call leaves is its state for the next one. -/
def keep {α : Type} (id : NodeId) (call : Exec (α × IoNode Dpdk × World (Instances τ))) :
    Exec (α × World (Instances τ)) := do
  let (res, self, w) ← call
  return (res, {w with env := {w.env with ioNodes := Function.update w.env.ioNodes id self}})

theorem keep_eq_ok {α : Type} {id : NodeId} {call : Exec (α × IoNode Dpdk × World (Instances τ))}
    {res : α} {w : World (Instances τ)} (h : keep id call = .ok (res, w)) :
    ∃ self w' env, call = .ok (res, self, w') ∧ w = {w' with env} := by
  simp only [keep, Exec.bind_eq_ok, Exec.pure_eq_ok, Prod.mk.injEq] at h
  obtain ⟨⟨res', self, w'⟩, hcall, rfl, rfl⟩ := h
  exact ⟨self, w', _, hcall, rfl⟩

/-- `init`, with the stack's configuration and the node's turn at `QUEUE_ID`. -/
def initModule (sys : Sys (Instances τ)) (checks : Bool)
    (getStackConfig : String → Option StackConfig) (id : NodeId) (ctx : Context)
    (w : World (Instances τ)) : Exec (Result Unit × World (Instances τ)) := do
  let stackConfig ← unwrap (getStackConfig ctx.stackName)
  let queueId := w.env.queueId
  keep id do
    let (self, w) ← init (Dpdk.adapter sys checks) adapterBuilders stackConfig queueId ctx
      (w.env.ioNodes id) {w with env := {w.env with queueId := queueId + 1}}
    return (.ok (), self, w)

def module (sys : Sys (Instances τ)) (checks : Bool)
    (getStackConfig : String → Option StackConfig) (id : NodeId) : Module (Instances τ) where
  init := initModule sys checks getStackConfig id
  process := fun ctx p w => keep id (process (Dpdk.adapter sys checks) ctx (w.env.ioNodes id) p w)
  poll := fun ctx w => keep id (poll (Dpdk.adapter sys checks) ctx (w.env.ioNodes id) w)
  capability := capability
  destroy := fun ctx w => destroy (Dpdk.adapter sys checks) ctx (w.env.ioNodes id) w

/-- The IO node is the end of a packet's way. -/
theorem module_keeps {sys : Sys (Instances τ)} {checks : Bool}
    {getStackConfig : String → Option StackConfig} {id : NodeId} {ctx : Context} {p : PacketId}
    {w w' : World (Instances τ)} :
    (module sys checks getStackConfig id).process ctx p w ≠ .ok (.ok (), w') := by
  intro h
  obtain ⟨self, w'', env, h, _⟩ := keep_eq_ok h
  simp only [process, Exec.bind_eq_ok] at h
  obtain ⟨mac, _, adapter, _, ⟨res, adapter', w₁⟩, _, h⟩ := h
  cases res with
  | error e => cases h
  | ok u =>
    simp only [Exec.bind_eq_ok, Exec.pure_eq_ok, Prod.mk.injEq] at h
    obtain ⟨self', _, h, _⟩ := h
    cases h

end IoNode

namespace Ipv4Sender

/-- `init`, with the stack's configuration. -/
def initModule (getStackConfig : String → Option StackConfig) (id : NodeId) (ctx : Context)
    (w : World (Instances τ)) : Exec (Result Unit × World (Instances τ)) := do
  let stackConfig ← unwrap (getStackConfig ctx.stackName)
  let self ← init (w.env.ipv4Senders id) stackConfig
  return (.ok (),
    {w with env := {w.env with ipv4Senders := Function.update w.env.ipv4Senders id self}})

def module (checks : Bool) (getStackConfig : String → Option StackConfig) (id : NodeId) :
    Module (Instances τ) where
  init := initModule getStackConfig id
  process := fun _ p w => process (w.env.ipv4Senders id) checks p w

end Ipv4Sender

theorem UserNode.module_keeps {σ : Type} {sys : Sys σ} {checks : Bool} {ctx : Context}
    {p : PacketId} {w w' : World σ} :
    (UserNode.module sys checks).process ctx p w ≠ .ok (.ok (), w') := by
  intro h
  cases (UserNode.process_drops h).1

/-- The modules that are registered. -/
def registry (sys : Sys (Instances τ)) (checks : Bool)
    (getStackConfig : String → Option StackConfig) : Graph.Factory (Instances τ)
  | "IoNode" => some (IoNode.module sys checks getStackConfig)
  | "UserNode" => some fun _ => UserNode.module sys checks
  | "EthSender" => some fun _ => EthSender.module checks
  | "EthReceiver" => some fun _ => EthReceiver.module checks
  | "Ipv4Sender" => some (Ipv4Sender.module checks getStackConfig)
  | "Ipv4Receiver" => some fun _ => Ipv4Receiver.module checks
  | "UdpSender" => some fun _ => UdpSender.module checks
  | "UdpReceiver" => some fun _ => UdpReceiver.module checks
  | _ => none

/-- The modules at the ends of the stack. -/
def endNames : List String := ["IoNode", "UserNode"]

section
variable {sys : Sys (Instances τ)} {checks : Bool} {getStackConfig : String → Option StackConfig}
  {name : String} {build : NodeId → Module (Instances τ)}

/-- Only the modules at the ends are polled. -/
theorem registry_poll (h : registry sys checks getStackConfig name = some build) (id : NodeId)
    (hpoll : (build id).capability.poll = true) : name ∈ endNames := by
  unfold registry at h
  split at h <;> cases h <;> first | exact by decide | cases hpoll

theorem registry_poll_iff (h : registry sys checks getStackConfig name = some build) (id : NodeId) :
    (build id).capability.poll = decide (name ∈ endNames) := by
  unfold registry at h
  split at h <;> cases h <;> rfl

/-- They pass no packet on. -/
theorem registry_keeps (h : registry sys checks getStackConfig name = some build)
    (hname : name ∈ endNames) (id : NodeId) {ctx : Context} {p : PacketId}
    {w w' : World (Instances τ)} : (build id).process ctx p w ≠ .ok (.ok (), w') := by
  simp only [endNames, List.mem_cons, List.not_mem_nil, or_false] at hname
  rcases hname with rfl | rfl
  · obtain rfl := Option.some.inj h
    exact IoNode.module_keeps
  · obtain rfl := Option.some.inj h
    exact UserNode.module_keeps

end

/-- `config/graph/udp.json` -/
def udpGraph : GraphConfig where
  name := "UDP"
  modules := ["IoNode", "EthSender", "EthReceiver", "Ipv4Sender", "Ipv4Receiver", "UdpSender",
    "UdpReceiver", "UserNode"]
  links := [("UserNode", "UdpSender"), ("UdpSender", "Ipv4Sender"), ("Ipv4Sender", "EthSender"),
    ("EthSender", "IoNode"), ("IoNode", "EthReceiver"), ("EthReceiver", "Ipv4Receiver"),
    ("Ipv4Receiver", "UdpReceiver"), ("UdpReceiver", "UserNode")]

/-! ### The nodes of a built graph -/

namespace Graph
variable {σ : Type} {factory : Factory σ}

/-- Node `n` is the module that the `n`-th name stands for. -/
def Built (factory : Factory σ) (modules : List String) (id : NodeId) (nodes : List (Node σ)) :
    Prop :=
  ∀ n node, nodes[n]? = some node →
    ∃ name build, modules[n]? = some name ∧ factory name = some build ∧
      node.module = build (id + n)

theorem buildNodes_built {modules : List String} {id : NodeId} {nodes : List (Node σ)}
    (h : buildNodes factory modules id = .ok nodes) : Built factory modules id nodes := by
  induction modules generalizing id nodes with
  | nil =>
    cases h
    intro n node hnode
    cases hnode
  | cons name rest ih =>
    simp only [buildNodes, Exec.bind_eq_ok, Exec.pure_eq_ok, unwrap_eq_ok] at h
    obtain ⟨build, hbuild, tail, htail, rfl⟩ := h
    intro n node hnode
    cases n with
    | zero =>
      cases hnode
      exact ⟨name, build, rfl, hbuild, rfl⟩
    | succ n =>
      obtain ⟨name', build', hname, hbuild', hmodule⟩ := ih htail n node hnode
      refine ⟨name', build', hname, hbuild', ?_⟩
      rw [hmodule, Nat.add_assoc, Nat.add_comm 1 n]

/-- A link leaves the modules as they are. -/
theorem addLink_built {modules : List String} {id src dst : NodeId} {nodes nodes' : List (Node σ)}
    (h : addLink nodes src dst = .ok nodes') (hnodes : Built factory modules id nodes) :
    Built factory modules id nodes' := by
  simp only [addLink, Exec.bind_eq_ok, Exec.pure_eq_ok, unwrap_eq_ok] at h
  obtain ⟨node, hnode, links, _, rfl⟩ := h
  intro n node' hnode'
  by_cases hn : src = n
  · subst hn
    have hlt : src < nodes.length := (List.getElem?_eq_some_iff.mp hnode).1
    rw [List.getElem?_set_self hlt] at hnode'
    cases hnode'
    exact hnodes src node hnode
  · rw [List.getElem?_set_ne hn] at hnode'
    exact hnodes n node' hnode'

theorem addLinks_built {modules names : List String} {links : List (String × String)}
    {id : NodeId} {nodes nodes' : List (Node σ)} (h : addLinks names nodes links = .ok nodes')
    (hnodes : Built factory modules id nodes) : Built factory modules id nodes' := by
  induction links generalizing nodes with
  | nil =>
    cases h
    exact hnodes
  | cons link rest ih =>
    simp only [addLinks, Exec.bind_eq_ok] at h
    obtain ⟨_, _, _, _, mid, hmid, hrest⟩ := h
    exact ih hrest (addLink_built hmid hnodes)

/-- **A graph's nodes are what their names stand for.** -/
theorem new_built {id : UInt32} {config : GraphConfig} {cpu : UInt32} {g : Graph σ}
    (h : Graph.new factory id config cpu = .ok g) : Built factory config.modules 0 g.nodes := by
  simp only [Graph.new, Exec.bind_eq_ok, Exec.pure_eq_ok] at h
  obtain ⟨nodes, hbuild, nodes', hadd, rfl⟩ := h
  exact addLinks_built hadd (buildNodes_built hbuild)

end Graph
end OmniStack
