import Mathlib.Logic.Relation
import OmniStack.FlushQueue
import OmniStack.Modules.Routing
import OmniStack.User

/-! Which card a packet is for.

The IO node indexes its adapters with the packet's `nic`. The user node sets it to zero
and the sender to that of the route it takes, a number from the configuration that
nothing compares with how many cards the same configuration has. -/
namespace OmniStack
open Lib

variable {σ : Type} {sys : Sys σ} {checks : Bool}

/-! ### The two sources of the index -/

/-- `p` is in the chain from `head` on. -/
def InChain (w : World σ) (head p : PacketId) : Prop :=
  Relation.ReflTransGen (fun p q => (w.pkts p).next = some q) head p

/-- A set of packets for card zero that the chain does not leave. -/
structure ZeroNic (w : World σ) (S : Set PacketId) : Prop where
  nic : ∀ p ∈ S, (w.pkts p).nic = 0
  next : ∀ p ∈ S, ∀ q, (w.pkts p).next = some q → q ∈ S

theorem ZeroNic.inChain {w : World σ} {S : Set PacketId} (h : ZeroNic w S) {head p : PacketId}
    (hhead : head ∈ S) (hp : InChain w head p) : (w.pkts p).nic = 0 := by
  have hmem : p ∈ S := by
    induction hp with
    | refl => exact hhead
    | tail _ hnext ih => exact h.next _ ih _ hnext
  exact h.nic p hmem

theorem buildChain_nic {ps : List PacketId} {ret head : Option PacketId} {w w' : World σ}
    {S : Set PacketId} (hS : ZeroNic w S) (hret : ∀ p, ret = some p → p ∈ S)
    (h : UserNode.buildChain checks ps ret w = .ok (head, w')) :
    ∃ T : Set PacketId, ZeroNic w' T ∧ ∀ p, head = some p → p ∈ T := by
  induction ps generalizing ret w S with
  | nil =>
    simp only [UserNode.buildChain, Except.ok.injEq, Prod.mk.injEq] at h
    obtain ⟨rfl, rfl⟩ := h
    exact ⟨S, hS, hret⟩
  | cons p rest ih =>
    simp only [UserNode.buildChain, Exec.bind_eq_ok] at h
    obtain ⟨pkt, _, h⟩ := h
    refine ih (S := insert p S) ⟨fun q hq => ?_, fun q hq r hr => ?_⟩ (fun q hq => ?_) h
    · by_cases heq : q = p
      · rw [heq, World.setPkt_pkts_same]
      · rw [World.setPkt_pkts_ne _ _ heq]
        exact hS.nic q (hq.resolve_left heq)
    · by_cases heq : q = p
      · rw [heq, World.setPkt_pkts_same] at hr
        exact .inr (hret r hr)
      · rw [World.setPkt_pkts_ne _ _ heq] at hr
        exact .inr (hS.next q (hq.resolve_left heq) r hr)
    · exact .inl (Option.some.inj hq).symm

/-- Every packet of a polled chain is for card zero. -/
theorem userNode_poll_nic {w w' : World σ} {head p : PacketId}
    (h : UserNode.poll sys checks w = .ok (.ok head, w')) (hp : InChain w' head p) :
    (w'.pkts p).nic = 0 := by
  unfold UserNode.poll at h
  split at h
  · cases h
  · obtain ⟨⟨ret, w₁⟩, hbuild, h⟩ := Exec.bind_eq_ok.mp h
    obtain ⟨S, hS, hmem⟩ := buildChain_nic ⟨fun _ h => h.elim, fun _ h => h.elim⟩
      (S := ∅) (fun _ h => by cases h) hbuild
    cases ret with
    | none => cases h
    | some first =>
      simp only [Exec.pure_eq_ok, Prod.mk.injEq, Except.ok.injEq] at h
      obtain ⟨rfl, rfl⟩ := h
      exact hS.inChain (hmem _ rfl) hp

/-- The indices that packets can have: those of a polled chain, and those that a sender
initialized under the configuration gives. -/
inductive Produces (σ : Type) (checks : Bool) (stackConfig : StackConfig) : UInt16 → Prop where
  | poll {sys : Sys σ} {w w' : World σ} {head p : PacketId} :
      UserNode.poll sys checks w = .ok (.ok head, w') → InChain w' head p →
      Produces σ checks stackConfig (w'.pkts p).nic
  | send {sender : Ipv4Sender} {p : PacketId} {w w' : World σ} :
      Ipv4Sender.new.init stackConfig = .ok sender →
      sender.process checks p w = .ok (.ok (), w') →
      Produces σ checks stackConfig (w'.pkts p).nic

theorem init_routes {stackConfig : StackConfig} {sender : Ipv4Sender}
    (h : Ipv4Sender.new.init stackConfig = .ok sender) :
    sender.routeTable.items = stackConfig.routes := by
  simp only [Ipv4Sender.init, Exec.bind_eq_ok, Exec.pure_eq_ok] at h
  obtain ⟨table, htable, rfl⟩ := h
  simpa [Ipv4Sender.new, ArrayVec.empty] using ArrayVec.ofList_ok htable

theorem init_fits {stackConfig : StackConfig} (h : stackConfig.routes.length ≤ 10) :
    ∃ sender, Ipv4Sender.new.init stackConfig = .ok sender := by
  have htable : (ArrayVec.ofList (Ipv4Sender.new.routeTable.items ++ stackConfig.routes) :
      Exec (ArrayVec Route 10)) = .ok ⟨stackConfig.routes, h⟩ := dif_pos h
  exact ⟨⟨⟨stackConfig.routes, h⟩⟩, by simp only [Ipv4Sender.init, htable]; rfl⟩

/-- With objects in the pool the user node's poll has a chain. -/
theorem poll_produces (sys : Sys σ) (w : World σ) (stackConfig : StackConfig) :
    Produces σ checks stackConfig 0 := by
  have hbuild (p : PacketId) (ps : List PacketId) (ret : Option PacketId) (w : World σ) :
      ∃ w', UserNode.buildChain checks (ps ++ [p]) ret w = .ok (some p, w') := by
    have hfits : (36 : UInt16).toNat + defaultOffset.toNat < 2 ^ 16 := by decide
    induction ps generalizing ret w with
    | nil =>
      rw [List.nil_append, UserNode.buildChain, Packet.setLen_ok checks hfits]
      exact ⟨_, rfl⟩
    | cons q rest ih =>
      rw [List.cons_append, UserNode.buildChain, Packet.setLen_ok checks hfits]
      exact ih (some q) _
  let full : Sys σ := {sys with mempoolGet := fun n w => (some (List.range n), w.env)}
  obtain ⟨w', hw'⟩ := hbuild 0 ((List.range 31).map (· + 1)).reverse none
    (PacketPool.take w (List.range 32))
  have hpoll : UserNode.poll full checks w = .ok (.ok 0, w') := by
    have hmany : PacketPool.allocateMany full UserNode.burstSize w =
        (.ok (List.range 32), PacketPool.take w (List.range 32)) := rfl
    have hrange : (List.range 32).reverse = ((List.range 31).map (· + 1)).reverse ++ [0] := rfl
    simp only [UserNode.poll, hmany, hrange, hw']
    rfl
  have : Produces σ checks stackConfig _ := .poll hpoll .refl
  rwa [userNode_poll_nic hpoll .refl] at this

/-- The sender's index is that of the best route, zero if there is none. -/
theorem send_produces (w : World σ) {stackConfig : StackConfig}
    (h : stackConfig.routes.length ≤ 10) :
    Produces σ checks stackConfig
      (((Ipv4Sender.bestRoute Ipv4Sender.dst stackConfig.routes).map Route.nic).getD 0) := by
  obtain ⟨sender, hsender⟩ := init_fits h
  let pkt : Packet := {w.pkts 0 with offset := 64, len := 100}
  have hprocess := sender.process_eq (w := w.setPkt 0 pkt) (p := 0) checks
    (by simp [pkt]) (by simp [pkt])
  have hproduces := Produces.send hsender hprocess
  rwa [Ipv4Sender.process_nic hprocess, Ipv4Sender.nic_eq, init_routes hsender] at hproduces

/-! ### The adapters -/

namespace IoNode
variable {α : Type} {ops : Adapter σ α}

/-- One adapter is pushed for each card. -/
theorem initNics_length {builders : String → Option α} {ctx : Context} {numQueues queueId : UInt16}
    {nics : List NicConfig} {id : Nat} {self self' : IoNode α} {w w' : World σ}
    (h : initNics ops builders ctx numQueues queueId nics id self w = .ok (self', w')) :
    self'.adapters.items.length = self.adapters.items.length + nics.length := by
  induction nics generalizing id self w with
  | nil =>
    simp only [initNics, Except.ok.injEq, Prod.mk.injEq] at h
    rw [h.1]
    rfl
  | cons nic rest ih =>
    simp only [initNics, Exec.bind_eq_ok] at h
    obtain ⟨a, _, ⟨res, a₁, w₁⟩, _, h⟩ := h
    cases res with
    | error e => cases h
    | ok mac =>
      dsimp only at h
      split at h
      · obtain ⟨adapters, hpush, h⟩ := Exec.bind_eq_ok.mp h
        have hlength := ih h
        rw [ArrayVec.push_ok hpush, List.length_append] at hlength
        simp only [List.length_cons, List.length_nil] at hlength ⊢
        omega
      · cases h

theorem init_length {builders : String → Option α} {stackConfig : StackConfig} {queueId : UInt16}
    {ctx : Context} {self : IoNode α} {w w' : World σ}
    (h : init ops builders stackConfig queueId ctx new w = .ok (self, w')) :
    self.adapters.items.length = stackConfig.nics.length := by
  obtain ⟨graph, _, h⟩ := Exec.bind_eq_ok.mp h
  simpa [new, ArrayVec.empty] using initNics_length h

theorem run_length {self self' : IoNode Dpdk} {calls : List Call} (h : Tracked self)
    (hrun : Run (Called sys checks) self calls self') :
    self'.adapters.items.length = self.adapters.items.length := by
  refine (hrun.invariant (P := fun node => Tracked node ∧
    node.adapters.items.length = self.adapters.items.length)
    (fun node call node' h hcall => ?_) ⟨h, rfl⟩).2
  cases hcall with
  | process _ hprocess =>
    obtain ⟨htracked, hlength⟩ := process_spec h.1 hprocess
    exact ⟨htracked, hlength.trans h.2⟩
  | poll hpoll =>
    obtain ⟨htracked, hlength, _⟩ := poll_spec h.1 hpoll
    exact ⟨htracked, hlength.trans h.2⟩

end IoNode

/-! ### The index against the adapters -/

/-- Whatever the node has done so far, the index of every packet the stack can produce is
that of an adapter, and processing such a packet misses no array. -/
def NicInRange (sys : Sys σ) (checks : Bool) (stackConfig : StackConfig) (node : IoNode Dpdk) :
    Prop :=
  ∀ nic, Produces σ checks stackConfig nic → ∀ calls node',
    Run (IoNode.Called sys checks) node calls node' →
      nic.toNat < node'.adapters.items.length ∧
      ∀ ctx p w, (w.pkts p).nic = nic →
        IoNode.process (Dpdk.adapter sys checks) ctx node' p w ≠ .error .outOfBounds

/-- The configuration has a card, and the best route, if the table can be loaded, names one. -/
def NicsCover (stackConfig : StackConfig) : Prop :=
  stackConfig.nics ≠ [] ∧
    (stackConfig.routes.length ≤ 10 →
      ∀ route, Ipv4Sender.bestRoute Ipv4Sender.dst stackConfig.routes = some route →
        route.nic.toNat < stackConfig.nics.length)

section
variable {builders : String → Option Dpdk} {stackConfig : StackConfig} {queueId : UInt16}
  {ctx : Context} {node : IoNode Dpdk} {w w₁ : World σ}

theorem NicsCover.produces (h : NicsCover stackConfig) {nic : UInt16}
    (hnic : Produces σ checks stackConfig nic) : nic.toNat < stackConfig.nics.length := by
  have hpos : 0 < stackConfig.nics.length := List.length_pos_iff.mpr h.1
  cases hnic with
  | poll hpoll hchain =>
    rw [userNode_poll_nic hpoll hchain]
    exact hpos
  | @send sender p w w' hsender hprocess =>
    have hroutes := init_routes hsender
    rw [Ipv4Sender.process_nic hprocess, Ipv4Sender.nic_eq, hroutes]
    cases hbest : Ipv4Sender.bestRoute Ipv4Sender.dst stackConfig.routes with
    | none => exact hpos
    | some route => exact h.2 (hroutes ▸ sender.routeTable.bound) route hbest

theorem NicInRange.cover (h : NicInRange sys checks stackConfig node) (w : World σ)
    (hlength : node.adapters.items.length = stackConfig.nics.length) : NicsCover stackConfig := by
  have hlt (nic : UInt16) (hnic : Produces σ checks stackConfig nic) :
      nic.toNat < stackConfig.nics.length := hlength ▸ (h nic hnic [] node (.nil node)).1
  refine ⟨List.length_pos_iff.mp (hlt 0 (poll_produces sys w stackConfig)),
    fun hfits route hbest => ?_⟩
  have := hlt _ (send_produces w hfits)
  rwa [hbest] at this

/-- **The index is in range** exactly if the configuration has a card and its best route
names one it has. -/
theorem nic_in_range_iff (hbuild : ∀ name a, builders name = some a → a = Dpdk.new)
    (hinit : IoNode.init (Dpdk.adapter sys checks) builders stackConfig queueId ctx IoNode.new w =
      .ok (node, w₁)) :
    NicInRange sys checks stackConfig node ↔ NicsCover stackConfig := by
  have hlength := IoNode.init_length hinit
  have htracked := IoNode.init_tracked hbuild hinit
  refine ⟨fun h => h.cover w hlength, fun h nic hnic calls node' hrun => ?_⟩
  have hlt : nic.toNat < node'.adapters.items.length := by
    rw [IoNode.run_length htracked hrun, hlength]
    exact h.produces hnic
  refine ⟨hlt, fun ctx p w hp => ?_⟩
  exact IoNode.process_inBounds (IoNode.run_tracked htracked hrun) (hp ▸ hlt)

end

namespace Sample

/-- A stack with one card and one route, which names card `nic`. -/
def configJson (nic : UInt32) : Json :=
  .obj [("name", .str "sample"),
    ("nics", .arr [.obj [("adapter_name", .str "Dpdk"), ("port", .num 0),
      ("ipv4", .str "192.168.10.1"), ("netmask", .str "255.255.255.0")]]),
    ("routes", .arr [.obj [("ipv4", .str "192.168.10.0"), ("cidr", .num 24), ("nic", .num nic)]]),
    ("graphs", .arr [.obj [("name", .str "udp"), ("cpus", .arr [.num 0])]])]

/-- The configuration as the loader has it. -/
def stackConfig (nic : UInt16) : StackConfig where
  name := "sample"
  nics := IoNode.Sample.stack.nics
  routes := [⟨Bytes.word32 192 168 10 0, 0xffffff, nic, 24⟩]
  graphs := [⟨"udp", [0]⟩]

theorem stackConfig_loads :
    StackConfig.fromJson json true (configJson 1) = .ok (stackConfig 1) := rfl

theorem stackConfig_init (nic : UInt16) :
    ∃ node w, IoNode.init (Dpdk.adapter IoNode.Sample.card true) (fun _ => some Dpdk.new)
      (stackConfig nic) 0 IoNode.Sample.ctx IoNode.new IoNode.Sample.world = .ok (node, w) :=
  ⟨_, _, rfl⟩

end Sample

theorem nic_in_range_iff_sample :
    ∃ node w, IoNode.init (Dpdk.adapter IoNode.Sample.card true) (fun _ => some Dpdk.new)
      (Sample.stackConfig 0) 0 IoNode.Sample.ctx IoNode.new IoNode.Sample.world = .ok (node, w) ∧
      (NicInRange IoNode.Sample.card true (Sample.stackConfig 0) node ↔
        NicsCover (Sample.stackConfig 0)) := by
  obtain ⟨node, w, hinit⟩ := Sample.stackConfig_init 0
  exact ⟨node, w, hinit, nic_in_range_iff (fun _ _ h => (Option.some.inj h).symm) hinit⟩

/-- **A route for card 1 of a stack with one card** loads, and its packets miss the adapters. -/
theorem route_past_the_cards :
    ∃ stackConfig node w,
      StackConfig.fromJson Sample.json true (Sample.configJson 1) = .ok stackConfig ∧
      IoNode.init (Dpdk.adapter IoNode.Sample.card true) (fun _ => some Dpdk.new) stackConfig 0
        IoNode.Sample.ctx IoNode.new IoNode.Sample.world = .ok (node, w) ∧
      ¬ NicInRange IoNode.Sample.card true stackConfig node := by
  obtain ⟨node, w, hinit⟩ := Sample.stackConfig_init 1
  refine ⟨Sample.stackConfig 1, node, w, Sample.stackConfig_loads, hinit, fun h => ?_⟩
  have hcover := h.cover IoNode.Sample.world (IoNode.init_length hinit)
  have hbest : Ipv4Sender.bestRoute Ipv4Sender.dst (Sample.stackConfig 1).routes =
      some ⟨Bytes.word32 192 168 10 0, 0xffffff, 1, 24⟩ := by decide +kernel
  exact absurd (hcover.2 (by decide) _ hbest) (by decide)

end OmniStack
