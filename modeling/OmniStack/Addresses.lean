import OmniStack.Engine.Drain.Depth
import OmniStack.Layout
import OmniStack.Modules.Delivery

/-! The two addresses a card is given.

`send` puts a packet's data pointer into the mbuf, and next to it the address under which
the card finds the data: `Packet::iova`, the packet object's own IO address and how far the
data is from the object. A packet that reaches `send` has its own buffer or a received
mbuf's, as its kind says (`run_paired`), and for a received mbuf's that distance leads out
of the object. So the two addresses agree where the buffer is local, or where the card sees
both memories as far off as the processor does (`addresses_agree_iff`). -/
namespace OmniStack
open Lib
variable {σ : Type} {sys : Sys σ} {checks : Bool}

/-- The packet's data is in the buffer its kind says: its own, or the received mbuf's. -/
def Packet.Paired (p : PacketId) (pkt : Packet) : Prop :=
  pkt.bufTy = .localBuf ∧ pkt.data = .own p ∨ ∃ m, pkt.bufTy = .mbuf m ∧ pkt.data = .room m

namespace World
variable {w w' w'' : World σ} {p : PacketId} {pkt : Packet}

def KeepsPaired (w w' : World σ) : Prop :=
  ∀ p, (w.pkts p).Paired p → (w'.pkts p).Paired p

theorem KeepsPaired.refl (w : World σ) : w.KeepsPaired w := fun _ h => h

theorem KeepsPaired.trans (h : w.KeepsPaired w') (h' : w'.KeepsPaired w'') :
    w.KeepsPaired w'' :=
  fun p hp => h' p (h p hp)

theorem KeepsPaired.of_pkts (h : w'.pkts = w.pkts) : w.KeepsPaired w' :=
  fun _ hp => h ▸ hp

theorem KeepsPaired.of_contents (h : w'.contents = w.contents) : w.KeepsPaired w' := by
  intro p hp
  have hpkt := congrFun (congrArg Prod.snd h) p
  have hty := congrArg Packet.bufTy hpkt
  have hdata := congrArg Packet.data hpkt
  simp only [contents] at hty hdata
  rwa [Packet.Paired, hty, hdata]

theorem KeepsPaired.setPkt (h : (w.pkts p).Paired p → pkt.Paired p) :
    w.KeepsPaired (w.setPkt p pkt) := by
  intro q hq
  by_cases heq : q = p
  · subst heq
    rw [World.setPkt_pkts_same]
    exact h hq
  · rwa [World.setPkt_pkts_ne _ _ heq]

theorem KeepsPaired.setFields (hty : pkt.bufTy = (w.pkts p).bufTy)
    (hdata : pkt.data = (w.pkts p).data) : w.KeepsPaired (w.setPkt p pkt) :=
  .setPkt fun hp => by rwa [Packet.Paired, hty, hdata]

theorem KeepsPaired.storeAt (h : w.KeepsPaired w') (p : PacketId) (off : Nat)
    (l : List UInt8) : w.KeepsPaired (w'.storeAt p off l) := h

/-- From `ptr` on `next` leads to paired packets only. -/
def PairedFrom (w : World σ) (ptr : Option PacketId) : Prop :=
  ∃ own : PacketId → Prop, (∀ p ∈ ptr, own p) ∧
    ∀ p, own p → (w.pkts p).Paired p ∧ ∀ q ∈ (w.pkts p).next, own q

theorem PairedFrom.none (w : World σ) : w.PairedFrom none :=
  ⟨fun _ => False, by simp, fun _ h => h.elim⟩

/-- One packet more, in front of the chain. -/
theorem PairedFrom.push {ptr : Option PacketId} (h : w.PairedFrom ptr) (hpkt : pkt.Paired p)
    (hnext : pkt.next = ptr) : (w.setPkt p pkt).PairedFrom (some p) := by
  obtain ⟨own, hptr, hown⟩ := h
  refine ⟨fun q => q = p ∨ own q, fun q hq => .inl (Option.mem_some_iff.mp hq).symm,
    fun q hq => ?_⟩
  by_cases heq : q = p
  · subst heq
    rw [World.setPkt_pkts_same, hnext]
    exact ⟨hpkt, fun r hr => .inr (hptr r hr)⟩
  · rw [World.setPkt_pkts_ne _ _ heq]
    obtain ⟨hq', hnext'⟩ := hown q (hq.resolve_left heq)
    exact ⟨hq', fun r hr => .inr (hnext' r hr)⟩

/-- A walk from `ptr` on passes paired packets. -/
theorem PairedFrom.chain {fuel : Nat} {ptr : Option PacketId} (h : w.PairedFrom ptr) :
    ∀ p ∈ Worker.chain w.pkts fuel ptr, (w.pkts p).Paired p := by
  obtain ⟨own, hptr, hown⟩ := h
  induction fuel generalizing ptr with
  | zero => simp [Worker.chain]
  | succ fuel ih =>
    cases ptr with
    | none => simp [Worker.chain]
    | some p =>
      obtain ⟨hp, hnext⟩ := hown p (hptr p rfl)
      intro q hq
      rcases List.mem_cons.mp hq with rfl | hq
      · exact hp
      · exact ih hnext q hq

end World

/-- A module leaves packets their buffers and polls packets that have theirs. -/
structure Module.Pairs (m : Module σ) : Prop where
  process {ctx : Context} {p : PacketId} {w w' : World σ} {res : Result Unit} :
    m.process ctx p w = .ok (res, w') → w.KeepsPaired w'
  poll {ctx : Context} {w w' : World σ} {res : Result PacketId} :
    m.poll ctx w = .ok (res, w') →
      w.KeepsPaired w' ∧ ∀ head, res = .ok head → w'.PairedFrom (some head)

/-- A module that is not polled. -/
theorem Module.Pairs.of_process {m : Module σ} (hpoll : m.poll = fun _ w => .ok (.error .nop, w))
    (hprocess : ∀ ctx p w res w', m.process ctx p w = .ok (res, w') → w.KeepsPaired w') :
    m.Pairs where
  process h := hprocess _ _ _ _ _ h
  poll h := by
    rw [hpoll] at h
    cases h
    exact ⟨.refl _, fun _ h => by cases h⟩

/-! ### The modules between the ends -/

theorem World.KeepsPaired.of_edited {p : PacketId} {w w' : World σ} (h : World.Edited p w w') :
    w.KeepsPaired w' := by
  obtain ⟨⟨pkt, hpkts, hdata, hty, _⟩, _⟩ := h
  apply (World.KeepsPaired.setFields hty hdata).trans
  exact .of_pkts hpkts

theorem PacketPool.deallocate_pairs {p : PacketId} {threadId : UInt32} {w w' : World σ}
    (h : PacketPool.deallocate checks p threadId w = .ok w') : w.KeepsPaired w' :=
  .of_contents (Dpdk.deallocate_spec h).2

theorem EthSender.module_pairs : (EthSender.module checks : Module σ).Pairs :=
  .of_process rfl fun _ _ _ _ _ h => .of_edited (EthSender.process_edits h).2

theorem EthReceiver.module_pairs : (EthReceiver.module checks : Module σ).Pairs :=
  .of_process rfl fun _ _ _ _ _ h => .of_edited (EthReceiver.process_edits h).2

theorem UdpSender.module_pairs : (UdpSender.module checks : Module σ).Pairs :=
  .of_process rfl fun _ _ _ _ _ h => .of_edited (UdpSender.process_edits h).2

theorem UdpReceiver.module_pairs : (UdpReceiver.module checks : Module σ).Pairs :=
  .of_process rfl fun _ _ _ _ _ h => .of_edited (UdpReceiver.process_edits h).2

theorem Ipv4Sender.module_pairs {τ : Type} {getStackConfig : String → Option StackConfig}
    {id : NodeId} : (Ipv4Sender.module checks getStackConfig id : Module (Instances τ)).Pairs :=
  .of_process rfl fun _ _ _ _ _ h => .of_edited (Ipv4Sender.process_edits h).2

theorem Ipv4Receiver.module_pairs : (Ipv4Receiver.module checks : Module σ).Pairs := by
  apply Module.Pairs.of_process rfl
  intro ctx p w res w' h
  rcases Ipv4Receiver.process_edits h with ⟨_, hedited⟩ | ⟨_, w₁, hedited, hfreed⟩
  · exact .of_edited hedited
  · exact (World.KeepsPaired.of_edited hedited).trans (PacketPool.deallocate_pairs hfreed)

/-! ### The user node -/

theorem UserNode.buildChain_pairs {ps : List PacketId} {ret ret' : Option PacketId}
    {w w' : World σ} (hret : w.PairedFrom ret)
    (h : UserNode.buildChain checks ps ret w = .ok (ret', w')) :
    w.KeepsPaired w' ∧ w'.PairedFrom ret' := by
  induction ps generalizing ret w with
  | nil =>
    cases h
    exact ⟨.refl _, hret⟩
  | cons p rest ih =>
    simp only [UserNode.buildChain, Packet.setLen, Exec.bind_eq_ok, Exec.pure_eq_ok] at h
    obtain ⟨pkt, ⟨len, _, rfl⟩, h⟩ := h
    obtain ⟨hkeeps, hchain⟩ := ih (hret.push (.inl ⟨rfl, rfl⟩) rfl) h
    apply And.intro _ hchain
    apply World.KeepsPaired.trans _ hkeeps
    exact .setPkt fun _ => .inl ⟨rfl, rfl⟩

theorem UserNode.module_pairs : (UserNode.module sys checks).Pairs where
  process h := PacketPool.deallocate_pairs (UserNode.process_drops h).2
  poll {ctx w w' res} h := by
    simp only [UserNode.module, UserNode.poll, PacketPool.allocateMany] at h
    cases hget : sys.mempoolGet UserNode.burstSize w with
    | mk objs env =>
      rw [hget] at h
      cases objs with
      | none =>
        cases h
        exact ⟨.of_pkts rfl, fun _ h => by cases h⟩
      | some ps =>
        obtain ⟨⟨ret, w₁⟩, hbuild, h⟩ := Exec.bind_eq_ok.mp h
        have htaken : w.KeepsPaired (PacketPool.take {w with env} ps) :=
          .of_pkts (PacketPool.take_spec _ _).1
        obtain ⟨hkeeps, hchain⟩ := UserNode.buildChain_pairs (.none _) hbuild
        cases ret with
        | none => cases h
        | some head =>
          cases h
          refine ⟨htaken.trans hkeeps, fun head' h => ?_⟩
          cases h
          exact hchain

/-! ### The IO node -/

namespace Dpdk

theorem flush_pairs {self self' : Dpdk} {w w' : World σ} {res : Result Unit}
    (h : flush sys checks self w = .ok (res, self', w')) : w.KeepsPaired w' :=
  .of_contents (flush_spec h).2.2.1

theorem send_pairs {self self' : Dpdk} {ctx : Context} {p : PacketId} {w w' : World σ}
    {res : Result Unit} (h : send sys checks self ctx p w = .ok (res, self', w')) :
    w.KeepsPaired w' := by
  simp only [send, Exec.bind_eq_ok] at h
  obtain ⟨m, _, len, _, addr, _, ⟨flags, w₁⟩, hoffload, h⟩ := h
  have hsent : w.KeepsPaired w₁ := by
    rw [offload_spec hoffload]
    apply World.KeepsPaired.storeAt
    exact World.KeepsPaired.setFields rfl rfl
  split at h
  · obtain ⟨⟨res₁, self₁, w₂⟩, hflush, h⟩ := Exec.bind_eq_ok.mp h
    have hflushed : w.KeepsPaired w₂ := fun q hq => flush_pairs hflush q (hsent q hq)
    cases res₁ <;>
    · simp only [Exec.pure_eq_ok, Prod.mk.injEq] at h
      obtain ⟨_, _, rfl⟩ := h
      exact hflushed
  · simp only [Exec.pure_eq_ok, Prod.mk.injEq] at h
    obtain ⟨_, _, rfl⟩ := h
    exact hsent

/-- The loop gives each packet the data room of its mbuf. -/
theorem recvLoop_pairs {self : Dpdk} {ms : List MbufPtr} {ret : Option PacketId} {w w' : World σ}
    {res : Result (Option PacketId)} (hroom : ∀ m ∈ ms, (w.mbufs m).bufAddr.1 = .room m)
    (hret : w.PairedFrom ret) (h : recvLoop sys checks self ms ret w = .ok (res, w')) :
    w.KeepsPaired w' ∧ ∀ head, res = .ok head → w'.PairedFrom head := by
  induction ms generalizing ret w with
  | nil =>
    cases h
    refine ⟨.refl _, fun head h => ?_⟩
    cases h
    exact hret
  | cons m rest ih =>
    simp only [recvLoop] at h
    obtain ⟨⟨res₁, w₁⟩, halloc, h⟩ := Exec.bind_eq_ok.mp h
    have hpkts := (PacketPool.allocate_cases halloc).1
    have hmbufs := PacketPool.allocate_mbufs halloc
    cases res₁ with
    | error e =>
      cases h
      exact ⟨.of_pkts hpkts, fun _ h => by cases h⟩
    | ok p =>
      simp only [Packet.setLen, Exec.bind_eq_ok, Exec.pure_eq_ok] at h
      obtain ⟨pkt, ⟨len, _, rfl⟩, h⟩ := h
      have hdata : (w₁.mbufs m).bufAddr.1 = .room m := by
        rw [hmbufs]
        exact hroom m List.mem_cons_self
      have hrest : ∀ m' ∈ rest, (w₁.mbufs m').bufAddr.1 = .room m' := by
        intro m' hm'
        rw [hmbufs]
        exact hroom m' (List.mem_cons_of_mem _ hm')
      have hret₁ : w₁.PairedFrom ret := by
        rwa [World.PairedFrom, hpkts]
      obtain ⟨hkeeps, hchain⟩ := ih (w := w₁.setPkt p _) hrest
        (hret₁.push (.inr ⟨m, rfl, hdata⟩) rfl) h
      apply And.intro _ hchain
      apply (World.KeepsPaired.of_pkts hpkts).trans
      apply World.KeepsPaired.trans _ hkeeps
      exact .setPkt fun _ => .inr ⟨m, rfl, hdata⟩

theorem recv_pairs {self self' : Dpdk} {w w' : World σ} {res : Result PacketId}
    (h : recv sys checks self w = .ok (res, self', w')) :
    w.KeepsPaired w' ∧ ∀ head, res = .ok head → w'.PairedFrom (some head) := by
  simp only [recv] at h
  split at h
  · cases h
    exact ⟨.of_pkts rfl, fun _ h => by cases h⟩
  · split at h
    · cases h
    · obtain ⟨⟨res₁, w₁⟩, hloop, h⟩ := Exec.bind_eq_ok.mp h
      have hput (w : World σ) (rx : List RxMbuf) : (putRx w rx).pkts = w.pkts := by
        induction rx generalizing w with
        | nil => rfl
        | cons m rest ih => exact ih _
      obtain ⟨hkeeps, hchain⟩ := recvLoop_pairs
        (fun m hm => putRx_room _ _ (List.mem_reverse.mp hm)) (.none _) hloop
      have hreceived := (World.KeepsPaired.of_pkts (hput _ _)).trans hkeeps
      cases res₁ with
      | error e =>
        cases h
        exact ⟨hreceived, fun _ h => by cases h⟩
      | ok head =>
        cases head with
        | none => cases h
        | some p =>
          cases h
          refine ⟨hreceived, fun head h => ?_⟩
          cases h
          exact hchain _ rfl

end Dpdk

namespace IoNode
variable {ctx : Context}

theorem process_pairs {self self' : IoNode Dpdk} {p : PacketId} {w w' : World σ}
    {res : Result Unit}
    (h : process (Dpdk.adapter sys checks) ctx self p w = .ok (res, self', w')) :
    w.KeepsPaired w' := by
  simp only [process, Exec.bind_eq_ok] at h
  obtain ⟨mac, _, adapter, _, ⟨res₁, adapter', w₁⟩, hsend, h⟩ := h
  have hsent : w.KeepsPaired w₁ := fun q hq => Dpdk.send_pairs hsend q hq
  cases res₁ with
  | error e =>
    cases h
    exact hsent
  | ok u =>
    simp only [Exec.bind_eq_ok, Exec.pure_eq_ok, Prod.mk.injEq] at h
    obtain ⟨_, _, _, _, rfl⟩ := h
    exact hsent

theorem flushAll_pairs {idx : Nat} {self self' : IoNode Dpdk} {w w' : World σ}
    {res : Result Unit}
    (h : flushAll (Dpdk.adapter sys checks) ctx idx self w = .ok (res, self', w')) :
    w.KeepsPaired w' := by
  induction idx generalizing self w with
  | zero =>
    cases h
    exact .refl _
  | succ idx ih =>
    simp only [flushAll, Exec.bind_eq_ok] at h
    obtain ⟨nic, _, adapter, _, ⟨res₁, adapter', w₁⟩, hflush, h⟩ := h
    have hflushed : w.KeepsPaired w₁ := Dpdk.flush_pairs hflush
    cases res₁ with
    | error e =>
      cases h
      exact hflushed
    | ok u => exact hflushed.trans (ih h)

theorem recvAny_pairs {polled rest adapters : List Dpdk} {w w' : World σ}
    {res : Result PacketId}
    (h : recvAny (Dpdk.adapter sys checks) ctx polled rest w = .ok (res, adapters, w')) :
    w.KeepsPaired w' ∧ ∀ head, res = .ok head → w'.PairedFrom (some head) := by
  induction rest generalizing polled w with
  | nil =>
    cases h
    exact ⟨.refl _, fun _ h => by cases h⟩
  | cons adapter rest ih =>
    simp only [recvAny] at h
    obtain ⟨⟨res₁, adapter', w₁⟩, hrecv, h⟩ := Exec.bind_eq_ok.mp h
    obtain ⟨hkeeps, hchain⟩ := Dpdk.recv_pairs hrecv
    by_cases hnop : res₁ = .error .nop
    · subst hnop
      obtain ⟨hrest, hchain'⟩ := ih h
      exact ⟨hkeeps.trans hrest, hchain'⟩
    · have hdone : (res₁, polled ++ adapter' :: rest, w₁) = (res, adapters, w') := by
        rcases res₁ with e | head
        · cases e <;> first | exact absurd rfl hnop | exact Exec.pure_eq_ok.mp h
        · exact Exec.pure_eq_ok.mp h
      cases hdone
      exact ⟨hkeeps, hchain⟩

theorem poll_pairs {self self' : IoNode Dpdk} {w w' : World σ} {res : Result PacketId}
    (h : poll (Dpdk.adapter sys checks) ctx self w = .ok (res, self', w')) :
    w.KeepsPaired w' ∧ ∀ head, res = .ok head → w'.PairedFrom (some head) := by
  simp only [poll] at h
  obtain ⟨⟨res₁, self₁, w₁⟩, hflush, h⟩ := Exec.bind_eq_ok.mp h
  have hflushed := flushAll_pairs hflush
  cases res₁ with
  | error e =>
    cases h
    exact ⟨hflushed, fun _ h => by cases h⟩
  | ok u =>
    simp only [Exec.bind_eq_ok, Exec.pure_eq_ok, Prod.mk.injEq] at h
    obtain ⟨⟨res₂, adapters, w₂⟩, hrecv, adapters', _, rfl, _, rfl⟩ := h
    obtain ⟨hkeeps, hchain⟩ := recvAny_pairs hrecv
    exact ⟨hflushed.trans hkeeps, hchain⟩

theorem module_pairs {τ : Type} {sys : Sys (Instances τ)}
    {getStackConfig : String → Option StackConfig} {id : NodeId} :
    (module sys checks getStackConfig id).Pairs where
  process h := by
    obtain ⟨self, w₁, env, hcall, rfl⟩ := keep_eq_ok h
    exact (process_pairs hcall).trans (.of_pkts rfl)
  poll h := by
    obtain ⟨self, w₁, env, hcall, rfl⟩ := keep_eq_ok h
    obtain ⟨hkeeps, hchain⟩ := poll_pairs hcall
    exact ⟨hkeeps.trans (.of_pkts rfl), hchain⟩

end IoNode

theorem registry_pairs {τ : Type} {sys : Sys (Instances τ)}
    {getStackConfig : String → Option StackConfig} {name : String}
    {build : NodeId → Module (Instances τ)}
    (h : registry sys checks getStackConfig name = some build) (id : NodeId) :
    (build id).Pairs := by
  unfold registry at h
  split at h <;> cases h
  · exact IoNode.module_pairs
  · exact UserNode.module_pairs
  · exact EthSender.module_pairs
  · exact EthReceiver.module_pairs
  · exact Ipv4Sender.module_pairs
  · exact Ipv4Receiver.module_pairs
  · exact UdpSender.module_pairs
  · exact UdpReceiver.module_pairs

/-! ### Runs of a worker -/

/-- The packets of the tasks are paired. -/
def Loop.TasksPaired (s : Loop σ) : Prop :=
  ∀ task ∈ s.queue.live, ∀ p ∈ task.data, (s.world.pkts p).Paired p

namespace Worker
variable {shouldStop : World σ → Bool} {w : Worker σ} {ctx : Context}

theorem mem_pop_live {s : Loop σ} (hindex : s.queue.index ≠ 0) {task : Task} :
    task ∈ s.queue.live ↔ task ∈ s.queue.pop.2.live ∨ task = s.queue.pop.1 := by
  rw [ArrayStack.pop_live hindex, List.mem_append, List.mem_singleton]

/-- A turn after which the run goes on leaves tasks for paired packets. -/
theorem turn_paired (hmodules : ∀ (n : NodeId) (node : Node σ), w.nodes.items[n]? = some node →
      node.module.Pairs) {s t : Loop σ} {ev : Event} (hs : s.TasksPaired)
    (h : Turn checks shouldStop w ctx s ev t) :
    (∃ res, t.phase = .done res) ∨ t.TasksPaired := by
  cases h with
  | leave | pollFailed | callFailed => exact .inl ⟨_, rfl⟩
  | enter | pollEnd | drained => exact .inr hs
  | idle _ hnode hpoll =>
    obtain ⟨hkeeps, _⟩ := (hmodules _ _ hnode).poll hpoll
    exact .inr fun task htask p hp => hkeeps p (hs task htask p hp)
  | polled _ hnode hpoll hburst _ hpush =>
    obtain ⟨hkeeps, hchain⟩ := (hmodules _ _ hnode).poll hpoll
    refine .inr fun task htask p hp => ?_
    rw [ArrayStack.pushAll_live hpush, List.mem_append] at htask
    rcases htask with htask | htask
    · exact hkeeps p (hs task htask p hp)
    · obtain ⟨n, _, htask⟩ := List.mem_flatMap.mp htask
      obtain ⟨q, hq, rfl⟩ := List.mem_map.mp htask
      obtain rfl := Option.mem_some_iff.mp hp
      rw [hburst] at hq
      exact (hchain _ rfl).chain q hq
  | forwarded _ hindex htop hnode hcall _ hpush =>
    have hkeeps := (hmodules _ _ hnode).process hcall
    refine .inr fun task htask p hp => ?_
    have hpaired : (s.world.pkts p).Paired p := by
      rw [ArrayStack.pushAll_live hpush, List.mem_append] at htask
      rcases htask with htask | htask
      · exact hs task ((mem_pop_live hindex).mpr (.inl htask)) p hp
      · obtain ⟨n, _, rfl⟩ := List.mem_map.mp htask
        exact hs _ ((mem_pop_live hindex).mpr (.inr rfl)) p (by rwa [htop])
    apply hkeeps.trans _ p hpaired
    exact .setFields rfl rfl
  | dropped _ hindex _ hnode hcall =>
    have hkeeps := (hmodules _ _ hnode).process hcall
    exact .inr fun task htask p hp =>
      hkeeps p (hs task ((mem_pop_live hindex).mpr (.inl htask)) p hp)

/-- As long as a worker runs, its tasks are for paired packets. -/
theorem run_paired (hmodules : ∀ (n : NodeId) (node : Node σ), w.nodes.items[n]? = some node →
      node.module.Pairs) {world : World σ} {s : Loop σ} {evs : List Event}
    (hrun : Run (Step checks shouldStop w ctx) (Loop.initial world) evs s) :
    (∃ res, s.phase = .done res) ∨ s.TasksPaired := by
  refine hrun.invariant (P := fun s => (∃ res, s.phase = .done res) ∨ s.TasksPaired)
    (fun s ev t hs hstep => ?_) (.inr fun task htask => ?_)
  · rcases hs with ⟨res, hdone⟩ | hs
    · rw [Step, step, hdone] at hstep
      cases hstep
    · exact turn_paired hmodules hs (step_turn hstep)
  · cases htask

end Worker

/-! ### Agreement -/

/-- Where the card finds the beginning of a buffer: a packet's is in its object, whose header
has the object's IO address; an mbuf has its own. -/
def ioAddr (sys : Sys σ) (w : World σ) : Buffer → UInt64
  | .own p => sys.objIova p + (sys.bufferAddr (.own p) - sys.objAddr p)
  | .room m => (w.mbufs m).bufIova

/-- The mbuf's two addresses are those of the same memory. -/
def SameMemory (sys : Sys σ) (w : World σ) (mbuf : Mbuf) : Prop :=
  mbuf.bufIova = ioAddr sys w mbuf.bufAddr.1 + UInt64.ofNat mbuf.bufAddr.2

/-- The packet has its own buffer, or the card sees the packet object as far from where the
processor does as it sees the received mbuf's data. -/
def LocalOrLevel (sys : Sys σ) (w : World σ) (p : PacketId) : Prop :=
  (w.pkts p).bufTy = .localBuf ∨ ∃ m, (w.pkts p).bufTy = .mbuf m ∧
    sys.objIova p - sys.objAddr p = (w.mbufs m).bufIova - sys.bufferAddr (.room m)

/-- Whichever build computes it, it is the wrapped sum. -/
theorem Dpdk.iova_eq_ok {p : PacketId} {pkt : Packet} {addr : UInt64}
    (h : Dpdk.iova sys checks p pkt = .ok addr) :
    addr = sys.objIova p +
      (sys.bufferAddr pkt.data + UInt64.ofNat pkt.offset.toNat - sys.objAddr p) := by
  unfold Dpdk.iova at h
  split at h
  · cases h
  · obtain ⟨diff, hdiff, hsum⟩ := Exec.bind_eq_ok.mp h
    obtain rfl := sub64_eq_ok hdiff
    rw [add64_eq_ok hsum, UInt64.ofNat_uInt16ToNat]

/-- The address `send` computes is right where the buffer is local, or where the distances are
the same. -/
theorem same_iff {w : World σ} {p : PacketId} (hpaired : (w.pkts p).Paired p) {mbuf : Mbuf}
    (hdata : mbuf.bufAddr = ((w.pkts p).data, (w.pkts p).offset.toNat))
    (hiova : Dpdk.iova sys checks p (w.pkts p) = .ok mbuf.bufIova) :
    SameMemory sys w mbuf ↔ LocalOrLevel sys w p := by
  have haddr := Dpdk.iova_eq_ok hiova
  rw [SameMemory, hdata, LocalOrLevel, haddr]
  generalize UInt64.ofNat (w.pkts p).offset.toNat = offset
  rcases hpaired with ⟨hty, hbuf⟩ | ⟨m, hty, hbuf⟩
  · rw [hty, hbuf, ioAddr]
    have hsum : sys.objIova p + (sys.bufferAddr (.own p) + offset - sys.objAddr p) =
        sys.objIova p + (sys.bufferAddr (.own p) - sys.objAddr p) + offset := by grind
    exact ⟨fun _ => .inl rfl, fun _ => hsum⟩
  · rw [hty, hbuf, ioAddr]
    have hlevel : sys.objIova p + (sys.bufferAddr (.room m) + offset - sys.objAddr p) =
        (w.mbufs m).bufIova + offset ↔
      sys.objIova p - sys.objAddr p = (w.mbufs m).bufIova - sys.bufferAddr (.room m) := by
      grind
    rw [hlevel]
    constructor
    · exact fun h => .inr ⟨m, rfl, h⟩
    · intro h
      rcases h with hlocal | ⟨m', hm', hlevel'⟩
      · cases hlocal
      · cases hm'
        exact hlevel'

/-- `send` has filled mbuf `m` in for the packet, with the world as `filled`; it returns, or
flushes first. -/
structure Dpdk.Fills (sys : Sys σ) (checks : Bool) (adapter : Dpdk) (p : PacketId) (w : World σ)
    (m : MbufPtr) (filled : World σ) (res : Result Unit) (adapter' : Dpdk) (w' : World σ) :
    Prop where
  slot : adapter.txBufs[adapter.txIdx]? = some m
  others : ∀ m', m' ≠ m → filled.mbufs m' = w.mbufs m'
  describes : Describes (m, filled.mbufs m) (p, w.pkts p)
  rest : adapter.txIdx + 1 ≠ 64 ∧ adapter' = {adapter with txIdx := adapter.txIdx + 1} ∧
      w' = filled ∨
    adapter.txIdx + 1 = 64 ∧
      Dpdk.flush sys checks {adapter with txIdx := adapter.txIdx + 1} filled =
        .ok (res, adapter', w')

theorem Dpdk.send_fills {adapter adapter' : Dpdk} {ctx : Context} {p : PacketId} {w w' : World σ}
    {res : Result Unit} (h : Dpdk.send sys checks adapter ctx p w = .ok (res, adapter', w')) :
    ∃ m filled, Fills sys checks adapter p w m filled res adapter' w' ∧
      iova sys checks p (w.pkts p) = .ok (filled.mbufs m).bufIova := by
  have hslot : ∃ m, adapter.txBufs[adapter.txIdx]? = some m := by
    simp only [send, Exec.bind_eq_ok, getUnchecked_eq_ok] at h
    obtain ⟨m, hslot, _⟩ := h
    exact ⟨m, hslot⟩
  obtain ⟨m, hslot⟩ := hslot
  obtain ⟨filled, _, hothers, hdescribes, haddr, hrest⟩ := send_cases hslot h
  exact ⟨m, filled, ⟨hslot, hothers, hdescribes, hrest⟩, haddr⟩

/-- The next call is an IO node's, on packet `p`; it calls this adapter's `send` in the world
`reached`. -/
structure Reaches {τ : Type} (config : GraphConfig) (s : Loop (Instances τ)) (n : NodeId)
    (p : PacketId) (adapter : Dpdk) (reached : World (Instances τ)) : Prop where
  phase : s.phase = .drain
  index : s.queue.index ≠ 0
  task : s.queue.pop.1 = ⟨n, some p⟩
  ioNode : config.modules[n]? = some "IoNode"
  adapter : (s.world.env.ioNodes n).adapters.items[(s.world.pkts p).nic.toNat]? = some adapter
  world : ∃ mac, (s.world.env.ioNodes n).nicToMac[(s.world.pkts p).nic.toNat]? = some mac ∧
    reached = IoNode.setSrc mac p s.world

section
variable {τ : Type} {sys : Sys (Instances τ)} {config : GraphConfig} {ctx : Context}
  {w : Worker (Instances τ)} {world reached : World (Instances τ)} {s : Loop (Instances τ)}
  {n : NodeId} {p : PacketId} {adapter : Dpdk}

/-- The call is this `send` and what the node makes of its answer. -/
theorem Reaches.call (h : Reaches config s n p adapter reached)
    (hreg : Registered sys checks config ctx w world) {node : Node (Instances τ)}
    (hnode : w.nodes.items[n]? = some node) :
    node.module.process ctx p s.world = IoNode.keep n
      (Dpdk.send sys checks adapter ctx p reached >>=
        (s.world.env.ioNodes n).afterSend (s.world.pkts p).nic.toNat) := by
  obtain ⟨getStackConfig, hbuilt⟩ := hreg.built
  obtain ⟨name, build, hname, hbuild, hmodule⟩ := hbuilt n node hnode
  obtain rfl : "IoNode" = name := Option.some.inj (h.ioNode.symm.trans hname)
  obtain rfl := Option.some.inj hbuild
  obtain ⟨mac, hmac, rfl⟩ := h.world
  rw [hmodule]
  show IoNode.keep n (IoNode.process _ ctx _ p s.world) = _
  rw [IoNode.process_eq _ ctx hmac h.adapter]
  rfl

/-- **The card is given the right address** of a packet that reaches `send` if and only if the
packet's buffer is local, or the card sees the received mbuf's data room displaced as it sees
the packet object. -/
theorem addresses_agree_iff (hreg : Registered sys checks config ctx w world)
    {shouldStop : World (Instances τ) → Bool} {evs : List Event}
    (hrun : Run (Worker.Step checks shouldStop w ctx) (Loop.initial world) evs s)
    (hreach : Reaches config s n p adapter reached) {res : Result Unit} {adapter' : Dpdk}
    {w' : World (Instances τ)}
    (hsend : Dpdk.send sys checks adapter ctx p reached = .ok (res, adapter', w')) :
    (∀ node, w.nodes.items[n]? = some node → node.module.process ctx p s.world = IoNode.keep n
      (Dpdk.send sys checks adapter ctx p reached >>=
        (s.world.env.ioNodes n).afterSend (s.world.pkts p).nic.toNat)) ∧
    ∃ m filled, Dpdk.Fills sys checks adapter p reached m filled res adapter' w' ∧
      (SameMemory sys reached (filled.mbufs m) ↔ LocalOrLevel sys reached p) := by
  refine ⟨fun node hnode => hreach.call hreg hnode, ?_⟩
  obtain ⟨getStackConfig, hbuilt⟩ := hreg.built
  have hpaired : (s.world.pkts p).Paired p := by
    rcases Worker.run_paired (fun n node hnode => by
      obtain ⟨name, build, _, hbuild, hmodule⟩ := hbuilt n node hnode
      rw [hmodule]
      exact registry_pairs hbuild n) hrun with ⟨res, hdone⟩ | htasks
    · rw [hreach.phase] at hdone
      cases hdone
    · apply htasks s.queue.pop.1 ((Worker.mem_pop_live hreach.index).mpr (.inr rfl))
      rw [hreach.task]
      rfl
  obtain ⟨mac, _, hreached⟩ := hreach.world
  have hpkts : reached.pkts = s.world.pkts := by rw [hreached]; rfl
  rw [← hpkts] at hpaired
  obtain ⟨m, filled, hfills, haddr⟩ := Dpdk.send_fills hsend
  exact ⟨m, filled, hfills, same_iff hpaired hfills.describes.1 haddr⟩

end

/-! ### A packet sent on and a packet sent back -/

namespace Sample

/-- A card that receives this burst again and again. It sees packet objects 1 GiB beyond where
the processor does. -/
def addressed (rx : List RxMbuf) : Sys (Instances Unit) where
  __ := Sys.quiet
  ethRxBurst := fun _ _ _ w => (rx, w.env)
  objAddr := fun p => 0x100000 + 0x1000 * UInt64.ofNat p
  objIova := fun p => 0x40100000 + 0x1000 * UInt64.ofNat p
  bufferAddr
    | .own p => 0x100080 + 0x1000 * UInt64.ofNat p
    | .room m => 0x200000 + 0x1000 * UInt64.ofNat m

/-- A UDP datagram, received in an mbuf the card sees 2 GiB beyond where the processor does. -/
def datagram : RxMbuf where
  ptr := 7
  mbuf := ⟨(.room 7, 0), 0x80207000, 2048, 128, 0, none, 60, 60, 0, 0⟩
  room := fun i => if i = 140 then 8 else if i = 142 then 0x45 else if i = 145 then 46 else
    if i = 150 then 64 else if i = 151 then 0x11 else 0

/-- A graph that sends received datagrams back. -/
def echoGraph : GraphConfig where
  name := "Echo"
  modules := ["IoNode", "EthReceiver", "Ipv4Receiver", "UdpReceiver", "UdpSender", "Ipv4Sender",
    "EthSender"]
  links := [("IoNode", "EthReceiver"), ("EthReceiver", "Ipv4Receiver"),
    ("Ipv4Receiver", "UdpReceiver"), ("UdpReceiver", "UdpSender"), ("UdpSender", "Ipv4Sender"),
    ("Ipv4Sender", "EthSender"), ("EthSender", "IoNode")]

/-- A `send` to come: where the worker is, and what the mbuf is given. -/
structure Sent where
  draining : Bool
  index : Nat
  task : Task
  txIdx : Nat
  bufAddr : Buffer × Nat
  bufIova : UInt64
  /-- where the card finds the data -/
  expected : UInt64
  deriving DecidableEq

def draining : Phase → Bool
  | .drain => true
  | _ => false

theorem eq_drain {phase : Phase} (h : draining phase = true) : phase = .drain := by
  cases phase <;> first | rfl | cases h

def startedWorker : Result (Worker (Instances Unit)) →
    Except EngineFault (Worker (Instances Unit))
  | .ok w => .ok w
  | .error _ => .error .returned

/-- So many turns of a worker on the graph, and the `send` that node 0 then makes of `p`. -/
def sendAfter (sys : Sys (Instances Unit)) (checks : Bool) (config : GraphConfig) (turns : Nat)
    (p : PacketId) : Except EngineFault Sent := do
  let g ← Worker.callModule
    (Graph.new (registry sys checks fun _ => some udpStack) 0 config 14)
  let w₀ ← Worker.callModule (Worker.new 0 "UDP" g.id g.nodes g.cpu)
  let (res, world) ← Worker.callModule (w₀.start ctx udpWorld)
  let w ← startedWorker res
  let (_, s) ← Run.iterate (w.step checks (fun _ => false) ctx) turns (Loop.initial world)
  let mac ← Worker.callModule
    (getUnchecked (s.world.env.ioNodes 0).nicToMac[(s.world.pkts p).nic.toNat]?)
  let adapter ← Worker.callModule
    (getUnchecked (s.world.env.ioNodes 0).adapters.items[(s.world.pkts p).nic.toNat]?)
  let reached := IoNode.setSrc mac p s.world
  let (_, _, w') ← Worker.callModule (Dpdk.send sys checks adapter ctx p reached)
  let m ← Worker.callModule (getUnchecked adapter.txBufs[adapter.txIdx]?)
  return {
    draining := draining s.phase, index := s.queue.index, task := s.queue.pop.1
    txIdx := adapter.txIdx, bufAddr := (w'.mbufs m).bufAddr, bufIova := (w'.mbufs m).bufIova
    expected := ioAddr sys reached (w'.mbufs m).bufAddr.1 +
      UInt64.ofNat (w'.mbufs m).bufAddr.2 }

/-- What `sendAfter` has computed is a run and the `send` at its end. -/
theorem sendAfter_run {sys : Sys (Instances Unit)} {checks : Bool} {config : GraphConfig}
    {turns : Nat} {p : PacketId} {sent : Sent} (h : sendAfter sys checks config turns p = .ok sent)
    (hdraining : sent.draining = true) (hindex : sent.index ≠ 0) (htask : sent.task = ⟨0, some p⟩)
    (hio : config.modules[0]? = some "IoNode") :
    ∃ w world evs s adapter reached res adapter' w' m,
      Registered sys checks config ctx w world ∧
      Run (Worker.Step checks (fun _ => false) w ctx) (Loop.initial world) evs s ∧
      Reaches config s 0 p adapter reached ∧
      Dpdk.send sys checks adapter ctx p reached = .ok (res, adapter', w') ∧
      adapter.txIdx = sent.txIdx ∧ adapter.txBufs[adapter.txIdx]? = some m ∧
      (w'.mbufs m).bufIova = sent.bufIova ∧
      ioAddr sys reached (w'.mbufs m).bufAddr.1 + UInt64.ofNat (w'.mbufs m).bufAddr.2 =
        sent.expected := by
  simp only [sendAfter, Exec.bind_eq_ok, Worker.callModule_ok, getUnchecked_eq_ok,
    Exec.pure_eq_ok] at h
  obtain ⟨g, hgraph, w₀, hnew, ⟨started, world⟩, hstart, w, hw, ⟨evs, s⟩, hiter, mac, hmac,
    adapter, hadapter, ⟨res, adapter', w'⟩, hsend, m, hslot, rfl⟩ := h
  have hstarted : started = .ok w := by
    cases started with
    | error e => cases hw
    | ok w' =>
      cases hw
      rfl
  subst hstarted
  exact ⟨w, world, evs, s, adapter, IoNode.setSrc mac p s.world, res, adapter', w', m,
    ⟨fun _ => some udpStack, 0, 14, 0, "UDP", g, w₀, udpWorld, hgraph, hnew, hstart⟩,
    Run.of_iterate hiter, ⟨eq_drain hdraining, hindex, htask, hio, hadapter, mac, hmac, rfl⟩,
    hsend, rfl, hslot, rfl, rfl⟩

end Sample

/-- The card is given the right address of a packet of the user node's. -/
theorem addresses_agree_iff_sample :
    ∃ w world evs s adapter reached res adapter' w' m filled,
      Registered (Sample.addressed []) true udpGraph Sample.ctx w world ∧
      Run (Worker.Step true (fun _ => false) w Sample.ctx) (Loop.initial world) evs s ∧
      Reaches udpGraph s 0 31 adapter reached ∧
      Dpdk.Fills (Sample.addressed []) true adapter 31 reached m filled res adapter' w' ∧
      (SameMemory (Sample.addressed []) reached (filled.mbufs m) ↔
        LocalOrLevel (Sample.addressed []) reached 31) := by
  have hsent : Sample.sendAfter (Sample.addressed []) true udpGraph 7 31 =
      .ok ⟨true, 32, ⟨0, some 31⟩, 0, (.own 31, 22), 0x4011f096, 0x4011f096⟩ := by
    decide +kernel
  obtain ⟨w, world, evs, s, adapter, reached, res, adapter', w', _, hreg, hrun, hreach, hsend, _⟩ :=
    Sample.sendAfter_run hsent rfl (by decide) rfl rfl
  obtain ⟨_, m, filled, hfills, hsame⟩ := addresses_agree_iff hreg hrun hreach hsend
  exact ⟨w, world, evs, s, adapter, reached, res, adapter', w', m, filled, hreg, hrun, hreach,
    hfills, hsame⟩

/-- Without checks a received packet that is sent back goes out under an address 1 GiB off. -/
theorem echo_misaddressed :
    ∃ w world evs s adapter reached res adapter' w' m filled,
      Registered (Sample.addressed [Sample.datagram]) false Sample.echoGraph Sample.ctx w world ∧
      Run (Worker.Step false (fun _ => false) w Sample.ctx) (Loop.initial world) evs s ∧
      Reaches Sample.echoGraph s 0 0 adapter reached ∧
      Dpdk.send (Sample.addressed [Sample.datagram]) false adapter Sample.ctx 0 reached =
        .ok (res, adapter', w') ∧
      Dpdk.Fills (Sample.addressed [Sample.datagram]) false adapter 0 reached m filled res
        adapter' w' ∧
      (filled.mbufs m).bufIova = 0x40207080 ∧
      ¬ SameMemory (Sample.addressed [Sample.datagram]) reached (filled.mbufs m) := by
  have hsent : Sample.sendAfter (Sample.addressed [Sample.datagram]) false Sample.echoGraph 9 0 =
      .ok ⟨true, 1, ⟨0, some 0⟩, 0, (.room 7, 128), 0x40207080, 0x80207080⟩ := by
    decide +kernel
  obtain ⟨w, world, evs, s, adapter, reached, res, adapter', w', m, hreg, hrun, hreach, hsend,
    hidx, hslot, hiova, hexpected⟩ := Sample.sendAfter_run hsent rfl (by decide) rfl rfl
  obtain ⟨m', filled, hfills, _⟩ := Dpdk.send_fills hsend
  obtain rfl : m = m' := Option.some.inj (hslot.symm.trans hfills.slot)
  rcases hfills.rest with ⟨_, _, rfl⟩ | ⟨hfull, _⟩
  · refine ⟨w, world, evs, s, adapter, reached, res, adapter', w', m, w', hreg, hrun, hreach,
      hsend, hfills, hiova, ?_⟩
    rw [SameMemory, hiova, hexpected]
    decide
  · rw [hidx] at hfull
    cases hfull

end OmniStack
