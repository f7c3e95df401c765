import OmniStack.Modules.Release
import OmniStack.NicIndex
import OmniStack.UdpStack

/-! A release build of the shipped stack.

Whatever the cards deliver, a worker on `config/graph/udp.json` built without overflow checks ends
in one of three ways: it is asked to stop, a pool has run out, or it waits for a card that takes
nothing (`LaunchedUnder.release_survives`). A received packet is dropped or handed to the user node
however long its headers say it is; a packet that is sent has been laid out by the senders, for a
card that is there if the configuration covers its best route (`NicsCover`), and the mbuf it is
sent with points elsewhere. That the adapters keep such mbufs is the invariant of the passes
(`Fit`). -/
namespace OmniStack
open Lib Worker

/-! ### Calls that can only run dry -/

section
variable {σ : Type}

/-- Memory has run out, or a card takes nothing. -/
def Ending.Dry (ending : Ending) : Prop :=
  ending = .failed .memoryError ∨ ending = .fault (.inModule .spin)

/-- The call passes its packet on in a world with `P` or drops it in one with `D`, or it runs
dry. -/
structure Steady (P D : World σ → Prop) (x : Exec (Result Unit × World σ)) : Prop where
  spins : x.OnlySpins
  result : ∀ res w, x = .ok (res, w) →
    (res = .ok () ∧ P w) ∨ (res = .error .dropped ∧ D w) ∨ res = .error .memoryError

namespace Steady
variable {P Q D : World σ → Prop} {x : Exec (Result Unit × World σ)}

theorem ok {w : World σ} (h : P w) : Steady P D (.ok (.ok (), w)) where
  spins := .ok _
  result res w' heq := by
    cases heq
    exact .inl ⟨rfl, h⟩

theorem ending (h : Steady P D x) {ending : Ending} (hends : endingOf x = some ending) :
    ending.Dry := by
  match x, h, hends with
  | .error g, h, hends =>
    cases hends
    exact .inr (congrArg (fun f => Ending.fault (.inModule f)) (h.spins g rfl))
  | .ok (.error e, w), h, hends =>
    rcases h.result _ w rfl with ⟨hok, _⟩ | ⟨hdropped, _⟩ | hmemory
    · cases hok
    · cases hdropped
      cases hends
    · cases hmemory
      cases hends
      exact .inl rfl

theorem andThen {next : World σ → Exec (Result Unit × World σ)} (h : Steady P D x)
    (hnext : ∀ w, P w → Steady Q D (next w)) : Steady Q D (andThen x next) := by
  match x, h with
  | .error g, h => exact ⟨h.spins, nofun⟩
  | .ok (.error e, w), h =>
    refine ⟨.ok _, fun res w' heq => ?_⟩
    cases heq
    exact .inr ((h.result _ w rfl).resolve_left fun hok => nomatch hok.1)
  | .ok (.ok (), w), h =>
    rcases h.result _ w rfl with ⟨_, hw⟩ | ⟨hdropped, _⟩ | hmemory
    · exact hnext w hw
    · cases hdropped
    · cases hmemory

theorem settled (h : Steady P P x) : Steady P D (settled x) := by
  match x, h with
  | .error g, h => exact ⟨h.spins, nofun⟩
  | .ok (.ok (), w), h =>
    rcases h.result _ w rfl with ⟨_, hw⟩ | ⟨hdropped, _⟩ | hmemory
    · exact .ok hw
    · cases hdropped
    · cases hmemory
  | .ok (.error e, w), h =>
    rcases h.result _ w rfl with ⟨hok, _⟩ | ⟨hdropped, hw⟩ | hmemory
    · cases hok
    · cases hdropped
      exact .ok hw
    · cases hmemory
      exact ⟨.ok _, fun res w' heq => by cases heq; exact .inr (.inr rfl)⟩

/-- A burst, with what its calls need of the packets still to go. -/
theorem each {call : PacketId → World σ → Exec (Result Unit × World σ)}
    {P : List PacketId → World σ → Prop}
    (hcall : ∀ p rest w, P (p :: rest) w → Steady (P rest) (P rest) (call p w))
    {ps : List PacketId} {w : World σ} (h : P ps w) : Steady (P []) D (each call ps w) := by
  induction ps generalizing w with
  | nil => exact .ok h
  | cons p rest ih => exact (hcall p rest w h).settled.andThen fun w' hw' => ih hw'

end Steady
end

/-! ### The invariant of the passes -/

variable {τ : Type} {sys : Sys (Instances τ)} {journal : τ → List MbufEvent} {refusals : τ → Nat}

/-- What the modules remember. -/
def Instances.own (env : Instances τ) : (NodeId → IoNode Dpdk) × (NodeId → Ipv4Sender) :=
  (env.ioNodes, env.ipv4Senders)

/-- What the library promises. -/
structure Sys.Serves (sys : Sys (Instances τ)) (journal : τ → List MbufEvent)
    (refusals : τ → Nat) : Prop where
  honours : sys.Honours
  finishes : sys.FinishesHeld
  supplies : sys.Supplies (fun env => journal env.rest) fun env => refusals env.rest
  leaves : sys.Leaves Instances.own

/-- The IO node has its cards in order and mbufs to send with, and packets are sent to one of its
cards. -/
structure Fit (journal : τ → List MbufEvent) (w : World (Instances τ)) : Prop where
  tracked : (w.env.ioNodes 0).Tracked
  supplied : Supplied (fun env : Instances τ => journal env.rest)
    (w.env.ioNodes 0).adapters.items w
  card : (w.env.ipv4Senders 3).nic.toNat < (w.env.ioNodes 0).adapters.items.length

namespace Fit
variable {w w' : World (Instances τ)} {ctx : Context} {p : PacketId}

theorem congr (h : Fit journal w) (hown : w'.env.own = w.env.own) (hmbufs : w'.mbufs = w.mbufs)
    (hjournal : journal w'.env.rest = journal w.env.rest) : Fit journal w' := by
  obtain ⟨hnodes, hsenders⟩ := Prod.mk.inj hown
  refine ⟨hnodes ▸ h.tracked, ?_, ?_⟩
  · rw [hnodes]
    exact h.supplied.congr hmbufs hjournal
  · rw [hnodes, hsenders]
    exact h.card

theorem same (h : Fit journal w) (henv : w'.env = w.env) (hmbufs : w'.mbufs = w.mbufs) :
    Fit journal w' :=
  h.congr (congrArg Instances.own henv) hmbufs (congrArg (fun env => journal env.rest) henv)

theorem edited (h : Fit journal w) (hedit : World.Edited p w w') : Fit journal w' :=
  h.same (by rw [hedit.rest]) (by rw [hedit.rest])

theorem deallocated (h : Fit journal w) {threadId : UInt32}
    (hfreed : PacketPool.deallocate false p threadId w = .ok w') : Fit journal w' :=
  h.same (PacketPool.deallocate_keeps hfreed).2 (PacketPool.deallocate_keeps hfreed).1

/-- The IO node has changed, with what it keeps. -/
theorem kept (h : Fit journal w) {self : IoNode Dpdk} (htracked : self.Tracked)
    (hlength : self.adapters.items.length = (w.env.ioNodes 0).adapters.items.length)
    (hsupplied : Supplied (fun env : Instances τ => journal env.rest) self.adapters.items w')
    (hown : w'.env.own = w.env.own) :
    Fit journal {w' with env := {w'.env with
      ioNodes := Function.update w'.env.ioNodes 0 self}} := by
  obtain ⟨_, hsenders⟩ := Prod.mk.inj hown
  constructor
  · show (Function.update w'.env.ioNodes 0 self 0).Tracked
    rwa [Function.update_self]
  · show Supplied _ (Function.update w'.env.ioNodes 0 self 0).adapters.items _
    rw [Function.update_self]
    exact hsupplied.congr rfl rfl
  · show (w'.env.ipv4Senders 3).nic.toNat <
      (Function.update w'.env.ioNodes 0 self 0).adapters.items.length
    rw [Function.update_self, hlength, hsenders]
    exact h.card

end Fit

/-! ### The rows -/

namespace UdpStack
variable {w w' : World (Instances τ)} {ctx : Context}

theorem up_steady (h : Fit journal w) (p : PacketId) :
    Steady (Fit journal) (Fit journal) (rowCall ctx p (up false) w) := by
  have heth (v : World (Instances τ)) (hv : Fit journal v) :
      Steady (Fit journal) (Fit journal) (EthReceiver.process false p v) := by
    refine ⟨EthReceiver.process_release _ _, fun res v' hcall => ?_⟩
    obtain ⟨hres, hedit⟩ := EthReceiver.process_edits hcall
    exact .inl ⟨hres, hv.edited hedit⟩
  have hip (v : World (Instances τ)) (hv : Fit journal v) :
      Steady (Fit journal) (Fit journal) (Ipv4Receiver.process false ctx p v) := by
    refine ⟨Ipv4Receiver.process_release _ _ _, fun res v' hcall => ?_⟩
    rcases Ipv4Receiver.process_edits hcall with ⟨hres, hedit⟩ | ⟨hres, v'', hedit, hfreed⟩
    · exact .inl ⟨hres, hv.edited hedit⟩
    · exact .inr (.inl ⟨hres, (hv.edited hedit).deallocated hfreed⟩)
  have hudp (v : World (Instances τ)) (hv : Fit journal v) :
      Steady (Fit journal) (Fit journal) (UdpReceiver.process false p v) := by
    refine ⟨UdpReceiver.process_release _ _, fun res v' hcall => ?_⟩
    obtain ⟨hres, hedit⟩ := UdpReceiver.process_edits hcall
    exact .inl ⟨hres, hv.edited hedit⟩
  have huser (v : World (Instances τ)) (hv : Fit journal v) :
      Steady (Fit journal) (Fit journal) (UserNode.process false ctx p v) := by
    refine ⟨UserNode.process_release _ _ _, fun res v' hcall => ?_⟩
    obtain ⟨hres, hfreed⟩ := UserNode.process_drops hcall
    exact .inr (.inl ⟨hres, hv.deallocated hfreed⟩)
  exact (heth w h).andThen fun v₁ h₁ => (hip v₁ h₁).andThen fun v₂ h₂ =>
    (hudp v₂ h₂).andThen fun v₃ h₃ => (huser v₃ h₃).andThen fun _ h₄ => .ok h₄

/-- The packets still to be sent. -/
structure ToSend (journal : τ → List MbufEvent) (ps : List PacketId) (w : World (Instances τ)) :
    Prop where
  fit : Fit journal w
  nodup : ps.Nodup
  ready : ∀ p ∈ ps, Outgoing w p

/-- Down to the IO node the three senders write their headers. -/
theorem down_eq (sys : Sys (Instances τ)) (ctx : Context) {checks : Bool} {p : PacketId}
    (h : Headroom w p) :
    rowCall ctx p (down sys checks) w =
      andThen (IoNode.keep 0 (IoNode.process (Dpdk.adapter sys checks) ctx (w.env.ioNodes 0) p
        (w.put p (sentPkt (w.env.ipv4Senders 3) (w.pkts p))
          (headedBytes (w.env.ipv4Senders 3) (w.pkts p) (w.bytes p))))) fun w => .ok (.ok (), w) := by
  have hsend := senders_eq checks (w.env.ipv4Senders 3) h
  obtain ⟨w₁, hudp, hsend⟩ := andThen_eq_ok.mp hsend
  obtain ⟨w₂, hip, heth⟩ := andThen_eq_ok.mp hsend
  have henv : w₁.env = w.env := by
    rw [(UdpSender.process_edits hudp).2.rest]
  simp only [down, rowCall, hudp, andThen_ok, henv, hip, heth]
  rfl

theorem down_steady (hsys : sys.Serves journal refusals) {p : PacketId} {rest : List PacketId}
    (h : ToSend journal (p :: rest) w) :
    Steady (ToSend journal rest) (ToSend journal rest) (rowCall ctx p (down sys false) w) := by
  obtain ⟨hnew, hrest⟩ := List.nodup_cons.mp h.nodup
  obtain ⟨⟨q, hown⟩, hroom⟩ := h.ready p List.mem_cons_self
  rw [down_eq sys ctx hroom]
  have hudp := hroom.isUdp (w.env.ipv4Senders 3)
  generalize hheaded : w.put p _ _ = headed at hudp
  have hfit : Fit journal headed := by
    rw [← hheaded]
    exact h.fit.same rfl rfl
  have hpkt : headed.pkts p = sentPkt (w.env.ipv4Senders 3) (w.pkts p) := by
    rw [← hheaded]
    exact World.put_pkts _ _ _ _
  have hothers (r : PacketId) (hr : r ≠ p) : headed.pkts r = w.pkts r := by
    rw [← hheaded]
    exact World.setPkt_pkts_ne _ _ hr
  have hnode : w.env.ioNodes 0 = headed.env.ioNodes 0 := by
    rw [← hheaded]
    rfl
  have hnic : (headed.pkts p).nic.toNat < (headed.env.ioNodes 0).adapters.items.length := by
    rw [hpkt, ← hnode]
    exact h.fit.card
  rw [hnode]
  refine Steady.andThen ⟨.bind (IoNode.process_release hfit.tracked hnic ?_ hudp) fun _ _ => .pure _,
    fun res v hcall => ?_⟩ fun v hv => .ok hv
  · -- a spare mbuf points at a data room, the packet is in its own buffer
    intro a ha m hm heq
    obtain ⟨i, hi⟩ := List.mem_iff_getElem?.mp ha
    obtain ⟨n, hn⟩ := hfit.supplied.rooms i a hi m hm
    rw [hn, hpkt] at heq
    cases heq.trans hown
  · simp only [IoNode.keep, Exec.bind_eq_ok, Exec.pure_eq_ok, Prod.mk.injEq] at hcall
    obtain ⟨⟨res', self, v'⟩, hprocess, rfl, rfl⟩ := hcall
    obtain ⟨hres, hleft, hkept⟩ := IoNode.process_leaves hsys.leaves hprocess
    rcases hres with rfl | rfl
    · obtain ⟨htracked, hlength⟩ := IoNode.process_spec hfit.tracked hprocess
      have hsupplied := IoNode.process_supplied hsys.supplies hfit.tracked hfit.supplied hprocess
      refine .inr (.inl ⟨rfl, hfit.kept htracked hlength hsupplied hleft, hrest, fun r hr => ?_⟩)
      have hne : r ≠ p := fun heq => hnew (heq ▸ hr)
      refine (h.ready r (List.mem_cons_of_mem _ hr)).congr ?_
      rw [← hothers r hne]
      exact hkept r hne
    · exact .inr (.inr rfl)

/-! ### The passes -/

theorem io_poll (hsys : sys.Serves journal refusals) (h : Fit journal w) :
    (IoNode.keep 0 (IoNode.poll (Dpdk.adapter sys false) ctx (w.env.ioNodes 0) w)).OnlySpins ∧
      ∀ res v, IoNode.keep 0 (IoNode.poll (Dpdk.adapter sys false) ctx (w.env.ioNodes 0) w) =
        .ok (res, v) → res = .error .memoryError ∨
          Fit journal v ∧ ∀ e, res = .error e → e = .nop := by
  refine ⟨.bind (IoNode.poll_release hsys.honours h.tracked w) fun _ _ => .pure _,
    fun res v hpoll => ?_⟩
  simp only [IoNode.keep, Exec.bind_eq_ok, Exec.pure_eq_ok, Prod.mk.injEq] at hpoll
  obtain ⟨⟨res', self, v'⟩, hpoll, rfl, rfl⟩ := hpoll
  by_cases hmemory : res' = .error .memoryError
  · exact .inl hmemory
  · have hnop : ∀ e, res' = .error e → e = .nop := by
      rintro e rfl
      exact (IoNode.poll_error h.tracked hpoll).resolve_right fun he => hmemory (he ▸ rfl)
    obtain ⟨htracked, hlength, _⟩ := IoNode.poll_spec h.tracked hpoll
    have hsupplied := IoNode.poll_supplied hsys.supplies h.tracked h.supplied hpoll hnop
    exact .inr ⟨h.kept htracked hlength hsupplied (IoNode.poll_leaves hsys.leaves hpoll), hnop⟩

theorem user_poll (hsys : sys.Serves journal refusals) (h : Fit journal w) {res : Result PacketId}
    (hpoll : UserNode.poll sys false w = .ok (res, w')) :
    res = .error .memoryError ∨ Fit journal w' ∧ ∃ head, res = .ok head ∧
      ∀ ps, Worker.ChainOf w'.pkts (some head) ps → ToSend journal ps.reverse w' := by
  obtain ⟨hres, hown, hmbufs⟩ := UserNode.poll_outgoing hsys.leaves.get hpoll
  have hjournal := (@UserNode.poll_outgoing _ _ _ (fun env => journal env.rest) hsys.supplies.get
    _ _ _ hpoll).2.1
  rcases hres with hmemory | ⟨head, rfl, hready⟩
  · exact .inl hmemory
  · have hfit : Fit journal w' := h.congr hown hmbufs hjournal
    refine .inr ⟨hfit, head, rfl, fun ps hchain => ⟨hfit, ?_, fun p hp => ?_⟩⟩
    · exact List.nodup_reverse.mpr hchain.nodup
    · exact hready ps hchain p (List.mem_reverse.mp hp)

theorem gathers_toSend (hsys : sys.Serves journal refusals) (h : Fit journal w)
    {bursts : List (Inlet (Instances τ) × List PacketId)}
    (hgathers : Gathers ctx (inlets sys false) w bursts w') :
    ∃ i j ups downs, bursts = [(i, ups), (j, downs)] ∧ i.row = up false ∧ j.row = down sys false ∧
      ToSend journal downs.reverse w' := by
  cases hgathers with
  | @cons _ _ ups _ _ mid _ hio hrest =>
    cases hrest with
    | @cons _ _ downs _ _ last _ huser hnil =>
      cases hnil
      have hmid : Fit journal mid := by
        cases hio with
        | nothing hpoll =>
          rcases (io_poll hsys h).2 _ _ hpoll with hmemory | hfit
          · cases hmemory
          · exact hfit.1
        | burst hpoll =>
          rcases (io_poll hsys h).2 _ _ hpoll with hmemory | hfit
          · cases hmemory
          · exact hfit.1
      refine ⟨_, _, ups, downs, rfl, rfl, rfl, ?_⟩
      cases huser with
      | nothing hpoll =>
        rcases user_poll hsys hmid hpoll with hmemory | ⟨_, _, hhead, _⟩
        · cases hmemory
        · cases hhead
      | burst hpoll hchain =>
        rcases user_poll hsys hmid hpoll with hmemory | ⟨_, _, hhead, hready⟩
        · cases hmemory
        · cases hhead
          exact hready downs hchain

theorem goDown_steady (hsys : sys.Serves journal refusals) {i j : Inlet (Instances τ)}
    {ups downs : List PacketId} (hi : i.row = up false) (hj : j.row = down sys false)
    (h : ToSend journal downs.reverse w) :
    Steady (Fit journal) (Fit journal) (goDown ctx [(j, downs), (i, ups)] w) := by
  have hdown : Steady (ToSend journal []) (Fit journal)
      (each (fun p => rowCall ctx p j.row) downs.reverse w) := by
    rw [hj]
    exact Steady.each (P := ToSend journal) (fun _ _ _ hv => down_steady hsys hv) h
  refine hdown.andThen fun v hv => Steady.andThen ?_ fun v' hv' => .ok hv'
  show Steady (Fit journal) _ (each (fun p => rowCall ctx p i.row) ups.reverse v)
  rw [hi]
  exact Steady.each (P := fun _ => Fit journal) (fun p _ _ hv => up_steady hv p) hv.fit

/-- A pass leaves the stack fit for the next one. -/
theorem pass_fit (hsys : sys.Serves journal refusals) (h : Fit journal w)
    (hpass : Pass ctx (inlets sys false) w w') : Fit journal w' := by
  obtain ⟨bursts, mid, hgathers, hdown⟩ := hpass
  obtain ⟨i, j, ups, downs, rfl, hi, hj, hready⟩ := gathers_toSend hsys h hgathers
  rcases (goDown_steady hsys hi hj hready).result _ _ hdown with ⟨_, hfit⟩ | ⟨hres, _⟩ | hres
  · exact hfit
  · cases hres
  · cases hres

/-- Where it does not come through, something has run dry. -/
theorem pass_dry (hsys : sys.Serves journal refusals) (h : Fit journal w) {ending : Ending}
    (hends : PassEnds ctx (inlets sys false) w ending) : ending.Dry := by
  rcases hends with hpoll | ⟨bursts, mid, hgathers, hdown⟩
  · cases hpoll with
    | faulted hpoll => exact .inr (by rw [(io_poll hsys h).1 _ hpoll])
    | failed hpoll hne =>
      rcases (io_poll hsys h).2 _ _ hpoll with hmemory | ⟨_, hnop⟩
      · cases hmemory
        exact .inl rfl
      · exact absurd (hnop _ rfl) hne
    | later _ hrest =>
      cases hrest with
      | faulted hpoll => exact .inr (by rw [UserNode.poll_release hsys.honours _ _ hpoll])
      | failed hpoll =>
        rcases (UserNode.poll_outgoing hsys.leaves.get hpoll).1 with hmemory | ⟨_, hhead, _⟩
        · cases hmemory
          exact .inl rfl
        · cases hhead
      | later _ hnone => cases hnone
  · obtain ⟨i, j, ups, downs, rfl, hi, hj, hready⟩ := gathers_toSend hsys h hgathers
    exact (goDown_steady hsys hi hj hready).ending hdown

end UdpStack

/-! ### The first pass, and the end -/

/-- What each node's initialization makes of a property, it is in the end. -/
theorem Worker.start_stages {σ : Type} {w₀ w : Worker σ} {ctx : Context} {world₀ world : World σ}
    {stage : NodeId → World σ → Prop}
    (hstage : ∀ n node, w₀.nodes.items[n]? = some node → ∀ v v', stage n v →
      node.module.init ctx v = .ok (.ok (), v') → stage (n + 1) v')
    (h : stage 0 world₀) (hstart : w₀.start ctx world₀ = .ok (.ok w, world)) :
    stage w₀.nodes.items.length world := by
  have hall {nodes : List (Node σ)} {id : NodeId} {toPoll toPoll' : ArrayVec NodeId 8}
      {v v' : World σ} (hnodes : ∀ k node, nodes[k]? = some node →
        w₀.nodes.items[id + k]? = some node) (hv : stage id v)
      (hinit : initNodes ctx nodes id toPoll v = .ok (.ok toPoll', v')) :
      stage (id + nodes.length) v' := by
    induction nodes generalizing id toPoll v with
    | nil =>
      cases hinit
      exact hv
    | cons node rest ih =>
      simp only [initNodes, Exec.bind_eq_ok] at hinit
      obtain ⟨⟨res, mid⟩, hnode, hinit⟩ := hinit
      cases res with
      | error e => cases hinit
      | ok u =>
        cases u
        have hmid := hstage id node (hnodes 0 node rfl) v mid hv hnode
        have hnext (k : Nat) (next : Node σ) (hnext : rest[k]? = some next) :
            w₀.nodes.items[id + 1 + k]? = some next := by
          rw [Nat.add_assoc, Nat.add_comm 1 k]
          exact hnodes (k + 1) next hnext
        rw [List.length_cons, Nat.add_comm rest.length, ← Nat.add_assoc]
        dsimp only at hinit
        split at hinit
        · cases hinit
        · split at hinit
          · obtain ⟨_, _, hinit⟩ := Exec.bind_eq_ok.mp hinit
            exact ih hnext hmid hinit
          · exact ih hnext hmid hinit
  simp only [Worker.start, Exec.bind_eq_ok] at hstart
  obtain ⟨⟨res, world'⟩, hinit, hstart⟩ := hstart
  cases res with
  | error e => cases hstart
  | ok toPoll =>
    cases hstart
    have hend := hall (fun k node hk => by rwa [Nat.zero_add]) h hinit
    rwa [Nat.zero_add] at hend

section
variable {checks : Bool} {getStackConfig : String → Option StackConfig} {name : String}
  {build : NodeId → Module (Instances τ)} {ctx : Context} {id : NodeId}
  {w w' : World (Instances τ)} {res : Result Unit}

/-- Only an IO node's initialization has to do with cards. -/
theorem registry_init_keeps (h : registry sys checks getStackConfig name = some build)
    (hname : name ≠ "IoNode") (hinit : (build id).init ctx w = .ok (res, w')) :
    w'.env.ioNodes = w.env.ioNodes ∧ w'.env.rest = w.env.rest ∧ w'.mbufs = w.mbufs := by
  unfold registry at h
  split at h <;> cases h
  case h_1 => exact absurd rfl hname
  case h_5 =>
    simp only [Ipv4Sender.module, Ipv4Sender.initModule, Exec.bind_eq_ok, Exec.pure_eq_ok,
      Prod.mk.injEq] at hinit
    obtain ⟨_, _, _, _, _, rfl⟩ := hinit
    exact ⟨rfl, rfl, rfl⟩
  all_goals
    cases hinit
    exact ⟨rfl, rfl, rfl⟩

theorem registry_destroy_release (h : registry sys false getStackConfig name = some build) :
    ((build id).destroy ctx w).OnlySpins := by
  unfold registry at h
  split at h <;> cases h
  case h_1 => exact IoNode.flushEach_release _ _
  all_goals exact .ok _

theorem destroyNodes_release {nodes : List (Node (Instances τ))}
    (h : ∀ node ∈ nodes, ∀ v, (node.module.destroy ctx v).OnlySpins) (w : World (Instances τ)) :
    (destroyNodes ctx nodes w).OnlySpins := by
  induction nodes generalizing w with
  | nil => exact .ok _
  | cons node rest ih =>
    exact .bind (h node List.mem_cons_self w) fun v _ =>
      ih (fun next hnext => h next (List.mem_cons_of_mem _ hnext)) v

theorem adapterBuilders_new {name : String} {a : Dpdk} (h : adapterBuilders name = some a) :
    a = Dpdk.new := by
  unfold adapterBuilders at h
  split at h <;> cases h
  rfl

/-- An IO node that has been initialized has the stack's cards in order and mbufs to send with. -/
theorem IoNode.initModule_equipped (hsys : sys.Serves journal refusals) {stackConfig : StackConfig}
    (hstack : getStackConfig ctx.stackName = some stackConfig)
    (hnew : w.env.ioNodes id = IoNode.new)
    (hinit : IoNode.initModule sys checks getStackConfig id ctx w = .ok (res, w')) :
    ((w'.env.ioNodes id).Tracked ∧ Supplied (fun env : Instances τ => journal env.rest)
      (w'.env.ioNodes id).adapters.items w' ∧
      (w'.env.ioNodes id).adapters.items.length = stackConfig.nics.length) ∧
      w'.env.ipv4Senders = w.env.ipv4Senders := by
  simp only [IoNode.initModule, IoNode.keep, hstack, unwrap, Exec.ok_bind, Exec.bind_eq_ok,
    Exec.pure_eq_ok, Prod.mk.injEq] at hinit
  obtain ⟨_, ⟨⟨self, v⟩, hnode, rfl⟩, _, rfl⟩ := hinit
  rw [hnew] at hnode
  have htracked := IoNode.init_tracked (fun _ _ => adapterBuilders_new) hnode
  have hlength := IoNode.init_length hnode
  obtain ⟨graph, _, hnics⟩ := Exec.bind_eq_ok.mp hnode
  have hnone : Supplied (fun env : Instances τ => journal env.rest)
      (IoNode.new : IoNode Dpdk).adapters.items
      {w with env := {w.env with queueId := w.env.queueId + 1}} :=
    .none _
  have hsupplied := IoNode.initNics_supplied hsys.supplies (fun _ _ => adapterBuilders_new) hnone
    hnics
  have hown := IoNode.initNics_leaves hsys.leaves hnics
  simp only [Function.update_self]
  exact ⟨⟨htracked, hsupplied.congr rfl rfl, hlength⟩, congrArg Prod.snd hown⟩

/-- A sender that has been initialized has the stack's routes, and nothing else has changed. -/
theorem Ipv4Sender.initModule_configured {stackConfig : StackConfig}
    (hstack : getStackConfig ctx.stackName = some stackConfig)
    (hnew : w.env.ipv4Senders id = Ipv4Sender.new)
    (hinit : Ipv4Sender.initModule getStackConfig id ctx w = .ok (res, w')) :
    (w'.env.ipv4Senders id).routeTable.items = stackConfig.routes := by
  simp only [Ipv4Sender.initModule, hstack, unwrap, hnew, Exec.ok_bind, Exec.bind_eq_ok,
    Exec.pure_eq_ok, Prod.mk.injEq] at hinit
  obtain ⟨sender, hsender, _, rfl⟩ := hinit
  simp only [Function.update_self]
  exact init_routes hsender

/-- The other modules have no routes. -/
theorem registry_init_senders (h : registry sys checks getStackConfig name = some build)
    (hnode : name ≠ "IoNode") (hname : name ≠ "Ipv4Sender")
    (hinit : (build id).init ctx w = .ok (res, w')) :
    w'.env.ipv4Senders = w.env.ipv4Senders := by
  unfold registry at h
  split at h <;> cases h
  case h_1 => exact absurd rfl hnode
  case h_5 => exact absurd rfl hname
  all_goals
    cases hinit
    rfl

end

section
variable {ctx : Context} {w : Worker (Instances τ)} {world₀ world : World (Instances τ)}
  {shouldStop : World (Instances τ) → Bool} {getStackConfig : String → Option StackConfig}
  {stackConfig : StackConfig}

/-- What is there once the first `n` nodes of the UDP graph are initialized. -/
structure Begun (journal : τ → List MbufEvent) (stackConfig : StackConfig) (n : NodeId)
    (v : World (Instances τ)) : Prop where
  node : (n = 0 ∧ v.env.ioNodes 0 = IoNode.new) ∨ (0 < n ∧ (v.env.ioNodes 0).Tracked ∧
    Supplied (fun env : Instances τ => journal env.rest) (v.env.ioNodes 0).adapters.items v ∧
    (v.env.ioNodes 0).adapters.items.length = stackConfig.nics.length)
  sender : (n ≤ 3 ∧ v.env.ipv4Senders 3 = Ipv4Sender.new) ∨
    (3 < n ∧ (v.env.ipv4Senders 3).routeTable.items = stackConfig.routes)

/-- Where the configuration covers the best route, the packets are sent to a card that is there. -/
theorem Begun.fit {n : NodeId} {v : World (Instances τ)} (h : Begun journal stackConfig n v)
    (hn : 3 < n) (hcover : NicsCover stackConfig) : Fit journal v := by
  rcases h.node with ⟨hzero, _⟩ | ⟨_, htracked, hsupplied, hlength⟩
  · rw [hzero] at hn
    cases hn
  rcases h.sender with ⟨hle, _⟩ | ⟨_, hroutes⟩
  · exact absurd hn (Nat.not_lt.mpr hle)
  refine ⟨htracked, hsupplied, ?_⟩
  rw [hlength, Ipv4Sender.nic_eq, hroutes]
  have hpos : 0 < stackConfig.nics.length := List.length_pos_iff.mpr hcover.1
  cases hbest : Ipv4Sender.bestRoute Ipv4Sender.dst stackConfig.routes with
  | none => exact hpos
  | some route => exact hcover.2 (hroutes ▸ (v.env.ipv4Senders 3).routeTable.bound) route hbest

/-- The nodes of the UDP graph are initialized in order. -/
theorem Begun.init (hsys : sys.Serves journal refusals)
    (hstack : getStackConfig ctx.stackName = some stackConfig) {checks : Bool} {n : NodeId}
    {name : String} {build : NodeId → Module (Instances τ)} {v v' : World (Instances τ)}
    (h : Begun journal stackConfig n v) (hname : udpGraph.modules[n]? = some name)
    (hbuild : registry sys checks getStackConfig name = some build)
    (hinit : (build n).init ctx v = .ok (.ok (), v')) : Begun journal stackConfig (n + 1) v' := by
  have hplace : ∀ n < 8, (udpGraph.modules[n]? = some "IoNode" → n = 0) ∧
      (udpGraph.modules[n]? = some "Ipv4Sender" → n = 3) ∧
      (n = 0 → udpGraph.modules[n]? = some "IoNode") ∧
      (n = 3 → udpGraph.modules[n]? = some "Ipv4Sender") := by decide
  obtain ⟨hfirst, hthird, hzero, hthree⟩ := hplace n (List.getElem?_eq_some_iff.mp hname).1
  by_cases hnode : name = "IoNode"
  · subst hnode
    obtain rfl := hfirst hname
    cases hbuild
    rcases h.node with ⟨_, hnew⟩ | ⟨hpos, _⟩
    · obtain ⟨hequipped, hsenders⟩ := IoNode.initModule_equipped hsys hstack hnew hinit
      refine ⟨.inr ⟨Nat.one_pos, hequipped⟩, .inl ⟨by decide, ?_⟩⟩
      rcases h.sender with ⟨_, hnew⟩ | ⟨hlt, _⟩
      · rw [hsenders, hnew]
      · cases hlt
    · cases hpos
  · obtain ⟨hnodes, hrest, hmbufs⟩ := registry_init_keeps hbuild hnode hinit
    have hpos : n ≠ 0 := fun hn => hnode (Option.some.inj (hname.symm.trans (hzero hn)))
    refine ⟨.inr ⟨Nat.succ_pos n, ?_⟩, ?_⟩
    · rcases h.node with ⟨hn, _⟩ | ⟨_, htracked, hsupplied, hlength⟩
      · exact absurd hn hpos
      · rw [hnodes]
        exact ⟨htracked, hsupplied.congr hmbufs (congrArg journal hrest), hlength⟩
    · by_cases hsender : name = "Ipv4Sender"
      · subst hsender
        obtain rfl := hthird hname
        cases hbuild
        rcases h.sender with ⟨_, hnew⟩ | ⟨hlt, _⟩
        · exact .inr ⟨by decide, Ipv4Sender.initModule_configured hstack hnew hinit⟩
        · exact absurd hlt (Nat.lt_irrefl 3)
      · have hsenders := registry_init_senders hbuild hnode hsender hinit
        have hne : n ≠ 3 := fun hn => hsender (Option.some.inj (hname.symm.trans (hthree hn)))
        rw [hsenders]
        rcases h.sender with ⟨hle, hnew⟩ | ⟨hlt, hroutes⟩
        · exact .inl ⟨Nat.lt_of_le_of_ne hle hne, hnew⟩
        · exact .inr ⟨Nat.lt_succ_of_lt hlt, hroutes⟩

/-- A worker starts fit, if its modules are new and the configuration covers its best route. -/
theorem LaunchedUnder.fit (h : LaunchedUnder getStackConfig sys false udpGraph ctx world₀ w world)
    (hsys : sys.Serves journal refusals)
    (hstack : getStackConfig ctx.stackName = some stackConfig) (hcover : NicsCover stackConfig)
    (hnode : world₀.env.ioNodes 0 = IoNode.new)
    (hsender : world₀.env.ipv4Senders 3 = Ipv4Sender.new) : Fit journal world := by
  obtain ⟨_, _, _, _, g, w₀, hgraph, hworker, hstart⟩ := h.started
  have hlength : w₀.nodes.items.length = 8 := by
    rw [new_nodes hworker]
    exact (Graph.new_spec hgraph).1
  have hbegun := start_stages (fun n node hn v v' hv hinit => ?_)
    (⟨.inl ⟨rfl, hnode⟩, .inl ⟨by decide, hsender⟩⟩ : Begun journal stackConfig 0 world₀) hstart
  · exact hbegun.fit (by rw [hlength]; decide) hcover
  · rw [new_nodes hworker] at hn
    obtain ⟨name, build, hname, hbuild, hmodule⟩ := Graph.new_built hgraph n node hn
    rw [hmodule, Nat.zero_add] at hinit
    exact hv.init hsys hstack hname hbuild hinit

/-- **Only a dry pool or a card that takes nothing stops a release build.** Whatever frames the
cards deliver, a worker on the UDP graph, under a configuration that has a card and whose best route
names one, that is not asked to stop runs on until a pool has run out or the loop that waits for a
card gives up. No frame makes it panic or miss an array. -/
theorem LaunchedUnder.release_survives
    (h : LaunchedUnder getStackConfig sys false udpGraph ctx world₀ w world)
    (hstack : getStackConfig ctx.stackName = some stackConfig) (hcover : NicsCover stackConfig)
    (hsys : sys.Serves journal refusals) (hstock : Stocked nothingKept world₀)
    (hnode : world₀.env.ioNodes 0 = IoNode.new)
    (hsender : world₀.env.ipv4Senders 3 = Ipv4Sender.new)
    {evs : List Event} {t : Loop (Instances τ)}
    (hrun : Run (Step false shouldStop w ctx) (Loop.initial world) evs t) {ending : Ending}
    (hends : EndsIn false shouldStop w ctx t ending) :
    ending = .fault .returned ∨ ending.Dry := by
  by_cases hreturned : ending = .fault .returned
  · exact .inl hreturned
  · obtain ⟨_, _, hprogram⟩ :=
      udp_program h.launched hsys.honours hsys.finishes hstock world hreturned
    obtain ⟨v, hpasses, hend⟩ := hprogram.mp ⟨evs, t, hrun, hends⟩
    have hfit : Fit journal v := by
      clear hend hprogram
      induction hpasses with
      | refl => exact h.fit hsys hstack hcover hnode hsender
      | tail _ hpass ih => exact UdpStack.pass_fit hsys ih hpass.2
    rcases hend with ⟨_, g, hdestroy, rfl⟩ | ⟨_, hpass⟩
    · have hdestroys : (destroyNodes ctx w.nodes.items v).OnlySpins := by
        refine destroyNodes_release (fun node hnode v' => ?_) v
        obtain ⟨n, hn⟩ := List.mem_iff_getElem?.mp hnode
        obtain ⟨_, hbuilt⟩ := h.launched.registered.built
        obtain ⟨_, build, _, hbuild, hmodule⟩ := hbuilt n node hn
        rw [hmodule]
        exact registry_destroy_release hbuild
      exact .inr (.inr (by rw [hdestroys g hdestroy]))
    · exact .inr (UdpStack.pass_dry hsys hfit hpass)

end

namespace Sample

/-- A pool of mbufs that keeps a journal, and a card that takes what it is offered. -/
def lendingCard : Sys (Instances (List MbufEvent)) where
  __ := Sys.quiet
  mempoolGet := firstFree
  pktmbufAllocBulk := fun _ n w =>
    let ms := (List.range n).map fun i => Dpdk.Sample.fresh w.env.rest + i
    (some (ms.map fun m => (m, ⟨(.room m, 0), 0, 0, 128, 0, none, 0, 0, 0, 0⟩)),
      {w.env with rest := w.env.rest ++ ms.map .allocated})
  ethTxBurst := fun _ _ ms w =>
    (ms.length, [], {w.env with rest := w.env.rest ++ ms.map fun m => .taken m (w.mbufs m)})

theorem lendingCard_serves : lendingCard.Serves id fun _ => 0 where
  honours := honours_of_firstFree rfl fun _ _ _ => Nat.zero_le _
  finishes _ _ _ _ _ := Nat.zero_le _
  supplies := {
    refills := {
      alloc := fun pool n w => by
        refine .inl ⟨_, _, rfl, by simp, ?_⟩
        have hptrs (ms : List MbufPtr) (f : MbufPtr → Mbuf) :
            (ms.map fun m => (m, f m)).map Prod.fst = ms := by
          rw [List.map_map]
          exact List.map_id ms
        rw [hptrs]
        obtain ⟨hnodup, hunused⟩ := Dpdk.Sample.unused_from w.env.rest n
        exact ⟨hnodup, hunused, rfl, rfl⟩
      burst := fun _ _ _ _ => ⟨_, _, _, rfl, Nat.le_refl _, by rw [List.take_length]; rfl, rfl⟩ }
    rooms := fun pool n w ms env h e he => by
      cases h
      obtain ⟨m, _, rfl⟩ := List.mem_map.mp he
      exact ⟨m, rfl⟩
    get := fun _ _ => rfl
    rx := fun _ _ _ _ => rfl
    port := fun _ _ _ _ h => by
      cases h
      rfl }
  leaves := {
    get := fun _ _ => rfl
    refill := fun _ _ _ => rfl
    burst := fun _ _ _ _ => rfl
    rx := fun _ _ _ _ => rfl
    port := fun _ _ _ _ h => by
      cases h
      rfl }

/-- Nothing is in the journal yet. -/
def unlent : World (Instances (List MbufEvent)) where
  pkts := udpWorld.pkts
  mem := udpWorld.mem
  mbufs := udpWorld.mbufs
  free := udpWorld.free
  held := udpWorld.held
  log := []
  rawFreed := []
  wire := []
  env := ⟨fun _ => IoNode.new, fun _ => Ipv4Sender.new, 0, []⟩

theorem unlent_stocked : Stocked nothingKept unlent :=
  ⟨fun _ => .inl ⟨rfl, rfl⟩, fun _ => rfl, fun _ => rfl, rfl⟩

/-- The stack has a card and no route. -/
theorem udpStack_covers : NicsCover udpStack :=
  ⟨by decide, fun _ _ hbest => by cases hbest⟩

/-- A release build that has sent the last packet of its first burst. -/
theorem lendingCard_sends : launch lendingCard unlent false udpGraph 8 (fun t => t.world.held 31) =
    .ok (sendOne, 1) := by
  decide +kernel

end Sample

theorem LaunchedUnder.release_survives_sample : ∃ w world t,
    Launched Sample.lendingCard false udpGraph Sample.ctx Sample.unlent w world ∧
      Run (Step false (fun _ => false) w Sample.ctx) (Loop.initial world) Sample.sendOne t ∧
      ∀ evs t ending, Run (Step false (fun _ => false) w Sample.ctx) (Loop.initial world) evs t →
        EndsIn false (fun _ => false) w Sample.ctx t ending →
          ending = .fault .returned ∨ ending.Dry := by
  obtain ⟨w, world, t, hunder, hrun, _⟩ := Sample.launch_run Sample.lendingCard_sends
  exact ⟨w, world, t, hunder.launched, hrun, fun evs t ending hrun hends =>
    release_survives hunder rfl Sample.udpStack_covers Sample.lendingCard_serves
      Sample.unlent_stocked rfl rfl hrun hends⟩

end OmniStack
