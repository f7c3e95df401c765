import OmniStack.Engine.Drain.Accounting
import OmniStack.Engine.Guarded
import OmniStack.Engine.Returns
import OmniStack.Modules.Bursts

/-! The registered modules keep the rules.

None of them keeps a packet for itself from one call to the next. A poll chains packets it has
taken from the pool, so what it hands over is a chain if the pool has no packet twice and the
packets it gives to the callbacks of finished transmissions are out (`World.Pooled`); on such
worlds every registered module is `Disciplined` (`registry_disciplined`). -/
namespace OmniStack
open Lib

/-- The modules keep no packet between calls. -/
def nothingKept {σ : Type} (_ : σ) (_ : PacketId) : Nat := 0

/-- The books of packets that no module keeps. -/
def Holdings.books (h : Holdings) : Books := ⟨h.refcnt, h.free, h.held, fun _ => 0, h.log⟩

theorem Holdings.books_deallocate (h : Holdings) (p : PacketId) :
    (h.deallocate p).books = h.books.deallocate p := by
  unfold deallocate Books.deallocate
  show _ = if h.refcnt p = 1 then _ else _
  split <;> rfl

theorem Callbacks.traffic {h h' : Holdings} (hcalls : Callbacks h h') :
    Traffic h.books h'.books := by
  induction hcalls with
  | refl => exact .refl _
  | @cons h _ p hheld _ ih =>
    refine .callback (p := p) hheld ?_
    rwa [Holdings.finish, Holdings.books_deallocate] at ih

theorem GivesUp.gaveUp {p : PacketId} {h h' : Holdings} (hgives : GivesUp p h h') :
    GaveUp p h.books h'.books := by
  cases hgives with
  | returned hbefore hafter =>
    refine .deallocated hbefore.traffic ?_
    rw [← Holdings.books_deallocate]
    exact hafter.traffic
  | sent hbefore hafter => exact .sent hbefore.traffic hafter.traffic

theorem Traffic.trans {a b c : Books} (h : Traffic a b) (h' : Traffic b c) : Traffic a c := by
  induction h with
  | refl => exact h'
  | callback hheld _ ih => exact .callback hheld (ih h')
  | allocate hfree _ ih => exact .allocate hfree (ih h')
  | discard hkept _ ih => exact .discard hkept (ih h')

section World
variable {σ : Type}

theorem books_holdings (w : World σ) : w.books nothingKept = w.holdings.books := rfl

/-- A packet is in the pool once and nowhere else, or out and counted. -/
def World.Pooled (w : World σ) : Prop := EveryAccount Placed (fun _ => 0) w.holdings.books

theorem World.Pooled.heldOnce {w : World σ} (h : w.Pooled) : w.HeldOnce := by
  intro p
  have hp := h p
  simp only [Placed, Books.account] at hp
  show w.holdings.books.free p ≤ 1
  omega

theorem World.Pooled.traffic {w w' : World σ} (h : w.Pooled)
    (htraffic : Traffic w.holdings.books w'.holdings.books) : w'.Pooled :=
  placed_law.ledger.traffic htraffic h

end World

/-! ### Gathering packets -/

section Gathering
variable {σ : Type} {sys : Sys σ} {checks : Bool}

/-- The packets of the chain have been taken from the pool since the books were `b`. -/
structure Gathered (b : Books) (w : World σ) (ret : Option PacketId) (ps : List PacketId) :
    Prop where
  chain : Worker.ChainOf w.pkts ret ps
  taken : ∀ p ∈ ps, w.free p = 0
  once : w.HeldOnce
  traffic : Traffic b {w.holdings.books with kept := fun q => ps.count q}

theorem Gathered.none {w : World σ} (h : w.HeldOnce) : Gathered w.holdings.books w none [] :=
  ⟨.nil, fun _ hp => absurd hp List.not_mem_nil, h, .refl _⟩

theorem Gathered.handsOver {b : Books} {w : World σ} {ret : Option PacketId} {ps : List PacketId}
    (h : Gathered b w ret ps) : HandsOver ps b w.holdings.books := by
  refine ⟨_, h.traffic, fun p => Nat.le_refl _, ?_⟩
  simp only [Books.handOver, Nat.sub_self]
  rfl

/-- A packet that is allocated was in the pool. -/
theorem PacketPool.allocate_takes (hsys : sys.Honours) {w w' : World σ} {p : PacketId}
    (h : PacketPool.allocate sys w = .ok (.ok p, w')) :
    0 < w.free p ∧ ∃ env, w' = PacketPool.take {w with env} [p] := by
  unfold PacketPool.allocate PacketPool.allocateMany at h
  cases hget : sys.mempoolGet 1 w with
  | mk objs env =>
    cases objs with
    | none =>
      simp only [hget] at h
      cases h
    | some ps =>
      obtain ⟨q, rfl⟩ := List.length_eq_one_iff.mp (hsys.get_length hget)
      have hheld := hsys.get_held hget q
      rw [List.count_singleton_self] at hheld
      simp only [hget, Except.ok.injEq, Prod.mk.injEq] at h
      obtain ⟨rfl, rfl⟩ := h
      exact ⟨hheld, env, rfl⟩

/-- One packet more is taken, set up and put in front of the chain. -/
theorem Gathered.push {b : Books} {w : World σ} {ret : Option PacketId} {ps : List PacketId}
    (h : Gathered b w ret ps) {p : PacketId} (hfree : 0 < w.free p) (env : σ) {pkt : Packet}
    (hnext : pkt.next = ret) (hrefcnt : pkt.refcnt = (w.pkts p).refcnt) :
    Gathered b ((PacketPool.take {w with env} [p]).setPkt p pkt) (some p) (p :: ps) := by
  have hp : p ∉ ps := fun hmem => by
    have := h.taken p hmem
    omega
  have hleft (q : PacketId) : (PacketPool.take {w with env} [p]).free q = lower w.free p q := rfl
  constructor
  · exact Worker.ChainOf.push (w := PacketPool.take {w with env} [p]) h.chain hp hnext
  · intro q hq
    show lower w.free p q = 0
    rcases List.mem_cons.mp hq with rfl | hq
    · have := h.once q
      rw [lower_same]
      omega
    · have hne : q ≠ p := fun heq => hp (heq ▸ hq)
      rw [lower_ne _ hne]
      exact h.taken q hq
  · intro q
    show lower w.free p q ≤ 1
    have := h.once q
    by_cases hq : q = p
    · rw [hq, lower_same]
      have := h.once p
      omega
    · rwa [lower_ne _ hq]
  · refine h.traffic.trans (.allocate (p := p) hfree ?_)
    have hcount : (fun q => (p :: ps).count q) = bump (fun q => ps.count q) p := by
      funext q
      by_cases hq : q = p
      · rw [hq, bump_same, List.count_cons_self]
      · rw [bump_ne _ hq, List.count_cons_of_ne fun heq => hq heq.symm]
    have hbooks : ((PacketPool.take {w with env} [p]).setPkt p pkt).holdings.books =
        (PacketPool.take {w with env} [p]).holdings.books :=
      books_setPkt nothingKept (w := PacketPool.take {w with env} [p]) hrefcnt
    rw [hcount, hbooks]
    exact .refl _

namespace Dpdk

theorem recvLoop_gathers (hsys : sys.Honours) {self : Dpdk} {b : Books} {ms : List MbufPtr}
    {ret head : Option PacketId} {ps : List PacketId} {w w' : World σ}
    (h : recvLoop sys checks self ms ret w = .ok (.ok head, w')) (hs : Gathered b w ret ps) :
    ∃ ps', Gathered b w' head ps' ∧ ps'.length = ms.length + ps.length := by
  induction ms generalizing ret ps w with
  | nil =>
    cases h
    exact ⟨ps, hs, (Nat.zero_add _).symm⟩
  | cons m rest ih =>
    simp only [recvLoop, Exec.bind_eq_ok] at h
    obtain ⟨⟨res, w₁⟩, halloc, h⟩ := h
    cases res with
    | error e => cases h
    | ok p =>
      simp only [Exec.bind_eq_ok, Packet.setLen, Exec.pure_eq_ok] at h
      obtain ⟨_, ⟨len, _, rfl⟩, h⟩ := h
      obtain ⟨hfree, env, rfl⟩ := PacketPool.allocate_takes hsys halloc
      obtain ⟨ps', hps', hlen⟩ := ih h (hs.push hfree env rfl rfl)
      refine ⟨ps', hps', ?_⟩
      rw [hlen, List.length_cons, List.length_cons]
      omega

theorem putRx_holdings (w : World σ) (rx : List RxMbuf) : (putRx w rx).holdings = w.holdings := by
  induction rx generalizing w with
  | nil => rfl
  | cons r rest ih => exact ih _

/-- The loop ends early only for want of a packet. -/
theorem recvLoop_exhausted {self : Dpdk} {ms : List MbufPtr} {ret : Option PacketId} {e : Error}
    {w w' : World σ} (h : recvLoop sys checks self ms ret w = .ok (.error e, w')) :
    e = .memoryError := by
  induction ms generalizing ret w with
  | nil => cases h
  | cons m rest ih =>
    simp only [recvLoop] at h
    obtain ⟨⟨res, w₁⟩, halloc, h⟩ := Exec.bind_eq_ok.mp h
    obtain ⟨_, _, _, ⟨rfl, _⟩ | ⟨p, ps, rfl, _⟩⟩ := PacketPool.allocate_cases halloc
    · cases h
      rfl
    · obtain ⟨pkt, _, h⟩ := Exec.bind_eq_ok.mp h
      exact ih h

/-- `recv` finds no mbuf, or no packet for one, or hands over the packets of its burst. -/
theorem recv_cases (hsys : sys.Honours) {self self' : Dpdk} {w w' : World σ}
    {res : Result PacketId} (hpool : w.Pooled)
    (h : recv sys checks self w = .ok (res, self', w')) :
    (res = .error .nop ∧ w'.holdings = w.holdings) ∨ res = .error .memoryError ∨
      ∃ head ps, res = .ok head ∧ Worker.ChainOf w'.pkts (some head) ps ∧
        HandsOver ps w.holdings.books w'.holdings.books ∧ ps.length ≤ 64 := by
  simp only [recv] at h
  split at h
  · cases h
    exact .inl ⟨rfl, rfl⟩
  · split at h
    · cases h
    · rename_i hlen
      obtain ⟨⟨res₁, w₁⟩, hloop, h⟩ := Exec.bind_eq_ok.mp h
      cases res₁ with
      | error e =>
        cases h
        exact .inr (.inl (congrArg _ (recvLoop_exhausted hloop)))
      | ok ret =>
        cases ret with
        | none => cases h
        | some head =>
          cases h
          have hputs := putRx_holdings {w with
            env := (sys.ethRxBurst self.port self.queue burstSize w).2}
              (sys.ethRxBurst self.port self.queue burstSize w).1
          have honce : World.HeldOnce (putRx {w with
              env := (sys.ethRxBurst self.port self.queue burstSize w).2}
                (sys.ethRxBurst self.port self.queue burstSize w).1) := by
            intro p
            rw [putRx_pool]
            exact hpool.heldOnce p
          obtain ⟨ps, hps, hcount⟩ := recvLoop_gathers hsys hloop (.none honce)
          refine .inr (.inr ⟨head, ps, rfl, hps.chain, ?_, ?_⟩)
          · have hhands := hps.handsOver
            rwa [hputs] at hhands
          · rw [List.length_reverse, List.length_map, List.length_nil] at hcount
            have hbound : burstSize = 64 := rfl
            omega

theorem init_holdings {self self' : Dpdk} {nic port numQueues queue : UInt16}
    {res : Result MacAddr} {w w' : World σ}
    (h : init sys self nic port numQueues queue w = .ok (res, self', w')) :
    w'.holdings = w.holdings := by
  simp only [init, Exec.bind_eq_ok] at h
  obtain ⟨env, _, pool, _, h⟩ := h
  split at h
  · rename_i halloc
    cases h
    exact (allocBulk_holdings halloc).trans rfl
  · rename_i halloc
    split at h <;>
    · cases h
      exact (allocBulk_holdings halloc).trans rfl

end Dpdk

namespace IoNode
variable {ctx : Context}

theorem initNics_holdings {builders : String → Option Dpdk} {numQueues queueId : UInt16}
    {nics : List NicConfig} {id : Nat} {self self' : IoNode Dpdk} {w w' : World σ}
    (h : initNics (Dpdk.adapter sys checks) builders ctx numQueues queueId nics id self w =
      .ok (self', w')) : w'.holdings = w.holdings := by
  induction nics generalizing id self w with
  | nil =>
    cases h
    rfl
  | cons nic rest ih =>
    simp only [initNics, Exec.bind_eq_ok] at h
    obtain ⟨adapter, _, ⟨res, adapter', w₁⟩, hinit, h⟩ := h
    cases res with
    | error e => cases h
    | ok mac =>
      dsimp only at h
      split at h
      · obtain ⟨adapters, _, h⟩ := Exec.bind_eq_ok.mp h
        exact (ih h).trans (Dpdk.init_holdings hinit)
      · cases h

theorem flushAll_callbacks (hcards : sys.FinishesHeld) {idx : Nat} {self self' : IoNode Dpdk}
    {w w' : World σ} {res : Result Unit}
    (h : flushAll (Dpdk.adapter sys checks) ctx idx self w = .ok (res, self', w')) :
    Callbacks w.holdings w'.holdings := by
  induction idx generalizing self w with
  | zero =>
    cases h
    exact .refl _
  | succ idx ih =>
    simp only [flushAll, Exec.bind_eq_ok] at h
    obtain ⟨nic, _, adapter, _, ⟨res₁, adapter₁, w₁⟩, hflush, h⟩ := h
    have hcallbacks := Dpdk.flush_callbacks hcards hflush
    cases res₁ with
    | error e =>
      cases h
      exact hcallbacks
    | ok u => exact hcallbacks.trans (ih h)

theorem flushEach_callbacks (hcards : sys.FinishesHeld) {adapters : List Dpdk} {w w' : World σ}
    (h : flushEach (Dpdk.adapter sys checks) ctx adapters w = .ok w') :
    Callbacks w.holdings w'.holdings := by
  induction adapters generalizing w with
  | nil =>
    cases h
    exact .refl _
  | cons adapter rest ih =>
    simp only [flushEach, Exec.bind_eq_ok] at h
    obtain ⟨⟨res, adapter₁, w₁⟩, hflush, h⟩ := h
    exact (Dpdk.flush_callbacks hcards hflush).trans (ih h)

/-- The adapters are asked in turn; the first that does not answer with nothing ends it. -/
theorem recvAny_cases (hsys : sys.Honours) {polled rest adapters : List Dpdk} {w w' : World σ}
    {res : Result PacketId} (hpool : w.Pooled)
    (h : recvAny (Dpdk.adapter sys checks) ctx polled rest w = .ok (res, adapters, w')) :
    (res = .error .nop ∧ w'.holdings = w.holdings) ∨ res = .error .memoryError ∨
      ∃ head ps, res = .ok head ∧ Worker.ChainOf w'.pkts (some head) ps ∧
        HandsOver ps w.holdings.books w'.holdings.books ∧ ps.length ≤ 64 := by
  induction rest generalizing polled w with
  | nil =>
    cases h
    exact .inl ⟨rfl, rfl⟩
  | cons adapter rest ih =>
    simp only [recvAny, Exec.bind_eq_ok] at h
    obtain ⟨⟨res₁, adapter₁, w₁⟩, hrecv, h⟩ := h
    rcases Dpdk.recv_cases hsys hpool hrecv with
      ⟨rfl, hsame⟩ | rfl | ⟨head, ps, rfl, hchain, hhands, hlen⟩
    · have hpool₁ : w₁.Pooled := by
        rw [World.Pooled, hsame]
        exact hpool
      have hrest := ih hpool₁ h
      rwa [hsame] at hrest
    · cases h
      exact .inr (.inl rfl)
    · cases h
      exact .inr (.inr ⟨head, ps, rfl, hchain, hhands, hlen⟩)

/-- A poll flushes, and then hands over a burst or finds none. -/
theorem poll_cases (hsys : sys.Honours) (hcards : sys.FinishesHeld) {self self' : IoNode Dpdk}
    {w w' : World σ} {res : Result PacketId} (hpool : w.Pooled)
    (h : poll (Dpdk.adapter sys checks) ctx self w = .ok (res, self', w'))
    (hres : ∀ e, res = .error e → e = .nop) :
    (res = .error .nop ∧ Traffic w.holdings.books w'.holdings.books) ∨
      ∃ head ps, res = .ok head ∧ Worker.ChainOf w'.pkts (some head) ps ∧
        HandsOver ps w.holdings.books w'.holdings.books ∧ ps.length ≤ 64 := by
  simp only [poll, Exec.bind_eq_ok] at h
  obtain ⟨⟨res₁, self₁, w₁⟩, hflush, h⟩ := h
  have htraffic := (flushAll_callbacks hcards hflush).traffic
  cases res₁ with
  | error e =>
    cases h
    obtain rfl := hres e rfl
    exact .inl ⟨rfl, htraffic⟩
  | ok u =>
    simp only [Exec.bind_eq_ok, Exec.pure_eq_ok, Prod.mk.injEq] at h
    obtain ⟨⟨res₂, adapters, w₂⟩, hrecv, _, _, rfl, _, rfl⟩ := h
    rcases recvAny_cases hsys (hpool.traffic htraffic) hrecv with
      ⟨rfl, hsame⟩ | rfl | ⟨head, ps, rfl, hchain, ⟨b, hgather, hkept, hbooks⟩, hlen⟩
    · exact .inl ⟨rfl, hsame ▸ htraffic⟩
    · cases hres _ rfl
    · exact .inr ⟨head, ps, rfl, hchain, ⟨b, htraffic.trans hgather, hkept, hbooks⟩, hlen⟩

end IoNode

namespace UserNode

theorem buildChain_holdings {l : List PacketId} {ret ret' : Option PacketId} {w w' : World σ}
    (h : buildChain checks l ret w = .ok (ret', w')) : w'.holdings.books = w.holdings.books := by
  induction l generalizing ret w with
  | nil =>
    cases h
    rfl
  | cons p rest ih =>
    simp only [buildChain, Packet.setLen, Exec.bind_eq_ok, Exec.pure_eq_ok] at h
    obtain ⟨_, ⟨len, _, rfl⟩, h⟩ := h
    exact (ih h).trans (books_setPkt nothingKept rfl)

theorem poll_cases (hsys : sys.Honours) {w w' : World σ} {res : Result PacketId}
    (hpool : w.Pooled) (h : poll sys checks w = .ok (res, w')) :
    res = .error .memoryError ∨
      ∃ head ps, res = .ok head ∧ Worker.ChainOf w'.pkts (some head) ps ∧
        HandsOver ps w.holdings.books w'.holdings.books ∧ ps.length ≤ 64 := by
  unfold poll PacketPool.allocateMany at h
  cases hget : sys.mempoolGet burstSize w with
  | mk objs env =>
    cases objs with
    | none =>
      simp only [hget] at h
      cases h
      exact .inl rfl
    | some ps =>
      have hnodup : ps.Nodup := List.nodup_iff_count.mpr fun p =>
        Nat.le_trans (hsys.get_held hget p) (hpool.heldOnce p)
      have hfree : ∀ p ∈ ps, 0 < w.free p := fun p hp =>
        Nat.lt_of_lt_of_le (List.count_pos_iff.mpr hp) (hsys.get_held hget p)
      obtain ⟨ret, w₁, hbuild, hchain, _⟩ := buildChain_spec checks ps.reverse []
        (w := PacketPool.take {w with env} ps) (by simpa using hnodup) .nil (by simp)
      rw [List.reverse_reverse, List.append_nil] at hchain
      simp only [hget, hbuild, Exec.ok_bind] at h
      cases ret with
      | none => cases h
      | some head =>
        cases h
        refine .inr ⟨head, ps, rfl, hchain, ?_, ?_⟩
        · rw [buildChain_holdings hbuild]
          have htake : HandsOver ps ({w with env}.books nothingKept)
              ((PacketPool.take {w with env} ps).books nothingKept) := take_handsOver hnodup hfree
          exact htake
        · have hlen := hsys.get_length hget
          have hbound : burstSize = 32 := rfl
          omega

end UserNode
end Gathering

/-! ### The registry -/

section Registry
variable {τ : Type} {sys : Sys (Instances τ)} {checks : Bool}
  {getStackConfig : String → Option StackConfig} {name : String}
  {build : NodeId → Module (Instances τ)} {ctx : Context}

theorem registry_init (h : registry sys checks getStackConfig name = some build) (id : NodeId)
    {w w' : World (Instances τ)} {res : Result Unit} (hinit : (build id).init ctx w = .ok (res, w')) :
    w'.holdings = w.holdings := by
  unfold registry at h
  split at h <;> cases h
  · simp only [IoNode.module, IoNode.initModule, Exec.bind_eq_ok] at hinit
    obtain ⟨stackConfig, _, hkeep⟩ := hinit
    obtain ⟨self, w₁, env, hinit, rfl⟩ := IoNode.keep_eq_ok hkeep
    simp only [Exec.bind_eq_ok, Exec.pure_eq_ok, Prod.mk.injEq, IoNode.init] at hinit
    obtain ⟨⟨self₁, w₂⟩, ⟨graph, _, hnics⟩, _, _, rfl⟩ := hinit
    exact (IoNode.initNics_holdings hnics).trans rfl
  · cases hinit
    rfl
  · cases hinit
    rfl
  · cases hinit
    rfl
  · simp only [Ipv4Sender.module, Ipv4Sender.initModule, Exec.bind_eq_ok, Exec.pure_eq_ok,
      Prod.mk.injEq] at hinit
    obtain ⟨_, _, _, _, _, rfl⟩ := hinit
    rfl
  · cases hinit
    rfl
  · cases hinit
    rfl
  · cases hinit
    rfl

/-- A call that does not return `Ok` has given its packet up. -/
theorem registry_gives (hcards : sys.FinishesHeld)
    (h : registry sys checks getStackConfig name = some build) (id : NodeId) {p : PacketId}
    {w w' : World (Instances τ)} {e : Error}
    (hcall : (build id).process ctx p w = .ok (.error e, w')) :
    GivesUp p w.holdings w'.holdings := by
  by_cases hdropped : e = .dropped
  · rw [hdropped] at hcall
    exact (registry_givesOne hcards h id).dropped hcall
  · unfold registry at h
    split at h <;> cases h
    · obtain ⟨self, w₁, env, hsent, rfl⟩ := IoNode.keep_eq_ok hcall
      exact (IoNode.process_givesUp hcards hsent).2
    · cases (UserNode.process_drops hcall).1
      exact absurd rfl hdropped
    · cases (EthSender.process_edits hcall).1
    · cases (EthReceiver.process_edits hcall).1
    · cases (Ipv4Sender.process_edits hcall).1
    · rcases Ipv4Receiver.process_edits hcall with ⟨hok, _⟩ | ⟨hres, _⟩
      · cases hok
      · cases hres
        exact absurd rfl hdropped
    · cases (UdpSender.process_edits hcall).1
    · cases (UdpReceiver.process_edits hcall).1

/-- The polls of the registered modules. -/
theorem registry_polls (hsys : sys.Honours) (hcards : sys.FinishesHeld)
    (h : registry sys checks getStackConfig name = some build) (id : NodeId)
    {w w' : World (Instances τ)} {res : Result PacketId} (hpool : w.Pooled)
    (hpoll : (build id).poll ctx w = .ok (res, w')) (hres : ∀ e, res = .error e → e = .nop) :
    (res = .error .nop ∧ Traffic w.holdings.books w'.holdings.books) ∨
      ∃ head ps, res = .ok head ∧ name ∈ endNames ∧ Worker.ChainOf w'.pkts (some head) ps ∧
        HandsOver ps w.holdings.books w'.holdings.books ∧ ps.length ≤ 64 := by
  unfold registry at h
  split at h <;> cases h
  · obtain ⟨self, w₁, env, hkept, rfl⟩ := IoNode.keep_eq_ok hpoll
    rcases IoNode.poll_cases hsys hcards hpool hkept hres with hnop | ⟨head, ps, rfl, hhands⟩
    · exact .inl hnop
    · exact .inr ⟨head, ps, rfl, by decide, hhands⟩
  · rcases UserNode.poll_cases hsys hpool hpoll with rfl | ⟨head, ps, rfl, hhands⟩
    · cases hres _ rfl
    · exact .inr ⟨head, ps, rfl, by decide, hhands⟩
  all_goals
    cases hpoll
    exact .inl ⟨rfl, .refl _⟩

theorem registry_destroys (hcards : sys.FinishesHeld)
    (h : registry sys checks getStackConfig name = some build) (id : NodeId)
    {w w' : World (Instances τ)} (hdestroy : (build id).destroy ctx w = .ok w') :
    Callbacks w.holdings w'.holdings := by
  unfold registry at h
  split at h <;> cases h
  · exact IoNode.flushEach_callbacks hcards hdestroy
  all_goals
    cases hdestroy
    exact .refl _

/-- **Every registered module keeps the rules**, used well. -/
theorem registry_disciplined (hsys : sys.Honours) (hcards : sys.FinishesHeld)
    (h : registry sys checks getStackConfig name = some build) (id : NodeId) :
    Disciplined nothingKept ctx ((build id).guarded World.Pooled) where
  init hinit := by
    rw [books_holdings, books_holdings, registry_init h id hinit]
    exact .refl _
  forwarded hcall := ((registry_givesOne hcards h id).forwarded hcall).traffic
  dropped hcall := ((registry_givesOne hcards h id).dropped hcall).gaveUp
  failed hcall := .inr (registry_gives hcards h id hcall).gaveUp
  polled hpoll := by
    obtain ⟨hpool, hpoll, hres⟩ := Module.guarded_poll hpoll
    rcases registry_polls hsys hcards h id hpool hpoll hres with
      ⟨hnop, _⟩ | ⟨head, ps, hhead, _, hchain, hhands, _⟩
    · cases hnop
    · cases hhead
      exact ⟨ps, hchain, hhands⟩
  idle hpoll := by
    obtain ⟨hpool, hpoll, hres⟩ := Module.guarded_poll hpoll
    rcases registry_polls hsys hcards h id hpool hpoll hres with ⟨_, htraffic⟩ | ⟨_, _, hhead, _⟩
    · exact htraffic
    · cases hhead
  destroy hdestroy := (registry_destroys hcards h id hdestroy).traffic

end Registry
end OmniStack
