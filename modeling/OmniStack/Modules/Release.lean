import OmniStack.Layout
import OmniStack.Modules.Supply

/-! The modules in a release build.

Without overflow checks a header that claims too much wraps around, so what comes in from a card is
received, dropped or handed to the user node, and nothing goes wrong on the way. What goes out is
laid out by the stack's own senders, so the one assertion a send makes, that a frame is UDP over
IPv4, holds. What is left is the loop that waits for a card to take what it is offered
(`Exec.OnlySpins`). -/
namespace OmniStack
open Lib Worker

variable {σ : Type} {sys : Sys σ}

/-! ### Packets -/

theorem add16_release (a b : UInt16) : (add16 false a b).OnlySpins := .ok _

theorem sub16_release (a b : UInt16) : (sub16 false a b).OnlySpins := .ok _

theorem subWord_release (a b : Nat) : (subWord false a b).OnlySpins := by
  unfold subWord
  split <;> exact .ok _

theorem PacketPool.deallocate_release (p : PacketId) (threadId : UInt32) (w : World σ) :
    (PacketPool.deallocate false p threadId w).OnlySpins := by
  unfold PacketPool.deallocate
  dsimp only
  split
  · split <;> exact .ok _
  · exact .bind (subWord_release _ _) fun _ _ => .pure _

theorem EthReceiver.process_release (p : PacketId) (w : World σ) :
    (EthReceiver.process false p w).OnlySpins :=
  .bind (add16_release _ _) fun _ _ => .pure _

theorem Ipv4Receiver.process_release (ctx : Context) (p : PacketId) (w : World σ) :
    (Ipv4Receiver.process false ctx p w).OnlySpins := by
  refine .bind (.bind (add16_release _ _) fun _ _ => .pure _) fun _ _ =>
    .bind (add16_release _ _) fun _ _ => ?_
  dsimp only
  split
  · exact .bind (PacketPool.deallocate_release _ _ _) fun _ _ => .pure _
  · exact .pure _

theorem UdpReceiver.process_release (p : PacketId) (w : World σ) :
    (UdpReceiver.process false p w).OnlySpins :=
  .bind (add16_release _ _) fun _ _ => .pure _

theorem UserNode.process_release (ctx : Context) (p : PacketId) (w : World σ) :
    (UserNode.process false ctx p w).OnlySpins :=
  .bind (PacketPool.deallocate_release _ _ _) fun _ _ => .pure _

theorem UserNode.buildChain_release (l : List PacketId) (ret : Option PacketId) (w : World σ) :
    (UserNode.buildChain false l ret w).OnlySpins := by
  induction l generalizing ret w with
  | nil => exact .ok _
  | cons p rest ih =>
    exact .bind (.bind (add16_release _ _) fun _ _ => .pure _) fun _ _ => ih _ _

namespace Dpdk

theorem finishAll_release (ms : List MbufPtr) (w : World σ) :
    (finishAll false ms w).OnlySpins := by
  induction ms generalizing w with
  | nil => exact .ok w
  | cons m rest ih =>
    refine .bind ?_ fun w' _ => ih w'
    unfold finish
    split
    · exact PacketPool.deallocate_release _ _ _
    · exact .ok w

theorem flushLoop_release (fuel start : Nat) (self : Dpdk) (w : World σ) :
    (flushLoop sys false fuel start self w).OnlySpins := by
  induction fuel generalizing start self w with
  | zero =>
    unfold flushLoop
    split
    · exact .ok _
    · intro f h
      exact (Except.error.inj h).symm
  | succ fuel ih =>
    unfold flushLoop
    split
    · exact .ok _
    · exact .bind (finishAll_release _ _) fun _ _ => .bind (subWord_release _ _) fun _ _ => ih _ _ _

/-- A flush waits for the card, and that is all that can go wrong. -/
theorem flush_release (self : Dpdk) (w : World σ) : (flush sys false self w).OnlySpins := by
  unfold flush
  split
  · exact .ok _
  · refine .bind (flushLoop_release _ _ _ _) fun _ _ => ?_
    dsimp only
    split <;> exact .pure _

/-- The frame is what the adapter can offload. -/
def IsUdp (w : World σ) (p : PacketId) : Prop :=
  (EthHeader.load (w.bytes p) (w.pkts p).l2Header.offset.toNat).etherTy = EtherType.ipv4 ∧
    (Ipv4Header.load (w.bytes p) (w.pkts p).l3Header.offset.toNat).protocol = Ipv4ProtoType.udp

/-- Sending a UDP frame from another buffer than the next mbuf's. -/
theorem send_release {self : Dpdk} (hidx : self.txIdx < 64) {ctx : Context} {p : PacketId}
    {w : World σ} (hapart : (w.mbufs self.txBufs[self.txIdx]).bufAddr.1 ≠ (w.pkts p).data)
    (hudp : IsUdp w p) : (send sys false self ctx p w).OnlySpins := by
  have hslot : self.txBufs[self.txIdx]? = some self.txBufs[self.txIdx] :=
    Vector.getElem?_eq_getElem hidx
  refine .bind (.access hslot) fun m hm => ?_
  obtain rfl := Option.some.inj (hslot.symm.trans (getUnchecked_eq_ok.mp hm))
  refine .bind (sub16_release _ _) fun len _ => .bind (.ok _) fun addr _ => ?_
  refine .bind ?_ fun sent _ => ?_
  · generalize hw₀ : World.setMem _ _ _ = w₀
    have hpkt : w₀.pkts p = {w.pkts p with threadId := ctx.threadId} := by
      rw [← hw₀]
      exact World.setPkt_pkts_same _ _ _
    have hbytes : w₀.bytes p = w.bytes p := by
      rw [World.bytes, hpkt, ← hw₀]
      exact if_neg hapart.symm
    unfold IsUdp at hudp
    unfold offload
    dsimp only
    rw [hpkt, hbytes, if_pos hudp]
    exact .ok _
  · dsimp only
    split
    · refine .bind (flush_release _ _) fun flushed _ => ?_
      split <;> exact .pure _
    · exact .pure _

theorem recvLoop_release (hsys : sys.Honours) (self : Dpdk) (ms : List MbufPtr)
    (ret : Option PacketId) (w : World σ) : (recvLoop sys false self ms ret w).OnlySpins := by
  induction ms generalizing ret w with
  | nil => exact .ok _
  | cons m rest ih =>
    refine .bind ?_ fun got _ => ?_
    · unfold PacketPool.allocate PacketPool.allocateMany
      rcases hget : sys.mempoolGet 1 w with ⟨_ | _ | ⟨p, ps⟩, env⟩
      · exact .ok _
      · cases hsys.get_length hget
      · exact .ok _
    · split
      · exact .pure _
      · exact .bind (.bind (add16_release _ _) fun _ _ => .pure _) fun _ _ => ih _ _

theorem recvLoop_some {checks : Bool} {self : Dpdk} {ms : List MbufPtr} {ret : Option PacketId}
    {w w' : World σ} (hms : ms ≠ [] ∨ ret ≠ none) :
    recvLoop sys checks self ms ret w ≠ .ok (.ok none, w') := by
  induction ms generalizing ret w with
  | nil =>
    intro h
    cases h
    exact hms.elim (absurd rfl) (absurd rfl)
  | cons m rest ih =>
    intro h
    simp only [recvLoop, Exec.bind_eq_ok] at h
    obtain ⟨⟨res, w₁⟩, _, h⟩ := h
    cases res with
    | error e => cases h
    | ok p =>
      simp only [Exec.bind_eq_ok] at h
      obtain ⟨pkt, _, h⟩ := h
      have hsome : (some p : Option PacketId) ≠ none := Option.some_ne_none p
      exact ih (.inr hsome) h

/-- Whatever a card delivers can be received. -/
theorem recv_release (hsys : sys.Honours) (self : Dpdk) (w : World σ) :
    (recv sys false self w).OnlySpins := by
  have hlen := hsys.rx_length self.port self.queue w
  unfold recv
  dsimp only
  split
  · exact .pure _
  · rename_i hne
    rw [if_neg (Nat.not_lt.mpr hlen)]
    refine .bind (recvLoop_release hsys _ _ _ _) fun got hgot => ?_
    obtain ⟨res, w'⟩ := got
    cases res with
    | error e => exact .pure _
    | ok head =>
      cases head with
      | some p => exact .pure _
      | none =>
        refine absurd hgot (recvLoop_some (.inl ?_))
        rwa [ne_eq, List.reverse_eq_nil_iff, List.map_eq_nil_iff]

end Dpdk

/-! ### What the library leaves alone -/

/-- No call of the library changes this part of the environment. -/
structure Sys.Leaves {β : Type} (sys : Sys σ) (view : σ → β) : Prop where
  get : ∀ n w, view (sys.mempoolGet n w).2 = view w.env
  refill : ∀ pool n w, view (sys.pktmbufAllocBulk pool n w).2 = view w.env
  burst : ∀ port queue ms w, view (sys.ethTxBurst port queue ms w).2.2 = view w.env
  rx : ∀ port queue n w, view (sys.ethRxBurst port queue n w).2 = view w.env
  port : ∀ port numQueues w env, sys.portInit port numQueues w = .ok env → view env = view w.env

section
variable {β : Type} {view : σ → β} {checks : Bool} {ctx : Context}

theorem PacketPool.allocateMany_leaves (hget : ∀ n w, view (sys.mempoolGet n w).2 = view w.env)
    {n : Nat} {w w' : World σ} {res : Result (List PacketId)}
    (h : allocateMany sys n w = (res, w')) : view w'.env = view w.env ∧ w'.mbufs = w.mbufs := by
  have hget := hget n w
  unfold allocateMany at h
  rcases hgot : sys.mempoolGet n w with ⟨_ | ps, env⟩
  · rw [hgot] at h hget
    cases h
    exact ⟨hget, rfl⟩
  · rw [hgot] at h hget
    cases h
    rw [take_env, take_mbufs]
    exact ⟨hget, rfl⟩

namespace Dpdk

theorem flushLoop_leaves (hsys : sys.Leaves view) {fuel start : Nat} {self b : Dpdk}
    {w w' : World σ} (h : flushLoop sys checks fuel start self w = .ok (b, w')) :
    view w'.env = view w.env := by
  induction fuel generalizing start self w with
  | zero =>
    simp only [flushLoop] at h
    split at h
    · cases h
      rfl
    · cases h
  | succ fuel ih =>
    simp only [flushLoop] at h
    split at h
    · cases h
      rfl
    · simp only [Exec.bind_eq_ok] at h
      obtain ⟨mid, hfinish, txIdx, _, h⟩ := h
      rw [ih h, (finishAll_keeps hfinish).2]
      exact hsys.burst _ _ _ _

theorem allocBulk_leaves (hsys : sys.Leaves view) {self b : Dpdk} {n : Nat} {w w' : World σ}
    {ok : Bool} (h : allocBulk sys self n w = (ok, b, w')) : view w'.env = view w.env := by
  have hrefill := hsys.refill self.pktmbufPool n w
  unfold allocBulk at h
  rcases hgot : sys.pktmbufAllocBulk self.pktmbufPool n w with ⟨_ | ms, env⟩
  · simp only [hgot, Prod.mk.injEq] at h
    rw [hgot] at hrefill
    obtain ⟨_, _, rfl⟩ := h
    exact hrefill
  · simp only [hgot, Prod.mk.injEq] at h
    rw [hgot] at hrefill
    obtain ⟨_, _, rfl⟩ := h
    rw [putMbufs_env]
    exact hrefill

theorem init_leaves (hsys : sys.Leaves view) {self b : Dpdk} {nic port numQueues queue : UInt16}
    {w w' : World σ} {res : Result MacAddr}
    (h : init sys self nic port numQueues queue w = .ok (res, b, w')) :
    view w'.env = view w.env := by
  simp only [init, Exec.bind_eq_ok] at h
  obtain ⟨env, hport, pool, _, h⟩ := h
  rw [← hsys.port _ _ _ _ hport]
  split at h
  · rename_i halloc
    cases h
    exact allocBulk_leaves hsys halloc
  · rename_i halloc
    split at h <;>
    · cases h
      exact allocBulk_leaves hsys halloc

theorem flush_leaves (hsys : sys.Leaves view) {self b : Dpdk} {w w' : World σ} {res : Result Unit}
    (h : flush sys checks self w = .ok (res, b, w')) : view w'.env = view w.env := by
  simp only [flush] at h
  split at h
  · cases h
    rfl
  · obtain ⟨⟨mid, w₁⟩, hloop, h⟩ := Exec.bind_eq_ok.mp h
    rw [← flushLoop_leaves hsys hloop]
    dsimp only at h
    split at h <;>
    · rename_i halloc
      simp only [Exec.pure_eq_ok, Prod.mk.injEq] at h
      obtain ⟨_, _, rfl⟩ := h
      exact allocBulk_leaves hsys halloc

theorem recvLoop_leaves (hsys : sys.Leaves view) {self : Dpdk} {ms : List MbufPtr}
    {ret : Option PacketId} {res : Result (Option PacketId)} {w w' : World σ}
    (h : recvLoop sys checks self ms ret w = .ok (res, w')) : view w'.env = view w.env := by
  induction ms generalizing ret w with
  | nil =>
    cases h
    rfl
  | cons m rest ih =>
    simp only [recvLoop, Exec.bind_eq_ok] at h
    obtain ⟨⟨res₁, w₁⟩, halloc, h⟩ := h
    have hleft : view w₁.env = view w.env := by
      unfold PacketPool.allocate at halloc
      split at halloc
      · rename_i hmany
        cases halloc
        exact (PacketPool.allocateMany_leaves hsys.get hmany).1
      · cases halloc
      · rename_i hmany
        cases halloc
        exact (PacketPool.allocateMany_leaves hsys.get hmany).1
    rw [← hleft]
    cases res₁ with
    | error e =>
      cases h
      rfl
    | ok p =>
      simp only [Exec.bind_eq_ok] at h
      obtain ⟨pkt, _, h⟩ := h
      have hrest := ih h
      exact hrest

theorem recv_leaves (hsys : sys.Leaves view) {self b : Dpdk} {w w' : World σ}
    {res : Result PacketId} (h : recv sys checks self w = .ok (res, b, w')) :
    view w'.env = view w.env := by
  rw [← hsys.rx self.port self.queue burstSize w]
  simp only [recv] at h
  split at h
  · cases h
    rfl
  · split at h
    · cases h
    · obtain ⟨⟨res₁, w₁⟩, hloop, h⟩ := Exec.bind_eq_ok.mp h
      have hleft := recvLoop_leaves hsys hloop
      rw [putRx_env] at hleft
      rw [← hleft]
      cases res₁ with
      | error e =>
        cases h
        rfl
      | ok head =>
        cases head with
        | none => cases h
        | some p =>
          cases h
          rfl

end Dpdk

namespace IoNode

theorem initNics_leaves (hsys : sys.Leaves view) {builders : String → Option Dpdk}
    {numQueues queueId : UInt16} {nics : List NicConfig} {id : Nat} {self self' : IoNode Dpdk}
    {w w' : World σ}
    (h : initNics (Dpdk.adapter sys checks) builders ctx numQueues queueId nics id self w =
      .ok (self', w')) : view w'.env = view w.env := by
  induction nics generalizing id self w with
  | nil =>
    cases h
    rfl
  | cons nic rest ih =>
    simp only [initNics, Exec.bind_eq_ok] at h
    obtain ⟨a, _, ⟨res, b, w₁⟩, hinit, h⟩ := h
    cases res with
    | error e => cases h
    | ok mac =>
      rw [← Dpdk.init_leaves hsys hinit]
      dsimp only at h
      split at h
      · obtain ⟨adapters, _, h⟩ := Exec.bind_eq_ok.mp h
        exact ih h
      · cases h

theorem flushAll_leaves (hsys : sys.Leaves view) {idx : Nat} {self self' : IoNode Dpdk}
    {w w' : World σ} {res : Result Unit}
    (h : flushAll (Dpdk.adapter sys checks) ctx idx self w = .ok (res, self', w')) :
    view w'.env = view w.env := by
  induction idx generalizing self w with
  | zero =>
    cases h
    rfl
  | succ idx ih =>
    simp only [flushAll, Exec.bind_eq_ok] at h
    obtain ⟨n, _, a, _, ⟨res₁, a', w₁⟩, hflush, h⟩ := h
    rw [← Dpdk.flush_leaves hsys hflush]
    cases res₁ with
    | error e =>
      cases h
      rfl
    | ok u => exact ih h

theorem recvAny_leaves (hsys : sys.Leaves view) {polled rest adapters : List Dpdk} {w w' : World σ}
    {res : Result PacketId}
    (h : recvAny (Dpdk.adapter sys checks) ctx polled rest w = .ok (res, adapters, w')) :
    view w'.env = view w.env := by
  induction rest generalizing polled w with
  | nil =>
    cases h
    rfl
  | cons a rest ih =>
    simp only [recvAny] at h
    obtain ⟨⟨res₁, b, w₁⟩, hrecv, h⟩ := Exec.bind_eq_ok.mp h
    rw [← Dpdk.recv_leaves hsys hrecv]
    split at h
    · rename_i heq
      cases heq
      exact ih h
    · rename_i heq
      cases heq
      cases h
      rfl

theorem poll_leaves (hsys : sys.Leaves view) {self self' : IoNode Dpdk} {w w' : World σ}
    {res : Result PacketId}
    (h : poll (Dpdk.adapter sys checks) ctx self w = .ok (res, self', w')) :
    view w'.env = view w.env := by
  simp only [poll] at h
  obtain ⟨⟨res₁, self₁, w₁⟩, hflush, h⟩ := Exec.bind_eq_ok.mp h
  rw [← flushAll_leaves hsys hflush]
  cases res₁ with
  | error e =>
    cases h
    rfl
  | ok u =>
    simp only [Exec.bind_eq_ok, Exec.pure_eq_ok, Prod.mk.injEq] at h
    obtain ⟨⟨res₂, adapters, w₂⟩, hrecv, _, _, _, _, rfl⟩ := h
    exact recvAny_leaves hsys hrecv

end IoNode
end

/-! ### Sending and receiving -/

namespace Dpdk
variable {β : Type} {view : σ → β} {checks : Bool}

/-- A send changes one packet; of the others, it may give references back. -/
theorem send_leaves (hsys : sys.Leaves view) {self b : Dpdk} {ctx : Context} {p : PacketId}
    {w w' : World σ} {res : Result Unit} (h : send sys checks self ctx p w = .ok (res, b, w')) :
    view w'.env = view w.env ∧
      ∀ q, q ≠ p → {w'.pkts q with refcnt := 0} = {w.pkts q with refcnt := 0} := by
  simp only [send, Exec.bind_eq_ok, getUnchecked_eq_ok] at h
  obtain ⟨m, _, len, _, addr, _, ⟨flags, w₁⟩, hoffload, h⟩ := h
  have hsent := offload_spec hoffload
  have henv : w₁.env = w.env := by
    rw [hsent]
    rfl
  have hothers (q : PacketId) (hq : q ≠ p) : w₁.pkts q = w.pkts q := by
    rw [hsent]
    exact World.setPkt_pkts_ne _ _ hq
  split at h
  · obtain ⟨⟨res₁, b₁, w₂⟩, hflush, h⟩ := Exec.bind_eq_ok.mp h
    have hleft := flush_leaves hsys hflush
    have hcontents := congrArg Prod.snd (flush_spec hflush).2.2.1
    have hend : view w₂.env = view w.env ∧
        ∀ q, q ≠ p → {w₂.pkts q with refcnt := 0} = {w.pkts q with refcnt := 0} := by
      refine ⟨hleft.trans (congrArg view henv), fun q hq => ?_⟩
      rw [← hothers q hq]
      exact congrFun hcontents q
    cases res₁ <;>
    · simp only [Exec.pure_eq_ok, Prod.mk.injEq] at h
      obtain ⟨_, _, rfl⟩ := h
      exact hend
  · simp only [Exec.pure_eq_ok, Prod.mk.injEq] at h
    obtain ⟨_, _, rfl⟩ := h
    refine ⟨congrArg view henv, fun q hq => ?_⟩
    rw [← hothers q hq]
    rfl

/-- A card that has nothing, and a pool that has nothing, are all that can be reported. -/
theorem recv_errors {self b : Dpdk} {w w' : World σ} {e : Error}
    (h : recv sys checks self w = .ok (.error e, b, w')) : e = .nop ∨ e = .memoryError := by
  simp only [recv] at h
  split at h
  · cases h
    exact .inl rfl
  · split at h
    · cases h
    · obtain ⟨⟨res₁, w₁⟩, hloop, h⟩ := Exec.bind_eq_ok.mp h
      cases res₁ with
      | error e' =>
        cases h
        exact .inr (recvLoop_exhausted hloop)
      | ok head => cases head <;> cases h

end Dpdk

namespace IoNode
variable {β : Type} {view : σ → β} {checks : Bool} {ctx : Context}

theorem flushAll_release {idx : Nat} {self : IoNode Dpdk} (w : World σ) (h : Tracked self)
    (hidx : self.flushQueueIdx = idx) :
    (flushAll (Dpdk.adapter sys false) ctx idx self w).OnlySpins := by
  induction idx generalizing self w with
  | zero => exact .ok _
  | succ idx ih =>
    obtain ⟨n, hn, hqueued⟩ := queued_succ hidx h.idx_le
    have hlt : n.toNat < self.adapters.items.length :=
      h.queued_lt _ (hqueued ▸ List.mem_append_right _ (List.mem_singleton_self _))
    refine .bind (.access hn) fun m hm => ?_
    obtain rfl : m = n := Option.some.inj ((getUnchecked_eq_ok.mp hm).symm.trans hn)
    refine .bind (.access (List.getElem?_eq_getElem hlt)) fun a _ =>
      .bind (Dpdk.flush_release _ _) fun flushed hflush => ?_
    obtain ⟨res, a', w'⟩ := flushed
    cases res with
    | error e => exact .pure _
    | ok _ => exact ih w' (h.pop hidx hn (Dpdk.flush_spec hflush).1) rfl

theorem recvAny_release (hsys : sys.Honours) (polled rest : List Dpdk) (w : World σ) :
    (recvAny (Dpdk.adapter sys false) ctx polled rest w).OnlySpins := by
  induction rest generalizing polled w with
  | nil => exact .ok _
  | cons a rest ih =>
    refine .bind (Dpdk.recv_release hsys _ _) fun got _ => ?_
    split
    · exact ih _ _
    · exact .pure _

theorem recvAny_error {polled rest adapters : List Dpdk} {w w' : World σ} {e : Error}
    (h : recvAny (Dpdk.adapter sys checks) ctx polled rest w = .ok (.error e, adapters, w')) :
    e = .nop ∨ e = .memoryError := by
  induction rest generalizing polled w with
  | nil =>
    cases h
    exact .inl rfl
  | cons a rest ih =>
    simp only [recvAny] at h
    obtain ⟨⟨res₁, b, w₁⟩, hrecv, h⟩ := Exec.bind_eq_ok.mp h
    split at h
    · exact ih h
    · rename_i heq
      cases heq
      cases h
      exact Dpdk.recv_errors hrecv

/-- Whatever has come in, the cards can be polled. -/
theorem poll_release (hsys : sys.Honours) {self : IoNode Dpdk} (h : Tracked self) (w : World σ) :
    (poll (Dpdk.adapter sys false) ctx self w).OnlySpins := by
  refine .bind (flushAll_release w h rfl) fun flushed hflush => ?_
  obtain ⟨res, self', w'⟩ := flushed
  cases res with
  | error e => exact .pure _
  | ok u =>
    refine .bind (recvAny_release hsys _ _ _) fun got hrecv => ?_
    obtain ⟨res, adapters, w''⟩ := got
    have hlength : adapters.length = self'.adapters.items.length := by
      simpa using congrArg List.length (recvAny_spec hrecv).1
    have hfits : (ArrayVec.ofList adapters : Exec (ArrayVec Dpdk 16)) =
        .ok ⟨adapters, hlength.trans_le self'.adapters.bound⟩ := dif_pos _
    dsimp only
    rw [hfits]
    exact .pure _

theorem poll_error {self self' : IoNode Dpdk} {w w' : World σ} {e : Error} (h : Tracked self)
    (hrun : poll (Dpdk.adapter sys checks) ctx self w = .ok (.error e, self', w')) :
    e = .nop ∨ e = .memoryError := by
  simp only [poll] at hrun
  obtain ⟨⟨res₁, self₁, w₁⟩, hflush, hrun⟩ := Exec.bind_eq_ok.mp hrun
  obtain ⟨_, _, rfl | ⟨rfl, _⟩⟩ := flushAll_spec h rfl hflush
  · cases hrun
    exact .inr rfl
  · simp only [Exec.bind_eq_ok, Exec.pure_eq_ok, Prod.mk.injEq] at hrun
    obtain ⟨⟨res₂, adapters, w₂⟩, hrecv, _, _, rfl, _, _⟩ := hrun
    exact recvAny_error hrecv

theorem flushEach_release (adapters : List Dpdk) (w : World σ) :
    (flushEach (Dpdk.adapter sys false) ctx adapters w).OnlySpins := by
  induction adapters generalizing w with
  | nil => exact .ok _
  | cons a rest ih => exact .bind (Dpdk.flush_release _ _) fun _ _ => ih _

/-- A UDP frame of one of its cards can be sent, where no spare mbuf points at the frame. -/
theorem process_release {self : IoNode Dpdk} {p : PacketId} {w : World σ} (h : Tracked self)
    (hnic : (w.pkts p).nic.toNat < self.adapters.items.length)
    (hapart : ∀ a ∈ self.adapters.items, ∀ m ∈ a.spare, (w.mbufs m).bufAddr.1 ≠ (w.pkts p).data)
    (hudp : ∀ mac, Dpdk.IsUdp (setSrc mac p w) p) :
    (process (Dpdk.adapter sys false) ctx self p w).OnlySpins := by
  have hbound := self.adapters.bound
  refine .bind (.access (Vector.getElem?_eq_getElem (Nat.lt_of_lt_of_le hnic hbound))) fun mac _ =>
    .bind (.access (List.getElem?_eq_getElem hnic)) fun a ha => .bind ?_ fun sent _ => ?_
  · have ha := List.mem_of_getElem? (getUnchecked_eq_ok.mp ha)
    have hidx := h.partly a ha
    refine Dpdk.send_release hidx (hapart a ha _ ?_) (hudp mac)
    rw [Dpdk.spare, List.drop_eq_getElem_cons (by rwa [Vector.length_toList])]
    exact List.mem_cons_self
  · obtain ⟨res, a₁, w₁⟩ := sent
    cases res with
    | error e => exact .pure _
    | ok _ =>
      obtain ⟨self₁, hnote, _⟩ :=
        noteFlush_spec {self with adapters := self.adapters.set (w.pkts p).nic.toNat a₁}
          h.idx_le h.mirrors (fun n hn => Nat.lt_of_lt_of_le (h.queued_lt n hn) hbound)
          (Nat.lt_of_lt_of_le hnic hbound)
      dsimp only
      rw [hnote]
      exact .pure _

theorem process_leaves (hsys : sys.Leaves view) {self self' : IoNode Dpdk} {p : PacketId}
    {w w' : World σ} {res : Result Unit}
    (h : process (Dpdk.adapter sys checks) ctx self p w = .ok (res, self', w')) :
    (res = .error .dropped ∨ res = .error .memoryError) ∧ view w'.env = view w.env ∧
      ∀ q, q ≠ p → {w'.pkts q with refcnt := 0} = {w.pkts q with refcnt := 0} := by
  simp only [process, Exec.bind_eq_ok, getUnchecked_eq_ok] at h
  obtain ⟨mac, _, a, _, ⟨res₁, a', w₁⟩, hsend, h⟩ := h
  have hleft := Dpdk.send_leaves hsys hsend
  rcases Dpdk.send_result hsend with rfl | rfl
  · simp only [Exec.bind_eq_ok, Exec.pure_eq_ok, Prod.mk.injEq] at h
    obtain ⟨_, _, rfl, _, rfl⟩ := h
    exact ⟨.inl rfl, hleft⟩
  · simp only [Exec.pure_eq_ok, Prod.mk.injEq] at h
    obtain ⟨rfl, _, rfl⟩ := h
    exact ⟨.inr rfl, hleft⟩

end IoNode

/-! ### What the user node sends -/

/-- In a buffer of its own, with room for the headers before its payload. -/
structure Outgoing (w : World σ) (p : PacketId) : Prop where
  own : ∃ q, (w.pkts p).data = .own q
  headroom : Headroom w p

theorem Outgoing.congr {w w' : World σ} {p : PacketId} (h : Outgoing w p)
    (hsame : {w'.pkts p with refcnt := 0} = {w.pkts p with refcnt := 0}) : Outgoing w' p := by
  have hdata := congrArg Packet.data hsame
  have hoffset := congrArg Packet.offset hsame
  have hlen := congrArg Packet.len hsame
  simp only at hdata hoffset hlen
  refine ⟨hdata ▸ h.own, ?_, ?_⟩
  · rw [hoffset]
    exact h.headroom.room
  · rw [hoffset, hlen]
    exact h.headroom.window

/-- The senders make a UDP frame of it. -/
theorem Headroom.isUdp {w : World σ} {p : PacketId} (h : Headroom w p) (sender : Ipv4Sender)
    (mac : MacAddr) : Dpdk.IsUdp (IoNode.setSrc mac p (w.put p (sentPkt sender (w.pkts p))
      (headedBytes sender (w.pkts p) (w.bytes p)))) p := by
  generalize hheaded : w.put p _ _ = headed
  have hpkt : headed.pkts p = sentPkt sender (w.pkts p) := by
    rw [← hheaded]
    exact World.put_pkts _ _ _ _
  have hheads : headed.bytes p = headedBytes sender (w.pkts p) (w.bytes p) := by
    rw [← hheaded]
    exact World.put_bytes _ _ rfl
  have hbytes : (IoNode.setSrc mac p headed).bytes p =
      sentBytes sender mac (w.pkts p) (w.bytes p) := by
    rw [IoNode.setSrc, World.storeAt_bytes, hheads, hpkt]
    rfl
  obtain ⟨_, hip, heth⟩ := h.offsets sender
  constructor
  · rw [hbytes]
    show (EthHeader.load _ (headed.pkts p).l2Header.offset.toNat).etherTy = _
    rw [hpkt]
    have hstart : (sentPkt sender (w.pkts p)).l2Header.offset.toNat =
      (sentPkt sender (w.pkts p)).offset.toNat := rfl
    rw [hstart]
    -- the address is written below the type
    have htype (k : Nat) (hk : 12 ≤ k) : sentBytes sender mac (w.pkts p) (w.bytes p)
        ((sentPkt sender (w.pkts p)).offset.toNat + k) =
        headedBytes sender (w.pkts p) (w.bytes p)
          ((sentPkt sender (w.pkts p)).offset.toNat + k) := by
      apply Bytes.write_outside
      right
      rw [MacAddr.toBytes_length]
      show (sentPkt sender (w.pkts p)).offset.toNat + 6 + 6 ≤ _
      omega
    rw [EthHeader.load, htype 12 (Nat.le_refl _), htype 13 (by omega)]
    exact Bytes.word16_write _ _ 12 rfl rfl
  · rw [hbytes]
    show (Ipv4Header.load _ (headed.pkts p).l3Header.offset.toNat).protocol = _
    rw [hpkt]
    have hstart : (sentPkt sender (w.pkts p)).l3Header.offset.toNat =
      (w.pkts p).offset.toNat - 28 := hip
    rw [hstart, (h.sent_headers sender mac).2]
    rfl

namespace UserNode

/-- The packets of `S` can be sent, and nothing else follows them. -/
structure AllOutgoing (w : World σ) (S : Set PacketId) : Prop where
  ready : ∀ p ∈ S, Outgoing w p
  next : ∀ p ∈ S, ∀ q, (w.pkts p).next = some q → q ∈ S

theorem AllOutgoing.chain {w : World σ} {S : Set PacketId} (h : AllOutgoing w S)
    {ptr : Option PacketId} {ps : List PacketId} (hchain : Worker.ChainOf w.pkts ptr ps)
    (hptr : ∀ p, ptr = some p → p ∈ S) : ∀ p ∈ ps, Outgoing w p := by
  induction hchain with
  | nil => exact fun p hp => absurd hp List.not_mem_nil
  | @cons p ps _ ih =>
    have hp := hptr p rfl
    intro q hq
    rcases List.mem_cons.mp hq with rfl | hq
    · exact h.ready q hp
    · exact ih (h.next p hp) q hq

theorem buildChain_outgoing {ps : List PacketId} {ret head : Option PacketId} {w w' : World σ}
    {S : Set PacketId} (hS : AllOutgoing w S) (hret : ∀ p, ret = some p → p ∈ S)
    (h : buildChain false ps ret w = .ok (head, w')) :
    (∃ T : Set PacketId, AllOutgoing w' T ∧ ∀ p, head = some p → p ∈ T) ∧
      w'.env = w.env ∧ w'.mbufs = w.mbufs := by
  induction ps generalizing ret w S with
  | nil =>
    cases h
    exact ⟨⟨S, hS, hret⟩, rfl, rfl⟩
  | cons p rest ih =>
    simp only [buildChain, Exec.bind_eq_ok, Packet.setLen, Exec.pure_eq_ok] at h
    obtain ⟨pkt, ⟨len, hlen, rfl⟩, h⟩ := h
    obtain rfl := add16_eq_ok hlen
    have hmem : ∀ q, some p = some q → q ∈ insert p S := fun q hq => .inl (Option.some.inj hq).symm
    have hrest := fun hset => ih (S := insert p S) hset hmem h
    refine hrest ⟨fun q hq => ?_, fun q hq r hr => ?_⟩
    · by_cases heq : q = p
      · subst heq
        have hroom : 42 ≤ defaultOffset.toNat := by decide
        have hwindow : defaultOffset.toNat ≤ (36 + defaultOffset).toNat := by decide
        refine ⟨⟨q, ?_⟩, ?_, ?_⟩ <;> rw [World.setPkt_pkts_same]
        · exact hroom
        · exact hwindow
      · refine (hS.ready q (hq.resolve_left heq)).congr ?_
        rw [World.setPkt_pkts_ne _ _ heq]
    · by_cases heq : q = p
      · rw [heq, World.setPkt_pkts_same] at hr
        exact .inr (hret r hr)
      · rw [World.setPkt_pkts_ne _ _ heq] at hr
        exact .inr (hS.next q (hq.resolve_left heq) r hr)

theorem buildChain_some {l : List PacketId} {ret : Option PacketId} {w w' : World σ} {checks : Bool}
    (hl : l ≠ [] ∨ ret ≠ none) : buildChain checks l ret w ≠ .ok (none, w') := by
  induction l generalizing ret w with
  | nil =>
    intro h
    cases h
    exact hl.elim (absurd rfl) (absurd rfl)
  | cons p rest ih =>
    intro h
    simp only [buildChain, Exec.bind_eq_ok] at h
    obtain ⟨pkt, _, h⟩ := h
    have hsome : (some p : Option PacketId) ≠ none := Option.some_ne_none p
    exact ih (.inr hsome) h

/-- The pool has a burst or it has not. -/
theorem poll_release (hsys : sys.Honours) (w : World σ) : (poll sys false w).OnlySpins := by
  unfold poll PacketPool.allocateMany
  rcases hget : sys.mempoolGet burstSize w with ⟨_ | ps, env⟩
  · exact .pure _
  · refine .bind (buildChain_release _ _ _) fun built hbuilt => ?_
    obtain ⟨ret, w'⟩ := built
    cases ret with
    | some head => exact .pure _
    | none =>
      refine absurd hbuilt (buildChain_some (.inl fun hnil => ?_))
      have hlength := hsys.get_length hget
      rw [List.reverse_eq_nil_iff.mp hnil] at hlength
      cases hlength

/-- A burst it has can be sent. -/
theorem poll_outgoing {β : Type} {view : σ → β}
    (hget : ∀ n w, view (sys.mempoolGet n w).2 = view w.env) {w w' : World σ}
    {res : Result PacketId} (h : poll sys false w = .ok (res, w')) :
    (res = .error .memoryError ∨ ∃ head, res = .ok head ∧
        ∀ ps, Worker.ChainOf w'.pkts (some head) ps → ∀ p ∈ ps, Outgoing w' p) ∧
      view w'.env = view w.env ∧ w'.mbufs = w.mbufs := by
  unfold poll at h
  rcases hmany : PacketPool.allocateMany sys burstSize w with ⟨e | ps, w₁⟩
  · obtain ⟨henv, hmbufs⟩ := PacketPool.allocateMany_leaves hget hmany
    rw [hmany] at h
    cases h
    refine ⟨.inl ?_, henv, hmbufs⟩
    unfold PacketPool.allocateMany at hmany
    split at hmany <;> cases hmany
    rfl
  · obtain ⟨henv, hmbufs⟩ := PacketPool.allocateMany_leaves hget hmany
    rw [hmany] at h
    simp only [Exec.bind_eq_ok] at h
    obtain ⟨⟨ret, w₂⟩, hbuild, h⟩ := h
    have hnone : AllOutgoing w₁ ∅ := ⟨fun p hp => hp.elim, fun p hp => hp.elim⟩
    obtain ⟨⟨T, hT, hhead⟩, henv', hmbufs'⟩ :=
      buildChain_outgoing hnone (fun _ hp => by cases hp) hbuild
    cases ret with
    | none => cases h
    | some head =>
      cases h
      refine ⟨.inr ⟨head, rfl, fun ps hchain => hT.chain hchain hhead⟩, ?_, hmbufs'.trans hmbufs⟩
      rw [henv']
      exact henv

end UserNode
end OmniStack
