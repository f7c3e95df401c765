import OmniStack.Modules.Dpdk

/-! What the adapter's operations do to its transmit queue.

`flush` hands every waiting mbuf to the card, in order, and leaves none waiting, whether
or not the refill that follows succeeds; `send` adds one and flushes when the burst is
full; `recv` leaves the transmit side alone. -/
namespace OmniStack
open Lib

/-- `rte_eth_tx_burst` takes at most what it is offered. -/
def Sys.TakesOffered {σ : Type} (sys : Sys σ) : Prop :=
  ∀ port queue ms w, (sys.ethTxBurst port queue ms w).1 ≤ ms.length

namespace Dpdk
variable {σ : Type} {sys : Sys σ} {checks : Bool}

/-- The mbufs waiting to be transmitted. -/
def buffered (self : Dpdk) : List MbufPtr := self.txBufs.toList.take self.txIdx

/-- The mbufs as the card takes them. -/
def tagged (self : Dpdk) (ms : List MbufPtr) : List (UInt16 × UInt16 × MbufPtr) :=
  ms.map fun m => (self.port, self.queue, m)

/-- A return to the pool or a reference less: no byte and no field but the count. -/
theorem deallocate_spec {p : PacketId} {threadId : UInt32} {w w' : World σ}
    (h : PacketPool.deallocate checks p threadId w = .ok w') :
    w'.wire = w.wire ∧ w'.contents = w.contents := by
  simp only [PacketPool.deallocate] at h
  split at h
  · split at h <;>
    · cases h
      exact ⟨rfl, rfl⟩
  · simp only [Exec.bind_eq_ok, Exec.pure_eq_ok] at h
    obtain ⟨n, _, rfl⟩ := h
    exact ⟨rfl, World.contents_refcnt w p n⟩

theorem finishAll_spec {ms : List MbufPtr} {w w' : World σ} (h : finishAll checks ms w = .ok w') :
    w'.wire = w.wire ∧ w'.contents = w.contents := by
  induction ms generalizing w with
  | nil =>
    cases h
    exact ⟨rfl, rfl⟩
  | cons m rest ih =>
    simp only [finishAll, Exec.bind_eq_ok] at h
    obtain ⟨mid, hmid, h⟩ := h
    rw [(ih h).1, (ih h).2]
    unfold finish at hmid
    split at hmid
    · unfold packetFreeCallback at hmid
      have hcounts := deallocate_spec hmid
      exact hcounts
    · cases hmid
      exact ⟨rfl, rfl⟩

theorem putMbufs_spec (w : World σ) (ms : List (MbufPtr × Mbuf)) :
    (putMbufs w ms).wire = w.wire ∧ (putMbufs w ms).contents = w.contents := by
  induction ms generalizing w with
  | nil => exact ⟨rfl, rfl⟩
  | cons m rest ih => exact ih _

/-- A refill changes entries of the array, and not how many mbufs wait. -/
theorem allocBulk_spec {self self' : Dpdk} {n : Nat} {w w' : World σ} {ok : Bool}
    (h : allocBulk sys self n w = (ok, self', w')) :
    self'.txIdx = self.txIdx ∧ self'.port = self.port ∧ self'.queue = self.queue ∧
      w'.wire = w.wire ∧ w'.contents = w.contents := by
  unfold allocBulk at h
  split at h
  · simp only [Prod.mk.injEq] at h
    obtain ⟨_, rfl, rfl⟩ := h
    exact ⟨rfl, rfl, rfl, putMbufs_spec _ _⟩
  · simp only [Prod.mk.injEq] at h
    obtain ⟨_, rfl, rfl⟩ := h
    exact ⟨rfl, rfl, rfl, rfl, rfl⟩

theorem init_txIdx {self self' : Dpdk} {nic port numQueues queue : UInt16} {w w' : World σ}
    {res : Result MacAddr} (h : init sys self nic port numQueues queue w = .ok (res, self', w')) :
    self'.txIdx = self.txIdx := by
  simp only [init, Exec.bind_eq_ok] at h
  obtain ⟨env, _, pool, _, h⟩ := h
  split at h
  · rename_i halloc
    simp only [Exec.pure_eq_ok, Prod.mk.injEq] at h
    obtain ⟨_, rfl, _⟩ := h
    exact (allocBulk_spec halloc).1
  · rename_i halloc
    split at h <;>
    · simp only [Exec.pure_eq_ok, Prod.mk.injEq] at h
      obtain ⟨_, rfl, _⟩ := h
      exact (allocBulk_spec halloc).1

/-- What the card takes first and what is offered next is what was offered. -/
theorem take_then_rest (l : List MbufPtr) {k n : Nat} (h : k ≤ n) :
    (l.take n).take k ++ (l.drop k).take (n - k) = l.take n := by
  rw [List.take_take, Nat.min_eq_left h, ← List.take_add, Nat.add_sub_cancel' h]

/-- The loop ends when no mbuf waits; the card has taken those that did, in order. -/
theorem flushLoop_spec {fuel start : Nat} {self self' : Dpdk} {w w' : World σ}
    (h : flushLoop sys checks fuel start self w = .ok (self', w')) :
    self'.txIdx = 0 ∧ self'.port = self.port ∧ self'.queue = self.queue ∧
      w'.contents = w.contents ∧
      (sys.TakesOffered → start + self.txIdx ≤ 64 → w'.wire = w.wire ++
        self.tagged ((self.txBufs.toList.drop start).take self.txIdx)) := by
  induction fuel generalizing start self w with
  | zero =>
    simp only [flushLoop] at h
    split at h
    · rename_i hzero
      cases h
      exact ⟨hzero, rfl, rfl, rfl, fun _ _ => by simp [hzero, tagged]⟩
    · cases h
  | succ fuel ih =>
    by_cases hzero : self.txIdx = 0
    · rw [flushLoop, if_pos hzero] at h
      cases h
      exact ⟨hzero, rfl, rfl, rfl, fun _ _ => by simp [hzero, tagged]⟩
    · rw [flushLoop, if_neg hzero] at h
      have htaken (htakes : sys.TakesOffered) := htakes self.port self.queue
        ((self.txBufs.toList.drop start).take self.txIdx) w
      rcases hburst : sys.ethTxBurst self.port self.queue
        ((self.txBufs.toList.drop start).take self.txIdx) w with ⟨nbTx, done, env⟩
      simp only [hburst, Exec.bind_eq_ok] at h htaken
      obtain ⟨mid, hfinish, txIdx, hsub, h⟩ := h
      obtain ⟨hidx, hport, hqueue, hcontents, hwire⟩ := ih h
      obtain ⟨hfinished, hleft⟩ := finishAll_spec hfinish
      refine ⟨hidx, hport, hqueue, hcontents.trans hleft, fun htakes hbound => ?_⟩
      have hk : nbTx ≤ self.txIdx :=
        Nat.le_trans (htaken htakes) (List.length_take_le _ _)
      rw [subWord_ok checks hk, Except.ok.injEq] at hsub
      subst hsub
      have hrest : start + nbTx + (self.txIdx - nbTx) ≤ 64 := by omega
      rw [hwire htakes hrest, hfinished]
      simp only [tagged, List.append_assoc, ← List.map_append, ← List.drop_drop]
      rw [take_then_rest _ hk]

/-- After a flush no mbuf waits, whatever it returns, and the card has taken those that
did, in order. -/
theorem flush_spec {self self' : Dpdk} {w w' : World σ} {res : Result Unit}
    (h : flush sys checks self w = .ok (res, self', w')) :
    self'.txIdx = 0 ∧ (res = .ok () ∨ res = .error .memoryError) ∧ w'.contents = w.contents ∧
      (sys.TakesOffered → self.txIdx ≤ 64 → w'.wire = w.wire ++ self.tagged self.buffered) := by
  simp only [flush] at h
  split at h
  · rename_i hzero
    simp only [Except.ok.injEq, Prod.mk.injEq] at h
    obtain ⟨rfl, rfl, rfl⟩ := h
    exact ⟨hzero, .inl rfl, rfl, fun _ _ => by simp [buffered, tagged, hzero]⟩
  · obtain ⟨⟨mid, w₁⟩, hloop, h⟩ := Exec.bind_eq_ok.mp h
    obtain ⟨hidx, _, _, hcontents, hwire⟩ := flushLoop_spec hloop
    dsimp only at h
    split at h <;>
    · rename_i halloc
      obtain ⟨hidx', _, _, hwire', hcontents'⟩ := allocBulk_spec halloc
      simp only [Exec.pure_eq_ok, Prod.mk.injEq] at h
      obtain ⟨rfl, rfl, rfl⟩ := h
      refine ⟨hidx'.trans hidx, by simp, hcontents'.trans hcontents, fun htakes hle => ?_⟩
      rw [hwire', hwire htakes (by omega), List.drop_zero]
      rfl

/-- After a send either no mbuf waits or one more does, and fewer than a burst; a send
that fails has flushed. -/
theorem send_spec {self self' : Dpdk} {ctx : Context} {p : PacketId} {w w' : World σ}
    {res : Result Unit} (hidx : self.txIdx < 64)
    (h : send sys checks self ctx p w = .ok (res, self', w')) :
    self'.txIdx < 64 ∧ (self'.txIdx = 0 ∨ res = .ok ()) := by
  simp only [send, Exec.bind_eq_ok] at h
  obtain ⟨m, _, len, _, addr, _, ⟨flags, w₁⟩, _, h⟩ := h
  split at h
  · obtain ⟨⟨res₁, self₁, w₂⟩, hflush, h⟩ := Exec.bind_eq_ok.mp h
    have hzero := (flush_spec hflush).1
    cases res₁ <;>
    · simp only [Exec.pure_eq_ok, Prod.mk.injEq] at h
      obtain ⟨rfl, rfl, rfl⟩ := h
      exact ⟨by omega, .inl hzero⟩
  · rename_i hfull
    simp only [Exec.pure_eq_ok, Prod.mk.injEq] at h
    obtain ⟨rfl, rfl, rfl⟩ := h
    simp only [burstSize] at hfull ⊢
    exact ⟨by omega, .inr trivial⟩

/-- What a send returns is what the flush of a full burst does. -/
theorem send_result {self self' : Dpdk} {ctx : Context} {p : PacketId} {w w' : World σ}
    {res : Result Unit} (h : send sys checks self ctx p w = .ok (res, self', w')) :
    res = .ok () ∨ res = .error .memoryError := by
  simp only [send, Exec.bind_eq_ok] at h
  obtain ⟨m, _, len, _, addr, _, ⟨flags, w₁⟩, _, h⟩ := h
  split at h
  · obtain ⟨⟨res₁, self₁, w₂⟩, hflush, h⟩ := Exec.bind_eq_ok.mp h
    have hres := (flush_spec hflush).2.1
    cases res₁ <;>
    · simp only [Exec.pure_eq_ok, Prod.mk.injEq] at h
      obtain ⟨rfl, rfl, rfl⟩ := h
      exact hres
  · simp only [Exec.pure_eq_ok, Prod.mk.injEq] at h
    obtain ⟨rfl, rfl, rfl⟩ := h
    exact .inl rfl

/-- The checksum flags and the UDP header with the pseudo header's sum. -/
theorem offload_spec {p : PacketId} {olFlags flags : UInt64} {w w' : World σ}
    (h : offload sys p olFlags w = .ok (flags, w')) :
    w' = w.storeAt p (w.pkts p).l4Header.offset.toNat
      {UdpHeader.load (w.bytes p) (w.pkts p).l4Header.offset.toNat with
        chksum := sys.ipv4PhdrCksum
          (Ipv4Header.load (w.bytes p) (w.pkts p).l3Header.offset.toNat) flags}.toBytes := by
  unfold offload at h
  dsimp only at h
  split at h
  · simp only [Except.ok.injEq, Prod.mk.injEq] at h
    obtain ⟨rfl, rfl⟩ := h
    rfl
  · cases h

/-- Sending writes the UDP checksum over the packet's buffer, which the mbuf's data room is
apart from, and nothing else. -/
theorem send_window {self self' : Dpdk} {ctx : Context} {p : PacketId} {w w' : World σ}
    {res : Result Unit}
    (hapart : ∀ m, self.txBufs[self.txIdx]? = some m → (w.mbufs m).bufAddr.1 ≠ (w.pkts p).data)
    (h : send sys checks self ctx p w = .ok (res, self', w')) :
    ∃ flags, (w'.pkts p).offset = (w.pkts p).offset ∧ (w'.pkts p).len = (w.pkts p).len ∧
      w'.bytes p = (w.bytes p).write (w.pkts p).l4Header.offset.toNat
        {UdpHeader.load (w.bytes p) (w.pkts p).l4Header.offset.toNat with
          chksum := sys.ipv4PhdrCksum
            (Ipv4Header.load (w.bytes p) (w.pkts p).l3Header.offset.toNat) flags}.toBytes := by
  simp only [send, Exec.bind_eq_ok, getUnchecked_eq_ok] at h
  obtain ⟨m, hslot, len, _, addr, _, ⟨flags, w₁⟩, hoffload, h⟩ := h
  generalize hw₀ : World.setMem _ _ _ = w₀ at hoffload
  have hpkt : w₀.pkts p = {w.pkts p with threadId := ctx.threadId} := by
    rw [← hw₀]
    exact World.setPkt_pkts_same _ _ _
  have hbytes : w₀.bytes p = w.bytes p := by
    rw [World.bytes, hpkt, ← hw₀]
    exact if_neg (Ne.symm (hapart m hslot))
  have hsent := offload_spec hoffload
  have hcontents : w'.contents = w₁.contents := by
    split at h
    · obtain ⟨⟨res₁, self₁, w₂⟩, hflush, h⟩ := Exec.bind_eq_ok.mp h
      have hleft := (flush_spec hflush).2.2.1
      cases res₁ <;>
      · simp only [Exec.pure_eq_ok, Prod.mk.injEq] at h
        obtain ⟨_, _, rfl⟩ := h
        exact hleft
    · simp only [Exec.pure_eq_ok, Prod.mk.injEq] at h
      obtain ⟨_, _, rfl⟩ := h
      rfl
  obtain ⟨hoffset, hlen, hbytes'⟩ := World.window_congr hcontents p
  rw [hsent, World.storeAt_pkts, hpkt] at hoffset hlen
  rw [hsent, World.storeAt_bytes, hbytes, hpkt] at hbytes'
  exact ⟨flags, hoffset, hlen, hbytes'⟩

/-- The mbufs that wait to be transmitted, and where they go. -/
def txSide (self : Dpdk) : Vector MbufPtr 64 × Nat × UInt16 × UInt16 :=
  (self.txBufs, self.txIdx, self.port, self.queue)

theorem recvLoop_wire {self : Dpdk} {ms : List MbufPtr} {ret : Option PacketId}
    {res : Result (Option PacketId)} {w w' : World σ}
    (h : recvLoop sys checks self ms ret w = .ok (res, w')) : w'.wire = w.wire := by
  induction ms generalizing ret w with
  | nil =>
    simp only [recvLoop, Except.ok.injEq, Prod.mk.injEq] at h
    rw [h.2]
  | cons m rest ih =>
    simp only [recvLoop] at h
    obtain ⟨⟨res₁, w₁⟩, halloc, h⟩ := Exec.bind_eq_ok.mp h
    cases res₁ with
    | error e =>
      simp only [Exec.pure_eq_ok, Prod.mk.injEq] at h
      rw [← h.2]
      exact (PacketPool.allocate_cases halloc).2.2.1
    | ok p =>
      obtain ⟨pkt, _, h⟩ := Exec.bind_eq_ok.mp h
      rw [ih h]
      show w₁.wire = w.wire
      exact (PacketPool.allocate_cases halloc).2.2.1

theorem putRx_wire (w : World σ) (rx : List RxMbuf) : (putRx w rx).wire = w.wire := by
  induction rx generalizing w with
  | nil => rfl
  | cons m rest ih => exact ih _

/-- Receiving leaves what waits to be transmitted, and the cards take nothing. -/
theorem recv_spec {self self' : Dpdk} {w w' : World σ} {res : Result PacketId}
    (h : recv sys checks self w = .ok (res, self', w')) :
    self'.txSide = self.txSide ∧ w'.wire = w.wire := by
  simp only [recv] at h
  split at h
  · simp only [Exec.pure_eq_ok, Prod.mk.injEq] at h
    obtain ⟨_, rfl, rfl⟩ := h
    exact ⟨rfl, rfl⟩
  · split at h
    · cases h
    · obtain ⟨⟨res₁, w₁⟩, hloop, h⟩ := Exec.bind_eq_ok.mp h
      have hwire : w₁.wire = w.wire := by rw [recvLoop_wire hloop, putRx_wire]
      cases res₁ with
      | error e =>
        simp only [Exec.pure_eq_ok, Prod.mk.injEq] at h
        obtain ⟨_, rfl, rfl⟩ := h
        exact ⟨by simp only [txSide], hwire⟩
      | ok head =>
        cases head with
        | none => cases h
        | some p =>
          simp only [Exec.pure_eq_ok, Prod.mk.injEq] at h
          obtain ⟨_, rfl, rfl⟩ := h
          exact ⟨by simp only [txSide], hwire⟩

/-! ### In bounds -/

theorem deallocate_inBounds (p : PacketId) (threadId : UInt32) (w : World σ) :
    (PacketPool.deallocate checks p threadId w).InBounds := by
  unfold PacketPool.deallocate
  dsimp only
  split
  · split <;> exact .ok _
  · exact .bind (subWord_inBounds _ _ _) fun _ _ => .pure _

theorem finishAll_inBounds (ms : List MbufPtr) (w : World σ) :
    (finishAll checks ms w).InBounds := by
  induction ms generalizing w with
  | nil => exact .ok w
  | cons m rest ih =>
    refine .bind ?_ fun w' _ => ih w'
    unfold finish
    split
    · exact deallocate_inBounds _ _ _
    · exact .ok w

theorem flushLoop_inBounds (fuel start : Nat) (self : Dpdk) (w : World σ) :
    (flushLoop sys checks fuel start self w).InBounds := by
  induction fuel generalizing start self w with
  | zero =>
    unfold flushLoop
    split
    · exact .ok _
    · exact fun h => nomatch h
  | succ fuel ih =>
    unfold flushLoop
    split
    · exact .ok _
    · exact .bind (finishAll_inBounds _ _) fun _ _ =>
        .bind (subWord_inBounds _ _ _) fun _ _ => ih _ _ _

theorem flush_inBounds (self : Dpdk) (w : World σ) : (flush sys checks self w).InBounds := by
  unfold flush
  split
  · exact .ok _
  · refine .bind (flushLoop_inBounds _ _ _ _) fun _ _ => ?_
    dsimp only
    split <;> exact .pure _

/-- While fewer than a burst wait, the mbuf for one more is in the array. -/
theorem send_inBounds {self : Dpdk} (hidx : self.txIdx < 64) (ctx : Context) (p : PacketId)
    (w : World σ) : (send sys checks self ctx p w).InBounds := by
  have hiova (pkt : Packet) : (iova sys checks p pkt).InBounds := by
    unfold iova
    dsimp only
    split
    · exact fun h => nomatch h
    · exact .bind (sub64_inBounds _ _ _) fun _ _ => add64_inBounds _ _ _
  have hoffload (olFlags : UInt64) (w : World σ) : (offload sys p olFlags w).InBounds := by
    unfold offload
    dsimp only
    split
    · exact .ok _
    · exact fun h => nomatch h
  have hslot : self.txBufs[self.txIdx]? = some self.txBufs[self.txIdx] :=
    Vector.getElem?_eq_getElem hidx
  refine .bind (.access hslot) fun m _ => .bind (sub16_inBounds _ _ _) fun len _ =>
    .bind (hiova _) fun addr _ => .bind (hoffload _ _) fun sent _ => ?_
  dsimp only
  split
  · refine .bind (flush_inBounds _ _) fun flushed _ => ?_
    split <;> exact .pure _
  · exact .pure _

end Dpdk
end OmniStack
