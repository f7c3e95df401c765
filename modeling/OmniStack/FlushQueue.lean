import OmniStack.Lib.BitSet
import OmniStack.Lib.Run
import OmniStack.Modules.Transmit

/-! The IO node's flush queue.

Between calls the entries of the queue and the bits of the flag are the same adapters,
each once, and every adapter with an mbuf to transmit is among them (`Tracked`). A poll
that comes past the flush loop has therefore handed every waiting mbuf to its card. -/
namespace OmniStack
open Lib

namespace IoNode
variable {σ : Type} {sys : Sys σ} {checks : Bool}

/-- The adapters in the flush queue, first in first. -/
def queued {α : Type} (self : IoNode α) : List Nat :=
  (self.flushQueue.toList.take self.flushQueueIdx).map UInt8.toNat

/-- Every mbuf the node's adapters have waiting, as the cards will take them. -/
def outgoing (self : IoNode Dpdk) : List (UInt16 × UInt16 × MbufPtr) :=
  self.adapters.items.flatMap fun a => a.tagged a.buffered

/-- The queue, its index and the flag are in step with the adapters. -/
structure Tracked (node : IoNode Dpdk) : Prop where
  idx_le : node.flushQueueIdx ≤ 16
  mirrors : BitSet.Mirrors node.queued node.flushFlag
  queued_lt : ∀ nic ∈ node.queued, nic < node.adapters.items.length
  /-- a burst is flushed when it is full -/
  partly : ∀ a ∈ node.adapters.items, a.txIdx < 64
  waiting : ∀ nic a, node.adapters.items[nic]? = some a → 0 < a.txIdx → nic ∈ node.queued

/-! ### The queue alone -/

theorem queued_length {α : Type} {self : IoNode α} (h : self.flushQueueIdx ≤ 16) :
    self.queued.length = self.flushQueueIdx := by
  simp [queued, h]

/-- Noting an adapter that is queued changes nothing; any other is put at the end, where
there is room. -/
theorem noteFlush_spec (self : IoNode Dpdk) {nic : Nat}
    (hidx : self.flushQueueIdx ≤ 16) (hmirrors : BitSet.Mirrors self.queued self.flushFlag)
    (hlt : ∀ n ∈ self.queued, n < 16) (hnic : nic < 16) :
    ∃ self', noteFlush self nic = .ok self' ∧ self'.adapters = self.adapters ∧
      self'.flushQueueIdx ≤ 16 ∧ BitSet.Mirrors self'.queued self'.flushFlag ∧
      ∀ n, n ∈ self'.queued ↔ n ∈ self.queued ∨ n = nic := by
  unfold noteFlush
  by_cases hmem : nic ∈ self.queued
  · rw [if_neg (mt hmirrors.and_mask_eq_zero.mp (not_not.mpr hmem))]
    exact ⟨self, rfl, rfl, hidx, hmirrors, fun n => ⟨.inl, fun h => h.elim id (· ▸ hmem)⟩⟩
  · have hroom : self.flushQueueIdx < 16 := by
      rw [← queued_length hidx]
      exact hmirrors.length_lt hlt hnic hmem
    rw [if_pos (hmirrors.and_mask_eq_zero.mpr hmem), dif_pos hroom]
    refine ⟨_, rfl, rfl, hroom, ?_⟩
    have hqueued : (self.flushQueue.set self.flushQueueIdx (UInt8.ofNat nic)).toList.take
        (self.flushQueueIdx + 1) =
          self.flushQueue.toList.take self.flushQueueIdx ++ [UInt8.ofNat nic] := by
      rw [Vector.toList_set, List.take_succ_eq_append_getElem (by simpa using hroom)]
      simp [List.take_set_of_le]
    have hpush : ({self with
        flushQueue := self.flushQueue.set self.flushQueueIdx (UInt8.ofNat nic)
        flushFlag := self.flushFlag ||| (1 <<< nic)
        flushQueueIdx := self.flushQueueIdx + 1} : IoNode Dpdk).queued = self.queued ++ [nic] := by
      simp only [queued, hqueued, List.map_append, List.map_cons, List.map_nil]
      rw [UInt8.toNat_ofNat_of_lt' (by simp [UInt8.size]; omega)]
    rw [hpush]
    exact ⟨hmirrors.push hmem, fun n => by rw [List.mem_append, List.mem_singleton]⟩

/-- The last entry is what the flush loop takes first. -/
theorem queued_succ {α : Type} {self : IoNode α} {idx : Nat} (hidx : self.flushQueueIdx = idx + 1)
    (hle : self.flushQueueIdx ≤ 16) :
    ∃ n, self.flushQueue[idx]? = some n ∧
      self.queued = (self.flushQueue.toList.take idx).map UInt8.toNat ++ [n.toNat] := by
  have hlt : idx < 16 := by omega
  refine ⟨self.flushQueue[idx], Vector.getElem?_eq_getElem hlt, ?_⟩
  rw [queued, hidx, List.take_succ_eq_append_getElem (by simpa using hlt), List.map_append]
  simp

/-! ### The adapters -/

/-- An adapter without waiting mbufs has nothing to give the card. -/
theorem tagged_of_idle {a : Dpdk} (h : a.txIdx = 0) : a.tagged a.buffered = [] := by
  simp [Dpdk.tagged, Dpdk.buffered, h]

/-- With nothing queued, nothing waits. -/
theorem Tracked.idle {self : IoNode Dpdk} (h : Tracked self) (hidx : self.flushQueueIdx = 0) :
    ∀ a ∈ self.adapters.items, a.txIdx = 0 := by
  intro a ha
  obtain ⟨nic, hnic⟩ := List.mem_iff_getElem?.mp ha
  by_contra hpos
  have := h.waiting nic a hnic (Nat.pos_of_ne_zero hpos)
  simp [queued, hidx] at this

theorem Tracked.outgoing_nil {self : IoNode Dpdk} (h : Tracked self)
    (hidx : self.flushQueueIdx = 0) : self.outgoing = [] :=
  List.flatMap_eq_nil_iff.mpr fun a ha => tagged_of_idle (h.idle hidx a ha)

/-- One item's part of a list, taken out of it. -/
theorem flatMap_set_perm {α β : Type} (f : α → List β) {l : List α} {i : Nat} {a b : α}
    (ha : l[i]? = some a) (hb : f b = []) : (f a ++ (l.set i b).flatMap f).Perm (l.flatMap f) := by
  induction l generalizing i with
  | nil => simp at ha
  | cons c rest ih =>
    cases i with
    | zero =>
      simp only [List.getElem?_cons_zero, Option.some.injEq] at ha
      simp [ha, hb]
    | succ i =>
      rw [List.getElem?_cons_succ] at ha
      simp only [List.set_cons_succ, List.flatMap_cons]
      exact (List.perm_append_comm_assoc _ _ _).trans ((ih ha).append_left _)

/-- An adapter that has flushed may leave the queue. -/
theorem Tracked.pop {self : IoNode Dpdk} {idx : Nat} {n : UInt8} {a : Dpdk} (h : Tracked self)
    (hidx : self.flushQueueIdx = idx + 1) (hn : self.flushQueue[idx]? = some n)
    (ha : a.txIdx = 0) :
    Tracked {self with
      flushQueueIdx := idx
      flushFlag := self.flushFlag ^^^ (1 <<< n.toNat)
      adapters := self.adapters.set n.toNat a} := by
  obtain ⟨m, hm, hqueued⟩ := queued_succ hidx h.idx_le
  obtain rfl : m = n := Option.some.inj (hm.symm.trans hn)
  obtain ⟨hmirrors, hnot⟩ := (hqueued ▸ h.mirrors).pop
  have hmem (nic : Nat) : nic ∈ self.queued ↔
      nic ∈ (self.flushQueue.toList.take idx).map UInt8.toNat ∨ nic = m.toNat := by
    rw [hqueued, List.mem_append, List.mem_singleton]
  exact {
    idx_le := by have := h.idx_le; simp only; omega
    mirrors := hmirrors
    queued_lt := fun nic hnic => by
      simp only [ArrayVec.set, List.length_set]
      exact h.queued_lt nic ((hmem nic).mpr (.inl hnic))
    partly := fun b hb => by
      rcases List.mem_or_eq_of_mem_set hb with hb | rfl
      · exact h.partly b hb
      · omega
    waiting := fun nic b hb hpos => by
      simp only [ArrayVec.set, List.getElem?_set] at hb
      split at hb
      · split at hb
        · cases hb
          omega
        · cases hb
      · rename_i hne
        exact ((hmem nic).mp (h.waiting nic b hb hpos)).resolve_right (Ne.symm hne) }

/-! ### The calls -/

/-- What the flush loop leaves, where it stops at an adapter that fails and where it does
not: then every mbuf that waited has been handed to its card, each once. -/
theorem flushAll_spec {ctx : Context} {idx : Nat} {self self' : IoNode Dpdk} {w w' : World σ}
    {res : Result Unit} (h : Tracked self) (hidx : self.flushQueueIdx = idx)
    (hrun : flushAll (Dpdk.adapter sys checks) ctx idx self w = .ok (res, self', w')) :
    Tracked self' ∧ self'.adapters.items.length = self.adapters.items.length ∧
      (res = .error .memoryError ∨ res = .ok () ∧ self'.flushQueueIdx = 0 ∧
        (sys.TakesOffered → ∃ sent, w'.wire = w.wire ++ sent ∧ sent.Perm self.outgoing)) := by
  induction idx generalizing self w with
  | zero =>
    simp only [flushAll, Except.ok.injEq, Prod.mk.injEq] at hrun
    obtain ⟨rfl, rfl, rfl⟩ := hrun
    refine ⟨h, rfl, .inr ⟨rfl, hidx, fun _ => ⟨[], by simp, ?_⟩⟩⟩
    rw [h.outgoing_nil hidx]
  | succ idx ih =>
    obtain ⟨n, hn, hqueued⟩ := queued_succ hidx h.idx_le
    simp only [flushAll, Exec.bind_eq_ok, getUnchecked_eq_ok] at hrun
    obtain ⟨m, hm, a, ha, ⟨res₁, a₁, w₁⟩, hflush, hrun⟩ := hrun
    obtain rfl : m = n := Option.some.inj (hm.symm.trans hn)
    obtain ⟨hzero, hres, _, hwire⟩ := Dpdk.flush_spec hflush
    have hpop := h.pop hidx hn hzero
    rcases hres with rfl | rfl
    · obtain ⟨htracked, hlength, hend⟩ := ih hpop rfl hrun
      refine ⟨htracked, by simpa [ArrayVec.set] using hlength, hend.imp id ?_⟩
      rintro ⟨hok, hempty, hsent⟩
      refine ⟨hok, hempty, fun htakes => ?_⟩
      obtain ⟨sent, hrest, hperm⟩ := hsent htakes
      have hroom := h.partly a (List.mem_of_getElem? ha)
      refine ⟨a.tagged a.buffered ++ sent, ?_, ?_⟩
      · rw [hrest, hwire htakes (by omega), List.append_assoc]
      · exact (hperm.append_left _).trans
          (flatMap_set_perm (fun a : Dpdk => a.tagged a.buffered) ha (tagged_of_idle hzero))
    · simp only [Exec.pure_eq_ok, Prod.mk.injEq] at hrun
      obtain ⟨rfl, rfl, rfl⟩ := hrun
      exact ⟨hpop, by simp [ArrayVec.set], .inl rfl⟩

theorem flushAll_inBounds {ctx : Context} {idx : Nat} {self : IoNode Dpdk} (w : World σ)
    (h : Tracked self) (hidx : self.flushQueueIdx = idx) :
    (flushAll (Dpdk.adapter sys checks) ctx idx self w).InBounds := by
  induction idx generalizing self w with
  | zero => exact .ok _
  | succ idx ih =>
    obtain ⟨n, hn, hqueued⟩ := queued_succ hidx h.idx_le
    have hlt : n.toNat < self.adapters.items.length :=
      h.queued_lt _ (hqueued ▸ List.mem_append_right _ (List.mem_singleton_self _))
    refine .bind (.access hn) fun m hm => ?_
    obtain rfl : m = n := Option.some.inj ((getUnchecked_eq_ok.mp hm).symm.trans hn)
    refine .bind (.access (List.getElem?_eq_getElem hlt)) fun a _ =>
      .bind (Dpdk.flush_inBounds _ _) fun flushed hflush => ?_
    obtain ⟨res, a', w'⟩ := flushed
    cases res with
    | error e => exact .pure _
    | ok _ => exact ih w' (h.pop hidx hn (Dpdk.flush_spec hflush).1) rfl

/-- Polling the adapters leaves what they have to transmit. -/
theorem recvAny_spec {ctx : Context} {polled rest adapters : List Dpdk} {w w' : World σ}
    {res : Result PacketId}
    (h : recvAny (Dpdk.adapter sys checks) ctx polled rest w = .ok (res, adapters, w')) :
    adapters.map Dpdk.txSide = (polled ++ rest).map Dpdk.txSide ∧ w'.wire = w.wire := by
  induction rest generalizing polled w with
  | nil =>
    simp only [recvAny, Except.ok.injEq, Prod.mk.injEq] at h
    obtain ⟨_, rfl, rfl⟩ := h
    exact ⟨by rw [List.append_nil], rfl⟩
  | cons a rest ih =>
    obtain ⟨⟨res₁, a₁, w₁⟩, hrecv, h⟩ := Exec.bind_eq_ok.mp h
    obtain ⟨hside, hwire⟩ := Dpdk.recv_spec hrecv
    have hsides : (polled ++ a₁ :: rest).map Dpdk.txSide =
        (polled ++ a :: rest).map Dpdk.txSide := by
      simp [hside]
    split at h
    · rename_i hnop
      simp only [Prod.mk.injEq] at hnop
      obtain ⟨_, rfl, rfl⟩ := hnop
      obtain ⟨hside', hwire'⟩ := ih h
      rw [List.append_assoc, List.singleton_append] at hside'
      exact ⟨hside'.trans hsides, hwire'.trans hwire⟩
    · rename_i heq
      simp only [Prod.mk.injEq] at heq
      obtain ⟨_, rfl, rfl⟩ := heq
      simp only [Exec.pure_eq_ok, Prod.mk.injEq] at h
      obtain ⟨_, rfl, rfl⟩ := h
      exact ⟨hsides, hwire⟩

/-- The invariant only reads the transmit side of the adapters. -/
theorem Tracked.congr {self : IoNode Dpdk} (h : Tracked self) {adapters : ArrayVec Dpdk 16}
    (hside : adapters.items.map Dpdk.txSide = self.adapters.items.map Dpdk.txSide) :
    Tracked {self with adapters} := by
  have hlength : adapters.items.length = self.adapters.items.length := by
    simpa using congrArg List.length hside
  have hget (nic : Nat) (a : Dpdk) (ha : adapters.items[nic]? = some a) :
      ∃ b, self.adapters.items[nic]? = some b ∧ b.txIdx = a.txIdx := by
    have := congrArg (·[nic]?) hside
    simp only [List.getElem?_map, ha, Option.map_some] at this
    obtain ⟨b, hb, hba⟩ := Option.map_eq_some_iff.mp this.symm
    exact ⟨b, hb, congrArg (·.2.1) hba⟩
  exact {
    idx_le := h.idx_le
    mirrors := h.mirrors
    queued_lt := fun nic hnic => hlength ▸ h.queued_lt nic hnic
    partly := fun a ha => by
      obtain ⟨nic, hnic⟩ := List.mem_iff_getElem?.mp ha
      obtain ⟨b, hb, hba⟩ := hget nic a hnic
      exact hba ▸ h.partly b (List.mem_of_getElem? hb)
    waiting := fun nic a ha hpos => by
      obtain ⟨b, hb, hba⟩ := hget nic a ha
      exact h.waiting nic b hb (hba ▸ hpos) }

/-- After a poll the node is tracked. One that found a packet or nothing has come past the
flush loop. -/
theorem poll_spec {ctx : Context} {self self' : IoNode Dpdk} {w w' : World σ}
    {res : Result PacketId} (h : Tracked self)
    (hrun : poll (Dpdk.adapter sys checks) ctx self w = .ok (res, self', w')) :
    Tracked self' ∧ self'.adapters.items.length = self.adapters.items.length ∧
      (res ≠ .error .memoryError → (∀ a ∈ self'.adapters.items, a.txIdx = 0) ∧
        (sys.TakesOffered → ∃ sent, w'.wire = w.wire ++ sent ∧ sent.Perm self.outgoing)) := by
  obtain ⟨⟨res₁, self₁, w₁⟩, hflush, hrun⟩ := Exec.bind_eq_ok.mp hrun
  obtain ⟨htracked, hlength, hend⟩ := flushAll_spec h rfl hflush
  rcases hend with rfl | ⟨rfl, hempty, hsent⟩
  · simp only [Exec.pure_eq_ok, Prod.mk.injEq] at hrun
    obtain ⟨rfl, rfl, rfl⟩ := hrun
    exact ⟨htracked, hlength, fun hne => absurd rfl hne⟩
  · obtain ⟨⟨res₂, adapters, w₂⟩, hrecv, hrun⟩ := Exec.bind_eq_ok.mp hrun
    obtain ⟨items, hitems, hrun⟩ := Exec.bind_eq_ok.mp hrun
    simp only [Exec.pure_eq_ok, Prod.mk.injEq] at hrun
    obtain ⟨rfl, rfl, rfl⟩ := hrun
    obtain ⟨hside, hwire⟩ := recvAny_spec hrecv
    rw [List.nil_append, ← ArrayVec.ofList_ok hitems] at hside
    have hpolled := htracked.congr hside
    refine ⟨hpolled, ?_, fun _ => ⟨hpolled.idle hempty, fun htakes => ?_⟩⟩
    · simpa [hlength] using congrArg List.length hside
    · obtain ⟨sent, hw, hperm⟩ := hsent htakes
      exact ⟨sent, hwire.trans hw, hperm⟩

/-- A tracked node is tracked after any process call on a packet for one of its adapters. -/
theorem process_spec {ctx : Context} {self self' : IoNode Dpdk} {p : PacketId} {w w' : World σ}
    {res : Result Unit} (h : Tracked self)
    (hrun : process (Dpdk.adapter sys checks) ctx self p w = .ok (res, self', w')) :
    Tracked self' ∧ self'.adapters.items.length = self.adapters.items.length := by
  simp only [process, Exec.bind_eq_ok, getUnchecked_eq_ok] at hrun
  obtain ⟨mac, _, a, ha, ⟨res₁, a₁, w₁⟩, hsend, hrun⟩ := hrun
  obtain ⟨hlt, hzero⟩ := Dpdk.send_spec (h.partly a (List.mem_of_getElem? ha)) hsend
  generalize (w.pkts p).nic.toNat = nic at ha hrun
  have hnic : nic < self.adapters.items.length := (List.getElem?_eq_some_iff.mp ha).1
  have hpartly : ∀ b ∈ self.adapters.items.set nic a₁, b.txIdx < 64 := fun b hb => by
    rcases List.mem_or_eq_of_mem_set hb with hb | rfl
    · exact h.partly b hb
    · exact hlt
  have hothers (n : Nat) (b : Dpdk) (hb : (self.adapters.items.set nic a₁)[n]? = some b)
      (hne : n ≠ nic) (hpos : 0 < b.txIdx) : n ∈ self.queued := by
    rw [List.getElem?_set_ne (Ne.symm hne)] at hb
    exact h.waiting n b hb hpos
  cases res₁ with
  | error e =>
    simp only [Exec.pure_eq_ok, Prod.mk.injEq] at hrun
    obtain ⟨_, rfl, _⟩ := hrun
    refine ⟨⟨h.idx_le, h.mirrors, ?_, hpartly, fun n b hb hpos => ?_⟩, by simp [ArrayVec.set]⟩
    · intro n hn
      simp only [ArrayVec.set, List.length_set]
      exact h.queued_lt n hn
    · by_cases hne : n = nic
      · have hb' : (self.adapters.items.set nic a₁)[n]? = some b := hb
        rw [hne, List.getElem?_set_self hnic, Option.some.injEq] at hb'
        have := hzero.resolve_right (by simp)
        rw [← hb'] at hpos
        omega
      · exact hothers n b hb hne hpos
  | ok _ =>
    have hbound := self.adapters.bound
    obtain ⟨self₁, hnote, hadapters, hidx, hmirrors, hmem⟩ :=
      noteFlush_spec {self with adapters := self.adapters.set nic a₁} h.idx_le h.mirrors
        (fun n hn => Nat.lt_of_lt_of_le (h.queued_lt n hn) hbound) (Nat.lt_of_lt_of_le hnic hbound)
    dsimp only at hrun
    rw [hnote] at hrun
    simp only [Exec.ok_bind, Exec.pure_eq_ok, Prod.mk.injEq] at hrun
    obtain ⟨_, rfl, _⟩ := hrun
    have hlength : self₁.adapters.items.length = self.adapters.items.length := by
      simp [hadapters, ArrayVec.set]
    refine ⟨⟨hidx, hmirrors, fun n hn => ?_, hadapters ▸ hpartly, fun n b hb hpos => ?_⟩, hlength⟩
    · rw [hlength]
      rcases (hmem n).mp hn with hn | rfl
      · exact h.queued_lt n hn
      · exact hnic
    · rw [hadapters] at hb
      by_cases hne : n = nic
      · exact (hmem n).mpr (.inr hne)
      · exact (hmem n).mpr (.inl (hothers n b hb hne hpos))

theorem process_inBounds {ctx : Context} {self : IoNode Dpdk} {p : PacketId} {w : World σ}
    (h : Tracked self) (hnic : (w.pkts p).nic.toNat < self.adapters.items.length) :
    (process (Dpdk.adapter sys checks) ctx self p w).InBounds := by
  have hbound := self.adapters.bound
  refine .bind (.access (Vector.getElem?_eq_getElem (Nat.lt_of_lt_of_le hnic hbound))) fun mac _ =>
    .bind (.access (List.getElem?_eq_getElem hnic)) fun a ha => .bind ?_ fun sent _ => ?_
  · rw [getUnchecked_eq_ok] at ha
    exact Dpdk.send_inBounds (h.partly a (List.mem_of_getElem? ha)) _ _ _
  · obtain ⟨res, a₁, w₁⟩ := sent
    cases res with
    | error e => exact .pure _
    | ok _ =>
      obtain ⟨self₁, hnote, _⟩ :=
        noteFlush_spec {self with adapters := self.adapters.set (w.pkts p).nic.toNat a₁}
          h.idx_le h.mirrors (fun n hn => Nat.lt_of_lt_of_le (h.queued_lt n hn) hbound)
          (Nat.lt_of_lt_of_le hnic hbound)
      dsimp only
      rw [hnote]
      exact .pure _

/-! ### Initialization -/

theorem initNics_spec {builders : String → Option Dpdk} {ctx : Context} {numQueues queueId : UInt16}
    {nics : List NicConfig} {id : Nat} {self self' : IoNode Dpdk} {w w' : World σ}
    (hbuild : ∀ name a, builders name = some a → a.txIdx = 0)
    (hidle : ∀ a ∈ self.adapters.items, a.txIdx = 0)
    (h : initNics (Dpdk.adapter sys checks) builders ctx numQueues queueId nics id self w =
      .ok (self', w')) :
    self'.flushQueueIdx = self.flushQueueIdx ∧ self'.flushFlag = self.flushFlag ∧
      ∀ a ∈ self'.adapters.items, a.txIdx = 0 := by
  induction nics generalizing id self w with
  | nil =>
    simp only [initNics, Except.ok.injEq, Prod.mk.injEq] at h
    obtain ⟨rfl, _⟩ := h
    exact ⟨rfl, rfl, hidle⟩
  | cons nic rest ih =>
    simp only [initNics, Exec.bind_eq_ok] at h
    obtain ⟨a, ha, ⟨res, a₁, w₁⟩, hinit, h⟩ := h
    cases res with
    | error e => cases h
    | ok mac =>
      have hzero : a₁.txIdx = 0 := (Dpdk.init_txIdx hinit).trans (hbuild _ _ (unwrap_eq_ok.mp ha))
      dsimp only at h
      split at h
      · obtain ⟨adapters, hpush, h⟩ := Exec.bind_eq_ok.mp h
        obtain ⟨hidx, hflag, hall⟩ := ih (fun b hb => by
          rw [ArrayVec.push_ok hpush, List.mem_append, List.mem_singleton] at hb
          rcases hb with hb | rfl
          · exact hidle b hb
          · exact hzero) h
        exact ⟨hidx, hflag, hall⟩
      · cases h

/-- A node that has been initialized is tracked. -/
theorem init_tracked {builders : String → Option Dpdk} {stackConfig : StackConfig}
    {queueId : UInt16} {ctx : Context} {self : IoNode Dpdk} {w w' : World σ}
    (hbuild : ∀ name a, builders name = some a → a = Dpdk.new)
    (h : init (Dpdk.adapter sys checks) builders stackConfig queueId ctx new w = .ok (self, w')) :
    Tracked self := by
  obtain ⟨graph, _, h⟩ := Exec.bind_eq_ok.mp h
  obtain ⟨hidx, hflag, hidle⟩ := initNics_spec (fun name a ha => hbuild name a ha ▸ rfl)
    (by simp [new, ArrayVec.empty]) h
  have hqueued : self.queued = [] := by simp [queued, hidx, new]
  exact {
    idx_le := by rw [hidx]; exact Nat.zero_le _
    mirrors := by rw [hqueued, hflag]; exact .nil
    queued_lt := fun n hn => by simp [hqueued] at hn
    partly := fun a ha => by rw [hidle a ha]; omega
    waiting := fun n a ha hpos => by
      rw [hidle a (List.mem_of_getElem? ha)] at hpos
      omega }

/-! ### Runs -/

/-- A call of the IO node, with what it returned. -/
inductive Call where
  | process (ctx : Context) (p : PacketId) (res : Result Unit)
  | poll (ctx : Context) (res : Result PacketId)

/-- One call, in whatever world the rest of the stack has left. A packet to process is for
one of the adapters. -/
inductive Called (sys : Sys σ) (checks : Bool) : IoNode Dpdk → Call → IoNode Dpdk → Prop where
  | process {ctx : Context} {self self' : IoNode Dpdk} {p : PacketId} {w w' : World σ}
      {res : Result Unit} :
      (w.pkts p).nic.toNat < self.adapters.items.length →
      IoNode.process (Dpdk.adapter sys checks) ctx self p w = .ok (res, self', w') →
      Called sys checks self (.process ctx p res) self'
  | poll {ctx : Context} {self self' : IoNode Dpdk} {w w' : World σ} {res : Result PacketId} :
      IoNode.poll (Dpdk.adapter sys checks) ctx self w = .ok (res, self', w') →
      Called sys checks self (.poll ctx res) self'

theorem run_tracked {self self' : IoNode Dpdk} {calls : List Call} (h : Tracked self)
    (hrun : Run (Called sys checks) self calls self') : Tracked self' := by
  refine hrun.invariant (fun node call node' h hcall => ?_) h
  cases hcall with
  | process _ hprocess => exact (process_spec h hprocess).1
  | poll hpoll => exact (poll_spec h hpoll).1

/-- **Nothing buffered is forgotten.** After any calls the queue, its index and the flag are
in step and every adapter with waiting mbufs is queued; the next call misses no array of
the node's, and a poll that returns a packet or nothing has handed every waiting mbuf to
its card. -/
theorem nothing_forgotten {builders : String → Option Dpdk} {stackConfig : StackConfig}
    {queueId : UInt16} {ctx₀ : Context} {self₀ self : IoNode Dpdk} {w₀ w₁ : World σ}
    {calls : List Call} (hbuild : ∀ name a, builders name = some a → a = Dpdk.new)
    (htakes : sys.TakesOffered)
    (hinit : init (Dpdk.adapter sys checks) builders stackConfig queueId ctx₀ new w₀ =
      .ok (self₀, w₁))
    (hrun : Run (Called sys checks) self₀ calls self) :
    Tracked self ∧
    (∀ ctx p w, (w.pkts p).nic.toNat < self.adapters.items.length →
      process (Dpdk.adapter sys checks) ctx self p w ≠ .error .outOfBounds) ∧
    (∀ ctx w, flushAll (Dpdk.adapter sys checks) ctx self.flushQueueIdx self w ≠
      .error .outOfBounds) ∧
    ∀ ctx w res self' w',
      poll (Dpdk.adapter sys checks) ctx self w = .ok (res, self', w') →
      ((∃ p, res = .ok p) ∨ res = .error .nop) →
      (∀ a ∈ self'.adapters.items, a.txIdx = 0) ∧
        ∃ sent, w'.wire = w.wire ++ sent ∧ sent.Perm self.outgoing := by
  have htracked := run_tracked (init_tracked hbuild hinit) hrun
  refine ⟨htracked, fun ctx p w hnic => process_inBounds htracked hnic,
    fun ctx w => flushAll_inBounds w htracked rfl, fun ctx w res self' w' hpoll hres => ?_⟩
  have hne : res ≠ .error .memoryError := by
    rintro rfl
    rcases hres with ⟨p, h⟩ | h <;> cases h
  obtain ⟨hidle, hsent⟩ := (poll_spec htracked hpoll).2.2 hne
  exact ⟨hidle, hsent htakes⟩

namespace Sample

def ctx : Context := ⟨0, 0, 0, 0, "sample"⟩

/-- A card that takes what it is offered and receives nothing. -/
def card : Sys Unit where
  mempoolGet := fun n _ => (some (List.range n), ())
  mempoolLookup := fun _ _ => some 0
  pktmbufAllocBulk := fun _ n _ =>
    (some ((List.range n).map fun m => (m, ⟨(.room m, 0), 0, 0, 128, 0, none, 0, 0, 0, 0⟩)), ())
  ethTxBurst := fun _ _ ms _ => (ms.length, [], ())
  ethRxBurst := fun _ _ _ _ => ([], ())
  ethMacaddrGet := fun _ _ => some MacAddr.new
  portInit := fun _ _ _ => .ok ()
  ipv4PhdrCksum := fun _ _ => 0
  objAddr := fun _ => 0
  objIova := fun _ => 0
  bufferAddr := fun _ => 0
  sharedInfo := fun _ => []
  patience := 1

def stack : StackConfig where
  name := "sample"
  nics := [⟨"Dpdk", 0, ⟨#v[192, 168, 10, 1]⟩, ⟨#v[255, 255, 255, 0]⟩⟩]
  routes := []
  graphs := [⟨"udp", [0]⟩]

/-- Packet 0 is a UDP datagram for adapter 0. -/
def world : World Unit where
  pkts := fun _ => ⟨50, ⟨14, 0⟩, ⟨20, 14⟩, ⟨8, 34⟩, 0, .own 0, none, 0, 0, 1, .localBuf⟩
  mem := fun _ i => if i = 12 then 8 else if i = 23 then 0x11 else 0
  mbufs := fun m => ⟨(.room m, 0), 0, 0, 0, 0, none, 0, 0, 0, 0⟩
  free := fun _ => 0
  held := fun _ => 0
  log := []
  rawFreed := []
  wire := []
  env := ()

/-- The packet is sent and the node is polled; is the packet for one of its adapters, what
the two calls returned, what waited in between and what the card has in the end. -/
def sendAndPoll : Exec (Bool × Result Unit × Result PacketId ×
    List (UInt16 × UInt16 × MbufPtr) × List (UInt16 × UInt16 × MbufPtr)) := do
  let (node, _) ← init (Dpdk.adapter card true) (fun _ => some Dpdk.new) stack 0 ctx new world
  let (sent, node', w) ← process (Dpdk.adapter card true) ctx node 0 world
  let (polled, _, w') ← poll (Dpdk.adapter card true) ctx node' w
  return (decide ((world.pkts 0).nic.toNat < node.adapters.items.length), sent, polled,
    node'.outgoing, w'.wire)

end Sample

/-- The datagram waits until the poll, which gives it to the card. -/
theorem nothing_forgotten_sample :
    ∃ node node' w w' node'' res,
      Run (Called Sample.card true) node [.process Sample.ctx 0 (.error .dropped)] node' ∧
      node'.outgoing = [(0, 0, 0)] ∧
      poll (Dpdk.adapter Sample.card true) Sample.ctx node' w = .ok (res, node'', w') ∧
      w'.wire = w.wire ++ [(0, 0, 0)] := by
  have hrun : Sample.sendAndPoll =
      .ok (true, .error .dropped, .error .nop, [(0, 0, 0)], [(0, 0, 0)]) := rfl
  obtain ⟨⟨node, w₁⟩, hinit, hrun⟩ := Exec.bind_eq_ok.mp hrun
  obtain ⟨⟨sent, node', w⟩, hprocess, hrun⟩ := Exec.bind_eq_ok.mp hrun
  obtain ⟨⟨polled, node'', w'⟩, hpoll, hrun⟩ := Exec.bind_eq_ok.mp hrun
  simp only [Exec.pure_eq_ok, Prod.mk.injEq, decide_eq_true_eq] at hrun
  obtain ⟨hnic, rfl, rfl, hout, _⟩ := hrun
  have hcalls :
      Run (Called Sample.card true) node [.process Sample.ctx 0 (.error .dropped)] node' :=
    .single (.process hnic hprocess)
  obtain ⟨_, _, _, hpolled⟩ := nothing_forgotten (fun _ _ h => (Option.some.inj h).symm)
    (fun _ _ _ _ => Nat.le_refl _) hinit hcalls
  obtain ⟨_, sent, hwire, hperm⟩ := hpolled _ _ _ _ _ hpoll (.inr rfl)
  rw [hout, List.perm_singleton] at hperm
  exact ⟨node, node', w, w', node'', _, hcalls, hout, hpoll, hperm ▸ hwire⟩

end IoNode
end OmniStack
