import OmniStack.FlushQueue
import OmniStack.Modules.Discipline
import OmniStack.Modules.Refills

/-! The mbufs an IO node sends with.

The entries of its adapters' arrays are mbufs of their own, all of them, and a spare one, which no
packet waits in, points at a data room. So what a send writes through a spare mbuf is never a
packet's own buffer. Every call that returns `Ok` keeps the node `Supplied`: a refill brings mbufs
that are in use nowhere. -/
namespace OmniStack
open Lib Lib.Custody

variable {σ : Type} {sys : Sys σ} {checks : Bool} {journal : σ → List MbufEvent}
  {refusals : σ → Nat}

/-- The library's refills, as seen from a node with several adapters: a new mbuf points at a data
room, and nothing but refills and transmissions has to do with the mbufs to send with. -/
structure Sys.Supplies (sys : Sys σ) (journal : σ → List MbufEvent) (refusals : σ → Nat) :
    Prop where
  refills : sys.Refills journal refusals
  rooms : ∀ pool n w ms env, sys.pktmbufAllocBulk pool n w = (some ms, env) →
    ∀ e ∈ ms, ∃ m, e.2.bufAddr.1 = .room m
  get : ∀ n w, journal (sys.mempoolGet n w).2 = journal w.env
  rx : ∀ port queue n w, journal (sys.ethRxBurst port queue n w).2 = journal w.env
  port : ∀ port numQueues w env, sys.portInit port numQueues w = .ok env →
    journal env = journal w.env

/-- The mbuf points at a data room. -/
def World.AtRoom (w : World σ) (m : MbufPtr) : Prop := ∃ n, (w.mbufs m).bufAddr.1 = .room n

namespace Dpdk

/-- The mbufs for the packets to come. -/
def spare (self : Dpdk) : List MbufPtr := self.txBufs.toList.drop self.txIdx

/-- What a call that leaves the adapter `b` does to the mbufs it had, `entries`, and to others. -/
structure Restocked (journal : σ → List MbufEvent) (entries : List MbufPtr) (b : Dpdk)
    (w w' : World σ) : Prop where
  ready : Ready journal b w'
  rooms : ∀ m ∈ b.spare, w'.AtRoom m
  new : ∀ m ∈ b.txBufs.toList, m ∈ entries ∨ ¬ Outstanding (journal w.env) m
  others : ∀ m, Outstanding (journal w.env) m → m ∉ entries →
    Outstanding (journal w'.env) m ∧ (w.AtRoom m → w'.AtRoom m)

theorem Restocked.refl {self : Dpdk} {w : World σ} (hready : Ready journal self w)
    (hrooms : ∀ m ∈ self.spare, w.AtRoom m) : Restocked journal self.txBufs.toList self w w :=
  ⟨hready, hrooms, fun _ hm => .inl hm, fun _ hout _ => ⟨hout, id⟩⟩

theorem Restocked.trans {entries : List MbufPtr} {b c : Dpdk} {u v w : World σ}
    (h : Restocked journal entries b u v) (h' : Restocked journal b.txBufs.toList c v w) :
    Restocked journal entries c u w where
  ready := h'.ready
  rooms := h'.rooms
  new m hm := by
    rcases h'.new m hm with hb | hnew
    · exact h.new m hb
    · by_cases ha : m ∈ entries
      · exact .inl ha
      · exact .inr fun hout => hnew (h.others m hout ha).1
  others m hout hm := by
    obtain ⟨hmid, hroom⟩ := h.others m hout hm
    have hb : m ∉ b.txBufs.toList := fun hb => (h.new m hb).elim hm (absurd hout)
    obtain ⟨hlast, hroom'⟩ := h'.others m hmid hb
    exact ⟨hlast, hroom' ∘ hroom⟩

theorem putMbufs_mem (w : World σ) {ms : List (MbufPtr × Mbuf)} {m : MbufPtr}
    (hm : m ∈ ms.map Prod.fst) : ∃ e ∈ ms, (putMbufs w ms).mbufs m = e.2 := by
  induction ms generalizing w with
  | nil => cases hm
  | cons put rest ih =>
    by_cases hrest : m ∈ rest.map Prod.fst
    · obtain ⟨e, he, hput⟩ := ih (w.setMbuf put.1 put.2) hrest
      exact ⟨e, List.mem_cons_of_mem _ he, hput⟩
    · obtain rfl : m = put.1 := by simpa [hrest] using hm
      refine ⟨put, List.mem_cons_self, ?_⟩
      rw [putMbufs, putMbufs_other _ _ hrest]
      exact if_pos rfl

/-- A refill that is granted puts mbufs of no one in front of those that stay. -/
theorem allocBulk_restocked (hsys : sys.Supplies journal refusals) {self b : Dpdk} {n : Nat}
    {w w' : World σ} (h : allocBulk sys self n w = (true, b, w')) (hn : n ≤ 64)
    (hidx : self.txIdx = 0) (hnodup : (self.txBufs.toList.drop n).Nodup)
    (hout : ∀ m ∈ self.txBufs.toList.drop n, Outstanding (journal w.env) m)
    (hrooms : ∀ m ∈ self.txBufs.toList.drop n, w.AtRoom m) :
    b.txIdx = 0 ∧ Restocked journal (self.txBufs.toList.drop n) b w w' := by
  rcases hsys.refills.alloc self.pktmbufPool n w with
    ⟨ms, env, halloc, hlength, hdistinct, hfresh, hlater, _⟩ | ⟨env, hrefuses, _⟩
  · simp only [allocBulk, halloc, Prod.mk.injEq, true_and] at h
    obtain ⟨rfl, rfl⟩ := h
    have hptrs : (ms.map Prod.fst).length = n := by rw [List.length_map, hlength]
    have hbufs := overwrite_toList self.txBufs (hptrs.trans_le hn)
    rw [hptrs] at hbufs
    have hat (m : MbufPtr) (hroom : m ∉ ms.map Prod.fst → w.AtRoom m) :
        (putMbufs {w with env} ms).AtRoom m := by
      by_cases hm : m ∈ ms.map Prod.fst
      · obtain ⟨e, he, hput⟩ := putMbufs_mem {w with env} hm
        rw [World.AtRoom, hput]
        exact hsys.rooms _ _ _ _ _ halloc e he
      · rw [World.AtRoom, putMbufs_other _ _ hm]
        exact hroom hm
    have hleft (m : MbufPtr) (hm : Outstanding (journal w.env) m) :
        Outstanding (journal (putMbufs {w with env} ms).env) m := by
      rw [putMbufs_env, hlater]
      apply hm.append
      intro ev hev
      obtain ⟨m', hm', rfl⟩ := List.mem_map.mp hev
      rintro rfl
      exact hfresh _ hm' hm
    refine ⟨hidx, ⟨?_, fun m hm => ?_⟩, fun m hm => hat m fun hnew => ?_, fun m hm => ?_,
      fun m hm _ => ⟨hleft m hm, fun hroom => hat m fun _ => hroom⟩⟩
    · rw [hbufs, List.nodup_append]
      refine ⟨hdistinct, hnodup, fun m hm k hk hmk => ?_⟩
      exact hfresh m hm (hout m (hmk ▸ hk))
    · rw [hbufs, List.mem_append] at hm
      rcases hm with hm | hm
      · rw [putMbufs_env, hlater]
        exact outstanding_allocated _ hdistinct hm
      · exact hleft m (hout m hm)
    · have hm := List.mem_of_mem_drop hm
      rw [hbufs, List.mem_append] at hm
      exact hrooms m (hm.resolve_left hnew)
    · rw [hbufs, List.mem_append] at hm
      exact hm.symm.imp_right (hfresh m)
  · simp only [allocBulk, hrefuses, Prod.mk.injEq, Bool.false_eq_true, false_and] at h

/-- A flush that returns `Ok` has got its refill. -/
theorem flush_restocked (hsys : sys.Supplies journal refusals) {self b : Dpdk} {w w' : World σ}
    (hle : self.txIdx ≤ 64) (hready : Ready journal self w) (hrooms : ∀ m ∈ self.spare, w.AtRoom m)
    (h : flush sys checks self w = .ok (.ok (), b, w')) :
    Restocked journal self.txBufs.toList b w w' := by
  simp only [flush] at h
  split at h
  · simp only [Except.ok.injEq, Prod.mk.injEq] at h
    obtain ⟨_, rfl, rfl⟩ := h
    exact .refl hready hrooms
  · obtain ⟨⟨mid, w₁⟩, hloop, h⟩ := Exec.bind_eq_ok.mp h
    have hbound : 0 + self.txIdx ≤ 64 := by omega
    obtain ⟨rfl, hmbufs, _, hjournal⟩ := flushLoop_journal hsys.refills.burst hbound hloop
    rw [List.drop_zero] at hjournal
    -- what the card takes are the entries that waited
    have hleft (m : MbufPtr) (hout : Outstanding (journal w.env) m) (hm : m ∉ self.buffered) :
        Outstanding (journal w₁.env) m := by
      rw [hjournal]
      apply hout.append
      intro ev hev
      obtain ⟨m', hm', rfl⟩ := List.mem_map.mp hev
      rintro rfl
      exact hm hm'
    have hat (m : MbufPtr) (hroom : w.AtRoom m) : w₁.AtRoom m := by rwa [World.AtRoom, hmbufs]
    have hsplit : (self.buffered ++ self.spare).Nodup := by
      rw [buffered, spare, List.take_append_drop]
      exact hready.nodup
    obtain ⟨_, hspare, hdisjoint⟩ := List.nodup_append.mp hsplit
    dsimp only at h
    split at h
    · rename_i halloc
      simp only [Exec.pure_eq_ok, Prod.mk.injEq, true_and] at h
      obtain ⟨rfl, rfl⟩ := h
      obtain ⟨_, hfilled⟩ := allocBulk_restocked hsys halloc hle rfl hspare
        (fun m hm => hleft m (hready.outstanding m (List.mem_of_mem_drop hm))
          fun hb => hdisjoint m hb m hm rfl)
        (fun m hm => hat m (hrooms m hm))
      refine ⟨hfilled.ready, hfilled.rooms, fun m hm => ?_, fun m hout hm => ?_⟩
      · rcases hfilled.new m hm with hold | hnew
        · exact .inl (List.mem_of_mem_drop hold)
        · by_cases hself : m ∈ self.txBufs.toList
          · exact .inl hself
          · exact .inr fun hout => hnew (hleft m hout fun hb => hself (List.mem_of_mem_take hb))
      · obtain ⟨hlast, hroom⟩ := hfilled.others m
          (hleft m hout fun hb => hm (List.mem_of_mem_take hb)) fun hd => hm (List.mem_of_mem_drop hd)
        exact ⟨hlast, hroom ∘ hat m⟩
    · cases h

/-- A new adapter has got its mbufs. -/
theorem init_restocked (hsys : sys.Supplies journal refusals) {self b : Dpdk}
    {nic port numQueues queue : UInt16} {mac : MacAddr} {w w' : World σ} (hidx : self.txIdx = 0)
    (h : init sys self nic port numQueues queue w = .ok (.ok mac, b, w')) :
    b.txIdx = 0 ∧ Restocked journal [] b w w' := by
  simp only [init, Exec.bind_eq_ok, unwrap_eq_ok] at h
  obtain ⟨env, hport, pool, _, h⟩ := h
  have hkept := hsys.port _ _ _ _ hport
  split at h
  · cases h
  · rename_i halloc
    split at h
    · cases h
    · simp only [Exec.pure_eq_ok, Prod.mk.injEq] at h
      obtain ⟨_, rfl, rfl⟩ := h
      have hnone : self.txBufs.toList.drop burstSize = [] := List.drop_eq_nil_of_le (by
        rw [Vector.length_toList]
        exact Nat.le_refl _)
      obtain ⟨hzero, hfilled⟩ := allocBulk_restocked hsys halloc (by decide) hidx
        (hnone ▸ List.nodup_nil) (fun m hm => absurd (hnone ▸ hm) List.not_mem_nil)
        (fun m hm => absurd (hnone ▸ hm) List.not_mem_nil)
      rw [hnone] at hfilled
      refine ⟨hzero, hfilled.ready, hfilled.rooms, fun m hm => ?_, fun m hout hm => ?_⟩
      · rw [← hkept]
        exact hfilled.new m hm
      · exact hfilled.others m (by rwa [hkept]) hm

/-- A send that returns `Ok` has used up one spare mbuf, or got a whole refill. -/
theorem send_restocked (hsys : sys.Supplies journal refusals) {self b : Dpdk} {ctx : Context}
    {p : PacketId} {w w' : World σ} (hroom : self.txIdx < 64) (hready : Ready journal self w)
    (hrooms : ∀ m ∈ self.spare, w.AtRoom m)
    (h : send sys checks self ctx p w = .ok (.ok (), b, w')) :
    Restocked journal self.txBufs.toList b w w' := by
  obtain ⟨w₁, henv, hothers, _, _, hnext⟩ := send_cases (Vector.getElem?_eq_getElem hroom) h
  have hslot : self.txBufs[self.txIdx] ∈ self.txBufs.toList :=
    Vector.mem_toList_iff.mpr (Vector.getElem_mem hroom)
  have hspare : self.spare = self.txBufs[self.txIdx] ::
      ({self with txIdx := self.txIdx + 1} : Dpdk).spare := by
    rw [spare, spare, List.drop_eq_getElem_cons (by rwa [Vector.length_toList])]
    rfl
  have hsent : Restocked journal self.txBufs.toList {self with txIdx := self.txIdx + 1} w w₁ := by
    refine ⟨⟨hready.nodup, by rw [henv]; exact hready.outstanding⟩, fun m hm => ?_,
      fun _ hm => .inl hm, fun m hout hm => ⟨by rwa [henv], fun hat => ?_⟩⟩
    · have hnodup : self.spare.Nodup := hready.nodup.sublist (List.drop_sublist _ _)
      rw [hspare, List.nodup_cons] at hnodup
      rw [World.AtRoom, hothers m fun heq => hnodup.1 (heq ▸ hm)]
      exact hrooms m (hspare ▸ List.mem_cons_of_mem _ hm)
    · rw [World.AtRoom, hothers m fun heq => hm (heq ▸ hslot)]
      exact hat
  rcases hnext with ⟨_, rfl, rfl⟩ | ⟨hfull, hflush⟩
  · exact hsent
  · exact hsent.trans (flush_restocked hsys (Nat.le_of_eq hfull) hsent.ready hsent.rooms hflush)

theorem recvLoop_keeps (hsys : sys.Supplies journal refusals) {self : Dpdk} {ms : List MbufPtr}
    {ret : Option PacketId} {res : Result (Option PacketId)} {w w' : World σ}
    (h : recvLoop sys checks self ms ret w = .ok (res, w')) :
    w'.mbufs = w.mbufs ∧ journal w'.env = journal w.env := by
  have hget {w w₁ : World σ} {res : Result PacketId}
      (h : PacketPool.allocate sys w = .ok (res, w₁)) : journal w₁.env = journal w.env := by
    rw [← hsys.get 1 w]
    simp only [PacketPool.allocate, PacketPool.allocateMany] at h
    rcases hgot : sys.mempoolGet 1 w with ⟨_ | _ | ⟨p, ps⟩, env⟩
    · rw [hgot] at h
      cases h
      rfl
    · rw [hgot] at h
      cases h
    · rw [hgot] at h
      cases h
      rw [take_env]
  induction ms generalizing ret w with
  | nil =>
    cases h
    exact ⟨rfl, rfl⟩
  | cons m rest ih =>
    simp only [recvLoop, Exec.bind_eq_ok] at h
    obtain ⟨⟨res₁, w₁⟩, halloc, h⟩ := h
    have hmbufs := PacketPool.allocate_mbufs halloc
    have hjournal := hget halloc
    cases res₁ with
    | error e =>
      cases h
      exact ⟨hmbufs, hjournal⟩
    | ok p =>
      simp only [Exec.bind_eq_ok] at h
      obtain ⟨pkt, _, h⟩ := h
      obtain ⟨hrest, hlater⟩ := ih h
      exact ⟨hrest.trans hmbufs, hlater.trans hjournal⟩

theorem putRx_atRoom (w : World σ) (rx : List RxMbuf) {m : MbufPtr} (h : w.AtRoom m) :
    (putRx w rx).AtRoom m := by
  induction rx generalizing w with
  | nil => exact h
  | cons r rest ih =>
    apply ih
    by_cases hm : m = r.ptr
    · exact ⟨r.ptr, congrArg (fun mbuf : Mbuf => mbuf.bufAddr.1) (if_pos hm)⟩
    · obtain ⟨n, hn⟩ := h
      exact ⟨n, (congrArg (fun mbuf : Mbuf => mbuf.bufAddr.1) (if_neg hm)).trans hn⟩

theorem putRx_env (w : World σ) (rx : List RxMbuf) : (putRx w rx).env = w.env := by
  induction rx generalizing w with
  | nil => rfl
  | cons r rest ih => exact ih _

/-- Receiving has to do with other mbufs. -/
theorem recv_restocked (hsys : sys.Supplies journal refusals) {self b : Dpdk} {w w' : World σ}
    {res : Result PacketId} (hready : Ready journal self w) (hrooms : ∀ m ∈ self.spare, w.AtRoom m)
    (h : recv sys checks self w = .ok (res, b, w')) :
    Restocked journal self.txBufs.toList b w w' := by
  obtain ⟨hside, _⟩ := recv_spec h
  simp only [txSide, Prod.mk.injEq] at hside
  obtain ⟨hbufs, hidx, _⟩ := hside
  have hrx : journal w'.env = journal w.env ∧ ∀ m, w.AtRoom m → w'.AtRoom m := by
    have hrx := hsys.rx self.port self.queue burstSize w
    simp only [recv] at h
    split at h
    · simp only [Exec.pure_eq_ok, Prod.mk.injEq] at h
      obtain ⟨_, _, rfl⟩ := h
      exact ⟨hrx, fun _ hm => hm⟩
    · split at h
      · cases h
      · obtain ⟨⟨res₁, w₁⟩, hloop, h⟩ := Exec.bind_eq_ok.mp h
        obtain ⟨hmbufs, hjournal⟩ := recvLoop_keeps hsys hloop
        rw [putRx_env] at hjournal
        have hkept : journal w₁.env = journal w.env ∧ ∀ m, w.AtRoom m → w₁.AtRoom m := by
          refine ⟨hjournal.trans hrx, fun m hm => ?_⟩
          rw [World.AtRoom, hmbufs]
          exact putRx_atRoom _ _ hm
        cases res₁ with
        | error e =>
          cases h
          exact hkept
        | ok head =>
          cases head with
          | none => cases h
          | some p =>
            cases h
            exact hkept
  obtain ⟨hjournal, hat⟩ := hrx
  refine ⟨⟨hbufs ▸ hready.nodup, fun m hm => ?_⟩, fun m hm => hat m (hrooms m ?_),
    fun m hm => .inl (hbufs ▸ hm), fun m hout _ => ⟨by rwa [hjournal], hat m⟩⟩
  · rw [hjournal]
    exact hready.outstanding m (hbufs ▸ hm)
  · rwa [spare, hbufs, hidx] at hm

end Dpdk

/-! ### All adapters of a node -/

/-- The adapters' entries are mbufs of their own, and the spare ones point at data rooms. -/
structure Supplied (journal : σ → List MbufEvent) (adapters : List Dpdk) (w : World σ) : Prop where
  ready : ∀ (i : Nat) a, adapters[i]? = some a → Dpdk.Ready journal a w
  apart : ∀ (i j : Nat) a b, adapters[i]? = some a → adapters[j]? = some b → i ≠ j →
    ∀ m ∈ a.txBufs.toList, m ∉ b.txBufs.toList
  rooms : ∀ (i : Nat) a, adapters[i]? = some a → ∀ m ∈ a.spare, w.AtRoom m

namespace Supplied
variable {adapters : List Dpdk} {w w' : World σ} {i : Nat} {a b : Dpdk}

/-- A node without adapters needs nothing. -/
theorem none (w : World σ) : Supplied journal [] w :=
  ⟨fun _ _ ha => (by cases ha), fun _ _ _ _ ha => (by cases ha), fun _ _ ha => (by cases ha)⟩

/-- A call on one adapter leaves the others supplied. -/
theorem set (h : Supplied journal adapters w) (ha : adapters[i]? = some a)
    (hcall : Dpdk.Restocked journal a.txBufs.toList b w w') : Supplied journal (adapters.set i b) w' := by
  have hi : i < adapters.length := (List.getElem?_eq_some_iff.mp ha).1
  have hget {j : Nat} {c : Dpdk} (hc : (adapters.set i b)[j]? = some c) :
      (j = i ∧ c = b) ∨ (j ≠ i ∧ adapters[j]? = some c) := by
    by_cases hj : j = i
    · rw [hj, List.getElem?_set_self hi] at hc
      exact .inl ⟨hj, (Option.some.inj hc).symm⟩
    · rw [List.getElem?_set_ne (Ne.symm hj)] at hc
      exact .inr ⟨hj, hc⟩
  have hkept {j : Nat} {c : Dpdk} (hj : j ≠ i) (hc : adapters[j]? = some c) (m : MbufPtr)
      (hm : m ∈ c.txBufs.toList) : Lib.Custody.Outstanding (journal w'.env) m ∧
        (w.AtRoom m → w'.AtRoom m) :=
    hcall.others m ((h.ready j c hc).outstanding m hm) (h.apart j i c a hc ha hj m hm)
  have hnew {j : Nat} {c : Dpdk} (hj : j ≠ i) (hc : adapters[j]? = some c) (m : MbufPtr)
      (hm : m ∈ c.txBufs.toList) : m ∉ b.txBufs.toList := by
    intro hb
    rcases hcall.new m hb with hold | hout
    · exact h.apart j i c a hc ha hj m hm hold
    · exact hout ((h.ready j c hc).outstanding m hm)
  refine ⟨fun j c hc => ?_, fun j k c d hc hd hne m hm => ?_, fun j c hc m hm => ?_⟩
  · rcases hget hc with ⟨_, rfl⟩ | ⟨hj, hc⟩
    · exact hcall.ready
    · exact ⟨(h.ready j c hc).nodup, fun m hm => (hkept hj hc m hm).1⟩
  · rcases hget hc with ⟨hj, rfl⟩ | ⟨hj, hold⟩
    · rcases hget hd with ⟨hk, _⟩ | ⟨hk, hd⟩
      · exact absurd (hj.trans hk.symm) hne
      · exact fun hmem => hnew hk hd m hmem hm
    · rcases hget hd with ⟨_, rfl⟩ | ⟨hk, hd⟩
      · exact hnew hj hold m hm
      · exact h.apart j k c d hold hd hne m hm
  · rcases hget hc with ⟨_, rfl⟩ | ⟨hj, hc⟩
    · exact hcall.rooms m hm
    · exact (hkept hj hc m (List.mem_of_mem_drop hm)).2 (h.rooms j c hc m hm)

/-- So does setting up one more. -/
theorem push (h : Supplied journal adapters w) (hcall : Dpdk.Restocked journal [] b w w') :
    Supplied journal (adapters ++ [b]) w' := by
  have hget {j : Nat} {c : Dpdk} (hc : (adapters ++ [b])[j]? = some c) :
      (j = adapters.length ∧ c = b) ∨ (j ≠ adapters.length ∧ adapters[j]? = some c) := by
    rw [List.getElem?_append] at hc
    split at hc
    · rename_i hj
      exact .inr ⟨hj.ne, hc⟩
    · rw [List.getElem?_singleton] at hc
      split at hc
      · exact .inl ⟨by omega, (Option.some.inj hc).symm⟩
      · cases hc
  have hout {j : Nat} {c : Dpdk} (hc : adapters[j]? = some c) (m : MbufPtr)
      (hm : m ∈ c.txBufs.toList) : Lib.Custody.Outstanding (journal w.env) m :=
    (h.ready j c hc).outstanding m hm
  have hnew {j : Nat} {c : Dpdk} (hc : adapters[j]? = some c) (m : MbufPtr)
      (hm : m ∈ c.txBufs.toList) : m ∉ b.txBufs.toList := fun hb =>
    (hcall.new m hb).elim List.not_mem_nil (absurd (hout hc m hm))
  refine ⟨fun j c hc => ?_, fun j k c d hc hd hne m hm => ?_, fun j c hc m hm => ?_⟩
  · rcases hget hc with ⟨_, rfl⟩ | ⟨_, hc⟩
    · exact hcall.ready
    · exact ⟨(h.ready j c hc).nodup,
        fun m hm => (hcall.others m (hout hc m hm) List.not_mem_nil).1⟩
  · rcases hget hc with ⟨hj, rfl⟩ | ⟨hj, hold⟩
    · rcases hget hd with ⟨hk, _⟩ | ⟨_, hd⟩
      · exact absurd (hj.trans hk.symm) hne
      · exact fun hmem => hnew hd m hmem hm
    · rcases hget hd with ⟨_, rfl⟩ | ⟨_, hd⟩
      · exact hnew hold m hm
      · exact h.apart j k c d hold hd hne m hm
  · rcases hget hc with ⟨_, rfl⟩ | ⟨_, hc⟩
    · exact hcall.rooms m hm
    · exact (hcall.others m (hout hc m (List.mem_of_mem_drop hm)) List.not_mem_nil).2
        (h.rooms j c hc m hm)

theorem flush (hsys : sys.Supplies journal refusals) (h : Supplied journal adapters w)
    (ha : adapters[i]? = some a) (hle : a.txIdx ≤ 64)
    (hflush : Dpdk.flush sys checks a w = .ok (.ok (), b, w')) :
    Supplied journal (adapters.set i b) w' :=
  h.set ha (Dpdk.flush_restocked hsys hle (h.ready i a ha) (h.rooms i a ha) hflush)

theorem send (hsys : sys.Supplies journal refusals) (h : Supplied journal adapters w)
    (ha : adapters[i]? = some a) (hroom : a.txIdx < 64) {ctx : Context} {p : PacketId}
    (hsend : Dpdk.send sys checks a ctx p w = .ok (.ok (), b, w')) :
    Supplied journal (adapters.set i b) w' :=
  h.set ha (Dpdk.send_restocked hsys hroom (h.ready i a ha) (h.rooms i a ha) hsend)

/-- Only the mbufs and the journal matter. -/
theorem congr (h : Supplied journal adapters w) (hmbufs : w'.mbufs = w.mbufs)
    (hjournal : journal w'.env = journal w.env) : Supplied journal adapters w' where
  ready i a ha := ⟨(h.ready i a ha).nodup, hjournal ▸ (h.ready i a ha).outstanding⟩
  apart := h.apart
  rooms i a ha m hm := by
    rw [World.AtRoom, hmbufs]
    exact h.rooms i a ha m hm

end Supplied

namespace IoNode
variable {ctx : Context}

/-- Flushing what is queued keeps the node supplied, where no flush fails. -/
theorem flushAll_supplied (hsys : sys.Supplies journal refusals) {idx : Nat}
    {self self' : IoNode Dpdk} {w w' : World σ} (htracked : Tracked self)
    (hidx : self.flushQueueIdx = idx) (h : Supplied journal self.adapters.items w)
    (hrun : flushAll (Dpdk.adapter sys checks) ctx idx self w = .ok (.ok (), self', w')) :
    Supplied journal self'.adapters.items w' := by
  induction idx generalizing self w with
  | zero =>
    cases hrun
    exact h
  | succ idx ih =>
    simp only [flushAll, Exec.bind_eq_ok, getUnchecked_eq_ok] at hrun
    obtain ⟨n, hn, a, ha, ⟨res, a', w₁⟩, hflush, hrun⟩ := hrun
    have hzero := (Dpdk.flush_spec hflush).1
    cases res with
    | error e => cases hrun
    | ok u =>
      have hle := (htracked.partly a (List.mem_of_getElem? ha)).le
      exact ih (htracked.pop hidx hn hzero) rfl (h.flush hsys ha hle hflush) hrun

theorem recvAny_supplied (hsys : sys.Supplies journal refusals) {polled rest adapters : List Dpdk}
    {w w' : World σ} {res : Result PacketId} (h : Supplied journal (polled ++ rest) w)
    (hrun : recvAny (Dpdk.adapter sys checks) ctx polled rest w = .ok (res, adapters, w')) :
    Supplied journal adapters w' := by
  induction rest generalizing polled w with
  | nil =>
    cases hrun
    rwa [List.append_nil] at h
  | cons a rest ih =>
    simp only [recvAny] at hrun
    obtain ⟨⟨res₁, b, w₁⟩, hrecv, hrun⟩ := Exec.bind_eq_ok.mp hrun
    have ha : (polled ++ a :: rest)[polled.length]? = some a := by simp
    have hset : Supplied journal (polled ++ b :: rest) w₁ := by
      have hset := h.set ha (Dpdk.recv_restocked hsys (h.ready _ a ha) (h.rooms _ a ha) hrecv)
      rwa [List.set_append_right _ _ (Nat.le_refl _), Nat.sub_self, List.set_cons_zero] at hset
    by_cases hnop : res₁ = .error .nop
    · subst hnop
      exact ih (by rwa [List.append_assoc]) hrun
    · have hdone : (res₁, polled ++ b :: rest, w₁) = (res, adapters, w') := by
        rcases res₁ with e | head
        · cases e <;> first | exact absurd rfl hnop | exact Exec.pure_eq_ok.mp hrun
        · exact Exec.pure_eq_ok.mp hrun
      cases hdone
      exact hset

/-- A poll that brings a packet or nothing keeps the node supplied. -/
theorem poll_supplied (hsys : sys.Supplies journal refusals) {self self' : IoNode Dpdk}
    {w w' : World σ} {res : Result PacketId} (htracked : Tracked self)
    (h : Supplied journal self.adapters.items w)
    (hrun : poll (Dpdk.adapter sys checks) ctx self w = .ok (res, self', w'))
    (hres : ∀ e, res = .error e → e = .nop) : Supplied journal self'.adapters.items w' := by
  simp only [poll] at hrun
  obtain ⟨⟨res₁, self₁, w₁⟩, hflush, hrun⟩ := Exec.bind_eq_ok.mp hrun
  obtain ⟨_, _, hend⟩ := flushAll_spec htracked rfl hflush
  rcases hend with rfl | ⟨rfl, _⟩
  · cases hrun
    cases hres _ rfl
  · simp only [Exec.bind_eq_ok, Exec.pure_eq_ok, Prod.mk.injEq] at hrun
    obtain ⟨⟨res₂, adapters, w₂⟩, hrecv, items, hitems, rfl, rfl, rfl⟩ := hrun
    have hsupplied : Supplied journal ([] ++ self₁.adapters.items) w₁ :=
      flushAll_supplied hsys htracked rfl h hflush
    have hpolled := recvAny_supplied hsys hsupplied hrecv
    show Supplied journal items.items w₂
    rwa [ArrayVec.ofList_ok hitems]

/-- And so does a packet that is sent. -/
theorem process_supplied (hsys : sys.Supplies journal refusals) {self self' : IoNode Dpdk}
    {p : PacketId} {w w' : World σ} (htracked : Tracked self)
    (h : Supplied journal self.adapters.items w)
    (hrun : process (Dpdk.adapter sys checks) ctx self p w = .ok (.error .dropped, self', w')) :
    Supplied journal self'.adapters.items w' := by
  simp only [process, Exec.bind_eq_ok, getUnchecked_eq_ok] at hrun
  obtain ⟨mac, _, a, ha, ⟨res, b, w₁⟩, hsend, hrun⟩ := hrun
  have hlt := htracked.partly a (List.mem_of_getElem? ha)
  cases res with
  | error e =>
    simp only [Exec.pure_eq_ok, Prod.mk.injEq, Except.error.injEq] at hrun
    obtain ⟨rfl, _⟩ := hrun
    rcases Dpdk.send_result hsend with hres | hres <;> cases hres
  | ok u =>
    have hset : Supplied journal self.adapters.items (setSrc mac p w) := h.congr rfl rfl
    have hsent : Supplied journal (self.adapters.items.set (w.pkts p).nic.toNat b) w₁ :=
      hset.send hsys ha hlt hsend
    simp only [Exec.bind_eq_ok, Exec.pure_eq_ok, Prod.mk.injEq] at hrun
    obtain ⟨noted, hnote, _, rfl, rfl⟩ := hrun
    unfold noteFlush at hnote
    split at hnote
    · split at hnote
      · cases hnote
        exact hsent
      · cases hnote
    · cases hnote
      exact hsent

/-- A node is supplied once its adapters are set up. -/
theorem initNics_supplied (hsys : sys.Supplies journal refusals) {builders : String → Option Dpdk}
    (hbuild : ∀ name a, builders name = some a → a = Dpdk.new) {numQueues queueId : UInt16}
    {nics : List NicConfig} {id : Nat} {self self' : IoNode Dpdk} {w w' : World σ}
    (h : Supplied journal self.adapters.items w)
    (hrun : initNics (Dpdk.adapter sys checks) builders ctx numQueues queueId nics id self w =
      .ok (self', w')) : Supplied journal self'.adapters.items w' := by
  induction nics generalizing id self w with
  | nil =>
    cases hrun
    exact h
  | cons nic rest ih =>
    simp only [initNics, Exec.bind_eq_ok, unwrap_eq_ok] at hrun
    obtain ⟨a, ha, ⟨res, b, w₁⟩, hinit, hrun⟩ := hrun
    obtain rfl := hbuild _ _ ha
    cases res with
    | error e => cases hrun
    | ok mac =>
      simp only at hrun
      split at hrun
      · simp only [Exec.bind_eq_ok] at hrun
        obtain ⟨adapters, hpush, hrun⟩ := hrun
        apply ih _ hrun
        show Supplied journal adapters.items w₁
        rw [ArrayVec.push_ok hpush]
        exact h.push (Dpdk.init_restocked hsys rfl hinit).2
      · cases hrun

end IoNode
end OmniStack
