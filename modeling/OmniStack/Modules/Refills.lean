import OmniStack.Modules.Delivery

/-! Refills that are refused.

`flush` has handed over every mbuf that waited, and reset `txIdx`, before it asks for as many
new ones. If it gets none the array still holds those the card has taken, and the next sends
write through them. So an adapter is `Sound` for as long as no refill is refused, and no
longer (`sound_iff`). -/
namespace OmniStack
open Lib Lib.Custody

/-- The library, with a journal of it and a count of the allocations it refuses. -/
structure Sys.Refills {σ : Type} (sys : Sys σ) (journal : σ → List MbufEvent)
    (refusals : σ → Nat) : Prop where
  /-- `rte_pktmbuf_alloc_bulk` allocates all it is asked for or nothing -/
  alloc : ∀ pool n w, sys.Grants journal refusals pool n w ∨
    ∃ env, sys.pktmbufAllocBulk pool n w = (none, env) ∧ journal env = journal w.env ∧
      refusals env = refusals w.env + 1
  /-- `rte_eth_tx_burst` takes a prefix of what it is offered, maybe nothing -/
  burst : sys.TakesPrefix journal refusals

namespace Dpdk
variable {σ : Type} {sys : Sys σ} {checks : Bool} {journal : σ → List MbufEvent}
  {refusals : σ → Nat} {base : List MbufEvent}

/-- Since the journal was at `base`, no mbuf has been taken that the card had already. -/
def TakenOnce (journal : σ → List MbufEvent) (base : List MbufEvent) (w : World σ) : Prop :=
  ∃ later, journal w.env = base ++ later ∧ Once base later

/-- No entry a later send writes through is an mbuf that the card has, and none has been
transmitted twice. -/
structure Sound (journal : σ → List MbufEvent) (base : List MbufEvent) (adapter : Dpdk)
    (w : World σ) : Prop where
  slots : ∀ m ∈ adapter.txBufs.toList.drop adapter.txIdx, ¬ Gone (journal w.env) m
  once : TakenOnce journal base w

/-- The mbufs that the card has all along are as they were. -/
def Spares (journal : σ → List MbufEvent) (w w' : World σ) : Prop :=
  ∀ m, Gone (journal w.env) m → Gone (journal w'.env) m → w'.mbufs m = w.mbufs m

/-! ### Moves -/

/-- A call on the adapter, or a move of the rest of the system. -/
inductive Move where
  | send (p : PacketId)
  | flush
  | elsewhere
  deriving DecidableEq

/-- A call that returns, whatever it returns. The rest of the system leaves the transmit side
and the library's mbufs of this adapter alone. -/
inductive Moves (sys : Sys σ) (checks : Bool) (journal : σ → List MbufEvent)
    (refusals : σ → Nat) : Dpdk × World σ → Move → Dpdk × World σ → Prop where
  | send {self self' : Dpdk} {w w' : World σ} {ctx : Context} {p : PacketId}
      {res : Result Unit} : Dpdk.send sys checks self ctx p w = .ok (res, self', w') →
      Moves sys checks journal refusals (self, w) (.send p) (self', w')
  | flush {self self' : Dpdk} {w w' : World σ} {res : Result Unit} :
      Dpdk.flush sys checks self w = .ok (res, self', w') →
      Moves sys checks journal refusals (self, w) .flush (self', w')
  | elsewhere {self self' : Dpdk} {w w' : World σ} : self'.txSide = self.txSide →
      journal w'.env = journal w.env → refusals w'.env = refusals w.env →
      Moves sys checks journal refusals (self, w) .elsewhere (self', w')

/-- A move to a sound state; a call changes no mbuf that the card has. -/
structure SoundMove (sys : Sys σ) (checks : Bool) (journal : σ → List MbufEvent)
    (refusals : σ → Nat) (base : List MbufEvent) (s : Dpdk × World σ) (move : Move)
    (t : Dpdk × World σ) : Prop where
  moves : Moves sys checks journal refusals s move t
  sound : Sound journal base t.1 t.2
  spares : move ≠ .elsewhere → Spares journal s.2 t.2

/-! ### What a call does -/

/-- The entries are mbufs of their own, and each has been taken once. -/
structure Stocked (journal : σ → List MbufEvent) (base : List MbufEvent) (adapter : Dpdk)
    (w : World σ) : Prop where
  room : adapter.txIdx < 64
  ready : Ready journal adapter w
  once : TakenOnce journal base w

theorem Stocked.sound {self : Dpdk} {w : World σ} (h : Stocked journal base self w) :
    Sound journal base self w :=
  ⟨fun m hm => (h.ready.outstanding m (List.mem_of_mem_drop hm)).not_gone, h.once⟩

theorem TakenOnce.more {w w' : World σ} {later : List MbufEvent} (h : TakenOnce journal base w)
    (hlater : journal w'.env = journal w.env ++ later) (honce : Once (journal w.env) later) :
    TakenOnce journal base w' := by
  obtain ⟨before, hbefore, hfirst⟩ := h
  rw [hbefore] at hlater honce
  exact ⟨before ++ later, by rw [hlater, List.append_assoc], hfirst.append honce⟩

theorem buffered_nodup {self : Dpdk} {w : World σ} (hready : Ready journal self w) :
    self.buffered.Nodup :=
  hready.nodup.sublist (List.take_sublist _ _)

/-- A flush whose refill is granted keeps the adapter stocked. -/
theorem flush_granted {self self' : Dpdk} {w w₁ w' : World σ} {granted : Bool}
    (hle : self.txIdx ≤ 64) (hready : Ready journal self w) (honce : TakenOnce journal base w)
    (hmbufs : w₁.mbufs = w.mbufs)
    (hjournal : journal w₁.env =
      journal w.env ++ self.buffered.map fun m => .taken m (w.mbufs m))
    (hgrants : sys.Grants journal refusals self.pktmbufPool self.txIdx w₁)
    (halloc : allocBulk sys {self with txIdx := 0} self.txIdx w₁ = (granted, self', w')) :
    refusals w'.env = refusals w₁.env ∧ Stocked journal base self' w' ∧
      Spares journal w w' := by
  obtain ⟨hzero, hready', ptrs, hnodup, hlater, hrefusals, hothers⟩ :=
    hready.refilled hle hjournal hgrants halloc
  have htaken : Once (journal w.env) (self.buffered.map fun m => .taken m (w.mbufs m)) :=
    .taken _ (buffered_nodup hready)
      fun m hm => hready.outstanding m (List.mem_of_mem_take hm)
  refine ⟨hrefusals, ⟨by omega, hready', ?_⟩, fun m _ hgone => ?_⟩
  · exact (honce.more hjournal htaken).more hlater (.allocated ptrs)
  · rw [hothers m, hmbufs]
    intro hm
    rw [hlater] at hgone
    exact (outstanding_allocated _ hnodup hm).not_gone hgone

/-- After a flush whose refill is refused the first entry is an mbuf the card has. -/
theorem flush_refused {self : Dpdk} {w w' : World σ} (hpos : self.txIdx ≠ 0)
    (hready : Ready journal self w)
    (hjournal : journal w'.env =
      journal w.env ++ self.buffered.map fun m => .taken m (w.mbufs m)) :
    ¬ Sound journal base {self with txIdx := 0} w' := by
  intro hsound
  have hfirst : self.txBufs[0] ∈ self.buffered := by
    apply List.mem_take_iff_getElem.mpr
    exact ⟨0, by rw [Vector.length_toList]; omega, by simp⟩
  apply hsound.slots self.txBufs[0] (List.mem_of_mem_take hfirst)
  rw [hjournal]
  exact gone_taken _ _ (buffered_nodup hready) hfirst

theorem flush_stocked (hsys : sys.Refills journal refusals) {self self' : Dpdk} {w w' : World σ}
    {res : Result Unit} (hle : self.txIdx ≤ 64) (hready : Ready journal self w)
    (honce : TakenOnce journal base w) (h : flush sys checks self w = .ok (res, self', w')) :
    (refusals w'.env = refusals w.env ∧ Stocked journal base self' w' ∧ Spares journal w w') ∨
      refusals w'.env = refusals w.env + 1 ∧ ¬ Sound journal base self' w' := by
  rcases flush_cases hsys.burst hle h with ⟨hzero, rfl, rfl⟩ | ⟨hpos, w₁, granted, hmbufs,
    hrefusals, hjournal, halloc⟩
  · exact .inl ⟨rfl, ⟨by omega, hready, honce⟩, fun _ _ _ => rfl⟩
  · rcases hsys.alloc self.pktmbufPool self.txIdx w₁ with hgrants | ⟨env, hrefuses, hkept, hcount⟩
    · rw [← hrefusals]
      exact .inl (flush_granted hle hready honce hmbufs hjournal hgrants halloc)
    · simp only [allocBulk, hrefuses, Prod.mk.injEq] at halloc
      obtain ⟨_, rfl, rfl⟩ := halloc
      refine .inr ⟨by rw [hcount, hrefusals], flush_refused hpos hready ?_⟩
      rw [hkept, hjournal]

theorem send_stocked (hsys : sys.Refills journal refusals) {self self' : Dpdk} {w w' : World σ}
    {ctx : Context} {p : PacketId} {res : Result Unit} (hstocked : Stocked journal base self w)
    (h : send sys checks self ctx p w = .ok (res, self', w')) :
    (refusals w'.env = refusals w.env ∧ Stocked journal base self' w' ∧ Spares journal w w') ∨
      refusals w'.env = refusals w.env + 1 ∧ ¬ Sound journal base self' w' := by
  obtain ⟨hroom, hready, honce⟩ := hstocked
  obtain ⟨w₁, henv, hothers, _, _, hnext⟩ := send_cases (Vector.getElem?_eq_getElem hroom) h
  have hready₁ : Ready journal {self with txIdx := self.txIdx + 1} w₁ :=
    ⟨hready.nodup, by rw [henv]; exact hready.outstanding⟩
  have honce₁ : TakenOnce journal base w₁ := by rwa [TakenOnce, henv]
  -- the mbuf it fills is not one that the card has
  have hspares (m : MbufPtr) (hgone : Gone (journal w.env) m) : w₁.mbufs m = w.mbufs m := by
    apply hothers
    intro heq
    have hmem : m ∈ self.txBufs.toList := by
      rw [heq]
      exact Vector.mem_toList_iff.mpr (Vector.getElem_mem hroom)
    exact (hready.outstanding m hmem).not_gone hgone
  rcases hnext with ⟨hfull, rfl, rfl⟩ | ⟨hfull, hflush⟩
  · refine .inl ⟨by rw [henv], ⟨?_, hready₁, honce₁⟩, fun m hgone _ => hspares m hgone⟩
    show self.txIdx + 1 < 64
    omega
  · have hflushed := flush_stocked hsys (Nat.le_of_eq hfull) hready₁ honce₁ hflush
    rw [henv] at hflushed
    refine hflushed.imp_left fun ⟨hcount, hstocked, hleft⟩ => ⟨hcount, hstocked, ?_⟩
    intro m hgone hgone'
    rw [hleft m (by rwa [henv]) hgone', hspares m hgone]

/-- A move either keeps the adapter stocked, or a refill is refused and it is not sound. -/
theorem Stocked.move (hsys : sys.Refills journal refusals) {s t : Dpdk × World σ} {move : Move}
    (hstocked : Stocked journal base s.1 s.2) (h : Moves sys checks journal refusals s move t) :
    (refusals t.2.env = refusals s.2.env ∧ Stocked journal base t.1 t.2 ∧
        (move ≠ .elsewhere → Spares journal s.2 t.2)) ∨
      refusals t.2.env = refusals s.2.env + 1 ∧ ¬ Sound journal base t.1 t.2 := by
  cases h with
  | send hsend =>
    exact (send_stocked hsys hstocked hsend).imp_left
      fun ⟨hcount, hstocked', hspares⟩ => ⟨hcount, hstocked', fun _ => hspares⟩
  | flush hflush =>
    exact (flush_stocked hsys hstocked.room.le hstocked.ready hstocked.once hflush).imp_left
      fun ⟨hcount, hstocked', hspares⟩ => ⟨hcount, hstocked', fun _ => hspares⟩
  | elsewhere hside hjournal hcount =>
    obtain ⟨hroom, ⟨hnodup, hout⟩, honce⟩ := hstocked
    simp only [txSide, Prod.mk.injEq] at hside
    obtain ⟨hbufs, hidx, _⟩ := hside
    refine .inl ⟨hcount, ⟨by rwa [hidx], ⟨by rwa [hbufs], ?_⟩, ?_⟩, fun h => absurd rfl h⟩
    · rw [hbufs, hjournal]
      exact hout
    · rwa [TakenOnce, hjournal]

/-! ### The refusals so far -/

theorem flush_refusals (hsys : sys.Refills journal refusals) {self self' : Dpdk} {w w' : World σ}
    {res : Result Unit} (hle : self.txIdx ≤ 64)
    (h : flush sys checks self w = .ok (res, self', w')) : refusals w.env ≤ refusals w'.env := by
  rcases flush_cases hsys.burst hle h with ⟨_, _, rfl⟩ | ⟨_, w₁, granted, _, hrefusals, _, halloc⟩
  · exact Nat.le_refl _
  · rw [← hrefusals]
    rcases hsys.alloc self.pktmbufPool self.txIdx w₁ with hgrants | ⟨env, hrefuses, _, hcount⟩
    · obtain ⟨ptrs, w₂, halloc', _, _, _, _, hkept, _⟩ :=
        allocBulk_journal {self with txIdx := 0} hgrants hle
      simp only [halloc', Prod.mk.injEq] at halloc
      obtain ⟨_, _, rfl⟩ := halloc
      exact hkept.ge
    · simp only [allocBulk, hrefuses, Prod.mk.injEq] at halloc
      obtain ⟨_, _, rfl⟩ := halloc
      exact hcount ▸ Nat.le_succ _

theorem Moves.refusals_le (hsys : sys.Refills journal refusals) {s t : Dpdk × World σ}
    {move : Move} (hroom : s.1.txIdx < 64) (h : Moves sys checks journal refusals s move t) :
    t.1.txIdx < 64 ∧ refusals s.2.env ≤ refusals t.2.env := by
  cases h with
  | send hsend =>
    refine ⟨(send_spec hroom hsend).1, ?_⟩
    obtain ⟨w₁, henv, _, _, _, hnext⟩ := send_cases (Vector.getElem?_eq_getElem hroom) hsend
    rw [← henv]
    rcases hnext with ⟨_, _, rfl⟩ | ⟨hfull, hflush⟩
    · exact Nat.le_refl _
    · exact flush_refusals hsys (Nat.le_of_eq hfull) hflush
  | flush hflush =>
    exact ⟨(flush_spec hflush).1.trans_lt (by decide), flush_refusals hsys hroom.le hflush⟩
  | elsewhere hside _ hcount =>
    simp only [txSide, Prod.mk.injEq] at hside
    exact ⟨hside.2.1 ▸ hroom, hcount.ge⟩

theorem run_refusals_le (hsys : sys.Refills journal refusals) {s t : Dpdk × World σ}
    {moves : List Move} (hroom : s.1.txIdx < 64)
    (hrun : Run (Moves sys checks journal refusals) s moves t) :
    refusals s.2.env ≤ refusals t.2.env := by
  refine (hrun.invariant (P := fun (u : Dpdk × World σ) =>
    u.1.txIdx < 64 ∧ refusals s.2.env ≤ refusals u.2.env)
    (fun u move v hu hmove => ?_) ⟨hroom, Nat.le_refl _⟩).2
  obtain ⟨hroom', hle⟩ := hmove.refusals_le hsys hu.1
  exact ⟨hroom', hu.2.trans hle⟩

/-! ### Sound runs -/

theorem init_stocked (hsys : sys.Refills journal refusals) {self : Dpdk}
    {nic port numQueues queue : UInt16} {mac : MacAddr} {w w' : World σ}
    (h : init sys new nic port numQueues queue w = .ok (.ok mac, self, w')) :
    Stocked journal (journal w'.env) self w' := by
  obtain ⟨blank, w₁, hzero, halloc⟩ := init_alloc h
  rcases hsys.alloc blank.pktmbufPool 64 w₁ with hgrants | ⟨env, hrefuses, _⟩
  · obtain ⟨hkept, hready⟩ := Ready.initial hgrants halloc
    exact ⟨by omega, hready, [], (List.append_nil _).symm, .nil⟩
  · simp only [allocBulk, hrefuses, Prod.mk.injEq, reduceCtorEq, false_and] at halloc

/-- A run in which nothing is refused moves from sound state to sound state. -/
theorem Stocked.run (hsys : sys.Refills journal refusals) {s t : Dpdk × World σ}
    {moves : List Move} (hstocked : Stocked journal base s.1 s.2)
    (hrun : Run (Moves sys checks journal refusals) s moves t)
    (hnone : refusals t.2.env = refusals s.2.env) :
    Run (SoundMove sys checks journal refusals base) s moves t := by
  induction hrun with
  | nil s => exact .nil s
  | @cons s u t move rest hmove hrest ih =>
    have hle := run_refusals_le hsys (hmove.refusals_le hsys hstocked.room).1 hrest
    rcases hstocked.move hsys hmove with ⟨hcount, hstocked', hspares⟩ | ⟨hcount, _⟩
    · exact .cons ⟨hmove, hstocked'.sound, hspares⟩ (ih hstocked' (by rw [hnone, hcount]))
    · omega

/-- An adapter is sound in every state of a run if and only if no refill was refused. -/
theorem sound_iff (hsys : sys.Refills journal refusals) {self₁ self : Dpdk}
    {nic port numQueues queue : UInt16} {mac : MacAddr} {w₀ w₁ w : World σ} {moves : List Move}
    (hinit : init sys new nic port numQueues queue w₀ = .ok (.ok mac, self₁, w₁))
    (hrun : Run (Moves sys checks journal refusals) (self₁, w₁) moves (self, w)) :
    Run (SoundMove sys checks journal refusals (journal w₁.env)) (self₁, w₁) moves (self, w) ↔
      refusals w.env = refusals w₁.env := by
  have hstocked : Stocked journal (journal w₁.env) self₁ w₁ := init_stocked hsys hinit
  constructor
  · intro hsound
    refine (hsound.invariant (P := fun (s : Dpdk × World σ) =>
      Stocked journal (journal w₁.env) s.1 s.2 ∧ refusals s.2.env = refusals w₁.env)
      (fun s move t hs hmove => ?_) ⟨hstocked, rfl⟩).2
    rcases hs.1.move hsys hmove.moves with ⟨hcount, hstocked', _⟩ | ⟨_, hunsound⟩
    · exact ⟨hstocked', hcount.trans hs.2⟩
    · exact absurd hmove.sound hunsound
  · exact hstocked.run hsys hrun

namespace Sample

/-- The mbufs allocated so far. -/
def allocations (l : List MbufEvent) : Nat := l.length - (takenOf l).length

/-- A card whose pool has `limit` mbufs, none of which comes back; with the journal, the
environment counts the refusals. -/
def pool (limit : Nat) : Sys (List MbufEvent × Nat) where
  __ := Sys.quiet
  pktmbufAllocBulk := fun _ n w =>
    if allocations w.env.1 + n ≤ limit then
      let ms := (List.range n).map fun i => fresh w.env.1 + i
      (some (ms.map fun m => (m, ⟨(.room m, 0), 0, 0, 128, 0, none, 0, 0, 0, 0⟩)),
        w.env.1 ++ ms.map .allocated, w.env.2)
    else (none, w.env.1, w.env.2 + 1)
  ethTxBurst := fun _ _ ms w =>
    (ms.length, [], w.env.1 ++ ms.map fun m => .taken m (w.mbufs m), w.env.2)
  patience := 64

theorem pool_refills (limit : Nat) : (pool limit).Refills Prod.fst Prod.snd where
  alloc _ n w := by
    by_cases hlimit : allocations w.env.1 + n ≤ limit
    · refine .inl ⟨_, _, if_pos hlimit, by simp, ?_⟩
      rw [List.map_map, show Prod.fst ∘ (fun m => (m, _)) = id from rfl, List.map_id]
      obtain ⟨hnodup, hunused⟩ := unused_from w.env.1 n
      exact ⟨hnodup, hunused, rfl, rfl⟩
    · exact .inr ⟨_, if_neg hlimit, rfl, rfl⟩
  burst port queue ms w := ⟨_, _, _, rfl, Nat.le_refl _, by rw [List.take_length], rfl⟩

/-- The packets of `world`, before anything is allocated. -/
def unused : World (List MbufEvent × Nat) where
  pkts := world.pkts
  mem := world.mem
  mbufs := world.mbufs
  free := world.free
  held := world.held
  log := []
  rawFreed := []
  wire := []
  env := ([], 0)

/-- A packet is sent and flushed, and then another; what the flushes return, the refusals
along the way, and the mbufs that the card has taken. -/
def flushTwice (limit : Nat) :
    Exec (Result MacAddr × List (Result Unit) × List Nat × List MbufPtr) := do
  let (mac, self₁, w₁) ← init (pool limit) new 0 0 1 0 unused
  let (_, self₂, w₂) ← send (pool limit) true self₁ ctx 0 w₁
  let (first, self₃, w₃) ← flush (pool limit) true self₂ w₂
  let (_, self₄, w₄) ← send (pool limit) true self₃ ctx 1 w₃
  let (second, _, w₅) ← flush (pool limit) true self₄ w₄
  return (mac, [first, second], [w₁.env.2, w₂.env.2, w₃.env.2, w₅.env.2],
    (takenOf w₅.env.1).map Prod.fst)

end Sample

/-- Where the pool has mbufs for the refills, the two packets leave in mbufs of their own. -/
theorem sound_iff_sample :
    ∃ self₁ self w₁ w, Run (SoundMove (Sample.pool 66) true Prod.fst Prod.snd w₁.env.1)
        (self₁, w₁) [.send 0, .flush, .send 1, .flush] (self, w) ∧
      (takenOf w.env.1).map Prod.fst = [1, 2082] := by
  have hrun : Sample.flushTwice 66 =
      .ok (.ok MacAddr.new, [.ok (), .ok ()], [0, 0, 0, 0], [1, 2082]) := by decide +kernel
  obtain ⟨⟨mac, self₁, w₁⟩, hinit, hrun⟩ := Exec.bind_eq_ok.mp hrun
  obtain ⟨⟨res₂, self₂, w₂⟩, hsend₂, hrun⟩ := Exec.bind_eq_ok.mp hrun
  obtain ⟨⟨res₃, self₃, w₃⟩, hflush₃, hrun⟩ := Exec.bind_eq_ok.mp hrun
  obtain ⟨⟨res₄, self₄, w₄⟩, hsend₄, hrun⟩ := Exec.bind_eq_ok.mp hrun
  obtain ⟨⟨res₅, self₅, w₅⟩, hflush₅, hrun⟩ := Exec.bind_eq_ok.mp hrun
  simp only [Exec.pure_eq_ok, Prod.mk.injEq, List.cons.injEq] at hrun
  obtain ⟨rfl, _, ⟨hzero, _, _, hend, _⟩, htaken⟩ := hrun
  have hmoves : Run (Moves (Sample.pool 66) true Prod.fst Prod.snd) (self₁, w₁)
      [.send 0, .flush, .send 1, .flush] (self₅, w₅) :=
    .cons (.send hsend₂) (.cons (.flush hflush₃) (.cons (.send hsend₄) (.single (.flush hflush₅))))
  exact ⟨self₁, self₅, w₁, w₅, (sound_iff (Sample.pool_refills 66) hinit hmoves).mpr
    (hend.trans hzero.symm), htaken⟩

/-- Where it has none left the flush fails, and the card takes the mbuf again. -/
theorem refused_refill :
    (Sample.pool 64).Refills Prod.fst Prod.snd ∧ ∃ mac self₁ self₂ self₃ self w₁ w₂ w₃ w m,
      init (Sample.pool 64) new 0 0 1 0 Sample.unused = .ok (.ok mac, self₁, w₁) ∧
      Moves (Sample.pool 64) true Prod.fst Prod.snd (self₁, w₁) (.send 0) (self₂, w₂) ∧
      flush (Sample.pool 64) true self₂ w₂ = .ok (.error .memoryError, self₃, w₃) ∧
      ¬ Sound Prod.fst w₁.env.1 self₃ w₃ ∧
      Run (Moves (Sample.pool 64) true Prod.fst Prod.snd) (self₃, w₃) [.send 1, .flush]
        (self, w) ∧ (takenOf w.env.1).map Prod.fst = [m, m] := by
  have hrun : Sample.flushTwice 64 = .ok (.ok MacAddr.new,
      [.error .memoryError, .error .memoryError], [0, 0, 1, 2], [1, 1]) := by decide +kernel
  obtain ⟨⟨mac, self₁, w₁⟩, hinit, hrun⟩ := Exec.bind_eq_ok.mp hrun
  obtain ⟨⟨res₂, self₂, w₂⟩, hsend₂, hrun⟩ := Exec.bind_eq_ok.mp hrun
  obtain ⟨⟨res₃, self₃, w₃⟩, hflush₃, hrun⟩ := Exec.bind_eq_ok.mp hrun
  obtain ⟨⟨res₄, self₄, w₄⟩, hsend₄, hrun⟩ := Exec.bind_eq_ok.mp hrun
  obtain ⟨⟨res₅, self₅, w₅⟩, hflush₅, hrun⟩ := Exec.bind_eq_ok.mp hrun
  simp only [Exec.pure_eq_ok, Prod.mk.injEq, List.cons.injEq] at hrun
  obtain ⟨rfl, ⟨rfl, _⟩, ⟨hzero, hsent, hone, _⟩, htaken⟩ := hrun
  have hrefills := Sample.pool_refills 64
  refine ⟨hrefills, _, self₁, self₂, self₃, self₅, w₁, w₂, w₃, w₅, 1, hinit, .send hsend₂,
    hflush₃, ?_, .cons (.send hsend₄) (.single (.flush hflush₅)), htaken⟩
  rcases send_stocked hrefills (init_stocked hrefills hinit) hsend₂ with ⟨_, hstocked, _⟩ |
    ⟨hcount, _⟩
  · rcases flush_stocked hrefills hstocked.room.le hstocked.ready hstocked.once hflush₃ with
      ⟨hcount, _⟩ | ⟨_, hunsound⟩
    · omega
    · exact hunsound
  · omega

end Dpdk
end OmniStack
