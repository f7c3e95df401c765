import OmniStack.Memory.Creation

/-! Where pools lie.

The cache pointers of a created pool begin a cache line behind its zone, and both the
pool's header and the mempool's private data say so (`Placed`). A write to a cache pointer
changes neither, of this pool or another. -/
namespace OmniStack
open Lib

/-- Zones are aligned to cache lines, as they were asked for. -/
def Answers.Aligned (answers : Answers) : Prop :=
  ∀ addr, answers.zone = some addr → addr % cacheLineSize = 0

/-- `rte_mempool_get_priv` points right behind the mempool's header. -/
def MempoolLib.Behind (lib : MempoolLib) : Prop := ∀ mp, lib.getPriv mp = mp + lib.sizeOfMempool

namespace MemoryPool

/-- What a memory's created pools say of their caches, and what lies apart. -/
structure Placed (lib : MempoolLib) (m : Memory) : Prop where
  zones_apart : ∀ z ∈ m.zones, ∀ z' ∈ m.zones,
    z.addr = z'.addr ∨ (Memory.zoneBlock z.addr).Apart (Memory.zoneBlock z'.addr)
  caches : ∀ c ∈ m.made, c.pool.cachePerThread = c.addr + 64
  priv : ∀ c ∈ m.made, m.words (lib.getPriv c.pool.mp) = c.addr + 64
  mempool_block : ∀ c ∈ m.made, Memory.mempoolBlock lib c.pool.mp ∈ m.blocks
  mempool_holds : ∀ c ∈ m.made, (Memory.mempoolBlock lib c.pool.mp).Holds (lib.getPriv c.pool.mp)
  mempool_apart : ∀ c ∈ m.made, ∀ z ∈ m.zones,
    (Memory.mempoolBlock lib c.pool.mp).Apart (Memory.zoneBlock z.addr)

variable {lib : MempoolLib}

theorem initial_placed (words : Words) : Placed lib (.initial words) := by
  constructor <;> intro _ h <;> cases h

theorem alignUp_header {addr : Nat} (h : addr % cacheLineSize = 0) :
    alignUp (addr + sizeOfMemoryPool) = addr + 64 := by
  simp only [alignUp, cacheLineSize, sizeOfMemoryPool] at h ⊢
  omega

section
variable {answers : Answers} {name : String} {socketId : UInt32} {m m' : Memory}

/-- A new zone lies apart from what was there. -/
theorem Placed.reserve (h : Placed lib m) (hsound : Sound m) (hvalid : answers.Valid lib m)
    {addr : Nat} (hzone : answers.zone = some addr) (zoneName : String) :
    Placed lib (m.reserve zoneName addr) where
  zones_apart := by
    intro z hz z' hz'
    rcases List.mem_append.mp hz with hz | hz
    · rcases List.mem_append.mp hz' with hz' | hz'
      · exact h.zones_apart z hz z' hz'
      · obtain rfl := List.mem_singleton.mp hz'
        exact .inr (hvalid.zone_apart addr hzone _ (hsound.named z hz).2.1).symm
    · obtain rfl := List.mem_singleton.mp hz
      rcases List.mem_append.mp hz' with hz' | hz'
      · exact .inr (hvalid.zone_apart addr hzone _ (hsound.named z' hz').2.1)
      · obtain rfl := List.mem_singleton.mp hz'
        exact .inl rfl
  caches := h.caches
  priv := h.priv
  mempool_block := fun c hc => List.mem_append_left _ (h.mempool_block c hc)
  mempool_holds := h.mempool_holds
  mempool_apart := by
    intro c hc z hz
    rcases List.mem_append.mp hz with hz | hz
    · exact h.mempool_apart c hc z hz
    · obtain rfl := List.mem_singleton.mp hz
      exact (hvalid.zone_apart addr hzone _ (h.mempool_block c hc)).symm

theorem Placed.completed (h : Placed lib m) (hsound : Sound m) (hvalid : answers.Valid lib m)
    (haligned : answers.Aligned) {addr mp : Nat} (hzone : answers.zone = some addr)
    (hmp : answers.mp = some mp) (name : String) (socketId : UInt32) :
    Placed lib (MemoryPool.completed lib name socketId addr mp m) := by
  have hreserved := h.reserve hsound hvalid hzone (zoneName name)
  have hcreated : (created socketId addr mp).cachePerThread = addr + 64 :=
    alignUp_header (haligned addr hzone)
  constructor
  · exact hreserved.zones_apart
  · intro c hc
    rcases List.mem_append.mp hc with hc | hc
    · exact h.caches c hc
    · obtain rfl := List.mem_singleton.mp hc
      exact hcreated
  · intro c hc
    rcases List.mem_append.mp hc with hc | hc
    · have hblock := h.mempool_block c hc
      rw [completed_outside hvalid hmp (hvalid.zone_apart addr hzone _ hblock).symm
        (hvalid.mp_apart mp hmp _ hblock).symm (h.mempool_holds c hc)]
      exact h.priv c hc
    · obtain rfl := List.mem_singleton.mp hc
      exact (Words.store_same ..).trans hcreated
  · intro c hc
    rcases List.mem_append.mp hc with hc | hc
    · exact List.mem_append_left _ (hreserved.mempool_block c hc)
    · obtain rfl := List.mem_singleton.mp hc
      exact List.mem_append_right _ (List.mem_singleton.mpr rfl)
  · intro c hc
    rcases List.mem_append.mp hc with hc | hc
    · exact h.mempool_holds c hc
    · obtain rfl := List.mem_singleton.mp hc
      exact hvalid.priv mp hmp
  · intro c hc z hz
    rcases List.mem_append.mp hc with hc | hc
    · exact hreserved.mempool_apart c hc z hz
    · obtain rfl := List.mem_singleton.mp hc
      rcases List.mem_append.mp hz with hz | hz
      · exact hvalid.mp_apart mp hmp _ (hsound.named z hz).2.1
      · obtain rfl := List.mem_singleton.mp hz
        exact hvalid.apart addr mp hzone hmp

theorem Effect.placed {outcome : Outcome} (h : Placed lib m) (hsound : Sound m)
    (hvalid : answers.Valid lib m) (haligned : answers.Aligned)
    (heffect : Effect lib answers name socketId m outcome m') : Placed lib m' := by
  cases heffect with
  | refused poisoned hne =>
    exact ⟨h.zones_apart, h.caches, h.priv, h.mempool_block, h.mempool_holds, h.mempool_apart⟩
  | found => exact h
  | half hname hlookup hzone => exact h.reserve hsound hvalid hzone _
  | made hname hlookup hzone hmp => exact h.completed hsound hvalid haligned hzone hmp _ _

end

/-! ### Cache pointers -/

/-- The cache pointer of a thread in the pool at `addr`. -/
def slot (addr : Nat) (threadId : UInt32) : Nat := addr + 64 + 8 * threadId.toNat

theorem slot_eq (addr : Nat) (threadId : UInt32) :
    slot addr threadId = addr + (64 + 8 * threadId.toNat) :=
  Nat.add_assoc ..

/-- The pointers of the ids of the table lie in the zone. -/
theorem slot_holds (addr : Nat) {threadId : UInt32} (h : threadId.toNat < maxThreadNum) :
    (Memory.zoneBlock addr).Holds (slot addr threadId) := by
  rw [slot_eq]
  refine zoneBlock_holds ?_
  simp only [maxThreadNum] at h
  omega

/-- A write to a cache pointer of a zone. -/
def storeSlot (m : Memory) (addr : Nat) (threadId : UInt32) (cache : Nat) : Memory :=
  {m with words := m.words.store (slot addr threadId) cache}

section
variable {m : Memory} {zone : Memzone} {threadId : UInt32}

/-- It is not seen in any created pool's header, -/
theorem storeSlot_pool (h : Placed lib m) (hsound : Sound m) (hzone : zone ∈ m.zones)
    (hid : threadId.toNat < maxThreadNum) (cache : Nat) {c : Creation} (hc : c ∈ m.made) :
    (storeSlot m zone.addr threadId cache).pool c.addr = m.pool c.addr := by
  refine pool_congr fun k hk => Words.store_ne _ _ ?_
  rcases h.zones_apart zone hzone _ (hsound.made c hc).1 with heq | happart
  · rw [slot_eq, heq]
    show c.addr + k ≠ c.addr + (64 + 8 * threadId.toNat)
    omega
  · exact (happart.ne (slot_holds zone.addr hid) (zoneBlock_holds (by omega))).symm

/-- nor in a mempool's private data. -/
theorem storeSlot_priv (h : Placed lib m) (hzone : zone ∈ m.zones)
    (hid : threadId.toNat < maxThreadNum) (cache : Nat) {c : Creation} (hc : c ∈ m.made) :
    (storeSlot m zone.addr threadId cache).words (lib.getPriv c.pool.mp) =
      m.words (lib.getPriv c.pool.mp) :=
  (h.mempool_apart c hc zone hzone).store_outside _ _ (h.mempool_holds c hc)
    (slot_holds zone.addr hid)

theorem Sound.storeSlot (hsound : Sound m) (h : Placed lib m) (hzone : zone ∈ m.zones)
    (hid : threadId.toNat < maxThreadNum) (cache : Nat) :
    Sound (MemoryPool.storeSlot m zone.addr threadId cache) where
  named := hsound.named
  unique := hsound.unique
  made := fun c hc =>
    ⟨(hsound.made c hc).1, (storeSlot_pool h hsound hzone hid cache hc).trans (hsound.made c hc).2⟩

theorem Placed.storeSlot (h : Placed lib m) (hzone : zone ∈ m.zones)
    (hid : threadId.toNat < maxThreadNum) (cache : Nat) :
    Placed lib (MemoryPool.storeSlot m zone.addr threadId cache) :=
  ⟨h.zones_apart, h.caches, fun c hc => (storeSlot_priv h hzone hid cache hc).trans (h.priv c hc),
    h.mempool_block, h.mempool_holds, h.mempool_apart⟩

end

/-- Two cache pointers are one only for one pool and one thread. -/
theorem slot_inj {m : Memory} (h : Placed lib m) {z z' : Memzone} (hz : z ∈ m.zones)
    (hz' : z' ∈ m.zones) {id id' : UInt32} (hid : id.toNat < maxThreadNum)
    (hid' : id'.toNat < maxThreadNum) (heq : slot z.addr id = slot z'.addr id') : id = id' := by
  rcases h.zones_apart z hz z' hz' with haddr | happart
  · simp only [slot, haddr] at heq
    exact UInt32.toNat_inj.mp (by omega)
  · exact absurd heq (happart.ne (slot_holds z.addr hid) (slot_holds z'.addr hid'))

end MemoryPool
end OmniStack
