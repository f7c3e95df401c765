import OmniStack.Lib.Run
import OmniStack.Memory
import Mathlib.Data.List.Nodup

/-! Which pools a call of `get_or_create` returns.

The zone is reserved before the mempool is created, and a later call takes the zone for
the pool. Where the mempool could not be created the zone stays behind, and what a call
for its name returns has never been written. -/
namespace OmniStack
open Lib

/-- The library's contract: blocks are not null and apart from all it has handed out before,
and a mempool's private data lies in the mempool. -/
structure Answers.Valid (lib : MempoolLib) (m : Memory) (answers : Answers) : Prop where
  zone_ne : ∀ addr, answers.zone = some addr → addr ≠ 0
  zone_apart : ∀ addr, answers.zone = some addr →
    ∀ b ∈ m.blocks, (Memory.zoneBlock addr).Apart b
  mp_ne : ∀ mp, answers.mp = some mp → mp ≠ 0
  mp_apart : ∀ mp, answers.mp = some mp → ∀ b ∈ m.blocks, (Memory.mempoolBlock lib mp).Apart b
  apart : ∀ addr mp, answers.zone = some addr → answers.mp = some mp →
    (Memory.mempoolBlock lib mp).Apart (Memory.zoneBlock addr)
  priv : ∀ mp, answers.mp = some mp → (Memory.mempoolBlock lib mp).Holds (lib.getPriv mp)

namespace MemoryPool
variable {lib : MempoolLib} {checks : Bool}

/-- The memory after a creation that is completed. -/
def completed (lib : MempoolLib) (name : String) (socketId : UInt32) (addr mp : Nat)
    (m : Memory) : Memory :=
  setPriv lib name addr (created socketId addr mp)
    (((m.reserve (zoneName name) addr).createMempool lib mp).storePool addr
      (created socketId addr mp))

/-- What a call can do. -/
inductive Effect (lib : MempoolLib) (answers : Answers) (name : String) (socketId : UInt32)
    (m : Memory) : Outcome → Memory → Prop where
  /-- nothing, but that the lock may be poisoned -/
  | refused {outcome : Outcome} (poisoned : Bool) :
    (∀ pool, outcome ≠ .ok pool) → Effect lib answers name socketId m outcome {m with poisoned}
  | found {zone : Memzone} :
    m.poisoned = false → m.lookup (zoneName name) = some zone →
    Effect lib answers name socketId m (.ok zone.addr) m
  /-- a zone is reserved, and there is no mempool -/
  | half {addr : Nat} :
    Admissible name → m.lookup (zoneName name) = none → answers.zone = some addr →
    Effect lib answers name socketId m .exhausted (m.reserve (zoneName name) addr)
  | made {addr mp : Nat} :
    Admissible name → m.lookup (zoneName name) = none → answers.zone = some addr →
    answers.mp = some mp →
    Effect lib answers name socketId m (.ok addr) (completed lib name socketId addr mp m)

theorem alignUp_mod (addr : Nat) : alignUp addr % 64 = 0 := Nat.mul_mod_left _ _

theorem finish_eq {answers : Answers} {m : Memory} {mp : Nat} (hvalid : answers.Valid lib m)
    (hmp : answers.mp = some mp) (name : String) (socketId : UInt32) (addr : Nat) (m' : Memory) :
    finish lib checks name socketId addr mp m' =
      (.ok addr, setPriv lib name addr (created socketId addr mp)
        (m'.storePool addr (created socketId addr mp))) := by
  have hpriv : lib.getPriv mp ≠ 0 := by
    have hne := hvalid.mp_ne mp hmp
    have hholds := (hvalid.priv mp hmp).1
    simp only [Memory.mempoolBlock] at hholds
    omega
  have haligned : decide ((created socketId addr mp).cachePerThread % 64 ≠ 0) = false := by
    simp only [created, alignUp_mod, ne_eq, not_true_eq_false, decide_false]
  simp only [finish, haligned, Bool.and_false, Bool.false_eq_true, if_false, if_neg hpriv]

theorem getOrCreateLocked_effect {answers : Answers} {name : String} {socketId : UInt32}
    {m m' : Memory} {outcome : Outcome} (hvalid : answers.Valid lib m) (hlock : m.poisoned = false)
    (h : getOrCreateLocked lib checks answers name socketId m = (outcome, m')) :
    Effect lib answers name socketId m outcome m' := by
  unfold getOrCreateLocked at h
  split at h
  · cases h
    exact .refused m.poisoned fun _ => Outcome.noConfusion
  · rename_i hname
    rw [not_not] at hname
    split at h
    · rename_i zone hlookup
      split at h
      · cases h
        exact .refused m.poisoned fun _ => Outcome.noConfusion
      · cases h
        exact .found hlock hlookup
    · rename_i hlookup
      split at h
      · cases h
        exact .refused m.poisoned fun _ => Outcome.noConfusion
      · rename_i addr hzone
        split at h
        · cases h
          exact .half hname hlookup hzone
        · rename_i mp hmp
          rw [finish_eq hvalid hmp] at h
          cases h
          exact .made hname hlookup hzone hmp

/-- One call, in every case. -/
theorem getOrCreate_effect {answers : Answers} {name : String} {socketId : UInt32}
    {m m' : Memory} {outcome : Outcome} (hvalid : answers.Valid lib m)
    (h : getOrCreate lib checks answers name socketId m = (outcome, m')) :
    Effect lib answers name socketId m outcome m' := by
  unfold getOrCreate at h
  split at h
  · cases h
    exact .refused m.poisoned fun _ => Outcome.noConfusion
  · rename_i hlock
    rw [Bool.not_eq_true] at hlock
    rcases hlocked : getOrCreateLocked lib checks answers name socketId m with ⟨outcome₁, m₁⟩
    have heffect := getOrCreateLocked_effect hvalid hlock hlocked
    rw [hlocked] at h
    cases outcome₁ with
    | ok pool =>
      cases h
      exact heffect
    | exhausted =>
      cases h
      exact heffect
    | panicked =>
      cases h
      cases heffect with
      | refused poisoned hne => exact .refused true hne

/-! ### Sound memories -/

/-- The words of a zone from its header to the last of its cache pointers. -/
theorem zoneBlock_holds {addr k : Nat} (h : k + 8 ≤ 16448) :
    (Memory.zoneBlock addr).Holds (addr + k) := by
  have hlen : memzoneLen = 16448 := rfl
  exact ⟨Nat.le_add_right _ _, by simp only [Memory.zoneBlock, hlen]; omega⟩

/-- The zones are those of admissible names, each once and each in a block of its own;
every completed creation's is among them, with what the creation wrote. -/
structure Sound (m : Memory) : Prop where
  named : ∀ zone ∈ m.zones, zone.addr ≠ 0 ∧ Memory.zoneBlock zone.addr ∈ m.blocks ∧
    ∃ name, Admissible name ∧ zone.name = zoneName name
  unique : (m.zones.map Memzone.name).Nodup
  made : ∀ c ∈ m.made, ⟨zoneName c.name, c.addr⟩ ∈ m.zones ∧ m.pool c.addr = c.pool

theorem lookup_of_mem {m : Memory} (h : Sound m) {zone : Memzone} (hzone : zone ∈ m.zones) :
    m.lookup zone.name = some zone := by
  unfold Memory.lookup
  rcases hfind : m.zones.find? (fun z => z.name = zone.name) with _ | found
  · exact absurd (List.find?_eq_none.mp hfind zone hzone) (by simp)
  · have hname : found.name = zone.name := by simpa using List.find?_some hfind
    have hmem := List.mem_of_find?_eq_some hfind
    rw [hfind, List.inj_on_of_nodup_map h.unique hmem hzone hname]

theorem lookup_none {m : Memory} {name : String} (h : m.lookup name = none) :
    name ∉ m.zones.map Memzone.name := by
  intro hmem
  obtain ⟨zone, hzone, hname⟩ := List.mem_map.mp hmem
  exact absurd (List.find?_eq_none.mp h zone hzone) (by simp [hname])

/-- A header is its three words. -/
theorem pool_congr {m m' : Memory} {addr : Nat}
    (h : ∀ k ≤ 16, m'.words (addr + k) = m.words (addr + k)) : m'.pool addr = m.pool addr := by
  have hfirst : m'.words addr = m.words addr := h 0 (by omega)
  simp only [Memory.pool, hfirst, h 8 (by omega), h 16 (by omega)]

section
variable {answers : Answers} {name : String} {socketId : UInt32} {m m' : Memory} {addr mp : Nat}

/-- A creation writes to its zone and to its mempool. -/
theorem completed_outside (hvalid : answers.Valid lib m) (hmp : answers.mp = some mp) {b : Block}
    (hzone : b.Apart (Memory.zoneBlock addr)) (hpool : b.Apart (Memory.mempoolBlock lib mp))
    {a : Nat} (ha : b.Holds a) :
    (completed lib name socketId addr mp m).words a = m.words a := by
  have hheader (k : Nat) (hk : k ≤ 16) : a ≠ addr + k :=
    hzone.ne ha (zoneBlock_holds (by omega))
  have hfirst : a ≠ addr := hheader 0 (by omega)
  have hpriv : a ≠ lib.getPriv mp := hpool.ne ha (hvalid.priv mp hmp)
  simp only [completed, setPriv, created, Memory.storePool]
  rw [Words.store_ne _ _ hpriv, Words.store_ne _ _ (hheader 16 (by omega)),
    Words.store_ne _ _ (hheader 8 (by omega)), Words.store_ne _ _ hfirst]
  rfl

/-- What a creation has written is read back. -/
theorem completed_pool (hvalid : answers.Valid lib m) (hzone : answers.zone = some addr)
    (hmp : answers.mp = some mp) :
    (completed lib name socketId addr mp m).pool addr = created socketId addr mp := by
  have hpriv (k : Nat) (hk : k ≤ 16) : addr + k ≠ lib.getPriv mp :=
    (hvalid.apart addr mp hzone hmp).symm.ne (zoneBlock_holds (by omega)) (hvalid.priv mp hmp)
  have hfirst : addr ≠ lib.getPriv mp := hpriv 0 (by omega)
  simp only [Memory.pool, completed, setPriv, created, Memory.storePool]
  rw [Words.store_ne _ _ hfirst, Words.store_ne _ _ (hpriv 8 (by omega)),
    Words.store_ne _ _ (hpriv 16 (by omega)), Words.store_same,
    Words.store_ne _ _ (by omega : addr + 8 ≠ addr + 16), Words.store_same,
    Words.store_ne _ _ (by omega : addr ≠ addr + 16),
    Words.store_ne _ _ (by omega : addr ≠ addr + 8), Words.store_same, UInt32.ofNat_toNat]

/-- Reserving a zone under a new name. -/
theorem Sound.reserve (h : Sound m) (hvalid : answers.Valid lib m) (hname : Admissible name)
    (hlookup : m.lookup (zoneName name) = none) (hzone : answers.zone = some addr) :
    Sound (m.reserve (zoneName name) addr) where
  named := fun zone hmem => by
    rcases List.mem_append.mp hmem with hmem | hmem
    · obtain ⟨hne, hblock, hnamed⟩ := h.named zone hmem
      exact ⟨hne, List.mem_append_left _ hblock, hnamed⟩
    · obtain rfl := List.mem_singleton.mp hmem
      exact ⟨hvalid.zone_ne addr hzone, List.mem_append_right _ (List.mem_singleton.mpr rfl),
        name, hname, rfl⟩
  unique := by
    simp only [Memory.reserve, List.map_append, List.map_cons, List.map_nil]
    exact List.Nodup.append h.unique (List.nodup_singleton _)
      (by simpa using lookup_none hlookup)
  made := fun c hc => ⟨List.mem_append_left _ (h.made c hc).1, (h.made c hc).2⟩

theorem Effect.sound {outcome : Outcome} (h : Sound m) (hvalid : answers.Valid lib m)
    (heffect : Effect lib answers name socketId m outcome m') : Sound m' := by
  cases heffect with
  | refused poisoned hne => exact ⟨h.named, h.unique, h.made⟩
  | found => exact h
  | half hname hlookup hzone => exact h.reserve hvalid hname hlookup hzone
  | @made addr mp hname hlookup hzone hmp =>
    have hreserved := h.reserve hvalid hname hlookup hzone
    refine ⟨fun zone hmem => ?_, hreserved.unique, fun c hc => ?_⟩
    · obtain ⟨hne, hblock, hnamed⟩ := hreserved.named zone hmem
      exact ⟨hne, List.mem_append_left _ hblock, hnamed⟩
    · rcases List.mem_append.mp hc with hc | hc
      · obtain ⟨hmem, hpool⟩ := h.made c hc
        have hblock := (h.named _ hmem).2.1
        refine ⟨List.mem_append_left _ hmem, ?_⟩
        rw [← hpool]
        exact pool_congr fun k hk => completed_outside hvalid hmp
          (hvalid.zone_apart addr hzone _ hblock).symm (hvalid.mp_apart mp hmp _ hblock).symm
          (zoneBlock_holds (by omega))
      · obtain rfl := List.mem_singleton.mp hc
        exact ⟨List.mem_append_right _ (List.mem_singleton.mpr rfl),
          completed_pool hvalid hzone hmp⟩

end

/-! ### Runs -/

/-- A call of `get_or_create`, with the library's answers and what it returned. -/
structure GetOrCreate where
  name : String
  socketId : UInt32
  answers : Answers
  outcome : Outcome

/-- One call. Calls of several threads are one after the other, as the lock has it. -/
def Step (lib : MempoolLib) (checks : Bool) (m : Memory) (call : GetOrCreate) (m' : Memory) :
    Prop :=
  call.answers.Valid lib m ∧
    getOrCreate lib checks call.answers call.name call.socketId m = (call.outcome, m')

/-- The name's zone was reserved for a creation that was never completed, and a call would
find it. -/
def HalfMade (m : Memory) (name : String) : Prop :=
  m.poisoned = false ∧ (∃ zone ∈ m.zones, zone.name = zoneName name) ∧
    ∀ c ∈ m.made, c.name ≠ name

/-- Every pool returned was completely created for the name asked for and holds what the
creation wrote, and it is the same at every call. -/
structure AllOrNothing (calls : List GetOrCreate) (m : Memory) : Prop where
  initialized : ∀ call ∈ calls, ∀ addr, call.outcome = .ok addr →
    ∃ c ∈ m.made, c.name = call.name ∧ c.addr = addr ∧ m.pool addr = c.pool
  same : ∀ call ∈ calls, ∀ call' ∈ calls, ∀ addr addr', call.name = call'.name →
    call.outcome = .ok addr → call'.outcome = .ok addr' → addr = addr'

theorem initial_sound (words : Words) : Sound (.initial words) where
  named := fun _ h => by cases h
  unique := List.nodup_nil
  made := fun _ h => by cases h

theorem run_sound {m m' : Memory} {calls : List GetOrCreate} (h : Sound m)
    (hrun : Run (Step lib checks) m calls m') : Sound m' := by
  refine hrun.invariant (P := Sound) (fun m call m' h hstep => ?_) h
  exact (getOrCreate_effect hstep.1 hstep.2).sound h hstep.1

theorem zoneName_inj {name name' : String} (h : zoneName name = zoneName name') :
    name = name' := by
  have hlist := congrArg String.toList h
  simp only [zoneName, String.toList_append, List.append_cancel_left_eq] at hlist
  exact String.toList_inj.mp hlist

/-- A zone belongs to one completed creation at most. -/
theorem Sound.creation_addr {m : Memory} (h : Sound m) {c : Creation} (hc : c ∈ m.made)
    {zone : Memzone} (hzone : zone ∈ m.zones) (hname : zone.name = zoneName c.name) :
    zone.addr = c.addr := by
  have hsame := List.inj_on_of_nodup_map h.unique hzone (h.made c hc).1 hname
  rw [hsame]

/-- A zone that is there is what a call for its name returns. -/
theorem getOrCreate_found {answers : Answers} {name : String} {socketId : UInt32} {m : Memory}
    (h : Sound m) (hlock : m.poisoned = false) {zone : Memzone} (hzone : zone ∈ m.zones)
    (hname : zone.name = zoneName name) :
    getOrCreate lib checks answers name socketId m = (.ok zone.addr, m) := by
  obtain ⟨hne, -, name', hadmissible, hname'⟩ := h.named zone hzone
  obtain rfl := zoneName_inj (hname'.symm.trans hname)
  have hlookup := lookup_of_mem h hzone
  rw [hname] at hlookup
  have hlocked : getOrCreateLocked lib checks answers name' socketId m = (.ok zone.addr, m) := by
    unfold getOrCreateLocked
    rw [if_neg (not_not.mpr hadmissible), hlookup]
    exact if_neg hne
  simp only [getOrCreate, hlock, Bool.false_eq_true, if_false, hlocked]

section
variable {answers : Answers} {name : String} {socketId : UInt32} {m m' : Memory}
  {outcome : Outcome}

theorem Effect.made_mono (heffect : Effect lib answers name socketId m outcome m') :
    m.made ⊆ m'.made := by
  cases heffect with
  | made => exact List.subset_append_left _ _
  | _ => exact List.Subset.refl _

theorem Effect.zones_mono (heffect : Effect lib answers name socketId m outcome m') :
    m.zones ⊆ m'.zones := by
  cases heffect with
  | half => exact List.subset_append_left _ _
  | made => exact List.subset_append_left _ _
  | _ => exact List.Subset.refl _

/-- A name whose zone is there is not created any more. -/
theorem Effect.unmade (heffect : Effect lib answers name socketId m outcome m')
    {zone : Memzone} {name' : String} (hzone : zone ∈ m.zones) (hname : zone.name = zoneName name')
    (hmade : ∀ c ∈ m.made, c.name ≠ name') : ∀ c ∈ m'.made, c.name ≠ name' := by
  cases heffect with
  | made hadmissible hlookup =>
    intro c hc
    rcases List.mem_append.mp hc with hc | hc
    · exact hmade c hc
    · obtain rfl := List.mem_singleton.mp hc
      intro heq
      obtain rfl := heq
      exact lookup_none hlookup (List.mem_map.mpr ⟨zone, hzone, hname⟩)
  | _ => exact hmade

/-- What a call returns comes from a completed creation, unless its name is half made. -/
theorem Effect.returned (h : Sound m) (heffect : Effect lib answers name socketId m outcome m')
    (hhalf : ¬ HalfMade m name) {addr : Nat} (hok : outcome = .ok addr) :
    ∃ c ∈ m'.made, c.name = name ∧ c.addr = addr := by
  cases heffect with
  | refused poisoned hne => exact absurd hok (hne addr)
  | @found zone hlock hlookup =>
    have hzone := List.mem_of_find?_eq_some hlookup
    have hname : zone.name = zoneName name := by simpa using List.find?_some hlookup
    by_contra hnone
    refine hhalf ⟨hlock, ⟨zone, hzone, hname⟩, fun c hc hcname => hnone ⟨c, hc, hcname, ?_⟩⟩
    rw [← h.creation_addr hc hzone (by rw [hname, hcname])]
    exact Outcome.ok.inj hok
  | half => cases hok
  | @made addr' mp =>
    exact ⟨⟨name, addr', created socketId addr' mp⟩,
      List.mem_append_right _ (List.mem_singleton.mpr rfl), rfl, Outcome.ok.inj hok⟩

end

/-- A name whose zone is there and which has not been created never is. -/
theorem unmade_run {m m' : Memory} {calls : List GetOrCreate}
    (hrun : Run (Step lib checks) m calls m') {zone : Memzone} {name : String}
    (hzone : zone ∈ m.zones) (hname : zone.name = zoneName name)
    (hmade : ∀ c ∈ m.made, c.name ≠ name) : ∀ c ∈ m'.made, c.name ≠ name := by
  have hkept : zone ∈ m'.zones ∧ ∀ c ∈ m'.made, c.name ≠ name := by
    refine hrun.invariant (P := fun m => zone ∈ m.zones ∧ ∀ c ∈ m.made, c.name ≠ name)
      ?_ ⟨hzone, hmade⟩
    intro m call m' h hstep
    obtain ⟨hzone, hmade⟩ := h
    have heffect := getOrCreate_effect hstep.1 hstep.2
    exact ⟨heffect.zones_mono hzone, heffect.unmade hzone hname hmade⟩
  exact hkept.2

/-- If all that is returned has been created, no call is for a half-made name. -/
theorem whole_of_initialized {m m' : Memory} {calls : List GetOrCreate} (h : Sound m)
    (hrun : Run (Step lib checks) m calls m')
    (hreturned : ∀ call ∈ calls, ∀ addr, call.outcome = .ok addr →
      ∃ c ∈ m'.made, c.name = call.name) :
    Run (fun m call m' => Step lib checks m call m' ∧ ¬ HalfMade m call.name) m calls m' := by
  induction hrun with
  | nil m => exact .nil m
  | @cons m t m' call calls hstep hrest ih =>
    have heffect := getOrCreate_effect hstep.1 hstep.2
    refine .cons ⟨hstep, ?_⟩ (ih (heffect.sound h hstep.1) fun call hcall =>
      hreturned call (List.mem_cons_of_mem _ hcall))
    intro h
    obtain ⟨hlock, ⟨zone, hzone, hname⟩, hmade⟩ := h
    have hfound : getOrCreate lib checks call.answers call.name call.socketId m =
      (.ok zone.addr, m) := getOrCreate_found h hlock hzone hname
    rw [hstep.2] at hfound
    obtain ⟨houtcome, -⟩ := Prod.mk.inj hfound
    obtain ⟨c, hc, hcname⟩ := hreturned call List.mem_cons_self zone.addr houtcome
    exact unmade_run (.cons hstep hrest) hzone hname hmade c hc hcname

/-- Where no call is for a half-made name, all that is returned has been created. -/
theorem returned_of_whole {words : Words} {m : Memory} {calls : List GetOrCreate}
    (hrun : Run (fun m call m' => Step lib checks m call m' ∧ ¬ HalfMade m call.name)
      (.initial words) calls m) :
    ∀ call ∈ calls, ∀ addr, call.outcome = .ok addr →
      ∃ c ∈ m.made, c.name = call.name ∧ c.addr = addr := by
  have hall : Sound m ∧ ∀ call ∈ calls, ∀ addr, call.outcome = .ok addr →
      ∃ c ∈ m.made, c.name = call.name ∧ c.addr = addr := by
    refine hrun.history (C := fun _ => True)
      (P := fun calls m => Sound m ∧ ∀ call ∈ calls, ∀ addr, call.outcome = .ok addr →
        ∃ c ∈ m.made, c.name = call.name ∧ c.addr = addr)
      ?_ (fun _ _ => trivial) ⟨initial_sound words, fun _ h => by cases h⟩
    intro calls m call m' h _ h'
    obtain ⟨h, hreturned⟩ := h
    obtain ⟨hstep, hhalf⟩ := h'
    have heffect := getOrCreate_effect hstep.1 hstep.2
    refine ⟨heffect.sound h hstep.1, fun call' hcall addr hok => ?_⟩
    rcases List.mem_append.mp hcall with hcall | hcall
    · obtain ⟨c, hc, hcname, haddr⟩ := hreturned call' hcall addr hok
      exact ⟨c, heffect.made_mono hc, hcname, haddr⟩
    · obtain rfl := List.mem_singleton.mp hcall
      exact heffect.returned h hhalf hok
  exact hall.2

/-- Pool creation is all or nothing in the runs in which no call gets as far as the zone of
a half-made pool, and in no others. -/
theorem all_or_nothing_iff (lib : MempoolLib) (checks : Bool) (words : Words) (m : Memory)
    (calls : List GetOrCreate) (hrun : Run (Step lib checks) (.initial words) calls m) :
    AllOrNothing calls m ↔
      Run (fun m call m' => Step lib checks m call m' ∧ ¬ HalfMade m call.name)
        (.initial words) calls m := by
  have h := run_sound (initial_sound words) hrun
  constructor
  · intro hall
    refine whole_of_initialized (initial_sound words) hrun fun call hcall addr hok => ?_
    obtain ⟨c, hc, hname, -⟩ := hall.initialized call hcall addr hok
    exact ⟨c, hc, hname⟩
  · intro hwhole
    have hreturned := returned_of_whole hwhole
    refine ⟨fun call hcall addr hok => ?_,
      fun call hcall call' hcall' addr addr' hname hok hok' => ?_⟩
    · obtain ⟨c, hc, hname, haddr⟩ := hreturned call hcall addr hok
      exact ⟨c, hc, hname, haddr, haddr ▸ (h.made c hc).2⟩
    · obtain ⟨c, hc, hcname, rfl⟩ := hreturned call hcall addr hok
      obtain ⟨c', hc', hcname', rfl⟩ := hreturned call' hcall' addr' hok'
      exact h.creation_addr hc' (h.made c hc).1 (by rw [hcname, hname, hcname'])

/-! ### Two calls for a pool -/

def sampleLib : MempoolLib := ⟨fun mp => mp + 192, 192, 1024⟩

/-- The zone is reserved and the mempool could not be created. -/
def failedCall : GetOrCreate := ⟨"pktpool_0", 0, ⟨some 4096, none⟩, .exhausted⟩

/-- Both are created. -/
def firstCall : GetOrCreate := ⟨"pktpool_0", 0, ⟨some 4096, some 65536⟩, .ok 4096⟩

def laterCall : GetOrCreate := ⟨"pktpool_0", 0, ⟨none, none⟩, .ok 4096⟩

/-- What the failed call leaves: a zone, and nothing written. -/
def halfMade : Memory := (Memory.initial fun _ => 0).reserve (zoneName "pktpool_0") 4096

/-- What the first call leaves. -/
def whole : Memory :=
  (getOrCreate sampleLib true firstCall.answers firstCall.name firstCall.socketId
    (.initial fun _ => 0)).2

theorem laterCall_valid (m : Memory) : laterCall.answers.Valid sampleLib m := by
  constructor <;> simp [laterCall]

theorem firstCall_valid : firstCall.answers.Valid sampleLib (.initial fun _ => 0) := by
  constructor <;>
    simp [firstCall, Memory.initial, Memory.zoneBlock, Memory.mempoolBlock, sampleLib, Block.Apart,
      Block.Holds, memzoneLen, sizeOfMemoryPool, cacheLineSize, maxThreadNum]

theorem not_halfMade_initial (words : Words) (name : String) :
    ¬ HalfMade (.initial words) name := by
  intro h
  obtain ⟨-, ⟨zone, hzone, -⟩, -⟩ := h
  cases hzone

theorem not_halfMade_whole : ¬ HalfMade whole "pktpool_0" := by
  intro h
  obtain ⟨-, -, hmade⟩ := h
  exact hmade _ (List.mem_cons_self ..) rfl

theorem half_made_run :
    Run (Step sampleLib true) (.initial fun _ => 0) [failedCall, laterCall] halfMade := by
  have hzone : failedCall.answers.Valid sampleLib (.initial fun _ => 0) := by
    constructor <;> simp [failedCall, Memory.initial]
  exact .cons ⟨hzone, rfl⟩ (.single ⟨laterCall_valid _, rfl⟩)

theorem whole_run :
    Run (fun m call m' => Step sampleLib true m call m' ∧ ¬ HalfMade m call.name)
      (.initial fun _ => 0) [firstCall, laterCall] whole :=
  .cons ⟨⟨firstCall_valid, rfl⟩, not_halfMade_initial _ _⟩
    (.single ⟨⟨laterCall_valid _, rfl⟩, not_halfMade_whole⟩)

theorem all_or_nothing_iff_sample :
    AllOrNothing [firstCall, laterCall] whole ∧
      (AllOrNothing [failedCall, laterCall] halfMade ↔
        Run (fun m call m' => Step sampleLib true m call m' ∧ ¬ HalfMade m call.name)
          (.initial fun _ => 0) [failedCall, laterCall] halfMade) := by
  have hrun : Run (Step sampleLib true) (.initial fun _ => 0) [firstCall, laterCall] whole :=
    whole_run.mono fun _ _ _ => And.left
  exact ⟨(all_or_nothing_iff sampleLib true _ _ _ hrun).mpr whole_run,
    all_or_nothing_iff sampleLib true _ _ _ half_made_run⟩

/-- The second call returns the zone of the pool that could not be created: no creation was
completed, and the zone holds no mempool. -/
theorem half_made_returned :
    Run (Step sampleLib true) (.initial fun _ => 0) [failedCall, laterCall] halfMade ∧
      failedCall.outcome = .exhausted ∧ laterCall.outcome = .ok 4096 ∧
      laterCall.name = failedCall.name ∧ halfMade.made = [] ∧ (halfMade.pool 4096).mp = 0 ∧
      ¬ AllOrNothing [failedCall, laterCall] halfMade := by
  refine ⟨half_made_run, rfl, rfl, rfl, rfl, rfl, fun hall => ?_⟩
  obtain ⟨c, hc, -⟩ := hall.initialized laterCall (by simp) 4096 rfl
  cases hc

end MemoryPool
end OmniStack
