import OmniStack.Lib.Trace
import OmniStack.Memory.Placement
import Mathlib.Data.List.Induction

/-! The workers' use of their packet caches.

A worker enters, gets its socket's packet pool, creates its cache there and from then on
allocates and deallocates through it. The way to a cache is one on allocation, through the
pool's header, and another on deallocation, through the mempool a packet comes from; a
packet that was sent is deallocated with the id its sender left in it. -/
namespace OmniStack
open Lib

namespace PacketPool

/-- How far a worker has come. -/
inductive Stage where
  | idle
  | entered (threadId : UInt32)
  | pooled (threadId : UInt32) (pool : Nat)
  | ready (threadId : UInt32) (pool : Nat)
  | stopped

/-- A packet object: the mempool in its header, the id of its sender and who is sending it. -/
structure Obj (W : Type) where
  mp : Nat
  threadId : UInt32
  inFlight : Option W

/-- A read or a write of a cache pointer. -/
structure Access (W : Type) where
  worker : W
  addr : Nat
  write : Bool

structure System (W : Type) where
  ids : ThreadId
  mem : Memory
  stages : W → Stage
  objs : Nat → Option (Obj W)
  /-- every access to a cache pointer, the first one first -/
  log : List (Access W)

def initial {W : Type} (words : Words) : System W :=
  ⟨.initial, .initial words, fun _ => .idle, fun _ => none, []⟩

/-- `PacketPool::get_or_create` asks for the pool of this name. -/
def poolName (socketId : UInt32) : String := "pktpool_" ++ toString socketId.toNat

/-- `get_cache`: where the cache pointer is found from the pool's header. -/
def getCache (m : Memory) (pool : Nat) (threadId : UInt32) : Nat :=
  (m.pool pool).cachePerThread + 8 * threadId.toNat

/-- `create_cache` -/
def createCache (m : Memory) (pool : Nat) (threadId : UInt32) (cache : Nat) : Memory :=
  {m with words := m.words.store (getCache m pool threadId) cache}

/-- Where `deallocate` finds the cache pointer from an object's mempool. -/
def cacheOf (lib : MempoolLib) (m : Memory) (mp : Nat) (threadId : UInt32) : Nat :=
  m.words (mp + lib.sizeOfMempool) + 8 * threadId.toNat

inductive Act where
  | enter (answered : Bool)
  | full
  | getPool (socketId : UInt32) (answers : Answers)
  | createCache (cache : Nat)
  /-- the object allocated, if there is one -/
  | allocate (obj : Option Nat)
  | deallocate (obj : Nat)
  | send (obj : Nat)
  | freed (obj : Nat)

variable {W : Type}

/-- A step of a worker. Where a call returns an error the worker panics and has stopped. -/
inductive Step [DecidableEq W] (lib : MempoolLib) (checks : Bool) :
    System W → W × Act → System W → Prop where
  /-- the response with the id may be lost -/
  | enter {s : System W} {w : W} {id : UInt32} {ids : ThreadId} {answered : Bool} :
    s.stages w = .idle → s.ids.next = (some id, ids) →
    Step lib checks s (w, .enter answered)
      {s with
        ids
        stages := Function.update s.stages w (if answered then .entered id else .stopped)}
  | full {s : System W} {w : W} {ids : ThreadId} :
    s.stages w = .idle → s.ids.next = (none, ids) →
    Step lib checks s (w, .full) {s with ids, stages := Function.update s.stages w .stopped}
  | getPool {s : System W} {w : W} {id socketId : UInt32} {answers : Answers} {pool : Nat}
      {mem : Memory} :
    s.stages w = .entered id → answers.Valid lib s.mem → answers.Aligned →
    MemoryPool.getOrCreate lib checks answers (poolName socketId) socketId s.mem =
      (.ok pool, mem) →
    Step lib checks s (w, .getPool socketId answers)
      {s with mem, stages := Function.update s.stages w (.pooled id pool)}
  | getPoolFails {s : System W} {w : W} {id socketId : UInt32} {answers : Answers}
      {outcome : Outcome} {mem : Memory} :
    s.stages w = .entered id → answers.Valid lib s.mem → answers.Aligned →
    MemoryPool.getOrCreate lib checks answers (poolName socketId) socketId s.mem =
      (outcome, mem) → (∀ pool, outcome ≠ .ok pool) →
    Step lib checks s (w, .getPool socketId answers)
      {s with mem, stages := Function.update s.stages w .stopped}
  | createCache {s : System W} {w : W} {id : UInt32} {pool cache : Nat} :
    s.stages w = .pooled id pool →
    Step lib checks s (w, .createCache cache)
      {s with
        mem := createCache s.mem pool id cache
        stages := Function.update s.stages w (.ready id pool)
        log := s.log ++ [⟨w, getCache s.mem pool id, true⟩]}
  | allocate {s : System W} {w : W} {id threadId : UInt32} {pool obj : Nat} :
    s.stages w = .ready id pool → s.objs obj = none →
    Step lib checks s (w, .allocate (some obj))
      {s with
        objs := Function.update s.objs obj (some ⟨(s.mem.pool pool).mp, threadId, none⟩)
        log := s.log ++ [⟨w, getCache s.mem pool id, false⟩]}
  | allocateFails {s : System W} {w : W} {id : UInt32} {pool : Nat} :
    s.stages w = .ready id pool →
    Step lib checks s (w, .allocate none)
      {s with log := s.log ++ [⟨w, getCache s.mem pool id, false⟩]}
  /-- of an object of the worker's pool, with the worker's id -/
  | deallocate {s : System W} {w : W} {id : UInt32} {pool obj : Nat} {o : Obj W} :
    s.stages w = .ready id pool → s.objs obj = some o → o.inFlight = none →
    o.mp = (s.mem.pool pool).mp →
    Step lib checks s (w, .deallocate obj)
      {s with
        objs := Function.update s.objs obj none
        log := s.log ++ [⟨w, cacheOf lib s.mem o.mp id, false⟩]}
  | send {s : System W} {w : W} {id : UInt32} {pool obj : Nat} {o : Obj W} :
    s.stages w = .ready id pool → s.objs obj = some o → o.inFlight = none →
    o.mp = (s.mem.pool pool).mp →
    Step lib checks s (w, .send obj)
      {s with objs := Function.update s.objs obj (some ⟨o.mp, id, some w⟩)}
  /-- the free callback, on the worker that sent the object -/
  | freed {s : System W} {w : W} {obj : Nat} {o : Obj W} :
    s.objs obj = some o → o.inFlight = some w →
    Step lib checks s (w, .freed obj)
      {s with
        objs := Function.update s.objs obj none
        log := s.log ++ [⟨w, cacheOf lib s.mem o.mp o.threadId, false⟩]}

/-- Every cache pointer that was read or written lies in a reserved zone and behind its
header, is read only after a `create_cache` wrote it, and is one worker's alone. -/
structure Exclusive (s : System W) : Prop where
  inside : ∀ a ∈ s.log, ∃ z ∈ s.mem.zones,
    z.addr + sizeOfMemoryPool ≤ a.addr ∧ a.addr + 8 ≤ z.addr + memzoneLen
  created : ∀ before a after, s.log = before ++ a :: after → a.write = false →
    ∃ b ∈ before, b.write = true ∧ b.addr = a.addr
  alone : ∀ a ∈ s.log, ∀ b ∈ s.log, a.addr = b.addr → a.worker = b.worker

/-- No worker asks for the pool of a zone that was left half made. -/
def Whole (s : System W) : W × Act → Prop
  | (_, .getPool socketId _) => ¬ MemoryPool.HalfMade s.mem (poolName socketId)
  | _ => True

/-- The id of a worker that has one. -/
def Stage.threadId? : Stage → Option UInt32
  | .entered id => some id
  | .pooled id _ => some id
  | .ready id _ => some id
  | _ => none

def Stage.pool? : Stage → Option Nat
  | .pooled _ pool => some pool
  | .ready _ pool => some pool
  | _ => none

def Stage.Ready (stage : Stage) : Prop := ∃ id pool, stage = .ready id pool

/-! ### The ids -/

/-- The workers' ids are marked in the table and no two workers' are the same. -/
structure Numbered (ids : ThreadId) (stages : W → Stage) : Prop where
  used : ∀ w id, (stages w).threadId? = some id → id.toNat < maxThreadNum ∧ ids.Used id
  unique : ∀ w w' id, (stages w).threadId? = some id → (stages w').threadId? = some id → w = w'

theorem Numbered.mono {ids ids' : ThreadId} {stages : W → Stage} (h : Numbered ids stages)
    (hids : ∀ x, ids.Used x → ids'.Used x) : Numbered ids' stages :=
  ⟨fun w id hid => ⟨(h.used w id hid).1, hids id (h.used w id hid).2⟩, h.unique⟩

/-- A worker goes on with its id, or has none any more. -/
theorem Numbered.move [DecidableEq W] {ids : ThreadId} {stages : W → Stage}
    (h : Numbered ids stages) (w : W) {stage : Stage}
    (hstage : ∀ id, stage.threadId? = some id → (stages w).threadId? = some id) :
    Numbered ids (Function.update stages w stage) := by
  have hkept (w' : W) (id : UInt32)
      (hid : (Function.update stages w stage w').threadId? = some id) :
      (stages w').threadId? = some id := by
    by_cases hw : w' = w
    · subst hw
      rw [Function.update_self] at hid
      exact hstage id hid
    · rwa [Function.update_of_ne hw] at hid
  exact ⟨fun w' id hid => h.used w' id (hkept w' id hid),
    fun w₁ w₂ id h₁ h₂ => h.unique w₁ w₂ id (hkept w₁ id h₁) (hkept w₂ id h₂)⟩

/-- A worker enters with an id that was not used. -/
theorem Numbered.enter [DecidableEq W] {ids ids' : ThreadId} {stages : W → Stage}
    (h : Numbered ids stages) (w : W) {id : UInt32} (hnext : ids.next = (some id, ids')) :
    Numbered ids' (Function.update stages w (.entered id)) := by
  obtain ⟨hlt, hfree, hused⟩ := ThreadId.next_some hnext
  have hcases (w' : W) (x : UInt32)
      (hx : (Function.update stages w (.entered id) w').threadId? = some x) :
      w' = w ∧ x = id ∨ (stages w').threadId? = some x := by
    by_cases hw : w' = w
    · subst hw
      rw [Function.update_self] at hx
      exact .inl ⟨rfl, (Option.some.inj hx).symm⟩
    · rw [Function.update_of_ne hw] at hx
      exact .inr hx
  constructor
  · intro w' x hx
    rcases hcases w' x hx with ⟨-, rfl⟩ | hold
    · exact ⟨hlt, (hused x).mpr (.inl rfl)⟩
    · exact ⟨(h.used w' x hold).1, (hused x).mpr (.inr (h.used w' x hold).2)⟩
  · intro w₁ w₂ x h₁ h₂
    rcases hcases w₁ x h₁ with ⟨rfl, rfl⟩ | hold₁
    · rcases hcases w₂ x h₂ with ⟨rfl, -⟩ | hold₂
      · rfl
      · exact absurd (h.used w₂ x hold₂).2 hfree
    · rcases hcases w₂ x h₂ with ⟨rfl, rfl⟩ | hold₂
      · exact absurd (h.used w₁ x hold₁).2 hfree
      · exact h.unique w₁ w₂ x hold₁ hold₂

/-! ### The pools -/

/-- The memory is in order, the workers' pools were completely created, and an object that is
being sent comes from its sender's pool and holds its sender's id. -/
structure Stocked (lib : MempoolLib) (mem : Memory) (stages : W → Stage)
    (objs : Nat → Option (Obj W)) : Prop where
  sound : MemoryPool.Sound mem
  placed : MemoryPool.Placed lib mem
  pools : ∀ w pool, (stages w).pool? = some pool → ∃ c ∈ mem.made, c.addr = pool
  sent : ∀ p o w, objs p = some o → o.inFlight = some w →
    ∃ c ∈ mem.made, stages w = .ready o.threadId c.addr ∧ o.mp = c.pool.mp

section
variable {lib : MempoolLib} {mem mem' : Memory} {stages : W → Stage} {objs : Nat → Option (Obj W)}

/-- The two ways to a cache pointer of a created pool. -/
theorem Stocked.getCache_eq (h : Stocked lib mem stages objs) {c : Creation} (hc : c ∈ mem.made)
    (id : UInt32) : getCache mem c.addr id = MemoryPool.slot c.addr id := by
  rw [getCache, (h.sound.made c hc).2, h.placed.caches c hc]
  rfl

theorem Stocked.cacheOf_eq (h : Stocked lib mem stages objs) (hbehind : lib.Behind) {c : Creation}
    (hc : c ∈ mem.made) (id : UInt32) :
    cacheOf lib mem c.pool.mp id = MemoryPool.slot c.addr id := by
  rw [cacheOf, ← hbehind, h.placed.priv c hc]
  rfl

/-- A worker that is not ready moves. -/
theorem Stocked.move [DecidableEq W] (h : Stocked lib mem stages objs) {w : W}
    (hw : ¬ (stages w).Ready) (hsound : MemoryPool.Sound mem')
    (hplaced : MemoryPool.Placed lib mem') (hmade : mem.made ⊆ mem'.made) {stage : Stage}
    (hstage : ∀ pool, stage.pool? = some pool → ∃ c ∈ mem'.made, c.addr = pool) :
    Stocked lib mem' (Function.update stages w stage) objs where
  sound := hsound
  placed := hplaced
  pools := by
    intro w' pool hpool
    by_cases hne : w' = w
    · subst hne
      rw [Function.update_self] at hpool
      exact hstage pool hpool
    · rw [Function.update_of_ne hne] at hpool
      obtain ⟨c, hc, haddr⟩ := h.pools w' pool hpool
      exact ⟨c, hmade hc, haddr⟩
  sent := by
    intro p o w' hp hflight
    obtain ⟨c, hc, hready, hmp⟩ := h.sent p o w' hp hflight
    have hne : w' ≠ w := by
      intro heq
      obtain rfl := heq
      exact hw ⟨_, _, hready⟩
    exact ⟨c, hmade hc, (Function.update_of_ne hne ..).trans hready, hmp⟩

/-- An object changes hands. -/
theorem Stocked.hand (h : Stocked lib mem stages objs) (p : Nat) {o : Option (Obj W)}
    (ho : ∀ o' w, o = some o' → o'.inFlight = some w →
      ∃ c ∈ mem.made, stages w = .ready o'.threadId c.addr ∧ o'.mp = c.pool.mp) :
    Stocked lib mem stages (Function.update objs p o) where
  sound := h.sound
  placed := h.placed
  pools := h.pools
  sent := by
    intro p' o' w hp hflight
    by_cases hne : p' = p
    · subst hne
      rw [Function.update_self] at hp
      exact ho o' w hp hflight
    · rw [Function.update_of_ne hne] at hp
      exact h.sent p' o' w hp hflight

end

/-! ### The accesses -/

/-- Every access is of a ready worker to its own cache pointer, which it wrote first. -/
structure Logged (stages : W → Stage) (log : List (Access W)) : Prop where
  own : ∀ a ∈ log, ∃ id pool, stages a.worker = .ready id pool ∧ a.addr = MemoryPool.slot pool id
  written : ∀ w id pool, stages w = .ready id pool →
    ∃ b ∈ log, b.write = true ∧ b.addr = MemoryPool.slot pool id
  created : ∀ before a after, log = before ++ a :: after → a.write = false →
    ∃ b ∈ before, b.write = true ∧ b.addr = a.addr

section
variable {stages : W → Stage} {log : List (Access W)} {w : W}

theorem Logged.move [DecidableEq W] (h : Logged stages log) (hw : ¬ (stages w).Ready)
    {stage : Stage} (hstage : ¬ stage.Ready) : Logged (Function.update stages w stage) log where
  own := by
    intro a ha
    obtain ⟨id, pool, hready, haddr⟩ := h.own a ha
    have hne : a.worker ≠ w := by
      intro heq
      exact hw ⟨id, pool, heq ▸ hready⟩
    exact ⟨id, pool, (Function.update_of_ne hne ..).trans hready, haddr⟩
  written := by
    intro w' id pool hready
    by_cases hne : w' = w
    · subst hne
      rw [Function.update_self] at hready
      exact absurd ⟨id, pool, hready⟩ hstage
    · rw [Function.update_of_ne hne] at hready
      exact h.written w' id pool hready
  created := h.created

theorem Logged.read (h : Logged stages log) {id : UInt32} {pool : Nat}
    (hready : stages w = .ready id pool) {a : Access W} (hworker : a.worker = w)
    (haddr : a.addr = MemoryPool.slot pool id) : Logged stages (log ++ [a]) where
  own := by
    intro a' ha'
    rcases List.mem_append.mp ha' with ha' | ha'
    · exact h.own a' ha'
    · obtain rfl := List.mem_singleton.mp ha'
      exact ⟨id, pool, hworker ▸ hready, haddr⟩
  written := by
    intro w' id' pool' hready'
    obtain ⟨b, hb, hwrite⟩ := h.written w' id' pool' hready'
    exact ⟨b, List.mem_append_left _ hb, hwrite⟩
  created := by
    refine Trace.forall_split_snoc.mpr ⟨h.created, fun _ => ?_⟩
    rw [haddr]
    exact h.written w id pool hready

theorem Logged.create [DecidableEq W] (h : Logged stages log) (hw : ¬ (stages w).Ready)
    {id : UInt32} {pool : Nat} {a : Access W} (hworker : a.worker = w) (hwrite : a.write = true)
    (haddr : a.addr = MemoryPool.slot pool id) :
    Logged (Function.update stages w (.ready id pool)) (log ++ [a]) where
  own := by
    intro a' ha'
    rcases List.mem_append.mp ha' with ha' | ha'
    · obtain ⟨id', pool', hready, haddr'⟩ := h.own a' ha'
      have hne : a'.worker ≠ w := by
        intro heq
        exact hw ⟨id', pool', heq ▸ hready⟩
      exact ⟨id', pool', (Function.update_of_ne hne ..).trans hready, haddr'⟩
    · obtain rfl := List.mem_singleton.mp ha'
      exact ⟨id, pool, hworker ▸ Function.update_self .., haddr⟩
  written := by
    intro w' id' pool' hready
    by_cases hne : w' = w
    · subst hne
      rw [Function.update_self] at hready
      cases hready
      exact ⟨a, List.mem_append_right _ (List.mem_singleton.mpr rfl), hwrite, haddr⟩
    · rw [Function.update_of_ne hne] at hready
      obtain ⟨b, hb, hbwrite⟩ := h.written w' id' pool' hready
      exact ⟨b, List.mem_append_left _ hb, hbwrite⟩
  created := by
    refine Trace.forall_split_snoc.mpr ⟨h.created, fun hread => ?_⟩
    rw [hwrite] at hread
    cases hread

end

/-! ### Runs -/

structure Inv (lib : MempoolLib) (s : System W) : Prop where
  numbered : Numbered s.ids s.stages
  stocked : Stocked lib s.mem s.stages s.objs
  logged : Logged s.stages s.log

variable {lib : MempoolLib} {checks : Bool}

theorem initial_inv (words : Words) : Inv lib (initial words : System W) where
  numbered := ⟨fun _ _ h => (by cases h), fun _ _ _ h => (by cases h)⟩
  stocked := ⟨MemoryPool.initial_sound words, MemoryPool.initial_placed words,
    fun _ _ h => (by cases h), fun _ _ _ h => (by cases h)⟩
  logged := ⟨fun _ h => (by cases h), fun _ _ _ h => (by cases h), fun _ _ _ h =>
    absurd h.symm (List.append_ne_nil_of_right_ne_nil _ (List.cons_ne_nil _ _))⟩

/-- A worker at one of the other stages is not ready. -/
theorem not_ready {stage stage' : Stage} (h : stage = stage') (hstage' : ¬ stage'.Ready) :
    ¬ stage.Ready := h ▸ hstage'

/-- A worker that stops, whatever has become of the ids and the pools. -/
theorem Inv.stop [DecidableEq W] {s : System W} (h : Inv lib s) {w : W}
    (hw : ¬ (s.stages w).Ready) {ids : ThreadId} (hids : ∀ x, s.ids.Used x → ids.Used x)
    {mem : Memory} (hsound : MemoryPool.Sound mem) (hplaced : MemoryPool.Placed lib mem)
    (hmade : s.mem.made ⊆ mem.made) :
    Inv lib {s with ids, mem, stages := Function.update s.stages w .stopped} where
  numbered := (h.numbered.move w fun _ hid => (by cases hid)).mono hids
  stocked := h.stocked.move hw hsound hplaced hmade fun _ hp => (by cases hp)
  logged := h.logged.move hw fun ⟨_, _, h⟩ => (by cases h)

theorem step_inv [DecidableEq W] (hbehind : lib.Behind) {s t : System W} {l : W × Act}
    (h : Inv lib s) (hstep : Step lib checks s l t) (hwhole : Whole s l) : Inv lib t := by
  have hsame : s.mem.made ⊆ s.mem.made := List.Subset.refl _
  have hidle : ¬ Stage.idle.Ready := fun ⟨_, _, h⟩ => (by cases h)
  have hentered (id : UInt32) : ¬ (Stage.entered id).Ready := fun ⟨_, _, h⟩ => (by cases h)
  have hpooled (id : UInt32) (pool : Nat) : ¬ (Stage.pooled id pool).Ready :=
    fun ⟨_, _, h⟩ => (by cases h)
  cases hstep with
  | @enter w id ids answered hstage hnext =>
    have hw := not_ready hstage hidle
    have hused := (ThreadId.next_some hnext).2.2
    cases answered with
    | true =>
      exact ⟨h.numbered.enter w hnext,
        h.stocked.move hw h.stocked.sound h.stocked.placed hsame fun _ hp => (by cases hp),
        h.logged.move hw (hentered id)⟩
    | false =>
      exact h.stop hw (fun x hx => (hused x).mpr (.inr hx)) h.stocked.sound h.stocked.placed hsame
  | @full w ids hstage hnext =>
    exact h.stop (not_ready hstage hidle) (fun x hx => (ThreadId.next_none hnext x).mpr hx)
      h.stocked.sound h.stocked.placed hsame
  | @getPool w id socketId answers pool mem hstage hvalid haligned hget =>
    have hw := not_ready hstage (hentered id)
    have heffect := MemoryPool.getOrCreate_effect hvalid hget
    refine ⟨h.numbered.move w fun x hx => ?_, h.stocked.move hw
      (heffect.sound h.stocked.sound hvalid)
      (heffect.placed h.stocked.placed h.stocked.sound hvalid haligned) heffect.made_mono
      fun p hp => ?_, h.logged.move hw (hpooled id pool)⟩
    · rw [hstage]
      exact hx
    · obtain ⟨c, hc, -, haddr⟩ := heffect.returned h.stocked.sound hwhole rfl
      exact ⟨c, hc, haddr.trans (Option.some.inj hp)⟩
  | @getPoolFails w id socketId answers outcome mem hstage hvalid haligned hget hfails =>
    have heffect := MemoryPool.getOrCreate_effect hvalid hget
    exact h.stop (not_ready hstage (hentered id)) (fun _ hx => hx)
      (heffect.sound h.stocked.sound hvalid)
      (heffect.placed h.stocked.placed h.stocked.sound hvalid haligned) heffect.made_mono
  | @createCache w id pool cache hstage =>
    have hw := not_ready hstage (hpooled id pool)
    have hlt : id.toNat < maxThreadNum := (h.numbered.used w id (by rw [hstage]; rfl)).1
    obtain ⟨c, hc, rfl⟩ := h.stocked.pools w pool (by rw [hstage]; rfl)
    have hzone := (h.stocked.sound.made c hc).1
    have haddr := h.stocked.getCache_eq hc id
    have hmem : PacketPool.createCache s.mem c.addr id cache =
        MemoryPool.storeSlot s.mem c.addr id cache := by
      rw [PacketPool.createCache, haddr]
      rfl
    refine ⟨h.numbered.move w fun x hx => ?_, ?_, h.logged.create hw rfl rfl haddr⟩
    · rw [hstage]
      exact hx
    · rw [hmem]
      refine h.stocked.move hw (h.stocked.sound.storeSlot h.stocked.placed hzone hlt cache)
        (h.stocked.placed.storeSlot hzone hlt cache) hsame fun p hp => ?_
      exact ⟨c, hc, Option.some.inj hp⟩
  | @allocate w id threadId pool obj hstage hobj =>
    obtain ⟨c, hc, rfl⟩ := h.stocked.pools w pool (by rw [hstage]; rfl)
    refine ⟨h.numbered, h.stocked.hand obj fun o' w' ho' hflight' => ?_,
      h.logged.read hstage rfl (h.stocked.getCache_eq hc id)⟩
    cases ho'
    cases hflight'
  | @allocateFails w id pool hstage =>
    obtain ⟨c, hc, rfl⟩ := h.stocked.pools w pool (by rw [hstage]; rfl)
    exact ⟨h.numbered, h.stocked, h.logged.read hstage rfl (h.stocked.getCache_eq hc id)⟩
  | @deallocate w id pool obj o hstage hobj hflight hmp =>
    obtain ⟨c, hc, rfl⟩ := h.stocked.pools w pool (by rw [hstage]; rfl)
    rw [(h.stocked.sound.made c hc).2] at hmp
    refine ⟨h.numbered, h.stocked.hand obj fun _ _ ho => (by cases ho),
      h.logged.read hstage rfl ?_⟩
    show cacheOf lib s.mem o.mp id = _
    rw [hmp]
    exact h.stocked.cacheOf_eq hbehind hc id
  | @send w id pool obj o hstage hobj hflight hmp =>
    obtain ⟨c, hc, rfl⟩ := h.stocked.pools w pool (by rw [hstage]; rfl)
    rw [(h.stocked.sound.made c hc).2] at hmp
    refine ⟨h.numbered, h.stocked.hand obj fun o' w' ho' hflight' => ?_, h.logged⟩
    cases ho'
    obtain rfl := Option.some.inj hflight'
    exact ⟨c, hc, hstage, hmp⟩
  | @freed w obj o hobj hflight =>
    obtain ⟨c, hc, hstage, hmp⟩ := h.stocked.sent obj o w hobj hflight
    refine ⟨h.numbered, h.stocked.hand obj fun _ _ ho => (by cases ho),
      h.logged.read hstage rfl ?_⟩
    show cacheOf lib s.mem o.mp o.threadId = _
    rw [hmp]
    exact h.stocked.cacheOf_eq hbehind hc o.threadId

/-- What the invariant says of the accesses. -/
theorem Inv.exclusive {s : System W} (h : Inv lib s) : Exclusive s := by
  have hplace (a : Access W) (ha : a ∈ s.log) : ∃ id, ∃ z ∈ s.mem.zones,
      (s.stages a.worker).threadId? = some id ∧ id.toNat < maxThreadNum ∧
      a.addr = MemoryPool.slot z.addr id := by
    obtain ⟨id, pool, hready, haddr⟩ := h.logged.own a ha
    have hid : (s.stages a.worker).threadId? = some id := by rw [hready]; rfl
    obtain ⟨c, hc, rfl⟩ := h.stocked.pools a.worker pool (by rw [hready]; rfl)
    exact ⟨id, _, (h.stocked.sound.made c hc).1, hid, (h.numbered.used _ id hid).1, haddr⟩
  refine ⟨fun a ha => ?_, h.logged.created, fun a ha b hb heq => ?_⟩
  · obtain ⟨id, z, hz, -, hlt, haddr⟩ := hplace a ha
    refine ⟨z, hz, ?_, ?_⟩
    · rw [haddr]
      simp only [MemoryPool.slot, sizeOfMemoryPool]
      omega
    · rw [haddr]
      exact (MemoryPool.slot_holds z.addr hlt).2
  · obtain ⟨id, z, hz, hid, hlt, haddr⟩ := hplace a ha
    obtain ⟨id', z', hz', hid', hlt', haddr'⟩ := hplace b hb
    rw [haddr, haddr'] at heq
    obtain rfl := MemoryPool.slot_inj h.stocked.placed hz hz' hlt hlt' heq
    exact h.numbered.unique _ _ id hid hid'

/-- In a run in which no worker asks for a half-made pool, every access to a cache pointer is
in place, after its creation and one worker's alone. -/
theorem caches_exclusive [DecidableEq W] (lib : MempoolLib) (checks : Bool) (words : Words)
    (hbehind : lib.Behind) {s : System W} {acts : List (W × Act)}
    (hrun : Run (fun s l t => Step lib checks s l t ∧ Whole s l) (initial words) acts s) :
    Exclusive s := by
  have hinv : Inv lib s := by
    refine hrun.invariant (P := Inv lib) (fun s l t h hstep => ?_) (initial_inv words)
    exact step_inv hbehind h hstep.1 hstep.2
  exact hinv.exclusive

/-! ### A pool that could not be created -/

open MemoryPool (sampleLib halfMade whole)

/-- Worker zero asks for the pool of its socket and gets none; its zone is found by worker one,
which takes what is there for a pool. -/
def halfMadeActs : List (Nat × Act) :=
  [(0, .enter true), (1, .enter true), (0, .getPool 0 ⟨some 4096, none⟩),
    (1, .getPool 0 ⟨none, none⟩), (1, .createCache 77)]

/-- The cache pointer that worker one writes is in no zone. -/
theorem slot_in_no_zone :
    ∃ s, Run (Step sampleLib true) (initial fun _ => 0 : System Nat) halfMadeActs s ∧
      s.log = [⟨1, 8, true⟩] ∧ ¬ Exclusive s := by
  have hzone : (⟨some 4096, none⟩ : Answers).Valid sampleLib (.initial fun _ => 0) := by
    constructor <;> simp [Memory.initial]
  have hnone : (⟨none, none⟩ : Answers).Valid sampleLib halfMade := MemoryPool.laterCall_valid _
  have hsecond : (ThreadId.table 1).next = (some 1, .table 2) := ThreadId.next_table (by decide)
  have hfails : MemoryPool.getOrCreate sampleLib true ⟨some 4096, none⟩ (poolName 0) 0
      (.initial fun _ => 0) = (.exhausted, halfMade) := rfl
  have hfound : MemoryPool.getOrCreate sampleLib true ⟨none, none⟩ (poolName 0) 0 halfMade =
      (.ok 4096, halfMade) := rfl
  have hrun : Run (Step sampleLib true) (initial fun _ => 0 : System Nat) halfMadeActs _ :=
    .cons (.enter rfl ThreadId.next_initial) <| .cons (.enter rfl hsecond) <|
    .cons (.getPoolFails rfl hzone (by simp [Answers.Aligned, cacheLineSize]) hfails (by simp)) <|
    .cons (.getPool rfl hnone (by simp [Answers.Aligned]) hfound) <| .single (.createCache rfl)
  refine ⟨_, hrun, rfl, fun h => ?_⟩
  obtain ⟨z, hz, hle, -⟩ := h.inside _ (List.mem_singleton.mpr rfl)
  obtain rfl := List.mem_singleton.mp hz
  exact absurd hle (by decide)

/-- Worker zero creates the pool and worker one finds it. Zero's packet is freed when it has been
sent, and one's is given back. -/
def sharedActs : List (Nat × Act) :=
  [(0, .enter true), (1, .enter true), (0, .getPool 0 ⟨some 4096, some 65536⟩),
    (1, .getPool 0 ⟨none, none⟩), (1, .createCache 77), (0, .createCache 78),
    (0, .allocate (some 5)), (1, .allocate (some 6)), (0, .send 5), (1, .deallocate 6),
    (0, .freed 5)]

theorem caches_exclusive_sample :
    ∃ s, Run (fun s l t => Step sampleLib true s l t ∧ Whole s l)
      (initial fun _ => 0 : System Nat) sharedActs s ∧
      s.log.map (fun a => (a.worker, a.write)) =
        [(1, true), (0, true), (0, false), (1, false), (1, false), (0, false)] ∧
      Exclusive s := by
  have hsecond : (ThreadId.table 1).next = (some 1, .table 2) := ThreadId.next_table (by decide)
  have hcreated : MemoryPool.getOrCreate sampleLib true ⟨some 4096, some 65536⟩ (poolName 0) 0
      (.initial fun _ => 0) = (.ok 4096, whole) := rfl
  have hfound : MemoryPool.getOrCreate sampleLib true ⟨none, none⟩ (poolName 0) 0 whole =
      (.ok 4096, whole) := rfl
  have hrun : Run (fun s l t => Step sampleLib true s l t ∧ Whole s l)
      (initial fun _ => 0 : System Nat) sharedActs _ :=
    .cons ⟨.enter rfl ThreadId.next_initial, trivial⟩ <| .cons ⟨.enter rfl hsecond, trivial⟩ <|
    .cons ⟨.getPool rfl MemoryPool.firstCall_valid (by simp [Answers.Aligned, cacheLineSize])
      hcreated, MemoryPool.not_halfMade_initial _ _⟩ <|
    .cons ⟨.getPool rfl (MemoryPool.laterCall_valid _) (by simp [Answers.Aligned]) hfound,
      MemoryPool.not_halfMade_whole⟩ <|
    .cons ⟨.createCache rfl, trivial⟩ <| .cons ⟨.createCache rfl, trivial⟩ <|
    .cons ⟨@Step.allocate Nat _ sampleLib true _ 0 0 0 4096 5 rfl rfl, trivial⟩ <|
    .cons ⟨@Step.allocate Nat _ sampleLib true _ 1 1 1 4096 6 rfl rfl, trivial⟩ <|
    .cons ⟨.send rfl rfl rfl rfl, trivial⟩ <| .cons ⟨.deallocate rfl rfl rfl rfl, trivial⟩ <|
    .single ⟨.freed rfl rfl, trivial⟩
  exact ⟨_, hrun, rfl, caches_exclusive sampleLib true _ (fun _ => rfl) hrun⟩

end PacketPool
end OmniStack
