import OmniStack.Engine.Endings

/-! Workers whose modules stand in rows.

Where every node of a row has one link and the last node keeps or returns whatever it gets, the
recursion of the task loop is straight: a packet goes down the whole row before the next one
starts (`visits_row`), and ends the run where a module of the row does (`breaks_row`). A worker
all of whose polled nodes head such a row is a plain program: gather a burst from each, then
send the bursts down, the last one first (`Straight.round_iff`,
`Straight.roundEnds_iff`). -/
namespace OmniStack
open Lib

variable {σ : Type}

/-- What a module's `process` and its `poll` are. -/
abbrev Process (σ : Type) := Context → PacketId → World σ → Exec (Result Unit × World σ)
abbrev Poll (σ : Type) := Context → World σ → Exec (Result PacketId × World σ)

/-- A packet's way down a row. -/
def rowCall (ctx : Context) (p : PacketId) :
    List (Process σ) → World σ → Exec (Result Unit × World σ)
  | [], w => .ok (.ok (), w)
  | process :: rest, w => andThen (process ctx p w) (rowCall ctx p rest)

/-- What ends a run that makes this call. -/
def endingOf : Exec (Result Unit × World σ) → Option Ending
  | .error g => some (.fault (.inModule g))
  | .ok (.ok (), _) => none
  | .ok (.error e, _) => if e = .dropped then none else some (.failed e)

theorem endingOf_andThen {x : Exec (Result Unit × World σ)}
    {next : World σ → Exec (Result Unit × World σ)} {ending : Ending} :
    endingOf (andThen x next) = some ending ↔
      endingOf x = some ending ∨ ∃ w, x = .ok (.ok (), w) ∧ endingOf (next w) = some ending := by
  match x with
  | .error g => simp [endingOf]
  | .ok (.error e, w) => simp [endingOf]
  | .ok (.ok (), w) => simp [endingOf]

/-- A packet that is kept or returned has been seen to. -/
def settled (x : Exec (Result Unit × World σ)) : Exec (Result Unit × World σ) := do
  match ← x with
  | (.error .dropped, w) => return (.ok (), w)
  | (res, w) => return (res, w)

/-- A burst goes down packet by packet, until a call ends the run. -/
def each (call : PacketId → World σ → Exec (Result Unit × World σ)) :
    List PacketId → World σ → Exec (Result Unit × World σ)
  | [], w => .ok (.ok (), w)
  | p :: rest, w => andThen (settled (call p w)) (each call rest)

theorem settled_eq_ok {x : Exec (Result Unit × World σ)} {w : World σ}
    (hends : ∀ w', x ≠ .ok (.ok (), w')) :
    settled x = .ok (.ok (), w) ↔ x = .ok (.error .dropped, w) := by
  match x with
  | .error g => exact ⟨nofun, nofun⟩
  | .ok (.error e, w) => cases e <;> simp [settled]
  | .ok (.ok (), w) => exact absurd rfl (hends w)

theorem endingOf_settled (x : Exec (Result Unit × World σ)) :
    endingOf (settled x) = endingOf x := by
  match x with
  | .error g => rfl
  | .ok (.error e, w) => cases e <;> rfl
  | .ok (.ok (), w) => rfl

namespace Worker
variable {checks : Bool} {w : Worker σ} {ctx : Context}

/-- From node `n` on the modules are a row of these `process` functions. -/
inductive Row (w : Worker σ) (ctx : Context) : NodeId → List (Process σ) → Prop where
  | last {n : NodeId} {node : Node σ} (hnode : w.nodes.items[n]? = some node)
      (hends : ∀ p world world', node.module.process ctx p world ≠ .ok (.ok (), world')) :
      Row w ctx n [node.module.process]
  | link {n m : NodeId} {node : Node σ} {rest : List (Process σ)}
      (hnode : w.nodes.items[n]? = some node) (hlinks : node.linksTo.items = [m])
      (hrest : Row w ctx m rest) : Row w ctx n (node.module.process :: rest)

/-- A row keeps or returns what it gets. -/
theorem Row.ends {n : NodeId} {row : List (Process σ)} (h : Row w ctx n row) (p : PacketId)
    (world world' : World σ) : rowCall ctx p row world ≠ .ok (.ok (), world') := by
  induction h generalizing world with
  | last _ hends =>
    intro hcall
    obtain ⟨mid, hlast, _⟩ := andThen_eq_ok.mp hcall
    exact hends p world mid hlast
  | link _ _ _ ih =>
    intro hcall
    obtain ⟨mid, _, hrest⟩ := andThen_eq_ok.mp hcall
    exact ih mid hrest

theorem addRefs_one (checks : Bool) (refcnt : Nat) : addRefs checks refcnt 1 = .ok refcnt := rfl

theorem setPkt_refcnt_same (world : World σ) (p : PacketId) :
    world.setPkt p {world.pkts p with refcnt := (world.pkts p).refcnt} = world := by
  have hpkts : (world.setPkt p (world.pkts p)).pkts = world.pkts := by
    funext q
    by_cases hq : q = p
    · rw [hq, World.setPkt_pkts_same]
    · rw [World.setPkt_pkts_ne _ _ hq]
  exact congrArg (fun pkts => {world with pkts}) hpkts

/-- One link passes the packet on as it is. -/
theorem calls_link {n m : NodeId} {node : Node σ} {p : PacketId} {world last : World σ} {ev : Event}
    {made : List Task} (hnode : w.nodes.items[n]? = some node) (hlinks : node.linksTo.items = [m]) :
    Calls checks w ctx ⟨n, some p⟩ world ev last made ↔
      (node.module.process ctx p world = .ok (.ok (), last) ∧ ev = .called n p (.ok ()) ∧
        made = [⟨m, some p⟩]) ∨
      (node.module.process ctx p world = .ok (.error .dropped, last) ∧
        ev = .called n p (.error .dropped) ∧ made = []) := by
  constructor
  · intro h
    cases h with
    | forwarded hnode' hcall hrefs =>
      cases hnode.symm.trans hnode'
      rw [hlinks] at hrefs
      obtain rfl := Except.ok.inj ((addRefs_one checks _).symm.trans hrefs)
      rw [setPkt_refcnt_same, hlinks]
      exact .inl ⟨hcall, rfl, rfl⟩
    | dropped hnode' hcall =>
      cases hnode.symm.trans hnode'
      exact .inr ⟨hcall, rfl, rfl⟩
  · intro h
    rcases h with ⟨hcall, rfl, rfl⟩ | ⟨hcall, rfl, rfl⟩
    · have hrefs : addRefs checks (last.pkts p).refcnt node.linksTo.items.length =
          .ok (last.pkts p).refcnt := by
        rw [hlinks]
        rfl
      have hforward : Calls checks w ctx ⟨n, some p⟩ world _ _ _ := .forwarded hnode hcall hrefs
      rwa [setPkt_refcnt_same, hlinks] at hforward
    · exact .dropped hnode hcall

/-- Calling a node that has one link, or never returns `Ok`, ends the run as its module does. -/
theorem stops_iff {n : NodeId} {node : Node σ} {p : PacketId} {world : World σ} {ending : Ending}
    (hnode : w.nodes.items[n]? = some node)
    (hone : ∀ mid, node.module.process ctx p world = .ok (.ok (), mid) →
      node.linksTo.items.length = 1) :
    Stops checks w ctx ⟨n, some p⟩ world ending ↔
      endingOf (node.module.process ctx p world) = some ending := by
  constructor
  · intro h
    cases h with
    | noNode hnone => cases hnode.symm.trans hnone
    | faulted hnode' hcall =>
      cases hnode.symm.trans hnode'
      rw [hcall]
      rfl
    | miscounted hnode' hcall hrefs =>
      cases hnode.symm.trans hnode'
      rw [hone _ hcall] at hrefs
      cases (addRefs_one checks _).symm.trans hrefs
    | failed hnode' hcall hne =>
      cases hnode.symm.trans hnode'
      rw [hcall]
      exact if_neg hne
  · intro h
    rcases hcall : node.module.process ctx p world with g | ⟨e | u, mid⟩
    · rw [hcall] at h
      cases h
      exact .faulted hnode hcall
    · rw [hcall] at h
      by_cases hne : e = .dropped
      · cases (if_pos hne).symm.trans h
      · cases (if_neg hne).symm.trans h
        exact .failed hnode hcall hne
    · rw [hcall] at h
      cases h

/-- **A packet goes down the row before anything else is done.** -/
theorem visits_row {n : NodeId} {row : List (Process σ)} (h : Row w ctx n row)
    (p : PacketId) (world last : World σ) :
    (∃ evs, Visits (Calls checks w ctx) [⟨n, some p⟩] world evs last) ↔
      rowCall ctx p row world = .ok (.error .dropped, last) := by
  induction h generalizing world with
  | last hnode hends =>
    rw [Visits.single_iff, rowCall, andThen_eq_error]
    constructor
    · intro ⟨ev, mid, made, evs, hcall, hmade⟩
      cases hcall with
      | forwarded hnode' hok =>
        cases hnode.symm.trans hnode'
        exact absurd hok (hends _ _ _)
      | dropped hnode' hdropped =>
        cases hnode.symm.trans hnode'
        cases hmade
        exact .inl hdropped
    · intro hrow
      rcases hrow with hdropped | ⟨mid, hok, _⟩
      · exact ⟨_, _, _, _, .dropped hnode hdropped, .nil _⟩
      · exact absurd hok (hends _ _ _)
  | link hnode hlinks _ ih =>
    rw [Visits.single_iff, rowCall, andThen_eq_error]
    constructor
    · intro ⟨ev, mid, made, evs, hcall, hmade⟩
      rcases (calls_link hnode hlinks).mp hcall with ⟨hok, _, rfl⟩ | ⟨hdropped, _, rfl⟩
      · exact .inr ⟨mid, hok, (ih mid).mp ⟨evs, hmade⟩⟩
      · cases hmade
        exact .inl hdropped
    · intro hrow
      rcases hrow with hdropped | ⟨mid, hok, hrest⟩
      · exact ⟨_, _, _, _, .dropped hnode hdropped, .nil _⟩
      · obtain ⟨evs, hvisits⟩ := (ih mid).mpr hrest
        exact ⟨_, _, _, _, (calls_link hnode hlinks).mpr (.inl ⟨hok, rfl, rfl⟩), hvisits⟩

/-- **What ends a packet's way down the row is what the recursion breaks with.** -/
theorem breaks_row {n : NodeId} {row : List (Process σ)} (h : Row w ctx n row)
    (p : PacketId) (world : World σ) (ending : Ending) :
    Breaks (Calls checks w ctx) (Stops checks w ctx) [⟨n, some p⟩] world ending ↔
      endingOf (rowCall ctx p row world) = some ending := by
  induction h generalizing world with
  | last hnode hends =>
    rw [Breaks.single_iff, rowCall, endingOf_andThen,
      stops_iff hnode fun mid hok => absurd hok (hends _ _ mid)]
    apply or_congr Iff.rfl
    constructor
    · intro ⟨ev, mid, made, hcall, hmade⟩
      cases hcall with
      | forwarded hnode' hok =>
        cases hnode.symm.trans hnode'
        exact absurd hok (hends _ _ _)
      | dropped => cases hmade
    · intro ⟨mid, hok, _⟩
      exact absurd hok (hends _ _ mid)
  | link hnode hlinks _ ih =>
    rw [Breaks.single_iff, rowCall, endingOf_andThen,
      stops_iff hnode fun _ _ => congrArg List.length hlinks]
    apply or_congr Iff.rfl
    constructor
    · intro ⟨ev, mid, made, hcall, hmade⟩
      rcases (calls_link hnode hlinks).mp hcall with ⟨hok, _, rfl⟩ | ⟨_, _, rfl⟩
      · exact ⟨mid, hok, (ih mid).mp hmade⟩
      · cases hmade
    · intro ⟨mid, hok, hrest⟩
      exact ⟨_, mid, _, (calls_link hnode hlinks).mpr (.inl ⟨hok, rfl, rfl⟩), (ih mid).mpr hrest⟩

/-- The tasks of a burst, done in turn. -/
theorem visits_each {n : NodeId} {row : List (Process σ)} (h : Row w ctx n row)
    (ps : List PacketId) (world last : World σ) :
    (∃ evs, Visits (Calls checks w ctx) (linkTasks ps n) world evs last) ↔
      each (fun p => rowCall ctx p row) ps world = .ok (.ok (), last) := by
  induction ps generalizing world with
  | nil =>
    constructor
    · intro ⟨evs, hvisits⟩
      cases hvisits
      rfl
    · intro heach
      cases heach
      exact ⟨[], .nil _⟩
  | cons p rest ih =>
    have hcons : linkTasks (p :: rest) n = [⟨n, some p⟩] ++ linkTasks rest n := rfl
    rw [hcons, Visits.append_iff, each, andThen_eq_ok]
    simp only [visits_row h, settled_eq_ok (h.ends p world), ih]

theorem breaks_each {n : NodeId} {row : List (Process σ)} (h : Row w ctx n row)
    (ps : List PacketId) (world : World σ) (ending : Ending) :
    Breaks (Calls checks w ctx) (Stops checks w ctx) (linkTasks ps n) world ending ↔
      endingOf (each (fun p => rowCall ctx p row) ps world) = some ending := by
  induction ps generalizing world with
  | nil => exact ⟨nofun, nofun⟩
  | cons p rest ih =>
    have hcons : linkTasks (p :: rest) n = [⟨n, some p⟩] ++ linkTasks rest n := rfl
    rw [hcons, Breaks.append_iff, each, endingOf_andThen, endingOf_settled]
    simp only [visits_row h, breaks_row h, settled_eq_ok (h.ends p world), ih]

end Worker

/-! ### The plain program -/

/-- A polled node with one link, and the row of modules behind that. -/
structure Inlet (σ : Type) where
  id : NodeId
  poll : Poll σ
  entry : NodeId
  row : List (Process σ)

/-- A poll brings a burst, or nothing. -/
inductive Brings (poll : Poll σ) (ctx : Context) (world : World σ) :
    List PacketId → World σ → Prop where
  | nothing {last : World σ} (hpoll : poll ctx world = .ok (.error .nop, last)) :
      Brings poll ctx world [] last
  | burst {head : PacketId} {ps : List PacketId} {last : World σ}
      (hpoll : poll ctx world = .ok (.ok head, last))
      (hchain : Worker.ChainOf last.pkts (some head) ps) : Brings poll ctx world ps last

/-- The inlets are polled in order, each for a burst. -/
inductive Gathers (ctx : Context) :
    List (Inlet σ) → World σ → List (Inlet σ × List PacketId) → World σ → Prop where
  | nil (world : World σ) : Gathers ctx [] world [] world
  | cons {i : Inlet σ} {rest : List (Inlet σ)} {ps : List PacketId}
      {bursts : List (Inlet σ × List PacketId)} {world mid last : World σ}
      (hfirst : Brings i.poll ctx world ps mid) (hrest : Gathers ctx rest mid bursts last) :
      Gathers ctx (i :: rest) world ((i, ps) :: bursts) last

/-- The bursts go down their rows, each from its last packet to its first. -/
def goDown (ctx : Context) : List (Inlet σ × List PacketId) → World σ → Exec (Result Unit × World σ)
  | [], w => .ok (.ok (), w)
  | b :: rest, w => andThen (each (fun p => rowCall ctx p b.1.row) b.2.reverse w) (goDown ctx rest)

/-- One pass of the plain program. -/
def Pass (ctx : Context) (inlets : List (Inlet σ)) (world last : World σ) : Prop :=
  ∃ bursts mid, Gathers ctx inlets world bursts mid ∧
    goDown ctx bursts.reverse mid = .ok (.ok (), last)

/-- A poll ends the program. -/
inductive GatherEnds (ctx : Context) : List (Inlet σ) → World σ → Ending → Prop where
  | faulted {i : Inlet σ} {rest : List (Inlet σ)} {world : World σ} {g : Fault}
      (hpoll : i.poll ctx world = .error g) :
      GatherEnds ctx (i :: rest) world (.fault (.inModule g))
  | failed {i : Inlet σ} {rest : List (Inlet σ)} {world last : World σ} {e : Error}
      (hpoll : i.poll ctx world = .ok (.error e, last)) (hne : e ≠ .nop) :
      GatherEnds ctx (i :: rest) world (.failed e)
  | later {i : Inlet σ} {rest : List (Inlet σ)} {ps : List PacketId} {world mid : World σ}
      {ending : Ending} (hfirst : Brings i.poll ctx world ps mid)
      (hrest : GatherEnds ctx rest mid ending) : GatherEnds ctx (i :: rest) world ending

theorem Gathers.mem {ctx : Context} {inlets : List (Inlet σ)} {world mid : World σ}
    {bursts : List (Inlet σ × List PacketId)} (h : Gathers ctx inlets world bursts mid) :
    ∀ b ∈ bursts, b.1 ∈ inlets := by
  induction h with
  | nil => exact fun b hb => absurd hb List.not_mem_nil
  | cons _ _ ih =>
    intro b hb
    rcases List.mem_cons.mp hb with rfl | hb
    · exact List.mem_cons_self
    · exact List.mem_cons_of_mem _ (ih b hb)

theorem Gathers.ends {ctx : Context} {before after : List (Inlet σ)} {world mid : World σ}
    {bursts : List (Inlet σ × List PacketId)} {ending : Ending}
    (h : Gathers ctx before world bursts mid) (hends : GatherEnds ctx after mid ending) :
    GatherEnds ctx (before ++ after) world ending := by
  induction h with
  | nil => exact hends
  | cons hfirst _ ih => exact .later hfirst (ih hends)

/-- A pass ends the program, at a poll or on some packet's way down. -/
def PassEnds (ctx : Context) (inlets : List (Inlet σ)) (world : World σ) (ending : Ending) : Prop :=
  GatherEnds ctx inlets world ending ∨ ∃ bursts mid, Gathers ctx inlets world bursts mid ∧
    endingOf (goDown ctx bursts.reverse mid) = some ending

namespace Worker
variable {checks : Bool} {shouldStop : World σ → Bool} {w : Worker σ} {ctx : Context}
  {inlets : List (Inlet σ)}

/-- The worker polls these inlets, in this order. -/
structure Straight (w : Worker σ) (ctx : Context) (inlets : List (Inlet σ)) : Prop where
  polls : w.nodesToPoll.items = inlets.map Inlet.id
  sources : ∀ i ∈ inlets, ∃ node, w.nodes.items[i.id]? = some node ∧ node.module.poll = i.poll ∧
    node.linksTo.items = [i.entry]
  rows : ∀ i ∈ inlets, Row w ctx i.entry i.row

/-- The tasks of the bursts. -/
def tasksOf (bursts : List (Inlet σ × List PacketId)) : List Task :=
  bursts.flatMap fun b => linkTasks b.2 b.1.entry

theorem tasksOf_reverse (bursts : List (Inlet σ × List PacketId)) :
    (tasksOf bursts).reverse = bursts.reverse.flatMap fun b => linkTasks b.2.reverse b.1.entry := by
  rw [tasksOf, List.reverse_flatMap]
  congr 1
  funext b
  exact List.map_reverse.symm

section
variable (hsources : ∀ i ∈ inlets, ∃ node, w.nodes.items[i.id]? = some node ∧
  node.module.poll = i.poll ∧ node.linksTo.items = [i.entry])
include hsources

/-- Polling the nodes is gathering the bursts. -/
theorem polls_iff_gathers {world mid : World σ} {tasks : List Task} :
    Polls w ctx (inlets.map Inlet.id) world tasks mid ↔
      ∃ bursts, Gathers ctx inlets world bursts mid ∧ tasks = tasksOf bursts := by
  induction inlets generalizing world tasks with
  | nil =>
    constructor
    · intro h
      cases h
      exact ⟨[], .nil _, rfl⟩
    · intro ⟨bursts, h, htasks⟩
      cases h
      subst htasks
      exact .nil _
  | cons i rest ih =>
    obtain ⟨node, hnode, hmodule, hlinks⟩ := hsources i List.mem_cons_self
    have ih := fun {world tasks} => @ih (fun j hj => hsources j (List.mem_cons_of_mem _ hj)) world tasks
    constructor
    · intro h
      cases h with
      | idle hnode' hpoll hrest =>
        cases hnode.symm.trans hnode'
        obtain ⟨bursts, hgathers, rfl⟩ := ih.mp hrest
        rw [hmodule] at hpoll
        exact ⟨_, .cons (.nothing hpoll) hgathers, rfl⟩
      | polled hnode' hpoll hburst hrest =>
        cases hnode.symm.trans hnode'
        obtain ⟨bursts, hgathers, rfl⟩ := ih.mp hrest
        have hchain := hburst (by rw [hlinks]; exact List.cons_ne_nil _ _)
        rw [hmodule] at hpoll
        refine ⟨_, .cons (.burst hpoll hchain) hgathers, ?_⟩
        rw [hlinks, List.flatMap_singleton]
        rfl
    · intro ⟨bursts, h, htasks⟩
      subst htasks
      cases h with
      | cons hfirst hrest =>
        have hpolls := ih.mpr ⟨_, hrest, rfl⟩
        cases hfirst with
        | nothing hpoll =>
          rw [← hmodule] at hpoll
          exact .idle hnode hpoll hpolls
        | burst hpoll hchain =>
          rw [← hmodule] at hpoll
          have h := Polls.polled hnode hpoll (fun _ => hchain) hpolls
          rwa [hlinks, List.flatMap_singleton] at h

theorem Polls.gatherEnds {before after : List (Inlet σ)} (h : inlets = before ++ after)
    {world mid : World σ} {tasks : List Task} {ending : Ending}
    (hpolls : Polls w ctx (before.map Inlet.id) world tasks mid)
    (hends : GatherEnds ctx after mid ending) : GatherEnds ctx inlets world ending := by
  subst h
  obtain ⟨bursts, hgathers, _⟩ :=
    (polls_iff_gathers fun i hi => hsources i (List.mem_append_left _ hi)).mp hpolls
  exact hgathers.ends hends

/-- The polls end the run where gathering does. -/
theorem pollsEnd_iff {world : World σ} {ending : Ending} :
    PollsEnd w ctx (inlets.map Inlet.id) world ending ↔ GatherEnds ctx inlets world ending := by
  constructor
  · intro h
    generalize hids : inlets.map Inlet.id = ids at h
    induction h generalizing inlets with
    | noNode hnone =>
      obtain ⟨i, rest, rfl, rfl, rfl⟩ := List.map_eq_cons_iff.mp hids
      obtain ⟨node, hnode, _⟩ := hsources i List.mem_cons_self
      cases hnode.symm.trans hnone
    | faulted hnode' hpoll =>
      obtain ⟨i, rest, rfl, rfl, rfl⟩ := List.map_eq_cons_iff.mp hids
      obtain ⟨node, hnode, hmodule, _⟩ := hsources i List.mem_cons_self
      cases hnode.symm.trans hnode'
      rw [hmodule] at hpoll
      exact .faulted hpoll
    | failed hnode' hpoll hne =>
      obtain ⟨i, rest, rfl, rfl, rfl⟩ := List.map_eq_cons_iff.mp hids
      obtain ⟨node, hnode, hmodule, _⟩ := hsources i List.mem_cons_self
      cases hnode.symm.trans hnode'
      rw [hmodule] at hpoll
      exact .failed hpoll hne
    | later hbefore _ ih =>
      obtain ⟨before, after, rfl, rfl, rfl⟩ := List.map_eq_append_iff.mp hids
      exact hbefore.gatherEnds hsources rfl
        (ih (fun i hi => hsources i (List.mem_append_right _ hi)) rfl)
  · intro h
    induction h with
    | faulted hpoll =>
      obtain ⟨node, hnode, hmodule, _⟩ := hsources _ List.mem_cons_self
      rw [← hmodule] at hpoll
      exact .faulted hnode hpoll
    | failed hpoll hne =>
      obtain ⟨node, hnode, hmodule, _⟩ := hsources _ List.mem_cons_self
      rw [← hmodule] at hpoll
      exact .failed hnode hpoll hne
    | @later i rest ps world mid ending hfirst hrest ih =>
      have hone : Polls w ctx ([i].map Inlet.id) world (tasksOf [(i, ps)]) mid :=
        (polls_iff_gathers fun j hj => hsources j (List.mem_append_left rest hj)).mpr
          ⟨_, .cons hfirst (.nil mid), rfl⟩
      exact .later hone (ih fun j hj => hsources j (List.mem_cons_of_mem _ hj))

end

section
variable {bursts : List (Inlet σ × List PacketId)} (hrows : ∀ b ∈ bursts, Row w ctx b.1.entry b.1.row)
include hrows

theorem visits_goDown {world last : World σ} :
    (∃ evs, Visits (Calls checks w ctx)
        (bursts.flatMap fun b => linkTasks b.2.reverse b.1.entry) world evs last) ↔
      goDown ctx bursts world = .ok (.ok (), last) := by
  induction bursts generalizing world with
  | nil =>
    constructor
    · intro ⟨evs, hvisits⟩
      cases hvisits
      rfl
    · intro hdown
      cases hdown
      exact ⟨[], .nil _⟩
  | cons b rest ih =>
    have ih := fun {world} => @ih (fun c hc => hrows c (List.mem_cons_of_mem _ hc)) world
    rw [List.flatMap_cons, Visits.append_iff, goDown, andThen_eq_ok]
    simp only [visits_each (hrows b List.mem_cons_self), ih]

theorem breaks_goDown {world : World σ} {ending : Ending} :
    Breaks (Calls checks w ctx) (Stops checks w ctx)
        (bursts.flatMap fun b => linkTasks b.2.reverse b.1.entry) world ending ↔
      endingOf (goDown ctx bursts world) = some ending := by
  induction bursts generalizing world with
  | nil => exact ⟨nofun, nofun⟩
  | cons b rest ih =>
    have ih := fun {world} => @ih (fun c hc => hrows c (List.mem_cons_of_mem _ hc)) world
    rw [List.flatMap_cons, Breaks.append_iff, goDown, endingOf_andThen]
    simp only [visits_each (hrows b List.mem_cons_self), breaks_each (hrows b List.mem_cons_self),
      ih]

end

/-- **A round of the worker is a pass of the plain program.** -/
theorem Straight.round_iff (h : Straight w ctx inlets) {world last : World σ} :
    Round checks shouldStop w ctx world last ↔ shouldStop world = false ∧ Pass ctx inlets world last := by
  rw [Round, h.polls]
  apply and_congr_right
  intro _
  constructor
  · intro ⟨tasks, mid, evs, hpolls, hdrains⟩
    obtain ⟨bursts, hgathers, rfl⟩ := (polls_iff_gathers h.sources).mp hpolls
    have hrows : ∀ b ∈ bursts.reverse, Row w ctx b.1.entry b.1.row :=
      fun b hb => h.rows b.1 (hgathers.mem b (List.mem_reverse.mp hb))
    rw [Drains, tasksOf_reverse] at hdrains
    exact ⟨bursts, mid, hgathers, (visits_goDown hrows).mp ⟨evs, hdrains⟩⟩
  · intro ⟨bursts, mid, hgathers, hdown⟩
    have hrows : ∀ b ∈ bursts.reverse, Row w ctx b.1.entry b.1.row :=
      fun b hb => h.rows b.1 (hgathers.mem b (List.mem_reverse.mp hb))
    obtain ⟨evs, hvisits⟩ := (visits_goDown hrows).mpr hdown
    rw [← tasksOf_reverse] at hvisits
    exact ⟨_, mid, evs, (polls_iff_gathers h.sources).mpr ⟨bursts, hgathers, rfl⟩, hvisits⟩

/-- It ends the run where the pass ends the program, or the modules cannot be destroyed. -/
theorem Straight.roundEnds_iff (h : Straight w ctx inlets) {world : World σ} {ending : Ending} :
    RoundEnds checks shouldStop w ctx world ending ↔
      (shouldStop world = true ∧ ∃ g, destroyNodes ctx w.nodes.items world = .error g ∧
        ending = .fault (.inModule g)) ∨
      (shouldStop world = false ∧ PassEnds ctx inlets world ending) := by
  constructor
  · intro hends
    cases hends with
    | destroying hstop hdestroy => exact .inl ⟨hstop, _, hdestroy, rfl⟩
    | polling hgoes hpolls =>
      rw [h.polls] at hpolls
      exact .inr ⟨hgoes, .inl ((pollsEnd_iff h.sources).mp hpolls)⟩
    | draining hgoes hpolls hbreaks =>
      rw [h.polls] at hpolls
      obtain ⟨bursts, hgathers, rfl⟩ := (polls_iff_gathers h.sources).mp hpolls
      have hrows : ∀ b ∈ bursts.reverse, Row w ctx b.1.entry b.1.row :=
        fun b hb => h.rows b.1 (hgathers.mem b (List.mem_reverse.mp hb))
      rw [tasksOf_reverse] at hbreaks
      exact .inr ⟨hgoes, .inr ⟨bursts, _, hgathers, (breaks_goDown hrows).mp hbreaks⟩⟩
  · intro hends
    rcases hends with ⟨hstop, g, hdestroy, rfl⟩ | ⟨hgoes, hgather | ⟨bursts, mid, hgathers, hdown⟩⟩
    · exact .destroying hstop hdestroy
    · refine .polling hgoes ?_
      rw [h.polls]
      exact (pollsEnd_iff h.sources).mpr hgather
    · have hrows : ∀ b ∈ bursts.reverse, Row w ctx b.1.entry b.1.row :=
        fun b hb => h.rows b.1 (hgathers.mem b (List.mem_reverse.mp hb))
      have hbreaks : Breaks (Calls checks w ctx) (Stops checks w ctx) (tasksOf bursts).reverse mid
          ending := by
        rw [tasksOf_reverse]
        exact (breaks_goDown hrows).mpr hdown
      refine .draining hgoes ?_ hbreaks
      rw [h.polls]
      exact (polls_iff_gathers h.sources).mpr ⟨bursts, hgathers, rfl⟩

/-- Some passes of the plain program, none of them asked to stop. -/
def Passes (shouldStop : World σ → Bool) (ctx : Context) (inlets : List (Inlet σ)) :
    World σ → World σ → Prop :=
  Relation.ReflTransGen fun world last => shouldStop world = false ∧ Pass ctx inlets world last

theorem Straight.rounds_iff (h : Straight w ctx inlets) {world last : World σ} :
    Rounds checks shouldStop w ctx world last ↔ Passes shouldStop ctx inlets world last := by
  have hround : Round checks shouldStop w ctx =
      fun world last => shouldStop world = false ∧ Pass ctx inlets world last :=
    funext fun world => funext fun last => propext h.round_iff
  rw [Rounds, Passes, hround]

end Worker
end OmniStack
