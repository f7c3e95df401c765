import OmniStack.ConfigStore
import OmniStack.Conservation
import OmniStack.Ports.Queues

/-! From a stack's configuration to its workers.

`Engine::run` looks the stack up, builds a graph for each cpu of each of its entries, and
`run_workers` makes a worker of each graph. Whatever goes wrong on the way is a panic;
`boot_isOk_iff` says which configurations get through, and `boot_workers` what they get. -/
namespace OmniStack
open Lib

/-! ### Which graphs are built -/

namespace Graph
variable {σ : Type} {factory : Factory σ}

theorem buildNodes_isOk_iff {modules : List String} {id : NodeId} :
    (∃ nodes, buildNodes factory modules id = .ok nodes) ↔
      ∀ name ∈ modules, (factory name).isSome := by
  induction modules generalizing id with
  | nil => exact ⟨fun _ _ h => (nomatch h), fun _ => ⟨[], rfl⟩⟩
  | cons name rest ih =>
    simp only [buildNodes, Exec.bind_eq_ok, Exec.pure_eq_ok, unwrap_eq_ok, List.forall_mem_cons,
      Option.isSome_iff_exists]
    simp only [Option.isSome_iff_exists] at ih
    constructor
    · intro h
      obtain ⟨_, build, hbuild, tail, htail, _⟩ := h
      exact ⟨⟨build, hbuild⟩, ih.mp ⟨tail, htail⟩⟩
    · intro h
      obtain ⟨⟨build, hbuild⟩, hrest⟩ := h
      obtain ⟨tail, htail⟩ := ih.mpr hrest
      exact ⟨_, build, hbuild, tail, htail, rfl⟩

/-- A name is at its index. -/
theorem getElem?_of_findIdx? {modules : List String} {name : String} {n : NodeId}
    (h : modules.findIdx? (· == name) = some n) : modules[n]? = some name := by
  obtain ⟨hlt, hname, _⟩ := List.findIdx?_eq_some_iff_getElem.mp h
  rw [List.getElem?_eq_getElem hlt]
  exact congrArg some (by simpa using hname)

theorem findIdx?_isSome_iff {modules : List String} {name : String} :
    (∃ n, modules.findIdx? (· == name) = some n) ↔ name ∈ modules := by
  rw [← Option.isSome_iff_exists, List.findIdx?_isSome]
  simp

/-- How many configured links leave the modules of a name. -/
def leaving (links : List (String × String)) (name : String) : Nat :=
  links.countP fun link => decide (link.1 = name)

/-- The node a name stands for has all its links. -/
theorem length_targets {modules : List String} {links : List (String × String)}
    (hdst : ∀ link ∈ links, link.2 ∈ modules) {name : String} {n : NodeId}
    (hn : modules.findIdx? (· == name) = some n) :
    (links.filterMap (target modules n)).length = leaving links name := by
  induction links with
  | nil => rfl
  | cons link rest ih =>
    obtain ⟨hlink, hrest⟩ := List.forall_mem_cons.mp hdst
    obtain ⟨m, hm⟩ := findIdx?_isSome_iff.mpr hlink
    rw [leaving, List.countP_cons, ← leaving, ← ih hrest]
    by_cases hname : link.1 = name
    · have hsome : target modules n link = some m := by rw [target, hname, if_pos hn, hm]
      rw [List.filterMap_cons, hsome, decide_eq_true hname]
      rfl
    · have hnone : target modules n link = none := by
        refine if_neg fun h => hname ?_
        have hsame := (getElem?_of_findIdx? h).symm.trans (getElem?_of_findIdx? hn)
        exact Option.some.inj hsame
      rw [List.filterMap_cons, hnone, decide_eq_false hname]
      rfl

/-- No node has more links than leave a name. -/
theorem length_targets_le {modules : List String} {links : List (String × String)}
    (hdst : ∀ link ∈ links, link.2 ∈ modules) {bound : Nat}
    (hbound : ∀ link ∈ links, leaving links link.1 ≤ bound) (n : NodeId) :
    (links.filterMap (target modules n)).length ≤ bound := by
  by_cases h : ∃ link ∈ links, modules.findIdx? (· == link.1) = some n
  · obtain ⟨link, hlink, hn⟩ := h
    exact length_targets hdst hn ▸ hbound link hlink
  · have hnone : links.filterMap (target modules n) = [] := by
      rw [List.filterMap_eq_nil_iff]
      exact fun link hlink => if_neg fun hn => h ⟨link, hlink, hn⟩
    rw [hnone]
    exact Nat.zero_le _

theorem addLinks_isOk {modules : List String} {links : List (String × String)}
    {nodes : List (Node σ)} (hlength : nodes.length = modules.length)
    (hlinks : ∀ link ∈ links, link.1 ∈ modules ∧ link.2 ∈ modules)
    (hroom : ∀ n, (linksOf nodes n).length + (links.filterMap (target modules n)).length ≤ 4) :
    ∃ nodes', addLinks modules nodes links = .ok nodes' := by
  induction links generalizing nodes with
  | nil => exact ⟨nodes, rfl⟩
  | cons link rest ih =>
    obtain ⟨⟨hsrc, hdst⟩, hrest⟩ := List.forall_mem_cons.mp hlinks
    obtain ⟨src, hsrc⟩ := findIdx?_isSome_iff.mpr hsrc
    obtain ⟨dst, hdst⟩ := findIdx?_isSome_iff.mpr hdst
    have hlt : src < nodes.length :=
      hlength ▸ (List.getElem?_eq_some_iff.mp (getElem?_of_findIdx? hsrc)).1
    have hnode : nodes[src]? = some nodes[src] := List.getElem?_eq_getElem hlt
    have htarget (n : NodeId) : ((link :: rest).filterMap (target modules n)) =
        (if src = n then [dst] else []) ++ rest.filterMap (target modules n) := by
      by_cases hn : src = n <;> simp [target, hsrc, hdst, hn]
    have hfree : nodes[src].linksTo.items.length < 4 := by
      have := hroom src
      rw [linksOf_some hnode, htarget, if_pos rfl] at this
      simp only [List.singleton_append, List.length_cons] at this
      omega
    obtain ⟨pushed, hpush⟩ := nodes[src].linksTo.push_isOk dst hfree
    have hadd : addLink nodes src dst =
        .ok (nodes.set src {nodes[src] with linksTo := pushed}) := by
      simp only [addLink, Exec.bind_eq_ok, Exec.pure_eq_ok, unwrap_eq_ok]
      exact ⟨_, hnode, pushed, hpush, rfl⟩
    obtain ⟨nodes', hnodes'⟩ := ih (by rw [addLink_length hadd, hlength]) hrest fun n => by
      have := hroom n
      rw [htarget, List.length_append] at this
      rw [addLink_links hadd, List.length_append]
      omega
    refine ⟨nodes', ?_⟩
    simp only [addLinks, resolve, Exec.bind_eq_ok, unwrap_eq_ok]
    exact ⟨src, hsrc, dst, hdst, _, hadd, hnodes'⟩

theorem addLinks_resolved {modules : List String} {links : List (String × String)}
    {nodes nodes' : List (Node σ)} (h : addLinks modules nodes links = .ok nodes') :
    ∀ link ∈ links, link.1 ∈ modules ∧ link.2 ∈ modules := by
  induction links generalizing nodes with
  | nil => exact fun _ hlink => (nomatch hlink)
  | cons link rest ih =>
    simp only [addLinks, resolve, Exec.bind_eq_ok, unwrap_eq_ok] at h
    obtain ⟨src, hsrc, dst, hdst, mid, _, hrest⟩ := h
    exact List.forall_mem_cons.mpr
      ⟨⟨findIdx?_isSome_iff.mp ⟨src, hsrc⟩, findIdx?_isSome_iff.mp ⟨dst, hdst⟩⟩, ih hrest⟩

/-- What `Graph::new` asks of a configuration. -/
structure Buildable (factory : Factory σ) (config : GraphConfig) : Prop where
  registered : ∀ name ∈ config.modules, (factory name).isSome
  resolved : ∀ link ∈ config.links, link.1 ∈ config.modules ∧ link.2 ∈ config.modules
  /-- `links_to` has room for four -/
  room : ∀ link ∈ config.links, leaving config.links link.1 ≤ 4

/-- A graph is built exactly when its modules are registered, its links are between them, and no
more than four leave one name. -/
theorem new_isOk_iff {id cpu : UInt32} {config : GraphConfig} :
    (∃ g, Graph.new factory id config cpu = .ok g) ↔ Buildable factory config := by
  constructor
  · intro h
    obtain ⟨g, hg⟩ := h
    have hspec := new_spec hg
    simp only [Graph.new, Exec.bind_eq_ok, Exec.pure_eq_ok] at hg
    obtain ⟨nodes, hbuild, nodes', hadd, rfl⟩ := hg
    have hresolved := addLinks_resolved hadd
    refine ⟨buildNodes_isOk_iff.mp ⟨nodes, hbuild⟩, hresolved, fun link hlink => ?_⟩
    obtain ⟨n, hn⟩ := findIdx?_isSome_iff.mpr (hresolved link hlink).1
    have hlt : n < nodes'.length :=
      hspec.1 ▸ (List.getElem?_eq_some_iff.mp (getElem?_of_findIdx? hn)).1
    rw [← length_targets (fun link hlink => (hresolved link hlink).2) hn, ← hspec.2 n,
      linksOf_some (List.getElem?_eq_getElem hlt)]
    exact nodes'[n].linksTo.bound
  · intro h
    obtain ⟨nodes, hbuild⟩ := (@buildNodes_isOk_iff _ factory _ 0).mpr h.registered
    obtain ⟨hlength, hnone⟩ := buildNodes_spec hbuild
    obtain ⟨nodes', hadd⟩ := addLinks_isOk hlength h.resolved fun n => by
      rw [hnone n, List.length_nil, Nat.zero_add]
      exact length_targets_le (fun link hlink => (h.resolved link hlink).2) h.room n
    refine ⟨⟨id, cpu, nodes'⟩, ?_⟩
    simp only [Graph.new, Exec.bind_eq_ok, Exec.pure_eq_ok]
    exact ⟨nodes, hbuild, nodes', hadd, rfl⟩

end Graph

/-! ### From a stack to its workers -/

namespace Engine
variable {σ : Type} (config : ConfigManager) (factory : Graph.Factory σ) (stackName : String)

/-- The graphs of an entry, one for each cpu. The entry's graph is looked up also if there is
none. -/
def entryGraphs (g : GraphEntry) (id : Nat) : Exec (List (Graph σ)) := do
  let graphConfig ← unwrap (config.getGraphConfig g.name)
  g.cpus.mapM fun cpu => Graph.new factory (UInt32.ofNat id) graphConfig cpu

/-- `run`, up to `process_init`. -/
def graphs : Exec (List (Graph σ)) := do
  let stackConfig ← unwrap (config.getStackConfig stackName)
  return (← stackConfig.graphs.zipIdx.mapM fun g => entryGraphs config factory g.1 g.2).flatten

/-- `run_workers`, without the launches. -/
def workers (graphs : List (Graph σ)) : Exec (List (Worker σ)) :=
  graphs.zipIdx.mapM fun g => Worker.new (UInt32.ofNat g.2) stackName g.1.id g.1.nodes g.1.cpu

def boot : Exec (List (Worker σ)) := do
  workers stackName (← graphs config factory stackName)

/-- Every entry's graph is known, and is built and fits a worker if the entry has a cpu. -/
def Bootable (stackConfig : StackConfig) : Prop :=
  ∀ entry ∈ stackConfig.graphs, ∃ graphConfig, config.getGraphConfig entry.name = some graphConfig ∧
    (entry.cpus ≠ [] → Graph.Buildable factory graphConfig ∧ graphConfig.modules.length ≤ 32)

variable {config factory stackName}

/-- A graph made of a place of the plan. -/
def Made (config : ConfigManager) (factory : Graph.Factory σ) (place : GraphEntry × Ports.Graph)
    (g : Graph σ) : Prop :=
  ∃ graphConfig, config.getGraphConfig place.1.name = some graphConfig ∧
    Graph.new factory place.2.id graphConfig place.2.cpu = .ok g

theorem entryGraphs_made {entry : GraphEntry} {id : Nat} {gs : List (Graph σ)}
    (h : entryGraphs config factory entry id = .ok gs) :
    List.Forall₂ (Made config factory)
      (entry.cpus.map fun cpu => (entry, ⟨UInt32.ofNat id, cpu⟩)) gs := by
  simp only [entryGraphs, Exec.bind_eq_ok, unwrap_eq_ok] at h
  obtain ⟨graphConfig, hconfig, hgs⟩ := h
  rw [List.forall₂_map_left_iff]
  exact (Exec.mapM_eq_ok.mp hgs).imp fun cpu g hg => ⟨graphConfig, hconfig, hg⟩

/-- The graphs are those of the plan, in its order. -/
theorem graphs_made {gs : List (Graph σ)} (h : graphs config factory stackName = .ok gs) :
    ∃ stackConfig, config.getStackConfig stackName = some stackConfig ∧
      List.Forall₂ (Made config factory) (plan stackConfig.graphs) gs := by
  simp only [graphs, Exec.bind_eq_ok, Exec.pure_eq_ok, unwrap_eq_ok] at h
  obtain ⟨stackConfig, hstack, gss, hgss, rfl⟩ := h
  refine ⟨stackConfig, hstack, ?_⟩
  rw [plan, List.flatMap_def]
  have hmade := (Exec.mapM_eq_ok.mp hgss).imp fun g gs hgs => entryGraphs_made hgs
  clear hgss
  generalize stackConfig.graphs.zipIdx = entries at hmade
  induction hmade with
  | nil => exact .nil
  | cons hfirst _ ih => exact List.rel_append hfirst ih

theorem entryGraphs_isOk_iff {entry : GraphEntry} {id : Nat} :
    (∃ gs, entryGraphs config factory entry id = .ok gs) ↔
      ∃ graphConfig, config.getGraphConfig entry.name = some graphConfig ∧
        (entry.cpus ≠ [] → Graph.Buildable factory graphConfig) := by
  simp only [entryGraphs, Exec.bind_eq_ok, unwrap_eq_ok]
  rw [exists_comm]
  refine exists_congr fun graphConfig => ?_
  rw [exists_and_left, Exec.mapM_isOk_iff]
  refine and_congr_right fun _ => ?_
  simp only [Graph.new_isOk_iff]
  constructor
  · intro h hne
    obtain ⟨cpu, hcpu⟩ := List.exists_mem_of_ne_nil _ hne
    exact h cpu hcpu
  · intro h cpu hcpu
    exact h (List.ne_nil_of_mem hcpu)

/-- The elements of a list that is gone through with its indices. -/
theorem forall_zipIdx_iff {α : Type} (P : α → Prop) (l : List α) :
    (∀ g ∈ l.zipIdx, P g.1) ↔ ∀ a ∈ l, P a := by
  constructor
  · intro h a ha
    obtain ⟨id, hid⟩ := List.mem_iff_getElem?.mp ha
    exact h (a, id) (List.mk_mem_zipIdx_iff_getElem?.mpr hid)
  · exact fun h g hg => h g.1 (List.fst_mem_of_mem_zipIdx hg)

theorem graphs_isOk_iff :
    (∃ gs, graphs config factory stackName = .ok gs) ↔
      ∃ stackConfig, config.getStackConfig stackName = some stackConfig ∧
        ∀ entry ∈ stackConfig.graphs, ∃ graphConfig,
          config.getGraphConfig entry.name = some graphConfig ∧
            (entry.cpus ≠ [] → Graph.Buildable factory graphConfig) := by
  simp only [graphs, Exec.bind_eq_ok, Exec.pure_eq_ok, unwrap_eq_ok]
  rw [exists_comm]
  refine exists_congr fun stackConfig => ?_
  rw [exists_and_left]
  refine and_congr_right fun _ => ?_
  rw [exists_comm]
  simp only [exists_and_left, exists_eq', and_true, Exec.mapM_isOk_iff, entryGraphs_isOk_iff]
  exact forall_zipIdx_iff (fun entry : GraphEntry => ∃ graphConfig,
    config.getGraphConfig entry.name = some graphConfig ∧
      (entry.cpus ≠ [] → Graph.Buildable factory graphConfig)) _

theorem mem_plan {entries : List GraphEntry} {place : GraphEntry × Ports.Graph}
    (h : place ∈ plan entries) : place.1 ∈ entries ∧ place.2.cpu ∈ place.1.cpus := by
  obtain ⟨g, hg, hcpu⟩ := List.mem_flatMap.mp h
  obtain ⟨cpu, hmem, rfl⟩ := List.mem_map.mp hcpu
  exact ⟨List.fst_mem_of_mem_zipIdx hg, hmem⟩

/-- What holds of the entries that have a cpu, holds of the plan's. -/
theorem plan_forall_iff {P : GraphEntry → Prop} {entries : List GraphEntry} :
    (∀ place ∈ plan entries, P place.1) ↔ ∀ entry ∈ entries, entry.cpus ≠ [] → P entry := by
  constructor
  · intro h entry hentry hne
    obtain ⟨cpu, hcpu⟩ := List.exists_mem_of_ne_nil _ hne
    obtain ⟨id, hid⟩ := List.mem_iff_getElem?.mp hentry
    exact h (entry, ⟨UInt32.ofNat id, cpu⟩) (List.mem_flatMap.mpr
      ⟨(entry, id), List.mk_mem_zipIdx_iff_getElem?.mpr hid, List.mem_map.mpr ⟨cpu, hcpu, rfl⟩⟩)
  · intro h place hplace
    obtain ⟨hentry, hcpu⟩ := mem_plan hplace
    exact h place.1 hentry (List.ne_nil_of_mem hcpu)

/-- The workers are made if every graph fits one. -/
theorem workers_isOk_iff {gs : List (Graph σ)} :
    (∃ ws, workers stackName gs = .ok ws) ↔ ∀ g ∈ gs, g.nodes.length ≤ 32 := by
  have hnew (g : Graph σ) (id : Nat) :
      (∃ w, Worker.new (UInt32.ofNat id) stackName g.id g.nodes g.cpu = .ok w) ↔
        g.nodes.length ≤ 32 := by
    simp only [Worker.new, Exec.bind_eq_ok, Exec.pure_eq_ok]
    rw [exists_comm]
    simp only [exists_and_left, exists_eq', and_true]
    exact ArrayVec.ofList_isOk_iff
  rw [workers, Exec.mapM_isOk_iff]
  simp only [hnew]
  exact forall_zipIdx_iff (fun g => g.nodes.length ≤ 32) gs

/-- What holds on one side of related lists holds on the other. -/
theorem forall_iff_of_forall₂ {α β : Type} {R : α → β → Prop} {P : α → Prop} {Q : β → Prop}
    (hiff : ∀ a b, R a b → (P a ↔ Q b)) {l : List α} {xs : List β} (h : List.Forall₂ R l xs) :
    (∀ a ∈ l, P a) ↔ ∀ b ∈ xs, Q b := by
  induction h with
  | nil => simp
  | cons hab _ ih => rw [List.forall_mem_cons, List.forall_mem_cons, ih, hiff _ _ hab]

theorem exists_mem_of_forall₂ {α β : Type} {R : α → β → Prop} {l : List α} {xs : List β}
    (h : List.Forall₂ R l xs) {b : β} (hb : b ∈ xs) : ∃ a ∈ l, R a b := by
  induction h with
  | nil => cases hb
  | @cons a b' l xs hab _ ih =>
    rcases List.mem_cons.mp hb with rfl | hb
    · exact ⟨a, List.mem_cons_self, hab⟩
    · obtain ⟨a', ha', hrel⟩ := ih hb
      exact ⟨a', List.mem_cons_of_mem _ ha', hrel⟩

/-- The graph of the entry has at most 32 modules. -/
def Fits (config : ConfigManager) (entry : GraphEntry) : Prop :=
  ∃ graphConfig, config.getGraphConfig entry.name = some graphConfig ∧
    graphConfig.modules.length ≤ 32

theorem Made.fits_iff {place : GraphEntry × Ports.Graph} {g : Graph σ}
    (h : Made config factory place g) : Fits config place.1 ↔ g.nodes.length ≤ 32 := by
  obtain ⟨graphConfig, hconfig, hnew⟩ := h
  rw [Fits, hconfig, (Graph.new_spec hnew).1]
  simp

/-- A stack boots if it is known, every entry's graph is known, and the graph of an entry with a cpu
can be built and has at most 32 modules. -/
theorem boot_isOk_iff :
    (∃ ws, boot config factory stackName = .ok ws) ↔
      ∃ stackConfig, config.getStackConfig stackName = some stackConfig ∧
        Bootable config factory stackConfig := by
  have hstages : (∃ ws, boot config factory stackName = .ok ws) ↔
      ∃ gs, graphs config factory stackName = .ok gs ∧ ∀ g ∈ gs, g.nodes.length ≤ 32 := by
    simp only [boot, Exec.bind_eq_ok]
    rw [exists_comm]
    simp only [exists_and_left, workers_isOk_iff]
  rw [hstages]
  constructor
  · intro h
    obtain ⟨gs, hgs, hfits⟩ := h
    obtain ⟨stackConfig, hstack, hknown⟩ := graphs_isOk_iff.mp ⟨gs, hgs⟩
    obtain ⟨stackConfig', hstack', hmade⟩ := graphs_made hgs
    obtain rfl := Option.some.inj (hstack.symm.trans hstack')
    have hplan : ∀ place ∈ plan stackConfig.graphs, Fits config place.1 :=
      (forall_iff_of_forall₂ (fun _ _ h => h.fits_iff) hmade).mpr hfits
    refine ⟨stackConfig, hstack, fun entry hentry => ?_⟩
    obtain ⟨graphConfig, hconfig, hbuild⟩ := hknown entry hentry
    refine ⟨graphConfig, hconfig, fun hne => ⟨hbuild hne, ?_⟩⟩
    obtain ⟨graphConfig', hconfig', hlength⟩ := plan_forall_iff.mp hplan entry hentry hne
    obtain rfl := Option.some.inj (hconfig.symm.trans hconfig')
    exact hlength
  · intro h
    obtain ⟨stackConfig, hstack, hboot⟩ := h
    obtain ⟨gs, hgs⟩ := graphs_isOk_iff.mpr ⟨stackConfig, hstack, fun entry hentry => by
      obtain ⟨graphConfig, hconfig, hbuild⟩ := hboot entry hentry
      exact ⟨graphConfig, hconfig, fun hne => (hbuild hne).1⟩⟩
    obtain ⟨stackConfig', hstack', hmade⟩ := graphs_made hgs
    obtain rfl := Option.some.inj (hstack.symm.trans hstack')
    have hplan : ∀ place ∈ plan stackConfig.graphs, Fits config place.1 := by
      refine plan_forall_iff.mpr fun entry hentry hne => ?_
      obtain ⟨graphConfig, hconfig, hbuild⟩ := hboot entry hentry
      exact ⟨graphConfig, hconfig, (hbuild hne).2⟩
    exact ⟨gs, hgs, (forall_iff_of_forall₂ (fun _ _ h => h.fits_iff) hmade).mp hplan⟩

/-! ### The workers -/

/-- A worker as it is made at a place of the plan. -/
structure Booted (config : ConfigManager) (factory : Graph.Factory σ) (stackName : String)
    (place : (GraphEntry × Ports.Graph) × Nat) (w : Worker σ) : Prop where
  id : w.id = UInt32.ofNat place.2
  graphId : w.graphId = place.1.2.id
  cpu : w.cpu = place.1.2.cpu
  stackName : w.stackName = stackName
  nodesToPoll : w.nodesToPoll.items = []
  nodes : ∃ graphConfig, config.getGraphConfig place.1.1.name = some graphConfig ∧
    w.nodes.items.length = graphConfig.modules.length ∧
    Graph.Built factory graphConfig.modules 0 w.nodes.items ∧
    ∀ n, Graph.linksOf w.nodes.items n =
      graphConfig.links.filterMap (Graph.target graphConfig.modules n)

/-- A worker of its graph, which was made of its place. -/
def FromGraph (config : ConfigManager) (factory : Graph.Factory σ) (stackName : String)
    (place : (GraphEntry × Ports.Graph) × Nat) (w : Worker σ) : Prop :=
  ∃ g, Made config factory place.1 g ∧
    Worker.new (UInt32.ofNat place.2) stackName g.id g.nodes g.cpu = .ok w

theorem FromGraph.booted {place : (GraphEntry × Ports.Graph) × Nat} {w : Worker σ}
    (h : FromGraph config factory stackName place w) : Booted config factory stackName place w := by
  obtain ⟨g, ⟨graphConfig, hconfig, hgraph⟩, hnew⟩ := h
  have hnodes := Worker.new_nodes hnew
  have hpolls := Worker.new_polls hnew
  have hspec := Graph.new_spec hgraph
  have hbuilt := Graph.new_built hgraph
  simp only [Graph.new, Exec.bind_eq_ok, Exec.pure_eq_ok] at hgraph
  obtain ⟨_, _, _, _, rfl⟩ := hgraph
  simp only [Worker.new, Exec.bind_eq_ok, Exec.pure_eq_ok] at hnew
  obtain ⟨_, _, rfl⟩ := hnew
  refine ⟨rfl, rfl, rfl, rfl, hpolls, graphConfig, hconfig, ?_, ?_, ?_⟩
  · rw [hnodes, hspec.1]
  · rwa [hnodes]
  · rw [hnodes]
    exact hspec.2

/-- Related lists are related also with their indices. -/
theorem forall₂_zipIdx {α β : Type} {R : α → β → Prop} {l : List α} {xs : List β}
    (h : List.Forall₂ R l xs) (i : Nat) :
    List.Forall₂ (fun a b => R a.1 b.1 ∧ a.2 = b.2) (l.zipIdx i) (xs.zipIdx i) := by
  induction h generalizing i with
  | nil => exact .nil
  | cons hab _ ih => exact .cons ⟨hab, rfl⟩ (ih (i + 1))

theorem boot_fromGraph {ws : List (Worker σ)} (h : boot config factory stackName = .ok ws) :
    ∃ stackConfig, config.getStackConfig stackName = some stackConfig ∧
      List.Forall₂ (FromGraph config factory stackName) (plan stackConfig.graphs).zipIdx ws := by
  simp only [boot, Exec.bind_eq_ok] at h
  obtain ⟨gs, hgs, hws⟩ := h
  obtain ⟨stackConfig, hstack, hmade⟩ := graphs_made hgs
  refine ⟨stackConfig, hstack, ?_⟩
  have hplaces := forall₂_zipIdx hmade 0
  have hnew := Exec.mapM_eq_ok.mp hws
  generalize (plan stackConfig.graphs).zipIdx = places at hplaces
  generalize gs.zipIdx = gs' at hplaces hnew
  clear hmade hws hgs
  induction hplaces generalizing ws with
  | nil =>
    cases hnew
    exact .nil
  | cons hplace _ ih =>
    cases hnew with
    | cons hw hrest =>
      refine .cons ⟨_, hplace.1, ?_⟩ (ih hrest)
      rw [hplace.2]
      exact hw

/-- The places an entry has in the plan, by its index. -/
theorem countP_places {entries : List GraphEntry} {k i : Nat}
    (hlength : k + entries.length ≤ 2 ^ 32) (hi : i < 2 ^ 32) :
    ((entries.zipIdx k).flatMap fun g => g.1.cpus.map fun _ => UInt32.ofNat g.2).count
        (UInt32.ofNat i) =
      if k ≤ i then ((entries[i - k]?).elim 0 fun entry => entry.cpus.length) else 0 := by
  induction entries generalizing k with
  | nil => simp
  | cons entry rest ih =>
    rw [List.length_cons] at hlength
    have hsame : UInt32.ofNat k = UInt32.ofNat i ↔ k = i := by
      refine ⟨fun h => ?_, fun h => h ▸ rfl⟩
      have htoNat := congrArg UInt32.toNat h
      rw [UInt32.toNat_ofNat', UInt32.toNat_ofNat'] at htoNat
      rwa [Nat.mod_eq_of_lt (by omega), Nat.mod_eq_of_lt hi] at htoNat
    rw [List.zipIdx_cons, List.flatMap_cons, List.count_append, ih (by omega), List.map_const',
      List.count_replicate]
    by_cases hk : k = i
    · subst hk
      simp
    · rw [if_neg (by simpa [hsame] using hk), Nat.zero_add]
      by_cases hle : k + 1 ≤ i
      · rw [if_pos hle, if_pos (by omega), show i - k = i - (k + 1) + 1 by omega,
          List.getElem?_cons_succ]
      · rw [if_neg hle, if_neg (by omega)]

theorem booted_places {entries : List GraphEntry} {ws : List (Worker σ)}
    (h : List.Forall₂ (Booted config factory stackName) (plan entries).zipIdx ws) :
    ws.map (fun w => (w.id, w.graphId, w.cpu)) = (plan entries).zipIdx.map fun place =>
      (UInt32.ofNat place.2, place.1.2.id, place.1.2.cpu) := by
  generalize (plan entries).zipIdx = places at h
  induction h with
  | nil => rfl
  | cons hw _ ih => rw [List.map_cons, List.map_cons, ih, hw.id, hw.graphId, hw.cpu]

/-- What a worker has from its place only, the workers have from the plan. -/
theorem booted_map {α : Type} {f : Worker σ → α} {g : Ports.Graph → α}
    (hfg : ∀ place w, Booted config factory stackName place w → f w = g place.1.2)
    {entries : List GraphEntry} {ws : List (Worker σ)}
    (h : List.Forall₂ (Booted config factory stackName) (plan entries).zipIdx ws) :
    ws.map f = (plan entries).map fun place => g place.2 := by
  have hplan : (plan entries).map (fun place => g place.2) =
      (plan entries).zipIdx.map fun place => g place.1.2 := by
    conv_lhs => rw [← List.zipIdx_map_fst 0 (plan entries), List.map_map]
    rfl
  rw [hplan]
  generalize (plan entries).zipIdx = places at h
  induction h with
  | nil => rfl
  | cons hw _ ih => rw [List.map_cons, List.map_cons, ih, hfg _ _ hw]

theorem booted_graphIds {entries : List GraphEntry} {ws : List (Worker σ)}
    (h : List.Forall₂ (Booted config factory stackName) (plan entries).zipIdx ws) :
    ws.map Worker.graphId =
      entries.zipIdx.flatMap fun g => g.1.cpus.map fun _ => UInt32.ofNat g.2 := by
  have hids : ws.map Worker.graphId = (plan entries).map fun place => place.2.id :=
    booted_map (fun _ _ hw => hw.graphId) h
  rw [hids, plan, List.map_flatMap]
  exact List.flatMap_congr fun g _ => List.map_map

/-- The cpus of the workers are those of the entries. -/
theorem booted_cpus {entries : List GraphEntry} {ws : List (Worker σ)}
    (h : List.Forall₂ (Booted config factory stackName) (plan entries).zipIdx ws) :
    ws.map Worker.cpu = entries.flatMap GraphEntry.cpus := by
  have hcpus : ws.map Worker.cpu = (plan entries).map fun place => place.2.cpu :=
    booted_map (fun _ _ hw => hw.cpu) h
  have hentries : entries.flatMap GraphEntry.cpus = entries.zipIdx.flatMap fun g => g.1.cpus := by
    conv_lhs => rw [← List.zipIdx_map_fst 0 entries, List.flatMap_map]
  rw [hcpus, plan, List.map_flatMap, hentries]
  refine List.flatMap_congr fun g _ => ?_
  rw [List.map_map]
  exact List.map_id _

/-- A worker sets its port up with as many queues as there are workers of its entry. -/
theorem booted_numQueues {stackConfig : StackConfig} {ws : List (Worker σ)}
    (h : List.Forall₂ (Booted config factory stackName) (plan stackConfig.graphs).zipIdx ws)
    (hlength : stackConfig.graphs.length ≤ 2 ^ 32) {w : Worker σ} (hw : w ∈ ws) :
    Ports.numQueues stackConfig ⟨w.graphId, w.cpu⟩ =
      UInt16.ofNat ((ws.map Worker.graphId).count w.graphId) := by
  have hid : w.graphId ∈ ws.map Worker.graphId := List.mem_map_of_mem hw
  rw [booted_graphIds h] at hid ⊢
  obtain ⟨g, hg, hid⟩ := List.mem_flatMap.mp hid
  obtain ⟨cpu, -, hid⟩ := List.mem_map.mp hid
  have hentry := List.mem_zipIdx_iff_getElem?.mp hg
  have hlt : g.2 < 2 ^ 32 := (List.getElem?_eq_some_iff.mp hentry).1.trans_le hlength
  have htoNat : w.graphId.toNat = g.2 := by
    rw [← hid, UInt32.toNat_ofNat', Nat.mod_eq_of_lt hlt]
  rw [Ports.numQueues, htoNat, hentry, ← hid, countP_places (by omega) hlt]
  simp [hentry]

/-- The workers of a stack: one for each cpu of each of its entries. -/
theorem boot_workers {ws : List (Worker σ)} (h : boot config factory stackName = .ok ws) :
    ∃ stackConfig, config.getStackConfig stackName = some stackConfig ∧
      List.Forall₂ (Booted config factory stackName) (plan stackConfig.graphs).zipIdx ws ∧
      (stackConfig.graphs.length ≤ 2 ^ 32 → ∀ w ∈ ws,
        Ports.numQueues stackConfig ⟨w.graphId, w.cpu⟩ =
          UInt16.ofNat ((ws.map Worker.graphId).count w.graphId)) := by
  obtain ⟨stackConfig, hstack, hfrom⟩ := boot_fromGraph h
  have hbooted := hfrom.imp fun _ _ => FromGraph.booted
  exact ⟨stackConfig, hstack, hbooted, fun hlength _ => booted_numQueues hbooted hlength⟩

end Engine

/-! ### A stack on four cpus -/

namespace Sample

def onFourCpus : StackConfig := {udpStack with graphs := [⟨"UDP", [12, 14, 16, 18]⟩]}

def fourCpus : ConfigManager := ⟨[udpGraph], [onFourCpus]⟩

/-- The shipped graph can be built. -/
theorem udpGraph_buildable {τ : Type} (sys : Sys (Instances τ)) (checks : Bool)
    (getStackConfig : String → Option StackConfig) :
    Graph.Buildable (registry sys checks getStackConfig) udpGraph where
  registered name hname := by
    simp only [udpGraph, List.mem_cons, List.not_mem_nil, or_false] at hname
    rcases hname with rfl | rfl | rfl | rfl | rfl | rfl | rfl | rfl <;> rfl
  resolved := by decide
  room := by decide

theorem fourCpus_boots : ∃ ws, Engine.boot fourCpus
    (registry quietCard false fourCpus.getStackConfig) "UDP" = .ok ws := by
  refine Engine.boot_isOk_iff.mpr ⟨onFourCpus, rfl, fun entry hentry => ?_⟩
  obtain rfl := List.mem_singleton.mp hentry
  exact ⟨udpGraph, rfl, fun _ => ⟨udpGraph_buildable .., by decide⟩⟩

end Sample

namespace Engine
variable {σ : Type} {config : ConfigManager} {factory : Graph.Factory σ} {stackName : String}

/-- **Booting a stack**: it gets through exactly if the stack is known, every entry's graph is
known, and the graph of an entry with a cpu can be built and has at most 32 modules. Then there is
one worker for each cpu of each entry, numbered in that order, with the index of the entry for its
graph's id and the modules and links of the graph; and the number of queues it sets its port up with
is that of the workers with its graph's id. -/
theorem boot_spec :
    ((∃ ws, boot config factory stackName = .ok ws) ↔
      ∃ stackConfig, config.getStackConfig stackName = some stackConfig ∧
        Bootable config factory stackConfig) ∧
    ∀ ws, boot config factory stackName = .ok ws →
      ∃ stackConfig, config.getStackConfig stackName = some stackConfig ∧
        List.Forall₂ (Booted config factory stackName) (plan stackConfig.graphs).zipIdx ws ∧
        (stackConfig.graphs.length ≤ 2 ^ 32 → ∀ w ∈ ws,
          Ports.numQueues stackConfig ⟨w.graphId, w.cpu⟩ =
            UInt16.ofNat ((ws.map Worker.graphId).count w.graphId)) :=
  ⟨boot_isOk_iff, fun _ => boot_workers⟩

theorem boot_spec_sample :
    ∃ ws, boot Sample.fourCpus (registry Sample.quietCard false Sample.fourCpus.getStackConfig)
        "UDP" = .ok ws ∧
      ws.map (fun w => (w.id, w.graphId, w.cpu)) =
        [(0, 0, 12), (1, 0, 14), (2, 0, 16), (3, 0, 18)] := by
  obtain ⟨ws, hws⟩ := Sample.fourCpus_boots
  obtain ⟨stackConfig, hstack, hbooted, -⟩ := boot_spec.2 ws hws
  obtain rfl : Sample.onFourCpus = stackConfig := Option.some.inj hstack
  exact ⟨ws, hws, booted_places hbooted⟩

/-- The workers depend on what the lookups find only. -/
theorem boot_lookups {config' : ConfigManager} (h : config'.lookups = config.lookups) :
    boot config' factory stackName = boot config factory stackName := by
  obtain ⟨hgraph, hstack⟩ := Prod.mk.inj h
  simp only [boot, graphs, entryGraphs, hgraph, hstack]

/-- The workers of a stack whose modules are the registered ones. -/
def bootStack {τ : Type} (sys : Sys (Instances τ)) (checks : Bool) (config : ConfigManager)
    (stackName : String) : Exec (List (Worker (Instances τ))) :=
  boot config (registry sys checks config.getStackConfig) stackName

/-- **The order of the files makes no difference to the workers**: where no two of a directory's
files have a type and a name in common, whatever order they are presented in, they load and every
stack boots the same workers. -/
theorem bootStack_reordered {τ J : Type} (json : JsonCrate J) (parse : String → Option J)
    (sys : Sys (Instances τ)) (checks : Bool) {entries entries' : List Entry} {m : ConfigManager}
    (hperm : (filesOf entries).Perm (filesOf entries'))
    (hdistinct : ConfigManager.FilesDistinct json parse checks (filesOf entries))
    (hm : ConfigManager.new.loadDir json parse checks entries = .ok m) :
    ∃ m', ConfigManager.new.loadDir json parse checks entries' = .ok m' ∧
      ∀ stackName, bootStack sys checks m' stackName = bootStack sys checks m stackName := by
  obtain ⟨m', hm', hlookups⟩ := ConfigManager.loadDir_reordered json parse checks hperm hdistinct hm
  refine ⟨m', hm', fun stackName => ?_⟩
  have hstack : m'.getStackConfig = m.getStackConfig := congrArg Prod.snd hlookups
  rw [bootStack, bootStack, hstack]
  exact boot_lookups hlookups

theorem bootStack_reordered_sample :
    ∃ m', ConfigManager.new.loadDir Sample.json Sample.parse true Sample.stackFirst = .ok m' ∧
      ∀ stackName, bootStack Sample.quietCard true m' stackName =
        bootStack Sample.quietCard true Sample.loaded stackName :=
  @bootStack_reordered Unit _ Sample.json Sample.parse Sample.quietCard true
    Sample.graphFirst Sample.stackFirst _ (.swap _ _ _) Sample.files_distinct Sample.loaded_eq

/-- A booted worker that starts is launched on its entry's graph. -/
theorem bootStack_launched {τ : Type} {sys : Sys (Instances τ)} {checks : Bool}
    {ws : List (Worker (Instances τ))} (h : bootStack sys checks config stackName = .ok ws)
    {w₀ w : Worker (Instances τ)} (hw : w₀ ∈ ws) {ctx : Context}
    {world₀ world : World (Instances τ)} (hstart : w₀.start ctx world₀ = .ok (.ok w, world)) :
    ∃ stackConfig, config.getStackConfig stackName = some stackConfig ∧
      ∃ entry ∈ stackConfig.graphs, w₀.cpu ∈ entry.cpus ∧
        ∃ graphConfig, config.getGraphConfig entry.name = some graphConfig ∧
          LaunchedUnder config.getStackConfig sys checks graphConfig ctx world₀ w world := by
  obtain ⟨stackConfig, hstack, hfrom⟩ := boot_fromGraph h
  obtain ⟨place, hplace, g, ⟨graphConfig, hconfig, hgraph⟩, hnew⟩ := exists_mem_of_forall₂ hfrom hw
  obtain ⟨hentry, hcpu⟩ := mem_plan (List.fst_mem_of_mem_zipIdx hplace)
  have hcpu' : w₀.cpu = place.1.2.cpu := (FromGraph.booted ⟨g, ⟨_, hconfig, hgraph⟩, hnew⟩).cpu
  exact ⟨stackConfig, hstack, place.1.1, hentry, hcpu' ▸ hcpu, graphConfig, hconfig,
    _, _, _, _, g, w₀, hgraph, hnew, hstart⟩

end Engine
end OmniStack
