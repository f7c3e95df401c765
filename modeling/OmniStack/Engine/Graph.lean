import OmniStack.Engine

/-! What `Graph.new` builds.

A node's links are, in configuration order, the targets of the configured links
whose source resolves to the node; every target is a node of the graph. A worker
keeps the graph's nodes as they are. -/
namespace OmniStack
open Lib
namespace Graph
variable {σ : Type}

/-- The links of a node; none if there is no such node. -/
def linksOf (nodes : List (Node σ)) (n : NodeId) : List NodeId :=
  match nodes[n]? with
  | some node => node.linksTo.items
  | none => []

theorem linksOf_some {nodes : List (Node σ)} {n : NodeId} {node : Node σ}
    (h : nodes[n]? = some node) : linksOf nodes n = node.linksTo.items := by
  simp [linksOf, h]

/-- The target of a configured link, if its source is node `n`. -/
def target (modules : List String) (n : NodeId) (link : String × String) : Option NodeId :=
  if modules.findIdx? (· == link.1) = some n then modules.findIdx? (· == link.2) else none

theorem addLink_links {nodes nodes' : List (Node σ)} {src dst : NodeId}
    (h : addLink nodes src dst = .ok nodes') (n : NodeId) :
    linksOf nodes' n = linksOf nodes n ++ (if src = n then [dst] else []) := by
  simp only [addLink, Exec.bind_eq_ok, Exec.pure_eq_ok, unwrap_eq_ok] at h
  obtain ⟨node, hnode, links, hpush, rfl⟩ := h
  have hlt : src < nodes.length := (List.getElem?_eq_some_iff.mp hnode).1
  by_cases hn : src = n
  · subst hn
    rw [if_pos rfl, linksOf_some (List.getElem?_set_self hlt), linksOf_some hnode,
      ArrayVec.push_ok hpush]
  · rw [if_neg hn, List.append_nil]
    simp only [linksOf, List.getElem?_set_ne hn]

theorem addLinks_links {modules : List String} {links : List (String × String)}
    {nodes nodes' : List (Node σ)} (h : addLinks modules nodes links = .ok nodes') (n : NodeId) :
    linksOf nodes' n = linksOf nodes n ++ links.filterMap (target modules n) := by
  induction links generalizing nodes with
  | nil =>
    cases h
    simp
  | cons link rest ih =>
    obtain ⟨src, dst⟩ := link
    simp only [addLinks, resolve, Exec.bind_eq_ok, unwrap_eq_ok] at h
    obtain ⟨srcIdx, hsrc, dstIdx, hdst, mid, hmid, hrest⟩ := h
    rw [ih hrest, addLink_links hmid n, List.append_assoc]
    congr 1
    by_cases hn : srcIdx = n
    · simp [target, hsrc, hdst, hn]
    · simp [target, hsrc, hn]

/-- The nodes as built, before any link. -/
theorem buildNodes_spec {factory : Factory σ} {modules : List String} {id : NodeId}
    {nodes : List (Node σ)} (h : buildNodes factory modules id = .ok nodes) :
    nodes.length = modules.length ∧ ∀ n, linksOf nodes n = [] := by
  induction modules generalizing id nodes with
  | nil =>
    cases h
    exact ⟨rfl, fun n => rfl⟩
  | cons name rest ih =>
    simp only [buildNodes, Exec.bind_eq_ok, Exec.pure_eq_ok, unwrap_eq_ok] at h
    obtain ⟨build, _, tail, htail, rfl⟩ := h
    obtain ⟨hlen, hlinks⟩ := ih htail
    refine ⟨by simp [hlen], fun n => ?_⟩
    cases n with
    | zero => rfl
    | succ n => exact hlinks n

theorem addLink_length {nodes nodes' : List (Node σ)} {src dst : NodeId}
    (h : addLink nodes src dst = .ok nodes') : nodes'.length = nodes.length := by
  simp only [addLink, Exec.bind_eq_ok, Exec.pure_eq_ok] at h
  obtain ⟨node, _, links, _, rfl⟩ := h
  exact List.length_set ..

theorem addLinks_length {modules : List String} {links : List (String × String)}
    {nodes nodes' : List (Node σ)} (h : addLinks modules nodes links = .ok nodes') :
    nodes'.length = nodes.length := by
  induction links generalizing nodes with
  | nil =>
    cases h
    rfl
  | cons link rest ih =>
    simp only [addLinks, Exec.bind_eq_ok] at h
    obtain ⟨_, _, _, _, mid, hmid, hrest⟩ := h
    rw [ih hrest, addLink_length hmid]

/-- **What a graph is built to be**: one node a module, and each node's links are the
targets of the configured links that leave it. -/
theorem new_spec {factory : Factory σ} {id : UInt32} {config : GraphConfig} {cpu : UInt32}
    {g : Graph σ} (h : Graph.new factory id config cpu = .ok g) :
    g.nodes.length = config.modules.length ∧
      ∀ n, linksOf g.nodes n = config.links.filterMap (target config.modules n) := by
  simp only [Graph.new, Exec.bind_eq_ok, Exec.pure_eq_ok] at h
  obtain ⟨nodes, hbuild, nodes', hadd, rfl⟩ := h
  obtain ⟨hlen, hnone⟩ := buildNodes_spec hbuild
  refine ⟨by rw [addLinks_length hadd, hlen], fun n => ?_⟩
  rw [addLinks_links hadd, hnone n, List.nil_append]

/-! ### Links counted in the configuration -/

/-- How many configured links go from node `n` to node `m`. -/
def linkCount (config : GraphConfig) (n m : NodeId) : Nat :=
  config.links.countP fun link =>
    decide (config.modules[n]? = some link.1 ∧ config.modules[m]? = some link.2)

/-- With distinct names a module is found at its own index. -/
theorem findIdx?_eq_some_iff {modules : List String} (hnodup : modules.Nodup) (name : String)
    (n : NodeId) : modules.findIdx? (· == name) = some n ↔ modules[n]? = some name := by
  rw [List.findIdx?_eq_some_iff_getElem]
  constructor
  · rintro ⟨hlt, hname, _⟩
    rw [List.getElem?_eq_getElem hlt]
    exact congrArg some (by simpa using hname)
  · intro h
    obtain ⟨hlt, hname⟩ := List.getElem?_eq_some_iff.mp h
    refine ⟨hlt, by simp [hname], fun j hj => ?_⟩
    have hne : modules[j] ≠ modules[n] :=
      List.pairwise_iff_getElem.mp hnodup j n (by omega) hlt hj
    simpa [hname] using hne

theorem count_targets {modules : List String} (hnodup : modules.Nodup)
    (links : List (String × String)) (n m : NodeId) :
    (links.filterMap (target modules n)).count m =
      links.countP fun link => decide (modules[n]? = some link.1 ∧ modules[m]? = some link.2) := by
  induction links with
  | nil => rfl
  | cons link rest ih =>
    have hsrc := findIdx?_eq_some_iff hnodup link.1 n
    have hdst := findIdx?_eq_some_iff hnodup link.2
    rw [List.countP_cons, ← ih]
    by_cases hn : modules[n]? = some link.1
    · cases hd : modules.findIdx? (· == link.2) with
      | none =>
        have : modules[m]? ≠ some link.2 := fun h => by rw [(hdst m).mpr h] at hd; cases hd
        simp [target, hsrc.mpr hn, hd, this]
      | some k =>
        have hk : modules[m]? = some link.2 ↔ k = m := by
          rw [← hdst m, hd, Option.some.injEq]
        simp [target, hsrc.mpr hn, hd, hn, hk, List.count_cons]
    · have hne : modules.findIdx? (· == link.1) ≠ some n := fun h => hn (hsrc.mp h)
      simp [target, hne, hn]

theorem new_count {factory : Factory σ} {id : UInt32} {config : GraphConfig} {cpu : UInt32}
    {g : Graph σ} (h : Graph.new factory id config cpu = .ok g) (hnodup : config.modules.Nodup)
    (n m : NodeId) : (linksOf g.nodes n).count m = linkCount config n m := by
  rw [(new_spec h).2 n, count_targets hnodup]
  rfl

end Graph

/-! ### Workers keep the graph -/

namespace Worker
variable {σ : Type}

theorem new_nodes {id : UInt32} {stackName : String} {graphId : UInt32} {nodes : List (Node σ)}
    {cpu : UInt32} {w : Worker σ} (h : Worker.new id stackName graphId nodes cpu = .ok w) :
    w.nodes.items = nodes := by
  simp only [Worker.new, Exec.bind_eq_ok, Exec.pure_eq_ok] at h
  obtain ⟨v, hv, rfl⟩ := h
  exact ArrayVec.ofList_ok hv

theorem start_nodes {w w' : Worker σ} {ctx : Context} {world world' : World σ}
    (h : w.start ctx world = .ok (.ok w', world')) : w'.nodes = w.nodes := by
  simp only [Worker.start, Exec.bind_eq_ok] at h
  obtain ⟨⟨res, world''⟩, _, h⟩ := h
  cases res with
  | error e => cases h
  | ok toPoll =>
    cases h
    rfl

/-- The nodes whose modules are polled, of a list that starts at index `id`. -/
def pollIds : List (Node σ) → Nat → List Nat
  | [], _ => []
  | node :: rest, id =>
    if node.module.capability.poll then id :: pollIds rest (id + 1) else pollIds rest (id + 1)

theorem mem_pollIds {nodes : List (Node σ)} {id n : Nat} (h : n ∈ pollIds nodes id) :
    id ≤ n ∧ ∃ node, nodes[n - id]? = some node ∧ node.module.capability.poll = true := by
  induction nodes generalizing id with
  | nil => cases h
  | cons node rest ih =>
    have hlater (h : n ∈ pollIds rest (id + 1)) : id ≤ n ∧ ∃ node', (node :: rest)[n - id]? =
        some node' ∧ node'.module.capability.poll = true := by
      obtain ⟨hle, node', hnode', hpoll'⟩ := ih h
      refine ⟨by omega, node', ?_, hpoll'⟩
      rwa [show n - id = n - (id + 1) + 1 by omega, List.getElem?_cons_succ]
    unfold pollIds at h
    split at h
    · rename_i hpoll
      rcases List.mem_cons.mp h with rfl | h
      · exact ⟨Nat.le_refl n, node, by rw [Nat.sub_self]; rfl, hpoll⟩
      · exact hlater h
    · exact hlater h

theorem pollIds_nodup (nodes : List (Node σ)) (id : Nat) : (pollIds nodes id).Nodup := by
  induction nodes generalizing id with
  | nil => exact List.nodup_nil
  | cons node rest ih =>
    unfold pollIds
    split
    · refine List.nodup_cons.mpr ⟨fun h => ?_, ih (id + 1)⟩
      have := (mem_pollIds h).1
      omega
    · exact ih (id + 1)

theorem initNodes_polls {ctx : Context} {nodes : List (Node σ)} {id : NodeId}
    {toPoll toPoll' : ArrayVec NodeId 8} {world world' : World σ}
    (h : initNodes ctx nodes id toPoll world = .ok (.ok toPoll', world')) :
    toPoll'.items = toPoll.items ++ pollIds nodes id := by
  induction nodes generalizing id toPoll world with
  | nil =>
    cases h
    exact (List.append_nil _).symm
  | cons node rest ih =>
    simp only [initNodes, Exec.bind_eq_ok] at h
    obtain ⟨⟨res, mid⟩, _, h⟩ := h
    cases res with
    | error e => cases h
    | ok u =>
      cases u
      dsimp only at h
      unfold pollIds
      split at h
      · cases h
      · split at h
        · rename_i hpoll
          obtain ⟨toPoll₁, hpush, h⟩ := Exec.bind_eq_ok.mp h
          rw [ih h, ArrayVec.push_ok hpush, if_pos hpoll, List.append_assoc]
          rfl
        · rename_i hpoll
          rw [if_neg hpoll]
          exact ih h

/-- A started worker polls its polling nodes, each once a round. -/
theorem start_polls {w₀ w : Worker σ} {ctx : Context} {world₀ world : World σ}
    (h : w₀.start ctx world₀ = .ok (.ok w, world)) :
    w.nodesToPoll.items = w₀.nodesToPoll.items ++ pollIds w₀.nodes.items 0 := by
  simp only [start, Exec.bind_eq_ok] at h
  obtain ⟨⟨res, world'⟩, hinit, h⟩ := h
  cases res with
  | error e => cases h
  | ok toPoll =>
    cases h
    exact initNodes_polls hinit

theorem new_polls {id : UInt32} {stackName : String} {graphId : UInt32} {nodes : List (Node σ)}
    {cpu : UInt32} {w : Worker σ} (h : Worker.new id stackName graphId nodes cpu = .ok w) :
    w.nodesToPoll.items = [] := by
  simp only [Worker.new, Exec.bind_eq_ok, Exec.pure_eq_ok] at h
  obtain ⟨v, _, rfl⟩ := h
  rfl

end Worker
end OmniStack
