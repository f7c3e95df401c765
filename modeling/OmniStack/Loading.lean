import OmniStack.Config

/-! What a loaded stack configuration says of its text.

Every field is required and its kind checked, but a number is narrowed to its
field's width after the check, and a member that is no array is read as an empty
one. `loads_faithfully_iff` is the condition on the text under which nothing is lost. -/
namespace OmniStack
open Lib

/-- What a JSON value is in the text it was parsed from. -/
structure JsonText {J : Type} (json : JsonCrate J) where
  isArray : J → Bool
  /-- the natural number that is written -/
  written : J → Option Nat
  /-- `as_u32` returns the number written -/
  asU32_written {v : J} {n : UInt32} : json.asU32 v = some n → written v = some n.toNat

section Loading
variable {J : Type} {json : JsonCrate J} (text : JsonText json)

/-! ### The numbers of an entry -/

def NicConfig.Faithful (value : J) (nic : NicConfig) : Prop :=
  text.written (json.member value "port") = some nic.port.toNat

structure Route.Faithful (value : J) (route : Route) : Prop where
  cidr : text.written (json.member value "cidr") = some route.cidr.toNat
  nic : text.written (json.member value "nic") = some route.nic.toNat

def GraphEntry.Faithful (value : J) (entry : GraphEntry) : Prop :=
  List.Forall₂ (fun v (cpu : UInt32) => text.written v = some cpu.toNat)
    (json.members (json.member value "cpus")) entry.cpus

/-- The number written is below the bound. -/
def JsonText.Below (value : J) (key : String) (bound : Nat) : Prop :=
  ∀ n, text.written (json.member value key) = some n → n < bound

variable {text}

theorem jsonRequireValue_eq {value v : J} {key : String}
    (h : jsonRequireValue json value key = .ok v) : v = json.member value key := by
  unfold jsonRequireValue at h
  split at h
  · cases h
  · exact (Except.ok.inj h).symm

theorem jsonAssertNumber_written {value : J} {n : UInt32}
    (h : jsonAssertNumber json value = .ok n) : text.written value = some n.toNat := by
  unfold jsonAssertNumber at h
  split at h
  · exact text.asU32_written (unwrap_eq_ok.mp h)
  · cases h

theorem jsonRequireNumber_written (text : JsonText json) {value : J} {key : String} {n : UInt32}
    (h : jsonRequireNumber json value key = .ok n) :
    text.written (json.member value key) = some n.toNat := by
  simp only [jsonRequireNumber, Exec.bind_eq_ok] at h
  obtain ⟨v, hv, hn⟩ := h
  rw [← jsonRequireValue_eq hv]
  exact jsonAssertNumber_written hn

/-- A narrowed number is the one written if that fits. -/
theorem narrowed_iff (text : JsonText json) (bound : Nat) {value : J} {key : String} {n : UInt32}
    {stored : Nat} (h : jsonRequireNumber json value key = .ok n) (hbound : 0 < bound)
    (hstored : stored = n.toNat % bound) :
    text.written (json.member value key) = some stored ↔ text.Below value key bound := by
  have hwritten := jsonRequireNumber_written text h
  simp only [JsonText.Below, hwritten, Option.some.injEq]
  constructor
  · intro hsame m hm
    rw [← hm, hsame, hstored]
    exact Nat.mod_lt _ hbound
  · intro hlt
    rw [hstored, Nat.mod_eq_of_lt (hlt _ rfl)]

theorem NicConfig.faithful_iff {value : J} {nic : NicConfig}
    (h : NicConfig.fromJson json value = .ok nic) :
    NicConfig.Faithful text value nic ↔ text.Below value "port" (2 ^ 16) := by
  simp only [NicConfig.fromJson, Exec.bind_eq_ok, Exec.pure_eq_ok] at h
  obtain ⟨_, _, port, hport, _, _, _, _, rfl⟩ := h
  exact narrowed_iff text (2 ^ 16) hport (by omega) (by simp)

theorem Route.new_fields {checks : Bool} {ip : Ipv4Addr} {cidr : UInt8} {nic : UInt16}
    {route : Route} (h : Route.new checks ip cidr nic = .ok route) :
    route.cidr = cidr ∧ route.nic = nic := by
  unfold Route.new at h
  split at h
  · simp only [Exec.bind_eq_ok] at h
    obtain ⟨_, hthrow, _⟩ := h
    cases hthrow
  · simp only [Exec.bind_eq_ok, Exec.pure_eq_ok] at h
    obtain ⟨_, _, _, _, rfl⟩ := h
    exact ⟨rfl, rfl⟩

theorem Route.faithful_iff {checks : Bool} {value : J} {route : Route}
    (h : Route.fromJson json checks value = .ok route) :
    Route.Faithful text value route ↔
      text.Below value "cidr" (2 ^ 8) ∧ text.Below value "nic" (2 ^ 16) := by
  simp only [Route.fromJson, Exec.bind_eq_ok] at h
  obtain ⟨_, _, cidr, hcidr, nic, hnic, hnew⟩ := h
  obtain ⟨hc, hn⟩ := Route.new_fields hnew
  have hcidr : _ = some route.cidr.toNat ↔ _ :=
    narrowed_iff text (2 ^ 8) hcidr (by omega) (by simp [hc])
  have hnic : _ = some route.nic.toNat ↔ _ :=
    narrowed_iff text (2 ^ 16) hnic (by omega) (by simp [hn])
  rw [← hcidr, ← hnic]
  exact ⟨fun h => ⟨h.cidr, h.nic⟩, fun h => ⟨h.1, h.2⟩⟩

/-- A cpu number keeps its width. -/
theorem GraphEntry.faithful {value : J} {entry : GraphEntry}
    (h : GraphEntry.fromJson json value = .ok entry) : GraphEntry.Faithful text value entry := by
  simp only [GraphEntry.fromJson, Exec.bind_eq_ok, Exec.pure_eq_ok] at h
  obtain ⟨_, _, cpus, hcpus, ns, hns, rfl⟩ := h
  rw [jsonRequireValue_eq hcpus] at hns
  exact (Exec.mapM_eq_ok.mp hns).imp fun _ _ h => jsonAssertNumber_written h

/-! ### The whole configuration -/

/-- The entries are what the elements are read as, and each says what is written. -/
structure StackConfig.Faithful (text : JsonText json) (checks : Bool) (value : J)
    (config : StackConfig) : Prop where
  nics_array : text.isArray (json.member value "nics") = true
  routes_array : text.isArray (json.member value "routes") = true
  graphs_array : text.isArray (json.member value "graphs") = true
  nics : List.Forall₂
    (fun v nic => NicConfig.fromJson json v = .ok nic ∧ NicConfig.Faithful text v nic)
    (json.members (json.member value "nics")) config.nics
  routes : List.Forall₂
    (fun v route => Route.fromJson json checks v = .ok route ∧ Route.Faithful text v route)
    (json.members (json.member value "routes")) config.routes
  graphs : List.Forall₂
    (fun v entry => GraphEntry.fromJson json v = .ok entry ∧ GraphEntry.Faithful text v entry)
    (json.members (json.member value "graphs")) config.graphs

/-- The lists are arrays, and every number that is narrowed fits. -/
structure StackConfig.Fits (text : JsonText json) (value : J) : Prop where
  nics_array : text.isArray (json.member value "nics") = true
  routes_array : text.isArray (json.member value "routes") = true
  graphs_array : text.isArray (json.member value "graphs") = true
  nics : ∀ v ∈ json.members (json.member value "nics"), text.Below v "port" (2 ^ 16)
  routes : ∀ v ∈ json.members (json.member value "routes"),
    text.Below v "cidr" (2 ^ 8) ∧ text.Below v "nic" (2 ^ 16)

/-- What holds of an entry exactly if something holds of its element. -/
theorem forall₂_and_iff {α β : Type} {R S : α → β → Prop} {P : α → Prop}
    (hiff : ∀ a b, R a b → (S a b ↔ P a)) {l : List α} {xs : List β} (h : List.Forall₂ R l xs) :
    List.Forall₂ (fun a b => R a b ∧ S a b) l xs ↔ ∀ a ∈ l, P a := by
  induction h with
  | nil => simp
  | @cons a b l xs hab _ ih =>
    rw [List.forall₂_cons, List.forall_mem_cons, ih, hiff a b hab, and_iff_right hab]

theorem StackConfig.fromJson_lists {checks : Bool} {value : J} {config : StackConfig}
    (h : StackConfig.fromJson json checks value = .ok config) :
    List.Forall₂ (fun v nic => NicConfig.fromJson json v = .ok nic)
      (json.members (json.member value "nics")) config.nics ∧
    List.Forall₂ (fun v route => Route.fromJson json checks v = .ok route)
      (json.members (json.member value "routes")) config.routes ∧
    List.Forall₂ (fun v entry => GraphEntry.fromJson json v = .ok entry)
      (json.members (json.member value "graphs")) config.graphs := by
  simp only [StackConfig.fromJson, Exec.bind_eq_ok, Exec.pure_eq_ok] at h
  obtain ⟨_, _, nics, hnics, ns, hns, routes, hroutes, rs, hrs, graphs, hgraphs, gs, hgs, rfl⟩ := h
  rw [jsonRequireValue_eq hnics] at hns
  rw [jsonRequireValue_eq hroutes] at hrs
  rw [jsonRequireValue_eq hgraphs] at hgs
  exact ⟨Exec.mapM_eq_ok.mp hns, Exec.mapM_eq_ok.mp hrs, Exec.mapM_eq_ok.mp hgs⟩

/-- **A configuration that loads is the one written** exactly if its lists are arrays and its
numbers fit their fields. -/
theorem StackConfig.loads_faithfully_iff {checks : Bool} {value : J} {config : StackConfig}
    (h : StackConfig.fromJson json checks value = .ok config) :
    StackConfig.Faithful text checks value config ↔ StackConfig.Fits text value := by
  obtain ⟨hnics, hroutes, hgraphs⟩ := StackConfig.fromJson_lists h
  have hn := forall₂_and_iff (S := NicConfig.Faithful text)
    (fun _ _ h => NicConfig.faithful_iff h) hnics
  have hr := forall₂_and_iff (S := Route.Faithful text) (fun _ _ h => Route.faithful_iff h) hroutes
  constructor
  · intro hf
    exact ⟨hf.nics_array, hf.routes_array, hf.graphs_array, hn.mp hf.nics, hr.mp hf.routes⟩
  · intro hf
    refine ⟨hf.nics_array, hf.routes_array, hf.graphs_array, hn.mpr hf.nics, hr.mpr hf.routes, ?_⟩
    exact hgraphs.imp fun _ _ h => ⟨h, GraphEntry.faithful h⟩

end Loading

namespace Sample

def text : JsonText json where
  isArray
    | .arr _ => true
    | _ => false
  written
    | .num n => some n.toNat
    | _ => none
  asU32_written {v n} h := by
    cases v <;> cases h
    rfl

/-- A stack with one card and one route, with these numbers in them. -/
def stackJson (port cidr nic : UInt32) (graphs : Json) : Json :=
  .obj [("name", .str "sample"),
    ("nics", .arr [.obj [("adapter_name", .str "Dpdk"), ("port", .num port),
      ("ipv4", .str "192.168.10.1"), ("netmask", .str "255.255.255.0")]]),
    ("routes", .arr [.obj [("ipv4", .str "10.0.0.0"), ("cidr", .num cidr), ("nic", .num nic)]]),
    ("graphs", graphs)]

end Sample

theorem StackConfig.loads_faithfully_iff_sample :
    ∃ config,
      StackConfig.fromJson Sample.json true (Sample.stackJson 1 8 0 (.arr [])) = .ok config ∧
      (StackConfig.Faithful Sample.text true (Sample.stackJson 1 8 0 (.arr [])) config ↔
        StackConfig.Fits Sample.text (Sample.stackJson 1 8 0 (.arr []))) :=
  ⟨_, rfl, StackConfig.loads_faithfully_iff rfl⟩

/-- Port 65537 is loaded as port 1, a prefix of 264 bits as one of 8 and card 65536 as card 0;
a name where the graphs should be is loaded as no graphs. -/
theorem StackConfig.narrowed_silently :
    (∃ config,
      StackConfig.fromJson Sample.json true (Sample.stackJson 65537 264 65536 (.arr [])) =
        .ok config ∧
      config.nics.map (·.port) = [1] ∧ config.routes.map (fun r => (r.cidr, r.nic)) = [(8, 0)] ∧
      ¬ StackConfig.Faithful Sample.text true (Sample.stackJson 65537 264 65536 (.arr []))
        config) ∧
    ∃ config,
      StackConfig.fromJson Sample.json true (Sample.stackJson 1 8 0 (.str "udp")) = .ok config ∧
      config.graphs.length = 0 ∧
      ¬ StackConfig.Faithful Sample.text true (Sample.stackJson 1 8 0 (.str "udp")) config := by
  refine ⟨⟨_, rfl, rfl, rfl, fun h => ?_⟩, _, rfl, rfl, fun h => ?_⟩
  · cases h.nics with
    | cons hport _ =>
      have : some 65537 = some 1 := hport.2
      exact absurd this (by decide)
  · exact absurd h.graphs_array (by decide)

end OmniStack
