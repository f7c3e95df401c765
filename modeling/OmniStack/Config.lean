import OmniStack.Protocol

/-! Graph and stack configurations, as read from JSON.

The JSON library is a parameter: `JsonCrate J` is what the loader uses of it. A
missing or ill-typed field panics; numbers are narrowed to the field's width. -/
namespace OmniStack
open Lib

/-- What the loader asks of a JSON value. -/
structure JsonCrate (J : Type) where
  /-- `value[key]`, null when there is no such member -/
  member : J → String → J
  /-- `value[i]` -/
  item : J → Nat → J
  members : J → List J
  isNull : J → Bool
  isNumber : J → Bool
  isString : J → Bool
  asU32 : J → Option UInt32
  asStr : J → Option String

structure GraphConfig where
  name : String
  modules : List String
  links : List (String × String)
  deriving DecidableEq

structure GraphEntry where
  name : String
  cpus : List UInt32

structure NicConfig where
  adapterName : String
  port : UInt16
  ipv4 : Ipv4Addr
  netmask : Ipv4Addr

structure StackConfig where
  name : String
  nics : List NicConfig
  routes : List Route
  graphs : List GraphEntry

/-- `Option::unwrap` and `Result::unwrap` -/
def unwrap {α : Type} : Option α → Exec α
  | some a => .ok a
  | none => .error .panic

@[simp] theorem unwrap_eq_ok {α : Type} {o : Option α} {a : α} : unwrap o = .ok a ↔ o = some a := by
  cases o with
  | none => exact ⟨fun h => (nomatch h), fun h => (nomatch h)⟩
  | some b => exact ⟨fun h => by cases h; rfl, fun h => by cases h; rfl⟩

section Loading
variable {J : Type} (json : JsonCrate J)

def jsonRequireValue (value : J) (key : String) : Exec J :=
  if json.isNull (json.member value key) then .error .panic else .ok (json.member value key)

def jsonAssertNumber (value : J) : Exec UInt32 :=
  if json.isNumber value then unwrap (json.asU32 value) else .error .panic

def jsonRequireNumber (value : J) (key : String) : Exec UInt32 := do
  jsonAssertNumber json (← jsonRequireValue json value key)

def jsonAssertStr (value : J) : Exec String :=
  if json.isString value then unwrap (json.asStr value) else .error .panic

def jsonRequireStr (value : J) (key : String) : Exec String := do
  jsonAssertStr json (← jsonRequireValue json value key)

/-- `json_require_str(value, key).parse::<Ipv4Addr>().unwrap()` -/
def jsonRequireIpv4 (value : J) (key : String) : Exec Ipv4Addr := do
  match ← Ipv4Addr.fromStr (← jsonRequireStr json value key) with
  | .ok a => return a
  | .error _ => throw .panic

def GraphConfig.fromJson (value : J) : Exec GraphConfig := do
  return {
    name := ← jsonRequireStr json value "name"
    modules := ← (json.members (← jsonRequireValue json value "modules")).mapM (jsonAssertStr json)
    links := ← (json.members (← jsonRequireValue json value "links")).mapM fun l => do
      return (← jsonAssertStr json (json.item l 0), ← jsonAssertStr json (json.item l 1)) }

def GraphEntry.fromJson (value : J) : Exec GraphEntry := do
  return {
    name := ← jsonRequireStr json value "name"
    cpus := ← (json.members (← jsonRequireValue json value "cpus")).mapM (jsonAssertNumber json) }

def NicConfig.fromJson (value : J) : Exec NicConfig := do
  return {
    adapterName := ← jsonRequireStr json value "adapter_name"
    port := (← jsonRequireNumber json value "port").toUInt16
    ipv4 := ← jsonRequireIpv4 json value "ipv4"
    netmask := ← jsonRequireIpv4 json value "netmask" }

def Route.fromJson (checks : Bool) (value : J) : Exec Route := do
  Route.new checks (← jsonRequireIpv4 json value "ipv4")
    (← jsonRequireNumber json value "cidr").toUInt8
    (← jsonRequireNumber json value "nic").toUInt16

def StackConfig.fromJson (checks : Bool) (value : J) : Exec StackConfig := do
  return {
    name := ← jsonRequireStr json value "name"
    nics := ← (json.members (← jsonRequireValue json value "nics")).mapM (NicConfig.fromJson json)
    routes := ←
      (json.members (← jsonRequireValue json value "routes")).mapM (Route.fromJson json checks)
    graphs := ←
      (json.members (← jsonRequireValue json value "graphs")).mapM (GraphEntry.fromJson json) }

end Loading

namespace Sample

/-- JSON values, for sample configurations. -/
inductive Json where
  | null
  | num (n : UInt32)
  | str (s : String)
  | arr (items : List Json)
  | obj (fields : List (String × Json))

def json : JsonCrate Json where
  member
    | .obj fields, key => (fields.lookup key).getD .null
    | _, _ => .null
  item
    | .arr items, i => items[i]?.getD .null
    | _, _ => .null
  members
    | .arr items => items
    | _ => []
  isNull
    | .null => true
    | _ => false
  isNumber
    | .num _ => true
    | _ => false
  isString
    | .str _ => true
    | _ => false
  asU32
    | .num n => some n
    | _ => none
  asStr
    | .str s => some s
    | _ => none

end Sample
end OmniStack
