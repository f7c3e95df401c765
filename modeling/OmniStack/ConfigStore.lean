import OmniStack.Lib.FirstWins
import OmniStack.Config

/-! The configuration store: what is loaded, and what a lookup finds.

Each of the two stores keeps the first configuration of a name and skips the others, so a
lookup is a lookup in everything that was loaded (`lookups_foldl_add`). Files whose types and
names differ can be presented in any order (`loadDir_reordered`). The parser is a
parameter, like the rest of the JSON library. -/
namespace OmniStack
open Lib

structure ConfigManager where
  graphConfigs : List GraphConfig
  stackConfigs : List StackConfig

/-- What `read_to_string` gives: nothing when the file, or an entry or directory on the way
to it, cannot be read. -/
abbrev FileText := Option String

/-- What a directory walk meets, each directory with its entries in the order `read_dir`
presents them. -/
inductive Entry where
  | file (text : FileText)
  | dir (entries : List Entry)

namespace ConfigManager

def new : ConfigManager := ⟨[], []⟩

def getGraphConfig (self : ConfigManager) (name : String) : Option GraphConfig :=
  self.graphConfigs.find? fun g => g.name == name

def getStackConfig (self : ConfigManager) (name : String) : Option StackConfig :=
  self.stackConfigs.find? fun g => g.name == name

section Loading
variable {J : Type} (json : JsonCrate J) (parse : String → Option J) (checks : Bool)

/-- A duplicate and an unknown type are only logged. -/
def loadFile (self : ConfigManager) (path : FileText) : Exec ConfigManager := do
  let config ← unwrap path
  let config ← unwrap (parse config)
  let configType ← jsonRequireStr json config "type"
  if configType = "Graph" then
    let graphConfig ← GraphConfig.fromJson json config
    if (self.getGraphConfig graphConfig.name).isSome then return self
    return {self with graphConfigs := self.graphConfigs ++ [graphConfig]}
  else if configType = "Stack" then
    let stackConfig ← StackConfig.fromJson json checks config
    if (self.getStackConfig stackConfig.name).isSome then return self
    return {self with stackConfigs := self.stackConfigs ++ [stackConfig]}
  else return self

def loadFiles (self : ConfigManager) (paths : List FileText) : Exec ConfigManager :=
  paths.foldlM (loadFile json parse checks) self

mutual

def loadEntry (self : ConfigManager) : Entry → Exec ConfigManager
  | .file path => self.loadFile json parse checks path
  | .dir entries => self.loadDir entries

def loadDir (self : ConfigManager) : List Entry → Exec ConfigManager
  | [] => .ok self
  | entry :: rest => do (← self.loadEntry entry).loadDir rest

end

end Loading
end ConfigManager

/-! ### What a file holds -/

inductive Loaded where
  | graph (config : GraphConfig)
  | stack (config : StackConfig)
  | invalid

namespace Loaded

def graph? : Loaded → Option GraphConfig
  | graph config => some config
  | _ => none

def stack? : Loaded → Option StackConfig
  | stack config => some config
  | _ => none

end Loaded

mutual

/-- The files a walk meets, in order. -/
def Entry.files : Entry → List FileText
  | .file text => [text]
  | .dir entries => filesOf entries

def filesOf : List Entry → List FileText
  | [] => []
  | entry :: rest => entry.files ++ filesOf rest

end

namespace ConfigManager
section Loading
variable {J : Type} (json : JsonCrate J) (parse : String → Option J) (checks : Bool)

def parseFile (path : FileText) : Exec Loaded := do
  let config ← unwrap path
  let config ← unwrap (parse config)
  let configType ← jsonRequireStr json config "type"
  if configType = "Graph" then return .graph (← GraphConfig.fromJson json config)
  else if configType = "Stack" then return .stack (← StackConfig.fromJson json checks config)
  else return .invalid

def add (self : ConfigManager) : Loaded → ConfigManager
  | .graph config =>
    {self with graphConfigs := FirstWins.insert GraphConfig.name self.graphConfigs config}
  | .stack config =>
    {self with stackConfigs := FirstWins.insert StackConfig.name self.stackConfigs config}
  | .invalid => self

theorem skip_duplicate_graph (self : ConfigManager) (config : GraphConfig) :
    (if (self.getGraphConfig config.name).isSome then .ok self
      else .ok {self with graphConfigs := self.graphConfigs ++ [config]} : Exec ConfigManager) =
      .ok (self.add (.graph config)) := by
  by_cases hthere : (self.getGraphConfig config.name).isSome
  · have hskip : FirstWins.insert GraphConfig.name self.graphConfigs config = self.graphConfigs :=
      if_pos hthere
    rw [if_pos hthere, add, hskip]
  · have hnew : FirstWins.insert GraphConfig.name self.graphConfigs config =
        self.graphConfigs ++ [config] := if_neg hthere
    rw [if_neg hthere, add, hnew]

theorem skip_duplicate_stack (self : ConfigManager) (config : StackConfig) :
    (if (self.getStackConfig config.name).isSome then .ok self
      else .ok {self with stackConfigs := self.stackConfigs ++ [config]} : Exec ConfigManager) =
      .ok (self.add (.stack config)) := by
  by_cases hthere : (self.getStackConfig config.name).isSome
  · have hskip : FirstWins.insert StackConfig.name self.stackConfigs config = self.stackConfigs :=
      if_pos hthere
    rw [if_pos hthere, add, hskip]
  · have hnew : FirstWins.insert StackConfig.name self.stackConfigs config =
        self.stackConfigs ++ [config] := if_neg hthere
    rw [if_neg hthere, add, hnew]

/-- Whether a file loads does not depend on what is loaded already. -/
theorem loadFile_eq (self : ConfigManager) (path : FileText) :
    self.loadFile json parse checks path =
      do return self.add (← parseFile json parse checks path) := by
  unfold loadFile parseFile
  cases unwrap path with
  | error e => rfl
  | ok text =>
    cases hparse : unwrap (parse text) with
    | error e => simp only [Exec.ok_bind, hparse]; rfl
    | ok config =>
      cases htype : jsonRequireStr json config "type" with
      | error e => simp only [Exec.ok_bind, hparse, htype]; rfl
      | ok configType =>
        simp only [Exec.ok_bind, hparse, htype]
        split
        · cases GraphConfig.fromJson json config with
          | error e => rfl
          | ok graphConfig => exact skip_duplicate_graph self graphConfig
        · split
          · cases StackConfig.fromJson json checks config with
            | error e => rfl
            | ok stackConfig => exact skip_duplicate_stack self stackConfig
          · rfl

theorem loadFile_eq_ok {self m : ConfigManager} {path : FileText} :
    self.loadFile json parse checks path = .ok m ↔
      ∃ l, parseFile json parse checks path = .ok l ∧ self.add l = m := by
  rw [loadFile_eq, Exec.bind_eq_ok]
  simp only [Exec.pure_eq_ok]

/-- A run of loads is a run of parses, then the stores keep the first of each name. -/
theorem loadFiles_eq_ok {self m : ConfigManager} {paths : List FileText} :
    self.loadFiles json parse checks paths = .ok m ↔
      ∃ loaded, paths.mapM (parseFile json parse checks) = .ok loaded ∧
        loaded.foldl add self = m := by
  induction paths generalizing self with
  | nil =>
    rw [loadFiles, List.foldlM_nil, List.mapM_nil]
    constructor
    · intro h
      exact ⟨[], rfl, Exec.pure_eq_ok.mp h⟩
    · intro h
      obtain ⟨loaded, hloaded, hm⟩ := h
      cases hloaded
      exact Exec.pure_eq_ok.mpr hm
  | cons path rest ih =>
    have hstep (s : ConfigManager) : rest.foldlM (loadFile json parse checks) s = .ok m ↔ _ := ih
    rw [loadFiles, List.foldlM_cons, List.mapM_cons, Exec.bind_eq_ok]
    simp only [Exec.bind_eq_ok, Exec.pure_eq_ok, loadFile_eq_ok, hstep]
    constructor
    · intro h
      obtain ⟨_, ⟨l, hl, rfl⟩, loaded, hloaded, hm⟩ := h
      exact ⟨l :: loaded, ⟨l, hl, loaded, hloaded, rfl⟩, hm⟩
    · intro h
      obtain ⟨_, ⟨l, hl, loaded, hloaded, rfl⟩, hm⟩ := h
      exact ⟨_, ⟨l, hl, rfl⟩, loaded, hloaded, hm⟩

theorem foldl_add (loaded : List Loaded) (self : ConfigManager) :
    loaded.foldl add self =
      ⟨(loaded.filterMap Loaded.graph?).foldl (FirstWins.insert GraphConfig.name) self.graphConfigs,
        (loaded.filterMap Loaded.stack?).foldl (FirstWins.insert StackConfig.name)
          self.stackConfigs⟩ := by
  induction loaded generalizing self with
  | nil => rfl
  | cons l rest ih =>
    rw [List.foldl_cons, ih]
    cases l <;> rfl

theorem loadFiles_append (self : ConfigManager) (a b : List FileText) :
    self.loadFiles json parse checks (a ++ b) =
      self.loadFiles json parse checks a >>= fun m => m.loadFiles json parse checks b :=
  List.foldlM_append

/-- A walk loads the files it meets, in order. -/
theorem loadDir_eq (entries : List Entry) (self : ConfigManager) :
    self.loadDir json parse checks entries =
      self.loadFiles json parse checks (filesOf entries) := by
  apply @Entry.rec_1
    (fun entry => ∀ self : ConfigManager,
      self.loadEntry json parse checks entry = self.loadFiles json parse checks entry.files)
    (fun entries => ∀ self : ConfigManager, self.loadDir json parse checks entries =
      self.loadFiles json parse checks (filesOf entries))
  · intro text self
    rw [loadEntry, Entry.files, loadFiles, List.foldlM_cons]
    exact (bind_pure _).symm
  · intro entries ih self
    rw [loadEntry, Entry.files]
    exact ih self
  · intro self
    rw [loadDir]
    rfl
  · intro entry rest ihentry ihrest self
    rw [loadDir, filesOf, loadFiles_append, ihentry]
    exact congrArg _ (funext fun m => ihrest m)

/-! ### What lookups find -/

/-- What the two lookups find, over every name. -/
def lookups (self : ConfigManager) :
    (String → Option GraphConfig) × (String → Option StackConfig) :=
  (self.getGraphConfig, self.getStackConfig)

/-- Lookups in a store and in what was loaded after it, of each type the first of a name. -/
def firstOf (self : ConfigManager) (loaded : List Loaded) :
    (String → Option GraphConfig) × (String → Option StackConfig) :=
  (FirstWins.find GraphConfig.name (self.graphConfigs ++ loaded.filterMap Loaded.graph?),
    FirstWins.find StackConfig.name (self.stackConfigs ++ loaded.filterMap Loaded.stack?))

theorem lookups_foldl_add (loaded : List Loaded) (self : ConfigManager) :
    (loaded.foldl add self).lookups = self.firstOf loaded := by
  rw [foldl_add]
  apply Prod.ext
  · funext name
    exact FirstWins.find_foldl_insert GraphConfig.name _ _ name
  · funext name
    exact FirstWins.find_foldl_insert StackConfig.name _ _ name

/-- No two configurations of one store share a name. -/
structure NamesDistinct (m : ConfigManager) : Prop where
  graphNames : (m.graphConfigs.map GraphConfig.name).Nodup
  stackNames : (m.stackConfigs.map StackConfig.name).Nodup

theorem foldl_add_distinct {self : ConfigManager} (h : self.NamesDistinct) (loaded : List Loaded) :
    (loaded.foldl add self).NamesDistinct := by
  rw [foldl_add]
  exact ⟨FirstWins.foldl_insert_nodup _ _ h.graphNames,
    FirstWins.foldl_insert_nodup _ _ h.stackNames⟩

/-- What was found before is found still. -/
structure Keeps (m later : ConfigManager) : Prop where
  graph : ∀ name config, m.getGraphConfig name = some config →
    later.getGraphConfig name = some config
  stack : ∀ name config, m.getStackConfig name = some config →
    later.getStackConfig name = some config

theorem foldl_add_keeps (self : ConfigManager) (loaded : List Loaded) :
    self.Keeps (loaded.foldl add self) := by
  have hlookups := lookups_foldl_add loaded self
  constructor
  · intro name config h
    have hgraph := congrFun (congrArg Prod.fst hlookups) name
    calc (loaded.foldl add self).getGraphConfig name
        = (self.getGraphConfig name).or
            (FirstWins.find GraphConfig.name (loaded.filterMap Loaded.graph?) name) :=
          hgraph.trans (FirstWins.find_append ..)
      _ = some config := by rw [h, Option.some_or]
  · intro name config h
    have hstack := congrFun (congrArg Prod.snd hlookups) name
    calc (loaded.foldl add self).getStackConfig name
        = (self.getStackConfig name).or
            (FirstWins.find StackConfig.name (loaded.filterMap Loaded.stack?) name) :=
          hstack.trans (FirstWins.find_append ..)
      _ = some config := by rw [h, Option.some_or]

/-- The files' types and names are pairwise distinct. Of a file with another type nothing is
asked. -/
def FilesDistinct (paths : List FileText) : Prop :=
  ∀ loaded, paths.mapM (parseFile json parse checks) = .ok loaded →
    ((loaded.filterMap Loaded.graph?).map GraphConfig.name).Nodup ∧
      ((loaded.filterMap Loaded.stack?).map StackConfig.name).Nodup

/-- Another order of distinct files makes no difference to the lookups. -/
theorem firstOf_perm {loaded loaded' : List Loaded} (h : loaded.Perm loaded')
    (hgraphs : ((loaded.filterMap Loaded.graph?).map GraphConfig.name).Nodup)
    (hstacks : ((loaded.filterMap Loaded.stack?).map StackConfig.name).Nodup)
    (self : ConfigManager) : self.firstOf loaded = self.firstOf loaded' := by
  apply Prod.ext
  · funext name
    simp only [firstOf, FirstWins.find_append]
    rw [FirstWins.find_perm GraphConfig.name (h.filterMap _) hgraphs name]
  · funext name
    simp only [firstOf, FirstWins.find_append]
    rw [FirstWins.find_perm StackConfig.name (h.filterMap _) hstacks name]

theorem loadDir_reordered {self m : ConfigManager} {entries entries' : List Entry}
    (hperm : (filesOf entries).Perm (filesOf entries'))
    (hdistinct : FilesDistinct json parse checks (filesOf entries))
    (hm : self.loadDir json parse checks entries = .ok m) :
    ∃ m', self.loadDir json parse checks entries' = .ok m' ∧ m'.lookups = m.lookups := by
  rw [loadDir_eq, loadFiles_eq_ok] at hm
  obtain ⟨loaded, hloaded, rfl⟩ := hm
  obtain ⟨loaded', hloaded', hperm'⟩ := Exec.mapM_perm hperm hloaded
  obtain ⟨hgraphs, hstacks⟩ := hdistinct loaded hloaded
  refine ⟨loaded'.foldl add self, ?_, ?_⟩
  · rw [loadDir_eq, loadFiles_eq_ok]
    exact ⟨loaded', hloaded', rfl⟩
  · rw [lookups_foldl_add, lookups_foldl_add]
    exact (firstOf_perm hperm' hgraphs hstacks self).symm

/-- **The store**: after any loads from the start no name is there twice and a lookup finds
the first loaded; later loads change no lookup that found something; files of distinct
types and names can be walked in any order. -/
theorem first_loaded_stays :
    (∀ paths m, new.loadFiles json parse checks paths = .ok m → m.NamesDistinct ∧
      ∃ loaded, paths.mapM (parseFile json parse checks) = .ok loaded ∧
        m.lookups = new.firstOf loaded) ∧
      (∀ (self : ConfigManager) paths m, self.loadFiles json parse checks paths = .ok m →
        self.Keeps m) ∧
      (∀ (self : ConfigManager) m entries entries',
        (filesOf entries).Perm (filesOf entries') →
        FilesDistinct json parse checks (filesOf entries) →
        self.loadDir json parse checks entries = .ok m →
        ∃ m', self.loadDir json parse checks entries' = .ok m' ∧ m'.lookups = m.lookups) := by
  refine ⟨?_, ?_, ?_⟩
  · intro paths m h
    obtain ⟨loaded, hloaded, rfl⟩ := (loadFiles_eq_ok json parse checks).mp h
    have hnew : new.NamesDistinct := ⟨List.nodup_nil, List.nodup_nil⟩
    exact ⟨foldl_add_distinct hnew loaded, loaded, hloaded, lookups_foldl_add loaded new⟩
  · intro self paths m h
    obtain ⟨loaded, hloaded, rfl⟩ := (loadFiles_eq_ok json parse checks).mp h
    exact foldl_add_keeps self loaded
  · intro self m entries entries' hperm hdistinct hm
    exact loadDir_reordered json parse checks hperm hdistinct hm

end Loading
end ConfigManager

/-! ### Two files, one in a directory -/

namespace Sample

def graphText : String :=
  "\x7b\"type\": \"Graph\", \"name\": \"udp\", \"modules\": [\"UdpSender\"], \"links\": []\x7d"

def stackText : String :=
  "\x7b\"type\": \"Stack\", \"name\": \"udp\", \"nics\": [], \"routes\": [], \"graphs\": []\x7d"

def parse (text : String) : Option Json :=
  if text = graphText then some (.obj [("type", .str "Graph"), ("name", .str "udp"),
    ("modules", .arr [.str "UdpSender"]), ("links", .arr [])])
  else if text = stackText then some (.obj [("type", .str "Stack"), ("name", .str "udp"),
    ("nics", .arr []), ("routes", .arr []), ("graphs", .arr [])])
  else none

def graphFirst : List Entry := [.file (some graphText), .dir [.file (some stackText)]]

def stackFirst : List Entry := [.dir [.file (some stackText)], .file (some graphText)]

def loaded : ConfigManager :=
  ⟨[⟨"udp", ["UdpSender"], []⟩], [⟨"udp", [], [], []⟩]⟩

theorem loaded_eq : ConfigManager.new.loadDir json parse true graphFirst = .ok loaded := by
  rw [ConfigManager.loadDir_eq]
  rfl

theorem files_distinct : ConfigManager.FilesDistinct json parse true (filesOf graphFirst) := by
  intro loaded h
  have hparsed : (filesOf graphFirst).mapM (ConfigManager.parseFile json parse true) =
      .ok [.graph ⟨"udp", ["UdpSender"], []⟩, .stack ⟨"udp", [], [], []⟩] := rfl
  rw [hparsed] at h
  cases h
  exact ⟨List.nodup_singleton _, List.nodup_singleton _⟩

end Sample

theorem first_loaded_stays_sample :
    ∃ m', ConfigManager.new.loadDir Sample.json Sample.parse true Sample.stackFirst = .ok m' ∧
      m'.lookups = Sample.loaded.lookups :=
  (ConfigManager.first_loaded_stays Sample.json Sample.parse true).2.2 .new Sample.loaded
    Sample.graphFirst Sample.stackFirst (.swap _ _ _) Sample.files_distinct Sample.loaded_eq

end OmniStack
