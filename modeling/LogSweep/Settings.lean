-- Settings: what a project's files say about targets, strategy and paths, and where they stand.
import LogSweep.Data.Json
import LogSweep.Data.Toml
import LogSweep.FileTree
import LogSweep.Strategy
import LogSweep.Target

namespace LogSweep

open Data (Value)

/-- What a user has settled in a file. What is not settled is left to the defaults. -/
structure Settings where
  paths : Option (List String)
  methods : Option (List String)
  targets : Option (List String)
  strategy : Option String
  removeSemicolon : Option Bool
  excluded : Option (List String)
  included : Option (List String)
  extensions : Option (List String)
  deriving DecidableEq, Repr

namespace Settings

def unset : Settings := ⟨none, none, none, none, none, none, none, none⟩

/-- The targets that are settled: those listed, or each method on each path. -/
def targetSet (s : Settings) : Except InvalidTarget TargetSet :=
  match s.targets with
  | some texts => TargetSet.parseList texts
  | none =>
    .ok (.cross (s.paths.getD TargetSet.defaultPaths) (s.methods.getD TargetSet.defaultMethods))

def chosenStrategy (s : Settings) : Except UnknownStrategy (Option Strategy) :=
  match s.strategy with
  | some text => (Strategy.parse text).map some
  | none => .ok none

/-! ## Reading -/

/-- The value under one of some keys, none of which may occur twice in all. -/
def only? (fields : List (String × Value)) (keys : List String) : Option (Option Value) :=
  match fields.filter (fun f => keys.contains f.1) with
  | [] => some none
  | [f] => some (some f.2)
  | _ => none

/-- Reads a field that may be missing or null. -/
def optionally {α : Type} (read : Value → Option α) : Option Value → Option (Option α)
  | none => some none
  | some .null => some none
  | some v => (read v).map some

/-- Reads the fields in the order of the structure. -/
def ofFields? (fields : List (Option Value)) : Option Settings :=
  match fields with
  | [paths, methods, targets, strategy, semicolon, excluded, included, extensions] => do
    return {
      paths := ← optionally Value.texts? paths
      methods := ← optionally Value.texts? methods
      targets := ← optionally Value.texts? targets
      strategy := ← optionally Value.text? strategy
      removeSemicolon := ← optionally Value.bool? semicolon
      excluded := ← optionally Value.texts? excluded
      included := ← optionally Value.texts? included
      extensions := ← optionally Value.texts? extensions }
  | _ => none

/-- The keys of the fields, in the order of the structure. -/
def keys : List (List String) :=
  [["namespaces"], ["methods"], ["targets"], ["strategy"],
    ["remove_semicolon", "removeSemicolonIfPossible"], ["exclude_folders"], ["include_folders"],
    ["extensions"]]

/-- Reads settings from a table, where other keys do not count, or from a list of all fields in
order. -/
def ofValue? : Value → Option Settings
  | .table fields => do ofFields? (← keys.mapM (only? fields))
  | .list items => ofFields? (items.map some)
  | _ => none

/-- The name of the table that holds the settings. -/
def tableName : String := "delog"

/-- Reads a settings file. Without the table nothing is settled, and a list may go on past the
last field. -/
def ofSettingsFile? (text : String) : Option Settings :=
  match Data.Toml.parse? text with
  | some (.table fields) => do
    match ← only? fields [tableName] with
    | some (.list items) => ofFields? ((items.take keys.length).map some)
    | some v => ofValue? v
    | none => return unset
  | _ => none

/-- Reads the settings in a package's manifest, which has to hold them. -/
def ofManifest? (text : String) : Option Settings :=
  match Data.Json.parse? text with
  | some (.table fields) => do ofValue? (← (← only? fields [tableName]))
  | some (.list [v]) => ofValue? v
  | _ => none

/-! ## Searching -/

/-- The name of a settings file. -/
def fileName : String := ".delog.toml"

/-- The name of a package's manifest. -/
def manifestName : String := "package.json"

end Settings

/-- The settings in force, and the file they come from, if any. -/
structure LoadedSettings where
  settings : Settings
  file : Option Path
  deriving DecidableEq, Repr

namespace FileTree

/-- Settings from a file, when it is there, is a text and is accepted. -/
def settingsAt (t : FileTree) (read : String → Option Settings) (file : Path) :
    Option LoadedSettings :=
  match t.readText file with
  | .ok text => (read text).map (fun s => ⟨s, some file⟩)
  | .error _ => none

/-- The settings that stand in a directory. A settings file goes before a manifest. -/
def settingsIn (t : FileTree) (directory : Path) : Option LoadedSettings :=
  (t.settingsAt Settings.ofSettingsFile? (directory.join ⟨[Settings.fileName]⟩)).or
    (t.settingsAt Settings.ofManifest? (directory.join ⟨[Settings.manifestName]⟩))

/-- The directory in which the search for settings starts. -/
def searchStart (t : FileTree) (p : Path) : Path :=
  let directory := if t.isFile p then p.parent?.getD p else p
  match t.canonical directory with
  | .ok absolute => absolute
  | .error _ => directory

/-- The settings for a path: those of the nearest directory, from its own upwards. -/
def loadSettings (t : FileTree) (p : Path) : LoadedSettings :=
  ((t.searchStart p).ancestors.findSome? t.settingsIn).getD ⟨.unset, none⟩

end FileTree

end LogSweep
