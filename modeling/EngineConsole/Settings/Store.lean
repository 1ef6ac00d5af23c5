import EngineConsole.Disk.Basic
import EngineConsole.Settings.Document
import EngineConsole.Text.Utf8

/-!
# The settings file

Settings in memory and the file they are kept in. A file is saved by writing another beside it and
moving that into its place, so the file itself is never incomplete; a load that fails leaves the
settings in memory as they were.
-/

set_option autoImplicit false

namespace EngineConsole

structure SettingsStore where
  path : String
  settings : Settings := {}
  deriving Repr, DecidableEq

namespace SettingsStore

inductive Problem where
  | missing (path : String)
  | disk
  | malformed
  | unwritable
  deriving Repr, DecidableEq

def Problem.message : Problem → String
  | .missing path => "Settings file not found: " ++ path
  | .disk => "Failed to read settings file"
  | .malformed => "Failed to parse settings"
  | .unwritable => "Failed to serialize settings"

/-- Which steps of a save the disk refuses. -/
structure Refusals where
  create : Bool := false
  write : Bool := false
  rename : Bool := false
  deriving Repr, DecidableEq

def draftPath (store : SettingsStore) : String :=
  Path.withExtension store.path "toml.tmp"

def load (store : SettingsStore) (disk : Disk) : SettingsStore × Except Problem Unit :=
  match disk.found? store.path with
  | none => (store, .error (.missing store.path))
  | some .directory => (store, .error .disk)
  | some (.file bytes) =>
    match Text.decode? bytes with
    | none => (store, .error .disk)
    | some text =>
      match Settings.parse text with
      | none => (store, .error .malformed)
      | some settings => ({ store with settings }, .ok ())

/-- Write the draft and move it into place. A draft whose writing or moving fails stays behind. -/
def replace (store : SettingsStore) (disk : Disk) (refused : Refusals) (bytes : List UInt8) :
    Disk × Except Problem Unit :=
  match disk.makeDirectory (Path.parent store.path) with
  | (disk, false) => (disk, .error .disk)
  | (disk, true) =>
    if refused.create then (disk, .error .disk)
    else
      match disk.write store.draftPath (if refused.write then [] else bytes) with
      | none => (disk, .error .disk)
      | some disk =>
        if refused.write ∨ refused.rename then (disk, .error .disk)
        else
          match disk.rename store.draftPath store.path with
          | none => (disk, .error .disk)
          | some disk => (disk, .ok ())

/-- Save the settings. Nothing is written before the whole document is known. -/
def save (store : SettingsStore) (disk : Disk) (refused : Refusals) :
    Disk × Except Problem Unit :=
  match store.settings.document? with
  | none => (disk, .error .unwritable)
  | some text => store.replace disk refused text.toUTF8.toList

def loadOrCreate (store : SettingsStore) (disk : Disk) (refused : Refusals) :
    SettingsStore × Disk × Except Problem Unit :=
  match disk.found? store.path with
  | some _ =>
    let (store, result) := store.load disk
    (store, disk, result)
  | none =>
    let store := { store with settings := {} }
    let (disk, result) := store.save disk refused
    (store, disk, result)

/-- Where the settings are unless another path is given: below the user's directory for settings,
or where the console runs if the user has no home. The home is that of the account unless another is
named; only an absolute path counts as a directory for settings. -/
def standardPath (home configHome account : Option String) : String :=
  let below (directory : String) : String :=
    Path.join (Path.join directory "clientgen-console") "settings.toml"
  match (home.filter (· ≠ "")).or (account.filter (· ≠ "")), configHome.filter Path.isAbsolute with
  | none, _ => "settings.toml"
  | some _, some directory => below directory
  | some home, none => below (Path.join home ".config")

end SettingsStore

end EngineConsole
