import EngineConsole.Catalog
import EngineConsole.Config.Basic
import EngineConsole.Form.Field
import EngineConsole.Text.Quoted

/-!
# Forms

The form in which the operator edits the engine's options: a field for every option that was
declared. Typing and showing values change what fields hold, never which fields there are or what
they are for.
-/

set_option autoImplicit false

namespace EngineConsole

abbrev Form := Catalog Field

inductive EditError where
  | noSuchField (key : String)
  | notTick (key word : String)
  deriving Repr, DecidableEq

def EditError.message : EditError → String
  | .noSuchField key => "no such field: " ++ key
  | .notTick key word => key ++ " is a flag, got " ++ Text.quoted word

namespace Form

def declare (form : Form) (key : String) (kind : FieldKind) : Form :=
  form.insert key (.blank kind)

def ofConfig (config : Config) : Form :=
  config.map fun _ value => .blank (.of value)

def typed (key : String) (field : Field) (raw : String) : Except EditError Field :=
  match field with
  | .flag _ =>
    let word := Text.lowerAscii (Text.trimmed raw)
    match Field.tick? word with
    | some ticked => .ok (.flag ticked)
    | none => .error (.notTick key word)
  | .number _ => .ok (.number raw)
  | .text _ => .ok (.text raw)

def edit (form : Form) (key raw : String) : Except EditError Form :=
  match form.get? key with
  | none => .error (.noSuchField key)
  | some field => (typed key field raw).map fun new => form.update key fun _ => new

def put (form : Form) (key : String) (value : Value) : Form :=
  form.update key fun field => field.showing value

def fill (form : Form) (config : Config) : Form :=
  config.entries.foldl (fun form e => form.put e.1 e.2) form

def matching (form : Form) (config : Config) : Nat :=
  (config.entries.filter fun e => form.contains e.1).length

def values (form : Form) : Config :=
  form.map fun _ field => field.value

end Form

end EngineConsole
