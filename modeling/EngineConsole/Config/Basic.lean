import EngineConsole.Catalog
import EngineConsole.Config.Value
import EngineConsole.Json.Reader

/-!
# Engine configurations

A configuration gives values to engine options by name; which options there are is not known here.
As a document it is a JSON object of scalars. What is exported has one member per line, what is
posted to the engine has no blanks at all.
-/

set_option autoImplicit false

namespace EngineConsole

abbrev Config := Catalog Value

namespace Config

open Json (Flaw Input)

/-- Equality of configurations: the same options with equal values. -/
def same (a b : Config) : Bool :=
  a.size == b.size && (a.entries.zip b.entries).all fun p => p.1.1 == p.2.1 && p.1.2.same p.2.2

def members (c : Config) : List (String × List Char) :=
  c.entries.map fun e => (e.1, e.2.json)

def document (c : Config) : String :=
  String.ofList (Json.writeObject Json.pretty c.members)

def compact (c : Config) : String :=
  String.ofList (Json.writeObject Json.compact c.members)

/-- The value that a scalar of a document stands for. Null stands for none. -/
def valueOf? : Json.Scalar → Option Value
  | .null => none
  | .flag b => some (.flag b)
  | .number n => (Json.double? n).map .number
  | .text cs => some (.text (String.ofList cs))

/-- Read a member: its value is read to the end before its kind is looked at. -/
def member (c : Config) (key : String) (input : Input) : Except Flaw (Config × Input) := do
  let input ← Json.colon input
  let (s, rest) ← Json.scalar input
  match s.bind valueOf? with
  | some value => .ok (c.insert key value, rest)
  | none => .error .unfit

def read (input : Input) : Except Flaw Config :=
  Json.object member .empty input

def parse (text : String) : Except Flaw Config :=
  read (Text.glyphs text)

end Config

inductive ImportFailure where
  | unreadable
  | notConfig (flaw : Json.Flaw)
  deriving Repr, DecidableEq

namespace ImportFailure

def message : ImportFailure → String
  | .unreadable => "Failed to read import file"
  | .notConfig _ => "Import file is not a flat config mapping"

end ImportFailure

namespace Config

def import? (file : Option (List UInt8)) : Except ImportFailure Config :=
  match file.bind Text.decode? with
  | none => .error .unreadable
  | some text => (parse text).mapError .notConfig

end Config

end EngineConsole
