import EngineConsole.Config.Value
import EngineConsole.Text.Blank

/-!
# Form fields

A field holds what the operator entered: a tick, or raw text that stands for a number or for
itself. Raw text is kept as it was typed and turned into a value only when the form is read.
-/

set_option autoImplicit false

namespace EngineConsole

inductive FieldKind where
  | flag
  | number
  | text
  deriving Repr, DecidableEq

def FieldKind.of : Value → FieldKind
  | .flag _ => .flag
  | .number _ => .number
  | .text _ => .text

inductive Field where
  | flag (ticked : Bool)
  | number (raw : String)
  | text (raw : String)
  deriving Repr, DecidableEq

namespace Field

def blank : FieldKind → Field
  | .flag => .flag false
  | .number => .number ""
  | .text => .text ""

def kind : Field → FieldKind
  | .flag _ => .flag
  | .number _ => .number
  | .text _ => .text

/-- The number at the head of a raw text, after any blanks: zero if there is none or if it is too
large for a double. -/
def leadingNumber (raw : String) : Double :=
  match Numeral.scan? (Text.trimStart raw.toList) with
  | none => .ofRank false 0
  | some (numeral, _) =>
    let x : Double := .ofDecimal numeral.value
    if x.isFinite then x else .ofRank false 0

def value : Field → Value
  | .flag ticked => .flag ticked
  | .number raw => .number (leadingNumber raw)
  | .text raw => .text raw

def showing (field : Field) (value : Value) : Field :=
  match field with
  | .flag _ => .flag value.truthy
  | .number _ => .number value.display
  | .text _ => .text value.display

def tick? (word : String) : Option Bool :=
  if word ∈ ["true", "on", "yes", "1"] then some true
  else if word ∈ ["false", "off", "no", "0"] then some false
  else none

def display : Field → String
  | .flag ticked => if ticked then "[x]" else "[ ]"
  | .number raw => raw
  | .text raw => raw

@[simp] theorem kind_blank (k : FieldKind) : (blank k).kind = k := by
  cases k <;> rfl

@[simp] theorem kind_showing (field : Field) (value : Value) :
    (field.showing value).kind = field.kind := by
  cases field <;> rfl

end Field

end EngineConsole
