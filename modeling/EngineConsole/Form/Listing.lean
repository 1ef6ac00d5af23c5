import EngineConsole.Form.Field
import EngineConsole.Text.Column

/-!
# Form listings

One line per field, the key, a separator and what the field shows. The separators stand below each
other, in the column given by the longest key counted in bytes, which no key passes in characters.
-/

set_option autoImplicit false

namespace EngineConsole.Form

def separator : List Char := [' ', '=', ' ']

def keyWidth (entries : List (String × Field)) : Nat :=
  entries.foldl (fun width e => max width e.1.utf8ByteSize) 0

def line (width : Nat) (key : String) (field : Field) : List Char :=
  Text.padRight width key.toList ++ separator ++ field.display.toList

def listing (entries : List (String × Field)) : String :=
  String.ofList (Text.joinLines (entries.map fun e => line (keyWidth entries) e.1 e.2))

end EngineConsole.Form
