/-!
# Columns

Padding of cells in aligned output. A cell is filled up with spaces to a number of characters; a
longer cell stays as it is.
-/

set_option autoImplicit false

namespace EngineConsole.Text

def spaces (n : Nat) : List Char :=
  List.replicate n ' '

def padRight (width : Nat) (cell : List Char) : List Char :=
  cell ++ spaces (width - cell.length)

def padLeft (width : Nat) (cell : List Char) : List Char :=
  spaces (width - cell.length) ++ cell

def joinLines : List (List Char) → List Char
  | [] => []
  | [line] => line
  | line :: more => line ++ '\n' :: joinLines more

end EngineConsole.Text
