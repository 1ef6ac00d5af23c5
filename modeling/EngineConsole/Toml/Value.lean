/-!
# TOML documents as values

A document is a tree of tables. Beside its entries a table carries how it came about, for that
decides which later lines may still add to it.
-/

set_option autoImplicit false

namespace EngineConsole.Toml

inductive Origin where
  | path
  | dotted
  | header
  | braces
  deriving Repr, DecidableEq

inductive Item where
  | text (value : String)
  | integer (value : Int)
  | float
  | overflow
  | flag (value : Bool)
  | dateTime
  | list (items : List Item)
  | table (origin : Origin) (entries : List (String × Item))
  /-- Tables that were given one after the other under the same header. -/
  | tables (tables : List (List (String × Item)))
  deriving Repr

mutual

def Item.fits : Item → Bool
  | .overflow => false
  | .list items => itemsFit items
  | .table _ entries => entriesFit entries
  | .tables tables => tablesFit tables
  | _ => true

def itemsFit : List Item → Bool
  | [] => true
  | item :: rest => item.fits && itemsFit rest

def entriesFit : List (String × Item) → Bool
  | [] => true
  | (_, item) :: rest => item.fits && entriesFit rest

def tablesFit : List (List (String × Item)) → Bool
  | [] => true
  | entries :: rest => entriesFit entries && tablesFit rest

end

abbrev Entries := List (String × Item)

def item? (key : String) : Entries → Option Item
  | [] => none
  | (k, item) :: rest => if k = key then some item else item? key rest

def setEntry (key : String) (item : Item) : Entries → Entries
  | [] => []
  | (k, old) :: rest => if k = key then (k, item) :: rest else (k, old) :: setEntry key item rest

/-- Change the table at the end of a path, creating the tables on the way. The keys of a path may
not lead through a value or a table between braces; those of a dotted key may not lead through a
table with a header of its own. -/
def alter (dotted : Bool) (change : Origin → Entries → Option Entries) :
    List String → Origin → Entries → Option Entries
  | [], origin, entries => change origin entries
  | key :: path, _, entries =>
    let fresh : Origin := if dotted then .dotted else .path
    match item? key entries with
    | none => do
      let inner ← alter dotted change path fresh []
      some (entries ++ [(key, .table fresh inner)])
    | some (.table origin inner) =>
      if origin = .braces ∨ (dotted = true ∧ origin = .header) then none
      else do
        let inner ← alter dotted change path origin inner
        some (setEntry key (.table origin inner) entries)
    | some (.tables tables) =>
      match tables.getLast? with
      | none => none
      | some last => do
        let last ← alter dotted change path .header last
        some (setEntry key (.tables (tables.dropLast ++ [last])) entries)
    | some _ => none

/-- Add a value under the last key of a dotted key, which must be new; the table it goes to must
have come about by dotted keys if and only if the key is dotted. -/
def addValue (path : List String) (key : String) (item : Item) (origin : Origin)
    (entries : Entries) : Option Entries :=
  let add (origin : Origin) (entries : Entries) : Option Entries :=
    if (origin = .dotted) = path.isEmpty then none
    else if (item? key entries).isSome then none
    else some (entries ++ [(key, item)])
  alter true add path origin entries

/-- Open the table of a header. It may have come about as part of a path, and is new otherwise. -/
def openTable (path : List String) (key : String) (root : Entries) : Option Entries :=
  let openLast (_ : Origin) (entries : Entries) : Option Entries :=
    match item? key entries with
    | none => some (entries ++ [(key, .table .header [])])
    | some (.table .path inner) => some (setEntry key (.table .header inner) entries)
    | some _ => none
  alter false openLast path .header root

def openNext (path : List String) (key : String) (root : Entries) : Option Entries :=
  let openLast (_ : Origin) (entries : Entries) : Option Entries :=
    match item? key entries with
    | none => some (entries ++ [(key, .tables [[]])])
    | some (.tables tables) => some (setEntry key (.tables (tables ++ [[]])) entries)
    | some _ => none
  alter false openLast path .header root

end EngineConsole.Toml
