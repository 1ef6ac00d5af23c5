/-!
# Paths

Paths as texts: how they are joined, where an extension goes, and which names they go through. Where
a path leads depends on the disk as well, for every directory it goes through must be there, even
one that it leaves at once by the name of the directory above.
-/

set_option autoImplicit false

namespace EngineConsole

structure Place where
  /-- Whether it is told from the root, not from where the console runs. -/
  rooted : Bool
  names : List String
  deriving Repr, DecidableEq

namespace Path

def pieces : List Char → List (List Char)
  | [] => [[]]
  | c :: rest =>
    if c = '/' then [] :: pieces rest
    else
      match pieces rest with
      | [] => [[c]]
      | piece :: more => (c :: piece) :: more

def names (path : String) : List String :=
  (pieces path.toList).map String.ofList

def isAbsolute (path : String) : Bool :=
  path.toList.head? == some '/'

/-- A path with a name or another path behind it. A path that begins at the root stands alone. -/
def join (path name : String) : String :=
  if isAbsolute name ∨ path.isEmpty then name
  else if path.toList.getLast? = some '/' then path ++ name
  else path ++ "/" ++ name

def above : String := ".."

def staysPut (name : String) : Bool :=
  name == "" || name == "."

/-- Whether something can have a name: it is at most 255 bytes long. -/
def canName (name : String) : Bool :=
  name.utf8ByteSize ≤ 255

/-- Whether a path can be followed at all: it is not empty, it is at most 4095 bytes long, and none
of them is zero. -/
def canLead (path : String) : Bool :=
  !path.isEmpty && path.utf8ByteSize ≤ 4095 && path.toList.all (· != Char.ofNat 0)

/-- The part of a name before its last point. A name without a point, or with one only at its
beginning, has no other part. -/
def stem (name : List Char) : List Char :=
  match name.reverse.dropWhile (· != '.') with
  | [] => name
  | [_] => name
  | _ :: before => before.reverse

/-- A path told backwards, without what says no more than that it is a directory. -/
def trimBack : List Char → List Char
  | ['/'] => ['/']
  | '/' :: rest => trimBack rest
  | '.' :: '/' :: rest => trimBack ('/' :: rest)
  | cs => cs

def splitLast (path : String) : List Char × List Char :=
  let cs := trimBack path.toList.reverse
  ((cs.takeWhile (· != '/')).reverse, (cs.dropWhile (· != '/')).reverse)

/-- A path whose last name has another extension. A path that ends in no name of its own stays as it
is. -/
def withExtension (path extension : String) : String :=
  let (name, before) := splitLast path
  if staysPut (String.ofList name) ∨ String.ofList name = above then path
  else String.ofList (before ++ stem name ++ '.' :: extension.toList)

def parent (path : String) : String :=
  String.ofList (trimBack (splitLast path).2.reverse).reverse

def origin (path : String) : Place :=
  ⟨isAbsolute path, []⟩

end Path

namespace Place

def path (p : Place) : String :=
  (if p.rooted then "/" else "") ++ "/".intercalate p.names

def isBase (p : Place) : Bool :=
  p.names.all (· = Path.above)

def below (p : Place) (name : String) : Place :=
  { p with names := p.names ++ [name] }

/-- The directory above a place. There is none above the root. -/
def up (p : Place) : Place :=
  if p.isBase then
    if p.rooted then p else p.below Path.above
  else { p with names := p.names.dropLast }

def onto (p : Place) (name : String) : Place :=
  if Path.staysPut name then p
  else if name = Path.above then p.up
  else p.below name

end Place

end EngineConsole
