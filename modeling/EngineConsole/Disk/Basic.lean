import EngineConsole.Catalog
import EngineConsole.Disk.Path

/-!
# Disks

Files and directories. Everything on a disk stands in a directory that is there as well; those in
which paths begin, and those above them, are always there.
-/

set_option autoImplicit false

namespace EngineConsole

inductive Entry where
  | file (bytes : List UInt8)
  | directory
  deriving Repr, DecidableEq

abbrev Disk := Catalog Entry

namespace Disk

def at? (d : Disk) (p : Place) : Option Entry :=
  if p.isBase then some .directory else d.get? p.path

/-- Where names lead one after the other. What is not the last of them must be a directory, and is
looked up even if the next name leads back out of it. -/
def follow (d : Disk) (p : Place) : List String → Option Place
  | [] => some p
  | [name] => some (p.onto name)
  | name :: more =>
    let next := p.onto name
    if d.at? next = some .directory then d.follow next more else none

def place? (d : Disk) (path : String) : Option Place :=
  if Path.canLead path then d.follow (Path.origin path) (Path.names path) else none

def found? (d : Disk) (path : String) : Option Entry :=
  (d.place? path).bind d.at?

def read? (d : Disk) (path : String) : Option (List UInt8) :=
  match d.found? path with
  | some (.file bytes) => some bytes
  | _ => none

/-- Follow names and create the directories that are missing, as far as that can be: the disk, and
whether the last directory is there. A name is not created if all that follows it is the name of the
same directory. -/
def makeAlong (d : Disk) (p : Place) : List String → Disk × Bool
  | [] => (d, true)
  | name :: more =>
    let next := p.onto name
    match d.at? next with
    | some (.file _) => (d, false)
    | some .directory => d.makeAlong next more
    | none =>
      if Path.canName name ∧ ¬(more.contains "." ∧ more.all Path.staysPut) then
        Disk.makeAlong (d.insert next.path .directory) next more
      else (d, false)

/-- Create a directory and those it is in, as far as that can be: the disk, and whether the
directory is there. -/
def makeDirectory (d : Disk) (path : String) : Disk × Bool :=
  if path.isEmpty then (d, true)
  else if Path.canLead path then d.makeAlong (Path.origin path) (Path.names path)
  else (d, false)

/-- Write a file in a directory that exists, in place of any file there; none if that cannot be. -/
def write (d : Disk) (path : String) (bytes : List UInt8) : Option Disk :=
  match d.place? path with
  | none => none
  | some p =>
    if d.at? p ≠ some .directory ∧ p.names.all Path.canName then
      some (d.insert p.path (.file bytes))
    else none

def remove (d : Disk) (path : String) : Disk :=
  match d.place? path with
  | none => d
  | some p =>
    if d.at? p = some .directory then d
    else ⟨d.entries.filter fun e => e.1 ≠ p.path, d.ascending.filter _⟩

/-- Move a file to a path, in place of any file there; none if a directory is there. -/
def rename (d : Disk) (source target : String) : Option Disk :=
  match d.read? source with
  | none => none
  | some bytes => (d.write target bytes).map fun d => d.remove source

def files (d : Disk) : List (String × List UInt8) :=
  d.entries.filterMap fun e =>
    match e.2 with
    | .file bytes => some (e.1, bytes)
    | .directory => none

def ownFiles (d : Disk) : List (String × List UInt8) :=
  d.files.filter fun f => !Path.isAbsolute f.1 && (Path.names f.1).head? != some Path.above

def ofFiles (files : List (String × List UInt8)) : Disk :=
  files.foldl (fun d f =>
    let d := (d.makeDirectory (Path.parent f.1)).1
    (d.write f.1 f.2).getD d) .empty

/-- Hand over a document under a name in a directory, which is created if it is missing: the disk,
and the path of the document if it was taken. -/
def offer (d : Disk) (directory name contents : String) : Disk × Option String :=
  match d.makeDirectory directory with
  | (d, false) => (d, none)
  | (d, true) =>
    let path := Path.join directory name
    match d.write path contents.toUTF8.toList with
    | none => (d, none)
    | some d => (d, some path)

end Disk

end EngineConsole
