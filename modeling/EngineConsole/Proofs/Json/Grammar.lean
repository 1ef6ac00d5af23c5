import EngineConsole.Json.Reader
import EngineConsole.Proofs.Decimal.Spelling
import EngineConsole.Proofs.Text.Utf16

/-!
# The grammar of documents

Which texts are JSON and what tree each of them gives, told apart from any reader: the tree keeps
every member of an object, also one that is named again, and of a string the code units that it is
about, whether they make up a text or not.
-/

set_option autoImplicit false

namespace EngineConsole.Json

def AreBlank (cs : List Char) : Prop :=
  ∀ c ∈ cs, isSpace c = true

theorem blank_nil : AreBlank [] :=
  nofun

/-! ## Strings -/

/-- A hexadecimal digit, small or capital, and what it counts for. -/
def IsHexDigit (c : Char) (v : Nat) : Prop :=
  v < 16 ∧ (c = Nat.digitChar v ∨ c = (Nat.digitChar v).toUpper)

instance (c : Char) (v : Nat) : Decidable (IsHexDigit c v) :=
  inferInstanceAs (Decidable (_ ∧ _))

inductive IsQuad : List Char → Nat → Prop
  | intro {a b c d : Char} {w x y z : Nat} (first : IsHexDigit a w) (second : IsHexDigit b x)
      (third : IsHexDigit c y) (fourth : IsHexDigit d z) :
      IsQuad [a, b, c, d] (((w * 16 + x) * 16 + y) * 16 + z)

/-- The letters that escape a character. -/
def letters : List (Char × Char) :=
  [('"', '"'), ('\\', '\\'), ('/', '/'), ('b', '\x08'), ('f', '\x0c'), ('n', '\n'), ('r', '\r'),
    ('t', '\t')]

/-- What stands between the quotes of a string. An escape by number is one code unit, also if it is
a surrogate. -/
inductive IsBody : List Char → List Nat → Prop
  | nil : IsBody [] []
  | plain {c : Char} {body : List Char} {us : List Nat} (quote : c ≠ '"') (backslash : c ≠ '\\')
      (control : ¬c.toNat < 0x20) (rest : IsBody body us) :
      IsBody (c :: body) (Text.utf16 c ++ us)
  | letter {e c : Char} {body : List Char} {us : List Nat} (known : (e, c) ∈ letters)
      (rest : IsBody body us) : IsBody ('\\' :: e :: body) (Text.utf16 c ++ us)
  | code {quad body : List Char} {u : Nat} {us : List Nat} (digits : IsQuad quad u)
      (rest : IsBody body us) : IsBody ('\\' :: 'u' :: (quad ++ body)) (u :: us)

/-! ## Values -/

inductive Tree where
  | null
  | flag (value : Bool)
  | number (value : Numeral)
  | text (units : List Nat)
  | list (items : List Tree)
  | object (members : List (List Nat × Tree))

section

variable {α : Type} (Item : List Char → α → Prop)

/-- An item with blanks around it. -/
inductive Padded : List Char → α → Prop
  | intro {before cs after : List Char} {a : α} (space : AreBlank before) (item : Item cs a)
      (spaceAfter : AreBlank after) : Padded (before ++ (cs ++ after)) a

/-- Items with a comma between any two of them. -/
inductive Listed : List Char → List α → Prop
  | one {cs : List Char} {a : α} (item : Item cs a) : Listed cs [a]
  | more {cs rest : List Char} {a : α} {as : List α} (item : Item cs a) (others : Listed rest as) :
      Listed (cs ++ ',' :: rest) (a :: as)

/-- A name and an item with a colon between them. -/
inductive Named : List Char → List Nat × α → Prop
  | intro {before name after cs : List Char} {us : List Nat} {a : α} (space : AreBlank before)
      (body : IsBody name us) (spaceAfter : AreBlank after) (item : Padded Item cs a) :
      Named (before ++ '"' :: (name ++ '"' :: (after ++ ':' :: cs))) (us, a)

end

inductive IsValue : List Char → Tree → Prop
  | null : IsValue ['n', 'u', 'l', 'l'] .null
  | true : IsValue ['t', 'r', 'u', 'e'] (.flag true)
  | false : IsValue ['f', 'a', 'l', 's', 'e'] (.flag false)
  | number {s : Numeral.Spelling} (strict : s.Strict) : IsValue s.text (.number s.numeral)
  | text {body : List Char} {us : List Nat} (inside : IsBody body us) :
      IsValue ('"' :: (body ++ ['"'])) (.text us)
  | emptyList {space : List Char} (blank : AreBlank space) :
      IsValue ('[' :: (space ++ [']'])) (.list [])
  | list {cs : List Char} {items : List Tree} (inside : Listed (Padded IsValue) cs items) :
      IsValue ('[' :: (cs ++ [']'])) (.list items)
  | emptyObject {space : List Char} (blank : AreBlank space) :
      IsValue ('{' :: (space ++ ['}'])) (.object [])
  | object {cs : List Char} {members : List (List Nat × Tree)}
      (inside : Listed (Named IsValue) cs members) :
      IsValue ('{' :: (cs ++ ['}'])) (.object members)

/-- A document is one value, with nothing but blanks around it. -/
def IsDocument (cs : List Char) (tree : Tree) : Prop :=
  Padded IsValue cs tree

theorem Named.tight {name cs : List Char} {us : List Nat} {tree : Tree} (body : IsBody name us)
    (value : IsValue cs tree) : Named IsValue ('"' :: (name ++ '"' :: ':' :: cs)) (us, tree) := by
  have named := Named.intro blank_nil body blank_nil (.intro blank_nil value blank_nil)
  simpa using named

theorem IsDocument.tight {cs : List Char} {tree : Tree} (value : IsValue cs tree) :
    IsDocument cs tree := by
  have document := Padded.intro blank_nil value blank_nil
  rwa [List.append_nil] at document

/-! ## Code units -/

def AreUnits (us : List Nat) : Prop :=
  ∀ u ∈ us, u < 0x10000

theorem IsQuad.lt {quad : List Char} {u : Nat} (digits : IsQuad quad u) : u < 0x10000 := by
  obtain ⟨⟨_, -⟩, ⟨_, -⟩, ⟨_, -⟩, _, -⟩ := digits
  omega

theorem IsBody.areUnits {body : List Char} {us : List Nat} (inside : IsBody body us) :
    AreUnits us := by
  induction inside with
  | nil => nofun
  | plain _ _ _ _ ih =>
      exact List.forall_mem_append.mpr ⟨fun _ member => Text.lt_of_mem_utf16 member, ih⟩
  | letter _ _ ih =>
      exact List.forall_mem_append.mpr ⟨fun _ member => Text.lt_of_mem_utf16 member, ih⟩
  | code digits _ ih => exact List.forall_mem_cons.mpr ⟨digits.lt, ih⟩

theorem IsDocument.members {cs : List Char} {ms : List (List Nat × Tree)}
    (document : IsDocument cs (.object ms)) :
    ∀ m ∈ ms, AreUnits m.1 ∧ ∃ cs, IsValue cs m.2 := by
  have named {cs : List Char} {m : List Nat × Tree} (item : Named IsValue cs m) :
      AreUnits m.1 ∧ ∃ cs, IsValue cs m.2 := by
    obtain ⟨-, body, -, ⟨-, value, -⟩⟩ := item
    exact ⟨body.areUnits, _, value⟩
  obtain ⟨-, value, -⟩ := document
  cases value with
  | emptyObject => nofun
  | object inside =>
      induction inside with
      | one item => exact List.forall_mem_singleton.mpr (named item)
      | more item _ ih => exact List.forall_mem_cons.mpr ⟨named item, ih⟩

end EngineConsole.Json
