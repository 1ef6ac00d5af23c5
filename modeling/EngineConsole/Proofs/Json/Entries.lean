import EngineConsole.Proofs.Catalogs
import EngineConsole.Proofs.Json.Documents

/-!
# Objects as catalogs

A reader of members that makes entries of a catalog out of scalars reads the objects of the grammar
of which every member gives an entry, also one that is overridden. The catalog has the value of the
last member of each name.
-/

set_option autoImplicit false

namespace EngineConsole

theorem exists_forall₂_iff {α β : Type} {R : α → β → Prop} {l : List α} :
    (∃ bs, List.Forall₂ R l bs) ↔ ∀ a ∈ l, ∃ b, R a b := by
  induction l with
  | nil => simp
  | cons a more ih =>
      rw [List.forall_mem_cons, ← ih]
      constructor
      · rintro ⟨_, _ | ⟨first, all⟩⟩
        exact ⟨⟨_, first⟩, _, all⟩
      · rintro ⟨⟨b, first⟩, bs, all⟩
        exact ⟨b :: bs, .cons first all⟩

namespace Json

variable {α : Type}

/-- What a scalar under a name does to the entries read before. -/
def enter (valueOf? : Scalar → Option α) (c : Catalog α) (key : String) (s : Scalar) :
    Option (Catalog α) :=
  (valueOf? s).map (c.insert key)

/-- A member of a document gives a name a value. -/
def Gives (Stands : Tree → α → Prop) (m : List Nat × Tree) (e : String × α) : Prop :=
  m.1 = Text.units e.1.toList ∧ Stands m.2 e.2

/-- What a value of a document stands for is what is made of its scalar. -/
def Tells (valueOf? : Scalar → Option α) (Stands : Tree → α → Prop) : Prop :=
  ∀ {cs tree v}, IsValue cs tree → (tree.scalar?.bind valueOf? = some v ↔ Stands tree v)

section

variable {valueOf? : Scalar → Option α} {Stands : Tree → α → Prop}
  {member : Catalog α → String → Input → Except Flaw (Catalog α × Input)}
  (tells : Tells valueOf? Stands)

include tells

theorem take_enter_iff {m : List Nat × Tree} {cs : List Char} (units : AreUnits m.1)
    (value : IsValue cs m.2) {c c' : Catalog α} :
    take (enter valueOf?) c m = some c' ↔ ∃ e, Gives Stands m e ∧ c' = c.insert e.1 e.2 := by
  have stepped (key : String) : m.2.scalar?.bind (enter valueOf? c key) =
      (m.2.scalar?.bind valueOf?).map (c.insert key) := Option.map_bind.symm
  unfold take
  rw [Option.bind_eq_some_iff]
  constructor
  · rintro ⟨name, named, taken⟩
    rw [stepped] at taken
    obtain ⟨v, given, rfl⟩ := Option.map_eq_some_iff.mp taken
    refine ⟨(String.ofList name, v), ⟨?_, (tells value).mp given⟩, rfl⟩
    rw [String.toList_ofList]
    exact (Text.ofUnits?_eq_some_iff units).mp named
  · rintro ⟨⟨key, v⟩, ⟨named, stands⟩, rfl⟩
    refine ⟨key.toList, (Text.ofUnits?_eq_some_iff units).mpr named, ?_⟩
    rw [stepped, String.ofList_toList, (tells value).mpr stands]
    rfl

theorem foldlM_take_enter_iff {ms : List (List Nat × Tree)}
    (sound : ∀ m ∈ ms, AreUnits m.1 ∧ ∃ cs, IsValue cs m.2) {c c' : Catalog α} :
    ms.foldlM (take (enter valueOf?)) c = some c' ↔
      ∃ entries, List.Forall₂ (Gives Stands) ms entries ∧
        c' = entries.foldl (fun c e => c.insert e.1 e.2) c := by
  induction ms generalizing c with
  | nil => simp [eq_comm]
  | cons m more ih =>
      obtain ⟨⟨units, cs, value⟩, later⟩ := List.forall_mem_cons.mp sound
      rw [List.foldlM_cons, Option.bind_eq_bind, Option.bind_eq_some_iff]
      constructor
      · rintro ⟨next, taken, rest⟩
        obtain ⟨e, gives, rfl⟩ := (take_enter_iff tells units value).mp taken
        obtain ⟨entries, all, rfl⟩ := (ih later).mp rest
        exact ⟨e :: entries, .cons gives all, rfl⟩
      · rintro ⟨_, _ | ⟨gives, all⟩, rfl⟩
        exact ⟨_, (take_enter_iff tells units value).mpr ⟨_, gives, rfl⟩,
          (ih later).mpr ⟨_, all, rfl⟩⟩

variable (reads : ReadsScalars member (enter valueOf?))

include reads

/-- A document is read as its tree has it. -/
theorem ReadsScalars.document_eq_ok_iff {cs : List Char} {tree : Tree}
    (document : IsDocument cs tree) (c : Catalog α) :
    object member .empty (cs.map .char) = .ok c ↔
      ∃ ms entries, tree = .object ms ∧ List.Forall₂ (Gives Stands) ms entries ∧
        c = .ofList entries := by
  rw [ok_iff, reads.document document, Option.bind_eq_some_iff]
  constructor
  · rintro ⟨ms, members, taken⟩
    cases tree with
    | object =>
        cases members
        obtain ⟨entries, all, rfl⟩ := (foldlM_take_enter_iff tells document.members).mp taken
        exact ⟨ms, entries, rfl, all, rfl⟩
    | null | flag | number | text | list => cases members
  · rintro ⟨ms, entries, rfl, all, rfl⟩
    exact ⟨ms, rfl, (foldlM_take_enter_iff tells document.members).mpr ⟨entries, all, rfl⟩⟩

/-- Nothing is read but documents whose members give entries. -/
theorem ReadsScalars.eq_ok_iff (input : Input) (c : Catalog α) :
    object member .empty input = .ok c ↔
      ∃ text ms entries, input = Text.glyphs text ∧ IsDocument text.toList (.object ms) ∧
        List.Forall₂ (Gives Stands) ms entries ∧ c = .ofList entries := by
  constructor
  · intro read
    obtain ⟨cs, ms, document, taken, rfl⟩ := reads.document_spells read
    obtain ⟨entries, all, rfl⟩ := (foldlM_take_enter_iff tells document.members).mp taken
    exact ⟨String.ofList cs, ms, entries, by rw [Text.glyphs, String.toList_ofList],
      by rwa [String.toList_ofList], all, rfl⟩
  · rintro ⟨text, ms, entries, rfl, document, all, rfl⟩
    exact (reads.document_eq_ok_iff tells document _).mpr ⟨ms, entries, rfl, all, rfl⟩

theorem ReadsScalars.text_eq_ok_iff (text : String) (c : Catalog α) :
    object member .empty (Text.glyphs text) = .ok c ↔
      ∃ ms entries, IsDocument text.toList (.object ms) ∧
        List.Forall₂ (Gives Stands) ms entries ∧ c = .ofList entries := by
  rw [reads.eq_ok_iff tells]
  constructor
  · rintro ⟨text', ms, entries, same, document, all, rfl⟩
    have equal : text.toList = text'.toList := Text.map_char_inj same
    exact ⟨ms, entries, equal ▸ document, all, rfl⟩
  · rintro ⟨ms, entries, document, all, rfl⟩
    exact ⟨text, ms, entries, rfl, document, all, rfl⟩

/-- A document is read if its tree is an object and each of its members gives an entry. -/
theorem ReadsScalars.document_read_iff {cs : List Char} {tree : Tree}
    (document : IsDocument cs tree) :
    (∃ c, object member .empty (cs.map .char) = .ok c) ↔
      ∃ ms, tree = .object ms ∧ ∀ m ∈ ms, ∃ e, Gives Stands m e := by
  simp only [reads.document_eq_ok_iff tells document]
  constructor
  · rintro ⟨_, ms, entries, rfl, all, -⟩
    exact ⟨ms, rfl, exists_forall₂_iff.mp ⟨entries, all⟩⟩
  · rintro ⟨ms, rfl, gives⟩
    obtain ⟨entries, all⟩ := exists_forall₂_iff.mpr gives
    exact ⟨_, ms, entries, rfl, all, rfl⟩

end

end Json

end EngineConsole
