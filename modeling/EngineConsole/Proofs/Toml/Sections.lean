import EngineConsole.Proofs.Catalogs
import EngineConsole.Proofs.Toml.Lines

/-!
# Documents in sections

A document that gives some keys their values and then has one section after the other, no key and no
section twice, is read as the tree that it spells out.
-/

set_option autoImplicit false

namespace EngineConsole.Toml

/-! ## Looking up entries -/

section

variable {key name : String} {item : Item} {entries more : Entries}

theorem item?_eq_lookup (key : String) (entries : Entries) :
    item? key entries = entries.lookup key := by
  induction entries with
  | nil => rfl
  | cons e rest ih =>
      obtain ⟨k, value⟩ := e
      rw [item?, List.lookup_cons, ih]
      by_cases same : k = key
      · simp [same]
      · have other : (key == k) = false := beq_eq_false_iff_ne.mpr (Ne.symm same)
        rw [if_neg same, other]

theorem item?_eq_some_iff (distinct : (entries.map Prod.fst).Nodup) :
    item? key entries = some item ↔ (key, item) ∈ entries := by
  rw [item?_eq_lookup, Catalog.lookup_eq_some_iff_mem distinct]

theorem item?_eq_none_iff : item? key entries = none ↔ key ∉ entries.map Prod.fst := by
  rw [item?_eq_lookup, List.lookup_eq_none_iff, List.mem_map]
  constructor
  · rintro absent ⟨e, member, rfl⟩
    simpa using absent e member
  · intro absent e member
    exact bne_iff_ne.mpr fun same => absent ⟨e, member, same.symm⟩

theorem item?_append_of_not_mem (absent : key ∉ entries.map Prod.fst) (more : Entries) :
    item? key (entries ++ more) = item? key more := by
  rw [item?_eq_lookup, List.lookup_append, ← item?_eq_lookup, item?_eq_none_iff.mpr absent,
    Option.none_or, item?_eq_lookup]

theorem entriesFit_iff : entriesFit entries = true ↔ ∀ e ∈ entries, e.2.fits = true := by
  induction entries with
  | nil => simp [entriesFit]
  | cons e rest ih => simp [entriesFit, ih]

theorem setEntry_append (absent : key ∉ entries.map Prod.fst) (old new : Item) (more : Entries) :
    setEntry key new (entries ++ (key, old) :: more) = entries ++ (key, new) :: more := by
  induction entries with
  | nil => simp [setEntry]
  | cons e rest ih =>
      obtain ⟨first, later⟩ := not_or.mp (mt List.mem_cons.mpr absent)
      rw [List.cons_append, setEntry, if_neg (Ne.symm first), ih later, List.cons_append]

end

/-! ## Entries and sections -/

/-- A key with its value, as it is written. -/
structure Written where
  key : String
  item : Item
  text : List Char

namespace Written

def line (w : Written) : Line := .entry w.key w.item w.text

def entry (w : Written) : String × Item := (w.key, w.item)

def Sound (w : Written) : Prop := Bare w.key ∧ Reads w.text w.item

end Written

theorem addValue_header {key : String} {item : Item} {entries : Entries}
    (absent : key ∉ entries.map Prod.fst) :
    addValue [] key item .header entries = some (entries ++ [(key, item)]) := by
  simp [addValue, alter, item?_eq_none_iff.mpr absent]

/-- Entries go one after the other to the table that a path leads to, wherever that is. -/
theorem foldlM_entries {path : List String} {within : Entries → Entries}
    (leads : ∀ change inner, alter false change path .header (within inner) =
      (change .header inner).map within)
    (inner : Entries) {ws : List Written}
    (distinct : (inner.map Prod.fst ++ ws.map Written.key).Nodup) :
    (ws.map Written.line).foldlM Line.apply ⟨within inner, path⟩ =
      some ⟨within (inner ++ ws.map Written.entry), path⟩ := by
  induction ws generalizing inner with
  | nil => simp
  | cons w rest ih =>
      have absent : w.key ∉ inner.map Prod.fst := by
        intro member
        exact (List.nodup_append.mp distinct).2.2 _ member _ List.mem_cons_self rfl
      have first : Line.apply ⟨within inner, path⟩ w.line =
          some ⟨within (inner ++ [w.entry]), path⟩ := by
        simp only [Written.line, Line.apply, Draft.add, leads, addValue_header absent]
        rfl
      have later : ((inner ++ [w.entry]).map Prod.fst ++ rest.map Written.key).Nodup := by
        simpa [Written.entry] using distinct
      rw [List.map_cons, List.foldlM_cons, first]
      have read := ih _ later
      rw [List.append_assoc] at read
      exact read

/-! ## Documents -/

/-- A document by what it says: the entries before any header, and the sections with theirs. -/
structure Outline where
  top : List Written
  sections : List (String × List Written)

namespace Outline

def sectionLines (s : String × List Written) : List Line :=
  .header s.1 :: s.2.map Written.line

def sectionEntry (s : String × List Written) : String × Item :=
  (s.1, .table .header (s.2.map Written.entry))

def lines (o : Outline) : List Line :=
  o.top.map Written.line ++ o.sections.flatMap sectionLines

def text (o : Outline) : String :=
  String.ofList (o.lines.flatMap Line.chars)

def tree (o : Outline) : Entries :=
  o.top.map Written.entry ++ o.sections.map sectionEntry

/-- Keys need no quotes and values are read, and neither a key nor a section is there twice. -/
structure Sound (o : Outline) : Prop where
  top : ∀ w ∈ o.top, w.Sound
  names : ∀ s ∈ o.sections, Bare s.1
  entries : ∀ s ∈ o.sections, ∀ w ∈ s.2, w.Sound
  distinct : (o.top.map Written.key ++ o.sections.map Prod.fst).Nodup
  distinctIn : ∀ s ∈ o.sections, (s.2.map Written.key).Nodup

end Outline

section

variable {root : Entries} {name : String}

theorem openTable_new (absent : name ∉ root.map Prod.fst) :
    openTable [] name root = some (root ++ [(name, .table .header [])]) := by
  simp [openTable, alter, item?_eq_none_iff.mpr absent]

/-- A path of one name leads to the table that was opened under it. -/
theorem alter_section (absent : name ∉ root.map Prod.fst)
    (change : Origin → Entries → Option Entries) (inner : Entries) :
    alter false change [name] .header (root ++ [(name, .table .header inner)]) =
      (change .header inner).map fun inner => root ++ [(name, .table .header inner)] := by
  have found : item? name (root ++ [(name, .table .header inner)]) =
      some (.table .header inner) := by
    rw [item?_append_of_not_mem absent]
    simp [item?]
  unfold alter
  rw [found]
  dsimp only
  rw [if_neg (by decide), alter]
  cases change .header inner with
  | none => rfl
  | some inner' =>
      exact congrArg some (setEntry_append absent _ _ [])

/-- Reading a section adds its table to what was read before, wherever the lines before it went. -/
theorem foldlM_section {path : List String} {ws : List Written}
    (absent : name ∉ root.map Prod.fst) (distinct : (ws.map Written.key).Nodup) :
    (Outline.sectionLines (name, ws)).foldlM Line.apply ⟨root, path⟩ =
      some ⟨root ++ [Outline.sectionEntry (name, ws)], [name]⟩ := by
  have opened : Line.apply ⟨root, path⟩ (.header name) =
      some ⟨root ++ [(name, .table .header [])], [name]⟩ := by
    rw [Line.apply, openTable_new absent]
    rfl
  have read := foldlM_entries (alter_section absent) [] distinct
  rw [Outline.sectionLines, List.foldlM_cons, opened]
  exact read

theorem foldlM_sections (path : List String) {ss : List (String × List Written)}
    (distinct : (root.map Prod.fst ++ ss.map Prod.fst).Nodup)
    (distinctIn : ∀ s ∈ ss, (s.2.map Written.key).Nodup) :
    ∃ path', (ss.flatMap Outline.sectionLines).foldlM Line.apply ⟨root, path⟩ =
      some ⟨root ++ ss.map Outline.sectionEntry, path'⟩ := by
  induction ss generalizing root path with
  | nil => exact ⟨path, by simp⟩
  | cons s rest ih =>
      obtain ⟨here, later⟩ := List.forall_mem_cons.mp distinctIn
      have absent : s.1 ∉ root.map Prod.fst := by
        intro member
        exact (List.nodup_append.mp distinct).2.2 _ member _ List.mem_cons_self rfl
      have others : ((root ++ [Outline.sectionEntry s]).map Prod.fst ++
          rest.map Prod.fst).Nodup := by
        simpa [Outline.sectionEntry] using distinct
      obtain ⟨path', read⟩ := ih [s.1] others later
      refine ⟨path', ?_⟩
      rw [List.flatMap_cons, List.foldlM_append, foldlM_section absent here]
      simpa using read

end

namespace Outline

variable {o : Outline}

theorem Sound.lines (sound : o.Sound) : ∀ l ∈ o.lines, l.Sound := by
  obtain ⟨top, names, entries, -, -⟩ := sound
  intro l member
  rcases List.mem_append.mp member with before | inside
  · obtain ⟨w, given, rfl⟩ := List.mem_map.mp before
    exact top w given
  · obtain ⟨s, there, member⟩ := List.mem_flatMap.mp inside
    rcases List.mem_cons.mp member with rfl | member
    · exact names s there
    · obtain ⟨w, given, rfl⟩ := List.mem_map.mp member
      exact entries s there w given

/-- What a document says is what is read of it. -/
theorem parse_text (sound : o.Sound) : parse o.text = some o.tree := by
  have keys : (o.top.map Written.entry).map Prod.fst = o.top.map Written.key := by
    rw [List.map_map]
    rfl
  have whole : ∀ change inner, alter false change [] .header (id inner) =
      (change .header inner).map id := by
    intro change inner
    rw [Option.map_id]
    rfl
  have first := foldlM_entries whole [] (List.nodup_append.mp sound.distinct).1
  obtain ⟨path, rest⟩ := foldlM_sections [] (keys.symm ▸ sound.distinct) sound.distinctIn
  have read : o.lines.foldlM Line.apply {} = some ⟨o.tree, path⟩ := by
    rw [lines, List.foldlM_append]
    change ((o.top.map Written.line).foldlM Line.apply ⟨id [], []⟩).bind _ = _
    rw [first]
    exact rest
  rw [text, parse_chars sound.lines, read]
  rfl

end Outline

end EngineConsole.Toml
