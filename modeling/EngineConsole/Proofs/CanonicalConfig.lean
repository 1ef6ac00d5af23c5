import EngineConsole.Proofs.Catalogs
import EngineConsole.Proofs.ConfigDocument
import EngineConsole.Proofs.Text.Order

/-!
# Configurations do not remember how they were made

What is inserted into a configuration stands in the order of the keys, one entry for each of them,
and only the last value under a key counts. So the order of insertions shows neither in the
configuration nor in its documents.
-/

set_option autoImplicit false

namespace EngineConsole

/-! ## Equal values -/

theorem Binary.eq_or_isZero_of_same {f : BinaryFormat} {x y : Binary f} (same : x.same y = true) :
    x = y ∨ x.isZero = true ∧ y.isZero = true := by
  unfold Binary.same at same
  split at same
  next => cases same
  next => cases same
  next => simpa using same

theorem Json.writeDouble_zero {x : Double} (zero : x.isZero = true) :
    writeDouble x = Decimal.digits 0 := by
  obtain ⟨-, negative, rfl⟩ := Binary.isFinite_ofRank_zero x zero
  exact (writeDouble_whole (n := 0) ⟨_, rfl, by decide⟩ (Nat.zero_le _)).trans (by simp)

/-- Equal values are written alike, also the two zeros. -/
theorem Value.json_of_same {v w : Value} (same : v.same w = true) : v.json = w.json := by
  unfold Value.same at same
  split at same
  next x y =>
    rcases Binary.eq_or_isZero_of_same same with rfl | ⟨zero, zero'⟩
    · rfl
    · exact (Json.writeDouble_zero zero).trans (Json.writeDouble_zero zero').symm
  next => exact congrArg _ (by simpa using same)

/-! ## Equal configurations -/

namespace Config

section

variable {c d : Config}
  (alike : ∀ key, Option.Rel (fun v w => v.same w = true) (c.get? key) (d.get? key))

include alike

theorem same_of_alike : c.same d = true := by
  obtain ⟨pairs, rfl, rfl, all⟩ := Catalog.exists_pairs alike
  unfold same
  simp only [Catalog.size, Catalog.map, List.length_map, List.zip_map', List.all_map]
  simpa using all

theorem members_of_alike : c.members = d.members := by
  obtain ⟨pairs, rfl, rfl, all⟩ := Catalog.exists_pairs alike
  simp only [members, Catalog.map, List.map_map]
  refine List.map_congr_left fun e member => ?_
  exact congrArg _ (Value.json_of_same (all e member))

end

/-- The entries of a configuration are in the order of the bytes of their keys, which is that of
the code points. Under every key is what was inserted last, and there are as many entries as keys.
Insertions that leave the same under every key leave the same configuration, and if the values are
no more than equal, equal ones with the same documents. -/
theorem insertions_leave_canonical_config :
    (∀ l : List (String × Value), let c : Config := .ofList l
      c.entries.Pairwise (fun a b => Text.encode a.1 < Text.encode b.1) ∧ c.keys.Nodup ∧
      (∀ key, c.get? key = l.reverse.lookup key) ∧ c.size = (l.map Prod.fst).toFinset.card) ∧
    (∀ s t, Text.encode s < Text.encode t ↔ Text.codePoints s < Text.codePoints t) ∧
    (∀ l l' : List (String × Value),
      (∀ key, l.reverse.lookup key = l'.reverse.lookup key) →
      let c : Config := .ofList l
      let d : Config := .ofList l'
      c = d ∧ c.document = d.document ∧ c.compact = d.compact) ∧
    ∀ l l' : List (String × Value),
      (∀ key, Option.Rel (fun v w => v.same w = true) (l.reverse.lookup key)
        (l'.reverse.lookup key)) →
      let c : Config := .ofList l
      let d : Config := .ofList l'
      c.same d = true ∧ c.document = d.document ∧ c.compact = d.compact := by
  refine ⟨?_, ?_, ?_, ?_⟩
  · intro l c
    refine ⟨c.ascending.imp Text.encode_lt, c.nodup_keys, Catalog.get?_ofList l, ?_⟩
    exact Catalog.size_ofList l
  · intro s t
    rw [Text.encode_lt_iff, Text.codePoints_lt_iff]
  · intro l l' same c d
    have equal : c = d := Catalog.ext_get? fun key => by
      rw [Catalog.get?_ofList, Catalog.get?_ofList, same]
    rw [equal]
    exact ⟨rfl, rfl, rfl⟩
  · intro l l' same c d
    have alike (key : String) :
        Option.Rel (fun v w => v.same w = true) (c.get? key) (d.get? key) := by
      rw [Catalog.get?_ofList, Catalog.get?_ofList]
      exact same key
    have members := members_of_alike alike
    refine ⟨same_of_alike alike, ?_, ?_⟩
    · rw [document, members, document]
    · rw [compact, members, compact]

/-- The code point of one key is larger than that of the other, and its first unit of sixteen bits
is smaller. -/
theorem overwritten_value_leaves_no_trace :
    let l : List (String × Value) :=
      [("𐀀", .flag true), ("｡", .number (.ofRank true 0)), ("𐀀", .text "x")]
    let swapped : List (String × Value) := [("𐀀", .text "x"), ("｡", .number (.ofRank true 0))]
    let unsigned : List (String × Value) := [("｡", .number (.ofNat 0)), ("𐀀", .text "x")]
    let c : Config := .ofList l
    let d : Config := .ofList unsigned
    c.keys = ["｡", "𐀀"] ∧ c.size = 2 ∧ c.get? "𐀀" = some (.text "x") ∧ c = .ofList swapped ∧
      c ≠ d ∧ c.same d = true ∧ c.document = d.document := by
  intro l swapped unsigned c d
  obtain ⟨canonical, -, identical, equal⟩ := insertions_leave_canonical_config
  obtain ⟨-, -, values, size⟩ := canonical l
  have others {key : String} (first : key ≠ "𐀀") (second : key ≠ "｡") :
      l.reverse.lookup key = none ∧ swapped.reverse.lookup key = none ∧
        unsigned.reverse.lookup key = none := by
    simp [List.lookup_eq_none_iff, l, swapped, unsigned, first, second]
  have same (key : String) : l.reverse.lookup key = swapped.reverse.lookup key := by
    by_cases first : key = "𐀀"
    · rw [first]
      rfl
    by_cases second : key = "｡"
    · rw [second]
      rfl
    obtain ⟨none, none', -⟩ := others first second
    rw [none, none']
  have alike (key : String) : Option.Rel (fun v w => v.same w = true) (l.reverse.lookup key)
      (unsigned.reverse.lookup key) := by
    by_cases first : key = "𐀀"
    · rw [first]
      exact .some (by decide)
    by_cases second : key = "｡"
    · rw [second]
      exact .some (by decide)
    obtain ⟨none, -, none'⟩ := others first second
    rw [none, none']
    exact .none
  obtain ⟨equal, documents, -⟩ := equal l unsigned alike
  exact ⟨by decide, size.trans (by decide), (values _).trans (by decide),
    (identical l swapped same).1, by decide, equal, documents⟩

end Config

end EngineConsole
