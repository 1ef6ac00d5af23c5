import EngineConsole.Proofs.ConfigDocument
import EngineConsole.Proofs.Json.Cuts
import EngineConsole.Proofs.Text.Utf8

/-!
# Damaged exports

A document that was exported and is not whole any more is not imported: if its end is missing it is
cut short, and if anything but blanks follows it, it is malformed. So a file that was written in
part, or twice, is never taken for a smaller configuration. A whole one may still be taken for a
different configuration, if it has numbers that do not come back.
-/

set_option autoImplicit false

namespace EngineConsole

open Json (Cut EndsInNumber)

namespace Value

theorem json_cut {v : Value} (finite : v.isFinite = true) {p : List Char} (cut : Cut p v.json) :
    EndsInNumber p := by
  cases v with
  | flag b => exact Json.flag_endsInNumber cut
  | text s => exact Json.text_endsInNumber cut
  | number x =>
      obtain ⟨s, spells⟩ := Json.exists_spelling finite
      have inRange := Option.isSome_iff_exists.mpr (Json.exists_reread finite)
      rw [Json.reread_of_text spells.strict spells.text] at inRange
      exact Json.numeral_endsInNumber spells.strict spells.fits inRange (spells.text ▸ cut)

end Value

namespace Config

theorem stopsAtEnd_member {s : Json.Spacing} (blank : s.Blank) {e : String × Value}
    (finite : e.2.isFinite = true) : Json.StopsAtEnd member s Value.json e := by
  intro c p cut
  rcases Json.cut_cons cut with rfl | ⟨q, rfl, rest⟩
  · exact .inl rfl
  have colon : Json.colon ((':' :: q).map .char) = .ok (q.map .char) :=
    Json.colon_spaced Json.blank_nil _
  have token : EndsInNumber q := by
    rcases Json.cut_append rest with space | ⟨r, rfl, value⟩
    · left
      unfold Json.token
      rw [Json.skipSpace_blank (space.blank blank.afterColon)]
    · have cut := Value.json_cut finite value
      unfold EndsInNumber at cut ⊢
      rwa [List.map_append, Json.token_blank blank.afterColon]
  unfold member
  rw [colon]
  dsimp only [bind, Except.bind]
  unfold Json.scalar
  rcases token with short | ⟨n, inRange, read⟩
  · left
    rw [short]
    rfl
  · right
    obtain ⟨x, value⟩ := Option.isSome_iff_exists.mp inRange
    rw [read]
    dsimp only [bind, Except.bind]
    rw [Option.bind_some, valueOf?, value]
    exact ⟨_, rfl⟩

section

variable {c : Config}

theorem parse_cut (finite : c.Finite) {p : List Char} (cut : Cut p c.document.toList) :
    parse (String.ofList p) = .error .cutShort := by
  rw [document, String.toList_ofList] at cut
  have short := Json.object_cut Json.blank_pretty (fun e _ => reads_member Json.blank_pretty e)
    (fun e member => stopsAtEnd_member Json.blank_pretty (finite e member))
    (fun e member d => ⟨d.insert e.1 e.2.reread, if_pos (finite e member)⟩) .empty cut
  unfold parse Text.glyphs
  rw [String.toList_ofList]
  exact short

theorem parse_followed (finite : c.Finite) (more : String) :
    parse (c.document ++ more) =
      if (Json.skipSpace (more.toList.map .char)).isEmpty then .ok c.reread
      else .error .malformed := by
  have read := read_writeObject Json.blank_pretty c (more.toList.map .char)
  rw [foldlM_restore finite, insert_reread] at read
  unfold parse Text.glyphs
  rw [document, String.toList_append, String.toList_ofList, List.map_append, read]
  rfl

theorem parse_malformed (finite : c.Finite) {more : String}
    (extra : ¬Json.AreBlank more.toList) : parse (c.document ++ more) = .error .malformed := by
  refine (parse_followed finite more).trans (if_neg fun empty => extra ?_)
  exact Json.blank_of_skipSpace (List.isEmpty_iff.mp empty)

theorem document_not_blank (c : Config) : ¬Json.AreBlank c.document.toList := by
  intro blank
  have brace : '{' ∈ c.document.toList := by
    rw [document, String.toList_ofList, Json.writeObject]
    split <;> exact List.mem_cons_self
  cases blank '{' brace

end

/-- For a configuration of finite numbers, what is left of its document after a cut is cut short,
and the document with anything but blanks after it is malformed. So no file is imported in which the
document was cut, even inside a character, or written twice. The document with blanks after it is
read, as the configuration if and only if all numbers come back. -/
theorem damaged_exports_are_refused (c : Config) (finite : c.Finite) :
    (∀ p lost, lost ≠ [] → c.document.toList = p ++ lost →
      parse (String.ofList p) = .error .cutShort) ∧
    (∃ d, (d.same c = true ↔ c.Steady) ∧
      ∀ space, Json.AreBlank space.toList → parse (c.document ++ space) = .ok d) ∧
    (∀ more, ¬Json.AreBlank more.toList → parse (c.document ++ more) = .error .malformed) ∧
    (∀ bytes lost, lost ≠ [] → Text.encode c.document = bytes ++ lost →
      Config.import? (some bytes) = .error .unreadable ∨
        Config.import? (some bytes) = .error (.notConfig .cutShort)) ∧
    Config.import? (some (Text.encode c.document ++ Text.encode c.document)) =
      .error (.notConfig .malformed) := by
  refine ⟨?_, ⟨c.reread, same_iff_steady finite, ?_⟩, fun more => parse_malformed finite, ?_, ?_⟩
  · exact fun p lost nonempty same => parse_cut finite ⟨lost, nonempty, same.symm⟩
  · intro space blank
    refine (parse_followed finite space).trans (if_pos ?_)
    rw [Json.skipSpace_blank blank]
    rfl
  · intro bytes lost nonempty same
    unfold import?
    rcases Text.decode?_cut same nonempty with unreadable | ⟨t, read, rest, some, split⟩
    · left
      rw [Option.bind_some, unreadable]
    · right
      have short := parse_cut finite ⟨rest, some, split.symm⟩
      rw [String.ofList_toList] at short
      rw [Option.bind_some, read]
      dsimp only
      rw [short]
      rfl
  · have twice : Text.encode c.document ++ Text.encode c.document =
        Text.encode (c.document ++ c.document) := by
      rw [Text.encode_eq, Text.encode_eq, String.toList_append, List.flatMap_append]
    unfold import?
    rw [twice, Option.bind_some, Text.decode?_encode]
    dsimp only
    rw [parse_malformed finite c.document_not_blank]
    rfl

/-- A document that ends inside a number, where what is left of the number is another one. -/
theorem shortened_number_is_refused :
    let c : Config := .ofList [("n", .number (.ofNat 12))]
    c.Finite ∧ parse "\x7b\n  \"n\": 1" = .error .cutShort ∧
      parse (c.document ++ "\x7d") = .error .malformed ∧
      ∃ d, parse (c.document ++ "\n") = .ok d ∧ d.same c = true := by
  intro c
  have finite : c.Finite := by decide +kernel
  have steady : c.Steady := by decide +kernel
  obtain ⟨cut, ⟨d, same, spaced⟩, followed, -⟩ := damaged_exports_are_refused c finite
  have short := cut "\x7b\n  \"n\": 1".toList "2\n\x7d".toList (by decide) (by decide +kernel)
  rw [String.ofList_toList] at short
  have braced := followed "\x7d" fun blank => by cases blank '}' (by decide)
  exact ⟨finite, short, braced, d, spaced "\n" (Json.areBlank_of_all rfl), same.mpr steady⟩

/-- A whole document that is read as another configuration: `449.49106478873813` in it is read as
`449.4910647887382`. -/
theorem whole_document_is_misread :
    let c : Config := .ofList [("n", .number (.ofDecimal ⟨false, 44949106478873813, -14⟩))]
    let d : Config := .ofList [("n", .number (.ofDecimal ⟨false, 4494910647887382, -13⟩))]
    c.Finite ∧ parse (c.document ++ "\n") = .ok d ∧ d.same c = false := by
  intro c d
  have finite : c.Finite := by decide +kernel
  have blank : Json.skipSpace ("\n".toList.map .char) = [] := rfl
  have read : parse (c.document ++ "\n") = .ok c.reread := by
    rw [parse_followed finite, blank]
    rfl
  have other : c.reread = d := by decide +kernel
  exact ⟨finite, other ▸ read, by decide +kernel⟩

end Config

end EngineConsole
