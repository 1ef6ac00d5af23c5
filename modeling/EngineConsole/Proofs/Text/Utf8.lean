import EngineConsole.Text.Utf8
import Mathlib.Algebra.BigOperators.Group.List.Basic
import Mathlib.Data.List.Basic

/-!
# Bytes of a text

What is encoded is decoded again: every character by itself, whatever follows it.
-/

set_option autoImplicit false

namespace EngineConsole.Text

theorem toList_bytes (bytes : ByteArray) : bytes.toList = bytes.data.toList := by
  have loop (n i : Nat) (left : bytes.size - i = n) (r : List UInt8) :
      ByteArray.toList.loop bytes i r = r.reverse ++ bytes.data.toList.drop i := by
    induction n generalizing i r with
    | zero =>
        have done : bytes.data.toList.length ≤ i := by
          have := bytes.size_data
          simp only [Array.length_toList]
          omega
        rw [ByteArray.toList.loop, if_neg (by omega), List.drop_eq_nil_of_le done, List.append_nil]
    | succ n ih =>
        have inside : i < bytes.size := by omega
        have there : i < bytes.data.toList.length := by
          simpa using inside
        have byte : bytes.get! i = bytes.data.toList[i] := by
          simp [ByteArray.get!, inside]
        rw [ByteArray.toList.loop, if_pos inside, ih (i + 1) (by omega),
          List.drop_eq_getElem_cons there, byte]
        simp
  exact loop _ 0 rfl []

theorem encode_eq (s : String) : encode s = s.toList.flatMap String.utf8EncodeChar := by
  have bytes (cs : List Char) : cs.utf8Encode.data.toList =
      cs.flatMap String.utf8EncodeChar := by
    induction cs with
    | nil => rfl
    | cons c more ih =>
        rw [List.utf8Encode_cons, ByteArray.toList_data_append, ih, List.utf8Encode_singleton,
          List.toList_data_toByteArray, List.flatMap_cons]
  rw [encode, toList_bytes, String.toUTF8_eq_toByteArray, ← String.utf8Encode_toList, bytes]

/-- No text has more characters than bytes. -/
theorem length_le_utf8ByteSize (s : String) : s.toList.length ≤ s.utf8ByteSize := by
  have bytes : (encode s).length = s.utf8ByteSize := by
    rw [encode, toList_bytes, Array.length_toList]
    rfl
  have each : ∀ n ∈ s.toList.map fun c => (String.utf8EncodeChar c).length, 1 ≤ n := by
    intro n member
    obtain ⟨c, -, rfl⟩ := List.mem_map.mp member
    rw [String.length_utf8EncodeChar]
    exact c.utf8Size_pos
  have most := List.length_le_sum_of_one_le _ each
  rwa [List.length_map, ← List.length_flatMap, ← encode_eq, bytes] at most

theorem toNat_byte {n : Nat} (small : n < 256) : (UInt8.ofNat n).toNat = n :=
  UInt8.toNat_ofNat_of_lt' small

theorem decode_plain {b : UInt8} (plain : b.toNat < 0x80) (rest : List UInt8) :
    decode (b :: rest) = .char (Char.ofNat b.toNat) :: decode rest := by
  rw [decode.eq_def]
  exact if_pos plain

theorem decode_lead (code taken : Nat) {b : UInt8} {lead : Lead} {rest : List UInt8}
    (high : ¬b.toNat < 0x80) (found : lead? b.toNat = some lead)
    (followed : follow lead.value lead.more lead.low lead.high rest = (some code, taken)) :
    decode (b :: rest) = .char (Char.ofNat code) :: decode (rest.drop taken) := by
  rw [decode.eq_def]
  dsimp only
  rw [if_neg high, found]
  dsimp only
  rw [followed]

theorem follow_more {low high : Nat} {b : UInt8} (above : low ≤ b.toNat) (below : b.toNat ≤ high)
    (value more : Nat) (rest : List UInt8) :
    follow value (more + 1) low high (b :: rest) =
      ((follow (value * 64 + (b.toNat - 0x80)) more 0x80 0xBF rest).1,
        (follow (value * 64 + (b.toNat - 0x80)) more 0x80 0xBF rest).2 + 1) := by
  rw [follow, if_pos ⟨above, below⟩]

theorem decode_two {v : Nat} (low : 0x7f < v) (high : v ≤ 0x7ff) (rest : List UInt8) :
    decode (.ofNat (v / 64 % 32 + 0xc0) :: .ofNat (v % 64 + 0x80) :: rest) =
      .char (Char.ofNat v) :: decode rest := by
  have first : (UInt8.ofNat (v / 64 % 32 + 0xc0)).toNat = v / 64 % 32 + 0xc0 :=
    toNat_byte (by omega)
  have second : (UInt8.ofNat (v % 64 + 0x80)).toNat = v % 64 + 0x80 :=
    toNat_byte (by omega)
  have lead : lead? (UInt8.ofNat (v / 64 % 32 + 0xc0)).toNat =
      some ⟨v / 64 % 32, 1, 0x80, 0xBF⟩ := by
    rw [first]
    unfold lead?
    rw [if_pos (by omega), Nat.add_sub_cancel]
  refine (decode_lead v 1 (by omega) lead ?_).trans rfl
  dsimp only
  rw [follow_more (by omega) (by omega), second, Nat.add_sub_cancel]
  have whole : v / 64 % 32 * 64 + v % 64 = v := by omega
  rw [follow, whole]

/-- The first byte excludes overlong forms and surrogates by the bytes that it admits next. -/
theorem decode_three {v : Nat} (low : 0x7ff < v) (high : v ≤ 0xffff)
    (scalar : v < 0xd800 ∨ 0xdfff < v) (rest : List UInt8) :
    decode (.ofNat (v / 4096 % 16 + 0xe0) :: .ofNat (v / 64 % 64 + 0x80) ::
      .ofNat (v % 64 + 0x80) :: rest) = .char (Char.ofNat v) :: decode rest := by
  have first : (UInt8.ofNat (v / 4096 % 16 + 0xe0)).toNat = v / 4096 % 16 + 0xe0 :=
    toNat_byte (by omega)
  have second : (UInt8.ofNat (v / 64 % 64 + 0x80)).toNat = v / 64 % 64 + 0x80 :=
    toNat_byte (by omega)
  have third : (UInt8.ofNat (v % 64 + 0x80)).toNat = v % 64 + 0x80 :=
    toNat_byte (by omega)
  obtain ⟨least, most, lead, above, below⟩ : ∃ least most,
      lead? (v / 4096 % 16 + 0xe0) = some ⟨v / 4096 % 16, 2, least, most⟩ ∧
        least ≤ v / 64 % 64 + 0x80 ∧ v / 64 % 64 + 0x80 ≤ most := by
    by_cases overlong : v / 4096 % 16 = 0
    · exact ⟨0xA0, 0xBF, by rw [overlong]; rfl, by omega, by omega⟩
    by_cases surrogate : v / 4096 % 16 = 13
    · exact ⟨0x80, 0x9F, by rw [surrogate]; rfl, by omega, by omega⟩
    refine ⟨0x80, 0xBF, ?_, by omega, by omega⟩
    unfold lead?
    rw [if_neg (by omega), if_neg (by omega), if_neg (by omega), if_pos (by omega),
      Nat.add_sub_cancel]
  rw [← first] at lead
  rw [← second] at above below
  refine (decode_lead v 2 (by omega) lead ?_).trans rfl
  rw [follow_more above below, follow_more (by omega) (by omega), second, third,
    Nat.add_sub_cancel, Nat.add_sub_cancel]
  have whole : (v / 4096 % 16 * 64 + v / 64 % 64) * 64 + v % 64 = v := by omega
  rw [follow, whole]

theorem decode_four {v : Nat} (low : 0xffff < v) (high : v < 0x110000) (rest : List UInt8) :
    decode (.ofNat (v / 262144 % 8 + 0xf0) :: .ofNat (v / 4096 % 64 + 0x80) ::
      .ofNat (v / 64 % 64 + 0x80) :: .ofNat (v % 64 + 0x80) :: rest) =
        .char (Char.ofNat v) :: decode rest := by
  have first : (UInt8.ofNat (v / 262144 % 8 + 0xf0)).toNat = v / 262144 % 8 + 0xf0 :=
    toNat_byte (by omega)
  have second : (UInt8.ofNat (v / 4096 % 64 + 0x80)).toNat = v / 4096 % 64 + 0x80 :=
    toNat_byte (by omega)
  have third : (UInt8.ofNat (v / 64 % 64 + 0x80)).toNat = v / 64 % 64 + 0x80 :=
    toNat_byte (by omega)
  have fourth : (UInt8.ofNat (v % 64 + 0x80)).toNat = v % 64 + 0x80 :=
    toNat_byte (by omega)
  obtain ⟨least, most, lead, above, below⟩ : ∃ least most,
      lead? (v / 262144 % 8 + 0xf0) = some ⟨v / 262144 % 8, 3, least, most⟩ ∧
        least ≤ v / 4096 % 64 + 0x80 ∧ v / 4096 % 64 + 0x80 ≤ most := by
    by_cases overlong : v / 262144 % 8 = 0
    · exact ⟨0x90, 0xBF, by rw [overlong]; rfl, by omega, by omega⟩
    by_cases last : v / 262144 % 8 = 4
    · exact ⟨0x80, 0x8F, by rw [last]; rfl, by omega, by omega⟩
    refine ⟨0x80, 0xBF, ?_, by omega, by omega⟩
    unfold lead?
    rw [if_neg (by omega), if_neg (by omega), if_neg (by omega), if_neg (by omega),
      if_neg (by omega), if_pos (by omega), Nat.add_sub_cancel]
  rw [← first] at lead
  rw [← second] at above below
  refine (decode_lead v 3 (by omega) lead ?_).trans rfl
  rw [follow_more above below, follow_more (by omega) (by omega), follow_more (by omega) (by omega),
    second, third, fourth, Nat.add_sub_cancel, Nat.add_sub_cancel, Nat.add_sub_cancel]
  have whole : ((v / 262144 % 8 * 64 + v / 4096 % 64) * 64 + v / 64 % 64) * 64 + v % 64 = v := by
    omega
  rw [follow, whole]

theorem decode_char (c : Char) (rest : List UInt8) :
    decode (String.utf8EncodeChar c ++ rest) = .char c :: decode rest := by
  have same : Char.ofNat c.val.toNat = c := Char.ofNat_toNat c
  have scalar : c.val.toNat < 0xd800 ∨ 0xdfff < c.val.toNat ∧ c.val.toNat < 0x110000 := c.valid
  generalize value : c.val.toNat = v at same scalar
  unfold String.utf8EncodeChar
  rw [value]
  dsimp only
  split
  next plain =>
    have byte : (UInt8.ofNat v).toNat = v := toNat_byte (by omega)
    refine (decode_plain (by omega) rest).trans ?_
    rw [byte, same]
  split
  next low high => exact same ▸ decode_two (by omega) high rest
  split
  next low high => exact same ▸ decode_three (by omega) high (scalar.imp_right And.left) rest
  next low => exact same ▸ decode_four (by omega) (by omega) rest

theorem decode_encode (s : String) : decode (encode s) = glyphs s := by
  rw [encode_eq, glyphs]
  induction s.toList with
  | nil => rw [List.flatMap_nil, decode]; rfl
  | cons c more ih => rw [List.flatMap_cons, decode_char, ih, List.map_cons]

theorem decode?_encode (s : String) : decode? (encode s) = some s := by
  have chars (cs : List Char) : (cs.map Glyph.char).mapM Glyph.char? = some cs := by
    induction cs with
    | nil => rfl
    | cons c more ih => simp [Glyph.char?, ih]
  rw [decode?, decode_encode, glyphs, chars, Option.map_some, String.ofList_toList]

theorem map_char_inj {cs ds : List Char} (same : cs.map Glyph.char = ds.map .char) : cs = ds :=
  List.map_injective_iff.mpr (fun _ _ => Glyph.char.inj) same

/-! ## Cut bytes -/

theorem forall₂_of_mapM {α β : Type} {f : α → Option β} {l : List α} {bs : List β}
    (all : l.mapM f = some bs) : List.Forall₂ (fun a b => f a = some b) l bs := by
  induction l generalizing bs with
  | nil =>
      cases all
      exact .nil
  | cons a more ih =>
      rw [List.mapM_cons] at all
      obtain ⟨b, first, all⟩ := Option.bind_eq_some_iff.mp all
      obtain ⟨rest, later, all⟩ := Option.bind_eq_some_iff.mp all
      cases all
      exact .cons first (ih later)

/-- Bytes are a text if nothing in them is stray. -/
theorem decode_of_decode? {bytes : List UInt8} {s : String} (read : decode? bytes = some s) :
    decode bytes = glyphs s := by
  obtain ⟨cs, all, rfl⟩ := Option.map_eq_some_iff.mp read
  rw [glyphs, String.toList_ofList]
  have pairs := forall₂_of_mapM all
  clear read all
  generalize decode bytes = gs at pairs
  induction pairs with
  | nil => rfl
  | @cons g c _ _ first _ ih =>
      cases g with
      | char =>
          cases first
          exact congrArg _ ih
      | stray => cases first

theorem follow_append {value more low high : Nat} {bytes : List UInt8} {code taken : Nat}
    (followed : follow value more low high bytes = (some code, taken)) (rest : List UInt8) :
    follow value more low high (bytes ++ rest) = (some code, taken) ∧ taken ≤ bytes.length := by
  induction more generalizing value low high bytes taken with
  | zero =>
      rw [follow] at followed ⊢
      cases followed
      exact ⟨rfl, Nat.zero_le _⟩
  | succ more ih =>
      cases bytes with
      | nil => cases followed
      | cons b bytes =>
          by_cases inside : low ≤ b.toNat ∧ b.toNat ≤ high
          · rw [follow_more inside.1 inside.2] at followed
            obtain ⟨found, rfl⟩ := Prod.mk.inj followed
            obtain ⟨later, short⟩ := ih (Prod.ext found rfl)
            rw [List.cons_append, follow_more inside.1 inside.2, later]
            exact ⟨rfl, Nat.succ_le_succ short⟩
          · rw [follow, if_neg inside] at followed
            cases followed

/-- Bytes that are a text stay what they are whatever follows them. -/
theorem decode_append {bytes : List UInt8} (whole : ∀ g ∈ decode bytes, ∃ c, g = .char c)
    (rest : List UInt8) : decode (bytes ++ rest) = decode bytes ++ decode rest := by
  induction bytes using decode.induct with
  | case1 => rw [List.nil_append, decode.eq_def []]; rfl
  | case2 b more plain ih =>
      rw [decode_plain plain] at whole ⊢
      rw [List.cons_append, decode_plain plain, ih (List.forall_mem_cons.mp whole).2]
      rfl
  | case3 b more high none ih =>
      rw [decode.eq_def] at whole
      dsimp only at whole
      rw [if_neg high, none] at whole
      obtain ⟨c, same⟩ := whole _ List.mem_cons_self
      cases same
  | case4 b more high lead found code taken followed ih =>
      rw [decode_lead code taken high found followed] at whole ⊢
      obtain ⟨followed', short⟩ := follow_append followed rest
      rw [List.cons_append, decode_lead code taken high found followed',
        List.drop_append_of_le_length short, ih (List.forall_mem_cons.mp whole).2]
      rfl
  | case5 b more high lead found taken followed ih =>
      rw [decode.eq_def] at whole
      dsimp only at whole
      rw [if_neg high, found] at whole
      dsimp only at whole
      rw [followed] at whole
      obtain ⟨c, same⟩ := whole _ List.mem_cons_self
      cases same

theorem decode_ne_nil {bytes : List UInt8} (nonempty : bytes ≠ []) : decode bytes ≠ [] := by
  obtain ⟨b, rest, rfl⟩ := List.exists_cons_of_ne_nil nonempty
  rw [decode.eq_def]
  dsimp only
  split
  next => exact List.cons_ne_nil _ _
  next =>
    split
    next => exact List.cons_ne_nil _ _
    next => split <;> exact List.cons_ne_nil _ _

/-- What is left of an encoded text is no text, or it is what is left of the text. -/
theorem decode?_cut {s : String} {bytes lost : List UInt8} (same : encode s = bytes ++ lost)
    (nonempty : lost ≠ []) :
    decode? bytes = none ∨
      ∃ t, decode? bytes = some t ∧ ∃ cs, cs ≠ [] ∧ s.toList = t.toList ++ cs := by
  cases read : decode? bytes with
  | none => exact .inl rfl
  | some t =>
      refine .inr ⟨t, rfl, ?_⟩
      have left := decode_of_decode? read
      have chars : ∀ g ∈ decode bytes, ∃ c, g = .char c := by
        rw [left]
        intro g member
        obtain ⟨c, -, rfl⟩ := List.mem_map.mp member
        exact ⟨c, rfl⟩
      have all : glyphs s = glyphs t ++ decode lost := by
        rw [← left, ← decode_append chars, ← same, decode_encode]
      obtain ⟨cs, ds, split, first, rest⟩ := List.map_eq_append_iff.mp all
      obtain rfl : cs = t.toList := map_char_inj first
      refine ⟨ds, ?_, ?_⟩
      · rintro rfl
        exact decode_ne_nil nonempty rest.symm
      · exact split

end EngineConsole.Text
