import CallAtlas.Text.Utf8
import Mathlib.Data.String.Basic

/-!
# Well-formed bytes and their text

Reading and writing text are inverse to each other: bytes are well-formed exactly when they are the
bytes of a text, and then this is the text that is read. A reader that accepts everything reads
well-formed bytes in the same way, and shows U+FFFD in whatever it reads of other bytes.

Everything rests on the first piece of a sequence, where the payload bits of up to four bytes are
compared with the number of a character.
-/

namespace CallAtlas.Text.Utf8

variable {lead b : UInt8} {rest bytes : Bytes} {c : Char}

/-! The ranges of bytes, as numbers -/

theorem isTail_iff : isTail b = true ↔ 0x80 ≤ b.toNat ∧ b.toNat ≤ 0xBF := by
  simp [isTail, UInt8.le_iff_toNat_le]

theorem isSecond_iff : isSecond lead b = true ↔
    (0x80 ≤ b.toNat ∧ b.toNat ≤ 0xBF) ∧ (lead.toNat = 0xE0 → 0xA0 ≤ b.toNat) ∧
      (lead.toNat = 0xED → b.toNat ≤ 0x9F) ∧ (lead.toNat = 0xF0 → 0x90 ≤ b.toNat) ∧
      (lead.toNat = 0xF4 → b.toNat ≤ 0x8F) := by
  simp only [isSecond, isTail, beq_iff_eq, ← UInt8.toNat_inj]
  split_ifs <;> simp_all [UInt8.le_iff_toNat_le] <;> omega

theorem announced_iff {n : Nat} (begins : n ≠ 0) : announced lead = n ↔
    n = 1 ∧ lead.toNat ≤ 0x7F ∨ n = 2 ∧ 0xC2 ≤ lead.toNat ∧ lead.toNat ≤ 0xDF ∨
      n = 3 ∧ 0xE0 ≤ lead.toNat ∧ lead.toNat ≤ 0xEF ∨
      n = 4 ∧ 0xF0 ≤ lead.toNat ∧ lead.toNat ≤ 0xF4 := by
  simp only [announced, UInt8.le_iff_toNat_le, Bool.and_eq_true, decide_eq_true_eq]
  split_ifs <;> simp_all <;> omega

/-! One character -/

/-- The bytes of the character with a number, as numbers. -/
def codeUnits (n : Nat) : List Nat :=
  if n ≤ 0x7F then [n]
  else if n ≤ 0x7FF then [n / 64 + 0xC0, n % 64 + 0x80]
  else if n ≤ 0xFFFF then [n / 4096 + 0xE0, n / 64 % 64 + 0x80, n % 64 + 0x80]
  else [n / 262144 + 0xF0, n / 4096 % 64 + 0x80, n / 64 % 64 + 0x80, n % 64 + 0x80]

theorem toNat_valid (c : Char) : c.toNat < 0xD800 ∨ 0xDFFF < c.toNat ∧ c.toNat < 0x110000 := c.valid

theorem map_toNat_utf8EncodeChar (c : Char) :
    (String.utf8EncodeChar c).map UInt8.toNat = codeUnits c.toNat := by
  have valid := toNat_valid c
  simp only [String.utf8EncodeChar, codeUnits, Char.toNat_val]
  split_ifs <;> simp <;> omega

theorem cons_append_eq_utf8EncodeChar (tail rest : Bytes) {n : Nat}
    (valid : n < 0xD800 ∨ 0xDFFF < n ∧ n < 0x110000)
    (same : (lead :: tail).map UInt8.toNat = codeUnits n) :
    lead :: (tail ++ rest) = String.utf8EncodeChar (Char.ofNat n) ++ rest := by
  have number : (Char.ofNat n).toNat = n := by
    rw [Char.ofNat, dif_pos valid]
    rfl
  have bytes : lead :: tail = String.utf8EncodeChar (Char.ofNat n) := by
    apply (List.map_inj_right (f := UInt8.toNat) fun _ _ => UInt8.toNat_inj.mp).mp
    rw [same, map_toNat_utf8EncodeChar, number]
  rw [← bytes, List.cons_append]

/-- A piece that is a character consists of the bytes of this character. -/
theorem eq_append_of_piece {more : Nat} (h : piece lead rest = (some c, more)) :
    lead :: rest = String.utf8EncodeChar c ++ rest.drop more := by
  unfold piece push at h
  split at h
  · next one =>
    rw [announced_iff (by decide)] at one
    simp only [Prod.mk.injEq, Option.some.injEq] at h
    obtain ⟨rfl, rfl⟩ := h
    apply cons_append_eq_utf8EncodeChar []
    · omega
    · rw [codeUnits, if_pos (by omega)]
      rfl
  · next b rest two =>
    rw [announced_iff (by decide)] at two
    split_ifs at h with second <;>
      simp only [Prod.mk.injEq, Option.some.injEq, reduceCtorEq, false_and] at h
    rw [isTail_iff] at second
    obtain ⟨rfl, rfl⟩ := h
    apply cons_append_eq_utf8EncodeChar [b]
    · omega
    · rw [codeUnits, if_neg (by omega), if_pos (by omega)]
      simp only [List.map, List.cons.injEq, and_true]
      omega
  · next b d rest three =>
    rw [announced_iff (by decide)] at three
    split_ifs at h with second third <;>
      simp only [Prod.mk.injEq, Option.some.injEq, reduceCtorEq, false_and] at h
    rw [isSecond_iff] at second
    rw [isTail_iff] at third
    obtain ⟨rfl, rfl⟩ := h
    apply cons_append_eq_utf8EncodeChar [b, d]
    · omega
    · rw [codeUnits, if_neg (by omega), if_neg (by omega), if_pos (by omega)]
      simp only [List.map, List.cons.injEq, and_true]
      omega
  · cases h
  · next b d e rest four =>
    rw [announced_iff (by decide)] at four
    split_ifs at h with second third fourth <;>
      simp only [Prod.mk.injEq, Option.some.injEq, reduceCtorEq, false_and] at h
    rw [isSecond_iff] at second
    rw [isTail_iff] at third fourth
    obtain ⟨rfl, rfl⟩ := h
    apply cons_append_eq_utf8EncodeChar [b, d, e]
    · omega
    · rw [codeUnits, if_neg (by omega), if_neg (by omega), if_neg (by omega)]
      simp only [List.map, List.cons.injEq, and_true]
      omega
  all_goals cases h

theorem ofNat_eq {n : Nat} (h : n = c.toNat) : Char.ofNat n = c := by rw [h, Char.ofNat_toNat]

/-- The bytes of a character are one piece, whatever follows. -/
theorem piece_of_codeUnits {tail : Bytes} (h : (lead :: tail).map UInt8.toNat = codeUnits c.toNat)
    (rest : Bytes) : piece lead (tail ++ rest) = (some c, tail.length) := by
  have valid := toNat_valid c
  unfold codeUnits at h
  split_ifs at h with one two three <;>
    simp only [List.map_cons, List.cons.injEq, List.map_eq_cons_iff, List.map_eq_nil_iff] at h
  · obtain ⟨first, rfl⟩ := h
    have length : announced lead = 1 := by rw [announced_iff (by decide)]; omega
    simp only [piece, length]
    rw [ofNat_eq first]
    rfl
  · obtain ⟨first, b, _, rfl, second, rfl⟩ := h
    have length : announced lead = 2 := by rw [announced_iff (by decide)]; omega
    have tail : isTail b = true := by rw [isTail_iff]; omega
    simp only [piece, length, List.cons_append, if_pos tail]
    rw [ofNat_eq (c := c) (by unfold push; omega)]
    rfl
  · obtain ⟨first, b, _, rfl, second, d, _, rfl, third, rfl⟩ := h
    have length : announced lead = 3 := by rw [announced_iff (by decide)]; omega
    have range : isSecond lead b = true := by rw [isSecond_iff]; omega
    have tail : isTail d = true := by rw [isTail_iff]; omega
    simp only [piece, length, List.cons_append, if_pos range, if_pos tail]
    rw [ofNat_eq (c := c) (by unfold push; omega)]
    rfl
  · obtain ⟨first, b, _, rfl, second, d, _, rfl, third, e, _, rfl, fourth, rfl⟩ := h
    have length : announced lead = 4 := by rw [announced_iff (by decide)]; omega
    have range : isSecond lead b = true := by rw [isSecond_iff]; omega
    have tail : isTail d = true := by rw [isTail_iff]; omega
    have last : isTail e = true := by rw [isTail_iff]; omega
    simp only [piece, length, List.cons_append, if_pos range, if_pos tail, if_pos last]
    rw [ofNat_eq (c := c) (by unfold push; omega)]
    rfl

/-! Whole sequences -/

theorem pieces_cons (lead : UInt8) (rest : Bytes) :
    pieces (lead :: rest) = (piece lead rest).1 :: pieces (rest.drop (piece lead rest).2) := by
  rw [pieces]

theorem pieces_utf8EncodeChar_append (c : Char) (rest : Bytes) :
    pieces (String.utf8EncodeChar c ++ rest) = some c :: pieces rest := by
  have units := map_toNat_utf8EncodeChar c
  obtain ⟨lead, tail, bytes⟩ := List.exists_cons_of_ne_nil (String.utf8EncodeChar_ne_nil (c := c))
  rw [bytes] at units ⊢
  rw [List.cons_append, pieces_cons, piece_of_codeUnits units rest, List.drop_left]

/-- The characters of some bytes are read, whatever follows. -/
theorem pieces_flatMap_append (chars : List Char) (rest : Bytes) :
    pieces (chars.flatMap String.utf8EncodeChar ++ rest) = chars.map some ++ pieces rest := by
  induction chars with
  | nil => rfl
  | cons c chars ih =>
      rw [List.flatMap_cons, List.append_assoc, pieces_utf8EncodeChar_append, ih, List.map_cons,
        List.cons_append]

theorem pieces_flatMap (chars : List Char) :
    pieces (chars.flatMap String.utf8EncodeChar) = chars.map some := by
  have read := pieces_flatMap_append chars []
  rwa [List.append_nil, pieces, List.append_nil] at read

/-- Pieces that are characters only are the characters of the bytes. -/
theorem eq_flatMap_of_pieces {chars : List Char} (h : pieces bytes = chars.map some) :
    bytes = chars.flatMap String.utf8EncodeChar := by
  induction chars generalizing bytes with
  | nil =>
      cases bytes with
      | nil => rfl
      | cons lead rest =>
          rw [pieces_cons] at h
          cases h
  | cons c chars ih =>
      cases bytes with
      | nil =>
          rw [pieces] at h
          cases h
      | cons lead rest =>
          rw [pieces_cons, List.map_cons, List.cons.injEq] at h
          obtain ⟨first, later⟩ := h
          have bytes : lead :: rest = _ := eq_append_of_piece (Prod.ext first rfl)
          rw [bytes, List.flatMap_cons, ih later]

theorem pieces_eq_iff {chars : List Char} :
    pieces bytes = chars.map some ↔ bytes = chars.flatMap String.utf8EncodeChar :=
  ⟨eq_flatMap_of_pieces, fun h => h ▸ pieces_flatMap chars⟩

/-! Texts -/

theorem toList_loop (bytes : ByteArray) (i : Nat) (read : List UInt8) :
    ByteArray.toList.loop bytes i read = read.reverse ++ bytes.data.toList.drop i := by
  fun_induction ByteArray.toList.loop bytes i read with
  | case1 i read inside ih =>
      have bound : i < bytes.data.toList.length := inside
      have byte : bytes.get! i = bytes.data.toList[i] := by
        show bytes.data[i]! = _
        rw [getElem!_pos bytes.data i inside, Array.getElem_toList]
      rw [ih, List.drop_eq_getElem_cons bound, ← byte, List.reverse_cons, List.append_assoc]
      rfl
  | case2 i read outside =>
      rw [List.drop_eq_nil_of_le (Nat.le_of_not_lt outside), List.append_nil]

theorem encode_eq_data (s : String) : encode s = s.toByteArray.data.toList := by
  rw [encode, String.toUTF8_eq_toByteArray]
  exact toList_loop s.toByteArray 0 []

theorem encode_eq (s : String) : encode s = s.toList.flatMap String.utf8EncodeChar := by
  rw [encode_eq_data]
  conv => lhs; rw [← String.ofList_toList (s := s)]
  rw [String.toByteArray_ofList, List.utf8Encode, List.toList_data_toByteArray]

theorem length_encode (s : String) : (encode s).length = s.utf8ByteSize := by
  rw [encode_eq_data, Array.length_toList]
  exact String.size_toByteArray

theorem encode_append (s t : String) : encode (s ++ t) = encode s ++ encode t := by
  simp only [encode_eq, String.toList_append, List.flatMap_append]

/-- No character begins as another one does: the bytes of a text are the beginning of other bytes
just when its characters are the beginning of the other characters. -/
theorem encode_isPrefix_encode_iff {s t : String} :
    encode s <+: encode t ↔ s.toList <+: t.toList := by
  simp only [encode_eq]
  constructor
  · rintro ⟨rest, same⟩
    have read := congrArg pieces same
    rw [pieces_flatMap_append, pieces_flatMap] at read
    have injective : Function.Injective (some : Char → Option Char) := fun _ _ => Option.some.inj
    exact (List.prefix_map_iff_of_injective injective).mp ⟨pieces rest, read⟩
  · rintro ⟨rest, same⟩
    rw [← same, List.flatMap_append]
    exact List.prefix_append _ _

theorem mapM_pieces_eq_some_iff {pieces : List (Option Char)} {chars : List Char} :
    pieces.mapM id = some chars ↔ pieces = chars.map some := by
  induction pieces generalizing chars with
  | nil => cases chars <;> simp
  | cons piece pieces ih =>
      cases piece with
      | none => cases chars <;> simp [List.mapM_cons]
      | some c =>
          simp only [List.mapM_cons, id_eq, Option.bind_eq_bind, Option.bind_some,
            Option.bind_eq_some_iff, ih, Option.pure_def, Option.some.injEq]
          constructor
          · rintro ⟨chars, rfl, rfl⟩
            rfl
          · intro read
            cases chars with
            | nil => cases read
            | cons d chars =>
                rw [List.map_cons, List.cons.injEq, Option.some.injEq] at read
                exact ⟨chars, read.2, congrArg (· :: chars) read.1⟩

/-- Bytes are read as a text exactly when they are its bytes. -/
theorem decode?_eq_some_iff {s : String} : decode? bytes = some s ↔ bytes = encode s := by
  rw [encode_eq, ← pieces_eq_iff, ← mapM_pieces_eq_some_iff, decode?, Option.map_eq_some_iff]
  constructor
  · rintro ⟨chars, read, rfl⟩
    rwa [String.toList_ofList]
  · intro read
    exact ⟨s.toList, read, String.ofList_toList⟩

theorem decode_encode (s : String) : decode (encode s) = s := by
  rw [encode_eq, decode, pieces_flatMap, List.map_map]
  exact (congrArg String.ofList (List.map_id _)).trans String.ofList_toList

/-- Bytes that are no text show it in whatever is read of them. -/
theorem replacement_mem_decode (h : decode? bytes = none) :
    Char.ofNat 0xFFFD ∈ (decode bytes).toList := by
  have broken : none ∈ pieces bytes := by
    by_contra whole
    have chars : pieces bytes = ((pieces bytes).map (·.getD default)).map some := by
      rw [List.map_map]
      refine (List.map_id _).symm.trans (List.map_congr_left fun piece hpiece => ?_)
      cases piece with
      | none => exact absurd hpiece whole
      | some c => rfl
    rw [decode?, mapM_pieces_eq_some_iff.mpr chars] at h
    cases h
  rw [decode, String.toList_ofList]
  exact List.mem_map.mpr ⟨none, broken, rfl⟩

end CallAtlas.Text.Utf8
