import Mathlib.Data.String.Basic

/-!
# Text order is the order of UTF-8 bytes

Texts are compared character by character, by code point. Reports are meant to be sorted by the
bytes of their UTF-8 encoding, which is how the host compares texts. The two orders agree: UTF-8
encodes a smaller code point with a smaller first byte where the lengths of the encodings differ,
and with a byte sequence that is smaller at its first difference where they agree; and no encoding
of one character is a prefix of another's (`utf8EncodeChar_append_lt`). Comparing two texts
character by character is therefore comparing their encodings byte by byte
(`flatMap_utf8EncodeChar_lt_iff`, `lt_iff_utf8_lt`).
-/

namespace MatchCoverage

namespace ByteOrder

/-- A code point is below `0x110000`. -/
theorem toNat_val_lt (c : Char) : c.val.toNat < 0x110000 := by
  rcases c.valid with below | ⟨-, below⟩
  · omega
  · exact below

/-- Two byte sequences whose first bytes differ compare as those bytes. -/
theorem byte_cons_lt {a b : Nat} (ha : a < 256) (hb : b < 256) (h : a < b) (x y : List UInt8) :
    UInt8.ofNat a :: x < UInt8.ofNat b :: y := by
  apply List.Lex.rel
  rw [UInt8.lt_iff_toNat_lt, UInt8.toNat_ofNat_of_lt' ha, UInt8.toNat_ofNat_of_lt' hb]
  exact h

/-- Two byte sequences with one first byte compare as the rest. -/
theorem byte_cons_lt_of_eq {a b : Nat} (h : a = b) {x y : List UInt8} (rest : x < y) :
    UInt8.ofNat a :: x < UInt8.ofNat b :: y :=
  h ▸ List.Lex.cons rest

/-- The encoding of a smaller code point is smaller, whatever follows either encoding: it is
smaller at the first byte where the two differ, and neither is a prefix of the other. -/
theorem utf8EncodeChar_append_lt {c d : Char} (lt : c < d) (x y : List UInt8) :
    String.utf8EncodeChar c ++ x < String.utf8EncodeChar d ++ y := by
  have hlt : c.val.toNat < d.val.toNat := UInt32.lt_iff_toNat_lt.mp lt
  have hd := toNat_val_lt d
  simp only [String.utf8EncodeChar]
  generalize c.val.toNat = v at *
  generalize d.val.toNat = w at *
  -- sixteen cases by the lengths of the two encodings, one to four bytes each; a larger code
  -- point never has a shorter encoding, and a longer one starts with a larger byte
  split_ifs <;> simp only [List.cons_append, List.nil_append]
  -- one byte against one to four
  · exact byte_cons_lt (by omega) (by omega) hlt x y
  · apply byte_cons_lt <;> omega
  · apply byte_cons_lt <;> omega
  · apply byte_cons_lt <;> omega
  -- two bytes against one to four: compare digit by digit, most significant first
  · omega
  · rcases Nat.lt_or_ge (v / 64) (w / 64) with first | first
    · apply byte_cons_lt <;> omega
    · apply byte_cons_lt_of_eq (by omega)
      apply byte_cons_lt <;> omega
  · apply byte_cons_lt <;> omega
  · apply byte_cons_lt <;> omega
  -- three bytes against one to four
  · omega
  · omega
  · rcases Nat.lt_or_ge (v / 4096) (w / 4096) with first | first
    · apply byte_cons_lt <;> omega
    · apply byte_cons_lt_of_eq (by omega)
      rcases Nat.lt_or_ge (v / 64) (w / 64) with second | second
      · apply byte_cons_lt <;> omega
      · apply byte_cons_lt_of_eq (by omega)
        apply byte_cons_lt <;> omega
  · apply byte_cons_lt <;> omega
  -- four bytes against one to four
  · omega
  · omega
  · omega
  · rcases Nat.lt_or_ge (v / 262144) (w / 262144) with first | first
    · apply byte_cons_lt <;> omega
    · apply byte_cons_lt_of_eq (by omega)
      rcases Nat.lt_or_ge (v / 4096) (w / 4096) with second | second
      · apply byte_cons_lt <;> omega
      · apply byte_cons_lt_of_eq (by omega)
        rcases Nat.lt_or_ge (v / 64) (w / 64) with third | third
        · apply byte_cons_lt <;> omega
        · apply byte_cons_lt_of_eq (by omega)
          apply byte_cons_lt <;> omega

theorem append_lt_append_left_iff {p x y : List UInt8} : p ++ x < p ++ y ↔ x < y := by
  induction p with
  | nil => rfl
  | cons b p ih => rw [List.cons_append, List.cons_append, List.cons_lt_cons_self, ih]

/-- Character lists compare as their UTF-8 encodings. -/
theorem flatMap_utf8EncodeChar_lt_iff (s t : List Char) :
    s.flatMap String.utf8EncodeChar < t.flatMap String.utf8EncodeChar ↔ s < t := by
  induction s generalizing t with
  | nil =>
    cases t with
    | nil => simp
    | cons d t =>
      obtain ⟨b, bs, encoded⟩ :=
        List.exists_cons_of_ne_nil (String.utf8EncodeChar_ne_nil (c := d))
      simp [encoded]
  | cons c s ih =>
    cases t with
    | nil => simp
    | cons d t =>
      rw [List.flatMap_cons, List.flatMap_cons]
      rcases lt_trichotomy c d with lt | rfl | gt
      · exact iff_of_true (utf8EncodeChar_append_lt lt _ _) (List.Lex.rel lt)
      · rw [append_lt_append_left_iff, ih, List.cons_lt_cons_self]
      · exact iff_of_false (List.lt_asymm (utf8EncodeChar_append_lt gt _ _))
          (List.lt_asymm (List.Lex.rel gt))

/-- A text is smaller than another exactly when its UTF-8 bytes are. -/
theorem lt_iff_utf8_lt (s t : String) :
    s < t ↔ s.toUTF8.data.toList < t.toUTF8.data.toList := by
  rw [String.lt_iff_toList_lt, String.toUTF8_eq_toByteArray, String.toUTF8_eq_toByteArray,
    ← String.utf8Encode_toList, ← String.utf8Encode_toList, List.utf8Encode, List.utf8Encode,
    List.toList_data_toByteArray, List.toList_data_toByteArray, flatMap_utf8EncodeChar_lt_iff]

end ByteOrder

end MatchCoverage
