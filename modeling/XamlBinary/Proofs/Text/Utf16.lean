import XamlBinary.Proofs.Bytes.LittleEndian
import XamlBinary.Text.Utf16

/-!
UTF-16 is decoded exactly: `decode` gives a list of characters precisely on
the units that `encode` makes of it, and the short way that `text?` takes for
ASCII gives the same.  The units and the bytes that store them determine each
other as well.
-/

namespace XamlBinary.Utf16

/-! ### Single characters -/

theorem char_ranges (c : Char) :
    c.toNat < 0xD800 ∨ 0xDFFF < c.toNat ∧ c.toNat < 0x110000 := c.valid

theorem toNat_charOfNat {n : Nat} (h : n < 0xD800 ∨ 0xDFFF < n ∧ n < 0x110000) :
    (Char.ofNat n).toNat = n := by
  rw [Char.ofNat, dif_pos h]
  exact UInt32.toNat_ofNatLT ..

theorem units_of_isPlain {unit : UInt16} (h : IsPlain unit) :
    units (Char.ofNat unit.toNat) = [unit] := by
  have hlt := unit.toNat_lt
  have hchar : (Char.ofNat unit.toNat).toNat = unit.toNat := by
    apply toNat_charOfNat
    rcases h with h | h
    · exact .inl h
    · exact .inr ⟨by omega, by omega⟩
  rw [units, hchar, if_pos (by omega), UInt16.ofNat_toNat]

theorem units_pairChar {high low : UInt16} (hhigh : IsHigh high) (hlow : IsLow low) :
    units (pairChar high low) = [high, low] := by
  obtain ⟨h₁, h₂⟩ := hhigh
  obtain ⟨h₃, h₄⟩ := hlow
  have hchar : (pairChar high low).toNat =
      0x10000 + (high.toNat - 0xD800) * 0x400 + (low.toNat - 0xDC00) :=
    toNat_charOfNat (.inr ⟨by omega, by omega⟩)
  rw [units, hchar, if_neg (by omega)]
  rw [show 0xD800 + (0x10000 + (high.toNat - 0xD800) * 0x400 + (low.toNat - 0xDC00) -
      0x10000) / 0x400 = high.toNat by omega, UInt16.ofNat_toNat]
  rw [show 0xDC00 + (0x10000 + (high.toNat - 0xD800) * 0x400 + (low.toNat - 0xDC00) -
      0x10000) % 0x400 = low.toNat by omega, UInt16.ofNat_toNat]

theorem decode_cons_of_isPlain {unit : UInt16} (h : IsPlain unit) (rest : List UInt16) :
    decode (unit :: rest) = (decode rest).map (Char.ofNat unit.toNat :: ·) := by
  rw [decode.eq_def]
  exact if_pos h

theorem decode_cons_cons {high low : UInt16} (hhigh : IsHigh high) (hlow : IsLow low)
    (rest : List UInt16) :
    decode (high :: low :: rest) = (decode rest).map (pairChar high low :: ·) := by
  have hplain : ¬ IsPlain high := by
    obtain ⟨h₁, h₂⟩ := hhigh
    rw [IsPlain]
    omega
  rw [decode.eq_3, if_neg hplain, if_pos hhigh, if_pos hlow]

theorem decode_units_append (c : Char) (rest : List UInt16) :
    decode (units c ++ rest) = (decode rest).map (c :: ·) := by
  have hc := char_ranges c
  rw [units]
  split
  · have hunit : (UInt16.ofNat c.toNat).toNat = c.toNat :=
      UInt16.toNat_ofNat_of_lt' (by simp [UInt16.size]; omega)
    have hplain : IsPlain (UInt16.ofNat c.toNat) := by
      rw [IsPlain, hunit]
      omega
    rw [List.singleton_append, decode_cons_of_isPlain hplain, hunit, Char.ofNat_toNat]
  · have hhigh : (UInt16.ofNat (0xD800 + (c.toNat - 0x10000) / 0x400)).toNat =
        0xD800 + (c.toNat - 0x10000) / 0x400 :=
      UInt16.toNat_ofNat_of_lt' (by simp [UInt16.size]; omega)
    have hlow : (UInt16.ofNat (0xDC00 + (c.toNat - 0x10000) % 0x400)).toNat =
        0xDC00 + (c.toNat - 0x10000) % 0x400 :=
      UInt16.toNat_ofNat_of_lt' (by simp [UInt16.size]; omega)
    have hpair : pairChar (UInt16.ofNat (0xD800 + (c.toNat - 0x10000) / 0x400))
        (UInt16.ofNat (0xDC00 + (c.toNat - 0x10000) % 0x400)) = c := by
      rw [pairChar, hhigh, hlow]
      rw [show 0x10000 + (0xD800 + (c.toNat - 0x10000) / 0x400 - 0xD800) * 0x400 +
        (0xDC00 + (c.toNat - 0x10000) % 0x400 - 0xDC00) = c.toNat by omega, Char.ofNat_toNat]
    rw [List.cons_append, List.singleton_append,
      decode_cons_cons (by rw [IsHigh, hhigh]; omega) (by rw [IsLow, hlow]; omega), hpair]

/-! ### Whole lists -/

theorem decode_encode (chars : List Char) : decode (encode chars) = some chars := by
  induction chars with
  | nil => rfl
  | cons c chars ih => rw [encode_cons, decode_units_append, ih, Option.map_some]

theorem encode_of_decode {us : List UInt16} {chars : List Char} (h : decode us = some chars) :
    encode chars = us := by
  fun_induction decode us generalizing chars with
  | case1 =>
      cases h
      rfl
  | case2 unit us hplain ih =>
      obtain ⟨rest, hrest, rfl⟩ := Option.map_eq_some_iff.mp h
      rw [encode_cons, units_of_isPlain hplain, ih hrest, List.singleton_append]
  | case3 => cases h
  | case4 high _ hhigh low rest hlow ih =>
      obtain ⟨chars', hchars, rfl⟩ := Option.map_eq_some_iff.mp h
      rw [encode_cons, units_pairChar hhigh hlow, ih hchars]
      rfl
  | case5 => cases h
  | case6 => cases h

theorem decode_eq_some_iff {us : List UInt16} {chars : List Char} :
    decode us = some chars ↔ us = encode chars := by
  constructor
  · exact fun h => (encode_of_decode h).symm
  · rintro rfl
    exact decode_encode chars

/-! ### Texts -/

theorem decode_of_isAscii {us : List UInt16} (h : ∀ unit ∈ us, IsAscii unit) :
    decode us = some (us.map asciiChar) := by
  induction us with
  | nil => rfl
  | cons unit us ih =>
      obtain ⟨hunit, hus⟩ := List.forall_mem_cons.mp h
      rw [IsAscii] at hunit
      -- the low byte of an ASCII unit is the whole of it
      have hlow : unit.toUInt8.toNat = unit.toNat := by
        rw [UInt16.toNat_toUInt8]
        omega
      rw [decode_cons_of_isPlain (.inl (by omega)), ih hus, Option.map_some, List.map_cons,
        asciiChar, hlow]

/-- The short way for ASCII gives what decoding gives. -/
theorem text?_eq_map_decode (us : List UInt16) : text? us = (decode us).map String.ofList := by
  rw [text?]
  split
  · rename_i hascii
    have hascii : ∀ unit ∈ us, IsAscii unit := fun unit hunit =>
      of_decide_eq_true (List.all_eq_true.mp hascii unit hunit)
    rw [decode_of_isAscii hascii, Option.map_some]
  · rfl

theorem text?_eq_some_iff {us : List UInt16} {s : String} :
    text? us = some s ↔ encode s.toList = us := by
  rw [text?_eq_map_decode, Option.map_eq_some_iff]
  constructor
  · rintro ⟨chars, hchars, rfl⟩
    rw [String.toList_ofList, decode_eq_some_iff.mp hchars]
  · rintro rfl
    exact ⟨s.toList, decode_eq_some_iff.mpr rfl, String.ofList_toList⟩

/-! ### Units in bytes -/

/-- The bytes that store a list of units. -/
def bytesOfUnits (us : List UInt16) : List UInt8 :=
  us.flatMap fun unit => LittleEndian.bytes 2 unit.toNat

@[simp] theorem length_bytesOfUnits (us : List UInt16) :
    (bytesOfUnits us).length = 2 * us.length := by
  induction us with
  | nil => rfl
  | cons unit us ih =>
      rw [bytesOfUnits, List.flatMap_cons, List.length_append, LittleEndian.length_bytes,
        List.length_cons, ← bytesOfUnits, ih]
      omega

theorem unitsOfBytes_bytesOfUnits (us : List UInt16) : unitsOfBytes (bytesOfUnits us) = us := by
  induction us with
  | nil => rfl
  | cons unit us ih =>
      have hvalue : LittleEndian.value (LittleEndian.bytes 2 unit.toNat) = unit.toNat :=
        LittleEndian.value_bytes_of_lt unit.toNat_lt
      rw [bytesOfUnits, List.flatMap_cons, ← bytesOfUnits]
      simp only [LittleEndian.bytes, LittleEndian.value, List.cons_append, List.nil_append] at *
      rw [unitsOfBytes, ih]
      congr 1
      rw [show (UInt8.ofNat unit.toNat).toNat + 256 * (UInt8.ofNat (unit.toNat / 256)).toNat =
        unit.toNat by omega, UInt16.ofNat_toNat]

theorem bytesOfUnits_unitsOfBytes {bytes : List UInt8} {count : Nat}
    (h : bytes.length = 2 * count) : bytesOfUnits (unitsOfBytes bytes) = bytes := by
  induction count generalizing bytes with
  | zero =>
      obtain rfl := List.length_eq_zero_iff.mp h
      rfl
  | succ count ih =>
      match bytes, h with
      | low :: high :: rest, h =>
        have hlow := low.toNat_lt
        have hhigh := high.toNat_lt
        have hunit : LittleEndian.bytes 2 (UInt16.ofNat (low.toNat + 256 * high.toNat)).toNat =
            [low, high] := by
          rw [UInt16.toNat_ofNat']
          exact LittleEndian.bytes_value [low, high] ▸ by
            rw [Nat.mod_eq_of_lt (by omega)]
            rfl
        rw [unitsOfBytes, bytesOfUnits, List.flatMap_cons, hunit, ← bytesOfUnits,
          ih (by simp at h; omega)]
        rfl

end XamlBinary.Utf16
