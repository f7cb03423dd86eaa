import Mathlib.Data.List.Chain
import XamlBinary.Proofs.Cursor.Primitive

/-!
Strings are decoded exactly.  Units are accepted when their surrogates come in
pairs, and then give the only text that they encode.  In a slice, a string is
taken off behind its count of units, with nothing of what follows; a negative
count stops the decoder before any unit is looked at.
-/

namespace XamlBinary

open Reader

namespace Utf16

/-! ### Surrogates in pairs -/

/-- No surrogate stands alone: of two neighbours the first begins a pair exactly when the second
ends one, and the list neither begins with the end of a pair nor ends with the beginning. -/
@[mk_iff]
structure Paired (us : List UInt16) : Prop where
  head : ∀ unit ∈ us.head?, ¬ IsLow unit
  neighbours : us.IsChain fun first second => IsHigh first ↔ IsLow second
  last : ∀ unit ∈ us.getLast?, ¬ IsHigh unit

theorem IsPlain.not_isHigh {unit : UInt16} (h : IsPlain unit) : ¬ IsHigh unit := by
  unfold IsPlain IsHigh at *
  omega

theorem IsPlain.not_isLow {unit : UInt16} (h : IsPlain unit) : ¬ IsLow unit := by
  unfold IsPlain IsLow at *
  omega

theorem IsHigh.not_isLow {unit : UInt16} (h : IsHigh unit) : ¬ IsLow unit := by
  unfold IsHigh IsLow at *
  omega

theorem IsLow.not_isHigh {unit : UInt16} (h : IsLow unit) : ¬ IsHigh unit :=
  fun hhigh => hhigh.not_isLow h

theorem isLow_of_not {unit : UInt16} (hplain : ¬ IsPlain unit) (hhigh : ¬ IsHigh unit) :
    IsLow unit := by
  unfold IsPlain IsHigh IsLow at *
  omega

section Paired

variable {unit high low : UInt16} {us : List UInt16}

theorem paired_nil : Paired [] := ⟨by simp, .nil, by simp⟩

theorem paired_cons_of_isPlain (h : IsPlain unit) : Paired (unit :: us) ↔ Paired us := by
  cases us with
  | nil => simp [paired_iff, h.not_isHigh, h.not_isLow]
  | cons next us => simp [paired_iff, h.not_isHigh, h.not_isLow, and_assoc]

theorem paired_cons_cons (hhigh : IsHigh high) (hlow : IsLow low) :
    Paired (high :: low :: us) ↔ Paired us := by
  cases us with
  | nil => simp [paired_iff, hhigh, hhigh.not_isLow, hlow, hlow.not_isHigh]
  | cons next us =>
      simp [paired_iff, hhigh, hhigh.not_isLow, hlow, hlow.not_isHigh, and_assoc]

/-- The units are accepted when their surrogates come in pairs. -/
theorem isSome_decode_iff {us : List UInt16} : (decode us).isSome ↔ Paired us := by
  fun_induction decode us with
  | case1 => simp [paired_nil]
  | case2 unit us hplain ih => rw [Option.isSome_map, ih, paired_cons_of_isPlain hplain]
  | case3 high hplain hhigh =>
      refine iff_of_false (by simp) fun h => ?_
      exact h.last high rfl hhigh
  | case4 high _ hhigh low rest hlow ih =>
      rw [Option.isSome_map, ih, paired_cons_cons hhigh hlow]
  | case5 high _ hhigh low rest hlow =>
      refine iff_of_false (by simp) fun h => ?_
      exact hlow ((List.isChain_cons_cons.mp h.neighbours).1.mp hhigh)
  | case6 unit us hplain hhigh =>
      refine iff_of_false (by simp) fun h => ?_
      exact h.head unit rfl (isLow_of_not hplain hhigh)

end Paired

theorem isSome_text?_iff {us : List UInt16} : (text? us).isSome ↔ Paired us := by
  rw [text?_eq_map_decode, Option.isSome_map, isSome_decode_iff]

/-! ### NULs -/

theorem count_zero_units (c : Char) : (units c).count 0 = if c = '\x00' then 1 else 0 := by
  have hc := char_ranges c
  have hnul : c = '\x00' ↔ c.toNat = 0 := Char.toNat_inj.symm
  rw [units]
  split
  · have hunit : UInt16.ofNat c.toNat = 0 ↔ c.toNat = 0 := by
      rw [← UInt16.toNat_inj, UInt16.toNat_ofNat']
      simp only [UInt16.toNat_zero]
      omega
    rw [List.count_singleton]
    simp only [hunit, hnul, beq_iff_eq]
  · have hhigh : UInt16.ofNat (0xD800 + (c.toNat - 0x10000) / 0x400) ≠ 0 := by
      rw [Ne, ← UInt16.toNat_inj, UInt16.toNat_ofNat']
      simp only [UInt16.toNat_zero]
      omega
    have hlow : UInt16.ofNat (0xDC00 + (c.toNat - 0x10000) % 0x400) ≠ 0 := by
      rw [Ne, ← UInt16.toNat_inj, UInt16.toNat_ofNat']
      simp only [UInt16.toNat_zero]
      omega
    have hne : c ≠ '\x00' := fun h => by
      rw [hnul] at h
      omega
    rw [List.count_cons_of_ne hhigh, List.count_cons_of_ne hlow, List.count_nil, if_neg hne]

/-- A NUL is a unit like any other, and none is added or dropped. -/
theorem count_zero_encode (chars : List Char) :
    (encode chars).count 0 = chars.count '\x00' := by
  induction chars with
  | nil => rfl
  | cons c chars ih =>
      rw [encode_cons, List.count_append, count_zero_units, ih, List.count_cons, Nat.add_comm]
      simp only [beq_iff_eq]

/-- The bytes of a string in a file: the count of its units, and then the units. -/
def stored (us : List UInt16) : List UInt8 := LittleEndian.bytes 4 us.length ++ bytesOfUnits us

end Utf16

/-! ### Strings in a slice -/

namespace Decoder

open Utf16

theorem run_int32_bytes (what : String) (n : Int32) (offset : Nat) (rest : List UInt8) :
    (int32 what : Decoder Int32).run ⟨offset, LittleEndian.bytes 4 n.toUInt32.toNat ++ rest⟩ =
      .ok n ⟨offset + 4, rest⟩ [] := by
  refine (reads_int32 what ..).mpr ⟨trivial, rfl, Cursor.spans_iff.mpr ?_⟩
  exact ⟨_, Written.spells_bytes _, rfl, by rw [Written.length_bytes_word32]⟩

theorem run_block_append {bytes : List UInt8} {count : Nat} (hlength : bytes.length = count)
    (what : String) (offset : Nat) (rest : List UInt8) :
    (block what count).run ⟨offset, bytes ++ rest⟩ = .ok bytes ⟨offset + count, rest⟩ [] := by
  refine (reads_block what count ..).mpr ⟨hlength, rfl, Cursor.spans_iff.mpr ?_⟩
  exact ⟨bytes, Written.spells_fixed_iff.mpr rfl, rfl, by rw [hlength]⟩

/-- A string whose units are all there is decoded from them, and only from them. -/
theorem run_string_stored {us : List UInt16} (hcount : us.length < 2 ^ 31) (what : String)
    (offset : Nat) (trailing : List UInt8) :
    (string what).run ⟨offset, stored us ++ trailing⟩ =
      match text? us with
      | some s => .ok s ⟨offset + (4 + 2 * us.length), trailing⟩ []
      | none =>
          .fail (.malformed offset (.invalidUtf16 what))
            ⟨offset + (4 + 2 * us.length), trailing⟩ [] := by
  have hneg : ¬ (UInt32.ofNat us.length).toInt32 < 0 := ofNat_toInt32_not_neg hcount
  have hclamp : (UInt32.ofNat us.length).toInt32.toNatClampNeg = us.length :=
    ((length_eq_iff hneg).mpr ⟨rfl, hcount⟩).symm
  have hword : (UInt32.ofNat us.length).toInt32.toUInt32.toNat = us.length := by
    rw [← toNatClampNeg_of_not_neg hneg, hclamp]
  have hlength := run_int32_bytes what (UInt32.ofNat us.length).toInt32 offset
    (bytesOfUnits us ++ trailing)
  rw [hword] at hlength
  have hblock := run_block_append (length_bytesOfUnits us) what (offset + 4) trailing
  rw [stored, List.append_assoc, string, run_position_bind, run_bind_ok hlength, if_neg hneg,
    hclamp, run_bind_ok hblock, unitsOfBytes_bytesOfUnits, Outcome.after_nil, Outcome.after_nil,
    Nat.add_assoc]
  cases text? us with
  | some s => rfl
  | none => rfl

theorem run_string_negative {n : Int32} (hneg : n < 0) (what : String) (offset : Nat)
    (trailing : List UInt8) :
    (string what).run ⟨offset, LittleEndian.bytes 4 n.toUInt32.toNat ++ trailing⟩ =
      .fail (.malformed offset (.negativeLength what n)) ⟨offset + 4, trailing⟩ [] := by
  rw [string, run_position_bind, run_bind_ok (run_int32_bytes what n offset trailing), if_pos hneg]
  rfl

/-- Units are decoded when no surrogate stands alone, and then to the one text that they encode,
NULs and all; the short way for ASCII never makes a difference.  A string of such units is read
from its count and its units, whatever follows, and takes exactly these bytes; a string of other
units is malformed.  A negative count is refused behind its four bytes. -/
theorem string_decodes_exactly :
    (∀ us : List UInt16,
      ((∃ s, text? us = some s) ↔ Paired us) ∧
      (∀ s, text? us = some s ↔ encode s.toList = us) ∧
      (∀ s, text? us = some s → s.toList.count '\x00' = us.count 0) ∧
      text? us = (decode us).map String.ofList) ∧
    (∀ (us : List UInt16) (what : String) (offset : Nat) (trailing : List UInt8),
      us.length < 2 ^ 31 →
        (Paired us → ∃ s, encode s.toList = us ∧
          (string what).run ⟨offset, stored us ++ trailing⟩ =
            .ok s ⟨offset + (4 + 2 * us.length), trailing⟩ []) ∧
        (¬ Paired us → (string what).FailsWith ⟨offset, stored us ++ trailing⟩
          (.malformed offset (.invalidUtf16 what)))) ∧
    ∀ (n : Int32) (what : String) (offset : Nat) (trailing : List UInt8), n < 0 →
      (string what).run ⟨offset, LittleEndian.bytes 4 n.toUInt32.toNat ++ trailing⟩ =
        .fail (.malformed offset (.negativeLength what n)) ⟨offset + 4, trailing⟩ [] := by
  refine ⟨fun us => ⟨?_, fun s => text?_eq_some_iff, ?_, text?_eq_map_decode us⟩, ?_, ?_⟩
  · rw [← isSome_text?_iff, Option.isSome_iff_exists]
  · intro s hs
    rw [← text?_eq_some_iff.mp hs, count_zero_encode]
  · intro us what offset trailing hcount
    have hrun := run_string_stored hcount what offset trailing
    refine ⟨fun hpaired => ?_, fun hlone => ?_⟩
    · obtain ⟨s, hs⟩ := Option.isSome_iff_exists.mp (isSome_text?_iff.mpr hpaired)
      rw [hs] at hrun
      exact ⟨s, text?_eq_some_iff.mp hs, hrun⟩
    · rw [← isSome_text?_iff, Option.not_isSome_iff_eq_none] at hlone
      rw [hlone] at hrun
      exact ⟨_, _, hrun⟩
  · intro n what offset trailing hneg
    exact run_string_negative hneg what offset trailing

/-- A letter, a NUL and a character beyond the first plane; and a count below zero. -/
theorem string_decodes_exactly_mixed :
    (string "name").run ⟨5, [4, 0, 0, 0, 0x41, 0, 0, 0, 0x3D, 0xD8, 0, 0xDE, 0x42, 0]⟩ =
        .ok "A\x00😀" ⟨17, [0x42, 0]⟩ [] ∧
      (string "name").run ⟨5, [0xFE, 0xFF, 0xFF, 0xFF, 0x42, 0]⟩ =
        .fail (.malformed 5 (.negativeLength "name" (-2))) ⟨9, [0x42, 0]⟩ [] := by
  obtain ⟨hunits, hread, hnegative⟩ := string_decodes_exactly
  obtain ⟨hpaired, htext, -⟩ := hunits [0x41, 0, 0xD83D, 0xDE00]
  have hencode : encode "A\x00😀".toList = [0x41, 0, 0xD83D, 0xDE00] := by decide
  obtain ⟨hok, -⟩ := hread [0x41, 0, 0xD83D, 0xDE00] "name" 5 [0x42, 0] (by decide)
  obtain ⟨s, hs, hrun⟩ := hok (hpaired.mp ⟨_, (htext _).mpr hencode⟩)
  obtain rfl : s = "A\x00😀" :=
    Option.some.inj (((htext s).mpr hs).symm.trans ((htext _).mpr hencode))
  exact ⟨hrun, hnegative (-2) "name" 5 [0x42, 0] (by decide)⟩

end Decoder

end XamlBinary
