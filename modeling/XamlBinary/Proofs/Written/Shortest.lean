import XamlBinary.Proofs.Written.Spelling

/-!
Spellings that cannot be shortened.  The shortest spelling of a number is the
only one of its length, so bytes that spell a written form are its shortest
bytes exactly when none of the 7-bit integers in them is longer than it has
to be.
-/

namespace XamlBinary

namespace Varint

/-- No other spelling of the number is shorter. -/
def IsShortest (spelling : List UInt8) : Prop :=
  ∀ n other, Spells spelling n → Spells other n → spelling.length ≤ other.length

/-- The bytes up to the first one without the top bit, and the bytes behind it. -/
def split : List UInt8 → List UInt8 × List UInt8
  | [] => ([], [])
  | b :: bytes =>
      if b.toNat < 0x80 then ([b], bytes) else (b :: (split bytes).1, (split bytes).2)

theorem split_append {spelling : List UInt8} (h : Closed spelling) (rest : List UInt8) :
    split (spelling ++ rest) = (spelling, rest) := by
  induction spelling with
  | nil => exact h.elim
  | cons b bytes ih =>
      by_cases hbytes : bytes = []
      · subst hbytes
        rw [closed_singleton] at h
        exact if_pos h
      · obtain ⟨hb, hclosed⟩ := (closed_cons hbytes).mp h
        rw [List.cons_append, split, if_neg (Nat.not_lt.mpr hb), ih hclosed]

/-- A number is cut into no more groups than any of its spellings has bytes. -/
theorem length_groups_le {spelling : List UInt8} (h : Closed spelling) (more : Nat) :
    (groups more (value spelling)).length ≤ spelling.length := by
  induction more generalizing spelling with
  | zero =>
      rw [groups, List.length_singleton]
      exact List.length_pos_iff.mpr h.ne_nil
  | succ more ih =>
      rw [groups]
      split
      · rw [List.length_singleton]
        exact List.length_pos_iff.mpr h.ne_nil
      · rename_i hlarge
        cases spelling with
        | nil => exact h.elim
        | cons b bytes =>
            have hbytes : bytes ≠ [] := by
              rintro rfl
              rw [value, value] at hlarge
              omega
            obtain ⟨-, hclosed⟩ := (closed_cons hbytes).mp h
            have hrest : value (b :: bytes) / 0x80 = value bytes := by
              rw [value]
              omega
            rw [hrest, List.length_cons, List.length_cons]
            exact Nat.succ_le_succ (ih hclosed)

/-- The bytes of a spelling are given by its number and its length. -/
theorem Closed.eq_of_length {first second : List UInt8} (hfirst : Closed first)
    (hsecond : Closed second) (hlength : first.length = second.length)
    (hvalue : value first = value second) : first = second := by
  induction first generalizing second with
  | nil => exact hfirst.elim
  | cons b bytes ih =>
      cases second with
      | nil => cases hlength
      | cons b' bytes' =>
          rw [value, value] at hvalue
          rw [List.length_cons, List.length_cons, Nat.add_right_cancel_iff] at hlength
          have hlt := b.toNat_lt
          have hlt' := b'.toNat_lt
          by_cases hbytes : bytes = []
          · subst hbytes
            obtain rfl : bytes' = [] := List.length_eq_zero_iff.mp hlength.symm
            rw [closed_singleton] at hfirst hsecond
            have hb : b = b' := UInt8.toNat_inj.mp (by omega)
            rw [hb]
          · have hbytes' : bytes' ≠ [] := by
              rintro rfl
              exact hbytes (List.length_eq_zero_iff.mp hlength)
            obtain ⟨hb, hclosed⟩ := (closed_cons hbytes).mp hfirst
            obtain ⟨hb', hclosed'⟩ := (closed_cons hbytes').mp hsecond
            have heq : b = b' := UInt8.toNat_inj.mp (by omega)
            rw [heq, ih hclosed hclosed' hlength (by omega)]

theorem length_shortest_pos (n : UInt32) : 1 ≤ (shortest n).length :=
  List.length_pos_iff.mpr (groups_ne_nil 4 n.toNat)

theorem Spells.length_shortest_le {spelling : List UInt8} {n : UInt32}
    (h : Spells spelling n) : (shortest n).length ≤ spelling.length := by
  rw [shortest, ← h.value_eq]
  exact length_groups_le h.closed 4

theorem Spells.isShortest_iff {spelling : List UInt8} {n : UInt32} (h : Spells spelling n) :
    IsShortest spelling ↔ spelling = shortest n := by
  have hshortest := spells_shortest n
  constructor
  · intro hmin
    have hlength := Nat.le_antisymm (hmin n _ h hshortest) h.length_shortest_le
    exact h.closed.eq_of_length hshortest.closed hlength
      (h.value_eq.trans hshortest.value_eq.symm)
  · rintro rfl m other hm hother
    obtain rfl : m = n := UInt32.toNat_inj.mp (hm.value_eq.symm.trans h.value_eq)
    exact hother.length_shortest_le

end Varint

namespace Written

/-- The spellings of the 7-bit integers of a written form, in bytes that spell it. -/
def varintsIn : Written → List UInt8 → List (List UInt8)
  | [], _ => []
  | .fixed x :: w, bytes => varintsIn w (bytes.drop x.length)
  | .varint _ :: w, bytes =>
      (Varint.split bytes).1 :: varintsIn w (Varint.split bytes).2

/-- No spelling of a written form is shorter than its shortest bytes. -/
theorem Spells.length_bytes_le {w : Written} {bytes : List UInt8} (h : Spells w bytes) :
    w.bytes.length ≤ bytes.length := by
  induction h with
  | nil => exact Nat.le.refl
  | fixed x _ ih =>
      rw [bytes_fixed_cons, List.length_append, List.length_append]
      omega
  | @varint w spelling rest n hspelling _ ih =>
      have hlength := hspelling.length_shortest_le
      show (Varint.shortest n.toUInt32 ++ Written.bytes w).length ≤ _
      rw [List.length_append, List.length_append]
      omega

/-- Bytes that spell a written form are its shortest bytes when each 7-bit integer is. -/
theorem Spells.bytes_eq_iff {w : Written} {bytes : List UInt8} (h : Spells w bytes) :
    w.bytes = bytes ↔ ∀ spelling ∈ w.varintsIn bytes, Varint.IsShortest spelling := by
  induction h with
  | nil => exact iff_of_true rfl (List.forall_mem_nil _)
  | fixed x _ ih =>
      rw [varintsIn, List.drop_left, ← ih, bytes_fixed_cons, List.append_cancel_left_eq]
  | @varint w spelling rest n hspelling _ ih =>
      have hshortest := Varint.spells_shortest n.toUInt32
      rw [varintsIn, Varint.split_append hspelling.closed, List.forall_mem_cons, ← ih,
        hspelling.isShortest_iff]
      -- where an integer ends can be told from its bytes
      show Varint.shortest n.toUInt32 ++ Written.bytes w = spelling ++ rest ↔ _
      constructor
      · intro heq
        have hsplit := congrArg Varint.split heq
        rw [Varint.split_append hshortest.closed, Varint.split_append hspelling.closed] at hsplit
        exact ⟨(Prod.mk.inj hsplit).1.symm, (Prod.mk.inj hsplit).2⟩
      · rintro ⟨rfl, rfl⟩
        rfl

end Written

end XamlBinary
