import XamlBinary.Proofs.Bytes.LittleEndian
import XamlBinary.Written.Basic

/-!
The algebra of spellings.  A written form is spelled piece by piece, so the
spellings of a concatenation are the concatenations of spellings, and the
shortest bytes are one spelling of every written form.  Where no piece is a
7-bit integer they are the only one.
-/

namespace XamlBinary

namespace Varint

@[simp] theorem closed_singleton (b : UInt8) : Closed [b] ↔ b.toNat < 0x80 := Iff.rfl

theorem value_singleton {b : UInt8} (h : b.toNat < 0x80) : value [b] = b.toNat := by
  rw [value, value, Nat.mod_eq_of_lt h]
  rfl

theorem toNat_mod_of_high {b : UInt8} (h : 0x80 ≤ b.toNat) :
    b.toNat % 0x80 = b.toNat - 0x80 := by
  have hlt := b.toNat_lt
  omega

theorem value_cons_of_high {b : UInt8} (h : 0x80 ≤ b.toNat) (bytes : List UInt8) :
    value (b :: bytes) = b.toNat - 0x80 + 0x80 * value bytes := by
  rw [value, toNat_mod_of_high h]

theorem closed_cons {b : UInt8} {bytes : List UInt8} (hbytes : bytes ≠ []) :
    Closed (b :: bytes) ↔ 0x80 ≤ b.toNat ∧ Closed bytes := by
  cases bytes with
  | nil => exact absurd rfl hbytes
  | cons b' rest => exact Iff.rfl

theorem Closed.ne_nil {bytes : List UInt8} (h : Closed bytes) : bytes ≠ [] := by
  rintro rfl
  exact h

theorem groups_ne_nil (more n : Nat) : groups more n ≠ [] := by
  cases more with
  | zero => simp [groups]
  | succ more =>
      rw [groups]
      split <;> simp

theorem length_groups (more n : Nat) : (groups more n).length ≤ more + 1 := by
  induction more generalizing n with
  | zero => simp [groups]
  | succ more ih =>
      rw [groups]
      split
      · simp
      · exact Nat.succ_le_succ (ih (n / 0x80))

theorem closed_groups {more n : Nat} (h : n < 0x80 ^ (more + 1)) : Closed (groups more n) := by
  induction more generalizing n with
  | zero =>
      rw [groups, closed_singleton, UInt8.toNat_ofNat']
      omega
  | succ more ih =>
      rw [groups]
      split
      · rw [closed_singleton, UInt8.toNat_ofNat']
        omega
      · rw [closed_cons (groups_ne_nil more _), UInt8.toNat_ofNat']
        refine ⟨by omega, ih ?_⟩
        rw [Nat.pow_succ] at h
        exact Nat.div_lt_of_lt_mul (by rwa [Nat.mul_comm])

theorem value_groups {more n : Nat} (h : n < 0x80 ^ (more + 1)) : value (groups more n) = n := by
  induction more generalizing n with
  | zero =>
      rw [groups, value, value, UInt8.toNat_ofNat']
      omega
  | succ more ih =>
      rw [groups]
      split
      · rw [value, value, UInt8.toNat_ofNat']
        omega
      · have hrest : n / 0x80 < 0x80 ^ (more + 1) := by
          rw [Nat.pow_succ] at h
          exact Nat.div_lt_of_lt_mul (by rwa [Nat.mul_comm])
        rw [value, ih hrest, UInt8.toNat_ofNat']
        omega

theorem spells_shortest (n : UInt32) : Spells (shortest n) n where
  closed := closed_groups (Nat.lt_of_lt_of_le n.toNat_lt (by decide))
  length_le := length_groups 4 n.toNat
  value_eq := value_groups (Nat.lt_of_lt_of_le n.toNat_lt (by decide))

end Varint

namespace Written

variable {v w : Written} {bytes : List UInt8}

@[simp] theorem spells_nil_iff : Spells [] bytes ↔ bytes = [] := by
  constructor
  · rintro ⟨⟩
    rfl
  · rintro rfl
    exact .nil

theorem spells_fixed_cons_iff {x : List UInt8} :
    Spells (.fixed x :: w) bytes ↔ ∃ rest, bytes = x ++ rest ∧ Spells w rest := by
  constructor
  · rintro ⟨⟩
    exact ⟨_, rfl, by assumption⟩
  · rintro ⟨rest, rfl, hrest⟩
    exact .fixed x hrest

theorem spells_varint_cons_iff {n : Int32} :
    Spells (.varint n :: w) bytes ↔
      ∃ spelling rest, bytes = spelling ++ rest ∧ Varint.Spells spelling n.toUInt32 ∧
        Spells w rest := by
  constructor
  · rintro ⟨⟩
    exact ⟨_, _, rfl, by assumption, by assumption⟩
  · rintro ⟨spelling, rest, rfl, hspelling, hrest⟩
    exact .varint hspelling hrest

@[simp] theorem spells_fixed_iff {x : List UInt8} : Spells [.fixed x] bytes ↔ bytes = x := by
  simp [spells_fixed_cons_iff]

@[simp] theorem spells_varint_iff {n : Int32} :
    Spells (.varint n) bytes ↔ Varint.Spells bytes n.toUInt32 := by
  simp [Written.varint, spells_varint_cons_iff]

theorem Spells.append {first second : List UInt8} (hv : Spells v first)
    (hw : Spells w second) : Spells (v ++ w) (first ++ second) := by
  induction hv with
  | nil => exact hw
  | fixed x _ ih =>
      rw [List.cons_append, List.append_assoc]
      exact .fixed x ih
  | varint hspelling _ ih =>
      rw [List.cons_append, List.append_assoc]
      exact .varint hspelling ih

theorem spells_append_iff :
    Spells (v ++ w) bytes ↔
      ∃ first second, bytes = first ++ second ∧ Spells v first ∧ Spells w second := by
  constructor
  · intro h
    induction v generalizing bytes with
    | nil => exact ⟨[], bytes, rfl, .nil, h⟩
    | cons piece v ih =>
        cases piece with
        | fixed x =>
            obtain ⟨rest, rfl, hrest⟩ := spells_fixed_cons_iff.mp h
            obtain ⟨first, second, rfl, hfirst, hsecond⟩ := ih hrest
            exact ⟨x ++ first, second, by simp, .fixed x hfirst, hsecond⟩
        | varint n =>
            obtain ⟨spelling, rest, rfl, hspelling, hrest⟩ := spells_varint_cons_iff.mp h
            obtain ⟨first, second, rfl, hfirst, hsecond⟩ := ih hrest
            exact ⟨spelling ++ first, second, by simp, .varint hspelling hfirst, hsecond⟩
  · rintro ⟨first, second, rfl, hfirst, hsecond⟩
    exact hfirst.append hsecond

/-! ### The shortest bytes -/

@[simp] theorem bytes_nil : Written.bytes [] = [] := rfl

@[simp] theorem bytes_fixed_cons {x : List UInt8} :
    Written.bytes (.fixed x :: w) = x ++ w.bytes := rfl

@[simp] theorem bytes_append : Written.bytes (v ++ w) = v.bytes ++ w.bytes :=
  List.flatMap_append

theorem bytes_flatMap {α : Type} (item : α → Written) (items : List α) :
    Written.bytes (items.flatMap item) = items.flatMap fun a => (item a).bytes := by
  induction items with
  | nil => rfl
  | cons a items ih => rw [List.flatMap_cons, bytes_append, ih, List.flatMap_cons]

@[simp] theorem length_bytes_word32 (n : UInt32) : (word32 n).bytes.length = 4 := by
  simp [word32, Written.bytes, Piece.bytes]

theorem spells_bytes (w : Written) : Spells w w.bytes := by
  induction w with
  | nil => exact .nil
  | cons piece w ih =>
      cases piece with
      | fixed x => exact .fixed x ih
      | varint n => exact .varint (Varint.spells_shortest n.toUInt32) ih

/-! ### Forms without 7-bit integers -/

/-- No piece of the form is a 7-bit integer. -/
def IsFixed (w : Written) : Prop := ∀ piece ∈ w, ∃ x, piece = .fixed x

@[simp] theorem isFixed_nil : IsFixed [] := by
  simp [IsFixed]

@[simp] theorem isFixed_fixed (x : List UInt8) : IsFixed [.fixed x] := by
  simp [IsFixed]

@[simp] theorem isFixed_fixed_cons {x : List UInt8} :
    IsFixed (.fixed x :: w) ↔ w.IsFixed := by
  simp [IsFixed]

@[simp] theorem isFixed_append : IsFixed (v ++ w) ↔ v.IsFixed ∧ w.IsFixed := by
  simp [IsFixed, or_imp, forall_and]

@[simp] theorem isFixed_word16 (n : UInt16) : (word16 n).IsFixed := isFixed_fixed _

@[simp] theorem isFixed_word32 (n : UInt32) : (word32 n).IsFixed := isFixed_fixed _

theorem isFixed_flatMap {α : Type} {item : α → Written} (h : ∀ a, (item a).IsFixed)
    (items : List α) : IsFixed (items.flatMap item) := by
  intro piece hpiece
  obtain ⟨a, -, ha⟩ := List.mem_flatMap.mp hpiece
  exact h a piece ha

theorem isFixed_table {α : Type} {item : α → Written} (h : ∀ a, (item a).IsFixed)
    (items : List α) : (table item items).IsFixed :=
  isFixed_append.mpr ⟨isFixed_word32 _, isFixed_flatMap h items⟩

theorem IsFixed.spells_iff (h : w.IsFixed) : Spells w bytes ↔ bytes = w.bytes := by
  induction w generalizing bytes with
  | nil => simp
  | cons piece w ih =>
      obtain ⟨x, rfl⟩ := h piece (List.mem_cons_self ..)
      have hw : IsFixed w := fun piece hpiece => h piece (List.mem_cons_of_mem _ hpiece)
      rw [spells_fixed_cons_iff]
      constructor
      · rintro ⟨rest, rfl, hrest⟩
        rw [(ih hw).mp hrest]
        rfl
      · rintro rfl
        exact ⟨Written.bytes w, rfl, spells_bytes w⟩

end Written

end XamlBinary
