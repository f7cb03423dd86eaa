import XamlBinary.Proofs.Reader.Reads

/-!
Fixed-width values and counted lists are read exactly.  A fixed-width value
has one spelling, so the bytes that were taken and the value determine each
other.  A list is read as its count and then its items, and the items need
only be known by their own judgment.
-/

namespace XamlBinary

/-! ### Signed words by their bits -/

theorem int32_neg_iff (n : Int32) : n < 0 ↔ 2 ^ 31 ≤ n.toUInt32.toNat := by
  have hbits : n.toUInt32.toNat = n.toBitVec.toNat := rfl
  have hlt := n.toBitVec.isLt
  rw [Int32.lt_iff_toInt_lt, ← Int32.toInt_toBitVec, BitVec.toInt_eq_toNat_cond, hbits,
    Int32.toInt_zero]
  split <;> omega

theorem toNatClampNeg_of_not_neg {n : Int32} (h : ¬ n < 0) :
    n.toNatClampNeg = n.toUInt32.toNat := by
  have hbits : n.toUInt32.toNat = n.toBitVec.toNat := rfl
  rw [int32_neg_iff, hbits] at h
  rw [Int32.toNatClampNeg, ← Int32.toInt_toBitVec, BitVec.toInt_eq_toNat_cond, hbits,
    if_pos (by omega), Int.toNat_natCast]

/-- A length is the count that stands for it, when it is not negative as a signed word. -/
theorem length_eq_iff {n : Int32} {length : Nat} (h : ¬ n < 0) :
    length = n.toNatClampNeg ↔ (UInt32.ofNat length).toInt32 = n ∧ length < 2 ^ 31 := by
  have hlt : n.toUInt32.toNat < 2 ^ 31 := by
    rw [int32_neg_iff] at h
    omega
  rw [toNatClampNeg_of_not_neg h]
  constructor
  · rintro rfl
    exact ⟨by simp, hlt⟩
  · rintro ⟨rfl, hlength⟩
    rw [UInt32.toUInt32_toInt32, UInt32.toNat_ofNat_of_lt' (by simp [UInt32.size]; omega)]

theorem ofNat_toInt32_not_neg {length : Nat} (h : length < 2 ^ 31) :
    ¬ (UInt32.ofNat length).toInt32 < 0 := by
  rw [int32_neg_iff, UInt32.toUInt32_toInt32,
    UInt32.toNat_ofNat_of_lt' (by simp [UInt32.size]; omega)]
  omega

/-- A list of valid items, of which there are no more than a signed count can hold. -/
def Counted {α : Type} (P : α → Prop) (items : List α) : Prop :=
  items.length < 2 ^ 31 ∧ ∀ a ∈ items, P a

theorem Counted.nil {α : Type} {P : α → Prop} : Counted P [] :=
  ⟨Nat.two_pow_pos 31, List.forall_mem_nil P⟩

theorem Counted.imp {α : Type} {P Q : α → Prop} {items : List α} (h : Counted P items)
    (himp : ∀ a ∈ items, P a → Q a) : Counted Q items :=
  ⟨h.1, fun a ha => himp a ha (h.2 a ha)⟩

namespace Reader

open LawfulByteSource

variable {σ α : Type} [ByteSource σ] [LawfulByteSource σ]

/-! ### Fixed-width values -/

theorem run_exactly_eq_ok {what : String} {count : Nat} {s s' : σ} {bytes : List UInt8}
    {log : Log} :
    (exactly what count).run s = .ok bytes s' log ↔
      bytes.length = count ∧ log = [] ∧ Spans [.fixed bytes] s s' := by
  have htake := take_eq_all s s' count bytes
  simp only [exactly, run]
  constructor
  · intro h
    split at h
    · rename_i bytes' m hm
      cases h
      obtain ⟨hlength, hahead, rfl⟩ := htake.mp hm
      exact ⟨hlength, rfl, spans_fixed_iff.mpr ⟨hahead, by rw [hlength]⟩⟩
    · cases h
    · cases h
  · rintro ⟨rfl, rfl, hspan⟩
    rw [htake.mpr ⟨rfl, spans_fixed_iff.mp hspan⟩]

theorem reads_exactly (what : String) (count : Nat) :
    Reads (exactly what count : Reader σ _) (fun bytes => [.fixed bytes])
      (fun bytes => bytes.length = count) fun _ => [] :=
  fun _ _ _ _ => run_exactly_eq_ok

theorem reads_uint16 (what : String) :
    Reads (uint16 what : Reader σ _) .word16 (fun _ => True) fun _ => [] := by
  have hbytes : Reads (exactly what 2 : Reader σ _) _ _ _ := reads_exactly what 2
  have h := hbytes.convert (f := fun bytes => UInt16.ofNat (LittleEndian.value bytes))
    (fun n => LittleEndian.bytes 2 n.toNat)
    (fun n => by rw [LittleEndian.value_bytes_of_lt n.toNat_lt, UInt16.ofNat_toNat])
    fun bytes hlength => LittleEndian.bytes_mod_value hlength (UInt16.toNat_ofNat' ..)
  exact h.congr (fun _ => by simp) (fun _ _ => rfl) fun _ _ => rfl

theorem reads_uint32 (what : String) :
    Reads (uint32 what : Reader σ _) .word32 (fun _ => True) fun _ => [] := by
  have hbytes : Reads (exactly what 4 : Reader σ _) _ _ _ := reads_exactly what 4
  have h := hbytes.convert (f := fun bytes => UInt32.ofNat (LittleEndian.value bytes))
    (fun n => LittleEndian.bytes 4 n.toNat)
    (fun n => by rw [LittleEndian.value_bytes_of_lt n.toNat_lt, UInt32.ofNat_toNat])
    fun bytes hlength => LittleEndian.bytes_mod_value hlength (UInt32.toNat_ofNat' ..)
  exact h.congr (fun _ => by simp) (fun _ _ => rfl) fun _ _ => rfl

theorem reads_int16 (what : String) :
    Reads (int16 what : Reader σ _) (fun n => .word16 n.toUInt16) (fun _ => True)
      fun _ => [] :=
  (reads_uint16 what).convert (f := UInt16.toInt16) Int16.toUInt16 Int16.toInt16_toUInt16
    fun _ _ => UInt16.toUInt16_toInt16 _

theorem reads_int32 (what : String) :
    Reads (int32 what : Reader σ _) (fun n => .word32 n.toUInt32) (fun _ => True)
      fun _ => [] :=
  (reads_uint32 what).convert (f := UInt32.toInt32) Int32.toUInt32 Int32.toInt32_toUInt32
    fun _ _ => UInt32.toUInt32_toInt32 _

theorem reads_single (what : String) :
    Reads (single what : Reader σ _) (fun x => .word32 x.bits) (fun _ => True) fun _ => [] :=
  (reads_uint32 what).convert (f := Single.mk) Single.bits (fun _ => rfl) fun _ _ => rfl

/-! ### Lists -/

section Lists

variable {item : Reader σ α} {w : α → Written} {P : α → Prop} {l : α → Log}

theorem reads_listOf (h : Reads item w P l) (count : Nat) :
    Reads (listOf item count) (·.flatMap w) (fun as => as.length = count ∧ ∀ a ∈ as, P a)
      (·.flatMap l) := by
  induction count with
  | zero =>
      refine (Reads.pure (a := []) fun as => Iff.rfl).congr ?_ ?_ ?_
      · intro as
        rw [List.length_eq_zero_iff]
        exact and_iff_left_of_imp (by rintro rfl; simp)
      · rintro as rfl
        rfl
      · rintro as rfl
        rfl
  | succ count ih =>
      -- the items behind the first are those of a shorter list
      have hmore (head : α) : Reads (listOf item count >>= fun tail => Pure.pure (head :: tail))
          (fun as => as.tail.flatMap w)
          (fun as => ∃ tail : List α, (tail.length = count ∧ ∀ a ∈ tail, P a) ∧ as = head :: tail)
          fun as => as.tail.flatMap l := by
        rw [bind_pure_comp]
        exact Reads.map ih (fun as => Iff.rfl) (fun _ _ => rfl) fun _ _ => rfl
      rw [listOf_succ]
      refine Reads.bind h (fun head _ => hmore head) ?_ ?_ ?_
      · intro as
        constructor
        · rintro ⟨hlength, hall⟩
          cases as with
          | nil => simp at hlength
          | cons head tail =>
              obtain ⟨hhead, htail⟩ := List.forall_mem_cons.mp hall
              exact ⟨head, hhead, tail, ⟨Nat.succ.inj hlength, htail⟩, rfl⟩
        · rintro ⟨head, hhead, tail, ⟨rfl, htail⟩, rfl⟩
          exact ⟨rfl, List.forall_mem_cons.mpr ⟨hhead, htail⟩⟩
      · rintro head as - ⟨tail, -, rfl⟩
        exact List.flatMap_cons
      · rintro head as - ⟨tail, -, rfl⟩
        exact List.flatMap_cons

/-- A counted list, whatever the count is read with. -/
theorem reads_counted {count : Reader σ Int32} {wc : Int32 → Written} (what : String)
    (hcount : Reads count wc (fun _ => True) fun _ => []) (h : Reads item w P l) :
    Reads (counted what count item)
      (fun as => wc (UInt32.ofNat as.length).toInt32 ++ as.flatMap w)
      (Counted P) (·.flatMap l) := by
  refine Reads.position fun start => Reads.lead (fun as => (UInt32.ofNat as.length).toInt32) hcount
    (v := fun as => as.flatMap w) ?_ (fun _ _ => trivial) fun _ _ => rfl
  intro n _
  refine Reads.ite (fun hneg => Reads.fail ?_) fun hneg => ?_
  -- a count that is negative belongs to no list
  · rintro as ⟨rfl, hlength, -⟩
    exact ofNat_toInt32_not_neg hlength hneg
  · refine (reads_listOf h _).congr (fun as => ?_) (fun _ _ => rfl) fun _ _ => rfl
    rw [length_eq_iff hneg, and_assoc]
    exact Iff.rfl

theorem reads_table (what : String) (h : Reads item w P l) :
    Reads (table what item) (.table w) (Counted P) (·.flatMap l) := by
  refine (reads_counted what (reads_int32 what) h).congr (fun _ => Iff.rfl) ?_ fun _ _ => rfl
  intro as _
  rw [UInt32.toUInt32_toInt32]
  rfl

/-- A table whose items log nothing. -/
theorem reads_quietTable (what : String) (h : Reads item w P fun _ => []) :
    Reads (table what item) (.table w) (Counted P) fun _ => [] :=
  (reads_table what h).congr (fun _ => Iff.rfl) (fun _ _ => rfl) fun as _ => by simp

end Lists

end Reader

end XamlBinary
