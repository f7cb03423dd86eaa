import Mathlib.Data.Nat.Bitwise
import XamlBinary.Proofs.Cursor.Primitive
import XamlBinary.Proofs.Written.Shortest

/-!
A 7-bit integer is decided by the first five bytes at most.  The first byte
without the top bit ends it, and as the fifth byte it may carry only the four
bits that are left of a word of 32.  The groups up to there are the number;
other bytes are refused, where the integer begins if it is too wide and where
the bytes stop if they stop too early.  Read as a loop over the shifts of the
groups, the integer always ends inside the loop.
-/

namespace XamlBinary

open Reader

namespace Varint

/-! ### Where an integer ends -/

/-- The groups of the bytes, each shifted to its place in the number. -/
def groupSum (bytes : List UInt8) : Nat :=
  (bytes.mapIdx fun i b => b.toNat % 0x80 * 2 ^ (7 * i)).sum

/-- The byte `b` is at place `i`, and all bytes before it have the top bit. -/
def Reaches (bytes : List UInt8) (i : Nat) (b : UInt8) : Prop :=
  bytes[i]? = some b ∧ ∀ high ∈ bytes.take i, 0x80 ≤ high.toNat

instance (bytes : List UInt8) (i : Nat) (b : UInt8) : Decidable (Reaches bytes i b) :=
  haveI := List.decidableBAll (fun high : UInt8 => 0x80 ≤ high.toNat) (bytes.take i)
  inferInstanceAs (Decidable (_ ∧ _))

/-- Place `i` holds the first byte without the top bit.  It is one of the first `more + 1`
bytes, and carries only four bits if it is the last of them. -/
structure EndsAt (more : Nat) (bytes : List UInt8) (i : Nat) (last : UInt8) : Prop where
  reaches : Reaches bytes i last
  low : last.toNat < 0x80
  le : i ≤ more
  narrow : i = more → last.toNat ≤ 0x0F

/-- All bytes have the top bit, and there are no more than `more` of them. -/
def IsCut (more : Nat) (bytes : List UInt8) : Prop :=
  bytes.length ≤ more ∧ ∀ b ∈ bytes, 0x80 ≤ b.toNat

instance (more : Nat) (bytes : List UInt8) : Decidable (IsCut more bytes) :=
  haveI := List.decidableBAll (fun b : UInt8 => 0x80 ≤ b.toNat) bytes
  inferInstanceAs (Decidable (_ ∧ _))

variable {b c : UInt8} {bytes : List UInt8} {i more : Nat}

/-- The groups of the bytes when `places` others come before them. -/
theorem sum_mapIdx_groups (places : Nat) (bytes : List UInt8) :
    (bytes.mapIdx fun i b => b.toNat % 0x80 * 2 ^ (7 * (i + places))).sum =
      2 ^ (7 * places) * value bytes := by
  induction bytes generalizing places with
  | nil => rfl
  | cons b bytes ih =>
      have hplace : ∀ i, i + 1 + places = i + (places + 1) := fun i => by omega
      have hpow : 2 ^ (7 * (places + 1)) = 2 ^ (7 * places) * 0x80 := by
        rw [Nat.mul_succ, Nat.pow_add]
      simp only [List.mapIdx_cons, List.sum_cons, hplace, ih, Nat.zero_add, value]
      rw [hpow, Nat.mul_add, Nat.mul_comm (b.toNat % 0x80), Nat.mul_assoc]

theorem value_eq_groupSum (bytes : List UInt8) : value bytes = groupSum bytes := by
  have hsum := sum_mapIdx_groups 0 bytes
  simp only [Nat.add_zero, Nat.mul_zero, Nat.pow_zero, Nat.one_mul] at hsum
  exact hsum.symm

theorem not_reaches_nil : ¬ Reaches [] i b := by
  rintro ⟨⟨⟩, -⟩

@[simp] theorem reaches_zero_iff : Reaches (c :: bytes) 0 b ↔ c = b := by
  simp [Reaches]

@[simp] theorem reaches_succ_iff :
    Reaches (c :: bytes) (i + 1) b ↔ 0x80 ≤ c.toNat ∧ Reaches bytes i b := by
  simp [Reaches, and_left_comm]

@[simp] theorem isCut_cons_iff :
    IsCut (more + 1) (b :: bytes) ↔ 0x80 ≤ b.toNat ∧ IsCut more bytes := by
  simp [IsCut, and_left_comm]

/-- Bytes spell a number that fits, or reach a byte that is too wide, or are cut. -/
theorem ends_or_refused (more : Nat) (bytes : List UInt8) :
    (∃ i last, EndsAt more bytes i last) ∨ (∃ b, Reaches bytes more b ∧ 0x0F < b.toNat) ∨
      IsCut more bytes := by
  induction more generalizing bytes with
  | zero =>
      cases bytes with
      | nil => exact .inr (.inr ⟨Nat.le_refl 0, List.forall_mem_nil _⟩)
      | cons b bytes =>
          by_cases hb : b.toNat ≤ 0x0F
          · exact .inl ⟨0, b, reaches_zero_iff.mpr rfl, by omega, Nat.le_refl 0, fun _ => hb⟩
          · exact .inr (.inl ⟨b, reaches_zero_iff.mpr rfl, Nat.lt_of_not_le hb⟩)
  | succ more ih =>
      cases bytes with
      | nil => exact .inr (.inr ⟨Nat.zero_le _, List.forall_mem_nil _⟩)
      | cons b bytes =>
          by_cases hb : b.toNat < 0x80
          · exact .inl ⟨0, b, reaches_zero_iff.mpr rfl, hb, Nat.zero_le _, nofun⟩
          · have hhigh := Nat.le_of_not_lt hb
            obtain ⟨i, last, hends⟩ | ⟨wide, hreaches, hwide⟩ | hcut := ih bytes
            · exact .inl ⟨i + 1, last, reaches_succ_iff.mpr ⟨hhigh, hends.reaches⟩, hends.low,
                Nat.succ_le_succ hends.le, fun h => hends.narrow (Nat.succ.inj h)⟩
            · exact .inr (.inl ⟨wide, reaches_succ_iff.mpr ⟨hhigh, hreaches⟩, hwide⟩)
            · exact .inr (.inr (isCut_cons_iff.mpr ⟨hhigh, hcut⟩))

end Varint

namespace Decoder

open Varint

variable {what : String} {start more i : Nat} {b last : UInt8} {bytes : List UInt8}

/-! ### The groups -/

/-- A byte without the top bit is the last. -/
theorem run_varintGroups_low (hlow : b.toNat < 0x80) (hnarrow : 0 = more → b.toNat ≤ 0x0F)
    (offset : Nat) :
    (varintGroups what start more).run ⟨offset, b :: bytes⟩ =
      .ok b.toNat ⟨offset + 1, bytes⟩ [] := by
  cases more with
  | zero =>
      rw [varintGroups, run_bind_ok (run_byte_cons ..), if_neg (Nat.not_lt.mpr (hnarrow rfl))]
      rfl
  | succ more =>
      rw [varintGroups, run_bind_ok (run_byte_cons ..), if_pos hlow]
      rfl

/-- Behind a byte with the top bit there may be one group fewer. -/
theorem run_varintGroups_high (hb : 0x80 ≤ b.toNat) (offset : Nat) :
    (varintGroups what start (more + 1)).run ⟨offset, b :: bytes⟩ =
      (varintGroups what start more >>= fun high => pure (b.toNat - 0x80 + 0x80 * high)).run
        ⟨offset + 1, bytes⟩ := by
  rw [varintGroups, run_bind_ok (run_byte_cons ..), if_neg (Nat.not_lt.mpr hb), Outcome.after_nil]

theorem run_varintGroups_endsAt (h : EndsAt more bytes i last) (offset : Nat) :
    (varintGroups what start more).run ⟨offset, bytes⟩ =
      .ok (value (bytes.take (i + 1))) ⟨offset + (i + 1), bytes.drop (i + 1)⟩ [] := by
  obtain ⟨hreaches, hlow, hle, hnarrow⟩ := h
  -- the induction is on the place of the last byte; each byte before it takes one group away
  induction i generalizing bytes more offset with
  | zero =>
      cases bytes with
      | nil => exact absurd hreaches not_reaches_nil
      | cons b bytes =>
          obtain rfl := reaches_zero_iff.mp hreaches
          rw [run_varintGroups_low hlow hnarrow, List.take_succ_cons, List.take_zero,
            value_singleton hlow]
          rfl
  | succ i ih =>
      cases bytes with
      | nil => exact absurd hreaches not_reaches_nil
      | cons b bytes =>
          obtain ⟨hb, hreaches⟩ := reaches_succ_iff.mp hreaches
          obtain ⟨more, rfl⟩ : ∃ n, more = n + 1 := ⟨more - 1, by omega⟩
          have hrest := ih (offset + 1) hreaches (Nat.le_of_succ_le_succ hle)
            fun h => hnarrow (congrArg _ h)
          rw [run_varintGroups_high hb, run_bind_ok hrest, List.take_succ_cons,
            value_cons_of_high hb, List.drop_succ_cons, Nat.add_right_comm offset 1, ← Nat.add_assoc offset]
          rfl

theorem run_varintGroups_wide (hreaches : Reaches bytes more b) (hwide : 0x0F < b.toNat)
    (offset : Nat) :
    (varintGroups what start more).run ⟨offset, bytes⟩ =
      .fail (.malformed start (.wideVarint what)) ⟨offset + (more + 1), bytes.drop (more + 1)⟩
        [] := by
  induction more generalizing bytes offset with
  | zero =>
      cases bytes with
      | nil => exact absurd hreaches not_reaches_nil
      | cons b bytes =>
          obtain rfl := reaches_zero_iff.mp hreaches
          rw [varintGroups, run_bind_ok (run_byte_cons ..), if_pos hwide, Outcome.after_nil]
          rfl
  | succ more ih =>
      cases bytes with
      | nil => exact absurd hreaches not_reaches_nil
      | cons b bytes =>
          obtain ⟨hb, hreaches⟩ := reaches_succ_iff.mp hreaches
          rw [run_varintGroups_high hb, run_bind_fail (ih hreaches (offset + 1)),
            Nat.add_right_comm, Nat.add_assoc, List.drop_succ_cons]

theorem run_varintGroups_cut (hcut : IsCut more bytes) (offset : Nat) :
    (varintGroups what start more).run ⟨offset, bytes⟩ =
      .fail (.malformed (offset + bytes.length) (.endOfData what))
        ⟨offset + bytes.length, []⟩ [] := by
  induction bytes generalizing more offset with
  | nil =>
      cases more with
      | zero => rfl
      | succ more => rfl
  | cons b bytes ih =>
      cases more with
      | zero => exact absurd hcut.1 (Nat.not_succ_le_zero _)
      | succ more =>
          obtain ⟨hb, hcut⟩ := isCut_cons_iff.mp hcut
          rw [run_varintGroups_high hb, run_bind_fail (ih hcut (offset + 1)), List.length_cons,
            Nat.add_right_comm, Nat.add_assoc]

/-! ### The loop over the shifts -/

/-- The word with the group of a byte put in. -/
def gather (word : UInt32) (shift : Nat) (b : UInt8) : UInt32 :=
  word ||| (b &&& 0x7F).toUInt32 <<< UInt32.ofNat shift

/-- The 7-bit integer as a loop over the shifts of its groups, with the bits gathered in a word.
`beyond` is what comes after the loop, when no group was the last. -/
def varintLoop (what : String) (start : Nat) (beyond : Decoder Int32) :
    List Nat → UInt32 → Decoder Int32
  | [], _ => beyond
  | shift :: shifts, word => do
      let b ← byte what
      if shift = 28 ∧ 0x0F < b.toNat then malformed start (.wideVarint what)
      else if b &&& 0x80 = 0 then pure (gather word shift b).toInt32
      else varintLoop what start beyond shifts (gather word shift b)

theorem toNat_and_low (b : UInt8) : (b &&& 0x7F).toNat = b.toNat % 0x80 :=
  (UInt8.toNat_and ..).trans (Nat.and_two_pow_sub_one_eq_mod b.toNat 7)

theorem and_top_eq_zero_iff (b : UInt8) : b &&& 0x80 = 0 ↔ b.toNat < 0x80 := by
  have hlt := b.toNat_lt
  have hand : (b &&& 0x80).toNat = (b.toNat.testBit 7).toNat * 2 ^ 7 :=
    (UInt8.toNat_and ..).trans (Nat.and_two_pow b.toNat 7)
  rw [← UInt8.toNat_inj, hand, Nat.testBit_eq_decide_div_mod_eq, UInt8.toNat_zero,
    Nat.mul_eq_zero, Bool.toNat_eq_zero, decide_eq_false_iff_not]
  omega

/-- The bits of a group do not meet those that are in the word already. -/
theorem toNat_gather {word : UInt32} {shift : Nat} (hword : word.toNat < 2 ^ shift)
    (hshift : shift < 32) (hfits : b.toNat % 0x80 * 2 ^ shift < 2 ^ 32) :
    (gather word shift b).toNat = word.toNat + b.toNat % 0x80 * 2 ^ shift := by
  have hamount : (UInt32.ofNat shift).toNat = shift :=
    UInt32.toNat_ofNat_of_lt' (Nat.lt_trans hshift (by decide))
  rw [gather, UInt32.toNat_or, UInt32.toNat_shiftLeft, UInt8.toNat_toUInt32, toNat_and_low, hamount,
    Nat.mod_eq_of_lt hshift, Nat.shiftLeft_eq, Nat.mod_eq_of_lt hfits, Nat.or_comm, Nat.mul_comm,
    ← Nat.two_pow_add_eq_or_of_lt hword, Nat.add_comm]

/-- From one shift on, the loop reads the groups that may still come and adds them to the word. -/
theorem varintLoop_eq (beyond : Decoder Int32) {shift : Nat} (hshift : shift + 7 * more = 28)
    {word : UInt32} (hword : word.toNat < 2 ^ shift) :
    varintLoop what start beyond (List.range' shift (more + 1) 7) word =
      varintGroups what start more >>= fun n =>
        pure (UInt32.ofNat (word.toNat + n * 2 ^ shift)).toInt32 := by
  -- the induction is on the groups that may still follow; the word holds those before the shift
  induction more generalizing shift word with
  | zero =>
      obtain rfl : shift = 28 := by omega
      rw [List.range'_succ, varintLoop, varintGroups, bind_assoc]
      refine bind_congr fun b => ?_
      by_cases hwide : 0x0F < b.toNat
      · rw [if_pos ⟨rfl, hwide⟩, if_pos hwide]
        rfl
      · have hlow : b.toNat < 0x80 := by omega
        have hgather := toNat_gather (b := b) hword (by decide) (by omega)
        rw [Nat.mod_eq_of_lt hlow] at hgather
        rw [if_neg (not_and_of_not_right _ hwide), if_pos ((and_top_eq_zero_iff b).mpr hlow),
          if_neg hwide, pure_bind, ← hgather, UInt32.ofNat_toNat]
  | succ more ih =>
      have hpow : 2 ^ (shift + 7) = 2 ^ shift * 0x80 := Nat.pow_add ..
      have hle : 2 ^ (shift + 7) ≤ 2 ^ 28 := Nat.pow_le_pow_right (by decide) (by omega)
      rw [List.range'_succ, varintLoop, varintGroups, bind_assoc]
      refine bind_congr fun b => ?_
      have hgroup : b.toNat % 0x80 * 2 ^ shift ≤ 0x7F * 2 ^ shift :=
        Nat.mul_le_mul_right _ (by omega)
      have hgather := toNat_gather (b := b) hword (by omega) (by omega)
      have hearly : ¬ (shift = 28 ∧ 0x0F < b.toNat) := by omega
      rw [if_neg hearly]
      by_cases hlow : b.toNat < 0x80
      · rw [Nat.mod_eq_of_lt hlow] at hgather
        rw [if_pos ((and_top_eq_zero_iff b).mpr hlow), if_pos hlow, pure_bind, ← hgather,
          UInt32.ofNat_toNat]
      · have hgathered : (gather word shift b).toNat < 2 ^ (shift + 7) := by omega
        rw [if_neg (mt (and_top_eq_zero_iff b).mp hlow), if_neg hlow, bind_assoc,
          ih (by omega) hgathered]
        refine bind_congr fun n => ?_
        have hgroup := toNat_mod_of_high (Nat.le_of_not_lt hlow)
        have hsum : b.toNat % 0x80 * 2 ^ shift + n * 2 ^ (shift + 7) =
            (b.toNat - 0x80 + 0x80 * n) * 2 ^ shift := by
          rw [hpow, hgroup, Nat.add_mul, Nat.mul_comm 0x80, Nat.mul_assoc n, Nat.mul_comm 0x80]
        rw [pure_bind, hgather, Nat.add_assoc, hsum]

/-- Whatever comes after the loop, the integer ends inside it. -/
theorem varintLoop_eq_varint (what : String) (beyond : Nat → Decoder Int32) :
    (position >>= fun start => varintLoop what start (beyond start) (List.range' 0 5 7) 0) =
      varint what := by
  refine bind_congr fun start => ?_
  rw [varintLoop_eq (beyond start) rfl (by decide)]
  simp

/-! ### The integer -/

theorem groupSum_lt (h : EndsAt 4 bytes i last) : groupSum (bytes.take (i + 1)) < 2 ^ 32 := by
  -- the reader gives no number that does not fit
  have hrun : (varintGroups "" 0 4).run ⟨0, bytes⟩ = _ := run_varintGroups_endsAt h 0
  obtain ⟨-, -, -, -, -, hlt, -⟩ := run_varintGroups_eq_ok.mp hrun
  rw [← value_eq_groupSum]
  exact hlt

theorem run_varint_endsAt (h : EndsAt 4 bytes i last) (what : String) (offset : Nat) :
    ∃ n : Int32, n.toInt = Int.bmod (groupSum (bytes.take (i + 1))) (2 ^ 32) ∧
      (varint what).run ⟨offset, bytes⟩ =
        .ok n ⟨offset + (i + 1), bytes.drop (i + 1)⟩ [] := by
  refine ⟨Int32.ofNat (groupSum (bytes.take (i + 1))), Int32.toInt_ofNat', ?_⟩
  rw [varint, run_position_bind, run_bind_ok (run_varintGroups_endsAt h offset), value_eq_groupSum]
  rfl

theorem run_varint_wide (hreaches : Reaches bytes 4 b) (hwide : 0x0F < b.toNat) (what : String)
    (offset : Nat) :
    (varint what).run ⟨offset, bytes⟩ =
      .fail (.malformed offset (.wideVarint what)) ⟨offset + 5, bytes.drop 5⟩ [] := by
  rw [varint, run_position_bind, run_bind_fail (run_varintGroups_wide hreaches hwide offset)]
  rfl

theorem run_varint_cut (hcut : IsCut 4 bytes) (what : String) (offset : Nat) :
    (varint what).run ⟨offset, bytes⟩ =
      .fail (.malformed (offset + bytes.length) (.endOfData what))
        ⟨offset + bytes.length, []⟩ [] := by
  rw [varint, run_position_bind, run_bind_fail (run_varintGroups_cut hcut offset)]

theorem run_varint_shortest (n : Int32) (what : String) (offset : Nat) (rest : List UInt8) :
    (varint what).run ⟨offset, shortest n.toUInt32 ++ rest⟩ =
      .ok n ⟨offset + (shortest n.toUInt32).length, rest⟩ [] := by
  refine (reads_varint what ..).mpr ⟨trivial, rfl, Cursor.spans_iff.mpr ?_⟩
  exact ⟨_, Written.spells_varint_iff.mpr (spells_shortest _), rfl, rfl⟩

theorem length_shortest_le_of_run {n : Int32} {c c' : Cursor} {log : Log}
    (h : (varint what).run c = .ok n c' log) :
    c.offset + (shortest n.toUInt32).length ≤ c'.offset := by
  obtain ⟨-, -, hspans⟩ := (reads_varint what ..).mp h
  obtain ⟨bytes, hbytes, -, hoffset⟩ := Cursor.spans_iff.mp hspans
  rw [hoffset]
  exact Nat.add_le_add_left (Written.spells_varint_iff.mp hbytes).length_shortest_le _

/-- Bytes are taken for a 7-bit integer exactly when the first byte without the top bit is one of
the first five and, as the fifth, carries four bits only.  Then the sum of the groups up to there
fits in 32 bits, the integer is that sum in two's complement, and nothing behind these bytes is
looked at.  Otherwise the fifth byte is reached and too wide, which is malformed where the
integer begins, or the bytes end before, which is malformed where they end.  In the loop over
the shifts the end of the loop is never reached: what stands there makes no difference.  Every
integer is read from its shortest spelling, and from nothing shorter. -/
theorem varint_decodes_exactly (what : String) :
    (∀ (offset : Nat) (bytes : List UInt8),
      ((∃ n c' log, (varint what).run ⟨offset, bytes⟩ = .ok n c' log) ↔
        ∃ i last, EndsAt 4 bytes i last) ∧
      (∀ i last, EndsAt 4 bytes i last →
        groupSum (bytes.take (i + 1)) < 2 ^ 32 ∧
        ∃ n : Int32, n.toInt = Int.bmod (groupSum (bytes.take (i + 1))) (2 ^ 32) ∧
          (varint what).run ⟨offset, bytes⟩ =
            .ok n ⟨offset + (i + 1), bytes.drop (i + 1)⟩ []) ∧
      (∀ b, Reaches bytes 4 b → 0x0F < b.toNat →
        (varint what).run ⟨offset, bytes⟩ =
          .fail (.malformed offset (.wideVarint what)) ⟨offset + 5, bytes.drop 5⟩ []) ∧
      (IsCut 4 bytes →
        (varint what).run ⟨offset, bytes⟩ =
          .fail (.malformed (offset + bytes.length) (.endOfData what))
            ⟨offset + bytes.length, []⟩ []) ∧
      ((∃ i last, EndsAt 4 bytes i last) ∨ (∃ b, Reaches bytes 4 b ∧ 0x0F < b.toNat) ∨
        IsCut 4 bytes)) ∧
    (∀ beyond : Nat → Decoder Int32,
      (position >>= fun start => varintLoop what start (beyond start) (List.range' 0 5 7) 0) =
        varint what) ∧
    ∀ n : Int32,
      (∀ (offset : Nat) (rest : List UInt8),
        (varint what).run ⟨offset, shortest n.toUInt32 ++ rest⟩ =
          .ok n ⟨offset + (shortest n.toUInt32).length, rest⟩ []) ∧
      ∀ c c' log, (varint what).run c = .ok n c' log →
        c.offset + (shortest n.toUInt32).length ≤ c'.offset := by
  refine ⟨fun offset bytes => ⟨⟨?_, ?_⟩, ?_, ?_, ?_, ?_⟩, varintLoop_eq_varint what, fun n => ?_⟩
  · rintro ⟨n, c', log, hrun⟩
    obtain hends | ⟨b, hreaches, hwide⟩ | hcut := ends_or_refused 4 bytes
    · exact hends
    · rw [run_varint_wide hreaches hwide] at hrun
      cases hrun
    · rw [run_varint_cut hcut] at hrun
      cases hrun
  · rintro ⟨i, last, hends⟩
    obtain ⟨n, -, hrun⟩ := run_varint_endsAt hends what offset
    exact ⟨n, _, _, hrun⟩
  · intro i last hends
    exact ⟨groupSum_lt hends, run_varint_endsAt hends what offset⟩
  · intro b hreaches hwide
    exact run_varint_wide hreaches hwide what offset
  · intro hcut
    exact run_varint_cut hcut what offset
  · exact ends_or_refused 4 bytes
  · exact ⟨run_varint_shortest n what, fun c c' log => length_shortest_le_of_run⟩

/-- The widest fifth byte, the first that is too wide, bytes that end early, and 300 in three
bytes and in two. -/
theorem varint_decodes_exactly_edges :
    (varint "count").run ⟨7, [0xFF, 0xFF, 0xFF, 0xFF, 0x0F, 0x2A]⟩ = .ok (-1) ⟨12, [0x2A]⟩ [] ∧
      (varint "count").run ⟨7, [0x80, 0x80, 0x80, 0x80, 0x10, 0x2A]⟩ =
        .fail (.malformed 7 (.wideVarint "count")) ⟨12, [0x2A]⟩ [] ∧
      (varint "count").run ⟨7, [0x80, 0x80]⟩ =
        .fail (.malformed 9 (.endOfData "count")) ⟨9, []⟩ [] ∧
      (varint "count").run ⟨7, [0xAC, 0x82, 0, 0x2A]⟩ = .ok 300 ⟨10, [0x2A]⟩ [] ∧
      shortest 300 = [0xAC, 2] ∧
      (varint "count").run ⟨7, [0xAC, 2, 0x2A]⟩ = .ok 300 ⟨9, [0x2A]⟩ [] := by
  obtain ⟨hbytes, -, hshortest⟩ := varint_decodes_exactly "count"
  obtain ⟨-, hends, -⟩ := hbytes 7 [0xFF, 0xFF, 0xFF, 0xFF, 0x0F, 0x2A]
  obtain ⟨-, n, hn, hwidest⟩ := hends 4 0x0F ⟨by decide, by decide, by decide, by decide⟩
  obtain rfl : n = -1 := Int32.toInt_inj.mp (hn.trans (by decide))
  obtain ⟨-, -, hwide, -⟩ := hbytes 7 [0x80, 0x80, 0x80, 0x80, 0x10, 0x2A]
  obtain ⟨-, -, -, hcut, -⟩ := hbytes 7 [0x80, 0x80]
  obtain ⟨-, hends, -⟩ := hbytes 7 [0xAC, 0x82, 0, 0x2A]
  obtain ⟨-, n, hn, hpadded⟩ := hends 2 0 ⟨by decide, by decide, by decide, by decide⟩
  obtain rfl : n = 300 := Int32.toInt_inj.mp (hn.trans (by decide))
  exact ⟨hwidest, hwide 0x10 (by decide) (by decide), hcut (by decide), hpadded, by decide,
    (hshortest 300).1 7 [0x2A]⟩

end Decoder

end XamlBinary
