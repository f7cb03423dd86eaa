import XamlBinary.Cursor.Primitive
import XamlBinary.Proofs.Reader.Primitive
import XamlBinary.Proofs.Text.Utf16

/-!
The values of a slice that vary in width are read exactly: 7-bit integers in
any of their spellings, strings, and lists behind a 7-bit count.
-/

namespace XamlBinary

open Reader

namespace Cursor

theorem skip_of_le {c : Cursor} {n : Nat} (h : n ≤ c.rest.length) :
    c.skip n = ⟨c.offset + n, c.rest.drop n⟩ := by
  rw [skip, Nat.min_eq_left h]

theorem le_of_length_take {c : Cursor} {n : Nat} (h : (c.rest.take n).length = n) :
    n ≤ c.rest.length := by
  rw [List.length_take] at h
  omega

/-- Cutting off `n` bytes works exactly when there are so many. -/
theorem take_length_eq_iff {c : Cursor} {n : Nat} {bytes : List UInt8} :
    (c.rest.take n).length = n ∧ bytes = c.rest.take n ↔
      bytes.length = n ∧ bytes <+: c.rest := by
  constructor
  · rintro ⟨hlength, rfl⟩
    exact ⟨hlength, List.take_prefix ..⟩
  · rintro ⟨rfl, hprefix⟩
    rw [← List.prefix_iff_eq_take.mp hprefix]
    exact ⟨rfl, rfl⟩

instance : LawfulByteSource Cursor where
  ahead := Cursor.rest
  skip := Cursor.skip
  skip_zero c := by simp [Cursor.skip]
  skip_skip c m n := by
    simp only [Cursor.skip, List.length_drop, List.drop_drop, Cursor.mk.injEq, and_true]
    omega
  ahead_skip c n := rfl
  take_eq_all c c' n bytes := by
    rw [← and_assoc, ← take_length_eq_iff]
    simp only [ByteSource.take]
    constructor
    · intro h
      split at h
      · rename_i hlength
        have hle := le_of_length_take hlength
        cases h
        exact ⟨⟨hlength, rfl⟩, (skip_of_le hle).symm⟩
      · cases h
    · rintro ⟨⟨hlength, rfl⟩, rfl⟩
      rw [if_pos hlength, skip_of_le (le_of_length_take hlength)]

@[simp] theorem ahead_eq (c : Cursor) : LawfulByteSource.ahead c = c.rest := rfl

@[simp] theorem skip_eq (c : Cursor) (n : Nat) : LawfulByteSource.skip c n = c.skip n := rfl

/-- Over a cursor a spelling is cut off the bytes ahead. -/
theorem spans_iff {w : Written} {c c' : Cursor} :
    Spans w c c' ↔ ∃ bytes, Written.Spells w bytes ∧ c.rest = bytes ++ c'.rest ∧
      c'.offset = c.offset + bytes.length := by
  constructor
  · rintro ⟨bytes, hbytes, ⟨rest, hrest⟩, rfl⟩
    rw [ahead_eq] at hrest
    have hle : bytes.length ≤ c.rest.length := by
      rw [← hrest, List.length_append]
      exact Nat.le_add_right ..
    refine ⟨bytes, hbytes, ?_, ?_⟩
    · rw [skip_eq, skip_of_le hle, ← hrest, List.drop_left]
    · rw [skip_eq, skip_of_le hle]
  · rintro ⟨bytes, hbytes, hrest, hoffset⟩
    have hle : bytes.length ≤ c.rest.length := by
      rw [hrest, List.length_append]
      exact Nat.le_add_right ..
    refine ⟨bytes, hbytes, ⟨_, hrest.symm⟩, ?_⟩
    rw [skip_eq, skip_of_le hle, hrest, List.drop_left, ← hoffset]

theorem spans_cons_iff {b : UInt8} {bytes : List UInt8} {c c' : Cursor} :
    Spans [.fixed (b :: bytes)] c c' ↔
      ∃ m, Spans (Written.byte b) c m ∧ Spans [.fixed bytes] m c' := by
  rw [← spans_append_iff]
  simp [Spans, Written.byte, Written.spells_fixed_cons_iff]

end Cursor

/-- A text whose units can be counted by a signed word. -/
def Utf16.Countable (text : String) : Prop := (encode text.toList).length < 2 ^ 31

/-! ### Slices -/

/-- The decoder accepts the slice and gives that value for it. -/
def Decoder.Gives {α : Type} (decoder : Decoder α) (slice : List UInt8) (a : α) : Prop :=
  ∃ c log, decoder.run (Cursor.start slice) = .ok a c log

theorem Reader.run_within_eq_ok {σ α : Type} {base : Nat} {slice : List UInt8}
    {decoder : Decoder α} {s s' : σ} {a : α} {log : Log} :
    (within base slice decoder).run s = .ok a s' log ↔
      s' = s ∧ ∃ c, decoder.run (Cursor.start slice) = .ok a c log := by
  rw [run, within]
  constructor
  · intro h
    split at h
    · rename_i hrun
      cases h
      exact ⟨rfl, _, hrun⟩
    · cases h
  · rintro ⟨rfl, c, hrun⟩
    rw [hrun]

namespace Decoder

section Faults

variable {α β : Type} {c m : Cursor} {fault : Fault}

/-- The run of the decoder stops with that fault. -/
def FailsWith (decoder : Decoder α) (c : Cursor) (fault : Fault) : Prop :=
  ∃ c' log, decoder.run c = .fail fault c' log

namespace FailsWith

variable {decoder : Decoder α} {next : α → Decoder β}

theorem bind (h : decoder.FailsWith c fault) (next : α → Decoder β) :
    FailsWith (decoder >>= next) c fault := by
  obtain ⟨c', log, hrun⟩ := h
  exact ⟨c', log, run_bind_fail hrun next⟩

theorem map (h : decoder.FailsWith c fault) (f : α → β) : FailsWith (f <$> decoder) c fault := by
  rw [← bind_pure_comp]
  exact h.bind _

/-- What went well before does not matter. -/
theorem after {a : α} {log : Log} (hrun : decoder.run c = .ok a m log)
    (h : (next a).FailsWith m fault) : FailsWith (decoder >>= next) c fault := by
  obtain ⟨c', log', hnext⟩ := h
  exact ⟨c', log ++ log', by rw [run_bind_ok hrun, hnext, Outcome.after]⟩

end FailsWith

theorem failsWith_malformed (offset : Nat) (reason : DataFault) (c : Cursor) :
    FailsWith (malformed offset reason : Decoder α) c (.malformed offset reason) :=
  ⟨c, [], rfl⟩

end Faults

variable {α : Type}

/-! ### Bytes -/

theorem reads_byte (what : String) :
    Reads (byte what) Written.byte (fun _ => True) fun _ => [] := by
  rintro ⟨offset, rest⟩ b c' log
  rw [Written.byte, spans_fixed_iff, Cursor.ahead_eq, Cursor.skip_eq]
  cases rest with
  | nil => simp
  | cons b' rest =>
      rw [run_byte_cons, Cursor.skip_of_le (by simp), List.cons_prefix_cons]
      constructor
      · rintro ⟨⟩
        exact ⟨trivial, rfl, ⟨rfl, List.nil_prefix⟩, rfl⟩
      · rintro ⟨-, rfl, ⟨rfl, -⟩, rfl⟩
        rfl

theorem reads_bool (what : String) :
    Reads (bool what) Written.bool (fun _ => True) fun _ => [] := by
  refine Reads.position fun start => Reads.lead (fun b => if b then 1 else 0) (reads_byte what)
    (v := fun _ => []) ?_ (fun _ _ => trivial) fun _ _ => (List.append_nil _).symm
  intro byte _
  refine Reads.ite (fun hzero => Reads.pure fun b => ?_) fun hzero =>
    Reads.ite (fun hone => Reads.pure fun b => ?_) fun hone => Reads.fail ?_
  · subst hzero
    cases b <;> decide
  · subst hone
    cases b <;> decide
  · rintro b ⟨rfl, -⟩
    cases b with
    | false => exact hzero rfl
    | true => exact hone rfl

theorem reads_block (what : String) (count : Nat) :
    Reads (block what count) (fun bytes => [.fixed bytes]) (fun bytes => bytes.length = count)
      fun _ => [] := by
  intro c bytes c' log
  rw [spans_fixed_iff, Cursor.ahead_eq, Cursor.skip_eq, run, block]
  constructor
  · intro h
    split at h
    · rename_i hlength
      have hle := Cursor.le_of_length_take hlength
      cases h
      exact ⟨hlength, rfl, List.take_prefix .., by rw [hlength, Cursor.skip_of_le hle]⟩
    · cases h
  · rintro ⟨rfl, rfl, hprefix, rfl⟩
    obtain ⟨hlength, htake⟩ := Cursor.take_length_eq_iff.mpr ⟨rfl, hprefix⟩
    rw [if_pos hlength, ← htake, Cursor.skip_of_le hprefix.length_le]

/-! ### 7-bit integers -/

/-- The groups of a 7-bit integer are read off any closed run of bytes that is not too long
and does not spell too much. -/
theorem run_varintGroups_eq_ok {what : String} {start more n : Nat} {c c' : Cursor}
    {log : Log} :
    (varintGroups what start more).run c = .ok n c' log ↔
      log = [] ∧ ∃ bytes, Varint.Closed bytes ∧ bytes.length ≤ more + 1 ∧
        Varint.value bytes = n ∧ n < 0x80 ^ more * 0x10 ∧ Spans [.fixed bytes] c c' := by
  -- the induction is on the groups that may follow; the last of five has room for four bits
  induction more generalizing n c c' log with
  | zero =>
      rw [varintGroups, run_bind_eq_ok]
      constructor
      · rintro ⟨b, m, first, second, hbyte, hrest, rfl⟩
        obtain ⟨-, rfl, hspan⟩ := (reads_byte what ..).mp hbyte
        split at hrest
        · cases hrest
        · obtain ⟨rfl, rfl, rfl⟩ := run_pure_eq_ok.mp hrest
          have hlast : b.toNat < 0x80 := by omega
          exact ⟨rfl, [b], hlast, Nat.le_refl _, Varint.value_singleton hlast, by omega, hspan⟩
      · rintro ⟨rfl, bytes, hclosed, hlength, rfl, hlt, hspan⟩
        have hpos := List.length_pos_iff.mpr hclosed.ne_nil
        obtain ⟨b, rfl⟩ : ∃ b, bytes = [b] := List.length_eq_one_iff.mp (by omega)
        rw [Varint.closed_singleton] at hclosed
        rw [Varint.value_singleton hclosed] at hlt
        refine ⟨b, c', [], [], (reads_byte what ..).mpr ⟨trivial, rfl, hspan⟩, ?_, rfl⟩
        rw [if_neg (by omega), Varint.value_singleton hclosed]
        rfl
  | succ more ih =>
      rw [varintGroups, run_bind_eq_ok]
      constructor
      · rintro ⟨b, m, first, second, hbyte, hrest, rfl⟩
        obtain ⟨-, rfl, hspan⟩ := (reads_byte what ..).mp hbyte
        have hb := b.toNat_lt
        have hpow : 0x80 ^ (more + 1) = 0x80 * 0x80 ^ more := Nat.pow_succ'
        have hpos : 0 < 0x80 ^ more := Nat.pow_pos (by decide)
        split at hrest
        · rename_i hlast
          obtain ⟨rfl, rfl, rfl⟩ := run_pure_eq_ok.mp hrest
          exact ⟨rfl, [b], hlast, by simp, Varint.value_singleton hlast, by omega, hspan⟩
        · rename_i hmore
          obtain ⟨high, m', first, second, hhigh, hpure, rfl⟩ := run_bind_eq_ok.mp hrest
          obtain ⟨rfl, bytes, hclosed, hlength, rfl, hlt, hspan'⟩ := ih.mp hhigh
          obtain ⟨rfl, rfl, rfl⟩ := run_pure_eq_ok.mp hpure
          have hhigh := Nat.le_of_not_lt hmore
          exact ⟨rfl, b :: bytes, (Varint.closed_cons hclosed.ne_nil).mpr ⟨hhigh, hclosed⟩,
            Nat.succ_le_succ hlength, Varint.value_cons_of_high hhigh bytes, by omega,
            Cursor.spans_cons_iff.mpr ⟨m, hspan, hspan'⟩⟩
      · rintro ⟨rfl, bytes, hclosed, hlength, rfl, hlt, hspan⟩
        obtain ⟨b, rest, rfl⟩ := List.exists_cons_of_ne_nil hclosed.ne_nil
        cases rest with
        | nil =>
            rw [Varint.closed_singleton] at hclosed
            refine ⟨b, c', [], [], (reads_byte what ..).mpr ⟨trivial, rfl, hspan⟩, ?_, rfl⟩
            rw [if_pos hclosed, Varint.value_singleton hclosed]
            rfl
        | cons b' bytes =>
            obtain ⟨hmore, hclosed⟩ := hclosed
            obtain ⟨m, hbyte, hspan⟩ := Cursor.spans_cons_iff.mp hspan
            rw [Varint.value, Nat.pow_succ'] at hlt
            have hhigh := ih.mpr ⟨rfl, b' :: bytes, hclosed, Nat.le_of_succ_le_succ hlength, rfl,
              by omega, hspan⟩
            refine ⟨b, m, [], [], (reads_byte what ..).mpr ⟨trivial, rfl, hbyte⟩, ?_, rfl⟩
            rw [if_neg (Nat.not_lt.mpr hmore), run_bind_ok hhigh, Varint.value_cons_of_high hmore]
            rfl

theorem reads_varint (what : String) :
    Reads (varint what) .varint (fun _ => True) fun _ => [] := by
  refine Reads.position fun start => ?_
  intro c n c' log
  rw [run_bind_eq_ok]
  constructor
  · rintro ⟨value, m, first, second, hgroups, hpure, rfl⟩
    obtain ⟨rfl, bytes, hclosed, hlength, rfl, hlt, hspan⟩ := run_varintGroups_eq_ok.mp hgroups
    obtain ⟨rfl, rfl, rfl⟩ := run_pure_eq_ok.mp hpure
    obtain ⟨hahead, hskip⟩ := spans_fixed_iff.mp hspan
    refine ⟨trivial, rfl, bytes, ?_, hahead, hskip⟩
    rw [Written.spells_varint_iff, UInt32.toUInt32_toInt32]
    exact ⟨hclosed, hlength, (UInt32.toNat_ofNat_of_lt' hlt).symm⟩
  · rintro ⟨-, rfl, bytes, hbytes, hahead, hskip⟩
    obtain ⟨hclosed, hlength, hvalue⟩ := Written.spells_varint_iff.mp hbytes
    refine ⟨Varint.value bytes, c', [], [], ?_, ?_, rfl⟩
    · exact run_varintGroups_eq_ok.mpr ⟨rfl, bytes, hclosed, hlength, rfl,
        hvalue ▸ n.toUInt32.toNat_lt, spans_fixed_iff.mpr ⟨hahead, hskip⟩⟩
    · rw [hvalue, UInt32.ofNat_toNat, Int32.toInt32_toUInt32]
      rfl

theorem reads_natural (what : String) :
    Reads (natural what) .natural (fun n => n.toNat < 2 ^ 31) fun _ => [] := by
  refine Reads.position fun start => Reads.lead UInt32.toInt32 (reads_varint what)
    (v := fun _ => []) ?_ (fun _ _ => trivial) fun _ _ => (List.append_nil _).symm
  intro n _
  refine Reads.ite (fun hneg => Reads.fail ?_) fun hneg => Reads.pure ?_
  · rintro a ⟨rfl, ha⟩
    rw [int32_neg_iff, UInt32.toUInt32_toInt32] at hneg
    omega
  · intro a
    rw [int32_neg_iff] at hneg
    constructor
    · rintro ⟨rfl, -⟩
      exact (UInt32.toUInt32_toInt32 a).symm
    · rintro rfl
      exact ⟨Int32.toInt32_toUInt32 n, by omega⟩

theorem reads_list {item : Decoder α} {w : α → Written} {P : α → Prop} {l : α → Log}
    (what : String) (h : Reads item w P l) :
    Reads (list what item) (.list w) (Counted P) (·.flatMap l) :=
  reads_counted what (reads_varint what) h

/-- A list whose items log nothing. -/
theorem reads_quietList {item : Decoder α} {w : α → Written} {P : α → Prop} (what : String)
    (h : Reads item w P fun _ => []) : Reads (list what item) (.list w) (Counted P) fun _ => [] :=
  (reads_list what h).congr (fun _ => Iff.rfl) (fun _ _ => rfl) fun as _ => by simp

/-! ### Strings -/

theorem written_text (s : String) :
    Written.text s = Written.word32 (UInt32.ofNat (Utf16.encode s.toList).length) ++
      (Utf16.encode s.toList).flatMap Written.word16 := rfl

theorem spells_units_iff {us : List UInt16} {bytes : List UInt8} :
    Written.Spells (us.flatMap Written.word16) bytes ↔ bytes = Utf16.bytesOfUnits us := by
  rw [(Written.isFixed_flatMap Written.isFixed_word16 us).spells_iff, Written.bytes_flatMap]
  exact Iff.rfl

theorem spans_units_iff {us : List UInt16} {c c' : Cursor} :
    Spans (us.flatMap Written.word16) c c' ↔ Spans [.fixed (Utf16.bytesOfUnits us)] c c' := by
  simp only [Spans, spells_units_iff, Written.spells_fixed_iff]

/-- The units of a string and the bytes of them, once the count is known. -/
theorem reads_units (what : String) (start : Nat) (count : Nat) :
    Reads (do
        let bytes ← block what (2 * count)
        match Utf16.text? (Utf16.unitsOfBytes bytes) with
        | some text => pure text
        | none => malformed start (.invalidUtf16 what))
      (fun s => (Utf16.encode s.toList).flatMap Written.word16)
      (fun s => (Utf16.encode s.toList).length = count) fun _ => [] := by
  intro c s c' log
  rw [run_bind_eq_ok, spans_units_iff]
  dsimp only
  constructor
  · rintro ⟨bytes, m, first, second, hblock, hrest, rfl⟩
    obtain ⟨hlength, rfl, hspan⟩ := (reads_block what _ ..).mp hblock
    -- units that decode are those of the string, so the bytes are its bytes
    split at hrest
    · rename_i text htext
      obtain ⟨rfl, rfl, rfl⟩ := run_pure_eq_ok.mp hrest
      have hunits := Utf16.text?_eq_some_iff.mp htext
      have hbytes := Utf16.bytesOfUnits_unitsOfBytes hlength
      have hcount : 2 * (Utf16.unitsOfBytes bytes).length = 2 * count := by
        rw [← Utf16.length_bytesOfUnits, hbytes]
        exact hlength
      rw [hunits, hbytes]
      exact ⟨Nat.eq_of_mul_eq_mul_left Nat.two_pos hcount, rfl, hspan⟩
    · cases hrest
  · rintro ⟨hlength, rfl, hspan⟩
    refine ⟨_, c', [], [], (reads_block what _ ..).mpr ⟨?_, rfl, hspan⟩, ?_, rfl⟩
    · exact (Utf16.length_bytesOfUnits _).trans (by rw [hlength])
    · rw [Utf16.unitsOfBytes_bytesOfUnits, Utf16.text?_eq_some_iff.mpr rfl]
      rfl

theorem reads_string (what : String) :
    Reads (string what) .text Utf16.Countable fun _ => [] := by
  refine Reads.position fun start => Reads.lead
    (fun s => (UInt32.ofNat (Utf16.encode s.toList).length).toInt32) (reads_int32 what)
    (v := fun s => (Utf16.encode s.toList).flatMap Written.word16) ?_ (fun _ _ => trivial) ?_
  · intro n _
    refine Reads.ite (fun hneg => Reads.fail ?_) fun hneg => ?_
    · rintro s ⟨rfl, hlength⟩
      exact ofNat_toInt32_not_neg hlength hneg
    · exact (reads_units what start _).congr (fun s => (length_eq_iff hneg).symm)
        (fun _ _ => rfl) fun _ _ => rfl
  · intro s _
    rw [UInt32.toUInt32_toInt32, written_text]

/-! ### Parts of some versions -/

/-- A part that is valid where it is present, and has its default where it is not. -/
def Since (present : Bool) (absent : α) (P : α → Prop) (a : α) : Prop :=
  if present then P a else a = absent

theorem reads_since {part : Decoder α} {w : α → Written} {P : α → Prop} (present : Bool)
    (absent : α) (h : Reads part w P fun _ => []) :
    Reads (since present absent part) (fun a => .since present (w a))
      (Since present absent P) fun _ => [] := by
  cases present with
  | false => exact Reads.pure fun a => Iff.rfl
  | true => exact h

end Decoder

end XamlBinary
