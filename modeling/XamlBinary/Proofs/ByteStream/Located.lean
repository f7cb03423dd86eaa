import XamlBinary.Proofs.ByteStream.Reading
import XamlBinary.Proofs.Cursor.Located

/-!
Plain streams of known bytes.  Nothing is wrong with the stream itself, so all
that a read can meet is the end of the bytes, and that is reported at a place
in them.
-/

namespace XamlBinary

open Reader

namespace ByteStream

/-- A plain stream that stands in those bytes or at their end. -/
structure On (bytes : List UInt8) (s : ByteStream) : Prop where
  plain : s.IsPlain
  bytes_eq : s.bytes = bytes
  position_le : s.position ≤ bytes.length

/-- It stands at that place of them. -/
def OnAt (bytes : List UInt8) (position : Nat) (s : ByteStream) : Prop :=
  s.On bytes ∧ s.position = position

variable {bytes : List UInt8} {s : ByteStream}

namespace On

theorem offset_eq (h : s.On bytes) : ByteSource.offset s = s.position := by
  obtain ⟨-, -, hseek⟩ := h.plain
  exact offset_of_tell (by simp [hseek])

theorem offset_le (h : s.On bytes) : ByteSource.offset s ≤ bytes.length := by
  rw [h.offset_eq]
  exact h.position_le

theorem readable_eq (h : s.On bytes) : s.readable = bytes.drop s.position := by
  rw [readable_of_limit h.plain.1, h.bytes_eq]

theorem skip (h : s.On bytes) {count : Nat} (hcount : count ≤ s.readable.length) :
    (s.skip count).On bytes := by
  have hposition := h.position_le
  rw [h.readable_eq, List.length_drop] at hcount
  refine ⟨h.plain, h.bytes_eq, ?_⟩
  rw [position_skip]
  omega

/-- A read that is short has come to the end of the bytes. -/
theorem pull (h : s.On bytes) (count : Nat) :
    (s.skip (s.readable.take count).length).On bytes ∧
      (s.pull count = (s.readable.take count, none, s.skip (s.readable.take count).length) ∨
        s.pull count = (s.readable.take count, some .endOfBytes,
          s.skip (s.readable.take count).length)) := by
  have hlength : (s.readable.take count).length ≤ s.readable.length := by
    rw [List.length_take]
    exact Nat.min_le_right ..
  have hshortage : (s.skip (s.readable.take count).length).shortage = .endOfBytes :=
    shortage_of_limit h.plain.1
  have hpull := pull_eq (rfl : s.readable.take count = _)
  refine ⟨h.skip hlength, ?_⟩
  by_cases hcount : (s.readable.take count).length = count
  · rw [if_pos hcount] at hpull
    exact .inl hpull
  · rw [if_neg hcount, hshortage] at hpull
    exact .inr hpull

end On

/-! ### Reading -/

section Place

variable {α : Type} {position : Nat} {Post : α → ByteStream → Prop}
  {Fail : Fault → ByteStream → Prop}

/-- Wherever the stream stands in the bytes, it stands at some place. -/
theorem triple_on {reader : Reader ByteStream α}
    (h : ∀ position, Triple (OnAt bytes position) reader Post Fail) :
    Triple (On bytes) reader Post Fail :=
  fun s hs => h s.position s ⟨hs, rfl⟩

theorem triple_position {next : Nat → Reader ByteStream α}
    (h : Triple (OnAt bytes position) (next position) Post Fail) :
    Triple (OnAt bytes position) (Reader.position >>= next) Post Fail := by
  intro s hs
  rw [run_position_bind, hs.1.offset_eq, hs.2]
  exact h s hs

end Place

theorem IsPlain.onAt_start (h : s.IsPlain) : OnAt s.bytes 0 { s with position := 0 } :=
  ⟨⟨h, rfl, Nat.zero_le _⟩, rfl⟩

/-- From wherever a plain stream stands it can go to its start. -/
theorem triple_goTo {Fail : Fault → ByteStream → Prop} (what : String) :
    Triple (fun s => s.IsPlain ∧ s.bytes = bytes) (goTo what 0) (fun _ => OnAt bytes 0) Fail := by
  rintro s ⟨hplain, rfl⟩
  rw [run_goTo_eq_ok.mpr ⟨by simp [hplain.2.2], rfl, rfl⟩]
  exact hplain.onAt_start

/-- A stretch of the bytes that begins at that place. -/
def Stretch (bytes : List UInt8) (start : Nat) (slice : List UInt8) : Prop :=
  start ≤ bytes.length ∧ slice <+: bytes.drop start

/-- A value that is not there as a whole is cut by the end of the bytes. -/
theorem keeps_exactly (what : String) (count : Nat) :
    Keeps (On bytes)
      (fun fault => ∃ offset ≤ bytes.length, fault = .malformed offset (.endOfData what))
      (exactly what count) := by
  intro s hs
  obtain ⟨hafter, hpull | hpull⟩ := hs.pull count
  · simp only [run, exactly, ByteSource.take, hpull]
    exact hafter
  · simp only [run, exactly, ByteSource.take, hpull]
    exact ⟨⟨_, hs.offset_le, rfl⟩, hafter⟩

/-- Readers that report faults at places of the bytes. -/
def Located {α : Type} (bytes : List UInt8) (reader : Reader ByteStream α) : Prop :=
  Keeps (On bytes) (Fault.InSlice bytes) reader

namespace Located

theorem malformed {α : Type} {start : Nat} {reason : DataFault} (hstart : start ≤ bytes.length)
    (hreason : reason.StandsAt (bytes.drop start)) :
    Located bytes (Reader.malformed start reason : Reader ByteStream α) :=
  .fail ⟨hstart, hreason⟩

theorem exactly (what : String) (count : Nat) :
    Located bytes (Reader.exactly what count : Reader ByteStream _) := by
  refine (keeps_exactly what count).mono ?_
  rintro _ ⟨offset, hle, rfl⟩
  exact ⟨hle, trivial⟩

theorem block (what : String) (count : Nat) : Located bytes (ByteStream.block what count) := by
  intro s hs
  obtain ⟨hafter, hpull | hpull⟩ := hs.pull count
  · simp only [run, ByteStream.block, hpull]
    exact hafter
  · simp only [run, ByteStream.block, hpull]
    exact ⟨⟨hs.offset_le, trivial⟩, hafter⟩

/-- A block is the stretch that it was read from, and the stream stands behind it. -/
theorem blockAt (what : String) (start count : Nat) :
    Triple (OnAt bytes start) (ByteStream.block what count)
      (fun slice s => Stretch bytes start slice ∧ s.OnAt bytes (start + count))
      fun fault s => fault.InSlice bytes ∧ s.On bytes := by
  refine (block what count).refine (fun _ hs => hs.1) fun s slice s' log hs hrun hon' => ?_
  obtain ⟨hon, rfl⟩ := hs
  obtain ⟨rfl, -, hspan⟩ := (reads_block ..).mp hrun
  obtain ⟨hahead, rfl⟩ := spans_fixed_iff.mp hspan
  rw [ahead_eq, hon.readable_eq] at hahead
  exact ⟨⟨hon.position_le, hahead⟩, hon', rfl⟩

/-- A decoder of a stretch of the bytes reports the places of its faults in the whole. -/
theorem within {α : Type} {decoder : Decoder α} {position base : Nat} {slice : List UInt8}
    (h : Decoder.Located slice decoder) (hslice : Stretch bytes base slice) :
    Triple (OnAt bytes position) (Reader.within base slice decoder) (fun _ => OnAt bytes position)
      fun fault s => fault.InSlice bytes ∧ s.On bytes := by
  have hkeeps : Keeps (OnAt bytes position) (Fault.InSlice bytes)
      (Reader.within base slice decoder) := h.within hslice.1 hslice.2
  exact Triple.mono hkeeps (fun _ hs => hs) (fun _ _ hs => hs) fun _ _ hfail =>
    ⟨hfail.1, hfail.2.1⟩

theorem table {α : Type} {item : Reader ByteStream α} (what : String) (h : Located bytes item) :
    Located bytes (Reader.table what item) :=
  Keeps.counted what (.int32 exactly what) (fun _ _ hs => ⟨hs.offset_le, trivial⟩) h

end Located

end ByteStream

end XamlBinary
