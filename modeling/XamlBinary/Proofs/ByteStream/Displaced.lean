import XamlBinary.Proofs.ByteStream.Reading
import XamlBinary.Proofs.Reader.Coupled

/-!
Two plain streams with the same bytes ahead, the second of which stands some
bytes further on.  Readers that look at bytes see no difference, so they end
alike on both; all that moves along are the places at which faults are found.
-/

namespace XamlBinary

open Reader

/-! ### Faults further on -/

/-- A reason that tells offsets of the stream tells them `d` bytes further on. -/
def DataFault.displace (d : Nat) : DataFault → DataFault
  | substreamStart index expected => substreamStart index (d + expected)
  | substreamsEnd position sectionEnd => substreamsEnd (d + position) (d + sectionEnd)
  | reason => reason

namespace Fault

/-- The second fault is the first one, found `d` bytes further on.  Offsets that its reason tells
of the stream are further on, too. -/
def Displaced (d : Nat) (fault fault' : Fault) : Prop :=
  fault' = fault.rebase d ∨
    ∃ offset reason, fault = .malformed offset reason ∧
      fault' = .malformed (d + offset) (reason.displace d)

variable {d : Nat}

theorem displaced_rebase (fault : Fault) (d : Nat) : fault.Displaced d (fault.rebase d) := .inl rfl

/-- Faults in a slice are further on when the slice is. -/
theorem displaced_slice (fault : Fault) (base : Nat) :
    (fault.rebase base).Displaced d (fault.rebase (d + base)) :=
  .inl (rebase_rebase ..).symm

theorem displaced_malformed (offset : Nat) (reason : DataFault) :
    (Fault.malformed offset reason).Displaced d (.malformed (d + offset) (reason.displace d)) :=
  .inr ⟨offset, reason, rfl, rfl⟩

end Fault

/-! ### Streams further on -/

/-- The second stream stands `d` bytes further on than the first, with the same bytes ahead. -/
structure ByteStream.Displaced (d : Nat) (s t : ByteStream) : Prop where
  plain : s.IsPlain
  plain_right : t.IsPlain
  position : t.position = d + s.position
  readable : t.readable = s.readable

/-- Streams of which the second stands `d` bytes further on. -/
def Coupling.displaced (d : Nat) : Coupling ByteStream ByteStream where
  states := ByteStream.Displaced d
  faults := Fault.Displaced d
  escapes _ := False

namespace ByteStream

variable {s t : ByteStream} {d : Nat}

theorem IsPlain.offset_eq (h : s.IsPlain) : s.offset = s.position := by
  obtain ⟨-, -, hseek⟩ := h
  exact offset_of_tell (by simp [hseek])

namespace Displaced

theorem offset (h : s.Displaced d t) : t.offset = d + s.offset := by
  rw [h.plain.offset_eq, h.plain_right.offset_eq, h.position]

theorem skip (h : s.Displaced d t) (count : Nat) : (s.skip count).Displaced d (t.skip count) where
  plain := h.plain
  plain_right := h.plain_right
  position := by rw [position_skip, position_skip, h.position, Nat.add_assoc]
  readable := by rw [readable_skip, readable_skip, h.readable]

/-- Both deliver the same bytes, and where they deliver too few both have come to the end. -/
theorem pull (h : s.Displaced d t) (count : Nat) :
    ∃ bytes, (s.skip bytes.length).Displaced d (t.skip bytes.length) ∧
      (s.pull count = (bytes, none, s.skip bytes.length) ∧
          t.pull count = (bytes, none, t.skip bytes.length) ∨
        s.pull count = (bytes, some .endOfBytes, s.skip bytes.length) ∧
          t.pull count = (bytes, some .endOfBytes, t.skip bytes.length)) := by
  have hs := pull_eq (rfl : s.readable.take count = _)
  have ht := pull_eq (congrArg (List.take count) h.readable)
  have hend : (s.skip (s.readable.take count).length).shortage = .endOfBytes :=
    shortage_of_limit h.plain.1
  have hend' : (t.skip (s.readable.take count).length).shortage = .endOfBytes :=
    shortage_of_limit h.plain_right.1
  rw [hend] at hs
  rw [hend'] at ht
  refine ⟨s.readable.take count, h.skip _, ?_⟩
  by_cases hcount : (s.readable.take count).length = count
  · rw [if_pos hcount] at hs ht
    exact .inl ⟨hs, ht⟩
  · rw [if_neg hcount] at hs ht
    exact .inr ⟨hs, ht⟩

end Displaced

end ByteStream

/-! ### Readers of both -/

namespace Reader

/-- On displaced streams the two readers end alike. -/
def Displaced {α : Type} (d : Nat) (reader other : Reader ByteStream α) : Prop :=
  Coupled (Coupling.displaced d) reader other

namespace Displaced

variable {α : Type} {d : Nat} {reader other reader₂ other₂ : Reader ByteStream α}

theorem position {next next' : Nat → Reader ByteStream α}
    (h : ∀ start, Displaced d (next start) (next' (d + start))) :
    Displaced d (Reader.position >>= next) (Reader.position >>= next') := by
  intro s t hstates
  have hoffset : ByteSource.offset t = d + ByteSource.offset s :=
    ByteStream.Displaced.offset hstates
  rw [run_position_bind, run_position_bind, hoffset]
  exact h _ s t hstates

theorem malformed (start : Nat) (reason : DataFault) :
    Displaced d (Reader.malformed start reason : Reader ByteStream α)
      (Reader.malformed (d + start) reason) :=
  .fail (Fault.displaced_rebase (.malformed start reason) d)

theorem ite {p q : Prop} [Decidable p] [Decidable q] (hpq : p ↔ q)
    (hthen : Displaced d reader other) (helse : Displaced d reader₂ other₂) :
    Displaced d (if p then reader else reader₂) (if q then other else other₂) := by
  by_cases hp : p
  · rw [if_pos hp, if_pos (hpq.mp hp)]
    exact hthen
  · rw [if_neg hp, if_neg (mt hpq.mpr hp)]
    exact helse

/-- A slice that begins further on, decoded in the same way. -/
theorem within (base : Nat) (slice : List UInt8) (decoder : Decoder α) :
    Displaced d (Reader.within base slice decoder : Reader ByteStream α)
      (Reader.within (d + base) slice decoder) := by
  intro s t hstates
  simp only [run, Reader.within]
  cases decoder (Cursor.start slice) with
  | ok a c log => exact .ok hstates rfl
  | fail fault c log => exact .fail (fault.displaced_slice base) hstates rfl

theorem exactly (what : String) (count : Nat) :
    Displaced d (Reader.exactly what count : Reader ByteStream _) (Reader.exactly what count) := by
  intro s t hstates
  obtain ⟨bytes, hskip, ⟨hs, ht⟩ | ⟨hs, ht⟩⟩ := ByteStream.Displaced.pull hstates count
  · simp only [run, Reader.exactly, ByteSource.take, hs, ht]
    exact .ok hskip rfl
  · simp only [run, Reader.exactly, ByteSource.take, hs, ht]
    rw [ByteStream.offset_eq, ByteStream.offset_eq, ByteStream.Displaced.offset hstates]
    exact .fail (Fault.displaced_rebase (.malformed s.offset (.endOfData what)) d) hskip rfl

theorem block (what : String) (count : Nat) :
    Displaced d (ByteStream.block what count) (ByteStream.block what count) := by
  intro s t hstates
  obtain ⟨bytes, hskip, ⟨hs, ht⟩ | ⟨hs, ht⟩⟩ := ByteStream.Displaced.pull hstates count
  · simp only [run, ByteStream.block, hs, ht]
    exact .ok hskip rfl
  · simp only [run, ByteStream.block, hs, ht]
    rw [ByteStream.Displaced.offset hstates]
    exact .fail (Fault.displaced_rebase (.malformed s.offset (.shortRun what count _)) d) hskip rfl

theorem uint32 (what : String) :
    Displaced d (Reader.uint32 what : Reader ByteStream _) (Reader.uint32 what) :=
  (exactly what 4).bind fun _ => .pure _

theorem table {item other : Reader ByteStream α} (what : String) (h : Displaced d item other) :
    Displaced d (Reader.table what item) (Reader.table what other) := by
  have hcount : Displaced d (Reader.int32 what : Reader ByteStream _) (Reader.int32 what) :=
    (uint32 what).bind fun _ => .pure _
  exact position fun start => hcount.bind fun n =>
    ite Iff.rfl (malformed start _) (h.listOf n.toNatClampNeg)

end Displaced

end Reader

end XamlBinary
