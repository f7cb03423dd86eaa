import XamlBinary.Constant.Decode
import XamlBinary.Metadata.Basic
import XamlBinary.Node.Written
import XamlBinary.Proofs.Cursor.Primitive

/-!
The places that faults report.  A fault lies inside the bytes that were read,
and where it is about one value the bytes at its place are that value: reading
it again from there gives what was refused.  What is true of a slice stays
true when the slice is seen as a part of a file, with the fault moved along.
-/

namespace XamlBinary

open Reader

namespace Reader

variable {α : Type} {decoder : Decoder α} {w : α → Written} {P : α → Prop} {l : α → Log}
  {a : α}

/-- What a decoder gives depends only on the bytes that it takes. -/
theorem Reads.gives_iff (h : Reads decoder w P l) {ahead : List UInt8} :
    decoder.Gives ahead a ↔ P a ∧ ∃ bytes, (w a).Spells bytes ∧ bytes <+: ahead := by
  constructor
  · rintro ⟨c, log, hrun⟩
    obtain ⟨ha, -, bytes, hbytes, hahead, -⟩ := (h ..).mp hrun
    exact ⟨ha, bytes, hbytes, hahead⟩
  · rintro ⟨ha, bytes, hbytes, hahead⟩
    exact ⟨_, _, (h ..).mpr ⟨ha, rfl, bytes, hbytes, hahead, rfl⟩⟩

/-- It gives the same wherever it begins. -/
theorem Reads.gives_of_run (h : Reads decoder w P l) {c c' : Cursor} {log : Log}
    (hrun : decoder.run c = .ok a c' log) : decoder.Gives c.rest a := by
  obtain ⟨ha, -, bytes, hbytes, hahead, -⟩ := (h ..).mp hrun
  exact h.gives_iff.mpr ⟨ha, bytes, hbytes, hahead⟩

theorem Reads.gives_mono (h : Reads decoder w P l) {ahead longer : List UInt8}
    (hlonger : ahead <+: longer) (hgives : decoder.Gives ahead a) : decoder.Gives longer a := by
  obtain ⟨ha, bytes, hbytes, hahead⟩ := h.gives_iff.mp hgives
  exact h.gives_iff.mpr ⟨ha, bytes, hbytes, hahead.trans hlonger⟩

end Reader

namespace DataFault

/-- The bytes begin with the value that the reason says was refused, and that value is one to
refuse.  A substream that is missing is named by the node that the bytes begin with.  The other
reasons are not about a value that stands at one place. -/
def StandsAt (ahead : List UInt8) : DataFault → Prop
  | notBoolean what b => (Decoder.byte what).Gives ahead b ∧ b ≠ 0 ∧ b ≠ 1
  | negativeLength what n => Decoder.Gives (int32 what) ahead n ∧ n < 0
  | unknownAssemblyKind n =>
      Decoder.Gives (uint32 "assembly kind") ahead n ∧ AssemblyKind.ofNumber? n = none
  | unknownGridUnit n =>
      Decoder.Gives (uint32 "grid unit type") ahead n ∧ GridUnit.ofNumber? n = none
  | unknownNodeKind tag =>
      (Decoder.byte "node type").Gives ahead tag ∧ NodeKind.ofTag? tag = none
  | unknownConstantKind tag =>
      (Decoder.byte "constant type").Gives ahead tag ∧ ConstantKind.ofTag? tag = none
  | unknownSetterValue kind =>
      (Decoder.byte "setter value kind").Gives ahead kind ∧ 3 < kind.toNat
  | unknownRuntimeData n =>
      (Decoder.varint "custom runtime data type").Gives ahead n ∧ RuntimeLayout.ofNumber? n = none
  | missingSubstream index count =>
      ahead.head? = some 0x0C ∧ count ≤ index.toNat ∧
        ∃ data bytes, (Node.runtimeData data index).written.Spells bytes ∧ bytes <+: ahead
  | _ => True

theorem StandsAt.mono {ahead longer : List UInt8} {reason : DataFault}
    (h : reason.StandsAt ahead) (hlonger : ahead <+: longer) : reason.StandsAt longer := by
  cases reason with
  | notBoolean what b => exact ⟨(Decoder.reads_byte what).gives_mono hlonger h.1, h.2⟩
  | negativeLength what n => exact ⟨(reads_int32 what).gives_mono hlonger h.1, h.2⟩
  | unknownAssemblyKind n => exact ⟨(reads_uint32 _).gives_mono hlonger h.1, h.2⟩
  | unknownGridUnit n => exact ⟨(reads_uint32 _).gives_mono hlonger h.1, h.2⟩
  | unknownNodeKind tag => exact ⟨(Decoder.reads_byte _).gives_mono hlonger h.1, h.2⟩
  | unknownConstantKind tag => exact ⟨(Decoder.reads_byte _).gives_mono hlonger h.1, h.2⟩
  | unknownSetterValue kind => exact ⟨(Decoder.reads_byte _).gives_mono hlonger h.1, h.2⟩
  | unknownRuntimeData n => exact ⟨(Decoder.reads_varint _).gives_mono hlonger h.1, h.2⟩
  | missingSubstream index count =>
      obtain ⟨htag, hcount, data, bytes, hbytes, hahead⟩ := h
      refine ⟨?_, hcount, data, bytes, hbytes, hahead.trans hlonger⟩
      obtain ⟨more, rfl⟩ := hlonger
      rw [List.head?_append, htag, Option.some_or]
  | _ => trivial

end DataFault

namespace Fault

/-- A fault of a slice: data that is malformed at a place of the slice, or an index. -/
def InSlice (slice : List UInt8) : Fault → Prop
  | malformed offset reason => offset ≤ slice.length ∧ reason.StandsAt (slice.drop offset)
  | indexOutOfRange _ _ _ => True
  | invalidFormat _ _ | device _ _ _ => False

/-- A fault of a whole file, which may also be that it is none. -/
def PointsInto (bytes : List UInt8) : Fault → Prop
  | invalidFormat offset _ => offset ≤ bytes.length
  | fault => fault.InSlice bytes

variable {bytes slice : List UInt8} {fault : Fault}

theorem InSlice.pointsInto (h : fault.InSlice bytes) : fault.PointsInto bytes := by
  cases fault with
  | invalidFormat offset reason => exact h.elim
  | malformed offset reason => exact h
  | indexOutOfRange table index length => trivial
  | device offset what cause => exact h

theorem InSlice.offset_le (h : fault.InSlice slice) :
    ∀ offset ∈ fault.offset?, offset ≤ slice.length := by
  intro offset hoffset
  cases fault with
  | malformed place reason =>
      cases hoffset
      exact h.1
  | indexOutOfRange table index length => cases hoffset
  | invalidFormat place reason => exact h.elim
  | device place what cause => exact h.elim

/-- A fault of a slice is one of the whole, at a place that is so much further on. -/
theorem InSlice.rebase {base : Nat} (h : fault.InSlice slice) (hbase : base ≤ bytes.length)
    (hslice : slice <+: bytes.drop base) : (fault.rebase base).InSlice bytes := by
  cases fault with
  | malformed offset reason =>
      obtain ⟨hoffset, hstands⟩ := h
      have hlength := hslice.length_le
      rw [List.length_drop] at hlength
      refine ⟨by omega, hstands.mono ?_⟩
      obtain ⟨more, hmore⟩ := hslice
      rw [← List.drop_drop, ← hmore, List.drop_append_of_le_length hoffset]
      exact List.prefix_append ..
  | indexOutOfRange table index length => trivial
  | invalidFormat offset reason => exact h.elim
  | device offset what cause => exact h.elim

end Fault

end XamlBinary
