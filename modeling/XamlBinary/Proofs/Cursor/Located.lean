import XamlBinary.Proofs.Fault.Place
import XamlBinary.Proofs.Fault.Possible
import XamlBinary.Proofs.Reader.Triple

/-!
Decoders report faults at places of the slice that they decode.  A decoder is
located when from any place of any slice it comes to another place of that
slice, and can end only with faults that lie in it and are not about how
sections are laid out.
-/

namespace XamlBinary

open Reader

namespace Cursor

/-- The cursor stands at a place of the slice. -/
def In (slice : List UInt8) (c : Cursor) : Prop :=
  c.offset ≤ slice.length ∧ c.rest = slice.drop c.offset

theorem in_start (slice : List UInt8) : (start slice).In slice :=
  ⟨Nat.zero_le _, rfl⟩

theorem In.advance {slice : List UInt8} {c : Cursor} {count : Nat} (h : c.In slice)
    (hcount : count ≤ c.rest.length) : (Cursor.mk (c.offset + count) (c.rest.drop count)).In slice := by
  obtain ⟨hoffset, hrest⟩ := h
  rw [hrest, List.length_drop] at hcount
  refine ⟨by show c.offset + count ≤ _; omega, ?_⟩
  rw [hrest, List.drop_drop]

/-- Where too few bytes are left, all of them are taken. -/
theorem In.exhaust {slice : List UInt8} {c : Cursor} {count : Nat} (h : c.In slice)
    (hcount : (c.rest.take count).length ≠ count) :
    (Cursor.mk (c.offset + (c.rest.take count).length) []).In slice := by
  have hlength : (c.rest.take count).length = c.rest.length := by
    rw [List.length_take] at hcount ⊢
    omega
  rw [hlength, ← List.drop_length]
  exact h.advance Nat.le.refl

theorem In.offset_le {slice : List UInt8} {c : Cursor} (h : c.In slice) :
    ByteSource.offset c ≤ slice.length := h.1

end Cursor

/-- A fault of a decoder, which knows nothing of sections. -/
def Fault.OfDecoder (slice : List UInt8) (fault : Fault) : Prop :=
  fault.InSlice slice ∧ fault.CanArise False

namespace Decoder

variable {α β : Type} {slice : List UInt8}

/-- From places of the slice the decoder comes to places of it, or to faults in it. -/
def Located (slice : List UInt8) (decoder : Decoder α) : Prop :=
  Keeps (Cursor.In slice) (Fault.OfDecoder slice) decoder

namespace Located

variable {decoder : Decoder α}

theorem malformed {start : Nat} {reason : DataFault} (hstart : start ≤ slice.length)
    (hreason : reason.StandsAt (slice.drop start))
    (hdecoder : reason.CanArise False := by trivial) :
    Located slice (Reader.malformed start reason : Decoder α) :=
  .fail ⟨⟨hstart, hreason⟩, hdecoder⟩

theorem indexOutOfRange {table : Table} {index length : Nat} :
    Located slice (Reader.indexOutOfRange table index length : Decoder α) :=
  .fail ⟨trivial, trivial⟩

/-- What follows a part that was decoded knows that the part can be decoded there. -/
theorem lead {w : α → Written} {P : α → Prop} {l : α → Log} {next : Nat → α → Decoder β}
    (h : Located slice decoder) (hreads : Reads decoder w P l)
    (hnext : ∀ start a, start ≤ slice.length → decoder.Gives (slice.drop start) a →
      Located slice (next start a)) :
    Located slice (Reader.position >>= fun start => decoder >>= next start) := by
  refine Keeps.lead h fun c a c' log hc hrun => ?_
  have hgives := hreads.gives_of_run hrun
  rw [hc.2] at hgives
  exact hnext c.offset a hc.1 hgives

/-! ### Values -/

theorem exactly (what : String) (count : Nat) :
    Located slice (Reader.exactly what count : Decoder _) := by
  intro c hc
  simp only [run, Reader.exactly, ByteSource.take]
  by_cases hlength : (c.rest.take count).length = count
  · rw [if_pos hlength]
    exact hc.advance (Cursor.le_of_length_take hlength)
  · rw [if_neg hlength]
    exact ⟨⟨⟨hc.1, trivial⟩, trivial⟩, hc.exhaust hlength⟩

theorem byte (what : String) : Located slice (Decoder.byte what) := by
  rintro ⟨offset, rest⟩ hc
  cases rest with
  | nil => exact ⟨⟨⟨hc.1, trivial⟩, trivial⟩, hc⟩
  | cons b rest =>
      show (Cursor.mk (offset + 1) ((b :: rest).drop 1)).In slice
      exact hc.advance (Nat.succ_le_succ (Nat.zero_le _))

theorem block {what : String} (hwhat : what ∉ sectionNames) (count : Nat) :
    Located slice (Decoder.block what count) := by
  intro c hc
  simp only [run, Decoder.block]
  by_cases hlength : (c.rest.take count).length = count
  · rw [if_pos hlength]
    exact hc.advance (Cursor.le_of_length_take hlength)
  · rw [if_neg hlength]
    exact ⟨⟨⟨hc.1, trivial⟩, hwhat⟩, hc.exhaust hlength⟩

theorem bool (what : String) : Located slice (Decoder.bool what) := by
  refine lead (byte what) (reads_byte what) fun start b hstart hgives => ?_
  refine .ite (fun _ => .pure false) fun hzero => .ite (fun _ => .pure true) fun hone => ?_
  exact malformed hstart ⟨hgives, hzero, hone⟩

theorem varintGroups (what : String) {start : Nat} (hstart : start ≤ slice.length) (more : Nat) :
    Located slice (Decoder.varintGroups what start more) := by
  induction more with
  | zero => exact (byte what).bind fun b => .ite (fun _ => malformed hstart trivial) fun _ => .pure _
  | succ more ih =>
      exact (byte what).bind fun b => .ite (fun _ => .pure _) fun _ => ih.bind fun high => .pure _

theorem varint (what : String) : Located slice (Decoder.varint what) :=
  .position fun _ hc => (varintGroups what hc.offset_le 4).bind fun _ => .pure _

theorem natural (what : String) : Located slice (Decoder.natural what) :=
  .position fun _ hc => (varint what).bind fun _ =>
    .ite (fun _ => malformed hc.offset_le trivial) fun _ => .pure _

theorem counted {count : Decoder Int32} (what : String) (hcount : Located slice count)
    (h : Located slice decoder) : Located slice (Reader.counted what count decoder) :=
  Keeps.counted what hcount (fun _ _ hc => ⟨⟨hc.offset_le, trivial⟩, trivial⟩) h

theorem table (what : String) (h : Located slice decoder) :
    Located slice (Reader.table what decoder) :=
  counted what (.int32 exactly what) h

theorem list (what : String) (h : Located slice decoder) :
    Located slice (Decoder.list what decoder) :=
  counted what (varint what) h

theorem string {what : String} (hwhat : what ∉ sectionNames) :
    Located slice (Decoder.string what) := by
  refine lead (.int32 exactly what) (reads_int32 what) fun start n hstart hgives => ?_
  refine .ite (fun hneg => malformed hstart ⟨hgives, hneg⟩) fun _ => ?_
  refine (block hwhat _).bind fun bytes => ?_
  cases Utf16.text? (Utf16.unitsOfBytes bytes) with
  | some text => exact .pure _
  | none => exact malformed hstart trivial

theorem since (present : Bool) (absent : α) (h : Located slice decoder) :
    Located slice (Decoder.since present absent decoder) :=
  .ite (fun _ => h) fun _ => .pure absent

/-- A located decoder of a slice, within a stretch of bytes that the slice was read from. -/
theorem within {σ : Type} {Inv : σ → Prop} {bytes : List UInt8} {base : Nat}
    (h : Located slice decoder) (hbase : base ≤ bytes.length) (hslice : slice <+: bytes.drop base) :
    Keeps Inv (Fault.InSlice bytes) (Reader.within base slice decoder : Reader σ α) := by
  intro s hs
  have hrun := h _ (Cursor.in_start slice)
  simp only [run, Reader.within] at hrun ⊢
  cases hdecoder : decoder (Cursor.start slice) with
  | ok a c log => exact hs
  | fail fault c log =>
      rw [hdecoder] at hrun
      exact ⟨hrun.1.1.rebase hbase hslice, hs⟩

end Located

end Decoder

end XamlBinary
