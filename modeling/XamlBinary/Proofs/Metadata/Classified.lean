import Mathlib.Tactic.MkIffOfInductiveProp
import XamlBinary.Proofs.Metadata.Decode
import XamlBinary.Proofs.Reader.Triple

/-!
What becomes of a metadata section, whatever its bytes are.  The bytes are
those of some tables or of none.  In the first case there is only one choice
of tables, and they are accepted unless an index in them dangles; in the
second case the bytes are malformed.
-/

namespace XamlBinary

open Reader

/-- The bytes themselves are wrong. -/
def Fault.IsMalformed : Fault → Prop
  | malformed _ _ => True
  | invalidFormat _ _ | indexOutOfRange _ _ _ | device _ _ _ => False

theorem Fault.IsMalformed.exists_eq {fault : Fault} (h : fault.IsMalformed) :
    ∃ offset reason, fault = .malformed offset reason := by
  cases fault with
  | malformed offset reason => exact ⟨offset, reason, rfl⟩
  | invalidFormat offset reason => exact h.elim
  | indexOutOfRange table index length => exact h.elim
  | device offset what cause => exact h.elim

namespace Decoder

/-- A decoder that can fail because the bytes are wrong, and for no other reason. -/
def BlamesBytes {α : Type} (decoder : Decoder α) : Prop :=
  Keeps (fun _ => True) Fault.IsMalformed decoder

namespace BlamesBytes

variable {α β : Type} {decoder : Decoder α}

theorem malformed (start : Nat) (reason : DataFault) :
    BlamesBytes (Reader.malformed start reason : Decoder α) :=
  .fail trivial

theorem position {next : Nat → Decoder β} (h : ∀ start, BlamesBytes (next start)) :
    BlamesBytes (Reader.position >>= next) :=
  Keeps.position fun _ _ => h _

theorem exactly (what : String) (count : Nat) : BlamesBytes (Reader.exactly what count) := by
  intro c _
  simp only [run, Reader.exactly, ByteSource.take]
  by_cases h : (c.rest.take count).length = count
  · rw [if_pos h]
    trivial
  · rw [if_neg h]
    exact ⟨trivial, trivial⟩

theorem block (what : String) (count : Nat) : BlamesBytes (Decoder.block what count) := by
  intro c _
  simp only [run, Decoder.block]
  by_cases h : (c.rest.take count).length = count
  · rw [if_pos h]
    trivial
  · rw [if_neg h]
    exact ⟨trivial, trivial⟩

theorem uint32 (what : String) : BlamesBytes (Reader.uint32 what) := Keeps.uint32 exactly what

theorem table (what : String) (h : BlamesBytes decoder) : BlamesBytes (Reader.table what decoder) :=
  Keeps.counted what (Keeps.int32 exactly what) (fun _ _ _ => trivial) h

theorem string (what : String) : BlamesBytes (Decoder.string what) := by
  refine position fun start => (Keeps.int32 exactly what).bind fun length => ?_
  refine .ite (fun _ => malformed _ _) fun _ => (block what _).bind fun bytes => ?_
  cases Utf16.text? (Utf16.unitsOfBytes bytes) with
  | some text => exact .pure _
  | none => exact malformed _ _

theorem assembly : BlamesBytes Decoder.assembly := by
  refine position fun start => (uint32 _).bind fun number => ?_
  cases AssemblyKind.ofNumber? number with
  | some kind => exact (uint32 _).bind fun _ => .pure _
  | none => exact malformed _ _

theorem typeNamespace : BlamesBytes Decoder.typeNamespace :=
  (uint32 _).bind fun _ => (uint32 _).bind fun _ => .pure _

/-- What follows flags is read whether or not they call for a warning. -/
theorem flagged {next : UInt32 → Decoder α} (unknown : UInt32 → Prop) [DecidablePred unknown]
    (warning : UInt32 → Warning) (what : String) (hnext : ∀ bits, BlamesBytes (next bits)) :
    BlamesBytes (do
      let bits ← Reader.uint32 what
      if unknown bits then do
          warn (warning bits)
          next bits
        else next bits) :=
  (uint32 what).bind fun bits =>
    .ite (fun _ => (Keeps.report _).bind fun _ => hnext bits) fun _ => hnext bits

theorem typeEntry : BlamesBytes Decoder.typeEntry :=
  flagged (fun bits => (TypeFlags.mk bits).unknownBits ≠ 0) Warning.unknownTypeFlags _ fun _ =>
    (uint32 _).bind fun _ => (uint32 _).bind fun _ => .pure _

theorem propertyEntry : BlamesBytes Decoder.propertyEntry :=
  flagged (fun bits => (PropertyFlags.mk bits).unknownBits ≠ 0) Warning.unknownPropertyFlags _
    fun _ => (uint32 _).bind fun _ => (uint32 _).bind fun _ => .pure _

theorem metadataTables : BlamesBytes Decoder.metadataTables := by
  refine (table _ (string _)).bind fun _ => (table _ assembly).bind fun _ => ?_
  refine (table _ typeNamespace).bind fun _ => (table _ typeEntry).bind fun _ => ?_
  refine (table _ propertyEntry).bind fun _ => ?_
  exact (table _ ((uint32 _).map _)).bind fun _ => .pure _

end BlamesBytes

end Decoder

namespace Metadata

variable {m m' : Metadata} {bytes : List UInt8}

/-- Tables whose counts, and the lengths of the strings among them, have 31 bits.  Their indices
can be anything. -/
@[mk_iff]
structure Countable (m : Metadata) : Prop where
  strings : Counted Utf16.Countable m.strings.toList
  assemblies : m.assemblies.size < 2 ^ 31
  typeNamespaces : m.typeNamespaces.size < 2 ^ 31
  types : m.types.size < 2 ^ 31
  properties : m.properties.size < 2 ^ 31
  xmlNamespaces : m.xmlNamespaces.size < 2 ^ 31

/-- The bytes are those of the tables, which can be written. -/
def EncodedAs (m : Metadata) (bytes : List UInt8) : Prop := m.Countable ∧ m.written.bytes = bytes

/-- An index that is out of range, while all that are checked before it are in range. -/
def FirstDangling (m : Metadata) (r : CrossReference) : Prop :=
  ∃ before after, m.crossReferences = before ++ r :: after ∧ (∀ q ∈ before, q.InRange) ∧
    ¬ r.InRange

theorem dangling?_eq_some_iff {r : CrossReference} : m.dangling? = some r ↔ m.FirstDangling r := by
  rw [dangling?, List.find?_eq_some_iff_append, FirstDangling]
  constructor
  · rintro ⟨hout, before, after, hrefs, hbefore⟩
    exact ⟨before, after, hrefs, by simpa using hbefore, by simpa using hout⟩
  · rintro ⟨before, after, hrefs, hbefore, hout⟩
    exact ⟨by simpa using hout, before, after, hrefs, by simpa using hbefore⟩

theorem reads_tables :
    Reads Decoder.metadataTables Metadata.written Countable fun m => m.warnings.map .warning :=
  Decoder.reads_metadataTables.congr countable_iff (fun _ _ => rfl)
    fun _ _ => rfl

/-- The tables can be read up to the end of the bytes exactly when the bytes are theirs. -/
theorem run_metadataTables_eq_ok_iff :
    (∃ offset log, Decoder.metadataTables.run (Cursor.start bytes) = .ok m ⟨offset, []⟩ log) ↔
      m.EncodedAs bytes := by
  constructor
  · rintro ⟨offset, log, hrun⟩
    obtain ⟨hcountable, -, hspan⟩ := (reads_tables ..).mp hrun
    obtain ⟨spelling, hspelling, hbytes, -⟩ := Cursor.spans_iff.mp hspan
    rw [Cursor.start, List.append_nil, m.isFixed_written.spells_iff.mp hspelling] at hbytes
    exact ⟨hcountable, hbytes.symm⟩
  · rintro ⟨hcountable, rfl⟩
    have hspan : Spans m.written (Cursor.start m.written.bytes) ⟨m.written.bytes.length, []⟩ :=
      Cursor.spans_iff.mpr ⟨_, Written.spells_bytes _, (List.append_nil _).symm,
        (Nat.zero_add _).symm⟩
    exact ⟨_, _, (reads_tables ..).mpr ⟨hcountable, rfl, hspan⟩⟩

theorem EncodedAs.unique (h : m.EncodedAs bytes) (h' : m'.EncodedAs bytes) : m' = m := by
  obtain ⟨offset, log, hrun⟩ := run_metadataTables_eq_ok_iff.mpr h
  obtain ⟨offset', log', hrun'⟩ := run_metadataTables_eq_ok_iff.mpr h'
  rw [hrun] at hrun'
  cases hrun'
  rfl

/-- What is left to do when the tables have been read to the end. -/
theorem EncodedAs.result (h : m.EncodedAs bytes) :
    (decoder.run (Cursor.start bytes)).result =
      match m.dangling? with
      | some r => .error (.indexOutOfRange r.table r.index.toNat r.length)
      | none => .ok m := by
  obtain ⟨offset, log, hrun⟩ := run_metadataTables_eq_ok_iff.mpr h
  rw [decoder, run_get_bind, run_bind_ok hrun, Outcome.result_after, run_get_bind,
    if_pos List.isEmpty_nil]
  cases m.dangling? with
  | some r => rfl
  | none => rfl

/-- Every section is the encoding of one choice of tables or of none.  Tables are accepted when
all of their indices are in range, and otherwise refused for the first index that dangles.  Bytes
that encode no tables are malformed. -/
theorem result_decoder (bytes : List UInt8) :
    (∀ m : Metadata, m.EncodedAs bytes →
      (∀ m' : Metadata, m'.EncodedAs bytes → m' = m) ∧
      ((∀ r ∈ m.crossReferences, r.InRange) ∧
          (decoder.run (Cursor.start bytes)).result = .ok m ∨
        ∃ r, m.FirstDangling r ∧ (decoder.run (Cursor.start bytes)).result =
          .error (.indexOutOfRange r.table r.index.toNat r.length))) ∧
    ((∀ m : Metadata, ¬ m.EncodedAs bytes) →
      ∃ offset reason, (decoder.run (Cursor.start bytes)).result =
        .error (.malformed offset reason)) := by
  constructor
  · intro m hm
    refine ⟨fun m' hm' => hm.unique hm', ?_⟩
    have hresult := hm.result
    cases hdangling : m.dangling? with
    | none =>
        rw [hdangling] at hresult
        exact .inl ⟨dangling?_eq_none_iff.mp hdangling, hresult⟩
    | some r =>
        rw [hdangling] at hresult
        exact .inr ⟨r, dangling?_eq_some_iff.mp hdangling, hresult⟩
  · intro hnone
    rw [decoder, run_get_bind]
    cases hrun : Decoder.metadataTables.run (Cursor.start bytes) with
    | fail fault c log =>
        have hfault := Decoder.BlamesBytes.metadataTables (Cursor.start bytes) trivial
        rw [hrun] at hfault
        obtain ⟨offset, reason, rfl⟩ := hfault.1.exists_eq
        exact ⟨offset, reason, by rw [run_bind_fail hrun]; rfl⟩
    | ok m c log =>
        obtain ⟨offset, rest⟩ := c
        rw [run_bind_ok hrun, Outcome.result_after, run_get_bind]
        cases rest with
        | nil => exact absurd (run_metadataTables_eq_ok_iff.mp ⟨offset, log, hrun⟩) (hnone m)
        | cons b rest => exact ⟨_, _, rfl⟩

/-- An assembly that is named by a string which the string table lacks. -/
def unnamed : Metadata := { assemblies := #[⟨.unknown, ⟨0⟩⟩] }

/-- It is refused for that name; and three bytes are not enough for any tables. -/
theorem result_decoder_unnamed :
    (decoder.run (Cursor.start unnamed.written.bytes)).result =
        .error (.indexOutOfRange .strings 0 0) ∧
      ∃ offset reason, (decoder.run (Cursor.start [1, 0, 0])).result =
        .error (.malformed offset reason) := by
  constructor
  · have hencoded : unnamed.EncodedAs unnamed.written.bytes :=
      ⟨⟨⟨by decide, by simp [unnamed]⟩, by decide, by decide, by decide, by decide, by decide⟩, rfl⟩
    obtain ⟨-, ⟨hin, -⟩ | ⟨r, hr, hresult⟩⟩ :=
      (result_decoder unnamed.written.bytes).1 unnamed hencoded
    · exact absurd hin (by decide)
    · have hfirst : unnamed.dangling? = some ⟨.strings, 0, 0⟩ := by decide
      rw [dangling?_eq_some_iff.mpr hr] at hfirst
      cases hfirst
      exact hresult
  · refine (result_decoder [1, 0, 0]).2 fun m hm => ?_
    have hlength := congrArg List.length hm.2
    simp [written, Written.table] at hlength
    omega

end Metadata

end XamlBinary
