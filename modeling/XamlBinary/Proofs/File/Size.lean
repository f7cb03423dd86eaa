import XamlBinary.Proofs.File.Elements
import XamlBinary.Proofs.Metadata.Located
import XamlBinary.Proofs.Node.Located
import XamlBinary.Proofs.Reader.Consumes

/-!
How much can come of how few bytes.  A count in the data is a claim that the
items behind it have to bear out, byte by byte: no list gets longer than what
it is read from, and a file holds no more than it takes.
-/

namespace XamlBinary

open Reader

namespace Decoder

/-- The readers of the items of which lists in a slice are made up. -/
inductive ReadsItem : {α : Type} → Decoder α → Prop
  | text : ReadsItem (string "string table entry")
  | assembly : ReadsItem assembly
  | typeNamespace : ReadsItem typeNamespace
  | typeEntry : ReadsItem typeEntry
  | propertyEntry : ReadsItem propertyEntry
  | xmlNamespace : ReadsItem (StringId.mk <$> uint32 "xml namespace")
  | token (what : String) : ReadsItem (token what)
  | stringId (scope : Scope) (what : String) : ReadsItem (stringId scope what)
  | visualStateGroup (scope : Scope) (version : Nat) : ReadsItem (visualStateGroup scope version)
  | visualState (scope : Scope) (version groups : Nat) :
      ReadsItem (visualState scope version groups)
  | triggerValues : ReadsItem (list "state trigger values" (varint "state trigger value"))
  | triggerValue : ReadsItem (varint "state trigger value")
  | visualTransition (scope : Scope) : ReadsItem (visualTransition scope)
  | keyedToken (scope : Scope) : ReadsItem (keyedToken scope)
  | setter (scope : Scope) (version : Nat) : ReadsItem (setter scope version)
  | eagerProperty (scope : Scope) : ReadsItem (eagerProperty scope)

theorem ReadsItem.consumes {α : Type} {item : Decoder α} (h : ReadsItem item) : Consumes item := by
  cases h with
  | text =>
      refine Located.consumes (fun _ => .string (by decide)) (reads_string _) fun s => ?_
      exact Nat.le_trans (Nat.le_add_left ..) (unitCount_lt_text s)
  | assembly => exact Located.consumes (fun _ => .assembly) reads_assembly (·.one_le_written)
  | typeNamespace =>
      exact Located.consumes (fun _ => .typeNamespace) reads_typeNamespace
        (·.one_le_written)
  | typeEntry =>
      exact Located.consumes (fun _ => .typeEntry) reads_typeEntry (·.one_le_written)
  | propertyEntry =>
      exact Located.consumes (fun _ => .propertyEntry) reads_propertyEntry
        (·.one_le_written)
  | xmlNamespace =>
      refine Located.consumes (fun _ => ?_) reads_wideStringId (·.one_le_wide)
      exact (Keeps.uint32 Located.exactly _).map _
  | token what =>
      exact Located.consumes (fun _ => .token what) (reads_token what) (·.one_le_written)
  | stringId scope what =>
      exact Located.consumes (fun _ => .stringId scope what) (reads_stringId scope what)
        (·.one_le_written)
  | visualStateGroup scope version =>
      exact Located.consumes (fun _ => .visualStateGroup scope version)
        (reads_visualStateGroup scope version) (·.one_le_written version)
  | visualState scope version groups =>
      refine Located.consumes (fun _ => .visualState scope version groups)
        (reads_visualState scope version groups) fun s => ?_
      have hname := s.name.one_le_written
      simp only [VisualState.written, Written.length_bytes_append]
      omega
  | triggerValues =>
      refine Located.consumes (fun _ => .list _ (.varint _))
        (reads_quietList _ (reads_varint _)) fun values => ?_
      have hvalues := Written.length_le_list _ values Written.one_le_varint
      omega
  | triggerValue =>
      exact Located.consumes (fun _ => .varint _) (reads_varint _) Written.one_le_varint
  | visualTransition scope =>
      exact Located.consumes (fun _ => .visualTransition scope)
        (reads_visualTransition scope) (·.one_le_written)
  | keyedToken scope =>
      exact Located.consumes (fun _ => .keyedToken scope) (reads_keyedToken scope)
        (·.one_le_written)
  | setter scope version =>
      refine Located.consumes (fun _ => .setter scope version)
        (reads_setter scope version) fun s => ?_
      exact Nat.le_trans (Nat.le_add_left ..) (s.elements_lt version)
  | eagerProperty scope =>
      refine Located.consumes (fun _ => .eagerProperty scope) (reads_eagerProperty scope)
        fun p => ?_
      exact Nat.le_trans (Nat.le_add_left ..) p.elements_lt

end Decoder

theorem Substream.consumes_entry : Consumes SubstreamEntry.read := by
  have hforward : Forward SubstreamEntry.read := forward_iff_keeps.mpr fun n => by
    have hword (what : String) := Keeps.uint32 (ByteStream.room_exactly n) what
    exact (hword _).bind fun _ => (hword _).bind fun _ => .pure _
  exact hforward.consumes reads_entry (·.one_le_written)

/-- The bytes bear out what is made of them: a file has no more elements than the bytes that it is
read from, and no list completes more items than it takes bytes, whatever its count says. -/
theorem elements_le_and_paysFor (settings : Settings) :
    (∀ bytes f, File.ofBytes settings bytes = .ok f → f.elements ≤ bytes.length) ∧
      (∀ {α : Type} (item : Decoder α), Decoder.ReadsItem item → ∀ what,
        PaysFor what (Decoder.varint what) item ∧ PaysFor what (int32 what) item) ∧
      PaysFor "substream table" (int32 "substream table") SubstreamEntry.read := by
  refine ⟨fun bytes f h => File.elements_le_length h, fun item h what => ⟨?_, ?_⟩, ?_⟩
  · exact h.consumes.paysFor (Decoder.Located.forward fun _ => .varint what) what
  · have hcount (slice : List UInt8) : Decoder.Located slice (int32 what) :=
      Keeps.int32 Decoder.Located.exactly what
    exact h.consumes.paysFor (Decoder.Located.forward hcount) what
  · refine Substream.consumes_entry.paysFor (forward_iff_keeps.mpr fun n => ?_) _
    exact Keeps.int32 (ByteStream.room_exactly n) _

/-- A file with a visual state of two triggers, one of which has two values. -/
def triggered : File :=
  ⟨⟨30, 34, none⟩, { strings := #["a"] },
    [⟨⟨0, 22⟩, [⟨0, .runtimeData (.visualStateGroups
      ⟨3, ⟨0⟩, [⟨⟨0⟩, ⟨0⟩, false⟩], [⟨⟨0⟩, 0, none, [], [[1, 2], []], [], [], []⟩], [], [], false⟩)
        0⟩, ⟨21, .endOfStream⟩], []⟩]⟩

/-- It has its eleven elements in more bytes than that; and a list that claims to have 2³¹ - 1
tokens completes the two that it has bytes for. -/
theorem elements_le_triggered :
    File.ofBytes {} triggered.bytes = .ok triggered ∧ triggered.elements = 11 ∧
      triggered.elements ≤ triggered.bytes.length ∧
      completedOf (Decoder.varint "tokens") (Decoder.token "tokens")
        (Cursor.start [0xFF, 0xFF, 0xFF, 0xFF, 0x07, 1, 2]) = 2 ∧
      PaysFor "tokens" (Decoder.varint "tokens") (Decoder.token "tokens") :=
  have haccepted : File.ofBytes {} triggered.bytes = .ok triggered := by decide +kernel
  ⟨haccepted, by decide, (elements_le_and_paysFor {}).1 _ _ haccepted, by decide +kernel,
    ((elements_le_and_paysFor {}).2.1 _ (.token "tokens") "tokens").1⟩

end XamlBinary
