import XamlBinary.Proofs.Cursor.Located
import XamlBinary.Proofs.Metadata.Decode

/-!
The metadata section is located, table by table.
-/

namespace XamlBinary

open Reader

namespace Decoder.Located

variable {slice : List UInt8}

theorem assembly : Located slice Decoder.assembly := by
  refine lead (.uint32 exactly _) (reads_uint32 _) fun start number hstart hgives => ?_
  cases hkind : AssemblyKind.ofNumber? number with
  | some kind => exact (Keeps.uint32 exactly _).bind fun _ => .pure _
  | none => exact malformed hstart ⟨hgives, hkind⟩

theorem typeNamespace : Located slice Decoder.typeNamespace :=
  (Keeps.uint32 exactly _).bind fun _ => (Keeps.uint32 exactly _).bind fun _ => .pure _

/-- What follows flags is read whether or not they call for a warning. -/
theorem flagged {α : Type} {next : UInt32 → Decoder α} (unknown : UInt32 → Prop)
    [DecidablePred unknown] (warning : UInt32 → Warning) (what : String)
    (hnext : ∀ bits, Located slice (next bits)) :
    Located slice (do
      let bits ← Reader.uint32 what
      if unknown bits then do
          warn (warning bits)
          next bits
        else next bits) :=
  (Keeps.uint32 exactly _).bind fun bits =>
    .ite (fun _ => (Keeps.report _).bind fun _ => hnext bits) fun _ => hnext bits

theorem typeEntry : Located slice Decoder.typeEntry :=
  flagged (fun bits => (TypeFlags.mk bits).unknownBits ≠ 0) Warning.unknownTypeFlags _ fun _ =>
    (Keeps.uint32 exactly _).bind fun _ => (Keeps.uint32 exactly _).bind fun _ => .pure _

theorem propertyEntry : Located slice Decoder.propertyEntry :=
  flagged (fun bits => (PropertyFlags.mk bits).unknownBits ≠ 0) Warning.unknownPropertyFlags _
    fun _ => (Keeps.uint32 exactly _).bind fun _ => (Keeps.uint32 exactly _).bind fun _ => .pure _

theorem metadataTables : Located slice Decoder.metadataTables := by
  refine (table _ (string (by decide))).bind fun _ => (table _ assembly).bind fun _ => ?_
  refine (table _ typeNamespace).bind fun _ => (table _ typeEntry).bind fun _ => ?_
  refine (table _ propertyEntry).bind fun _ => ?_
  exact (table _ ((Keeps.uint32 exactly _).map _)).bind fun _ => .pure _

theorem metadata : Located slice Metadata.decoder := by
  refine .get fun whole _ => metadataTables.bind fun m => .get fun here hhere => ?_
  refine .ite (fun _ => ?_) fun _ => malformed hhere.offset_le trivial
  cases m.dangling? with
  | some r => exact indexOutOfRange
  | none => exact (Keeps.report _).bind fun _ => .pure m

end Decoder.Located

end XamlBinary
