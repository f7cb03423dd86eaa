import Mathlib.Data.List.Basic
import XamlBinary.File.References
import XamlBinary.Metadata.Decode
import XamlBinary.Metadata.Written
import XamlBinary.Proofs.Cursor.Primitive

/-!
A metadata section is read exactly.  Metadata holds no 7-bit integers, so its
bytes and its tables determine each other.
-/

namespace XamlBinary

open Reader Decoder

/-! ### What is valid -/

/-- Tables that can be written, with every index from one into another in range. -/
structure Metadata.Valid (m : Metadata) : Prop where
  strings : Counted Utf16.Countable m.strings.toList
  assemblies : m.assemblies.size < 2 ^ 31
  typeNamespaces : m.typeNamespaces.size < 2 ^ 31
  types : m.types.size < 2 ^ 31
  properties : m.properties.size < 2 ^ 31
  xmlNamespaces : m.xmlNamespaces.size < 2 ^ 31
  inRange : ∀ r ∈ m.crossReferences, r.InRange

/-! ### The entries of the tables -/

theorem AssemblyKind.number_of_ofNumber? {n : UInt32} {kind : AssemblyKind}
    (h : ofNumber? n = some kind) : kind.number = n := by
  obtain ⟨hlt, hget⟩ := List.getElem?_eq_some_iff.mp h
  have hall : ∀ (i : Nat) (hi : i < all.length), (all[i]).number.toNat = i := by decide
  rw [← hget]
  exact UInt32.toNat_inj.mp (hall _ hlt)

namespace Decoder

theorem reads_assembly :
    Reads assembly Assembly.written (fun _ => True) fun _ => [] := by
  refine Reads.tagged Assembly.kind AssemblyKind.number
    (fun kind => (uint32 "assembly name" : Decoder _) >>= fun name => pure ⟨kind, ⟨name⟩⟩)
    (reads_uint32 _) ?_ ?_ ?_ (fun _ _ => AssemblyKind.number_of_ofNumber?)
    fun a _ => AssemblyKind.ofNumber?_number a.kind
  · intro start n kind h
    simp only [h]
  · intro start n h
    simp only [h]
    exact ⟨_, rfl⟩
  · intro n kind h
    rw [bind_pure_comp]
    refine Reads.map (reads_uint32 _) ?_ (fun _ _ => rfl) fun _ _ => rfl
    rintro ⟨kind', ⟨name⟩⟩
    simp

theorem reads_typeNamespace :
    Reads typeNamespace TypeNamespace.written (fun _ => True) fun _ => [] := by
  refine Reads.pair (reads_uint32 _) (reads_uint32 _) ?_ (fun _ _ => rfl) fun _ _ => rfl
  exact fun n => iff_of_true trivial ⟨n.assembly, trivial, n.name.index, trivial, rfl⟩

/-- An entry that begins with flags.  Flags of which bits are unknown call for a warning. -/
theorem reads_flagged {α : Type} {next : UInt32 → Decoder α} {w : α → Written}
    (bitsOf : α → UInt32) (unknown : UInt32 → Prop) [DecidablePred unknown]
    (warning : UInt32 → Warning) (what : String)
    (hnext : ∀ bits, Reads (next bits) w (fun e => bitsOf e = bits) fun _ => []) :
    Reads (do
        let bits ← uint32 what
        if unknown bits then do
            warn (warning bits)
            next bits
          else next bits)
      (fun e => .word32 (bitsOf e) ++ w e) (fun _ => True)
      fun e => if unknown (bitsOf e) then [.warning (warning (bitsOf e))] else [] := by
  refine Reads.lead bitsOf (reads_uint32 what) (v := w) ?_ (fun _ _ => trivial) fun _ _ => rfl
  intro bits _
  refine Reads.ite (fun hunknown => ?_) fun hknown => ?_
  · refine ((hnext bits).reportFirst _).congr (fun _ => and_iff_left trivial) (fun _ _ => rfl) ?_
    rintro e rfl
    exact if_pos hunknown
  · refine (hnext bits).congr (fun _ => and_iff_left trivial) (fun _ _ => rfl) ?_
    rintro e rfl
    exact if_neg hknown

theorem reads_typeEntry :
    Reads typeEntry TypeEntry.written (fun _ => True)
      fun e => e.flags.warning?.toList.map .warning := by
  refine (reads_flagged (w := fun e => .word32 e.typeNamespace ++ e.name.wide)
    (fun e : TypeEntry => e.flags.bits) (fun bits => (TypeFlags.mk bits).unknownBits ≠ 0)
    Warning.unknownTypeFlags "type flags" fun bits => ?_).congr (fun _ => Iff.rfl)
      (fun e _ => List.append_assoc ..) fun e _ => ?_
  · refine Reads.pair (f := fun owner name => TypeEntry.mk ⟨bits⟩ owner ⟨name⟩) (reads_uint32 _)
      (reads_uint32 _) ?_ (fun _ _ => rfl) fun _ _ => rfl
    rintro ⟨⟨bits'⟩, owner, ⟨name⟩⟩
    simp
  · rw [TypeFlags.warning?]
    split <;> simp_all

theorem reads_propertyEntry :
    Reads propertyEntry PropertyEntry.written (fun _ => True)
      fun e => e.flags.warning?.toList.map .warning := by
  refine (reads_flagged (w := fun e => .word32 e.declaringType ++ e.name.wide)
    (fun e : PropertyEntry => e.flags.bits) (fun bits => (PropertyFlags.mk bits).unknownBits ≠ 0)
    Warning.unknownPropertyFlags "property flags" fun bits => ?_).congr (fun _ => Iff.rfl)
      (fun e _ => List.append_assoc ..) fun e _ => ?_
  · refine Reads.pair (f := fun owner name => PropertyEntry.mk ⟨bits⟩ owner ⟨name⟩)
      (reads_uint32 _) (reads_uint32 _) ?_ (fun _ _ => rfl) fun _ _ => rfl
    rintro ⟨⟨bits'⟩, owner, ⟨name⟩⟩
    simp
  · rw [PropertyFlags.warning?]
    split <;> simp_all

theorem reads_wideStringId :
    Reads (StringId.mk <$> (uint32 "xml namespace" : Decoder _)) StringId.wide (fun _ => True)
      fun _ => [] :=
  (reads_uint32 _).convert StringId.index (fun _ => rfl) fun _ _ => rfl

/-! ### Whole sections -/

theorem reads_metadataTables :
    Reads metadataTables Metadata.written (fun m => Counted Utf16.Countable m.strings.toList ∧
      m.assemblies.size < 2 ^ 31 ∧ m.typeNamespaces.size < 2 ^ 31 ∧ m.types.size < 2 ^ 31 ∧
      m.properties.size < 2 ^ 31 ∧ m.xmlNamespaces.size < 2 ^ 31)
      fun m => m.warnings.map .warning := by
  refine Reads.record
    (Reads.field (fun m : Metadata => m.strings.toList)
      (reads_quietTable _ (reads_string _)) fun strings =>
    Reads.field (fun m : Metadata => m.assemblies.toList)
      (reads_quietTable _ reads_assembly) fun assemblies =>
    Reads.field (fun m : Metadata => m.typeNamespaces.toList)
      (reads_quietTable _ reads_typeNamespace) fun typeNamespaces =>
    Reads.field (fun m : Metadata => m.types.toList) (reads_table _ reads_typeEntry) fun types =>
    Reads.field (fun m : Metadata => m.properties.toList)
      (reads_table _ reads_propertyEntry) fun properties =>
    Reads.field (fun m : Metadata => m.xmlNamespaces.toList)
      (reads_quietTable _ reads_wideStringId) fun xmlNamespaces =>
    Reads.made ⟨rfl, rfl, rfl, rfl, rfl, rfl, trivial⟩ ?_) ?_ ?_ ?_
  · rintro m ⟨rfl, rfl, rfl, rfl, rfl, rfl, -⟩
    rfl
  · intro m
    simp [Counted, Utf16.Countable]
  · intro m
    simp [Metadata.written]
  · intro m
    simp [Metadata.warnings, List.filterMap_eq_flatMap_toList, List.map_flatMap]

end Decoder

namespace Metadata

theorem isFixed_written (m : Metadata) : m.written.IsFixed := by
  have htext : ∀ s, (Written.text s).IsFixed := fun s =>
    Written.isFixed_table Written.isFixed_word16 _
  refine Written.isFixed_append.mpr ⟨?_, Written.isFixed_table (fun _ => ?_) _⟩
  · refine Written.isFixed_append.mpr ⟨?_, Written.isFixed_table (fun _ => ?_) _⟩
    · refine Written.isFixed_append.mpr ⟨?_, Written.isFixed_table (fun _ => ?_) _⟩
      · refine Written.isFixed_append.mpr ⟨?_, Written.isFixed_table (fun _ => ?_) _⟩
        · exact Written.isFixed_append.mpr ⟨Written.isFixed_table htext _,
            Written.isFixed_table (fun _ => by simp [Assembly.written, StringId.wide]) _⟩
        · simp [TypeNamespace.written, StringId.wide]
      · simp [TypeEntry.written, StringId.wide]
    · simp [PropertyEntry.written, StringId.wide]
  · exact Written.isFixed_word32 _

theorem dangling?_eq_none_iff {m : Metadata} :
    m.dangling? = none ↔ ∀ r ∈ m.crossReferences, r.InRange := by
  simp [dangling?]

/-- A metadata section is accepted when it is the bytes of valid metadata. -/
theorem run_decoder_eq_ok {bytes : List UInt8} {c' : Cursor} {m : Metadata} {log : Log} :
    decoder.run (Cursor.start bytes) = .ok m c' log ↔
      m.Valid ∧ bytes = m.written.bytes ∧ log = m.warnings.map .warning ++ [.note m.countsNote] ∧
        c' = ⟨bytes.length, []⟩ := by
  rw [decoder, run_get_bind, run_bind_eq_ok]
  constructor
  · rintro ⟨m', ⟨offset, rest⟩, first, second, htables, hrest, rfl⟩
    obtain ⟨⟨h₁, h₂, h₃, h₄, h₅, h₆⟩, rfl, hspan⟩ := (reads_metadataTables ..).mp htables
    obtain ⟨spelling, hspelling, hbytes, hoffset⟩ := Cursor.spans_iff.mp hspan
    -- two checks follow the tables: nothing is left over, and no index dangles
    rw [run_get_bind] at hrest
    split at hrest
    · rename_i hempty
      split at hrest
      · cases hrest
      · rename_i hnone
        cases hrest
        obtain rfl : rest = [] := List.isEmpty_iff.mp hempty
        rw [Cursor.start, List.append_nil] at hbytes
        rw [Cursor.start, Nat.zero_add] at hoffset
        refine ⟨⟨h₁, h₂, h₃, h₄, h₅, h₆, dangling?_eq_none_iff.mp hnone⟩, ?_, rfl, ?_⟩
        · exact hbytes.trans (m.isFixed_written.spells_iff.mp hspelling)
        · exact congrArg (Cursor.mk · []) (hoffset.trans (congrArg List.length hbytes.symm))
    · cases hrest
  · rintro ⟨hvalid, rfl, rfl, rfl⟩
    obtain ⟨h₁, h₂, h₃, h₄, h₅, h₆, hin⟩ := hvalid
    refine ⟨m, ⟨m.written.bytes.length, []⟩, _, [.note m.countsNote],
      (reads_metadataTables ..).mpr ⟨⟨h₁, h₂, h₃, h₄, h₅, h₆⟩, rfl, ?_⟩, ?_, rfl⟩
    · exact Cursor.spans_iff.mpr ⟨_, Written.spells_bytes _, (List.append_nil _).symm,
        (Nat.zero_add _).symm⟩
    · rw [run_get_bind, if_pos List.isEmpty_nil,
        dangling?_eq_none_iff.mpr hin]
      rfl

end Metadata

end XamlBinary
