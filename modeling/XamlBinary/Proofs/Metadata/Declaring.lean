import XamlBinary.File.Rendering
import XamlBinary.Proofs.Metadata.Decode
import XamlBinary.Proofs.Metadata.Names

/-!
The declaring types of the properties of a file.  The tables hold them as
32-bit indices, which are checked against the number of types, and a reference
has only 16 bits.  A declaring type is therefore always there, but it can be
named only when its index is small enough; a property of another type is shown
without it.
-/

namespace XamlBinary

open Reader Decoder

namespace Metadata

/-- A section that is accepted holds closed tables. -/
theorem closed_of_gives {bytes : List UInt8} {m : Metadata} (h : decoder.Gives bytes m) :
    m.Closed := by
  obtain ⟨c, log, hrun⟩ := h
  obtain ⟨hvalid, -⟩ := run_decoder_eq_ok.mp hrun
  exact inRange_iff_closed.mp hvalid.inRange

/-- Any valid metadata is given by a section. -/
theorem Valid.gives {m : Metadata} (h : m.Valid) : decoder.Gives m.written.bytes m :=
  ⟨_, _, run_decoder_eq_ok.mpr ⟨h, rfl, rfl, rfl⟩⟩

namespace Closed

variable {m : Metadata} (h : m.Closed) {index : UInt16}
include h

/-- A property, the type that declares it, and the names of both. -/
theorem exists_declared (hindex : index.toNat < m.properties.size) :
    ∃ entry owner ownerName name, m.properties[index.toNat]? = some entry ∧
      m.types[entry.declaringType.toNat]? = some owner ∧ m.string? owner.name = some ownerName ∧
      m.string? entry.name = some name := by
  obtain ⟨entry, hentry, howner, hname⟩ := exists_entry h.properties hindex
  obtain ⟨name, hname⟩ := exists_string hname
  obtain ⟨owner, ownerName, howner, hownerName, -⟩ := h.exists_type howner
  exact ⟨entry, owner, ownerName, name, hentry, howner, hownerName, hname⟩

end Closed

/-- Every property of a section that is accepted is declared by a type of its tables.  A type
below `0x10000` is what lookup gives, and the property is shown behind its name; lookup gives
nothing for a later one, and the property is shown by its own name. -/
theorem declaringType?_inFile (bytes : List UInt8) (m : Metadata)
    (h : decoder.Gives bytes m) (index : UInt16) (hindex : index.toNat < m.properties.size) :
    ∃ entry owner ownerName name, m.properties[index.toNat]? = some entry ∧
      m.types[entry.declaringType.toNat]? = some owner ∧ m.string? owner.name = some ownerName ∧
      m.string? entry.name = some name ∧
      (entry.declaringType.toNat < 0x10000 →
        (∃ type : UInt16, type.toNat = entry.declaringType.toNat ∧
          m.declaringType? (.inFile index) = some (.inFile type)) ∧
        m.renderProperty (.inFile index) = .str (ownerName ++ "." ++ name)) ∧
      (0x10000 ≤ entry.declaringType.toNat →
        m.declaringType? (.inFile index) = none ∧
        m.renderProperty (.inFile index) = .str name) := by
  obtain ⟨entry, owner, ownerName, name, hentry, howner, hownerName, hname⟩ :=
    (closed_of_gives h).exists_declared hindex
  refine ⟨entry, owner, ownerName, name, hentry, howner, hownerName, hname, ?_, ?_⟩
  · intro hnear
    have hword : entry.declaringType.toUInt16.toNat = entry.declaringType.toNat :=
      Nat.mod_eq_of_lt hnear
    refine ⟨⟨_, hword, m.declaringType?_near hentry hnear⟩, ?_⟩
    rw [renderProperty, m.qualifiedProperty_near hentry howner hownerName hname hnear]
  · intro hfar
    refine ⟨m.declaringType?_far hentry hfar, ?_⟩
    rw [renderProperty, m.qualifiedProperty_far hentry hname hfar]

/-! ### More types than references can name -/

/-- One type more than references can name, and a property of each of the last two. -/
def crowded : Metadata where
  strings := #["T", "P"]
  assemblies := #[⟨.unknown, ⟨0⟩⟩]
  typeNamespaces := #[⟨0, ⟨0⟩⟩]
  types := Array.replicate 0x10001 ⟨⟨0⟩, 0, ⟨0⟩⟩
  properties := #[⟨⟨0⟩, 0xFFFF, ⟨1⟩⟩, ⟨⟨0⟩, 0x10000, ⟨1⟩⟩]

theorem crowded_valid : crowded.Valid where
  strings := by simp [crowded, Counted, Utf16.Countable, Utf16.encode, Utf16.units]
  assemblies := by decide
  typeNamespaces := by decide
  types := by simp [crowded]
  properties := by decide
  xmlNamespaces := by decide
  inRange := by
    have hstrings : crowded.strings.size = 2 := rfl
    have htypes : crowded.types.size = 0x10001 := Array.size_replicate
    refine inRange_iff_closed.mpr ⟨by decide, by decide, fun t ht => ?_, ?_, by decide⟩
    · rw [Array.mem_toList_iff] at ht
      obtain rfl : t = ⟨⟨0⟩, 0, ⟨0⟩⟩ := Array.eq_of_mem_replicate ht
      decide
    · rw [hstrings, htypes]
      decide

/-- The last type that a reference can name, and the one behind it. -/
theorem declaringType?_crowded :
    (crowded.declaringType? (.inFile 0) = some (.inFile 0xFFFF) ∧
      crowded.renderProperty (.inFile 0) = .str "T.P") ∧
    crowded.declaringType? (.inFile 1) = none ∧
      crowded.renderProperty (.inFile 1) = .str "P" := by
  have htype {i : Nat} {owner : TypeEntry} (h : crowded.types[i]? = some owner) :
      owner = ⟨⟨0⟩, 0, ⟨0⟩⟩ := by
    rw [crowded, Array.getElem?_replicate] at h
    split at h <;> cases h
    rfl
  constructor
  · obtain ⟨entry, owner, ownerName, name, hentry, howner, hownerName, hname, hnear, -⟩ :=
      declaringType?_inFile _ crowded crowded_valid.gives 0 (by decide)
    obtain rfl : entry = ⟨⟨0⟩, 0xFFFF, ⟨1⟩⟩ := by
      cases hentry
      rfl
    obtain rfl := htype howner
    cases hownerName
    cases hname
    obtain ⟨⟨type, htoNat, hsome⟩, hrender⟩ := hnear (by decide)
    obtain rfl : type = 0xFFFF := UInt16.toNat_inj.mp htoNat
    exact ⟨hsome, hrender⟩
  · obtain ⟨entry, owner, ownerName, name, hentry, howner, hownerName, hname, -, hfar⟩ :=
      declaringType?_inFile _ crowded crowded_valid.gives 1 (by decide)
    obtain rfl : entry = ⟨⟨0⟩, 0x10000, ⟨1⟩⟩ := by
      cases hentry
      rfl
    cases hname
    exact hfar (by decide)

theorem not_forall_declaringType? :
    ¬ ∀ (bytes : List UInt8) (m : Metadata) (index : UInt16), decoder.Gives bytes m →
      index.toNat < m.properties.size → ∃ entry type, m.properties[index.toNat]? = some entry ∧
        m.declaringType? (.inFile index) = some (.inFile type) ∧
        type.toNat = entry.declaringType.toNat := by
  intro h
  obtain ⟨entry, type, -, hsome, -⟩ := h _ crowded 1 crowded_valid.gives (by decide)
  have hentry : crowded.properties[(1 : UInt16).toNat]? = some ⟨⟨0⟩, 0x10000, ⟨1⟩⟩ := rfl
  rw [crowded.declaringType?_far hentry (by decide)] at hsome
  cases hsome

end Metadata

end XamlBinary
