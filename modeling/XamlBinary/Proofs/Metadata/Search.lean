import XamlBinary.Proofs.Metadata.Declaring

/-!
Types by their short name.  The registry is asked first; its names are all
different, so a name and an index of the registry determine each other.  The
types of a file may share names, and the first of them counts.  A type of the
file that stands behind all those that a reference can name is never found.
-/

namespace XamlBinary

/-! ### Names of the registry -/

namespace Registry

/-- The name is that of a type of the registry. -/
def HasType (name : String) : Prop := ∃ entry ∈ types.toList, entry.name = name

theorem hasType_of_type? {index : UInt16} {entry : KnownType} (h : type? index = some entry) :
    HasType entry.name :=
  ⟨entry, Array.mem_toList_iff.mpr (Array.mem_of_getElem? h), rfl⟩

theorem typeIndex?_eq_none_iff {name : String} : typeIndex? name = none ↔ ¬ HasType name := by
  simp [typeIndex?, HasType]

theorem nodup_names : (types.toList.map (·.name)).Nodup := by decide +kernel

theorem eq_of_name_eq {i j : Nat} (hi : i < types.size) (hj : j < types.size)
    (h : types[i].name = types[j].name) : i = j := by
  have hi' : i < (types.toList.map (·.name)).length := by simpa using hi
  have hj' : j < (types.toList.map (·.name)).length := by simpa using hj
  refine (List.getElem?_inj hi' nodup_names).mp ?_
  rw [List.getElem?_eq_getElem hi', List.getElem?_eq_getElem hj', List.getElem_map,
    List.getElem_map]
  exact congrArg some h

/-- No two types of the registry have the same name, hence the type that is found by its name is
the only one. -/
theorem typeIndex?_eq_some_iff {name : String} {index : UInt16} :
    typeIndex? name = some index ↔ ∃ entry, type? index = some entry ∧ entry.name = name := by
  have hsize : types.size < 0x10000 := by decide
  rw [typeIndex?, Option.map_eq_some_iff]
  constructor
  · rintro ⟨i, hi, rfl⟩
    obtain ⟨hlt, hname, -⟩ := Array.findIdx?_eq_some_iff_getElem.mp hi
    have hword : (UInt16.ofNat i).toNat = i := Nat.mod_eq_of_lt (hlt.trans hsize)
    refine ⟨types[i], ?_, eq_of_beq hname⟩
    rw [type?, hword, Array.getElem?_eq_getElem hlt]
  · rintro ⟨entry, hentry, rfl⟩
    obtain ⟨hlt, rfl⟩ := Array.getElem?_eq_some_iff.mp hentry
    refine ⟨index.toNat, Array.findIdx?_eq_some_iff_getElem.mpr ⟨hlt, beq_self_eq_true _, ?_⟩,
      UInt16.ofNat_toNat⟩
    intro j hj hbeq
    exact hj.ne (eq_of_name_eq (hj.trans hlt) hlt (eq_of_beq hbeq))

end Registry

namespace Metadata

/-- The name is the string of an entry of the types. -/
def HasTypeAt (m : Metadata) (index : Nat) (name : String) : Prop :=
  ∃ entry, m.types[index]? = some entry ∧ m.string? entry.name = some name

/-- The first entry of the types with a name. -/
structure FirstTypeAt (m : Metadata) (index : Nat) (name : String) : Prop where
  hasType : m.HasTypeAt index name
  first : ∀ earlier < index, ¬ m.HasTypeAt earlier name

/-- What a search for a name comes to. -/
inductive Finds (m : Metadata) (name : String) : Option (Ref .type) → Prop
  | known {index : UInt16} {entry : KnownType} (hentry : Registry.type? index = some entry)
      (hname : entry.name = name) : m.Finds name (some (.known index))
  | inFile {index : UInt16} (hregistry : ¬ Registry.HasType name)
      (hfirst : m.FirstTypeAt index.toNat name) : m.Finds name (some (.inFile index))
  | far {index : Nat} (hregistry : ¬ Registry.HasType name) (hfirst : m.FirstTypeAt index name)
      (hfar : 0x10000 ≤ index) : m.Finds name none
  | missing (hregistry : ¬ Registry.HasType name) (hmissing : ∀ index, ¬ m.HasTypeAt index name) :
      m.Finds name none

/-! ### Names of the file -/

section Names

variable {m : Metadata} {name : String}

theorem hasTypeAt_iff_getElem {index : Nat} (hindex : index < m.types.size) :
    m.HasTypeAt index name ↔ m.string? m.types[index].name = some name := by
  rw [HasTypeAt, Array.getElem?_eq_getElem hindex]
  simp

theorem firstTypeAt_of_findIdx? {index : Nat}
    (h : (m.types.findIdx? fun entry => m.string? entry.name == some name) = some index) :
    m.FirstTypeAt index name := by
  obtain ⟨hlt, hname, hfirst⟩ := Array.findIdx?_eq_some_iff_getElem.mp h
  refine ⟨(hasTypeAt_iff_getElem hlt).mpr (eq_of_beq hname), fun j hj hhas => hfirst j hj ?_⟩
  exact beq_iff_eq.mpr ((hasTypeAt_iff_getElem (hj.trans hlt)).mp hhas)

theorem not_hasTypeAt_of_findIdx?
    (h : (m.types.findIdx? fun entry => m.string? entry.name == some name) = none) (index : Nat) :
    ¬ m.HasTypeAt index name := by
  rintro ⟨entry, hentry, hname⟩
  have hmissed := Array.findIdx?_eq_none_iff.mp h entry (Array.mem_of_getElem? hentry)
  exact beq_eq_false_iff_ne.mp hmissed hname

end Names

/-! ### The search -/

variable (m : Metadata) (name : String)

theorem finds_findType? : m.Finds name (m.findType? name) := by
  unfold findType?
  split
  next index hindex =>
    obtain ⟨entry, hentry, hname⟩ := Registry.typeIndex?_eq_some_iff.mp hindex
    exact .known hentry hname
  next hregistry =>
    have hregistry := Registry.typeIndex?_eq_none_iff.mp hregistry
    split
    next index hindex =>
      have hfirst := firstTypeAt_of_findIdx? hindex
      split
      next hnear =>
        have hword : (UInt16.ofNat index).toNat = index := Nat.mod_eq_of_lt hnear
        exact .inFile hregistry (by rwa [hword])
      next hfar => exact .far hregistry hfirst (Nat.le_of_not_lt hfar)
    next hnone => exact .missing hregistry (not_hasTypeAt_of_findIdx? hnone)

/-- Whatever types a file has, those of the registry are found under their own names. -/
theorem findType?_of_type? {index : UInt16} {entry : KnownType}
    (h : Registry.type? index = some entry) : m.findType? entry.name = some (.known index) := by
  rw [findType?, Registry.typeIndex?_eq_some_iff.mpr ⟨entry, h, rfl⟩]

/-- A search by name finds nothing exactly when neither the registry nor one of the types that a
reference can name has the name.  What it finds has the name: a type of the registry if there is
one, and else the first of the file. -/
theorem findType?_exact :
    (m.findType? name = none ↔
      ¬ Registry.HasType name ∧ ∀ index < 0x10000, ¬ m.HasTypeAt index name) ∧
    (∀ type, m.findType? name = some type → m.typeName type = name) ∧
    ((∃ index, m.findType? name = some (.known index)) ↔ Registry.HasType name) ∧
    ∀ index, m.findType? name = some (.inFile index) → m.FirstTypeAt index.toNat name := by
  have hfinds := m.finds_findType? name
  generalize m.findType? name = found at hfinds
  cases hfinds with
  | @known index entry hentry hname =>
      have hhas : Registry.HasType name := hname ▸ Registry.hasType_of_type? hentry
      refine ⟨iff_of_false nofun fun h => h.1 hhas, ?_, iff_of_true ⟨index, rfl⟩ hhas, nofun⟩
      rintro type ⟨⟩
      exact (m.typeName_known hentry).trans hname
  | @inFile index hregistry hfirst =>
      refine ⟨iff_of_false nofun fun h => h.2 _ index.toNat_lt hfirst.hasType, ?_,
        iff_of_false nofun hregistry, ?_⟩
      · rintro type ⟨⟩
        obtain ⟨entry, hentry, hname⟩ := hfirst.hasType
        exact m.typeName_inFile hentry hname
      · rintro index' ⟨⟩
        exact hfirst
  | far hregistry hfirst hfar =>
      have hmissed (index : Nat) (hindex : index < 0x10000) : ¬ m.HasTypeAt index name :=
        hfirst.first index (hindex.trans_le hfar)
      exact ⟨iff_of_true rfl ⟨hregistry, hmissed⟩, nofun, iff_of_false nofun hregistry, nofun⟩
  | missing hregistry hmissing =>
      exact ⟨iff_of_true rfl ⟨hregistry, fun index _ => hmissing index⟩, nofun,
        iff_of_false nofun hregistry, nofun⟩

/-! ### A type behind all that references can name -/

variable {m}

/-- Other types in the place of those of a file, as many of them and with indices in range. -/
theorem Valid.withTypes (h : m.Valid) {types : Array TypeEntry} (hsize : types.size = m.types.size)
    (hentries : ∀ t ∈ types.toList,
      t.typeNamespace.toNat < m.typeNamespaces.size ∧ t.name.index.toNat < m.strings.size) :
    ({ m with types } : Metadata).Valid := by
  have hclosed := inRange_iff_closed.mp h.inRange
  refine { h with types := hsize ▸ h.types, inRange := inRange_iff_closed.mpr ?_ }
  exact { hclosed with types := hentries, properties := hsize ▸ hclosed.properties }

/-- The last type alone has another name. -/
def lateType : Metadata :=
  { crowded with types := (Array.replicate 0x10000 ⟨⟨0⟩, 0, ⟨0⟩⟩).push ⟨⟨0⟩, 0, ⟨1⟩⟩ }

theorem lateType_valid : lateType.Valid := by
  refine crowded_valid.withTypes (by simp [crowded]) fun t ht => ?_
  rw [Array.mem_toList_iff, Array.mem_push] at ht
  obtain ht | rfl := ht
  · obtain rfl := Array.eq_of_mem_replicate ht
    decide
  · decide

/-- The last type is there, and is not found. -/
theorem findType?_lateType :
    lateType.HasTypeAt 0x10000 "P" ∧ ¬ Registry.HasType "P" ∧ lateType.findType? "P" = none := by
  have hregistry : ¬ Registry.HasType "P" := by
    unfold Registry.HasType
    decide
  have hentry (index : Nat) : lateType.types[index]? =
      if index = 0x10000 then some ⟨⟨0⟩, 0, ⟨1⟩⟩
      else (Array.replicate 0x10000 ⟨⟨0⟩, 0, ⟨0⟩⟩)[index]? := by
    rw [lateType, Array.getElem?_push, Array.size_replicate]
  refine ⟨⟨_, hentry _, rfl⟩, hregistry, ?_⟩
  have hfinds := lateType.finds_findType? "P"
  generalize lateType.findType? "P" = found at hfinds
  cases hfinds with
  | known hentry hname => exact absurd (hname ▸ Registry.hasType_of_type? hentry) hregistry
  | @inFile index _ hfirst =>
      obtain ⟨entry, hget, hname⟩ := hfirst.hasType
      rw [hentry, if_neg index.toNat_lt.ne, Array.getElem?_replicate, if_pos index.toNat_lt] at hget
      cases hget
      exact absurd hname (by decide)
  | far | missing => rfl

theorem not_forall_findType? :
    ¬ ∀ (bytes : List UInt8) (m : Metadata) (name : String), decoder.Gives bytes m →
      (m.findType? name = none ↔
        ¬ Registry.HasType name ∧ ∀ index, ¬ m.HasTypeAt index name) := by
  intro h
  obtain ⟨hlast, -, hnone⟩ := findType?_lateType
  exact ((h _ _ _ lateType_valid.gives).mp hnone).2 _ hlast

end Metadata

end XamlBinary
