import XamlBinary.Metadata.Lookup
import XamlBinary.Proofs.File.Closure

/-!
Names of references that were resolved.  Lookup has a placeholder for every
index that may point nowhere.  Against tables that are closed, a reference that
the tables hold is never shown by one: its name is that of its entry, in the
registry or in the tables of the file.
-/

namespace XamlBinary

namespace Metadata

/-- The short name of a type, as it stands in the registry or in the tables. -/
inductive NamesType (m : Metadata) : Ref .type → String → Prop
  | known {index : UInt16} {entry : KnownType} (hentry : Registry.type? index = some entry) :
      m.NamesType (.known index) entry.name
  | unknown (index : UInt16) : m.NamesType (.unknown index) s!"StableXbfTypeIndex::{index}"
  | inFile {index : UInt16} {entry : TypeEntry} {name : String}
      (hentry : m.types[index.toNat]? = some entry) (hname : m.string? entry.name = some name) :
      m.NamesType (.inFile index) name

/-- The name of a type with its namespace. -/
inductive NamesFullType (m : Metadata) : Ref .type → String → Prop
  | known {index : UInt16} {entry : KnownType} (hentry : Registry.type? index = some entry) :
      m.NamesFullType (.known index) entry.fullName
  | unknown (index : UInt16) : m.NamesFullType (.unknown index) s!"StableXbfTypeIndex::{index}"
  | inFile {index : UInt16} {entry : TypeEntry} {owner : TypeNamespace} {space name : String}
      (hentry : m.types[index.toNat]? = some entry)
      (howner : m.typeNamespaces[entry.typeNamespace.toNat]? = some owner)
      (hspace : m.string? owner.name = some space) (hname : m.string? entry.name = some name) :
      m.NamesFullType (.inFile index) (space ++ "." ++ name)

/-- The name of a property behind that of the type that declares it.  A reference is too short
for types from `0x10000` on; a property of such a type is shown by its own name alone. -/
inductive NamesProperty (m : Metadata) : Ref .property → String → Prop
  | known {index : UInt16} {entry : KnownProperty} {owner : KnownType}
      (hentry : Registry.property? index = some entry)
      (howner : Registry.type? entry.declaringType = some owner) :
      m.NamesProperty (.known index) (owner.name ++ "." ++ entry.name)
  | unknown (index : UInt16) : m.NamesProperty (.unknown index) s!"StableXbfPropertyIndex::{index}"
  | inFile {index : UInt16} {entry : PropertyEntry} {owner : TypeEntry} {ownerName name : String}
      (hentry : m.properties[index.toNat]? = some entry) (hname : m.string? entry.name = some name)
      (hnear : entry.declaringType.toNat < 0x10000)
      (howner : m.types[entry.declaringType.toNat]? = some owner)
      (hownerName : m.string? owner.name = some ownerName) :
      m.NamesProperty (.inFile index) (ownerName ++ "." ++ name)
  | inFileFar {index : UInt16} {entry : PropertyEntry} {name : String}
      (hentry : m.properties[index.toNat]? = some entry) (hname : m.string? entry.name = some name)
      (hfar : 0x10000 ≤ entry.declaringType.toNat) : m.NamesProperty (.inFile index) name

/-- The URI of an XML namespace. -/
inductive NamesXmlNamespace (m : Metadata) : Ref .xmlNamespace → String → Prop
  | known {index : UInt16} {uri : String} (hentry : Registry.xmlNamespace? index = some uri) :
      m.NamesXmlNamespace (.known index) uri
  | unknown (index : UInt16) :
      m.NamesXmlNamespace (.unknown index) s!"StableXbfXmlNamespaceIndex::{index}"
  | inFile {index : UInt16} {id : StringId} {uri : String}
      (hentry : m.xmlNamespaces[index.toNat]? = some id) (huri : m.string? id = some uri) :
      m.NamesXmlNamespace (.inFile index) uri

/-! ### The registry is closed as well -/

theorem exists_known_type {index : UInt16} (h : index.toNat < SymbolKind.type.registrySize) :
    ∃ entry, Registry.type? index = some entry :=
  ⟨_, Array.getElem?_eq_getElem h⟩

theorem exists_known_xmlNamespace {index : UInt16}
    (h : index.toNat < SymbolKind.xmlNamespace.registrySize) :
    ∃ uri, Registry.xmlNamespace? index = some uri :=
  ⟨_, Array.getElem?_eq_getElem h⟩

/-- Every property of the registry is declared by a type of the registry. -/
theorem exists_known_property {index : UInt16}
    (h : index.toNat < SymbolKind.property.registrySize) :
    ∃ entry owner, Registry.property? index = some entry ∧
      Registry.type? entry.declaringType = some owner := by
  have hdeclared : ∀ entry ∈ Registry.properties.toList,
      entry.declaringType.toNat < SymbolKind.type.registrySize := by decide
  have hentry : Registry.property? index = some Registry.properties[index.toNat] :=
    Array.getElem?_eq_getElem h
  obtain ⟨owner, howner⟩ := exists_known_type
    (hdeclared _ (Array.mem_toList_iff.mpr (Array.getElem_mem h)))
  exact ⟨_, owner, hentry, howner⟩

/-! ### Lookup of what is there -/

section Lookup

variable (m : Metadata)

theorem stringText_eq {id : StringId} {text : String} (h : m.string? id = some text) :
    m.stringText id = text := by
  rw [stringText, h, Option.getD_some]

theorem typeName_known {index : UInt16} {entry : KnownType}
    (hentry : Registry.type? index = some entry) : m.typeName (.known index) = entry.name := by
  unfold typeName
  simp only [hentry]

theorem typeName_inFile {index : UInt16} {entry : TypeEntry} {name : String}
    (hentry : m.types[index.toNat]? = some entry) (hname : m.string? entry.name = some name) :
    m.typeName (.inFile index) = name := by
  unfold typeName
  simp only [hentry, m.stringText_eq hname]

theorem fullTypeName_known {index : UInt16} {entry : KnownType}
    (hentry : Registry.type? index = some entry) :
    m.fullTypeName (.known index) = entry.fullName := by
  rw [fullTypeName, hentry]

theorem fullTypeName_inFile {index : UInt16} {entry : TypeEntry} {owner : TypeNamespace}
    {space name : String} (hentry : m.types[index.toNat]? = some entry)
    (howner : m.typeNamespaces[entry.typeNamespace.toNat]? = some owner)
    (hspace : m.string? owner.name = some space) (hname : m.string? entry.name = some name) :
    m.fullTypeName (.inFile index) = space ++ "." ++ name := by
  rw [fullTypeName, hentry]
  simp only [howner, m.stringText_eq hspace, m.stringText_eq hname]

theorem propertyName_known {index : UInt16} {entry : KnownProperty}
    (hentry : Registry.property? index = some entry) :
    m.propertyName (.known index) = entry.name := by
  unfold propertyName
  simp only [hentry]

theorem propertyName_inFile {index : UInt16} {entry : PropertyEntry} {name : String}
    (hentry : m.properties[index.toNat]? = some entry) (hname : m.string? entry.name = some name) :
    m.propertyName (.inFile index) = name := by
  unfold propertyName
  simp only [hentry, m.stringText_eq hname]

theorem xmlNamespace_known {index : UInt16} {uri : String}
    (huri : Registry.xmlNamespace? index = some uri) : m.xmlNamespace (.known index) = uri := by
  unfold xmlNamespace
  simp only [huri]

theorem xmlNamespace_inFile {index : UInt16} {id : StringId} {uri : String}
    (hentry : m.xmlNamespaces[index.toNat]? = some id) (huri : m.string? id = some uri) :
    m.xmlNamespace (.inFile index) = uri := by
  unfold xmlNamespace
  simp only [hentry, m.stringText_eq huri]

/-- The declaring type of a property, where a reference is long enough for it. -/
theorem declaringType?_near {index : UInt16} {entry : PropertyEntry}
    (hentry : m.properties[index.toNat]? = some entry)
    (hnear : entry.declaringType.toNat < 0x10000) :
    m.declaringType? (.inFile index) = some (.inFile entry.declaringType.toUInt16) := by
  simp only [declaringType?, hentry, if_pos hnear]

theorem declaringType?_far {index : UInt16} {entry : PropertyEntry}
    (hentry : m.properties[index.toNat]? = some entry)
    (hfar : 0x10000 ≤ entry.declaringType.toNat) :
    m.declaringType? (.inFile index) = none := by
  simp only [declaringType?, hentry, if_neg (Nat.not_lt.mpr hfar)]

theorem qualifiedProperty_of_some {property : Ref .property} {type : Ref .type}
    (h : m.declaringType? property = some type) :
    m.qualifiedProperty property = m.typeName type ++ "." ++ m.propertyName property := by
  rw [qualifiedProperty, h]

theorem qualifiedProperty_of_none {property : Ref .property}
    (h : m.declaringType? property = none) :
    m.qualifiedProperty property = m.propertyName property := by
  rw [qualifiedProperty, h]

theorem qualifiedProperty_near {index : UInt16} {entry : PropertyEntry} {owner : TypeEntry}
    {ownerName name : String} (hentry : m.properties[index.toNat]? = some entry)
    (howner : m.types[entry.declaringType.toNat]? = some owner)
    (hownerName : m.string? owner.name = some ownerName)
    (hname : m.string? entry.name = some name) (hnear : entry.declaringType.toNat < 0x10000) :
    m.qualifiedProperty (.inFile index) = ownerName ++ "." ++ name := by
  have hword : entry.declaringType.toUInt16.toNat = entry.declaringType.toNat :=
    Nat.mod_eq_of_lt hnear
  rw [← hword] at howner
  rw [m.qualifiedProperty_of_some (m.declaringType?_near hentry hnear),
    m.typeName_inFile howner hownerName, m.propertyName_inFile hentry hname]

theorem qualifiedProperty_far {index : UInt16} {entry : PropertyEntry} {name : String}
    (hentry : m.properties[index.toNat]? = some entry) (hname : m.string? entry.name = some name)
    (hfar : 0x10000 ≤ entry.declaringType.toNat) :
    m.qualifiedProperty (.inFile index) = name := by
  rw [m.qualifiedProperty_of_none (m.declaringType?_far hentry hfar),
    m.propertyName_inFile hentry hname]

end Lookup

/-! ### Lookup in closed tables -/

variable {m : Metadata} {strict : Bool}

theorem exists_string {id : StringId} (h : id.index.toNat < m.strings.size) :
    ∃ text, m.string? id = some text :=
  ⟨_, Array.getElem?_eq_getElem h⟩

/-- What holds of the entries of a table holds of the one that is looked up. -/
theorem exists_entry {α : Type} {table : Array α} {P : α → Prop} (h : ∀ a ∈ table.toList, P a)
    {index : Nat} (hindex : index < table.size) :
    ∃ entry, table[index]? = some entry ∧ P entry :=
  ⟨table[index], Array.getElem?_eq_getElem hindex,
    h _ (Array.mem_toList_iff.mpr (Array.getElem_mem hindex))⟩

namespace Closed

/-- An entry of the types, with its name. -/
theorem exists_type (h : m.Closed) {index : Nat} (hindex : index < m.types.size) :
    ∃ entry name, m.types[index]? = some entry ∧ m.string? entry.name = some name ∧
      entry.typeNamespace.toNat < m.typeNamespaces.size := by
  obtain ⟨entry, hentry, hspace, hname⟩ := exists_entry h.types hindex
  obtain ⟨name, hname⟩ := exists_string hname
  exact ⟨entry, name, hentry, hname, hspace⟩

theorem namesType (h : m.Closed) {type : Ref .type} (htype : type.Valid (m.scope strict)) :
    m.NamesType type (m.typeName type) := by
  cases type with
  | known index =>
      have hindex : index.toNat < SymbolKind.type.registrySize := htype
      obtain ⟨entry, hentry⟩ := exists_known_type hindex
      rw [m.typeName_known hentry]
      exact .known hentry
  | unknown index => exact .unknown index
  | inFile index =>
      obtain ⟨entry, name, hentry, hname, -⟩ := h.exists_type htype.1
      rw [m.typeName_inFile hentry hname]
      exact .inFile hentry hname

theorem namesFullType (h : m.Closed) {type : Ref .type} (htype : type.Valid (m.scope strict)) :
    m.NamesFullType type (m.fullTypeName type) := by
  cases type with
  | known index =>
      have hindex : index.toNat < SymbolKind.type.registrySize := htype
      obtain ⟨entry, hentry⟩ := exists_known_type hindex
      rw [m.fullTypeName_known hentry]
      exact .known hentry
  | unknown index => exact .unknown index
  | inFile index =>
      obtain ⟨entry, name, hentry, hname, hspace⟩ := h.exists_type htype.1
      obtain ⟨owner, howner, -, hspace⟩ := exists_entry h.typeNamespaces hspace
      obtain ⟨space, hspace⟩ := exists_string hspace
      rw [m.fullTypeName_inFile hentry howner hspace hname]
      exact .inFile hentry howner hspace hname

theorem namesProperty (h : m.Closed) {property : Ref .property}
    (hproperty : property.Valid (m.scope strict)) :
    m.NamesProperty property (m.qualifiedProperty property) := by
  cases property with
  | known index =>
      have hindex : index.toNat < SymbolKind.property.registrySize := hproperty
      obtain ⟨entry, owner, hentry, howner⟩ := exists_known_property hindex
      have hdeclared : m.declaringType? (.known index) = some (.known entry.declaringType) := by
        rw [declaringType?, hentry, Option.map_some]
      rw [m.qualifiedProperty_of_some hdeclared, m.typeName_known howner,
        m.propertyName_known hentry]
      exact .known hentry howner
  | unknown index => exact .unknown index
  | inFile index =>
      obtain ⟨entry, hentry, howner, hname⟩ := exists_entry h.properties hproperty.1
      obtain ⟨name, hname⟩ := exists_string hname
      obtain ⟨owner, ownerName, howner, hownerName, -⟩ := h.exists_type howner
      by_cases hnear : entry.declaringType.toNat < 0x10000
      · rw [m.qualifiedProperty_near hentry howner hownerName hname hnear]
        exact .inFile hentry hname hnear howner hownerName
      · have hfar : 0x10000 ≤ entry.declaringType.toNat := Nat.le_of_not_lt hnear
        rw [m.qualifiedProperty_far hentry hname hfar]
        exact .inFileFar hentry hname hfar

theorem namesXmlNamespace (h : m.Closed) {xmlNamespace : Ref .xmlNamespace}
    (hvalid : xmlNamespace.Valid (m.scope strict)) :
    m.NamesXmlNamespace xmlNamespace (m.xmlNamespace xmlNamespace) := by
  cases xmlNamespace with
  | known index =>
      have hindex : index.toNat < SymbolKind.xmlNamespace.registrySize := hvalid
      obtain ⟨uri, huri⟩ := exists_known_xmlNamespace hindex
      rw [m.xmlNamespace_known huri]
      exact .known huri
  | unknown index => exact .unknown index
  | inFile index =>
      obtain ⟨id, hentry, huri⟩ := exists_entry h.xmlNamespaces hvalid.1
      obtain ⟨uri, huri⟩ := exists_string huri
      rw [m.xmlNamespace_inFile hentry huri]
      exact .inFile hentry huri

end Closed

end Metadata

end XamlBinary
