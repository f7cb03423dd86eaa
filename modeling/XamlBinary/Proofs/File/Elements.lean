import XamlBinary.File.Elements
import XamlBinary.Proofs.File.Canonical
import XamlBinary.Proofs.File.Closure

/-!
Nothing is written in no room.  Every element of a file takes at least one
byte of its own in the written form, next to the bytes of what it holds, and a
spelling is never shorter than the shortest bytes.  So a file has no more
elements than bytes, however its counts are nested.
-/

namespace XamlBinary

open Written

/-! ### The room of the pieces -/

namespace Written

@[simp] theorem length_bytes_byte (b : UInt8) : (byte b).bytes.length = 1 := rfl

@[simp] theorem length_bytes_word16 (n : UInt16) : (word16 n).bytes.length = 2 := by
  simp [word16, LittleEndian.length_bytes]

theorem one_le_varint (n : Int32) : 1 ≤ (varint n).bytes.length := by
  show 1 ≤ (Varint.shortest n.toUInt32 ++ []).length
  rw [List.append_nil]
  exact Varint.length_shortest_pos n.toUInt32

theorem one_le_natural (n : UInt32) : 1 ≤ (natural n).bytes.length := one_le_varint _

variable {α : Type} {inner : α → Nat} (w : α → Written) (items : List α)

theorem sum_le_flatMap (h : ∀ a ∈ items, inner a ≤ (w a).bytes.length) :
    (items.map inner).sum ≤ (Written.bytes (items.flatMap w)).length := by
  induction items with
  | nil => exact Nat.le.refl
  | cons a items ih =>
      obtain ⟨ha, hitems⟩ := List.forall_mem_cons.mp h
      rw [List.map_cons, List.sum_cons, List.flatMap_cons, length_bytes_append]
      exact Nat.add_le_add ha (ih hitems)

theorem elementsOf_eq_sum : elementsOf inner items = (items.map fun a => inner a + 1).sum := by
  induction items with
  | nil => rfl
  | cons a items ih =>
      simp only [elementsOf, List.length_cons, List.map_cons, List.sum_cons] at ih ⊢
      omega

/-- Items that take a byte more than they hold. -/
theorem elementsOf_le_flatMap (h : ∀ a ∈ items, inner a + 1 ≤ (w a).bytes.length) :
    elementsOf inner items ≤ (Written.bytes (items.flatMap w)).length := by
  rw [elementsOf_eq_sum]
  exact sum_le_flatMap w items h

theorem elementsOf_le_table (h : ∀ a ∈ items, inner a + 1 ≤ (w a).bytes.length) :
    elementsOf inner items ≤ (table w items).bytes.length := by
  have hitems := elementsOf_le_flatMap w items h
  rw [length_bytes_table]
  omega

theorem elementsOf_le_list (h : ∀ a ∈ items, inner a + 1 ≤ (w a).bytes.length) :
    elementsOf inner items + 1 ≤ (list w items).bytes.length := by
  have hitems := elementsOf_le_flatMap w items h
  have hcount := one_le_natural (UInt32.ofNat items.length)
  rw [list, length_bytes_append]
  omega

/-- Where a layout lacks a list, the list is empty. -/
theorem elementsOf_le_since {present : Bool} {P : List α → Prop}
    (hsince : Decoder.Since present [] P items)
    (h : ∀ a ∈ items, inner a + 1 ≤ (w a).bytes.length) :
    elementsOf inner items ≤ (since present (list w items)).bytes.length := by
  cases present with
  | false =>
      obtain rfl : items = [] := hsince
      exact Nat.le.refl
  | true => exact Nat.le_of_succ_le (elementsOf_le_list w items h)

/-! Items that hold nothing are only counted. -/

theorem elementsOf_zero : elementsOf (fun _ => 0) items = items.length := by
  simp [elementsOf]

theorem length_le_flatMap (h : ∀ a, 1 ≤ (w a).bytes.length) :
    items.length ≤ (Written.bytes (items.flatMap w)).length := by
  rw [← elementsOf_zero]
  exact elementsOf_le_flatMap w items fun a _ => h a

theorem length_le_table (h : ∀ a, 1 ≤ (w a).bytes.length) :
    items.length ≤ (table w items).bytes.length := by
  rw [← elementsOf_zero]
  exact elementsOf_le_table w items fun a _ => h a

theorem length_le_list (h : ∀ a, 1 ≤ (w a).bytes.length) :
    items.length + 1 ≤ (list w items).bytes.length := by
  rw [← elementsOf_zero]
  exact elementsOf_le_list w items fun a _ => h a

theorem length_le_since {present : Bool} {P : List α → Prop}
    (hsince : Decoder.Since present [] P items) (h : ∀ a, 1 ≤ (w a).bytes.length) :
    items.length ≤ (since present (list w items)).bytes.length := by
  rw [← elementsOf_zero]
  exact elementsOf_le_since w items hsince fun a _ => h a

end Written

/-! ### What the parts of a file hold -/

section Parts

variable {scope : Scope} {texts : String → Prop}

theorem unitCount_lt_text (s : String) : Utf16.unitCount s + 1 ≤ (text s).bytes.length := by
  have hunits := length_le_flatMap word16 (Utf16.encode s.toList) fun unit => by simp
  rw [text, length_bytes_table, Utf16.unitCount]
  omega

theorem Token.one_le_written (t : Token) : 1 ≤ t.written.bytes.length := one_le_natural t.offset

theorem StringId.one_le_written (id : StringId) : 1 ≤ id.written.bytes.length :=
  one_le_natural id.index

theorem StringId.one_le_optional (id : Option StringId) :
    1 ≤ (StringId.optional id).bytes.length := by
  cases id <;> exact one_le_varint _

@[simp] theorem Ref.length_written {kind : SymbolKind} (r : Ref kind) :
    r.written.bytes.length = 2 := length_bytes_word16 _

theorem Constant.elements_lt (c : Constant) : c.elements + 1 ≤ c.written.bytes.length := by
  rw [written, length_bytes_append, length_bytes_byte]
  cases c with
  | uniqueString s =>
      have htext := unitCount_lt_text s
      rw [elements, body]
      omega
  | enumeration | nullString | bool | color | float | gridLength | sharedString | signed
  | thickness => exact Nat.le_add_right ..

theorem VisualStateGroup.one_le_written (version : Nat) (g : VisualStateGroup) :
    1 ≤ (g.written version).bytes.length := by
  have hname := g.name.one_le_written
  simp only [written, length_bytes_append]
  omega

theorem VisualState.Valid.elements_lt {version groups : Nat} {s : VisualState}
    (h : s.Valid scope version groups) : s.elements + 1 ≤ (s.written version).bytes.length := by
  have hname := s.name.one_le_written
  have hsetters := length_le_since _ _ h.propertySetters Token.one_le_written
  have hvalues := elementsOf_le_since (list varint) _ h.triggerValues fun values _ =>
    length_le_list varint values one_le_varint
  have hcollections := length_le_since _ _ h.triggerCollections Token.one_le_written
  have hextensible := length_le_since _ _ h.extensibleTriggers Token.one_le_written
  have hresources := length_le_since _ _ h.staticResourceTriggers Token.one_le_written
  simp only [written, elements, length_bytes_append]
  omega

theorem VisualTransition.one_le_written (t : VisualTransition) : 1 ≤ t.written.bytes.length := by
  have hsource := StringId.one_le_optional t.source
  simp only [written, length_bytes_append]
  omega

theorem VisualStateGroups.Valid.elements_le {d : VisualStateGroups} (h : d.Valid scope) :
    d.elements ≤ d.written.bytes.length := by
  have hgroups := length_le_list _ d.groups (VisualStateGroup.one_le_written d.version)
  have hstates := elementsOf_le_list _ d.states fun s hs => (h.states.2 s hs).elements_lt
  have htransitions := length_le_since _ _ h.transitions VisualTransition.one_le_written
  have hnames := length_le_list _ d.seenNames StringId.one_le_written
  simp only [written, elements, length_bytes_append]
  omega

theorem KeyedToken.one_le_written (k : KeyedToken) : 1 ≤ k.written.bytes.length := by
  have hkey := k.key.one_le_written
  rw [written, length_bytes_append]
  omega

theorem ResourceDictionary.Valid.elements_le {d : ResourceDictionary} (h : d.Valid scope) :
    d.elements ≤ d.written.bytes.length := by
  have hexplicit := length_le_list _ d.explicitKeys KeyedToken.one_le_written
  have himplicit := length_le_list _ d.implicitKeys KeyedToken.one_le_written
  have hnames := length_le_since _ _ h.xNames StringId.one_le_written
  have htokens := length_le_since _ _ h.conditionalTokens Token.one_le_written
  simp only [written, elements, length_bytes_append]
  omega

theorem SetterValue.elements_le (v : SetterValue) : v.elements ≤ v.written.bytes.length := by
  cases v with
  | constant c =>
      have hconstant := c.elements_lt
      rw [elements, written, length_bytes_append]
      omega
  | object | staticResource | themeResource => exact Nat.zero_le _

theorem Setter.elements_lt (version : Nat) (s : Setter) :
    s.value.elements + 1 ≤ (s.written version).bytes.length := by
  have hvalue := s.value.elements_le
  simp only [written, length_bytes_append, Ref.length_written]
  omega

theorem EagerProperty.elements_lt (p : EagerProperty) :
    p.value.elements + 1 ≤ p.written.bytes.length := by
  have hvalue := p.value.elements_lt
  simp only [written, length_bytes_append, Ref.length_written]
  omega

theorem RuntimeData.Valid.elements_le {d : RuntimeData} (h : d.Valid scope texts) :
    d.elements ≤ d.written.bytes.length := by
  obtain ⟨-, hbody⟩ := h
  rw [written, length_bytes_append]
  refine Nat.le_trans ?_ (Nat.le_add_left ..)
  cases d with
  | visualStateGroups d => exact VisualStateGroups.Valid.elements_le hbody
  | resourceDictionary d => exact ResourceDictionary.Valid.elements_le hbody
  | style d =>
      exact Nat.le_of_succ_le (elementsOf_le_list _ d.setters fun s _ => s.elements_lt d.version)
  | deferredElement d =>
      have hproperties := elementsOf_le_list _ d.properties fun p _ => p.elements_lt
      simp only [elements, body, DeferredElement.written, length_bytes_append]
      omega

theorem Node.Valid.elements_lt {n : Node} (h : n.Valid scope texts) :
    n.elements + 1 ≤ n.written.bytes.length := by
  rw [written, length_bytes_append, length_bytes_byte]
  cases n with
  | value c =>
      have hconstant := c.elements_lt
      rw [elements, body]
      omega
  | runtimeData d substream =>
      have hdata := h.1.elements_le
      rw [elements, body, length_bytes_append]
      omega
  | startObject | endObject | startProperty | endProperty | text | namespaceDeclaration
  | endOfAttributes | endOfStream | lineInfo | lineInfoAbsolute => exact Nat.le_add_right ..

theorem LineEntry.one_le_written (e : LineEntry) : 1 ≤ e.written.bytes.length := by
  have hoffset := one_le_natural e.nodeOffset
  simp only [written, length_bytes_append]
  omega

theorem Substream.elements_le {s : Substream} (h : ∀ p ∈ s.nodes, p.node.Valid scope texts) :
    s.elements ≤ s.written.bytes.length := by
  have hnodes := elementsOf_le_flatMap _ s.nodes fun p hp => (h p hp).elements_lt
  have hlines := length_le_flatMap _ s.lines LineEntry.one_le_written
  rw [written, writtenNodes, writtenLines, length_bytes_append, elements]
  omega

end Parts

/-! ### Entries of tables -/

theorem StringId.one_le_wide (id : StringId) : 1 ≤ id.wide.bytes.length := by
  simp [wide]

theorem Assembly.one_le_written (a : Assembly) : 1 ≤ a.written.bytes.length := by
  simp [written, StringId.wide]

theorem TypeNamespace.one_le_written (n : TypeNamespace) : 1 ≤ n.written.bytes.length := by
  simp [written, StringId.wide]

theorem TypeEntry.one_le_written (t : TypeEntry) : 1 ≤ t.written.bytes.length := by
  simp [written, StringId.wide]

theorem PropertyEntry.one_le_written (p : PropertyEntry) : 1 ≤ p.written.bytes.length := by
  simp [written, StringId.wide]

theorem SubstreamEntry.one_le_written (e : SubstreamEntry) : 1 ≤ e.written.bytes.length := by
  simp [written]

theorem Metadata.elements_le (m : Metadata) : m.elements ≤ m.written.bytes.length := by
  have hstrings := elementsOf_le_table _ m.strings.toList fun s _ => unitCount_lt_text s
  have hassemblies := length_le_table _ m.assemblies.toList Assembly.one_le_written
  have hnamespaces := length_le_table _ m.typeNamespaces.toList TypeNamespace.one_le_written
  have htypes := length_le_table _ m.types.toList TypeEntry.one_le_written
  have hproperties := length_le_table _ m.properties.toList PropertyEntry.one_le_written
  have huris := length_le_table _ m.xmlNamespaces.toList StringId.one_le_wide
  simp only [Array.length_toList] at hassemblies hnamespaces htypes hproperties huris
  simp only [written, elements, length_bytes_append]
  omega

namespace File

variable {settings : Settings} {f : File} {bytes : List UInt8}

/-- A substream takes its entry in the table besides its nodes and lines. -/
theorem elements_le_bytes
    (h : ∀ s ∈ f.substreams, ∀ p ∈ s.nodes,
      p.node.Valid (f.metadata.scope settings.strict) Utf16.Countable) :
    f.elements ≤ f.bytes.length := by
  have hmetadata := f.metadata.elements_le
  have hentries := length_le_table (fun s : Substream => s.entry.written) f.substreams
    fun s => s.entry.one_le_written
  have hsubstreams : (f.substreams.map Substream.elements).sum ≤
      (Written.bytes (f.substreams.flatMap Substream.written)).length :=
    sum_le_flatMap _ f.substreams fun s hs => Substream.elements_le (h s hs)
  rw [bytes, written, Substream.writtenSection, length_bytes_append, length_bytes_append,
    length_bytes_append, elements, elementsOf]
  omega

/-- A file has no more elements than the bytes that it was read from. -/
theorem elements_le_length (h : ofBytes settings bytes = .ok f) : f.elements ≤ bytes.length := by
  obtain ⟨body, hread, rfl⟩ := ofBytes_eq_ok.mp h
  exact Nat.le_trans (elements_le_bytes hread.tiled.valid) hread.spells.length_bytes_le

end File

end XamlBinary
