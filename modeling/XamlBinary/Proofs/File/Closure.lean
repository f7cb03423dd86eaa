import XamlBinary.Proofs.File.Read

/-!
Files that are read are closed: whatever a table or a node of a file refers to
is there.  References are made in many places and are checked at different
times, each string id and reference where it is read, the tables when all of
them have been read, and deferrals at the very end.  Here they are collected
from the whole file.
-/

namespace XamlBinary

open Reader

/-! ### What is closed -/

/-- Each index from one table into another is an index of that table. -/
structure Metadata.Closed (m : Metadata) : Prop where
  assemblies : ∀ a ∈ m.assemblies.toList, a.name.index.toNat < m.strings.size
  typeNamespaces : ∀ n ∈ m.typeNamespaces.toList,
    n.assembly.toNat < m.assemblies.size ∧ n.name.index.toNat < m.strings.size
  types : ∀ t ∈ m.types.toList,
    t.typeNamespace.toNat < m.typeNamespaces.size ∧ t.name.index.toNat < m.strings.size
  properties : ∀ p ∈ m.properties.toList,
    p.declaringType.toNat < m.types.size ∧ p.name.index.toNat < m.strings.size
  xmlNamespaces : ∀ id ∈ m.xmlNamespaces.toList, id.index.toNat < m.strings.size

def AnyRef.Valid (scope : Scope) : AnyRef → Prop
  | type ref => ref.Valid scope
  | property ref => ref.Valid scope
  | xmlNamespace ref => ref.Valid scope

/-- The visual states of custom runtime data belong to groups of the same collection. -/
def RuntimeData.Grouped : RuntimeData → Prop
  | visualStateGroups data => ∀ s ∈ data.states, s.group.toNat < data.groups.length
  | resourceDictionary _ | style _ | deferredElement _ => True

/-- All that the tables and the nodes of a file refer to is there. -/
structure File.Closed (strict : Bool) (f : File) : Prop where
  metadata : f.metadata.Closed
  stringIds : ∀ id ∈ f.stringIds, id.index.toNat < f.metadata.strings.size
  references : ∀ r ∈ f.references, r.Valid (f.metadata.scope strict)
  grouped : ∀ s ∈ f.substreams, ∀ d ∈ s.runtimeData, d.1.Grouped
  deferred : ∀ s ∈ f.substreams, ∀ d ∈ s.runtimeData, d.2.toNat < f.substreams.length

/-! ### Tables -/

theorem Metadata.inRange_iff_closed {m : Metadata} :
    (∀ r ∈ m.crossReferences, r.InRange) ↔ m.Closed := by
  simp only [crossReferences, List.forall_mem_append, List.forall_mem_map,
    List.forall_mem_flatMap, List.forall_mem_cons, List.not_mem_nil, false_implies, implies_true,
    and_true]
  constructor
  · rintro ⟨⟨⟨⟨hassemblies, hnamespaces⟩, htypes⟩, hproperties⟩, hxmlNamespaces⟩
    exact ⟨hassemblies, hnamespaces, htypes, hproperties, hxmlNamespaces⟩
  · rintro ⟨hassemblies, hnamespaces, htypes, hproperties, hxmlNamespaces⟩
    exact ⟨⟨⟨⟨hassemblies, hnamespaces⟩, htypes⟩, hproperties⟩, hxmlNamespaces⟩

/-! ### String ids -/

variable {scope : Scope} {texts : String → Prop}

theorem Decoder.Since.forall_mem {α : Type} {present : Bool} {P : α → Prop} {items : List α}
    (h : Since present [] (Counted P) items) : ∀ a ∈ items, P a := by
  cases present with
  | true => exact h.2
  | false =>
      obtain rfl : items = [] := h
      exact fun a ha => absurd ha List.not_mem_nil

theorem Constant.Valid.stringIds {c : Constant} (h : c.Valid scope texts) :
    ∀ id ∈ c.stringIds, id.index.toNat < scope.strings := by
  cases c with
  | sharedString id => exact List.forall_mem_singleton.mpr h.1
  | _ => exact fun id hid => absurd hid List.not_mem_nil

theorem SetterValue.Valid.stringIds {v : SetterValue} (h : v.Valid scope texts) :
    ∀ id ∈ v.stringIds, id.index.toNat < scope.strings := by
  cases v with
  | constant value => exact Constant.Valid.stringIds h
  | object token => exact fun id hid => absurd hid List.not_mem_nil
  | staticResource key => exact List.forall_mem_singleton.mpr h.1
  | themeResource key => exact List.forall_mem_singleton.mpr h.1

theorem VisualTransition.Valid.stringIds {t : VisualTransition} (h : t.Valid scope) :
    ∀ id ∈ t.stringIds, id.index.toNat < scope.strings := by
  intro id hid
  rcases List.mem_append.mp hid with hsource | htarget
  · exact (h.source id (Option.mem_toList.mp hsource)).1
  · exact (h.target id (Option.mem_toList.mp htarget)).1

theorem VisualStateGroups.Valid.stringIds {d : VisualStateGroups} (h : d.Valid scope) :
    ∀ id ∈ d.stringIds, id.index.toNat < scope.strings := by
  simp only [VisualStateGroups.stringIds, List.forall_mem_append, List.forall_mem_map,
    List.forall_mem_flatMap]
  refine ⟨⟨⟨?_, ?_⟩, ?_⟩, ?_⟩
  · exact fun g hg => (h.groups.2 g hg).name.1
  · exact fun s hs => (h.states.2 s hs).name.1
  · exact fun t ht => (h.transitions.forall_mem t ht).stringIds
  · exact fun id hid => (h.seenNames.2 id hid).1

theorem ResourceDictionary.Valid.stringIds {d : ResourceDictionary} (h : d.Valid scope) :
    ∀ id ∈ d.stringIds, id.index.toNat < scope.strings := by
  simp only [ResourceDictionary.stringIds, List.forall_mem_append, List.forall_mem_map]
  refine ⟨⟨?_, ?_⟩, ?_⟩
  · exact fun k hk => (h.explicitKeys.2 k hk).key.1
  · exact fun k hk => (h.implicitKeys.2 k hk).key.1
  · exact fun id hid => (h.xNames.forall_mem id hid).1

theorem RuntimeData.Valid.stringIds {d : RuntimeData} (h : d.Valid scope texts) :
    ∀ id ∈ d.stringIds, id.index.toNat < scope.strings := by
  obtain ⟨-, hbody⟩ := h
  cases d with
  | visualStateGroups data => exact VisualStateGroups.Valid.stringIds hbody
  | resourceDictionary data => exact ResourceDictionary.Valid.stringIds hbody
  | style data =>
      have hsetters : ∀ s ∈ data.setters, s.Valid scope texts data.version := hbody.2
      exact List.forall_mem_flatMap.mpr fun s hs => (hsetters s hs).value.stringIds
  | deferredElement data =>
      have hdata : data.Valid scope texts := hbody
      refine List.forall_mem_cons.mpr ⟨hdata.name.1, List.forall_mem_flatMap.mpr fun p hp => ?_⟩
      exact (hdata.properties.2 p hp).value.stringIds

/-- The string ids of a valid node are strings of the file. -/
theorem Node.Valid.stringIds {n : Node} (h : n.Valid scope texts) :
    ∀ id ∈ n.stringIds, id.index.toNat < scope.strings := by
  cases n with
  | text id => exact List.forall_mem_singleton.mpr h.1
  | value constant => exact Constant.Valid.stringIds h
  | namespaceDeclaration shortName xmlNamespace => exact List.forall_mem_singleton.mpr h.1.1
  | runtimeData data substream => exact h.1.stringIds
  | _ => exact fun id hid => absurd hid List.not_mem_nil

/-! ### References -/

theorem Constant.Valid.references {c : Constant} (h : c.Valid scope texts) :
    ∀ r ∈ c.references, r.Valid scope := by
  cases c with
  | enumeration type value => exact List.forall_mem_singleton.mpr h
  | _ => exact fun r hr => absurd hr List.not_mem_nil

theorem SetterValue.Valid.references {v : SetterValue} (h : v.Valid scope texts) :
    ∀ r ∈ v.references, r.Valid scope := by
  cases v with
  | constant value => exact Constant.Valid.references h
  | _ => exact fun r hr => absurd hr List.not_mem_nil

theorem RuntimeData.Valid.references {d : RuntimeData} (h : d.Valid scope texts) :
    ∀ r ∈ d.references, r.Valid scope := by
  obtain ⟨-, hbody⟩ := h
  cases d with
  | visualStateGroups data => exact fun r hr => absurd hr List.not_mem_nil
  | resourceDictionary data => exact fun r hr => absurd hr List.not_mem_nil
  | style data =>
      have hsetters : ∀ s ∈ data.setters, s.Valid scope texts data.version := hbody.2
      refine List.forall_mem_flatMap.mpr fun s hs => List.forall_mem_cons.mpr ?_
      exact ⟨(hsetters s hs).property, (hsetters s hs).value.references⟩
  | deferredElement data =>
      have hdata : data.Valid scope texts := hbody
      refine List.forall_mem_flatMap.mpr fun p hp => List.forall_mem_cons.mpr ?_
      exact ⟨(hdata.properties.2 p hp).property, (hdata.properties.2 p hp).value.references⟩

/-- The references of a valid node can be resolved. -/
theorem Node.Valid.references {n : Node} (h : n.Valid scope texts) :
    ∀ r ∈ n.references, r.Valid scope := by
  cases n with
  | startObject type => exact List.forall_mem_singleton.mpr h
  | startProperty property => exact List.forall_mem_singleton.mpr h
  | value constant => exact Constant.Valid.references h
  | namespaceDeclaration shortName xmlNamespace => exact List.forall_mem_singleton.mpr h.2
  | runtimeData data substream => exact h.1.references
  | _ => exact fun r hr => absurd hr List.not_mem_nil

theorem RuntimeData.Valid.grouped {d : RuntimeData} (h : d.Valid scope texts) : d.Grouped := by
  obtain ⟨-, hbody⟩ := h
  cases d with
  | visualStateGroups data =>
      have hdata : data.Valid scope := hbody
      exact fun s hs => (hdata.states.2 s hs).group.1
  | _ => trivial

/-! ### Files -/

namespace Substream

/-- The nodes of substreams that tile a body are valid. -/
theorem Tiled.valid {bodySize start : Nat} {subs : List Substream} {bytes : List UInt8}
    (h : Tiled scope bodySize start subs bytes) :
    ∀ s ∈ subs, ∀ p ∈ s.nodes, p.node.Valid scope Utf16.Countable := by
  induction subs generalizing start bytes with
  | nil => exact fun s hs => absurd hs List.not_mem_nil
  | cons s later ih =>
      obtain ⟨nodeBytes, lineBytes, rest, -, -, -, -, ⟨c, log, hnodes⟩, -, hrest⟩ := h
      obtain ⟨-, hvalid, -⟩ := Decoder.run_nodes_eq_ok.mp hnodes
      exact List.forall_mem_cons.mpr ⟨hvalid, ih hrest⟩

/-- The custom runtime data of a substream is that of its nodes. -/
theorem mem_runtimeData_iff {s : Substream} {data : RuntimeData} {substream : UInt32} :
    (data, substream) ∈ s.runtimeData ↔ ∃ p ∈ s.nodes, p.node = .runtimeData data substream := by
  rw [runtimeData, List.mem_filterMap]
  constructor
  · rintro ⟨p, hp, h⟩
    refine ⟨p, hp, ?_⟩
    split at h
    · cases h
      assumption
    · cases h
  · rintro ⟨p, hp, h⟩
    refine ⟨p, hp, ?_⟩
    rw [h]

end Substream

namespace File

variable {settings : Settings} {f : File} {s s' : ByteStream} {log : Log}

theorem ReadFrom.closed {length : Nat} {body : List UInt8}
    (h : f.ReadFrom settings length body) : f.Closed settings.strict := by
  have hvalid := h.tiled.valid
  -- custom runtime data is valid because its node is
  have hdata : ∀ s ∈ f.substreams, ∀ d ∈ s.runtimeData,
      d.1.Valid (f.metadata.scope settings.strict) Utf16.Countable := by
    rintro s hs ⟨data, substream⟩ hd
    obtain ⟨p, hp, hnode⟩ := Substream.mem_runtimeData_iff.mp hd
    have hp := hvalid s hs p hp
    rw [hnode] at hp
    exact hp.1
  refine ⟨Metadata.inRange_iff_closed.mp h.metadata.inRange, ?_, ?_, ?_, ?_⟩
  · simp only [stringIds, Substream.stringIds, List.forall_mem_flatMap]
    exact fun s hs p hp => (hvalid s hs p hp).stringIds
  · simp only [references, Substream.references, List.forall_mem_flatMap]
    exact fun s hs p hp => (hvalid s hs p hp).references
  · exact fun s hs d hd => (hdata s hs d hd).grouped
  · exact forall_deferrals_iff (P := fun n => n.toNat < f.substreams.length) |>.mp h.deferrals

/-- A file that is read is closed, and its substreams are those of the table that stands in the
stream behind the metadata, one for each entry. -/
theorem closed_of_run_read (settings : Settings) (f : File) (s s' : ByteStream) (log : Log)
    (h : (read settings).run s = .ok f s' log) :
    f.Closed settings.strict ∧ SubstreamEntry.tableBytes (f.substreams.map (·.entry)) <+:
      ({ s with position := 0 } : ByteStream).readable.drop
        (f.header.size + f.header.metadataSize.toNat) := by
  obtain ⟨-, -, body, hread, ⟨rest, hbytes⟩, -⟩ := run_read_eq_ok.mp h
  refine ⟨hread.closed, body ++ rest, ?_⟩
  have hlength : (f.header.written.bytes ++ f.metadata.written.bytes).length =
      f.header.size + f.header.metadataSize.toNat := by
    rw [List.length_append, Header.length_bytes, hread.metadataSize]
  rw [← hbytes, front, ← hlength]
  simp only [← List.append_assoc]
  rw [List.append_assoc, List.append_assoc, List.append_assoc, List.drop_left]

/-- A file with a visual state in the only group of its collection. -/
theorem closed_of_run_read_visualState :
    ∃ f s' log, (read {}).run (.ofBytes (File.bytes ⟨⟨30, 25, none⟩, { strings := #["a"] },
        [⟨⟨0, 13⟩, [⟨0, .runtimeData (.visualStateGroups ⟨1, ⟨0⟩, [⟨⟨0⟩, ⟨0⟩, false⟩],
          [⟨⟨0⟩, 0, none, [], [], [], [], []⟩], [], [], false⟩) 0⟩, ⟨12, .endOfStream⟩], []⟩]⟩)) =
        .ok f s' log ∧ f.Closed false := by
  have haccepted : (ofBytes {} (File.bytes ⟨⟨30, 25, none⟩, { strings := #["a"] },
      [⟨⟨0, 13⟩, [⟨0, .runtimeData (.visualStateGroups ⟨1, ⟨0⟩, [⟨⟨0⟩, ⟨0⟩, false⟩],
        [⟨⟨0⟩, 0, none, [], [], [], [], []⟩], [], [], false⟩) 0⟩, ⟨12, .endOfStream⟩],
        []⟩]⟩)).isOk = true := by decide +kernel
  rw [ofBytes] at haccepted
  generalize File.bytes _ = bytes at haccepted ⊢
  cases hrun : (read {}).run (.ofBytes bytes) with
  | ok f s' log => exact ⟨f, s', log, rfl, (closed_of_run_read {} f _ s' log hrun).1⟩
  | fail fault s' log =>
      rw [hrun] at haccepted
      cases haccepted

end File

end XamlBinary
