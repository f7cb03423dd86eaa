import XamlBinary.Proofs.File.Closure
import XamlBinary.Proofs.File.Fit

/-!
What is valid in one scope is valid in another one that has at least as many
strings and in which the references can be resolved.  Nothing but references
and string ids depends on the scope.
-/

namespace XamlBinary

open Decoder

variable {scope scope' : Scope} {texts : String → Prop} {version : Nat}

/-! ### String ids and the parts that hold nothing else -/

theorem StringId.Valid.mono {id : StringId} (h : id.Valid scope)
    (hstrings : scope.strings ≤ scope'.strings) : id.Valid scope' :=
  ⟨Nat.lt_of_lt_of_le h.1 hstrings, h.2⟩

theorem StringId.Packable.mono {id : StringId} (h : id.Packable scope)
    (hstrings : scope.strings ≤ scope'.strings) : id.Packable scope' :=
  ⟨Nat.lt_of_lt_of_le h.1 hstrings, h.2⟩

theorem Decoder.Since.imp {α : Type} {present : Bool} {absent a : α} {P Q : α → Prop}
    (h : Since present absent P a) (himp : P a → Q a) : Since present absent Q a := by
  cases present with
  | true => exact himp h
  | false => exact h

theorem VisualStateGroup.Valid.mono {g : VisualStateGroup} (h : g.Valid scope version)
    (hstrings : scope.strings ≤ scope'.strings) : g.Valid scope' version :=
  ⟨h.name.mono hstrings, h.token, h.hasDynamicTimelines⟩

theorem VisualState.Valid.mono {groups : Nat} {s : VisualState} (h : s.Valid scope version groups)
    (hstrings : scope.strings ≤ scope'.strings) : s.Valid scope' version groups :=
  { h with name := h.name.mono hstrings }

theorem VisualTransition.Valid.mono {t : VisualTransition} (h : t.Valid scope)
    (hstrings : scope.strings ≤ scope'.strings) : t.Valid scope' :=
  ⟨fun id hid => (h.source id hid).mono hstrings, fun id hid => (h.target id hid).mono hstrings,
    h.token⟩

theorem VisualStateGroups.Valid.mono {d : VisualStateGroups} (h : d.Valid scope)
    (hstrings : scope.strings ≤ scope'.strings) : d.Valid scope' where
  collection := h.collection
  groups := h.groups.imp fun _ _ hg => hg.mono hstrings
  states := h.states.imp fun _ _ hs => hs.mono hstrings
  transitions := h.transitions.imp fun ht => ht.imp fun _ _ ht => ht.mono hstrings
  seenNames := h.seenNames.imp fun _ _ hid => hid.mono hstrings
  unexpectedTokens := h.unexpectedTokens

theorem KeyedToken.Valid.mono {k : KeyedToken} (h : k.Valid scope)
    (hstrings : scope.strings ≤ scope'.strings) : k.Valid scope' :=
  ⟨h.key.mono hstrings, h.token⟩

theorem ResourceDictionary.Valid.mono {d : ResourceDictionary} (h : d.Valid scope)
    (hstrings : scope.strings ≤ scope'.strings) : d.Valid scope' where
  explicitKeys := h.explicitKeys.imp fun _ _ hk => hk.mono hstrings
  implicitKeys := h.implicitKeys.imp fun _ _ hk => hk.mono hstrings
  xNames := h.xNames.imp fun hids => hids.imp fun _ _ hid => hid.mono hstrings
  conditionalTokens := h.conditionalTokens

/-! ### What refers to symbols -/

theorem Constant.Valid.transfer {c : Constant} (h : c.Valid scope texts)
    (hstrings : scope.strings ≤ scope'.strings) (hrefs : ∀ r ∈ c.references, r.Valid scope') :
    c.Valid scope' texts := by
  cases c with
  | enumeration type value => exact hrefs (.type type) List.mem_cons_self
  | sharedString id => exact StringId.Packable.mono h hstrings
  | _ => exact h

theorem SetterValue.Valid.transfer {v : SetterValue} (h : v.Valid scope texts)
    (hstrings : scope.strings ≤ scope'.strings) (hrefs : ∀ r ∈ v.references, r.Valid scope') :
    v.Valid scope' texts := by
  cases v with
  | constant value => exact Constant.Valid.transfer h hstrings hrefs
  | object token => exact h
  | staticResource key => exact StringId.Valid.mono h hstrings
  | themeResource key => exact StringId.Valid.mono h hstrings

theorem Setter.Valid.transfer {s : Setter} (h : s.Valid scope texts version)
    (hstrings : scope.strings ≤ scope'.strings) (hrefs : ∀ r ∈ s.references, r.Valid scope') :
    s.Valid scope' texts version := by
  obtain ⟨hproperty, hvalue⟩ := List.forall_mem_cons.mp hrefs
  exact ⟨hproperty, h.value.transfer hstrings hvalue, h.isMutable⟩

theorem EagerProperty.Valid.transfer {p : EagerProperty} (h : p.Valid scope texts)
    (hstrings : scope.strings ≤ scope'.strings) (hrefs : ∀ r ∈ p.references, r.Valid scope') :
    p.Valid scope' texts := by
  obtain ⟨hproperty, hvalue⟩ := List.forall_mem_cons.mp hrefs
  exact ⟨hproperty, h.value.transfer hstrings hvalue⟩

theorem RuntimeData.Valid.transfer {d : RuntimeData} (h : d.Valid scope texts)
    (hstrings : scope.strings ≤ scope'.strings) (hrefs : ∀ r ∈ d.references, r.Valid scope') :
    d.Valid scope' texts := by
  obtain ⟨hlayout, hbody⟩ := h
  refine ⟨hlayout, ?_⟩
  cases d with
  | visualStateGroups data => exact VisualStateGroups.Valid.mono hbody hstrings
  | resourceDictionary data => exact ResourceDictionary.Valid.mono hbody hstrings
  | style data =>
      have hrefs := List.forall_mem_flatMap.mp hrefs
      exact Counted.imp hbody fun s hs hvalid => hvalid.transfer hstrings (hrefs s hs)
  | deferredElement data =>
      have hdata : data.Valid scope texts := hbody
      have hrefs := List.forall_mem_flatMap.mp hrefs
      exact { hdata with
        name := hdata.name.mono hstrings
        properties := hdata.properties.imp fun p hp hvalid =>
          hvalid.transfer hstrings (hrefs p hp) }

/-- A valid node is valid wherever its references are. -/
theorem Node.Valid.transfer {n : Node} (h : n.Valid scope texts)
    (hstrings : scope.strings ≤ scope'.strings) (hrefs : ∀ r ∈ n.references, r.Valid scope') :
    n.Valid scope' texts := by
  cases n with
  | startObject type => exact hrefs (.type type) List.mem_cons_self
  | startProperty property => exact hrefs (.property property) List.mem_cons_self
  | text id => exact StringId.Packable.mono h hstrings
  | value constant => exact Constant.Valid.transfer h hstrings hrefs
  | namespaceDeclaration shortName xmlNamespace =>
      have hxml : xmlNamespace.Valid scope' := hrefs (.xmlNamespace xmlNamespace) List.mem_cons_self
      exact ⟨StringId.Packable.mono h.1 hstrings, hxml⟩
  | runtimeData data substream => exact ⟨h.1.transfer hstrings hrefs, h.2⟩
  | _ => trivial

/-! ### Substreams -/

/-- Substreams tile the same body in any scope in which their references can be resolved. -/
theorem Substream.Tiled.transfer {bodySize start : Nat} {subs : List Substream}
    {bytes : List UInt8} (h : Tiled scope bodySize start subs bytes)
    (hstrings : scope.strings ≤ scope'.strings)
    (hrefs : ∀ s ∈ subs, ∀ r ∈ s.references, r.Valid scope') :
    Tiled scope' bodySize start subs bytes := by
  induction subs generalizing start bytes with
  | nil => exact h
  | cons s later ih =>
      obtain ⟨hs, hlater⟩ := List.forall_mem_cons.mp hrefs
      have hs := List.forall_mem_flatMap.mp hs
      obtain ⟨nodeBytes, lineBytes, rest, hbytes, hnode, hline, hsize, ⟨c, log, hnodes⟩, hlines,
        hrest⟩ := h
      obtain ⟨hcomplete, hvalid, hspelled, hlog, hend⟩ := Decoder.run_nodes_eq_ok.mp hnodes
      have hvalid : ∀ p ∈ s.nodes, p.node.Valid scope' Utf16.Countable :=
        fun p hp => (hvalid p hp).transfer hstrings (hs p hp)
      have hnodes := Decoder.run_nodes_eq_ok.mpr ⟨hcomplete, hvalid, hspelled, hlog, hend⟩
      exact ⟨nodeBytes, lineBytes, rest, hbytes, hnode, hline, hsize, ⟨c, log, hnodes⟩, hlines,
        ih hrest hlater⟩

end XamlBinary
