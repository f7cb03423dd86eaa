import XamlBinary.Proofs.Cursor.Located
import XamlBinary.Proofs.Node.Decode

/-!
References, literals, custom runtime data, nodes and line entries are located:
whatever is wrong with a slice is reported at a place of the slice, and what
is reported there is what stands there.
-/

namespace XamlBinary.Decoder

open Reader

namespace Located

variable {slice : List UInt8}

/-! ### References -/

theorem resolve (scope : Scope) (kind : SymbolKind) (packed : PackedRef) :
    Located slice (scope.resolve kind packed) := by
  refine .ite (fun _ => ?_) fun _ => .ite (fun _ => .pure _) fun _ => indexOutOfRange
  refine .ite (fun _ => .pure _) fun _ => .ite (fun _ => indexOutOfRange) fun _ => ?_
  exact (Keeps.report _).bind fun _ => .pure _

theorem ref (scope : Scope) (kind : SymbolKind) (what : String) :
    Located slice (Decoder.ref scope kind what) :=
  (Keeps.uint16 exactly what).bind fun _ => resolve scope kind _

theorem stringRef (scope : Scope) (what : String) :
    Located slice (Decoder.stringRef scope what) := by
  refine .position fun _ hc => (Keeps.uint16 exactly what).bind fun _ => ?_
  refine .ite (fun _ => malformed hc.offset_le trivial) fun _ => ?_
  exact .ite (fun _ => .pure _) fun _ => indexOutOfRange

theorem checkedStringId (scope : Scope) {start : Nat} (hstart : start ≤ slice.length)
    (number : Int32) : Located slice (scope.stringId start number) :=
  .ite (fun _ => malformed hstart trivial) fun _ =>
    .ite (fun _ => .pure _) fun _ => indexOutOfRange

theorem stringId (scope : Scope) (what : String) : Located slice (Decoder.stringId scope what) :=
  .position fun _ hc => (varint what).bind fun _ => checkedStringId scope hc.offset_le _

theorem stringId? (scope : Scope) (what : String) :
    Located slice (Decoder.stringId? scope what) :=
  .position fun _ hc => (varint what).bind fun _ => .ite (fun _ => .pure none) fun _ =>
    (checkedStringId scope hc.offset_le _).map some

/-! ### Literals -/

theorem gridUnit : Located slice Decoder.gridUnit := by
  refine lead (.uint32 exactly _) (reads_uint32 _) fun start number hstart hgives => ?_
  cases hunit : GridUnit.ofNumber? number with
  | some unit => exact .pure unit
  | none => exact malformed hstart ⟨hgives, hunit⟩

theorem thickness : Located slice Decoder.thickness :=
  (Keeps.single exactly _).bind fun _ => (Keeps.single exactly _).bind fun _ =>
    (Keeps.single exactly _).bind fun _ => (Keeps.single exactly _).bind fun _ => .pure _

theorem constantBody (scope : Scope) (kind : ConstantKind) :
    Located slice (Decoder.constantBody scope kind) := by
  cases kind with
  | enumeration =>
      exact (ref scope .type _).bind fun _ => (Keeps.uint32 exactly _).bind fun _ => .pure _
  | nullString => exact .pure _
  | boolFalse => exact .pure _
  | boolTrue => exact .pure _
  | color => exact (Keeps.uint32 exactly _).map _
  | float => exact (Keeps.single exactly _).map _
  | gridLength => exact gridUnit.bind fun _ => (Keeps.single exactly _).bind fun _ => .pure _
  | sharedString => exact (stringRef scope _).map _
  | signed => exact (Keeps.int32 exactly _).map _
  | thickness => exact thickness.map _
  | uniqueString => exact (string (by decide)).map _

theorem constant (scope : Scope) : Located slice (Decoder.constant scope) := by
  refine lead (byte _) (reads_byte _) fun start tag hstart hgives => ?_
  cases hkind : ConstantKind.ofTag? tag with
  | some kind => exact constantBody scope kind
  | none => exact malformed hstart ⟨hgives, hkind⟩

/-! ### Custom runtime data -/

theorem token (what : String) : Located slice (Decoder.token what) :=
  (natural what).map _

theorem tokens (what : String) : Located slice (Decoder.tokens what) :=
  list what (token what)

theorem strings (scope : Scope) (what : String) : Located slice (Decoder.strings scope what) :=
  list what (stringId scope what)

theorem visualStateGroup (scope : Scope) (version : Nat) :
    Located slice (Decoder.visualStateGroup scope version) :=
  (stringId scope _).bind fun _ => (token _).bind fun _ => (since _ _ (bool _)).bind fun _ =>
    .pure _

theorem groupIndex (count : Nat) : Located slice (Decoder.groupIndex count) :=
  (natural _).bind fun _ => .ite (fun _ => .pure _) fun _ => indexOutOfRange

theorem storyboard : Located slice Decoder.storyboard :=
  (bool _).bind fun _ => .ite (fun _ => (token _).map some) fun _ => .pure none

theorem visualState (scope : Scope) (version groups : Nat) :
    Located slice (Decoder.visualState scope version groups) := by
  refine (stringId scope _).bind fun _ => (groupIndex groups).bind fun _ => ?_
  refine storyboard.bind fun _ => (since _ _ (tokens _)).bind fun _ => ?_
  refine (since _ _ (list _ (list _ (varint _)))).bind fun _ => ?_
  refine (since _ _ (tokens _)).bind fun _ => (since _ _ (tokens _)).bind fun _ => ?_
  exact (since _ _ (tokens _)).bind fun _ => .pure _

theorem visualTransition (scope : Scope) : Located slice (Decoder.visualTransition scope) :=
  (stringId? scope _).bind fun _ => (stringId? scope _).bind fun _ => (token _).bind fun _ =>
    .pure _

theorem visualStateGroups (scope : Scope) (version : Nat) :
    Located slice (Decoder.visualStateGroups scope version) := by
  refine (token _).bind fun _ => (list _ (visualStateGroup scope version)).bind fun groups => ?_
  refine (list _ (visualState scope version groups.length)).bind fun _ => ?_
  refine (since _ _ (list _ (visualTransition scope))).bind fun _ => ?_
  exact (strings scope _).bind fun _ => (since _ _ (bool _)).bind fun _ => .pure _

theorem keyedToken (scope : Scope) : Located slice (Decoder.keyedToken scope) :=
  (stringId scope _).bind fun _ => (token _).bind fun _ => .pure _

theorem resourceDictionary (scope : Scope) (version : Nat) :
    Located slice (Decoder.resourceDictionary scope version) := by
  refine (list _ (keyedToken scope)).bind fun _ => (list _ (keyedToken scope)).bind fun _ => ?_
  exact (since _ _ (strings scope _)).bind fun _ => (since _ _ (tokens _)).bind fun _ => .pure _

theorem setterValue (scope : Scope) : Located slice (Decoder.setterValue scope) := by
  refine lead (byte _) (reads_byte _) fun start kind hstart hgives => ?_
  refine .ite (fun _ => (constant scope).map _) fun h₀ => ?_
  refine .ite (fun _ => (token _).map _) fun h₁ => .ite (fun _ => (stringId scope _).map _) fun h₂ => ?_
  refine .ite (fun _ => (stringId scope _).map _) fun h₃ => malformed hstart ⟨hgives, ?_⟩
  rw [← UInt8.toNat_inj] at h₀ h₁ h₂ h₃
  have hnumbers : (0 : UInt8).toNat = 0 ∧ (1 : UInt8).toNat = 1 ∧ (2 : UInt8).toNat = 2 ∧
      (3 : UInt8).toNat = 3 := by decide
  omega

theorem setter (scope : Scope) (version : Nat) : Located slice (Decoder.setter scope version) :=
  (ref scope .property _).bind fun _ => (setterValue scope).bind fun _ =>
    (since _ _ (bool _)).bind fun _ => .pure _

theorem style (scope : Scope) (version : Nat) : Located slice (Decoder.style scope version) :=
  (list _ (setter scope version)).bind fun _ => .pure _

theorem eagerProperty (scope : Scope) : Located slice (Decoder.eagerProperty scope) :=
  (ref scope .property _).bind fun _ => (constant scope).bind fun _ => .pure _

theorem deferredElement (scope : Scope) (version : Nat) :
    Located slice (Decoder.deferredElement scope version) := by
  refine (stringId scope _).bind fun _ => (list _ (eagerProperty scope)).bind fun _ => ?_
  exact (since _ _ (bool _)).bind fun _ => (since _ _ (bool _)).bind fun _ => .pure _

theorem runtimeDataBody (scope : Scope) (layout : RuntimeLayout) :
    Located slice (Decoder.runtimeDataBody scope layout) := by
  rw [Decoder.runtimeDataBody]
  cases layout.family with
  | visualStateGroups => exact (visualStateGroups scope _).map _
  | resourceDictionary => exact (resourceDictionary scope _).map _
  | style => exact (style scope _).map _
  | deferredElement => exact (deferredElement scope _).map _

theorem runtimeData (scope : Scope) : Located slice (Decoder.runtimeData scope) := by
  refine lead (varint _) (reads_varint _) fun start number hstart hgives => ?_
  cases hlayout : RuntimeLayout.ofNumber? number with
  | some layout => exact runtimeDataBody scope layout
  | none => exact malformed hstart ⟨hgives, hlayout⟩

/-! ### Nodes -/

theorem nodeBody (scope : Scope) (kind : NodeKind) :
    Located slice (Decoder.nodeBody scope kind) := by
  cases kind with
  | startObject => exact (ref scope .type _).map _
  | endObject => exact .pure _
  | startProperty => exact (ref scope .property _).map _
  | endProperty => exact .pure _
  | text => exact (stringRef scope _).map _
  | value => exact (constant scope).map _
  | namespaceDeclaration =>
      exact (stringRef scope _).bind fun _ => (ref scope .xmlNamespace _).bind fun _ => .pure _
  | endOfAttributes => exact .pure _
  | endOfStream => exact .pure _
  | lineInfo =>
      exact (Keeps.int16 exactly _).bind fun _ => (Keeps.int16 exactly _).bind fun _ => .pure _
  | lineInfoAbsolute =>
      exact (Keeps.uint32 exactly _).bind fun _ => (Keeps.uint32 exactly _).bind fun _ => .pure _
  | runtimeData => exact (runtimeData scope).bind fun _ => (natural _).bind fun _ => .pure _

theorem node (scope : Scope) : Located slice (Decoder.node scope) := by
  refine lead (byte _) (reads_byte _) fun start tag hstart hgives => ?_
  cases hkind : NodeKind.ofTag? tag with
  | some kind => exact nodeBody scope kind
  | none => exact malformed hstart ⟨hgives, hkind⟩

theorem nodesUpTo (scope : Scope) (limit : Nat) : Located slice (Decoder.nodesUpTo scope limit) := by
  induction limit with
  | zero => exact .position fun _ hc => malformed hc.offset_le trivial
  | succ limit ih =>
      refine .position fun _ _ => (node scope).bind fun n => .get fun here hhere => ?_
      refine .ite (fun _ => ?_) fun _ => .ite (fun _ => malformed hhere.offset_le trivial) fun _ => ?_
      · exact .ite (fun _ => .pure _) fun _ => malformed hhere.offset_le trivial
      · exact ih.bind fun _ => .pure _

theorem nodes (scope : Scope) : Located slice (Decoder.nodes scope) :=
  .get fun _ _ => .ite (fun _ => .pure []) fun _ => nodesUpTo scope _

/-! ### Line entries -/

theorem lineEntry : Located slice Decoder.lineEntry :=
  (natural _).bind fun _ => (natural _).bind fun _ => (natural _).bind fun _ => .pure _

theorem lineEntriesUpTo (previous : UInt32) (limit : Nat) :
    Located slice (Decoder.lineEntriesUpTo previous limit) := by
  induction limit generalizing previous with
  | zero => exact .pure []
  | succ limit ih =>
      refine .get fun here hhere => .ite (fun _ => .pure []) fun _ => lineEntry.bind fun entry => ?_
      refine .ite (fun _ => malformed hhere.offset_le trivial) fun _ => ?_
      exact (ih entry.nodeOffset).bind fun _ => .pure _

theorem lineEntries : Located slice Decoder.lineEntries :=
  .get fun _ _ => lineEntriesUpTo 0 _

end Located

end XamlBinary.Decoder
