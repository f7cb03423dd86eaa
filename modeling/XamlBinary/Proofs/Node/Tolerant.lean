import XamlBinary.Metadata.Decode
import XamlBinary.Node.Decode
import XamlBinary.Proofs.Reader.Warns

/-!
Decoders warn of oddities in what they decode and of nothing else: of flags
without a meaning and of trusted indices without an entry.
-/

namespace XamlBinary

open Reader

/-- Something odd about the bytes of a file that does not keep it from being read. -/
def Warning.IsOddity : Warning → Prop
  | unknownTypeFlags _ | unknownPropertyFlags _ | unknownStableIndex _ _ => True
  | positionNotRestored _ _ => False

namespace Decoder

/-- A decoder that warns of oddities only. -/
def Tolerant {α : Type} (decoder : Decoder α) : Prop := Warns Warning.IsOddity decoder

namespace Tolerant

variable {α : Type} {decoder : Decoder α}

/-! ### Values -/

theorem byte (what : String) : Tolerant (Decoder.byte what) := by
  refine Warns.quiet fun c => ?_
  rw [run, Decoder.byte]
  split <;> rfl

theorem block (what : String) (count : Nat) : Tolerant (Decoder.block what count) := by
  refine Warns.quiet fun c => ?_
  rw [run, Decoder.block]
  split <;> rfl

theorem bool (what : String) : Tolerant (Decoder.bool what) :=
  Warns.position.bind fun _ => (byte what).bind fun _ => .ite (.pure _) (.ite (.pure _) (.fail _))

theorem varintGroups (what : String) (start more : Nat) :
    Tolerant (Decoder.varintGroups what start more) := by
  induction more with
  | zero => exact (byte what).bind fun _ => .ite (.fail _) (.pure _)
  | succ more ih => exact (byte what).bind fun _ => .ite (.pure _) (ih.bind fun _ => .pure _)

theorem varint (what : String) : Tolerant (Decoder.varint what) :=
  Warns.position.bind fun _ => (varintGroups what _ 4).bind fun _ => .pure _

theorem natural (what : String) : Tolerant (Decoder.natural what) :=
  Warns.position.bind fun _ => (varint what).bind fun _ => .ite (.fail _) (.pure _)

theorem list (what : String) (h : Tolerant decoder) : Tolerant (Decoder.list what decoder) :=
  Warns.counted what (varint what) h

theorem string (what : String) : Tolerant (Decoder.string what) := by
  refine Warns.position.bind fun _ => (Warns.int32 what).bind fun _ => .ite (.fail _) ?_
  refine (block what _).bind fun bytes => ?_
  cases Utf16.text? (Utf16.unitsOfBytes bytes) with
  | some text => exact .pure _
  | none => exact .fail _

theorem since (present : Bool) (absent : α) (h : Tolerant decoder) :
    Tolerant (Decoder.since present absent decoder) :=
  .ite h (.pure absent)

/-! ### References -/

variable (scope : Scope)

theorem resolve (kind : SymbolKind) (packed : PackedRef) :
    Tolerant (scope.resolve kind packed) := by
  refine .ite (.ite (.pure _) (.ite (.fail _) ?_)) (.ite (.pure _) (.fail _))
  exact (Warns.warn trivial).bind fun _ => .pure _

theorem ref (kind : SymbolKind) (what : String) : Tolerant (Decoder.ref scope kind what) :=
  (Warns.uint16 what).bind fun _ => resolve scope kind _

theorem stringRef (what : String) : Tolerant (Decoder.stringRef scope what) :=
  Warns.position.bind fun _ => (Warns.uint16 what).bind fun _ =>
    .ite (.fail _) (.ite (.pure _) (.fail _))

theorem checkedStringId (start : Nat) (number : Int32) :
    Tolerant (scope.stringId start number) :=
  .ite (.fail _) (.ite (.pure _) (.fail _))

theorem stringId (what : String) : Tolerant (Decoder.stringId scope what) :=
  Warns.position.bind fun _ => (varint what).bind fun _ => checkedStringId scope _ _

theorem stringId? (what : String) : Tolerant (Decoder.stringId? scope what) :=
  Warns.position.bind fun _ => (varint what).bind fun _ =>
    .ite (.pure none) ((checkedStringId scope _ _).map some)

/-! ### Literals -/

theorem gridUnit : Tolerant Decoder.gridUnit := by
  refine Warns.position.bind fun _ => (Warns.uint32 _).bind fun number => ?_
  cases GridUnit.ofNumber? number with
  | some unit => exact .pure unit
  | none => exact .fail _

theorem thickness : Tolerant Decoder.thickness :=
  (Warns.single _).bind fun _ => (Warns.single _).bind fun _ => (Warns.single _).bind fun _ =>
    (Warns.single _).bind fun _ => .pure _

theorem constantBody (kind : ConstantKind) : Tolerant (Decoder.constantBody scope kind) := by
  cases kind with
  | enumeration => exact (ref scope .type _).bind fun _ => (Warns.uint32 _).bind fun _ => .pure _
  | nullString => exact .pure _
  | boolFalse => exact .pure _
  | boolTrue => exact .pure _
  | color => exact (Warns.uint32 _).map _
  | float => exact (Warns.single _).map _
  | gridLength => exact gridUnit.bind fun _ => (Warns.single _).bind fun _ => .pure _
  | sharedString => exact (stringRef scope _).map _
  | signed => exact (Warns.int32 _).map _
  | thickness => exact thickness.map _
  | uniqueString => exact (string _).map _

theorem constant : Tolerant (Decoder.constant scope) := by
  refine Warns.position.bind fun _ => (byte _).bind fun tag => ?_
  cases ConstantKind.ofTag? tag with
  | some kind => exact constantBody scope kind
  | none => exact .fail _

/-! ### Custom runtime data -/

theorem token (what : String) : Tolerant (Decoder.token what) := (natural what).map _

theorem tokens (what : String) : Tolerant (Decoder.tokens what) := list what (token what)

theorem strings (what : String) : Tolerant (Decoder.strings scope what) :=
  list what (stringId scope what)

theorem visualStateGroup (version : Nat) : Tolerant (Decoder.visualStateGroup scope version) :=
  (stringId scope _).bind fun _ => (token _).bind fun _ => (since _ _ (bool _)).bind fun _ =>
    .pure _

theorem groupIndex (count : Nat) : Tolerant (Decoder.groupIndex count) :=
  (natural _).bind fun _ => .ite (.pure _) (.fail _)

theorem storyboard : Tolerant Decoder.storyboard :=
  (bool _).bind fun _ => .ite ((token _).map some) (.pure none)

theorem visualState (version groups : Nat) :
    Tolerant (Decoder.visualState scope version groups) := by
  refine (stringId scope _).bind fun _ => (groupIndex groups).bind fun _ => ?_
  refine storyboard.bind fun _ => (since _ _ (tokens _)).bind fun _ => ?_
  refine (since _ _ (list _ (list _ (varint _)))).bind fun _ => ?_
  refine (since _ _ (tokens _)).bind fun _ => (since _ _ (tokens _)).bind fun _ => ?_
  exact (since _ _ (tokens _)).bind fun _ => .pure _

theorem visualTransition : Tolerant (Decoder.visualTransition scope) :=
  (stringId? scope _).bind fun _ => (stringId? scope _).bind fun _ => (token _).bind fun _ =>
    .pure _

theorem visualStateGroups (version : Nat) :
    Tolerant (Decoder.visualStateGroups scope version) := by
  refine (token _).bind fun _ => (list _ (visualStateGroup scope version)).bind fun groups => ?_
  refine (list _ (visualState scope version groups.length)).bind fun _ => ?_
  refine (since _ _ (list _ (visualTransition scope))).bind fun _ => ?_
  exact (strings scope _).bind fun _ => (since _ _ (bool _)).bind fun _ => .pure _

theorem keyedToken : Tolerant (Decoder.keyedToken scope) :=
  (stringId scope _).bind fun _ => (token _).bind fun _ => .pure _

theorem resourceDictionary (version : Nat) :
    Tolerant (Decoder.resourceDictionary scope version) := by
  refine (list _ (keyedToken scope)).bind fun _ => (list _ (keyedToken scope)).bind fun _ => ?_
  refine (since _ _ (strings scope _)).bind fun _ => ?_
  exact (since _ _ (tokens _)).bind fun _ => .pure _

theorem setterValue : Tolerant (Decoder.setterValue scope) := by
  refine Warns.position.bind fun _ => (byte _).bind fun _ => .ite ((constant scope).map _) ?_
  refine .ite ((token _).map _) (.ite ((stringId scope _).map _) ?_)
  exact .ite ((stringId scope _).map _) (.fail _)

theorem setter (version : Nat) : Tolerant (Decoder.setter scope version) :=
  (ref scope .property _).bind fun _ => (setterValue scope).bind fun _ =>
    (since _ _ (bool _)).bind fun _ => .pure _

theorem style (version : Nat) : Tolerant (Decoder.style scope version) :=
  (list _ (setter scope version)).bind fun _ => .pure _

theorem eagerProperty : Tolerant (Decoder.eagerProperty scope) :=
  (ref scope .property _).bind fun _ => (constant scope).bind fun _ => .pure _

theorem deferredElement (version : Nat) : Tolerant (Decoder.deferredElement scope version) := by
  refine (stringId scope _).bind fun _ => (list _ (eagerProperty scope)).bind fun _ => ?_
  exact (since _ _ (bool _)).bind fun _ => (since _ _ (bool _)).bind fun _ => .pure _

theorem runtimeDataBody (layout : RuntimeLayout) :
    Tolerant (Decoder.runtimeDataBody scope layout) := by
  obtain ⟨family, version⟩ := layout
  cases family with
  | visualStateGroups => exact (visualStateGroups scope version).map _
  | resourceDictionary => exact (resourceDictionary scope version).map _
  | style => exact (style scope version).map _
  | deferredElement => exact (deferredElement scope version).map _

theorem runtimeData : Tolerant (Decoder.runtimeData scope) := by
  refine Warns.position.bind fun _ => (varint _).bind fun number => ?_
  cases RuntimeLayout.ofNumber? number with
  | some layout => exact runtimeDataBody scope layout
  | none => exact .fail _

/-! ### Nodes and lines -/

theorem nodeBody (kind : NodeKind) : Tolerant (Decoder.nodeBody scope kind) := by
  cases kind with
  | startObject => exact (ref scope .type _).map _
  | startProperty => exact (ref scope .property _).map _
  | text => exact (stringRef scope _).map _
  | value => exact (constant scope).map _
  | namespaceDeclaration =>
      exact (stringRef scope _).bind fun _ => (ref scope .xmlNamespace _).bind fun _ => .pure _
  | lineInfo => exact (Warns.int16 _).bind fun _ => (Warns.int16 _).bind fun _ => .pure _
  | lineInfoAbsolute =>
      exact (Warns.uint32 _).bind fun _ => (Warns.uint32 _).bind fun _ => .pure _
  | runtimeData => exact (runtimeData scope).bind fun _ => (natural _).bind fun _ => .pure _
  | _ => exact .pure _

theorem node : Tolerant (Decoder.node scope) := by
  refine Warns.position.bind fun _ => (byte _).bind fun tag => ?_
  cases NodeKind.ofTag? tag with
  | some kind => exact nodeBody scope kind
  | none => exact .fail _

theorem nodesUpTo (limit : Nat) : Tolerant (Decoder.nodesUpTo scope limit) := by
  induction limit with
  | zero => exact Warns.position.bind fun _ => .fail _
  | succ limit ih =>
      refine Warns.position.bind fun _ => (node scope).bind fun _ => Warns.get.bind fun _ => ?_
      refine .ite (.ite (.pure _) (.fail _)) (.ite (.fail _) ?_)
      exact ih.bind fun _ => .pure _

theorem nodes : Tolerant (Decoder.nodes scope) :=
  Warns.get.bind fun here => .ite (.pure []) (nodesUpTo scope here.rest.length)

theorem lineEntry : Tolerant Decoder.lineEntry :=
  (natural _).bind fun _ => (natural _).bind fun _ => (natural _).bind fun _ => .pure _

theorem lineEntriesUpTo (previous : UInt32) (limit : Nat) :
    Tolerant (Decoder.lineEntriesUpTo previous limit) := by
  induction limit generalizing previous with
  | zero => exact .pure []
  | succ limit ih =>
      refine Warns.get.bind fun _ => .ite (.pure []) (lineEntry.bind fun entry => ?_)
      exact .ite (.fail _) ((ih entry.nodeOffset).bind fun _ => .pure _)

theorem lineEntries : Tolerant Decoder.lineEntries :=
  Warns.get.bind fun _ => lineEntriesUpTo 0 _

/-! ### Metadata -/

theorem assembly : Tolerant Decoder.assembly := by
  refine Warns.position.bind fun _ => (Warns.uint32 _).bind fun number => ?_
  cases AssemblyKind.ofNumber? number with
  | some kind => exact (Warns.uint32 _).bind fun _ => .pure _
  | none => exact .fail _

theorem typeNamespace : Tolerant Decoder.typeNamespace :=
  (Warns.uint32 _).bind fun _ => (Warns.uint32 _).bind fun _ => .pure _

/-- Flags can call for a warning; what follows them is read either way. -/
theorem flagged {next : UInt32 → Decoder α} (unknown : UInt32 → Prop) [DecidablePred unknown]
    (warning : UInt32 → Warning) (what : String) (hwarning : ∀ bits, (warning bits).IsOddity)
    (hnext : ∀ bits, Tolerant (next bits)) :
    Tolerant (do
      let bits ← Reader.uint32 what
      if unknown bits then do
          warn (warning bits)
          next bits
        else next bits) :=
  (Warns.uint32 what).bind fun bits =>
    .ite ((Warns.warn (hwarning bits)).bind fun _ => hnext bits) (hnext bits)

theorem typeEntry : Tolerant Decoder.typeEntry :=
  flagged (fun bits => (TypeFlags.mk bits).unknownBits ≠ 0) Warning.unknownTypeFlags _
    (fun _ => trivial) fun _ =>
      (Warns.uint32 _).bind fun _ => (Warns.uint32 _).bind fun _ => .pure _

theorem propertyEntry : Tolerant Decoder.propertyEntry :=
  flagged (fun bits => (PropertyFlags.mk bits).unknownBits ≠ 0) Warning.unknownPropertyFlags _
    (fun _ => trivial) fun _ =>
      (Warns.uint32 _).bind fun _ => (Warns.uint32 _).bind fun _ => .pure _

theorem metadataTables : Tolerant Decoder.metadataTables := by
  refine (Warns.table _ (string _)).bind fun _ => (Warns.table _ assembly).bind fun _ => ?_
  refine (Warns.table _ typeNamespace).bind fun _ => (Warns.table _ typeEntry).bind fun _ => ?_
  refine (Warns.table _ propertyEntry).bind fun _ => ?_
  exact (Warns.table _ ((Warns.uint32 _).map _)).bind fun _ => .pure _

theorem metadata : Tolerant Metadata.decoder := by
  refine Warns.get.bind fun _ => metadataTables.bind fun m => Warns.get.bind fun _ => ?_
  refine .ite ?_ (.fail _)
  cases m.dangling? with
  | some r => exact .fail _
  | none => exact (Warns.note _).bind fun _ => .pure m

end Tolerant

end Decoder

end XamlBinary
