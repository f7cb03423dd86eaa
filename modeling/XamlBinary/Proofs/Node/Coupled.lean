import XamlBinary.Node.Decode
import XamlBinary.Proofs.Reader.Same

/-!
One slice decoded in two scopes.  The scope is looked at in three places: where
a reference is resolved, where a string id stands in the form of a reference,
and where it stands as a number.  Two scopes that agree in these places, except
that the first one may refuse what the other one lets through, agree on whole
node-streams.
-/

namespace XamlBinary

open Reader

/-- The decoders agree, except that the first one may stop with a fault that is let go. -/
def Decoder.AgreeUpTo {α : Type} (escapes : Fault → Prop) (decoder other : Decoder α) : Prop :=
  Coupled (.same (fun _ => True) escapes) decoder other

/-- The scopes agree, except that the first one may refuse with a fault that is let go. -/
structure Scope.AgreeUpTo (escapes : Fault → Prop) (scope other : Scope) : Prop where
  resolve (kind : SymbolKind) (packed : PackedRef) :
    Decoder.AgreeUpTo escapes (scope.resolve kind packed) (other.resolve kind packed)
  stringRef (what : String) :
    Decoder.AgreeUpTo escapes (Decoder.stringRef scope what) (Decoder.stringRef other what)
  string (start : Nat) (number : Int32) :
    Decoder.AgreeUpTo escapes (scope.stringId start number) (other.stringId start number)

namespace Decoder.AgreeUpTo

variable {α : Type} {escapes : Fault → Prop}

theorem refl (decoder : Decoder α) : AgreeUpTo escapes decoder decoder := Coupled.refl decoder

/-- A scope may refuse where the fault is let go. -/
theorem escape {fault : Fault} (h : escapes fault) (other : Decoder α) :
    AgreeUpTo escapes (fail fault) other :=
  fun _ _ _ => .escape h

/-- What passes a check in the first scope passes it in the other one, too. -/
theorem check {p q : Prop} [Decidable p] [Decidable q] {fault : Fault} (decoder other : Decoder α)
    (hpass : p → q) (hrefuse : ¬ p → escapes fault) :
    AgreeUpTo escapes (if p then decoder else fail fault) (if q then decoder else other) := by
  split
  next hp =>
    rw [if_pos (hpass hp)]
    exact refl _
  next hp => exact escape (hrefuse hp) _

section Parts

variable {decoder other : Decoder α} (h : AgreeUpTo escapes decoder other)
include h

theorem list (what : String) :
    AgreeUpTo escapes (Decoder.list what decoder) (Decoder.list what other) :=
  Coupled.counted what (refl _) (fun _ => rfl) (refl _) h

theorem since (present : Bool) (absent : α) :
    AgreeUpTo escapes (Decoder.since present absent decoder)
      (Decoder.since present absent other) :=
  .ite (fun _ => h) fun _ => refl _

end Parts

variable {scope other : Scope} (h : scope.AgreeUpTo escapes other)
include h

/-! ### References and literals -/

theorem ref (kind : SymbolKind) (what : String) :
    AgreeUpTo escapes (Decoder.ref scope kind what) (Decoder.ref other kind what) :=
  (refl _).bind fun _ => h.resolve kind _

theorem stringId (what : String) :
    AgreeUpTo escapes (Decoder.stringId scope what) (Decoder.stringId other what) :=
  (refl _).bind fun start => (refl _).bind fun number => h.string start number

theorem stringId? (what : String) :
    AgreeUpTo escapes (Decoder.stringId? scope what) (Decoder.stringId? other what) :=
  (refl _).bind fun start => (refl _).bind fun number =>
    .ite (fun _ => refl _) fun _ => (h.string start (number - 1)).map some

theorem constantBody (kind : ConstantKind) :
    AgreeUpTo escapes (Decoder.constantBody scope kind) (Decoder.constantBody other kind) := by
  cases kind with
  | enumeration => exact (ref h .type _).bind fun _ => refl _
  | sharedString => exact (h.stringRef _).map Constant.sharedString
  | _ => exact refl _

theorem constant : AgreeUpTo escapes (Decoder.constant scope) (Decoder.constant other) := by
  refine (refl _).bind fun _ => (refl _).bind fun tag => ?_
  cases ConstantKind.ofTag? tag with
  | some kind => exact constantBody h kind
  | none => exact refl _

/-! ### Custom runtime data -/

theorem strings (what : String) :
    AgreeUpTo escapes (Decoder.strings scope what) (Decoder.strings other what) :=
  (stringId h _).list what

theorem visualStateGroup (version : Nat) :
    AgreeUpTo escapes (Decoder.visualStateGroup scope version)
      (Decoder.visualStateGroup other version) :=
  (stringId h _).bind fun _ => refl _

theorem visualState (version groups : Nat) :
    AgreeUpTo escapes (Decoder.visualState scope version groups)
      (Decoder.visualState other version groups) :=
  (stringId h _).bind fun _ => refl _

theorem visualTransition :
    AgreeUpTo escapes (Decoder.visualTransition scope) (Decoder.visualTransition other) :=
  (stringId? h _).bind fun _ => (stringId? h _).bind fun _ => refl _

theorem visualStateGroups (version : Nat) :
    AgreeUpTo escapes (Decoder.visualStateGroups scope version)
      (Decoder.visualStateGroups other version) := by
  refine (refl _).bind fun _ => ((visualStateGroup h version).list _).bind fun groups => ?_
  refine ((visualState h version groups.length).list _).bind fun _ => ?_
  refine (((visualTransition h).list _).since _ []).bind fun _ => ?_
  exact (strings h _).bind fun _ => refl _

theorem keyedToken : AgreeUpTo escapes (Decoder.keyedToken scope) (Decoder.keyedToken other) :=
  (stringId h _).bind fun _ => refl _

theorem resourceDictionary (version : Nat) :
    AgreeUpTo escapes (Decoder.resourceDictionary scope version)
      (Decoder.resourceDictionary other version) := by
  refine ((keyedToken h).list _).bind fun _ => ((keyedToken h).list _).bind fun _ => ?_
  exact ((strings h _).since _ []).bind fun _ => refl _

theorem setterValue :
    AgreeUpTo escapes (Decoder.setterValue scope) (Decoder.setterValue other) := by
  refine (refl _).bind fun _ => (refl _).bind fun _ => ?_
  refine .ite (fun _ => (constant h).map SetterValue.constant) fun _ => ?_
  refine .ite (fun _ => refl _) fun _ => ?_
  refine .ite (fun _ => (stringId h _).map SetterValue.staticResource) fun _ => ?_
  exact .ite (fun _ => (stringId h _).map SetterValue.themeResource) fun _ => refl _

theorem setter (version : Nat) :
    AgreeUpTo escapes (Decoder.setter scope version) (Decoder.setter other version) :=
  (ref h .property _).bind fun _ => (setterValue h).bind fun _ => refl _

theorem style (version : Nat) :
    AgreeUpTo escapes (Decoder.style scope version) (Decoder.style other version) :=
  ((setter h version).list _).bind fun _ => refl _

theorem eagerProperty :
    AgreeUpTo escapes (Decoder.eagerProperty scope) (Decoder.eagerProperty other) :=
  (ref h .property _).bind fun _ => (constant h).bind fun _ => refl _

theorem deferredElement (version : Nat) :
    AgreeUpTo escapes (Decoder.deferredElement scope version)
      (Decoder.deferredElement other version) :=
  (stringId h _).bind fun _ => ((eagerProperty h).list _).bind fun _ => refl _

theorem runtimeDataBody (layout : RuntimeLayout) :
    AgreeUpTo escapes (Decoder.runtimeDataBody scope layout)
      (Decoder.runtimeDataBody other layout) := by
  obtain ⟨family, version⟩ := layout
  cases family with
  | visualStateGroups =>
      exact (visualStateGroups h version).map RuntimeData.visualStateGroups
  | resourceDictionary =>
      exact (resourceDictionary h version).map RuntimeData.resourceDictionary
  | style => exact (style h version).map RuntimeData.style
  | deferredElement => exact (deferredElement h version).map RuntimeData.deferredElement

theorem runtimeData :
    AgreeUpTo escapes (Decoder.runtimeData scope) (Decoder.runtimeData other) := by
  refine (refl _).bind fun _ => (refl _).bind fun number => ?_
  cases RuntimeLayout.ofNumber? number with
  | some layout => exact runtimeDataBody h layout
  | none => exact refl _

/-! ### Nodes -/

theorem nodeBody (kind : NodeKind) :
    AgreeUpTo escapes (Decoder.nodeBody scope kind) (Decoder.nodeBody other kind) := by
  cases kind with
  | startObject => exact (ref h .type _).map Node.startObject
  | startProperty => exact (ref h .property _).map Node.startProperty
  | text => exact (h.stringRef _).map Node.text
  | value => exact (constant h).map Node.value
  | namespaceDeclaration =>
      exact (h.stringRef _).bind fun _ => (ref h .xmlNamespace _).bind fun _ => refl _
  | runtimeData => exact (runtimeData h).bind fun _ => refl _
  | _ => exact refl _

theorem node : AgreeUpTo escapes (Decoder.node scope) (Decoder.node other) := by
  refine (refl _).bind fun _ => (refl _).bind fun tag => ?_
  cases NodeKind.ofTag? tag with
  | some kind => exact nodeBody h kind
  | none => exact refl _

theorem nodesUpTo (limit : Nat) :
    AgreeUpTo escapes (Decoder.nodesUpTo scope limit) (Decoder.nodesUpTo other limit) := by
  induction limit with
  | zero => exact refl _
  | succ limit ih =>
      refine (refl _).bind fun _ => (node h).bind fun _ => (refl _).bind fun _ => ?_
      refine .ite (fun _ => refl _) fun _ => .ite (fun _ => refl _) fun _ => ?_
      exact ih.bind fun _ => refl _

theorem nodes : AgreeUpTo escapes (Decoder.nodes scope) (Decoder.nodes other) :=
  (refl _).bind fun here => .ite (fun _ => refl _) fun _ => nodesUpTo h here.rest.length

end Decoder.AgreeUpTo

end XamlBinary
