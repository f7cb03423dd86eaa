import Mathlib.Tactic.MkIffOfInductiveProp
import XamlBinary.Proofs.Constant.Decode
import XamlBinary.RuntimeData.Decode
import XamlBinary.RuntimeData.Written

/-!
Custom runtime data is read exactly, in each of its layouts.  The conditions
on a value follow its fields: every id, token and count fits where it is
written, and a part that the layout lacks has its default.
-/

namespace XamlBinary

open Reader Decoder

/-! ### What is valid in a layout -/

def Token.Valid (t : Token) : Prop := t.offset.toNat < 2 ^ 31

@[mk_iff]
structure VisualStateGroup.Valid (scope : Scope) (version : Nat) (g : VisualStateGroup) :
    Prop where
  name : g.name.Valid scope
  token : g.token.Valid
  hasDynamicTimelines : Since (4 ≤ version) false (fun _ => True) g.hasDynamicTimelines

@[mk_iff]
structure VisualState.Valid (scope : Scope) (version groups : Nat) (s : VisualState) :
    Prop where
  name : s.name.Valid scope
  group : s.group.toNat < groups ∧ s.group.toNat < 2 ^ 31
  storyboard : ∀ t ∈ s.storyboard, t.Valid
  propertySetters : Since (2 ≤ version) [] (Counted Token.Valid) s.propertySetters
  triggerValues :
    Since (3 ≤ version) [] (Counted (Counted fun _ => True)) s.triggerValues
  triggerCollections : Since (3 ≤ version) [] (Counted Token.Valid) s.triggerCollections
  extensibleTriggers : Since (4 ≤ version) [] (Counted Token.Valid) s.extensibleTriggers
  staticResourceTriggers :
    Since (5 ≤ version) [] (Counted Token.Valid) s.staticResourceTriggers

@[mk_iff]
structure VisualTransition.Valid (scope : Scope) (t : VisualTransition) : Prop where
  source : ∀ id ∈ t.source, id.Valid scope
  target : ∀ id ∈ t.target, id.Valid scope
  token : t.token.Valid

@[mk_iff]
structure VisualStateGroups.Valid (scope : Scope) (d : VisualStateGroups) : Prop where
  collection : d.collection.Valid
  groups : Counted (VisualStateGroup.Valid scope d.version) d.groups
  states : Counted (VisualState.Valid scope d.version d.groups.length) d.states
  transitions :
    Since (2 ≤ d.version) [] (Counted (VisualTransition.Valid scope)) d.transitions
  seenNames : Counted (StringId.Valid scope) d.seenNames
  unexpectedTokens : Since (3 ≤ d.version) false (fun _ => True) d.unexpectedTokens

@[mk_iff]
structure KeyedToken.Valid (scope : Scope) (k : KeyedToken) : Prop where
  key : k.key.Valid scope
  token : k.token.Valid

@[mk_iff]
structure ResourceDictionary.Valid (scope : Scope) (d : ResourceDictionary) : Prop where
  explicitKeys : Counted (KeyedToken.Valid scope) d.explicitKeys
  implicitKeys : Counted (KeyedToken.Valid scope) d.implicitKeys
  xNames : Since (2 ≤ d.version) [] (Counted (StringId.Valid scope)) d.xNames
  conditionalTokens : Since (3 ≤ d.version) [] (Counted Token.Valid) d.conditionalTokens

def SetterValue.Valid (scope : Scope) (texts : String → Prop) : SetterValue → Prop
  | constant value => value.Valid scope texts
  | object token => token.Valid
  | staticResource key => key.Valid scope
  | themeResource key => key.Valid scope

@[mk_iff]
structure Setter.Valid (scope : Scope) (texts : String → Prop) (version : Nat) (s : Setter) :
    Prop where
  property : s.property.Valid scope
  value : s.value.Valid scope texts
  isMutable : Since (2 ≤ version) false (fun _ => True) s.isMutable

def Style.Valid (scope : Scope) (texts : String → Prop) (d : Style) : Prop :=
  Counted (Setter.Valid scope texts d.version) d.setters

@[mk_iff]
structure EagerProperty.Valid (scope : Scope) (texts : String → Prop) (p : EagerProperty) :
    Prop where
  property : p.property.Valid scope
  value : p.value.Valid scope texts

@[mk_iff]
structure DeferredElement.Valid (scope : Scope) (texts : String → Prop) (d : DeferredElement) :
    Prop where
  name : d.name.Valid scope
  properties : Counted (EagerProperty.Valid scope texts) d.properties
  realize : Since (2 ≤ d.version) false (fun _ => True) d.realize
  hasLoadBinding : Since (3 ≤ d.version) false (fun _ => True) d.hasLoadBinding

namespace RuntimeData

/-- What is valid behind the number of the layout. -/
def BodyValid (scope : Scope) (texts : String → Prop) : RuntimeData → Prop
  | visualStateGroups data => data.Valid scope
  | resourceDictionary data => data.Valid scope
  | style data => data.Valid scope texts
  | deferredElement data => data.Valid scope texts

/-- Data in one of the layouts that there are. -/
def Valid (scope : Scope) (texts : String → Prop) (d : RuntimeData) : Prop :=
  d.layout ∈ RuntimeLayout.all ∧ d.BodyValid scope texts

/-- What reading the data logs. -/
def log (d : RuntimeData) : Log := AnyRef.log d.references

end RuntimeData

/-! ### Reading -/

namespace Decoder

theorem reads_token (what : String) :
    Reads (token what) Token.written Token.Valid fun _ => [] :=
  (reads_natural what).convert (f := Token.mk) Token.offset (fun _ => rfl) fun _ _ => rfl

theorem reads_tokens (what : String) :
    Reads (tokens what) (.list Token.written) (Counted Token.Valid) fun _ => [] :=
  reads_quietList what (reads_token what)

theorem reads_strings (scope : Scope) (what : String) :
    Reads (strings scope what) (.list StringId.written) (Counted (StringId.Valid scope))
      fun _ => [] :=
  reads_quietList what (reads_stringId scope what)

theorem reads_visualStateGroup (scope : Scope) (version : Nat) :
    Reads (visualStateGroup scope version) (VisualStateGroup.written version)
      (VisualStateGroup.Valid scope version) fun _ => [] := by
  refine Reads.record (Reads.field VisualStateGroup.name (reads_stringId scope _) fun name =>
    Reads.field VisualStateGroup.token (reads_token _) fun token =>
    Reads.field VisualStateGroup.hasDynamicTimelines (reads_since _ _ (reads_bool _)) fun b =>
    Reads.made ⟨rfl, rfl, rfl, trivial⟩ ?_) ?_ ?_ fun _ => rfl
  · rintro g ⟨rfl, rfl, rfl, -⟩
    rfl
  · intro g
    simp [VisualStateGroup.valid_iff]
  · intro g
    simp [VisualStateGroup.written]

theorem reads_groupIndex (count : Nat) :
    Reads (groupIndex count) .natural (fun n => n.toNat < count ∧ n.toNat < 2 ^ 31)
      fun _ => [] := by
  refine Reads.lead (fun n => n) (reads_natural _) (v := fun _ => []) ?_ (fun _ h => h.2)
    fun _ _ => (List.append_nil _).symm
  intro n hlt
  refine Reads.ite (fun hin => Reads.pure fun m => and_iff_left_of_imp ?_) fun hout =>
    Reads.fail ?_
  · rintro rfl
    exact ⟨hin, hlt⟩
  · rintro m ⟨rfl, hin, -⟩
    exact hout hin

theorem reads_storyboard :
    Reads storyboard Token.optional (fun o => ∀ t ∈ o, t.Valid) fun _ => [] := by
  refine Reads.lead Option.isSome (reads_bool _) (v := fun o => o.elim [] Token.written) ?_
    (fun _ _ => trivial) ?_
  · intro present _
    cases present with
    | true =>
        refine Reads.map (reads_token _) ?_ (fun _ _ => rfl) fun _ _ => rfl
        intro o
        cases o <;> simp
    | false =>
        refine Reads.only ?_ rfl rfl
        intro o
        cases o <;> simp
  · intro o _
    cases o with
    | none => rfl
    | some t => rfl

theorem reads_visualState (scope : Scope) (version groups : Nat) :
    Reads (visualState scope version groups) (VisualState.written version)
      (VisualState.Valid scope version groups) fun _ => [] := by
  have hvalues := reads_quietList "state triggers"
    (reads_quietList "state trigger values" (reads_varint "state trigger value"))
  refine Reads.record (Reads.field VisualState.name (reads_stringId scope _) fun name =>
    Reads.field VisualState.group (reads_groupIndex groups) fun group =>
    Reads.field VisualState.storyboard reads_storyboard fun storyboard =>
    Reads.field VisualState.propertySetters (reads_since _ _ (reads_tokens _)) fun setters =>
    Reads.field VisualState.triggerValues (reads_since _ _ hvalues) fun values =>
    Reads.field VisualState.triggerCollections (reads_since _ _ (reads_tokens _)) fun triggers =>
    Reads.field VisualState.extensibleTriggers (reads_since _ _ (reads_tokens _)) fun extensible =>
    Reads.field VisualState.staticResourceTriggers (reads_since _ _ (reads_tokens _)) fun static =>
    Reads.made ⟨rfl, rfl, rfl, rfl, rfl, rfl, rfl, rfl, trivial⟩ ?_) ?_ ?_ fun _ => rfl
  · rintro s ⟨rfl, rfl, rfl, rfl, rfl, rfl, rfl, rfl, -⟩
    rfl
  · intro s
    simp [VisualState.valid_iff, and_assoc]
  · intro s
    simp [VisualState.written]

theorem reads_visualTransition (scope : Scope) :
    Reads (visualTransition scope) VisualTransition.written (VisualTransition.Valid scope)
      fun _ => [] := by
  refine Reads.record (Reads.field VisualTransition.source (reads_stringId? scope _) fun source =>
    Reads.field VisualTransition.target (reads_stringId? scope _) fun target =>
    Reads.field VisualTransition.token (reads_token _) fun token =>
    Reads.made ⟨rfl, rfl, rfl, trivial⟩ ?_) ?_ ?_ fun _ => rfl
  · rintro t ⟨rfl, rfl, rfl, -⟩
    rfl
  · intro t
    simp [VisualTransition.valid_iff]
  · intro t
    simp [VisualTransition.written]

theorem reads_visualStateGroups (scope : Scope) (version : Nat) :
    Reads (visualStateGroups scope version) VisualStateGroups.written
      (fun d => d.version = version ∧ d.Valid scope) fun _ => [] := by
  refine Reads.recordWith (fun d => d.version = version)
    (Reads.field VisualStateGroups.collection (reads_token _) fun collection =>
    Reads.field VisualStateGroups.groups
      (reads_quietList _ (reads_visualStateGroup scope version)) fun groups =>
    Reads.field VisualStateGroups.states
      (reads_quietList _ (reads_visualState scope version groups.length)) fun states =>
    Reads.field VisualStateGroups.transitions
      (reads_since _ _ (reads_quietList _ (reads_visualTransition scope))) fun transitions =>
    Reads.field VisualStateGroups.seenNames (reads_strings scope _) fun names =>
    Reads.field VisualStateGroups.unexpectedTokens (reads_since _ _ (reads_bool _)) fun tokens =>
    Reads.made ?_ ?_) ?_ ?_ fun _ _ => rfl
  · exact ⟨rfl, rfl, rfl, rfl, rfl, rfl, rfl⟩
  · rintro d ⟨rfl, rfl, rfl, rfl, rfl, rfl, rfl⟩
    rfl
  · rintro d rfl
    simp [VisualStateGroups.valid_iff]
  · rintro d rfl
    simp [VisualStateGroups.written]

theorem reads_keyedToken (scope : Scope) :
    Reads (keyedToken scope) KeyedToken.written (KeyedToken.Valid scope) fun _ => [] := by
  refine Reads.record (Reads.field KeyedToken.key (reads_stringId scope _) fun key =>
    Reads.field KeyedToken.token (reads_token _) fun token =>
    Reads.made ⟨rfl, rfl, trivial⟩ ?_) ?_ ?_ fun _ => rfl
  · rintro k ⟨rfl, rfl, -⟩
    rfl
  · intro k
    simp [KeyedToken.valid_iff]
  · intro k
    simp [KeyedToken.written]

theorem reads_resourceDictionary (scope : Scope) (version : Nat) :
    Reads (resourceDictionary scope version) ResourceDictionary.written
      (fun d => d.version = version ∧ d.Valid scope) fun _ => [] := by
  refine Reads.recordWith (fun d => d.version = version)
    (Reads.field ResourceDictionary.explicitKeys
      (reads_quietList _ (reads_keyedToken scope)) fun explicit =>
    Reads.field ResourceDictionary.implicitKeys
      (reads_quietList _ (reads_keyedToken scope)) fun implicit =>
    Reads.field ResourceDictionary.xNames (reads_since _ _ (reads_strings scope _)) fun names =>
    Reads.field ResourceDictionary.conditionalTokens
      (reads_since _ _ (reads_tokens _)) fun tokens =>
    Reads.made ?_ ?_) ?_ ?_ fun _ _ => rfl
  · exact ⟨rfl, rfl, rfl, rfl, rfl⟩
  · rintro d ⟨rfl, rfl, rfl, rfl, rfl⟩
    rfl
  · rintro d rfl
    simp [ResourceDictionary.valid_iff]
  · rintro d rfl
    simp [ResourceDictionary.written]

end Decoder

namespace SetterValue

/-- The byte that a value begins with. -/
def tag : SetterValue → UInt8
  | constant _ => 0
  | object _ => 1
  | staticResource _ => 2
  | themeResource _ => 3

/-- What follows that byte. -/
def body : SetterValue → Written
  | constant value => value.written
  | object token => token.written
  | staticResource key => key.written
  | themeResource key => key.written

theorem written_eq (v : SetterValue) : v.written = .byte v.tag ++ v.body := by
  cases v <;> rfl

/-- What reading the value logs. -/
def log (v : SetterValue) : Log := AnyRef.log v.references

end SetterValue

namespace Decoder

theorem reads_setterValue (scope : Scope) :
    Reads (setterValue scope) SetterValue.written (SetterValue.Valid scope Utf16.Countable)
      SetterValue.log := by
  refine Reads.position fun start => Reads.lead SetterValue.tag (reads_byte _)
    (v := SetterValue.body) ?_ (fun _ _ => trivial) fun v _ => v.written_eq
  intro b _
  refine Reads.ite (fun hb => ?_) fun hconstant => Reads.ite (fun hb => ?_) fun hobject =>
    Reads.ite (fun hb => ?_) fun hstatic => Reads.ite (fun hb => ?_) fun htheme =>
    Reads.fail fun v hv => ?_
  · refine Reads.map (reads_constant scope) ?_ (fun _ _ => rfl) fun _ _ => rfl
    intro v
    cases v <;> simp [SetterValue.tag, SetterValue.Valid, hb]
  · refine Reads.map (reads_token _) ?_ (fun _ _ => rfl) fun _ _ => rfl
    intro v
    cases v <;> simp [SetterValue.tag, SetterValue.Valid, hb]
  · refine Reads.map (reads_stringId scope _) ?_ (fun _ _ => rfl) fun _ _ => rfl
    intro v
    cases v <;> simp [SetterValue.tag, SetterValue.Valid, hb]
  · refine Reads.map (reads_stringId scope _) ?_ (fun _ _ => rfl) fun _ _ => rfl
    intro v
    cases v <;> simp [SetterValue.tag, SetterValue.Valid, hb]
  · obtain ⟨rfl, -⟩ := hv
    cases v with
    | constant value => exact hconstant rfl
    | object token => exact hobject rfl
    | staticResource key => exact hstatic rfl
    | themeResource key => exact htheme rfl

theorem reads_setter (scope : Scope) (version : Nat) :
    Reads (setter scope version) (Setter.written version)
      (Setter.Valid scope Utf16.Countable version) fun s => AnyRef.log s.references := by
  refine Reads.record (Reads.field Setter.property (reads_ref scope .property _) fun property =>
    Reads.field Setter.value (reads_setterValue scope) fun value =>
    Reads.field Setter.isMutable (reads_since _ _ (reads_bool _)) fun isMutable =>
    Reads.made ⟨rfl, rfl, rfl, trivial⟩ ?_) ?_ ?_ ?_
  · rintro s ⟨rfl, rfl, rfl, -⟩
    rfl
  · intro s
    simp [Setter.valid_iff]
  · intro s
    simp [Setter.written]
  · intro s
    simp [Setter.references, SetterValue.log]

theorem reads_style (scope : Scope) (version : Nat) :
    Reads (style scope version) Style.written
      (fun d => d.version = version ∧ d.Valid scope Utf16.Countable)
      fun d => AnyRef.log (d.setters.flatMap Setter.references) := by
  refine Reads.recordWith (fun d => d.version = version)
    (Reads.field Style.setters (reads_list _ (reads_setter scope version)) fun setters =>
    Reads.made ?_ ?_) ?_ ?_ ?_
  · exact ⟨rfl, rfl⟩
  · rintro d ⟨rfl, rfl⟩
    rfl
  · rintro d rfl
    simp [Style.Valid]
  · rintro d rfl
    simp [Style.written]
  · intro d _
    rw [AnyRef.log_flatMap, List.append_nil]

theorem reads_eagerProperty (scope : Scope) :
    Reads (eagerProperty scope) EagerProperty.written
      (EagerProperty.Valid scope Utf16.Countable) fun p => AnyRef.log p.references := by
  refine Reads.record
    (Reads.field EagerProperty.property (reads_ref scope .property _) fun property =>
    Reads.field EagerProperty.value (reads_constant scope) fun value =>
    Reads.made ⟨rfl, rfl, trivial⟩ ?_) ?_ ?_ ?_
  · rintro p ⟨rfl, rfl, -⟩
    rfl
  · intro p
    simp [EagerProperty.valid_iff]
  · intro p
    simp [EagerProperty.written]
  · intro p
    simp [EagerProperty.references, Constant.log]

theorem reads_deferredElement (scope : Scope) (version : Nat) :
    Reads (deferredElement scope version) DeferredElement.written
      (fun d => d.version = version ∧ d.Valid scope Utf16.Countable)
      fun d => AnyRef.log (d.properties.flatMap EagerProperty.references) := by
  refine Reads.recordWith (fun d => d.version = version)
    (Reads.field DeferredElement.name (reads_stringId scope _) fun name =>
    Reads.field DeferredElement.properties
      (reads_list _ (reads_eagerProperty scope)) fun properties =>
    Reads.field DeferredElement.realize (reads_since _ _ (reads_bool _)) fun realize =>
    Reads.field DeferredElement.hasLoadBinding (reads_since _ _ (reads_bool _)) fun binding =>
    Reads.made ?_ ?_) ?_ ?_ ?_
  · exact ⟨rfl, rfl, rfl, rfl, rfl⟩
  · rintro d ⟨rfl, rfl, rfl, rfl, rfl⟩
    rfl
  · rintro d rfl
    simp [DeferredElement.valid_iff]
  · rintro d rfl
    simp [DeferredElement.written]
  · intro d _
    simp [AnyRef.log_flatMap]

end Decoder

/-! ### The number of a layout -/

namespace RuntimeLayout

theorem number_of_ofNumber? {n : Int32} {layout : RuntimeLayout} (h : ofNumber? n = some layout) :
    layout.number = n := by
  rw [ofNumber?] at h
  simpa using List.find?_some h

theorem mem_of_ofNumber? {n : Int32} {layout : RuntimeLayout} (h : ofNumber? n = some layout) :
    layout ∈ all :=
  List.mem_of_find?_eq_some h

theorem ofNumber?_number {layout : RuntimeLayout} (h : layout ∈ all) :
    ofNumber? layout.number = some layout := by
  have hall : ∀ layout ∈ all, ofNumber? layout.number = some layout := by decide
  exact hall layout h

end RuntimeLayout

namespace Decoder

theorem reads_runtimeDataBody (scope : Scope) (layout : RuntimeLayout) :
    Reads (runtimeDataBody scope layout) RuntimeData.body
      (fun d => d.layout = layout ∧ d.BodyValid scope Utf16.Countable) RuntimeData.log := by
  obtain ⟨family, version⟩ := layout
  cases family with
  | visualStateGroups =>
      refine Reads.map (reads_visualStateGroups scope version) ?_ (fun _ _ => rfl) fun _ _ => rfl
      intro d
      cases d <;> simp [RuntimeData.layout, RuntimeData.BodyValid]
  | resourceDictionary =>
      refine Reads.map (reads_resourceDictionary scope version) ?_ (fun _ _ => rfl) fun _ _ => rfl
      intro d
      cases d <;> simp [RuntimeData.layout, RuntimeData.BodyValid]
  | style =>
      refine Reads.map (reads_style scope version) ?_ (fun _ _ => rfl) fun _ _ => rfl
      intro d
      cases d <;> simp [RuntimeData.layout, RuntimeData.BodyValid]
  | deferredElement =>
      refine Reads.map (reads_deferredElement scope version) ?_ (fun _ _ => rfl) fun _ _ => rfl
      intro d
      cases d <;> simp [RuntimeData.layout, RuntimeData.BodyValid]

theorem reads_runtimeData (scope : Scope) :
    Reads (runtimeData scope) RuntimeData.written (RuntimeData.Valid scope Utf16.Countable)
      RuntimeData.log := by
  refine Reads.tagged RuntimeData.layout RuntimeLayout.number (runtimeDataBody scope)
    (reads_varint _) ?_ ?_ ?_ (fun _ _ => RuntimeLayout.number_of_ofNumber?)
    fun d hd => RuntimeLayout.ofNumber?_number hd.1
  · intro start n layout h
    simp only [h]
  · intro start n h
    simp only [h]
    exact ⟨_, rfl⟩
  · intro n layout h
    refine (reads_runtimeDataBody scope layout).congr (fun d => ?_) (fun _ _ => rfl)
      fun _ _ => rfl
    refine and_congr_right fun hlayout => and_iff_right ?_
    rw [hlayout]
    exact RuntimeLayout.mem_of_ofNumber? h

end Decoder

end XamlBinary
