import XamlBinary.File.Places
import XamlBinary.File.Rendering

/-!
The places of a file are in its rendering.  Each part of a file is rendered
into a value of which the places of that part are a map: at the end of every
path stands what is to be seen there, and no part of the value that is off the
map is null.
-/

namespace XamlBinary

open Place

variable {m : Metadata}

/-- What is to be seen at a place, as it is rendered. -/
def Shown.render (m : Metadata) : Shown → Json
  | string id => m.renderString id
  | typeName type => .str (m.typeName type)
  | fullTypeName type => .str (m.fullTypeName type)
  | .property ref => m.renderProperty ref
  | .xmlNamespace ref => .str (m.xmlNamespace ref)
  | real x => .real x
  | absent => .null

/-- The places are those of the value. -/
structure Mapped (m : Metadata) (value : Json) (places : List Place) : Prop where
  found : ∀ p ∈ places, value.at? p.path = some (p.shown.render m)
  nulls : value.nulls = (places.filter fun p => (p.shown.render m).isNull).map (·.path)

/-- Field by field; fields without any place are passed over. -/
inductive MappedFields (m : Metadata) :
    List (String × Json) → List (String × List Place) → Prop
  | nil : MappedFields m [] []
  | field (key : String) {value : Json} {places : List Place} {rest : List (String × Json)}
      {later : List (String × List Place)} (h : Mapped m value places)
      (hrest : MappedFields m rest later) :
      MappedFields m ((key, value) :: rest) ((key, places) :: later)
  | plain (key : String) {value : Json} {rest : List (String × Json)}
      {later : List (String × List Place)} (h : Mapped m value [])
      (hrest : MappedFields m rest later) : MappedFields m ((key, value) :: rest) later

/-! ### Rules for each kind of value -/

/-- What is seen at a place has no fields. -/
theorem Shown.render_ne_obj (shown : Shown) (fields : List (String × Json)) :
    shown.render m ≠ .obj fields := by
  cases shown with
  | string id =>
      rw [render, Metadata.renderString]
      cases m.string? id <;> exact Json.noConfusion
  | typeName | fullTypeName | property | xmlNamespace | real | absent => exact Json.noConfusion

theorem Shown.nulls_render (shown : Shown) :
    (shown.render m).nulls = if (shown.render m).isNull then [[]] else [] := by
  cases shown with
  | string id =>
      rw [render, Metadata.renderString]
      rcases m.string? id with _ | text <;> simp [Json.ofString?, Json.nulls, Json.isNull]
  | real x => by_cases hfinite : x.isFinite <;> simp [render, Json.nulls, Json.isNull, hfinite]
  | absent => simp [render, Json.nulls, Json.isNull]
  | typeName | fullTypeName | property | xmlNamespace =>
      simp [render, Metadata.renderProperty, Json.nulls, Json.isNull]

namespace Mapped

theorem here (shown : Shown) : Mapped m (shown.render m) (here shown) where
  found := by simp [Place.here]
  nulls := by
    rw [Shown.nulls_render]
    cases hnull : (shown.render m).isNull <;> simp [Place.here, hnull]

theorem plain {value : Json} (h : value.nulls = []) : Mapped m value [] where
  found := by simp
  nulls := by simp [h]

theorem nulls_under {value : Json} {places : List Place} (h : Mapped m value places)
    (step : Json.Step) :
    value.nulls.map (step :: ·) =
      ((under step places).filter fun p => (p.shown.render m).isNull).map (·.path) := by
  simp [h.nulls, under, List.filter_map, Function.comp_def]

theorem found_under {value part : Json} {places : List Place} (h : Mapped m part places)
    {step : Json.Step} (hpart : value.child? step = some part) :
    ∀ p ∈ under step places, value.at? p.path = some (p.shown.render m) := by
  refine List.forall_mem_map.mpr fun p hp => ?_
  simp [Json.at?, hpart, h.found p hp]

theorem list {α : Type} {render : α → Json} {places : α → List Place} {items : List α}
    (h : ∀ a ∈ items, Mapped m (render a) (places a)) :
    Mapped m (Json.list render items) (Place.items places items) where
  found := by
    refine List.forall_mem_flatMap.mpr fun entry hentry => ?_
    have hitem : items[entry.2]? = some entry.1 := List.mem_zipIdx_iff_getElem?.mp hentry
    refine (h entry.1 (List.mem_of_getElem? hitem)).found_under ?_
    simp [Json.list, Json.child?, hitem]
  nulls := by
    show Json.nullItems 0 (items.map render) = _
    rw [Place.items, List.filter_flatMap, List.map_flatMap]
    generalize 0 = start
    induction items generalizing start with
    | nil => rfl
    | cons a later ih =>
        have hlater := ih (fun b hb => h b (List.mem_cons_of_mem a hb)) (start + 1)
        simp only [List.map_cons, Json.nullItems, hlater, List.zipIdx_cons, List.flatMap_cons,
          (h a List.mem_cons_self).nulls_under]

/-- In front of other fields, a field with a key of its own hides nothing of them. -/
theorem at?_cons {fields : List (String × Json)} {key : String} (hkey : key ∉ fields.map Prod.fst)
    {path : Json.Path} {shown : Shown} (value : Json)
    (h : (Json.obj fields).at? path = some (shown.render m)) :
    (Json.obj ((key, value) :: fields)).at? path = some (shown.render m) := by
  rcases path with _ | ⟨other | index, path⟩
  · exact absurd (Option.some.inj h).symm (shown.render_ne_obj fields)
  · obtain ⟨part, hlookup, -⟩ := Option.bind_eq_some_iff.mp h
    obtain ⟨first, last, rfl, -⟩ := List.lookup_eq_some_iff.mp hlookup
    have hne : (other == key) = false := by
      refine beq_eq_false_iff_ne.mpr fun heq => hkey ?_
      simp [← heq]
    simpa [List.lookup_cons, hne] using h
  · cases h

theorem obj {fields : List (String × Json)} {entries : List (String × List Place)}
    (h : MappedFields m fields entries) (hkeys : (fields.map Prod.fst).Nodup) :
    Mapped m (.obj fields) (Place.fields entries) := by
  induction h with
  | nil => exact .plain rfl
  | @field key value places rest later h hrest ih =>
      obtain ⟨hkey, hkeys⟩ := List.nodup_cons.mp hkeys
      refine ⟨List.forall_mem_append.mpr ⟨h.found_under (by simp [Json.child?]), ?_⟩, ?_⟩
      · exact fun p hp => at?_cons hkey value ((ih hkeys).found p hp)
      · show value.nulls.map (.field key :: ·) ++ (Json.obj rest).nulls = _
        rw [h.nulls_under, (ih hkeys).nulls, ← List.map_append, ← List.filter_append]
        rfl
  | @plain key value rest later h hrest ih =>
      obtain ⟨hkey, hkeys⟩ := List.nodup_cons.mp hkeys
      refine ⟨fun p hp => at?_cons hkey value ((ih hkeys).found p hp), ?_⟩
      show value.nulls.map (.field key :: ·) ++ (Json.obj rest).nulls = _
      rw [h.nulls, (ih hkeys).nulls]
      rfl

end Mapped

/-! ### The parts of a file -/

section Parts

open Mapped Metadata

theorem mapped_string (id : StringId) : Mapped m (m.renderString id) (string id) :=
  here (.string id)

theorem mapped_optional (id : Option StringId) :
    Mapped m (m.renderOptional id) (optional string id) := by
  cases id with
  | some id => exact mapped_string id
  | none => exact here .absent

theorem mapped_storyboard (token : Option Token) :
    Mapped m (renderStoryboard token) (optional (fun _ => []) token) := by
  cases token with
  | some token => exact plain rfl
  | none => exact here .absent

theorem mapped_version (version : Option Version) :
    Mapped m (Header.renderVersion version) (optional (fun _ => []) version) := by
  cases version with
  | some version => exact plain rfl
  | none => exact here .absent

/-- Lists that hold no place. -/
theorem mapped_plain_list {α : Type} {render : α → Json} (items : List α)
    (h : ∀ a ∈ items, (render a).nulls = []) : Mapped m (Json.list render items) [] := by
  have hlist : Mapped m (Json.list render items) (Place.items (fun _ => []) items) :=
    list fun a ha => plain (h a ha)
  have hnone : Place.items (fun _ : α => []) items = [] := by simp [Place.items, under]
  rwa [hnone] at hlist

theorem mapped_tokens (tokens : List Token) : Mapped m (.tokens tokens) [] :=
  mapped_plain_list tokens fun _ _ => rfl

theorem mapped_metadata : Mapped m m.render m.places := by
  refine obj (.plain _ (mapped_plain_list _ fun _ _ => rfl) ?_) (by simp)
  refine .field _ (list fun a _ => ?_) (.field _ (list fun n _ => ?_) (.field _ (list fun t _ => ?_)
    (.field _ (list fun p _ => ?_) (.field _ (list fun id _ => mapped_string id) .nil))))
  · exact obj (.plain _ (plain rfl) (.field _ (mapped_string a.name) .nil)) (by simp)
  · exact obj (.plain _ (plain rfl) (.field _ (mapped_string n.name) .nil)) (by simp)
  · exact obj (.plain _ (plain rfl) (.plain _ (plain rfl) (.field _ (mapped_string t.name) .nil)))
      (by simp)
  · exact obj (.plain _ (plain rfl) (.plain _ (plain rfl) (.field _ (mapped_string p.name) .nil)))
      (by simp)

theorem mapped_constantType (c : Constant) :
    Mapped m (.str (m.constantTypeName c)) c.typePlaces := by
  cases c with
  | enumeration type value => exact here (.typeName type)
  | nullString | bool | color | float | gridLength | sharedString | signed | thickness
  | uniqueString => exact plain rfl

theorem mapped_value (c : Constant) : Mapped m (m.renderValue c) c.valuePlaces := by
  cases c with
  | nullString => exact here .absent
  | float x => exact here (.real x)
  | gridLength unit x =>
      cases unit with
      | pixel => exact here (.real x)
      | auto | star => exact plain rfl
  | sharedString id => exact mapped_string id
  | thickness t =>
      have h : ∀ x ∈ t.floats, Mapped m (.real x) _ := fun x _ => here (.real x)
      exact list h
  | enumeration | bool | color | signed | uniqueString => exact plain rfl

theorem mapped_constant (c : Constant) : Mapped m (m.renderConstant c) c.places :=
  obj (.field _ (mapped_constantType c) (.field _ (mapped_value c) .nil)) (by simp)

theorem mapped_state (s : VisualState) : Mapped m (m.renderState s) s.places := by
  refine obj (.field _ (mapped_string s.name) (.plain _ (plain rfl)
    (.field _ (mapped_storyboard s.storyboard) (.plain _ (mapped_tokens _) (.plain _ ?_
      (.plain _ (mapped_tokens _) (.plain _ (mapped_tokens _) (.plain _ (mapped_tokens _)
        .nil)))))))) (by simp)
  refine mapped_plain_list _ fun values _ => ?_
  exact (mapped_plain_list (m := m) values fun _ _ => rfl).nulls

theorem mapped_transition (t : VisualTransition) : Mapped m (m.renderTransition t) t.places :=
  obj (.field _ (mapped_optional t.source) (.field _ (mapped_optional t.target)
    (.plain _ (plain rfl) .nil))) (by simp)

theorem mapped_keyedToken (k : KeyedToken) : Mapped m (m.renderKeyedToken k) k.places :=
  obj (.field _ (mapped_string k.key) (.plain _ (plain rfl) .nil)) (by simp)

theorem mapped_setterValue (v : SetterValue) : Mapped m (m.renderSetterValue v) v.places := by
  cases v with
  | constant c => exact obj (.field _ (mapped_constant c) .nil) (by simp)
  | object token => exact obj (.plain _ (plain rfl) .nil) (by simp)
  | staticResource key => exact obj (.field _ (mapped_string key) .nil) (by simp)
  | themeResource key => exact obj (.field _ (mapped_string key) .nil) (by simp)

theorem mapped_setter (s : Setter) : Mapped m (m.renderSetter s) s.places :=
  obj (.field _ (here (.property s.property)) (.field _ (mapped_setterValue s.value)
    (.plain _ (plain rfl) .nil))) (by simp)

theorem mapped_eagerProperty (p : EagerProperty) :
    Mapped m (m.renderEagerProperty p) p.places :=
  obj (.field _ (here (.property p.property)) (.field _ (mapped_constant p.value) .nil)) (by simp)

theorem mapped_runtimeBody (d : RuntimeData) : Mapped m (m.renderRuntimeBody d) d.places := by
  cases d with
  | visualStateGroups d =>
      refine obj (.plain _ (plain rfl) (.field _ (list fun g _ => ?_)
        (.field _ (list fun s _ => mapped_state s) (.field _ (list fun t _ => mapped_transition t)
          (.field _ (list fun id _ => mapped_string id) (.plain _ (plain rfl) .nil)))))) (by simp)
      exact obj (.field _ (mapped_string g.name)
        (.plain _ (plain rfl) (.plain _ (plain rfl) .nil))) (by simp)
  | resourceDictionary d =>
      exact obj (.field _ (list fun k _ => mapped_keyedToken k)
        (.field _ (list fun k _ => mapped_keyedToken k)
          (.field _ (list fun id _ => mapped_string id) (.plain _ (mapped_tokens _) .nil))))
        (by simp)
  | style d => exact obj (.field _ (list fun s _ => mapped_setter s) .nil) (by simp)
  | deferredElement d =>
      exact obj (.field _ (mapped_string d.name) (.field _ (list fun p _ => mapped_eagerProperty p)
        (.plain _ (plain rfl) (.plain _ (plain rfl) .nil)))) (by simp)

/-- A node is rendered with its offset and kind in front of its own fields. -/
theorem mapped_nodeFields {placed : PlacedNode} {entries : List (String × List Place)}
    (h : MappedFields m (m.nodeFields placed.node) entries)
    (hkeys : ("offset" :: "node" :: (m.nodeFields placed.node).map Prod.fst).Nodup) :
    Mapped m (m.renderNode placed) (fields entries) :=
  obj (.plain _ (plain rfl) (.plain _ (plain rfl) h)) hkeys

theorem mapped_runtimeData (data : RuntimeData) :
    Mapped m (m.renderRuntimeData data) (fields [("data", data.places)]) :=
  obj (.plain _ (plain rfl) (.plain _ (plain rfl) (.field _ (mapped_runtimeBody data) .nil)))
    (by simp)

theorem mapped_node (placed : PlacedNode) : Mapped m (m.renderNode placed) placed.node.places := by
  obtain ⟨offset, node⟩ := placed
  cases node with
  | startObject type =>
      exact mapped_nodeFields (.field _ (here (.fullTypeName type)) .nil) (by simp [nodeFields])
  | startProperty property =>
      exact mapped_nodeFields (.field _ (here (.property property)) .nil) (by simp [nodeFields])
  | text id => exact mapped_nodeFields (.field _ (mapped_string id) .nil) (by simp [nodeFields])
  | value c => exact mapped_nodeFields (.field _ (mapped_constant c) .nil) (by simp [nodeFields])
  | namespaceDeclaration shortName xmlNamespace =>
      exact mapped_nodeFields (.field _ (mapped_string shortName)
        (.field _ (here (.xmlNamespace xmlNamespace)) .nil)) (by simp [nodeFields])
  | runtimeData data substream =>
      exact mapped_nodeFields (.field _ (mapped_runtimeData data) (.plain _ (plain rfl) .nil))
        (by simp [nodeFields])
  | lineInfo | lineInfoAbsolute | endObject | endProperty | endOfAttributes | endOfStream =>
      exact plain rfl

theorem mapped_substream (s : Substream) : Mapped m (m.renderSubstream s) s.places := by
  refine obj (.field _ (list fun placed _ => mapped_node placed) (.plain _ ?_
    (.plain _ (plain rfl) (.plain _ (plain rfl) .nil)))) (by simp)
  exact mapped_plain_list _ fun _ _ => rfl

/-- The rendering of a file, with its places. -/
theorem mapped_file (f : File) : Mapped f.metadata f.render f.places := by
  refine obj (.field _ ?_ (.field _ mapped_metadata
    (.field _ (list fun s _ => mapped_substream s) .nil))) (by simp)
  exact obj (.plain _ (plain rfl) (.plain _ (plain rfl)
    (.field _ (mapped_version f.header.version) .nil))) (by simp)

end Parts

end XamlBinary
