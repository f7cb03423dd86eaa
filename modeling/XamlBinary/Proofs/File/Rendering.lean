import XamlBinary.Proofs.File.Places
import XamlBinary.Proofs.Metadata.Names

/-!
The rendering of a file that was read.  No lookup in it comes to nothing: each
string id is shown as its string and each reference by its name, and null
stands only for what the file does not have and for reals that are not finite.
-/

namespace XamlBinary

/-! ### What the places hold -/

namespace Place

variable {β : Type}

/-- What is picked out of the things to be seen. -/
def collect (pick : Shown → Option β) (places : List Place) : List β :=
  places.filterMap fun p => pick p.shown

variable (pick : Shown → Option β)

@[simp] theorem collect_nil : collect pick [] = [] := rfl

@[simp] theorem collect_append (first second : List Place) :
    collect pick (first ++ second) = collect pick first ++ collect pick second :=
  List.filterMap_append

@[simp] theorem collect_here (shown : Shown) : collect pick (here shown) = (pick shown).toList := by
  cases h : pick shown <;> simp [collect, here, h]

@[simp] theorem collect_string (id : StringId) :
    collect pick (string id) = (pick (.string id)).toList :=
  collect_here pick (.string id)

@[simp] theorem collect_under (step : Json.Step) (places : List Place) :
    collect pick (under step places) = collect pick places := by
  simp [collect, under, List.filterMap_map]

@[simp] theorem collect_fields (entries : List (String × List Place)) :
    collect pick (fields entries) = entries.flatMap fun entry => collect pick entry.2 := by
  induction entries with
  | nil => rfl
  | cons entry later ih => simp [fields] at ih ⊢; exact ih

@[simp] theorem collect_items {α : Type} (places : α → List Place) (list : List α) :
    collect pick (items places list) = list.flatMap fun a => collect pick (places a) := by
  rw [items]
  generalize 0 = start
  induction list generalizing start with
  | nil => rfl
  | cons a later ih => simp [ih]

@[simp] theorem collect_optional {α : Type} (places : α → List Place) (a : Option α) :
    collect pick (optional places a) =
      (a.toList.flatMap fun a => collect pick (places a)) ++
        if a.isSome then [] else (pick .absent).toList := by
  cases a <;> simp [optional]

end Place

open Place

/-! ### The string ids and references to be seen -/

section Collect

open Shown

@[simp] theorem Metadata.collect_stringId (m : Metadata) :
    collect stringId? m.places = m.stringIds := by
  simp [places, stringIds, stringId?, List.map_eq_flatMap]

@[simp] theorem Metadata.collect_reference (m : Metadata) :
    collect reference? m.places = [] := by
  simp [places, reference?]

@[simp] theorem Constant.collect_stringId (c : Constant) :
    collect stringId? c.places = c.stringIds := by
  cases c with
  | gridLength unit x => cases unit <;> rfl
  | enumeration | nullString | bool | color | float | sharedString | signed | thickness
  | uniqueString => rfl

@[simp] theorem Constant.collect_reference (c : Constant) :
    collect reference? c.places = c.references := by
  cases c with
  | gridLength unit x => cases unit <;> rfl
  | enumeration | nullString | bool | color | float | sharedString | signed | thickness
  | uniqueString => rfl

@[simp] theorem SetterValue.collect_stringId (v : SetterValue) :
    collect stringId? v.places = v.stringIds := by
  cases v <;> simp [places, stringIds, stringId?]

@[simp] theorem SetterValue.collect_reference (v : SetterValue) :
    collect reference? v.places = v.references := by
  cases v <;> simp [places, references, reference?]

@[simp] theorem VisualState.collect_stringId (s : VisualState) :
    collect stringId? s.places = [s.name] := by
  cases h : s.storyboard <;> simp [places, h, stringId?]

@[simp] theorem VisualTransition.collect_stringId (t : VisualTransition) :
    collect stringId? t.places = t.stringIds := by
  simp [places, stringIds, stringId?]

@[simp] theorem RuntimeData.collect_stringId (d : RuntimeData) :
    collect stringId? d.places = d.stringIds := by
  cases d with
  | visualStateGroups d =>
      simp [places, VisualStateGroups.places, stringIds,
        VisualStateGroups.stringIds, stringId?, List.map_eq_flatMap]
  | resourceDictionary d =>
      simp [places, ResourceDictionary.places, KeyedToken.places, stringIds,
        ResourceDictionary.stringIds, stringId?, List.map_eq_flatMap]
  | style d => simp [places, Setter.places, stringIds, stringId?]
  | deferredElement d => simp [places, EagerProperty.places, stringIds, stringId?]

@[simp] theorem RuntimeData.collect_reference (d : RuntimeData) :
    collect reference? d.places = d.references := by
  cases d with
  | visualStateGroups d =>
      simp [places, VisualStateGroups.places, VisualState.places, VisualTransition.places,
        references, reference?]
  | resourceDictionary d =>
      simp [places, ResourceDictionary.places, KeyedToken.places, references, reference?]
  | style d =>
      have hsetter (s : Setter) : collect reference? s.places = s.references := by
        simp [Setter.places, Setter.references, reference?]
      simp [places, references, hsetter]
  | deferredElement d =>
      have hproperty (p : EagerProperty) : collect reference? p.places = p.references := by
        simp [EagerProperty.places, EagerProperty.references, reference?]
      simp [places, references, hproperty, reference?]

@[simp] theorem Node.collect_stringId (n : Node) : collect stringId? n.places = n.stringIds := by
  cases n <;> simp [places, stringIds, stringId?]

@[simp] theorem Node.collect_reference (n : Node) :
    collect reference? n.places = n.references := by
  cases n <;> simp [places, references, reference?]

@[simp] theorem Substream.collect_stringId (s : Substream) :
    collect stringId? s.places = s.stringIds := by
  simp [places, stringIds]

@[simp] theorem Substream.collect_reference (s : Substream) :
    collect reference? s.places = s.references := by
  simp [places, references]

theorem File.collect_stringId (f : File) :
    collect stringId? f.places = f.metadata.stringIds ++ f.stringIds := by
  simp [places, stringIds]

theorem File.collect_reference (f : File) : collect reference? f.places = f.references := by
  simp [places, references]

end Collect

/-! ### What is seen -/

/-- A value that shows what is to be seen at a place. -/
inductive Metadata.Shows (m : Metadata) : Shown → Json → Prop
  | string {id : StringId} {text : String} (h : m.string? id = some text) :
      m.Shows (.string id) (.str text)
  | typeName {type : Ref .type} {text : String} (h : m.NamesType type text) :
      m.Shows (.typeName type) (.str text)
  | fullTypeName {type : Ref .type} {text : String} (h : m.NamesFullType type text) :
      m.Shows (.fullTypeName type) (.str text)
  | property {ref : Ref .property} {text : String} (h : m.NamesProperty ref text) :
      m.Shows (.property ref) (.str text)
  | xmlNamespace {ref : Ref .xmlNamespace} {text : String} (h : m.NamesXmlNamespace ref text) :
      m.Shows (.xmlNamespace ref) (.str text)
  | real (x : Single) : m.Shows (.real x) (.real x)
  | absent : m.Shows .absent .null

theorem Metadata.Shows.isNull_eq {m : Metadata} {shown : Shown} {value : Json}
    (h : m.Shows shown value) : value.isNull = shown.isBlank := by
  cases h <;> rfl

/-- Closed tables have an answer to all that they are asked for. -/
theorem Metadata.Closed.shows_render {m : Metadata} (h : m.Closed) {strict : Bool} {shown : Shown}
    (hid : ∀ id, shown.stringId? = some id → id.index.toNat < m.strings.size)
    (href : ∀ r, shown.reference? = some r → r.Valid (m.scope strict)) :
    m.Shows shown (shown.render m) := by
  cases shown with
  | string id =>
      obtain ⟨text, htext⟩ := exists_string (hid id rfl)
      rw [Shown.render, renderString, htext]
      exact .string htext
  | typeName type => exact .typeName (h.namesType (href _ rfl))
  | fullTypeName type => exact .fullTypeName (h.namesFullType (href _ rfl))
  | property ref => exact .property (h.namesProperty (href _ rfl))
  | xmlNamespace ref => exact .xmlNamespace (h.namesXmlNamespace (href _ rfl))
  | real x => exact .real x
  | absent => exact .absent

theorem Metadata.Closed.tables {m : Metadata} (h : m.Closed) :
    ∀ id ∈ m.stringIds, id.index.toNat < m.strings.size := by
  simp only [stringIds, List.forall_mem_append, List.forall_mem_map]
  exact ⟨⟨⟨⟨h.assemblies, fun n hn => (h.typeNamespaces n hn).2⟩, fun t ht => (h.types t ht).2⟩,
    fun p hp => (h.properties p hp).2⟩, h.xmlNamespaces⟩

theorem Metadata.at?_nodes (m : Metadata) (s : Substream) (path : Json.Path) :
    (m.renderSubstream s).at? (.field "nodes" :: path) =
      (Json.list m.renderNode s.nodes).at? path := rfl

namespace File

theorem at?_substreams (f : File) (path : Json.Path) :
    f.render.at? (.field "substreams" :: path) =
      (Json.list f.metadata.renderSubstream f.substreams).at? path := rfl

/-- Everything of a file is to be seen in its rendering. -/
structure Legible (f : File) : Prop where
  /-- At each place stands what is to be seen there. -/
  shown : ∀ p ∈ f.places, ∃ value, f.render.at? p.path = some value ∧ f.metadata.Shows p.shown value
  /-- The places are those of all string ids, -/
  stringIds : f.places.filterMap (·.shown.stringId?) = f.metadata.stringIds ++ f.stringIds
  /-- and of all references. -/
  references : f.places.filterMap (·.shown.reference?) = f.references
  /-- Null stands at the places with nothing to show, and nowhere else. -/
  nulls : f.render.nulls = (f.places.filter (·.shown.isBlank)).map (·.path)
  substreams :
    (f.render.at? [.field "substreams"]).bind Json.itemCount? = some f.substreams.length
  nodes : ∀ (i : Nat) (s : Substream), f.substreams[i]? = some s →
    (f.render.at? [.field "substreams", .item i, .field "nodes"]).bind Json.itemCount? =
      some s.nodes.length
  node : ∀ (i j : Nat) (s : Substream) (placed : PlacedNode), f.substreams[i]? = some s →
    s.nodes[j]? = some placed →
    f.render.at? [.field "substreams", .item i, .field "nodes", .item j] =
      some (f.metadata.renderNode placed)

theorem Closed.shows {f : File} {strict : Bool} (h : f.Closed strict) :
    ∀ p ∈ f.places, f.metadata.Shows p.shown (p.shown.render f.metadata) := by
  intro p hp
  have hids : ∀ id, p.shown.stringId? = some id → id.index.toNat < f.metadata.strings.size := by
    intro id hid
    have hmem : id ∈ collect Shown.stringId? f.places := List.mem_filterMap.mpr ⟨p, hp, hid⟩
    rw [f.collect_stringId] at hmem
    rcases List.mem_append.mp hmem with htable | hnode
    · exact h.metadata.tables id htable
    · exact h.stringIds id hnode
  have hrefs : ∀ r, p.shown.reference? = some r → r.Valid (f.metadata.scope strict) := by
    intro r href
    have hmem : r ∈ collect Shown.reference? f.places := List.mem_filterMap.mpr ⟨p, hp, href⟩
    rw [f.collect_reference] at hmem
    exact h.references r hmem
  exact h.metadata.shows_render hids hrefs

theorem Closed.legible {f : File} {strict : Bool} (h : f.Closed strict) : f.Legible where
  shown p hp := ⟨_, (mapped_file f).found p hp, h.shows p hp⟩
  stringIds := f.collect_stringId
  references := f.collect_reference
  nulls := by
    rw [(mapped_file f).nulls]
    congr 1
    exact List.filter_congr fun p hp => (h.shows p hp).isNull_eq
  substreams := by simp [at?_substreams, Json.list, Json.itemCount?]
  nodes i s hs := by simp [at?_substreams, Metadata.at?_nodes, Json.list, Json.itemCount?, hs]
  node i j s placed hs hplaced := by
    simp [at?_substreams, Metadata.at?_nodes, Json.list, hs, hplaced]

/-- A file that was read is rendered without any lookup coming to nothing. -/
theorem legible_of_run_read (settings : Settings) (f : File) (s s' : ByteStream) (log : Log)
    (h : (read settings).run s = .ok f s' log) : f.Legible := by
  obtain ⟨-, -, body, hread, -⟩ := run_read_eq_ok.mp h
  exact hread.closed.legible

/-- A file without a version whose nodes are a text and a NaN. -/
def blurred : File :=
  ⟨⟨30, 22, none⟩, { strings := #["a"] },
    [⟨⟨0, 10⟩, [⟨0, .text ⟨0⟩⟩, ⟨3, .value (.float ⟨0x7FC00000⟩)⟩, ⟨9, .endOfStream⟩], []⟩]⟩

/-- It is legible, up to its version and the NaN. -/
theorem blurred_legible :
    (read {}).run (.ofBytes blurred.bytes) =
        .ok blurred (.ofBytes blurred.bytes) ((read {}).run (.ofBytes blurred.bytes)).log ∧
      blurred.Legible ∧
      blurred.render.nulls = [[.field "header", .field "version"],
        [.field "substreams", .item 0, .field "nodes", .item 1, .field "value", .field "value"]] :=
  have hrun : (read {}).run (.ofBytes blurred.bytes) =
      .ok blurred (.ofBytes blurred.bytes) ((read {}).run (.ofBytes blurred.bytes)).log := by
    decide +kernel
  ⟨hrun, legible_of_run_read {} blurred _ _ _ hrun, by decide +kernel⟩

end File

end XamlBinary
