import XamlBinary.File.Floats
import XamlBinary.File.References
import XamlBinary.Json.Path

/-!
The places in a rendered file at which something is looked up: the name behind
a string id or a reference, a real, or what the file may lack.  They are given
from the file alone, in the order of the text, and say what is to be seen at
the end of which path.  Everything else that is rendered is a whole number, a
truth value, or a text that is made from the file without its tables.
-/

namespace XamlBinary

/-- What is to be seen at a place. -/
inductive Shown where
  | string (id : StringId)
  | typeName (type : Ref .type)
  /-- A type with its namespace. -/
  | fullTypeName (type : Ref .type)
  | property (property : Ref .property)
  | xmlNamespace (xmlNamespace : Ref .xmlNamespace)
  | real (value : Single)
  /-- Something that the file does not have. -/
  | absent
deriving DecidableEq, Repr

namespace Shown

def stringId? : Shown → Option StringId
  | string id => some id
  | _ => none

def reference? : Shown → Option AnyRef
  | typeName type => some (.type type)
  | fullTypeName type => some (.type type)
  | .property ref => some (.property ref)
  | .xmlNamespace ref => some (.xmlNamespace ref)
  | string _ | real _ | absent => none

@[simp] theorem stringId?_absent : stringId? absent = none := rfl

@[simp] theorem reference?_absent : reference? absent = none := rfl

/-- Nothing can be shown of what is absent, nor of a real that is not finite. -/
def isBlank : Shown → Bool
  | real x => !x.isFinite
  | absent => true
  | _ => false

end Shown

structure Place where
  path : Json.Path
  shown : Shown
deriving DecidableEq, Repr

namespace Place

def here (shown : Shown) : List Place := [⟨[], shown⟩]

/-- The places, seen from one step above. -/
def under (step : Json.Step) (places : List Place) : List Place :=
  places.map fun p => ⟨step :: p.path, p.shown⟩

/-- The places in the fields of an object. -/
def fields (entries : List (String × List Place)) : List Place :=
  entries.flatMap fun entry => under (.field entry.1) entry.2

/-- The places in the items of a list. -/
def items {α : Type} (places : α → List Place) (list : List α) : List Place :=
  list.zipIdx.flatMap fun entry => under (.item entry.2) (places entry.1)

def string (id : StringId) : List Place := here (.string id)

def optional {α : Type} (places : α → List Place) : Option α → List Place
  | some a => places a
  | none => here .absent

end Place

open Place

namespace Metadata

/-- The string ids of the tables. -/
def stringIds (m : Metadata) : List StringId :=
  m.assemblies.toList.map (·.name) ++ m.typeNamespaces.toList.map (·.name) ++
    m.types.toList.map (·.name) ++ m.properties.toList.map (·.name) ++ m.xmlNamespaces.toList

def places (m : Metadata) : List Place :=
  fields [
    ("assemblies", items (fun a => fields [("name", string a.name)]) m.assemblies.toList),
    ("typeNamespaces", items (fun n => fields [("name", string n.name)]) m.typeNamespaces.toList),
    ("types", items (fun t => fields [("name", string t.name)]) m.types.toList),
    ("properties", items (fun p => fields [("name", string p.name)]) m.properties.toList),
    ("xmlNamespaces", items string m.xmlNamespaces.toList)]

end Metadata

namespace Constant

def typePlaces : Constant → List Place
  | enumeration type _ => here (.typeName type)
  | _ => []

def valuePlaces : Constant → List Place
  | nullString => here .absent
  | float value => here (.real value)
  | gridLength .pixel value => here (.real value)
  | sharedString id => string id
  | thickness value => items (fun x => here (.real x)) value.floats
  | _ => []

def places (c : Constant) : List Place :=
  fields [("type", c.typePlaces), ("value", c.valuePlaces)]

end Constant

def VisualState.places (s : VisualState) : List Place :=
  fields [
    ("name", string s.name),
    ("storyboardToken", optional (fun _ => []) s.storyboard)]

def VisualTransition.places (t : VisualTransition) : List Place :=
  fields [("from", optional string t.source), ("to", optional string t.target)]

def VisualStateGroups.places (d : VisualStateGroups) : List Place :=
  fields [
    ("groups", items (fun g => fields [("name", string g.name)]) d.groups),
    ("states", items VisualState.places d.states),
    ("transitions", items VisualTransition.places d.transitions),
    ("seenNameDirectives", items string d.seenNames)]

def KeyedToken.places (k : KeyedToken) : List Place := fields [("key", string k.key)]

def ResourceDictionary.places (d : ResourceDictionary) : List Place :=
  fields [
    ("explicitKeys", items KeyedToken.places d.explicitKeys),
    ("implicitKeys", items KeyedToken.places d.implicitKeys),
    ("xNameKeys", items string d.xNames)]

def SetterValue.places : SetterValue → List Place
  | constant value => fields [("constant", value.places)]
  | object _ => []
  | staticResource key => fields [("staticResource", string key)]
  | themeResource key => fields [("themeResource", string key)]

def Setter.places (s : Setter) : List Place :=
  fields [("property", here (.property s.property)), ("value", s.value.places)]

def EagerProperty.places (p : EagerProperty) : List Place :=
  fields [("property", here (.property p.property)), ("value", p.value.places)]

def RuntimeData.places : RuntimeData → List Place
  | visualStateGroups data => data.places
  | resourceDictionary data => data.places
  | style data => fields [("setters", items Setter.places data.setters)]
  | deferredElement data =>
      fields [
        ("name", string data.name),
        ("nonDeferredProperties", items EagerProperty.places data.properties)]

def Node.places : Node → List Place
  | .startObject type => fields [("objectType", here (.fullTypeName type))]
  | .startProperty property => fields [("property", here (.property property))]
  | .text id => fields [("text", string id)]
  | .value constant => fields [("value", constant.places)]
  | .namespaceDeclaration shortName xmlNamespace =>
      fields [("prefix", string shortName), ("namespace", here (.xmlNamespace xmlNamespace))]
  | .runtimeData data _ => fields [("customRuntimeData", fields [("data", data.places)])]
  | _ => []

def Substream.places (s : Substream) : List Place :=
  fields [("nodes", items (fun placed => placed.node.places) s.nodes)]

def File.places (f : File) : List Place :=
  fields [
    ("header", fields [("version", optional (fun _ => []) f.header.version)]),
    ("metadata", f.metadata.places),
    ("substreams", items Substream.places f.substreams)]

end XamlBinary
