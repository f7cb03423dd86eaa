import Mathlib.Algebra.GroupWithZero.Nat
import XamlBinary.File.Basic
import XamlBinary.Text.Utf16

/-!
How much there is in a file.  Every entry of a table, every unit of a text,
every substream, node and line, and every item of a list in custom runtime
data counts as one element, at whatever depth it lies.
-/

namespace XamlBinary

/-- The items of a list and, in each of them, what it holds. -/
def elementsOf {α : Type} (inner : α → Nat) (items : List α) : Nat :=
  items.length + (items.map inner).sum

/-- The number of UTF-16 units of a text. -/
def Utf16.unitCount (text : String) : Nat := (encode text.toList).length

def Metadata.elements (m : Metadata) : Nat :=
  elementsOf Utf16.unitCount m.strings.toList + m.assemblies.size + m.typeNamespaces.size +
    m.types.size + m.properties.size + m.xmlNamespaces.size

def Constant.elements : Constant → Nat
  | uniqueString text => Utf16.unitCount text
  | _ => 0

def VisualState.elements (s : VisualState) : Nat :=
  s.propertySetters.length + elementsOf List.length s.triggerValues +
    s.triggerCollections.length + s.extensibleTriggers.length + s.staticResourceTriggers.length

def VisualStateGroups.elements (d : VisualStateGroups) : Nat :=
  d.groups.length + elementsOf VisualState.elements d.states + d.transitions.length +
    d.seenNames.length

def ResourceDictionary.elements (d : ResourceDictionary) : Nat :=
  d.explicitKeys.length + d.implicitKeys.length + d.xNames.length + d.conditionalTokens.length

def SetterValue.elements : SetterValue → Nat
  | constant value => value.elements
  | _ => 0

def RuntimeData.elements : RuntimeData → Nat
  | visualStateGroups data => data.elements
  | resourceDictionary data => data.elements
  | style data => elementsOf (·.value.elements) data.setters
  | deferredElement data => elementsOf (·.value.elements) data.properties

def Node.elements : Node → Nat
  | .value constant => constant.elements
  | .runtimeData data _ => data.elements
  | _ => 0

def Substream.elements (s : Substream) : Nat :=
  elementsOf (·.node.elements) s.nodes + s.lines.length

def File.elements (file : File) : Nat :=
  file.metadata.elements + elementsOf Substream.elements file.substreams

end XamlBinary
