import XamlBinary.RuntimeData.Basic

/-!
The nodes of a node-stream, and the entries of the line-stream beside it that
lead from a node back to the markup it was compiled from.
-/

namespace XamlBinary

inductive NodeKind where
  | startObject
  | endObject
  | startProperty
  | endProperty
  | text
  | value
  | namespaceDeclaration
  | endOfAttributes
  | endOfStream
  | lineInfo
  | lineInfoAbsolute
  | runtimeData
deriving DecidableEq, Repr

namespace NodeKind

/-- The kinds in the order of their tags, which start at one. -/
def all : List NodeKind :=
  [startObject, endObject, startProperty, endProperty, text, value, namespaceDeclaration,
    endOfAttributes, endOfStream, lineInfo, lineInfoAbsolute, runtimeData]

def ofTag? (tag : UInt8) : Option NodeKind :=
  if tag = 0 then none else all[tag.toNat - 1]?

def tag : NodeKind → UInt8
  | startObject => 1
  | endObject => 2
  | startProperty => 3
  | endProperty => 4
  | text => 5
  | value => 6
  | namespaceDeclaration => 7
  | endOfAttributes => 8
  | endOfStream => 9
  | lineInfo => 10
  | lineInfoAbsolute => 11
  | runtimeData => 12

@[simp] theorem ofTag?_tag (kind : NodeKind) : ofTag? kind.tag = some kind := by
  cases kind <;> rfl

def name : NodeKind → String
  | startObject => "StartObject"
  | endObject => "EndObject"
  | startProperty => "StartProperty"
  | endProperty => "EndProperty"
  | text => "Text"
  | value => "Value"
  | namespaceDeclaration => "Namespace"
  | endOfAttributes => "EndOfAttributes"
  | endOfStream => "EndOfStream"
  | lineInfo => "LineInfo"
  | lineInfoAbsolute => "LineInfoAbsolute"
  | runtimeData => "CustomRuntimeData"

end NodeKind

inductive Node where
  | startObject (type : Ref .type)
  | endObject
  | startProperty (property : Ref .property)
  | endProperty
  | text (id : StringId)
  | value (value : Constant)
  /-- Binds a short name to an XML namespace. -/
  | namespaceDeclaration (shortName : StringId) (xmlNamespace : Ref .xmlNamespace)
  | endOfAttributes
  | endOfStream
  | lineInfo (lineDelta columnDelta : Int16)
  | lineInfoAbsolute (line column : UInt32)
  /-- Custom runtime data, with the substream that holds the content it describes. -/
  | runtimeData (data : RuntimeData) (substream : UInt32)
deriving DecidableEq, BEq, Repr

def Node.kind : Node → NodeKind
  | startObject _ => .startObject
  | endObject => .endObject
  | startProperty _ => .startProperty
  | endProperty => .endProperty
  | text _ => .text
  | value _ => .value
  | namespaceDeclaration _ _ => .namespaceDeclaration
  | endOfAttributes => .endOfAttributes
  | endOfStream => .endOfStream
  | lineInfo _ _ => .lineInfo
  | lineInfoAbsolute _ _ => .lineInfoAbsolute
  | runtimeData _ _ => .runtimeData

/-- A node with the offset of its tag in the node-stream. -/
structure PlacedNode where
  offset : UInt32
  node : Node
deriving DecidableEq, BEq, Repr

/-- The line and column of the markup that the node at an offset comes from. -/
structure LineEntry where
  nodeOffset : UInt32
  line : UInt32
  column : UInt32
deriving DecidableEq, Repr

end XamlBinary
