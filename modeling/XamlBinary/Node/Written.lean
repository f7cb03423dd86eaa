import XamlBinary.Node.Basic
import XamlBinary.RuntimeData.Written

/-!
How nodes and line entries are written.
-/

namespace XamlBinary

namespace Node

/-- What follows the tag. -/
def body : Node → Written
  | .startObject type => type.written
  | .startProperty property => property.written
  | .text id => id.packed
  | .value constant => constant.written
  | .namespaceDeclaration shortName xmlNamespace => shortName.packed ++ xmlNamespace.written
  | .lineInfo lineDelta columnDelta => .word16 lineDelta.toUInt16 ++ .word16 columnDelta.toUInt16
  | .lineInfoAbsolute line column => .word32 line ++ .word32 column
  | .runtimeData data substream => data.written ++ .natural substream
  | .endObject | .endProperty | .endOfAttributes | .endOfStream => []

def written (n : Node) : Written := .byte n.kind.tag ++ n.body

end Node

def LineEntry.written (e : LineEntry) : Written :=
  .natural e.nodeOffset ++ .natural e.line ++ .natural e.column

end XamlBinary
