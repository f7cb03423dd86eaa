import XamlBinary.Node.Basic

/-!
Substreams: the parts of the node-stream section, each a node-stream and a
line-stream, with a table in front that says where each of them begins.
-/

namespace XamlBinary

/-- Where a substream lies, counted from the end of the table. -/
structure SubstreamEntry where
  nodeOffset : UInt32
  lineOffset : UInt32
deriving DecidableEq, Repr

structure Substream where
  entry : SubstreamEntry
  nodes : List PlacedNode
  lines : List LineEntry
deriving DecidableEq, BEq, Repr

namespace Substream

/-- The custom runtime data of the substream, with the substreams that it defers to. -/
def runtimeData (s : Substream) : List (RuntimeData × UInt32) :=
  s.nodes.filterMap fun placed =>
    match placed.node with
    | .runtimeData data substream => some (data, substream)
    | _ => none

end Substream

end XamlBinary
