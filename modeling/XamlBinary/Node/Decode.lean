import XamlBinary.Node.Basic
import XamlBinary.RuntimeData.Decode

/-!
Decoding of node-streams and line-streams.  A node-stream is empty or ends
with the only `endOfStream` node in it; a line-stream is a sequence of entries
whose node offsets never go back.
-/

namespace XamlBinary.Decoder

open Reader

/-- The part of a node that follows its tag. -/
def nodeBody (scope : Scope) : NodeKind → Decoder Node
  | .startObject => .startObject <$> ref scope .type "object type"
  | .endObject => pure .endObject
  | .startProperty => .startProperty <$> ref scope .property "property"
  | .endProperty => pure .endProperty
  | .text => .text <$> stringRef scope "text"
  | .value => .value <$> constant scope
  | .namespaceDeclaration => do
      let shortName ← stringRef scope "namespace prefix"
      let xmlNamespace ← ref scope .xmlNamespace "xml namespace"
      pure (.namespaceDeclaration shortName xmlNamespace)
  | .endOfAttributes => pure .endOfAttributes
  | .endOfStream => pure .endOfStream
  | .lineInfo => do
      let lineDelta ← int16 "line delta"
      let columnDelta ← int16 "column delta"
      pure (.lineInfo lineDelta columnDelta)
  | .lineInfoAbsolute => do
      let line ← uint32 "line"
      let column ← uint32 "column"
      pure (.lineInfoAbsolute line column)
  | .runtimeData => do
      let data ← runtimeData scope
      let substream ← natural "deferred substream index"
      pure (.runtimeData data substream)

def node (scope : Scope) : Decoder Node := do
  let start ← position
  let tag ← byte "node type"
  match NodeKind.ofTag? tag with
  | some kind => nodeBody scope kind
  | none => malformed start (.unknownNodeKind tag)

/-- Nodes up to the end of the slice.  A node is at least a byte long, so the length of the
slice is enough for `limit`. -/
def nodesUpTo (scope : Scope) : (limit : Nat) → Decoder (List PlacedNode)
  | 0 => do malformed (← position) .missingEnd
  | limit + 1 => do
      let start ← position
      let node ← node scope
      let here ← get
      if node = .endOfStream then
        if here.rest.isEmpty then pure [⟨UInt32.ofNat start, node⟩]
        else malformed here.offset (.bytesAfterEnd here.rest.length)
      else if here.rest.isEmpty then malformed here.offset .missingEnd
      else
        let nodes ← nodesUpTo scope limit
        pure (⟨UInt32.ofNat start, node⟩ :: nodes)

/-- A whole node-stream. -/
def nodes (scope : Scope) : Decoder (List PlacedNode) := do
  let here ← get
  if here.rest.isEmpty then pure [] else nodesUpTo scope here.rest.length

def lineEntry : Decoder LineEntry := do
  let nodeOffset ← natural "line info node offset"
  let line ← natural "line info line"
  let column ← natural "line info column"
  pure { nodeOffset, line, column }

/-- Entries up to the end of the slice, none of them before `previous`.  An entry is at
least a byte long, so the length of the slice is enough for `limit`. -/
def lineEntriesUpTo (previous : UInt32) : (limit : Nat) → Decoder (List LineEntry)
  | 0 => pure []
  | limit + 1 => do
      let here ← get
      if here.rest.isEmpty then pure []
      else
        let entry ← lineEntry
        if entry.nodeOffset < previous then
          malformed here.offset (.lineOrder entry.nodeOffset previous)
        else
          let entries ← lineEntriesUpTo entry.nodeOffset limit
          pure (entry :: entries)

/-- A whole line-stream. -/
def lineEntries : Decoder (List LineEntry) := do
  let here ← get
  lineEntriesUpTo 0 here.rest.length

end XamlBinary.Decoder
