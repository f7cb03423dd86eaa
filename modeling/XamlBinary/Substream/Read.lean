import XamlBinary.ByteStream.Reading
import XamlBinary.Node.Decode
import XamlBinary.Substream.Basic

/-!
Reading of the node-stream section.  Every substream must begin where the one
before it ended, and the last one must end with the section.
-/

namespace XamlBinary

namespace SubstreamEntry

open Reader

def read : Reader ByteStream SubstreamEntry := do
  let nodeOffset ← uint32 "node-stream offset"
  let lineOffset ← uint32 "line-stream offset"
  pure { nodeOffset, lineOffset }

/-- The end of a substream's lines: the start of the next substream, or the end of the body
that all substreams share. -/
def lineEnd (bodySize : Nat) : List SubstreamEntry → Nat
  | [] => bodySize
  | next :: _ => next.nodeOffset.toNat

end SubstreamEntry

namespace Substream

open Reader

/-- Reads the node-stream and the line-stream of an entry whose lines end at `lineEnd`. -/
def readParts (scope : Scope) (index lineEnd : Nat) (entry : SubstreamEntry) :
    Reader ByteStream Substream := do
  let start ← position
  let nodeSize := (entry.lineOffset - entry.nodeOffset).toNat
  let lineSize := lineEnd - entry.lineOffset.toNat
  note (.substream index nodeSize lineSize)
  let nodeBytes ← ByteStream.block "node-stream" nodeSize
  let nodes ← within start nodeBytes (Decoder.nodes scope)
  let lineBytes ← ByteStream.block "line-stream" lineSize
  let lines ← within (start + nodeSize) lineBytes Decoder.lineEntries
  pure { entry, nodes, lines }

/-- Reads substream number `index`, after checking that its entry fits. -/
def readEntry (scope : Scope) (bodyStart bodySize index : Nat) (entry : SubstreamEntry)
    (later : List SubstreamEntry) : Reader ByteStream Substream := do
  let start ← position
  let expected := bodyStart + entry.nodeOffset.toNat
  let lineEnd := SubstreamEntry.lineEnd bodySize later
  if start ≠ expected then malformed start (.substreamStart index expected)
  else if entry.lineOffset < entry.nodeOffset then
    malformed start (.lineBeforeNode index entry.lineOffset entry.nodeOffset)
  else if lineEnd < entry.lineOffset.toNat ∨ bodySize < lineEnd then
    malformed start (.lineEndOutside index)
  else readParts scope index lineEnd entry

/-- Reads the substreams of a table from number `index` on. -/
def readAll (scope : Scope) (bodyStart bodySize : Nat) :
    (index : Nat) → List SubstreamEntry → Reader ByteStream (List Substream)
  | _, [] => pure []
  | index, entry :: later => do
      let substream ← readEntry scope bodyStart bodySize index entry later
      let others ← readAll scope bodyStart bodySize (index + 1) later
      pure (substream :: others)

/-- Reads a node-stream section of `size` bytes from the current position. -/
def readSection (scope : Scope) (size : UInt32) : Reader ByteStream (List Substream) := do
  let sectionStart ← position
  let sectionEnd := sectionStart + size.toNat
  let table ← table "substream table" SubstreamEntry.read
  let bodyStart ← position
  if sectionEnd < bodyStart then
    malformed sectionStart (.substreamTableOverflow table.length size)
  else
    note (.substreamTable table.length bodyStart)
    let substreams ← readAll scope bodyStart (sectionEnd - bodyStart) 0 table
    let here ← position
    if here ≠ sectionEnd then malformed here (.substreamsEnd here sectionEnd)
    else pure substreams

end Substream

end XamlBinary
