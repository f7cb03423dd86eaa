import XamlBinary.Node.Written
import XamlBinary.Substream.Basic

/-!
How the node-stream section is written: the table of all substreams, then the
nodes and lines of each.
-/

namespace XamlBinary

def SubstreamEntry.written (e : SubstreamEntry) : Written :=
  .word32 e.nodeOffset ++ .word32 e.lineOffset

namespace Substream

def writtenNodes (s : Substream) : Written := s.nodes.flatMap (·.node.written)

def writtenLines (s : Substream) : Written := s.lines.flatMap LineEntry.written

def written (s : Substream) : Written := s.writtenNodes ++ s.writtenLines

/-- A whole node-stream section. -/
def writtenSection (substreams : List Substream) : Written :=
  .table (·.entry.written) substreams ++ substreams.flatMap written

end Substream

end XamlBinary
