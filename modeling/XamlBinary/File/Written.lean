import XamlBinary.File.Basic
import XamlBinary.Metadata.Written
import XamlBinary.Substream.Written

/-!
How files are written: the header, the metadata section and the node-stream
section.
-/

namespace XamlBinary

def Version.written (v : Version) : Written := .word32 v.major ++ .word32 v.minor

/-- A version that may be missing takes no room when it is. -/
def Version.optional : Option Version → Written
  | some version => version.written
  | none => []

/-- The magic number, the two sizes and, if there is one, the version. -/
def Header.written (header : Header) : Written :=
  [.fixed Header.magic] ++ Written.word32 header.metadataSize ++
    Written.word32 header.nodeStreamSize ++ Version.optional header.version

namespace File

def written (file : File) : Written :=
  file.header.written ++ file.metadata.written ++ Substream.writtenSection file.substreams

/-- The bytes of a file, with every 7-bit integer in its shortest spelling. -/
def bytes (file : File) : List UInt8 := Written.bytes file.written

end File

end XamlBinary
