import XamlBinary.Header.Basic
import XamlBinary.Metadata.Basic
import XamlBinary.Substream.Basic

/-!
A compiled markup file.
-/

namespace XamlBinary

/-- A file in decoded form. -/
structure File where
  header : Header
  metadata : Metadata
  substreams : List Substream
deriving DecidableEq, BEq, Repr

/-- How files are read. -/
structure Settings where
  layout : HeaderLayout := .detect
  /-- Whether a trusted index without an entry in the registry is a fault. -/
  strict : Bool := false
deriving DecidableEq, Repr, Inhabited

namespace Settings

/-- The settings as they are shown to a reader of logs. -/
def text (settings : Settings) : String :=
  s!"ParserSettings \x7b header_variant: {settings.layout.name}, " ++
    s!"strict_trusted_indices: {settings.strict} \x7d"

end Settings

end XamlBinary
