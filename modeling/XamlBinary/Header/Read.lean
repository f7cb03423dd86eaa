import XamlBinary.ByteStream.Reading

/-!
Reading of a header.  The magic number is checked before anything else; then
the declared sizes must account for the whole length of the stream.
-/

namespace XamlBinary.Header

open Reader

/-- The first four bytes, which must be the magic number. -/
def readMagic : Reader ByteStream Unit := fun s =>
  match ByteSource.take 4 s with
  | (.all bytes, after) =>
      if bytes = magic then .ok () after []
      else .fail (.invalidFormat 0 (.wrongMagic bytes)) after []
  | (.endOfData, after) => .fail (.invalidFormat 0 .noMagic) after []
  | (.failure cause, after) => .fail (.device 0 "magic number" cause) after []

/-- The layout that a header of a stream of this length has, if its sizes fit at all:
`some true` for the versioned one. -/
def versioned? (layout : HeaderLayout) (length sections : Nat) : Option Bool :=
  let fitsLegacy := length = legacySize + sections
  let fitsVersioned := length = versionedSize + sections
  match layout with
  | .detect =>
      if fitsLegacy then some false else if fitsVersioned then some true else none
  | .legacy => if fitsLegacy then some false else none
  | .versioned => if fitsVersioned then some true else none

def readVersion : Reader ByteStream Version := do
  let start ← position
  let major ← uint32 "major file version"
  let minor ← uint32 "minor file version"
  let version : Version := { major, minor }
  if version.IsSupported then pure version
  else invalidFormat start (.unsupportedVersion version)

/-- Reads a header at the current position of a stream. -/
def read (layout : HeaderLayout) : Reader ByteStream Header := do
  readMagic
  let length ← ByteStream.measure 4
  if length < legacySize then invalidFormat 4 (.tooShort length)
  else
    let metadataSize ← uint32 "metadata size"
    let nodeStreamSize ← uint32 "node-stream size"
    match versioned? layout length (sectionsSize metadataSize nodeStreamSize) with
    | none => invalidFormat 4 (.sizesMisfit metadataSize nodeStreamSize length layout)
    | some hasVersion =>
        let version ← if hasVersion then some <$> readVersion else pure none
        let header : Header := { metadataSize, nodeStreamSize, version }
        note (.header header)
        pure header

end XamlBinary.Header
