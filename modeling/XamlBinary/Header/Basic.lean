/-!
The header of a compiled markup file: the sizes of its two sections and, in
one of its two layouts, the version of the file.
-/

namespace XamlBinary

structure Version where
  major : UInt32
  minor : UInt32
deriving DecidableEq, Repr

structure Header where
  metadataSize : UInt32
  nodeStreamSize : UInt32
  /-- Only the longer layout carries a version. -/
  version : Option Version
deriving DecidableEq, Repr

/-- Which layout a reader expects. -/
inductive HeaderLayout where
  /-- Whichever makes the declared sizes add up to the length of the stream. -/
  | detect
  /-- The magic number and two sizes. -/
  | legacy
  /-- As `legacy`, followed by a major and a minor version. -/
  | versioned
deriving DecidableEq, Repr, Inhabited

namespace HeaderLayout

def name : HeaderLayout → String
  | detect => "Detect"
  | legacy => "Legacy"
  | versioned => "Versioned"

end HeaderLayout

namespace Header

/-- The four bytes that every file begins with: `XBF` and a NUL. -/
def magic : List UInt8 := [0x58, 0x42, 0x46, 0x00]

def legacySize : Nat := 12

def versionedSize : Nat := 20

/-- The number of bytes that the header occupies. -/
def size (header : Header) : Nat :=
  match header.version with
  | some _ => versionedSize
  | none => legacySize

/-- The bytes of both sections together. -/
def sectionsSize (metadataSize nodeStreamSize : UInt32) : Nat :=
  metadataSize.toNat + nodeStreamSize.toNat

@[simp] theorem size_legacy (m n : UInt32) : (Header.mk m n none).size = 12 := rfl

@[simp] theorem size_versioned (m n : UInt32) (v : Version) :
    (Header.mk m n (some v)).size = 20 := rfl

end Header

/-- Major versions that can be read. -/
def Version.IsSupported (version : Version) : Prop := version.major = 1 ∨ version.major = 2

instance (version : Version) : Decidable version.IsSupported := by
  unfold Version.IsSupported; infer_instance

end XamlBinary
