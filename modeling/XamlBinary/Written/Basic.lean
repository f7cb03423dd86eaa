import XamlBinary.Bytes.LittleEndian
import XamlBinary.Text.Utf16
import XamlBinary.Written.Varint

/-!
Written forms.  A value is written as a sequence of pieces: bytes that are
fixed, and 7-bit integers, which can be spelled in several ways.  `Spells`
relates a written form to the bytes that spell it; `bytes` are those of the
shortest spelling.
-/

namespace XamlBinary

inductive Piece where
  | fixed (bytes : List UInt8)
  | varint (value : Int32)
deriving DecidableEq, Repr

/-- The shortest bytes of a piece. -/
def Piece.bytes : Piece → List UInt8
  | fixed bytes => bytes
  | varint value => Varint.shortest value.toUInt32

abbrev Written := List Piece

namespace Written

/-- The bytes with every 7-bit integer in its shortest spelling. -/
def bytes (written : Written) : List UInt8 := written.flatMap Piece.bytes

/-- The bytes are the pieces one after the other, each 7-bit integer in one of its
spellings. -/
inductive Spells : Written → List UInt8 → Prop where
  | nil : Spells [] []
  | fixed {written : Written} {rest : List UInt8} (bytes : List UInt8) :
      Spells written rest → Spells (.fixed bytes :: written) (bytes ++ rest)
  | varint {written : Written} {spelling rest : List UInt8} {value : Int32} :
      Varint.Spells spelling value.toUInt32 → Spells written rest →
        Spells (.varint value :: written) (spelling ++ rest)

def byte (b : UInt8) : Written := [.fixed [b]]

/-- A byte that is zero or one. -/
def bool (b : Bool) : Written := byte (if b then 1 else 0)

def word16 (n : UInt16) : Written := [.fixed (LittleEndian.bytes 2 n.toNat)]

def word32 (n : UInt32) : Written := [.fixed (LittleEndian.bytes 4 n.toNat)]

def varint (n : Int32) : Written := [.varint n]

/-- A quantity without a sign as a 7-bit integer. -/
def natural (n : UInt32) : Written := varint n.toInt32

/-- A list after its length as a 7-bit integer. -/
def list {α : Type} (item : α → Written) (items : List α) : Written :=
  natural (UInt32.ofNat items.length) ++ items.flatMap item

/-- A list after its length as a 32-bit number. -/
def table {α : Type} (item : α → Written) (items : List α) : Written :=
  word32 (UInt32.ofNat items.length) ++ items.flatMap item

/-- The number of code units as a 32-bit number, then the units. -/
def text (s : String) : Written := table word16 (Utf16.encode s.toList)

/-- A part that only some versions of a layout have. -/
def since (present : Bool) (part : Written) : Written := if present then part else []

end Written

end XamlBinary
