import XamlBinary.Reader.Primitive

/-!
A place in a slice of bytes.  Decoders are readers of cursors: they see the
bytes ahead of them and nothing else, and report offsets from the start of
the slice.
-/

namespace XamlBinary

/-- The bytes ahead and the number of bytes behind. -/
structure Cursor where
  offset : Nat
  rest : List UInt8
deriving DecidableEq, Repr

namespace Cursor

/-- The cursor at the start of a slice. -/
def start (slice : List UInt8) : Cursor := ⟨0, slice⟩

/-- The cursor behind the next `count` bytes. -/
def skip (c : Cursor) (count : Nat) : Cursor :=
  ⟨c.offset + min count c.rest.length, c.rest.drop count⟩

instance : ByteSource Cursor where
  offset := Cursor.offset
  take count c :=
    let bytes := c.rest.take count
    if bytes.length = count then (.all bytes, ⟨c.offset + count, c.rest.drop count⟩)
    else (.endOfData, ⟨c.offset + bytes.length, []⟩)

@[simp] theorem offset_eq (c : Cursor) : ByteSource.offset c = c.offset := rfl

end Cursor

/-- Readers of a slice. -/
abbrev Decoder (α : Type) := Reader Cursor α

namespace Reader

variable {σ α : Type}

/-- Runs a decoder over a slice that was read from offset `base`, from which its faults
are then counted. -/
def within (base : Nat) (slice : List UInt8) (decoder : Decoder α) : Reader σ α := fun s =>
  match decoder.run (Cursor.start slice) with
  | .ok a _ log => .ok a s log
  | .fail fault _ log => .fail (fault.rebase base) s log

end Reader

end XamlBinary
