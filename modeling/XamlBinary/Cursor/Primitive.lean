import XamlBinary.Cursor.Basic
import XamlBinary.Text.Utf16

/-!
Values whose width depends on their bytes: 7-bit integers, strings, and lists
that begin with a 7-bit count.
-/

namespace XamlBinary.Decoder

open Reader

variable {α : Type}

def byte (what : String) : Decoder UInt8 := fun c =>
  match c.rest with
  | [] => .fail (.malformed c.offset (.endOfData what)) c []
  | b :: rest => .ok b ⟨c.offset + 1, rest⟩ []

@[simp] theorem run_byte_nil (what : String) (offset : Nat) :
    (byte what).run ⟨offset, []⟩ = .fail (.malformed offset (.endOfData what)) ⟨offset, []⟩ [] :=
  rfl

@[simp] theorem run_byte_cons (what : String) (offset : Nat) (b : UInt8) (rest : List UInt8) :
    (byte what).run ⟨offset, b :: rest⟩ = .ok b ⟨offset + 1, rest⟩ [] := rfl

/-- A byte that is zero or one. -/
def bool (what : String) : Decoder Bool := do
  let start ← position
  let b ← byte what
  if b = 0 then pure false
  else if b = 1 then pure true
  else malformed start (.notBoolean what b)

/-- A run of `count` bytes.  Unlike a single value, a run that is cut tells how much of it
there was. -/
def block (what : String) (count : Nat) : Decoder (List UInt8) := fun c =>
  let bytes := c.rest.take count
  if bytes.length = count then .ok bytes ⟨c.offset + count, c.rest.drop count⟩ []
  else
    .fail (.malformed c.offset (.shortRun what count bytes.length))
      ⟨c.offset + bytes.length, []⟩ []

/-- The groups of a 7-bit integer that begins at `start`, least significant group first.
Every byte but the last has its top bit set.  After `more` further groups the next byte
must be the last one, and may carry only the four bits that are left of a 32-bit word. -/
def varintGroups (what : String) (start : Nat) : Nat → Decoder Nat
  | 0 => do
      let b ← byte what
      if 0x0F < b.toNat then malformed start (.wideVarint what) else pure b.toNat
  | more + 1 => do
      let b ← byte what
      if b.toNat < 0x80 then pure b.toNat
      else
        let high ← varintGroups what start more
        pure (b.toNat - 0x80 + 0x80 * high)

/-- A 7-bit encoded integer of at most five bytes, taken as a signed 32-bit number. -/
def varint (what : String) : Decoder Int32 := do
  let start ← position
  let n ← varintGroups what start 4
  pure (UInt32.ofNat n).toInt32

/-- A 7-bit encoded integer that must not be negative. -/
def natural (what : String) : Decoder UInt32 := do
  let start ← position
  let n ← varint what
  if n < 0 then malformed start (.negative what n) else pure n.toUInt32

/-- A list that begins with a 7-bit count. -/
def list (what : String) (item : Decoder α) : Decoder (List α) := counted what (varint what) item

/-- A signed 32-bit count of code units, then the units. -/
def string (what : String) : Decoder String := do
  let start ← position
  let length ← int32 what
  if length < 0 then malformed start (.negativeLength what length)
  else
    let bytes ← block what (2 * length.toNatClampNeg)
    match Utf16.text? (Utf16.unitsOfBytes bytes) with
    | some text => pure text
    | none => malformed start (.invalidUtf16 what)

/-- A part that only some versions of a layout have; the others take `absent`. -/
def since (present : Bool) (absent : α) (part : Decoder α) : Decoder α :=
  if present then part else pure absent

end XamlBinary.Decoder
