import XamlBinary.Bytes.LittleEndian
import XamlBinary.Number.Single
import XamlBinary.Reader.Basic

/-!
Fixed-width values and counted lists, over any source of bytes.  A value that
is cut fails as a whole, at the offset at which it begins.
-/

namespace XamlBinary

/-- What a source gives when it is asked for an exact number of bytes. -/
inductive Taken where
  | all (bytes : List UInt8)
  | endOfData
  | failure (cause : DeviceError)
deriving DecidableEq, Repr

/-- States that bytes can be taken from. -/
class ByteSource (σ : Type) where
  /-- The offset that faults give for the place where the source stands. -/
  offset : σ → Nat
  /-- Takes that many bytes, or says what stopped it. -/
  take : Nat → σ → Taken × σ

namespace Reader

variable {σ α : Type} [ByteSource σ]

def position : Reader σ Nat := fun s => .ok (ByteSource.offset s) s []

@[simp] theorem run_position (s : σ) :
    (position : Reader σ Nat).run s = .ok (ByteSource.offset s) s [] := rfl

/-- The next `count` bytes, which make up the value `what`. -/
def exactly (what : String) (count : Nat) : Reader σ (List UInt8) := fun s =>
  match ByteSource.take count s with
  | (.all bytes, s') => .ok bytes s' []
  | (.endOfData, s') => .fail (.malformed (ByteSource.offset s) (.endOfData what)) s' []
  | (.failure cause, s') => .fail (.device (ByteSource.offset s) what cause) s' []

def uint16 (what : String) : Reader σ UInt16 := do
  let bytes ← exactly what 2
  pure (UInt16.ofNat (LittleEndian.value bytes))

def int16 (what : String) : Reader σ Int16 := do
  let word ← uint16 what
  pure word.toInt16

def uint32 (what : String) : Reader σ UInt32 := do
  let bytes ← exactly what 4
  pure (UInt32.ofNat (LittleEndian.value bytes))

def int32 (what : String) : Reader σ Int32 := do
  let word ← uint32 what
  pure word.toInt32

def single (what : String) : Reader σ Single := do
  let word ← uint32 what
  pure ⟨word⟩

/-- A count followed by that many items.  `count` reads the count, which must not be
negative. -/
def counted (what : String) (count : Reader σ Int32) (item : Reader σ α) :
    Reader σ (List α) := do
  let start ← position
  let n ← count
  if n < 0 then malformed start (.negativeCount what n)
  else listOf item n.toNatClampNeg

/-- A list that begins with a plain 32-bit count. -/
def table (what : String) (item : Reader σ α) : Reader σ (List α) :=
  counted what (int32 what) item

end Reader

end XamlBinary
