import XamlBinary.Reader.Primitive
import XamlBinary.ByteStream.Basic

/-!
Reading from a stream.  A value that is cut because the bytes run out is the
fault of the data; any other failure is a fault of the device.
-/

namespace XamlBinary

namespace ByteStream

/-- The position, or zero where it cannot be asked for. -/
def offset (s : ByteStream) : Nat :=
  match s.tell with
  | .ok position => position
  | .error _ => 0

instance : ByteSource ByteStream where
  offset := ByteStream.offset
  take count s :=
    match s.pull count with
    | (bytes, none, after) => (.all bytes, after)
    | (_, some (.stopped .failure), after) => (.failure .readFailure, after)
    | (_, some _, after) => (.endOfData, after)

@[simp] theorem offset_eq (s : ByteStream) : ByteSource.offset s = s.offset := rfl

/-- A run of `count` bytes that make up a section. -/
def block (what : String) (count : Nat) : Reader ByteStream (List UInt8) := fun s =>
  match s.pull count with
  | (bytes, none, after) => .ok bytes after []
  | (_, some (.stopped .failure), after) => .fail (.device s.offset what .readFailure) after []
  | (_, some (.stopped .endOfData), after) =>
      .fail (.malformed s.offset (.endOfData what)) after []
  | (bytes, some _, after) =>
      .fail (.malformed s.offset (.shortRun what count bytes.length)) after []

/-- Goes to an offset of the stream, which `what` stands at. -/
def goTo (what : String) (offset : Nat) : Reader ByteStream Unit := fun s =>
  match s.seekTo offset with
  | .ok there => .ok () there []
  | .error cause => .fail (.device offset what cause) s []

/-- The reported length.  A fault gives `offset`, where the length was asked for. -/
def measure (offset : Nat) : Reader ByteStream Nat := fun s =>
  match s.length with
  | (.ok length, after) => .ok length after []
  | (.error cause, after) => .fail (.device offset "stream length" cause) after []

/-- Puts the stream back to `position` at the end of a run, whatever the end was.  Where
that fails, the end stays as it is and a warning is logged. -/
def restore {α : Type} (position : Nat) : Outcome ByteStream α → Outcome ByteStream α
  | .ok a s log =>
      match s.seekTo position with
      | .ok back => .ok a back log
      | .error cause => .ok a s (log ++ [.warning (.positionNotRestored position cause)])
  | .fail fault s log =>
      match s.seekTo position with
      | .ok back => .fail fault back log
      | .error cause => .fail fault s (log ++ [.warning (.positionNotRestored position cause)])

/-- Runs a reader and returns to where the stream stood before. -/
def keepingPosition {α : Type} (body : Reader ByteStream α) : Reader ByteStream α := fun s =>
  match s.tell with
  | .error cause => .fail (.device 0 "stream position" cause) s []
  | .ok position => restore position (body.run s)

end ByteStream

end XamlBinary
