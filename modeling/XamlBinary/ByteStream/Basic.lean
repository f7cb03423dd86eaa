import XamlBinary.Fault

/-!
A seekable stream of bytes, with the ways in which it can misbehave: bytes
behind a limit that cannot be read, a length that is not the real one, and a
kind of seek that never works.  A stream without any of these is plain.
-/

namespace XamlBinary

/-- What a seek counts from. -/
inductive SeekOrigin where
  | fromStart
  | fromCurrent
  | fromEnd
deriving DecidableEq, Repr

/-- What a read does that starts behind the limit. -/
inductive LimitEffect where
  /-- It fails. -/
  | failure
  /-- It reports that the data has ended. -/
  | endOfData
  /-- It delivers nothing. -/
  | silence
deriving DecidableEq, Repr

/-- Bytes from `offset` on cannot be read. -/
structure ReadLimit where
  offset : Nat
  effect : LimitEffect
deriving DecidableEq, Repr

structure ByteStream where
  bytes : List UInt8
  position : Nat := 0
  limit : Option ReadLimit := none
  /-- The length that the stream reports instead of its own. -/
  claimedLength : Option Nat := none
  /-- Seeks of this kind fail and move nothing. -/
  brokenSeek : Option SeekOrigin := none
deriving DecidableEq, Repr

/-- Why a read delivered less than it was asked for. -/
inductive Shortage where
  | endOfBytes
  | stopped (effect : LimitEffect)
deriving DecidableEq, Repr

namespace ByteStream

/-- A stream with no fault that stands at the start of its bytes. -/
def ofBytes (bytes : List UInt8) : ByteStream := { bytes }

/-- A stream whose reads, seeks and length are all sound. -/
def IsPlain (s : ByteStream) : Prop :=
  s.limit = none ∧ s.claimedLength = none ∧ s.brokenSeek = none

/-- The bytes that reads from the current position on can deliver. -/
def readable (s : ByteStream) : List UInt8 :=
  match s.limit with
  | none => s.bytes.drop s.position
  | some limit => (s.bytes.take limit.offset).drop s.position

/-- What stops a read for which nothing is readable. -/
def shortage (s : ByteStream) : Shortage :=
  match s.limit with
  | none => .endOfBytes
  | some limit =>
      if limit.offset ≤ s.position ∧ s.position < s.bytes.length then .stopped limit.effect
      else .endOfBytes

/-- Reads until `count` bytes have come or a read brings none; in the second case it also
tells why. -/
def pull (s : ByteStream) (count : Nat) : List UInt8 × Option Shortage × ByteStream :=
  let bytes := s.readable.take count
  let after := { s with position := s.position + bytes.length }
  if bytes.length = count then (bytes, none, after)
  else (bytes, some after.shortage, after)

/-- A single read of at most `count` bytes. -/
def read (s : ByteStream) (count : Nat) : Except DeviceError (List UInt8) × ByteStream :=
  let bytes := s.readable.take count
  let after := { s with position := s.position + bytes.length }
  if bytes.isEmpty && count != 0 then
    match s.shortage with
    | .stopped .failure => (.error .readFailure, s)
    | .stopped .endOfData => (.error .endOfFile, s)
    | .stopped .silence | .endOfBytes => (.ok [], s)
  else (.ok bytes, after)

/-- The current position, as a seek that does not move reports it. -/
def tell (s : ByteStream) : Except DeviceError Nat :=
  if s.brokenSeek = some .fromCurrent then .error .seekFailure else .ok s.position

def seekTo (s : ByteStream) (position : Nat) : Except DeviceError ByteStream :=
  if s.brokenSeek = some .fromStart then .error .seekFailure
  else .ok { s with position }

def reportedLength (s : ByteStream) : Nat := s.claimedLength.getD s.bytes.length

/-- Goes to the end that the stream reports. -/
def seekToEnd (s : ByteStream) : Except DeviceError ByteStream :=
  if s.brokenSeek = some .fromEnd then .error .seekFailure
  else .ok { s with position := s.reportedLength }

/-- The reported length.  It is found by going to the end and, unless that is where the
stream stood, back again. -/
def length (s : ByteStream) : Except DeviceError Nat × ByteStream :=
  match s.tell with
  | .error cause => (.error cause, s)
  | .ok here =>
      match s.seekToEnd with
      | .error cause => (.error cause, s)
      | .ok atEnd =>
          if here = atEnd.position then (.ok atEnd.position, atEnd)
          else
            match atEnd.seekTo here with
            | .error cause => (.error cause, atEnd)
            | .ok back => (.ok atEnd.position, back)

end ByteStream

end XamlBinary
