import XamlBinary.File.Read
import XamlBinary.File.Rendering
import XamlBinary.Json.Text

/-!
Sessions: a stream with settings, on which files are read again and again
while the stream is changed in between.
-/

namespace XamlBinary

structure Session where
  stream : ByteStream
  settings : Settings := {}
  /-- The file that was read last without a fault. -/
  last : Option File := none
deriving DecidableEq, Repr

namespace Session

inductive Step where
  | configure (settings : Settings)
  | showSettings
  | showText
  | parse
  | render
  /-- A single read of at most `count` bytes. -/
  | read (count : Nat)
  | seek (position : Nat)
  /-- Overwrites the bytes from an offset on, as far as there are any. -/
  | patch (offset : Nat) (bytes : List UInt8)
  | append (bytes : List UInt8)
  | truncate (length : Nat)
  | limit (limit : Option ReadLimit)
deriving DecidableEq, Repr

/-- What a step shows. -/
inductive Answer where
  | done
  | settings (settings : Settings)
  | text (text : String)
  /-- A file, and whether it equals the one read before it, if there was one. -/
  | file (file : File) (equalsLast : Option Bool) (log : Log)
  | fault (fault : Fault) (log : Log)
  | rendering (text : Option String)
  | bytes (bytes : List UInt8)
  | deviceError (cause : DeviceError)
deriving DecidableEq, Repr

/-- The debugging text of a reader with these settings. -/
def debugText (settings : Settings) : String :=
  "XbfParser \x7b settings: " ++ settings.text ++ " \x7d"

/-- `bytes` with `patch` written over it from `offset` on. -/
def overwrite (bytes : List UInt8) (offset : Nat) (patch : List UInt8) : List UInt8 :=
  bytes.take offset ++
    (patch.take (bytes.length - offset) ++ bytes.drop (offset + patch.length))

def parse (session : Session) : Answer × Session :=
  match (File.read session.settings).run session.stream with
  | .ok file stream log =>
      (.file file (session.last.map (file == ·)) log, { session with stream, last := some file })
  | .fail fault stream log => (.fault fault log, { session with stream })

/-- Changes the bytes of the stream. -/
def mapBytes (session : Session) (change : List UInt8 → List UInt8) : Session :=
  { session with stream := { session.stream with bytes := change session.stream.bytes } }

def step (session : Session) : Step → Answer × Session
  | .configure settings => (.done, { session with settings })
  | .showSettings => (.settings session.settings, session)
  | .showText => (.text (debugText session.settings), session)
  | .parse => session.parse
  | .render => (.rendering (session.last.map fun file => file.render.compact), session)
  | .read count =>
      match session.stream.read count with
      | (.ok bytes, stream) => (.bytes bytes, { session with stream })
      | (.error cause, stream) => (.deviceError cause, { session with stream })
  | .seek position => (.done, { session with stream := { session.stream with position } })
  | .patch offset bytes => (.done, session.mapBytes (overwrite · offset bytes))
  | .append bytes => (.done, session.mapBytes (· ++ bytes))
  | .truncate length => (.done, session.mapBytes (·.take length))
  | .limit limit => (.done, { session with stream := { session.stream with limit } })

/-- Runs the steps in order; each answer comes with the session after its step. -/
def run (session : Session) : List Step → List (Answer × Session)
  | [] => []
  | first :: later =>
      let after := session.step first
      after :: run after.2 later

end Session

end XamlBinary
