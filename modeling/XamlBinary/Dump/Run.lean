import XamlBinary.Dump.FileSystem
import XamlBinary.Dump.Options
import XamlBinary.Dump.Path
import XamlBinary.File.Read
import XamlBinary.File.Rendering
import XamlBinary.Json.Text

/-!
The dump tool: reads a file and writes it as JSON.  The output file is made
before the input is opened, and written only after everything else went well.
-/

namespace XamlBinary.Dump

/-- What the tool leaves besides files. -/
structure Report where
  exitCode : UInt32 := 0
  stdout : String := ""
  stderr : String := ""
deriving DecidableEq, Repr

/-- What was being done, and what went wrong with it, from the outside in. -/
structure Failure where
  task : String
  causes : List String
deriving DecidableEq, Repr

namespace Failure

/-- A cause with its first line behind `first` and further lines behind `later`. -/
def indent (first later cause : String) : String :=
  first ++ ("\n" ++ later).intercalate (cause.splitOn "\n") ++ "\n"

/-- The causes on lines of their own, numbered if there are several. -/
def causeLines : List String → String
  | [] => ""
  | [cause] => indent "    " "    " cause
  | causes =>
      String.join (causes.zipIdx.map fun (cause, n) => indent s!"    {n}: " "       " cause)

def text (failure : Failure) : String :=
  failure.task ++ "\n\nCaused by:\n" ++ causeLines failure.causes

def ofFault (task : String) (fault : Fault) : Failure :=
  { task
    causes := fault.message :: (fault.cause?.map DeviceError.message).toList }

end Failure

section

variable {m : Type → Type} [Monad m]

/-- Makes the first directory of a list, in which each path is followed by its ancestors,
and those of its ancestors that are missing. -/
def makeDirectories (fs : FileSystem m) : List String → m (Except DeviceError Unit)
  | [] => pure (.error (.other "failed to create whole tree"))
  | path :: ancestors => do
      if path = "" then return .ok ()
      match ← fs.makeDirectory path with
      | .ok () => pure (.ok ())
      | .error .notFound =>
          match ← makeDirectories fs ancestors with
          | .error cause => pure (.error cause)
          | .ok () => unlessDirectory path (← fs.makeDirectory path)
      | .error cause => unlessDirectory path (.error cause)
where
  /-- A failure to make a directory does not count where there is one. -/
  unlessDirectory (path : String) : Except DeviceError Unit → m (Except DeviceError Unit)
    | .ok () => pure (.ok ())
    | .error cause => do
        match ← fs.kind? path with
        | some .directory => pure (.ok ())
        | _ => pure (.error cause)

/-- Makes the output file, empty.  A directory is never replaced and a file only when
`overwrite` is set; missing directories above it are made. -/
def createOutput (fs : FileSystem m) (path : String) (overwrite : Bool) :
    m (Except String Unit) := do
  match ← fs.kind? path with
  | some .directory => pure (.error s!"There is a directory at {path}, refusing to overwrite")
  | some .file =>
      if overwrite then create
      else
        pure (.error (s!"Output file at {path} already exists, " ++
          "pass `--no-confirm-overwrite` to replace it"))
  | none =>
      match Path.ancestors path with
      | [] => pure (.error "Output file cannot be root.")
      | parent :: ancestors =>
          if parent = "" then create
          else if (← fs.kind? parent).isSome then create
          else
            match ← makeDirectories fs (parent :: ancestors) with
            | .error cause => pure (.error cause.message)
            | .ok () => create
where
  create : m (Except String Unit) := do
    match ← fs.create path with
    | .ok () => pure (.ok ())
    | .error cause => pure (.error cause.message)

/-- Makes the output file, if there is to be one. -/
def prepareOutput (fs : FileSystem m) (options : Options) : m (Except Failure Unit) := do
  match options.output with
  | none => pure (.ok ())
  | some path =>
      match ← createOutput fs path options.overwrite with
      | .ok () => pure (.ok ())
      | .error cause =>
          pure (.error ⟨s!"An error occurred while creating output file at `{path}`", [cause]⟩)

/-- Reads and decodes the input. -/
def readInput (fs : FileSystem m) (options : Options) : m (Except Failure File × Log) := do
  match ← fs.read options.input with
  | .error cause =>
      let fault := .device 0 "input file" cause
      pure (.error (.ofFault s!"Failed to open file {options.input}" fault), [])
  | .ok .directory => pure (.error (parseFailure (.device 0 "magic number" .isADirectory)), [])
  | .ok (.bytes bytes) =>
      match (File.read options.settings).run (ByteStream.ofBytes bytes) with
      | .ok file _ log => pure (.ok file, log)
      | .fail fault _ log => pure (.error (parseFailure fault), log)
where
  parseFailure (fault : Fault) : Failure := .ofFault s!"Failed to parse {options.input}" fault

/-- The text that is written for a file. -/
def document (format : OutputFormat) (file : File) : String :=
  match format with
  | .json => file.render.pretty ++ "\n"
  | .jsonLines => file.render.compact ++ "\n"

/-- What is said of a verbosity that is higher than any that shows more. -/
def verbosityHint (verbosity : Nat) : String :=
  if verbosity ≤ 3 then "" else "using more than -vvv does not affect verbosity level\n"

/-- The lines of a log that a verbosity shows. -/
def logText (verbosity : Nat) (log : Log) : String :=
  if verbosity = 0 then ""
  else
    let shown := log.filter fun
      | .warning _ => true
      | .note _ => decide (2 ≤ verbosity)
    String.join (shown.map fun message => message.line ++ "\n")

def failed (notes : String) (failure : Failure) : Report :=
  { exitCode := 1, stderr := notes ++ failure.text }

/-- Reads the input and writes its JSON to where it is wanted. -/
def dump (fs : FileSystem m) (options : Options) : m Report := do
  let hint := verbosityHint options.verbosity
  match ← prepareOutput fs options with
  | .error failure => pure (failed hint failure)
  | .ok () =>
      let (input, log) ← readInput fs options
      let notes := hint ++ logText options.verbosity log
      match input with
      | .error failure => pure (failed notes failure)
      | .ok file =>
          let text := document options.format file
          match options.output with
          | none => pure { stdout := text, stderr := notes }
          | some path =>
              match ← fs.write path text with
              | .ok () => pure { stderr := notes }
              | .error cause => pure (failed notes ⟨"Failed to write output", [cause.message]⟩)

end

def versionText : String := "XBF Parser 0.1.0\n"

/-- Does what an invocation asks for.  The words of the help and of a complaint about misuse are
no part of the report. -/
def perform {m : Type → Type} [Monad m] (fs : FileSystem m) : Invocation → m Report
  | .dump options => dump fs options
  | .showVersion => pure { stdout := versionText }
  | .showHelp => pure {}
  | .misuse => pure { exitCode := 2 }

end XamlBinary.Dump
