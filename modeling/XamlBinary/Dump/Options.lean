import XamlBinary.File.Basic

/-!
The command line of the dump tool.  Options that take a value may be given
once, with the value in the same word or in the next one; short flags can be
run together; a double dash ends the options.
-/

namespace XamlBinary.Dump

inductive OutputFormat where
  /-- Indented JSON. -/
  | json
  /-- The same document on one line. -/
  | jsonLines
deriving DecidableEq, Repr

structure Options where
  input : String
  format : OutputFormat
  /-- The file to write to, in place of standard output. -/
  output : Option String
  settings : Settings
  /-- Whether an existing output file is replaced. -/
  overwrite : Bool
  verbosity : Nat
deriving DecidableEq, Repr

/-- What a command line asks for. -/
inductive Invocation where
  | dump (options : Options)
  | showVersion
  | showHelp
  | misuse
deriving DecidableEq, Repr

/-- Options that take a value. -/
inductive ValueOption where
  | format
  | output
  | layout
deriving DecidableEq, Repr

/-- Options that take none and are given at most once. -/
inductive Switch where
  | overwrite
  | strict
deriving DecidableEq, Repr

/-- The options that have been seen so far. -/
structure Draft where
  input : Option String := none
  format : Option OutputFormat := none
  output : Option String := none
  layout : Option HeaderLayout := none
  overwrite : Bool := false
  strict : Bool := false
  verbosity : Nat := 0
deriving DecidableEq, Repr

namespace Draft

def format? : String → Option OutputFormat
  | "json" => some .json
  | "jsonl" => some .jsonLines
  | _ => none

def layout? : String → Option HeaderLayout
  | "detect" => some .detect
  | "legacy" => some .legacy
  | "versioned" => some .versioned
  | _ => none

/-- Takes a word that is no option. -/
def setInput (draft : Draft) (word : String) : Option Draft :=
  match draft.input with
  | none => some { draft with input := some word }
  | some _ => none

/-- Takes the value of an option, unless it is not one of its values or the option has one
already. -/
def setValue (draft : Draft) (option : ValueOption) (value : String) : Option Draft :=
  match option with
  | .format =>
      match draft.format, format? value with
      | none, some format => some { draft with format := some format }
      | _, _ => none
  | .output =>
      match draft.output with
      | none => some { draft with output := some value }
      | some _ => none
  | .layout =>
      match draft.layout, layout? value with
      | none, some layout => some { draft with layout := some layout }
      | _, _ => none

def setSwitch (draft : Draft) : Switch → Option Draft
  | .overwrite => if draft.overwrite then none else some { draft with overwrite := true }
  | .strict => if draft.strict then none else some { draft with strict := true }

/-- The options that stand when the words have come to their end. -/
def finish (draft : Draft) : Invocation :=
  match draft.input with
  | none => .misuse
  | some input =>
      .dump {
        input
        format := draft.format.getD .json
        output := draft.output
        settings := { layout := draft.layout.getD .detect, strict := draft.strict }
        overwrite := draft.overwrite
        verbosity := draft.verbosity }

end Draft

/-- Where the options stand after a word, or the invocation that it decides. -/
inductive Progress where
  | next (draft : Draft)
  /-- The next word is the value of an option. -/
  | pending (draft : Draft) (option : ValueOption)
  | stop (invocation : Invocation)
deriving DecidableEq, Repr

namespace Progress

def ofOption : Option Draft → Progress
  | some draft => next draft
  | none => stop .misuse

end Progress

namespace Draft

/-- A word of short flags, without its dash.  The rest of the word behind an option that
takes a value is that value; an equals sign before it is dropped. -/
def shortFlags (draft : Draft) : List Char → Progress
  | [] => .next draft
  | 'v' :: flags => shortFlags { draft with verbosity := draft.verbosity + 1 } flags
  | 'V' :: _ => .stop .showVersion
  | 'h' :: _ => .stop .showHelp
  | 'o' :: value => withValue .format value
  | 'f' :: value => withValue .output value
  | _ :: _ => .stop .misuse
where
  withValue (option : ValueOption) : List Char → Progress
    | [] => .pending draft option
    | '=' :: value => .ofOption (draft.setValue option (String.ofList value))
    | value => .ofOption (draft.setValue option (String.ofList value))

/-- A long option by its name, with the value that stood behind an equals sign. -/
def longOption (draft : Draft) (name : String) (value : Option String) : Progress :=
  match name with
  | "format" => withValue .format
  | "output" => withValue .output
  | "header" => withValue .layout
  | "no-confirm-overwrite" => alone (.ofOption (draft.setSwitch .overwrite))
  | "strict" => alone (.ofOption (draft.setSwitch .strict))
  | "version" => alone (.stop .showVersion)
  | "help" => alone (.stop .showHelp)
  | _ => .stop .misuse
where
  withValue (option : ValueOption) : Progress :=
    match value with
    | some text => .ofOption (draft.setValue option text)
    | none => .pending draft option
  alone (progress : Progress) : Progress :=
    match value with
    | some _ => .stop .misuse
    | none => progress

/-- Words behind a double dash: only the input can stand there. -/
def operands (draft : Draft) : List String → Invocation
  | [] => draft.finish
  | word :: words =>
      match draft.setInput word with
      | some draft => operands draft words
      | none => .misuse

end Draft

/-- The text before the first equals sign, and the text behind it if there is one. -/
def splitAtEquals : List Char → List Char × Option (List Char)
  | [] => ([], none)
  | c :: cs =>
      if c = '=' then ([], some cs)
      else
        let (name, value) := splitAtEquals cs
        (c :: name, value)

/-- How a word begins. -/
inductive WordShape where
  | operand
  | doubleDash
  | long (name : String) (value : Option String)
  | short (flags : List Char)
deriving DecidableEq, Repr

def WordShape.of (word : String) : WordShape :=
  match word.toList with
  | ['-', '-'] => .doubleDash
  | '-' :: '-' :: text =>
      let (name, value) := splitAtEquals text
      .long (String.ofList name) (value.map String.ofList)
  | '-' :: c :: flags => .short (c :: flags)
  | _ => .operand

/-- Reads words on from a draft; `awaited` is an option whose value must come next. -/
def readWords (draft : Draft) (awaited : Option ValueOption) : List String → Invocation
  | [] => if awaited.isSome then .misuse else draft.finish
  | word :: words =>
      match awaited, WordShape.of word with
      | some option, .operand =>
          match draft.setValue option word with
          | some draft => readWords draft none words
          | none => .misuse
      | some _, _ => .misuse
      | none, .operand =>
          match draft.setInput word with
          | some draft => readWords draft none words
          | none => .misuse
      | none, .doubleDash => draft.operands words
      | none, .long name value => go (draft.longOption name value) words
      | none, .short flags => go (draft.shortFlags flags) words
where
  go (progress : Progress) (words : List String) : Invocation :=
    match progress with
    | .next draft => readWords draft none words
    | .pending draft option => readWords draft (some option) words
    | .stop invocation => invocation

/-- The invocation that the words of a command line stand for. -/
def Invocation.ofArguments (arguments : List String) : Invocation := readWords {} none arguments

end XamlBinary.Dump
