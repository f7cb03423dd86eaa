import XamlBinary.Json.Basic
import XamlBinary.Number.Text
import XamlBinary.Text.Hex

/-!
The text of JSON values, on one line without blanks (`Json.compact`) or with
one item a line, indented by two blanks a level (`Json.pretty`).  Reals that
are not finite are written as null.
-/

namespace XamlBinary.Json

/-- A character inside a string: quotes, backslashes and controls are escaped. -/
def escape (c : Char) : String :=
  if c = '"' then "\\\""
  else if c = '\\' then "\\\\"
  else if c.toNat = 8 then "\\b"
  else if c.toNat = 12 then "\\f"
  else if c = '\n' then "\\n"
  else if c = '\r' then "\\r"
  else if c = '\t' then "\\t"
  else if c.toNat < 32 then "\\u" ++ Hex.lower 4 c.toNat
  else c.toString

def quote (text : String) : String :=
  "\"" ++ text.toList.foldl (fun done c => done ++ escape c) "" ++ "\""

def realText (x : Single) : String := if x.isFinite then x.realText else "null"

mutual

/-- The text on one line. -/
def compact : Json → String
  | .null => "null"
  | .bool b => if b then "true" else "false"
  | .int n => toString n
  | .real x => realText x
  | .str text => quote text
  | .arr items => "[" ++ compactItems items ++ "]"
  | .obj fields => "\x7b" ++ compactFields fields ++ "\x7d"

def compactItems : List Json → String
  | [] => ""
  | [item] => item.compact
  | item :: items => item.compact ++ "," ++ compactItems items

def compactFields : List (String × Json) → String
  | [] => ""
  | [(key, value)] => quote key ++ ":" ++ value.compact
  | (key, value) :: fields => quote key ++ ":" ++ value.compact ++ "," ++ compactFields fields

end

/-- A line break and the indentation of a level. -/
def newline (level : Nat) : String := "\n" ++ String.ofList (List.replicate (2 * level) ' ')

mutual

/-- The text with one item a line; `level` counts the lists and objects around it. -/
def prettyAt (level : Nat) : Json → String
  | .null => "null"
  | .bool b => if b then "true" else "false"
  | .int n => toString n
  | .real x => realText x
  | .str text => quote text
  | .arr [] => "[]"
  | .arr items => "[" ++ prettyItems (level + 1) items ++ newline level ++ "]"
  | .obj [] => "\x7b\x7d"
  | .obj fields => "\x7b" ++ prettyFields (level + 1) fields ++ newline level ++ "\x7d"

def prettyItems (level : Nat) : List Json → String
  | [] => ""
  | [item] => newline level ++ prettyAt level item
  | item :: items => newline level ++ prettyAt level item ++ "," ++ prettyItems level items

def prettyFields (level : Nat) : List (String × Json) → String
  | [] => ""
  | [(key, value)] => newline level ++ quote key ++ ": " ++ prettyAt level value
  | (key, value) :: fields =>
      newline level ++ quote key ++ ": " ++ prettyAt level value ++ "," ++
        prettyFields level fields

end

def pretty (value : Json) : String := prettyAt 0 value

end XamlBinary.Json
