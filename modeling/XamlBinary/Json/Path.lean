import XamlBinary.Json.Text

/-!
Paths into JSON values, and the nulls of a value.
-/

namespace XamlBinary.Json

/-- A step from a value to one of its parts. -/
inductive Step where
  | field (key : String)
  | item (index : Nat)
deriving DecidableEq, Repr

abbrev Path := List Step

/-- The part that a step leads to. -/
def child? : Json → Step → Option Json
  | .obj fields, .field key => fields.lookup key
  | .arr items, .item index => items[index]?
  | _, _ => none

/-- The part at the end of a path. -/
def at? (value : Json) : Path → Option Json
  | [] => some value
  | step :: path => (value.child? step).bind fun part => part.at? path

@[simp] theorem at?_nil (value : Json) : value.at? [] = some value := rfl

@[simp] theorem at?_field (fields : List (String × Json)) (key : String) (path : Path) :
    (obj fields).at? (.field key :: path) =
      (fields.lookup key).bind fun part => part.at? path := rfl

@[simp] theorem at?_item (items : List Json) (index : Nat) (path : Path) :
    (arr items).at? (.item index :: path) = items[index]?.bind fun part => part.at? path := rfl

/-- How many items a list has. -/
def itemCount? : Json → Option Nat
  | .arr items => some items.length
  | _ => none

/-- Whether a value is written as null, as reals are that are not finite. -/
def isNull : Json → Bool
  | .null => true
  | .real x => !x.isFinite
  | _ => false

theorem compact_of_isNull {value : Json} (h : value.isNull) : value.compact = "null" := by
  cases value with
  | null => simp [compact]
  | real x => simp_all [isNull, compact, realText]
  | bool | int | str | arr | obj => cases h

mutual

/-- The paths to all parts that are written as null, in the order of the text. -/
def nulls : Json → List Path
  | .null => [[]]
  | .real x => if x.isFinite then [] else [[]]
  | .bool _ | .int _ | .str _ => []
  | .arr items => nullItems 0 items
  | .obj fields => nullFields fields

/-- The nulls in items of which the first has the given index. -/
def nullItems (index : Nat) : List Json → List Path
  | [] => []
  | item :: later => item.nulls.map (.item index :: ·) ++ nullItems (index + 1) later

def nullFields : List (String × Json) → List Path
  | [] => []
  | (key, value) :: later => value.nulls.map (.field key :: ·) ++ nullFields later

end

end XamlBinary.Json
