/-!
File names as text with slashes between their components.
-/

namespace XamlBinary.Dump.Path

/-- The pieces of a text between its slashes. -/
def pieces : List Char → List (List Char)
  | [] => [[]]
  | c :: cs =>
      if c = '/' then [] :: pieces cs
      else
        match pieces cs with
        | [] => [[c]]
        | piece :: later => (c :: piece) :: later

/-- The pieces of a path as it was written. -/
def split (path : String) : List String := (pieces path.toList).map String.ofList

def isAbsolute (path : String) : Bool := path.toList.head? == some '/'

/-- Whether the path ends in a slash, and so can only name a directory. -/
def endsInSlash (path : String) : Bool := path.toList.getLast? == some '/'

/-- The components of a path.  Empty pieces do not count, nor does a single dot, except at
the start of a relative path. -/
def components (path : String) : List String :=
  match split path with
  | "." :: later => "." :: later.filter fun piece => piece != "" && piece != "."
  | all => all.filter fun piece => piece != "" && piece != "."

/-- A path with the given components. -/
def join (absolute : Bool) (components : List String) : String :=
  (if absolute then "/" else "") ++ "/".intercalate components

/-- The path without its last component, and so on up to the shortest. -/
def ancestors (path : String) : List String :=
  let parts := components path
  (List.range parts.length).reverse.map fun count => join (isAbsolute path) (parts.take count)

end XamlBinary.Dump.Path
