import XamlBinary.Dump.FileSystem
import XamlBinary.Dump.Path

/-!
A file system held in memory.  Paths are resolved from its root, whether they
are absolute or not.
-/

namespace XamlBinary.Dump

/-- The names that lead from the root to an entry. -/
abbrev Location := List String

inductive Entry where
  | file (bytes : List UInt8)
  | directory
deriving DecidableEq, Repr

def Entry.kind : Entry → EntryKind
  | file _ => .file
  | directory => .directory

/-- The entries below the root, each with its location. -/
structure FileTree where
  entries : List (Location × Entry) := []
deriving DecidableEq, Repr

namespace FileTree

/-- The entry at a location; the root is a directory. -/
def get? (tree : FileTree) : Location → Option Entry
  | [] => some .directory
  | location => (tree.entries.find? (·.1 == location)).map (·.2)

/-- The tree with an entry at a location in place of the one before. -/
def put (tree : FileTree) (location : Location) (entry : Entry) : FileTree :=
  ⟨(location, entry) :: tree.entries.filter (·.1 != location)⟩

theorem get?_put_self (tree : FileTree) {location : Location} (entry : Entry)
    (h : location ≠ []) :
    (tree.put location entry).get? location = some entry := by
  cases location with
  | nil => exact absurd rfl h
  | cons name names => simp [get?, put]

theorem get?_put_of_ne (tree : FileTree) {location other : Location} (entry : Entry)
    (h : other ≠ location) :
    (tree.put location entry).get? other = tree.get? other := by
  cases other with
  | nil => rfl
  | cons name names =>
      have hhead : ((location == name :: names) : Bool) = false := by
        simpa using fun e => h e.symm
      simp only [get?, put, List.find?_cons, hhead, List.find?_filter]
      congr 2
      funext entry'
      by_cases he : entry'.1 = name :: names
      · simp [he, h]
      · simp [he]

/-- Follows path components from a location.  Whatever a component is looked up in must be
a directory; an empty component and a dot stay there, two dots go up. -/
def follow (tree : FileTree) : Location → List String → Except DeviceError Location
  | location, [] => .ok location
  | location, component :: later =>
      match tree.get? location with
      | none => .error .notFound
      | some (.file _) => .error .notADirectory
      | some .directory =>
          if component = "" ∨ component = "." then follow tree location later
          else if component = ".." then follow tree location.dropLast later
          else follow tree (location ++ [component]) later

/-- Where a path leads.  The last name need not exist. -/
def resolve (tree : FileTree) (path : String) : Except DeviceError Location :=
  if path = "" then .error .notFound else tree.follow [] (Path.split path)

/-- What a path names, if it names anything. -/
def lookup (tree : FileTree) (path : String) : Except DeviceError Entry :=
  match tree.resolve path with
  | .error cause => .error cause
  | .ok location =>
      match tree.get? location with
      | some entry => .ok entry
      | none => .error .notFound

/-- Where a new entry of this name would go: slashes at the end do not count. -/
def target (tree : FileTree) (path : String) : Except DeviceError Location :=
  tree.resolve (String.ofList (path.toList.reverse.dropWhile (· = '/')).reverse)

def kind? (path : String) : StateM FileTree (Option EntryKind) := do
  match (← get).lookup path with
  | .ok entry => pure (some entry.kind)
  | .error _ => pure none

def read (path : String) : StateM FileTree (Except DeviceError Content) := do
  match (← get).lookup path with
  | .ok (.file bytes) => pure (.ok (.bytes bytes))
  | .ok .directory => pure (.ok .directory)
  | .error cause => pure (.error cause)

def makeDirectory (path : String) : StateM FileTree (Except DeviceError Unit) := do
  let tree ← get
  match tree.target path with
  | .error cause => pure (.error cause)
  | .ok location =>
      match tree.get? location with
      | some _ => pure (.error .alreadyExists)
      | none =>
          set (tree.put location .directory)
          pure (.ok ())

/-- Gives the file of that name new bytes, and makes it if there is none. -/
def putFile (path : String) (bytes : List UInt8) : StateM FileTree (Except DeviceError Unit) := do
  let tree ← get
  match tree.target path with
  | .error cause => pure (.error cause)
  | .ok location =>
      if Path.endsInSlash path ∨ tree.get? location = some .directory then
        pure (.error .isADirectory)
      else
        set (tree.put location (.file bytes))
        pure (.ok ())

/-- The operations on a tree. -/
def fileSystem : FileSystem (StateM FileTree) where
  kind? := kind?
  makeDirectory := makeDirectory
  create path := putFile path []
  write path text := putFile path text.toUTF8.toList
  read := read

end FileTree

end XamlBinary.Dump
