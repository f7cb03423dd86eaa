import Mathlib.Data.List.Induction
import XamlBinary.Dump.FileTree

/-!
Trees of files before and after an action.  Paths lead on through directories,
so what can be found in a tree is found at the same place in every tree that
has more in it; the other way round this holds for files, and for paths that
never go up.
-/

namespace XamlBinary.Dump.FileTree

variable {tree after more : FileTree} {location place : Location} {components : List String}
  {bytes : List UInt8}

/-- All that is in the tree is in the other one, too, and the same. -/
def Extends (tree after : FileTree) : Prop :=
  ∀ location entry, tree.get? location = some entry → after.get? location = some entry

/-- Every entry is in a directory. -/
def WellFormed (tree : FileTree) : Prop :=
  ∀ location name entry, tree.get? (location ++ [name]) = some entry →
    tree.get? location = some .directory

theorem Extends.refl (tree : FileTree) : tree.Extends tree :=
  fun _ _ h => h

theorem Extends.trans (h : tree.Extends after) (h' : after.Extends more) : tree.Extends more :=
  fun location entry hentry => h' location entry (h location entry hentry)

theorem extends_put {entry : Entry} (h : tree.get? location = none) :
    tree.Extends (tree.put location entry) := by
  intro other entry' hother
  have hne : other ≠ location := by
    rintro rfl
    rw [h] at hother
    cases hother
  rw [get?_put_of_ne tree entry hne, hother]

/-- What is put last is what stays. -/
theorem put_put (tree : FileTree) (location : Location) (first second : Entry) :
    (tree.put location first).put location second = tree.put location second := by
  simp [put]

/-- Directories have been added to the tree, if anything. -/
structure Grown (tree after : FileTree) : Prop where
  keeps : tree.Extends after
  files : ∀ location bytes, after.get? location = some (.file bytes) →
    tree.get? location = some (.file bytes)

theorem Grown.refl (tree : FileTree) : tree.Grown tree :=
  ⟨.refl tree, fun _ _ h => h⟩

theorem Grown.trans (h : tree.Grown after) (h' : after.Grown more) : tree.Grown more :=
  ⟨h.keeps.trans h'.keeps, fun location bytes hfile => h.files _ _ (h'.files location bytes hfile)⟩

theorem grown_put (h : tree.get? location = none) : tree.Grown (tree.put location .directory) := by
  refine ⟨extends_put h, fun other bytes hfile => ?_⟩
  by_cases hother : other = location
  · subst hother
    have hroot : other ≠ [] := by
      rintro rfl
      cases h
    rw [get?_put_self tree _ hroot] at hfile
    cases hfile
  · rwa [get?_put_of_ne tree _ hother] at hfile

/-- The root is no file. -/
theorem ne_nil_of_file (h : tree.get? location = some (.file bytes)) : location ≠ [] := by
  rintro rfl
  cases h

/-- Whatever lies above an entry is a directory. -/
theorem WellFormed.directory_of_append (h : tree.WellFormed) {names : List String} {entry : Entry}
    (hentry : tree.get? (location ++ names) = some entry) (hnames : names ≠ []) :
    tree.get? location = some .directory := by
  induction names using List.reverseRecOn generalizing entry with
  | nil => exact absurd rfl hnames
  | append_singleton names name ih =>
      rw [← List.append_assoc] at hentry
      have hparent := h _ _ _ hentry
      by_cases hnil : names = []
      · rwa [hnil, List.append_nil] at hparent
      · exact ih hparent hnil

/-! ### Following a path -/

/-- One component of a path: it is looked up in a directory. -/
theorem follow_cons_eq_ok {component : String} {later : List String} :
    tree.follow location (component :: later) = .ok place ↔
      tree.get? location = some .directory ∧
        tree.follow (if component = "" ∨ component = "." then location
          else if component = ".." then location.dropLast
          else location ++ [component]) later = .ok place := by
  rw [follow]
  cases hentry : tree.get? location with
  | none => simp
  | some entry =>
      cases entry with
      | file bytes => simp
      | directory =>
          simp only [true_and]
          split
          · exact Iff.rfl
          · split
            · exact Iff.rfl
            · exact Iff.rfl

theorem Extends.follow (h : tree.Extends after)
    (hfollow : tree.follow location components = .ok place) :
    after.follow location components = .ok place := by
  induction components generalizing location with
  | nil => exact hfollow
  | cons component later ih =>
      obtain ⟨hdirectory, hlater⟩ := follow_cons_eq_ok.mp hfollow
      exact follow_cons_eq_ok.mpr ⟨h _ _ hdirectory, ih hlater⟩

/-- A path that never goes up leads to a place below. -/
theorem exists_append_of_follow (hup : ".." ∉ components)
    (hfollow : tree.follow location components = .ok place) :
    ∃ names, place = location ++ names := by
  induction components generalizing location with
  | nil =>
      cases hfollow
      exact ⟨[], (List.append_nil _).symm⟩
  | cons component later ih =>
      rw [List.mem_cons, not_or] at hup
      obtain ⟨hcomponent, hup⟩ := hup
      obtain ⟨-, hlater⟩ := follow_cons_eq_ok.mp hfollow
      rw [if_neg (Ne.symm hcomponent)] at hlater
      split at hlater
      · exact ih hup hlater
      · obtain ⟨names, rfl⟩ := ih hup hlater
        exact ⟨component :: names, by rw [List.append_assoc, List.singleton_append]⟩

/-- A path that never goes up and leads to a file of the tree in a larger one does so in the
tree: the directories on the way are those above the file. -/
theorem Extends.follow_of_file (h : tree.Extends after) (hwell : tree.WellFormed)
    (hup : ".." ∉ components) (hfile : tree.get? place = some (.file bytes))
    (hfollow : after.follow location components = .ok place) :
    tree.follow location components = .ok place := by
  induction components generalizing location with
  | nil => exact hfollow
  | cons component later ih =>
      obtain ⟨names, rfl⟩ := exists_append_of_follow hup hfollow
      obtain ⟨hdirectory, hlater⟩ := follow_cons_eq_ok.mp hfollow
      have hnames : names ≠ [] := by
        rintro rfl
        rw [List.append_nil] at hfile
        rw [h _ _ hfile] at hdirectory
        cases hdirectory
      have hup' : ".." ∉ later := fun hmem => hup (List.mem_cons_of_mem _ hmem)
      exact follow_cons_eq_ok.mpr ⟨hwell.directory_of_append hfile hnames, ih hup' hlater⟩

/-- New bytes in a file change no path. -/
theorem follow_put_file {bytes' : List UInt8} (hfile : tree.get? place = some (.file bytes)) :
    (tree.put place (.file bytes')).follow location components = tree.follow location components := by
  induction components generalizing location with
  | nil => rfl
  | cons component later ih =>
      rw [follow, follow]
      by_cases hplace : location = place
      · subst hplace
        rw [get?_put_self tree _ (ne_nil_of_file hfile), hfile]
      · rw [get?_put_of_ne tree _ hplace]
        simp only [ih]

/-- A file that is put where no directory is changes no path that leads anywhere. -/
theorem follow_put_eq_ok {target : Location} (h : tree.get? target ≠ some .directory) :
    (tree.put target (.file bytes)).follow location components = .ok place ↔
      tree.follow location components = .ok place := by
  have hroot : target ≠ [] := by
    rintro rfl
    exact h rfl
  induction components generalizing location with
  | nil => exact Iff.rfl
  | cons component later ih =>
      rw [follow_cons_eq_ok, follow_cons_eq_ok]
      refine and_congr ?_ ih
      by_cases hlocation : location = target
      · subst hlocation
        rw [get?_put_self tree _ hroot]
        exact iff_of_false (by simp) h
      · rw [get?_put_of_ne tree _ hlocation]

/-! ### Paths -/

theorem resolve_eq_ok {path : String} :
    tree.resolve path = .ok place ↔ path ≠ "" ∧ tree.follow [] (Path.split path) = .ok place := by
  rw [resolve]
  split
  · rename_i hempty
    exact iff_of_false (by simp) fun h => h.1 hempty
  · rename_i hpath
    exact (and_iff_right hpath).symm

theorem resolve_put_eq_ok {path : String} (h : tree.get? location ≠ some .directory) :
    (tree.put location (.file bytes)).resolve path = .ok place ↔ tree.resolve path = .ok place := by
  rw [resolve_eq_ok, resolve_eq_ok, follow_put_eq_ok h]

theorem lookup_eq_ok {path : String} {entry : Entry} :
    tree.lookup path = .ok entry ↔
      ∃ location, tree.resolve path = .ok location ∧ tree.get? location = some entry := by
  rw [lookup]
  cases hresolve : tree.resolve path with
  | error cause => simp
  | ok location =>
      cases hentry : tree.get? location with
      | none => simp [hentry]
      | some found => simp [hentry]

/-- A slash at the end is all that keeps a new file from where the path leads. -/
theorem target_eq_resolve {path : String} (h : Path.endsInSlash path = false) :
    tree.target path = tree.resolve path := by
  have hlast : path.toList.reverse.dropWhile (· = '/') = path.toList.reverse := by
    rw [Path.endsInSlash, ← List.head?_reverse] at h
    cases hlist : path.toList.reverse with
    | nil => rfl
    | cons c cs =>
        rw [hlist] at h
        refine List.dropWhile_cons_of_neg ?_
        simpa using h
  rw [target, hlast, List.reverse_reverse, String.ofList_toList]

end XamlBinary.Dump.FileTree
