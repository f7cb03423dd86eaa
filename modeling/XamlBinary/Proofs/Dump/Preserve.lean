import XamlBinary.Dump.Run
import XamlBinary.Proofs.Dump.FileTree

/-!
What a dump that fails leaves of a tree of files.  Making directories only adds
to the tree, and so does making the output file, unless it is there already;
all else that can fail changes nothing.  So there is one file that a failed
dump can empty, the one that its output leads to.
-/

namespace XamlBinary.Dump

variable {α β : Type} {tree : FileTree} {path : String}

theorem run_get_bind (next : FileTree → StateM FileTree β) (tree : FileTree) :
    (get >>= next).run tree = (next tree).run tree := rfl

theorem run_bind (step : StateM FileTree α) (next : α → StateM FileTree β) (tree : FileTree) :
    (step >>= next).run tree = (next (step.run tree).1).run (step.run tree).2 := rfl

/-! ### Actions that only add -/

/-- Everything that is there before the action is there afterwards, and what is new are
directories. -/
def Conservative (action : StateM FileTree α) : Prop :=
  ∀ tree : FileTree, tree.Grown (action.run tree).2

namespace Conservative

theorem pure (a : α) : Conservative (Pure.pure a) :=
  fun tree => FileTree.Grown.refl tree

theorem bind {step : StateM FileTree α} {next : α → StateM FileTree β} (h : Conservative step)
    (hnext : ∀ a, Conservative (next a)) : Conservative (step >>= next) :=
  fun tree => (h tree).trans (hnext _ _)

end Conservative

namespace FileTree

/-- Looking changes nothing. -/
theorem run_kind? (tree : FileTree) (path : String) : (fileSystem.kind? path).run tree =
    (match tree.lookup path with
      | .ok entry => some entry.kind
      | .error _ => none, tree) := by
  rw [show fileSystem.kind? path = kind? path from rfl, kind?, run_get_bind]
  cases tree.lookup path with
  | ok entry => rfl
  | error cause => rfl

@[simp] theorem tree_kind? (tree : FileTree) (path : String) :
    ((fileSystem.kind? path).run tree).2 = tree := by
  rw [run_kind?]

/-- Neither does reading. -/
theorem run_read (tree : FileTree) (path : String) : (fileSystem.read path).run tree =
    (match tree.lookup path with
      | .ok (.file bytes) => .ok (.bytes bytes)
      | .ok .directory => .ok .directory
      | .error cause => .error cause, tree) := by
  rw [show fileSystem.read path = read path from rfl, read, run_get_bind]
  cases tree.lookup path with
  | error cause => rfl
  | ok entry => cases entry <;> rfl

theorem conservative_kind? (path : String) : Conservative (fileSystem.kind? path) := by
  intro tree
  rw [tree_kind?]
  exact Grown.refl tree

theorem conservative_makeDirectory (path : String) :
    Conservative (fileSystem.makeDirectory path) := by
  intro tree
  rw [show fileSystem.makeDirectory path = makeDirectory path from rfl, makeDirectory,
    run_get_bind]
  cases tree.target path with
  | error cause => exact Grown.refl tree
  | ok location =>
      dsimp only
      cases hentry : tree.get? location with
      | some entry => exact Grown.refl tree
      | none => exact grown_put hentry

/-- A file that gets new bytes stands where the path leads, which is at no directory; a failure
changes nothing. -/
theorem run_putFile (tree : FileTree) (path : String) (bytes : List UInt8) :
    (∃ cause, (putFile path bytes).run tree = (.error cause, tree)) ∨
      ∃ location, tree.resolve path = .ok location ∧ tree.get? location ≠ some .directory ∧
        (putFile path bytes).run tree = (.ok (), tree.put location (.file bytes)) := by
  rw [putFile, run_get_bind]
  cases htarget : tree.target path with
  | error cause => exact .inl ⟨cause, rfl⟩
  | ok location =>
      dsimp only
      by_cases hdirectory : Path.endsInSlash path = true ∨ tree.get? location = some .directory
      · rw [if_pos hdirectory]
        exact .inl ⟨_, rfl⟩
      · rw [if_neg hdirectory]
        rw [not_or, Bool.not_eq_true] at hdirectory
        rw [target_eq_resolve hdirectory.1] at htarget
        exact .inr ⟨location, htarget, hdirectory.2, rfl⟩

end FileTree

open FileTree (fileSystem)

theorem conservative_unlessDirectory (path : String) (result : Except DeviceError Unit) :
    Conservative (makeDirectories.unlessDirectory fileSystem path result) := by
  cases result with
  | ok _ => exact .pure _
  | error cause =>
      refine (FileTree.conservative_kind? path).bind fun kind => ?_
      split
      · exact .pure _
      · exact .pure _

theorem conservative_makeDirectories (paths : List String) :
    Conservative (makeDirectories fileSystem paths) := by
  induction paths with
  | nil => exact .pure _
  | cons path ancestors ih =>
      rw [makeDirectories]
      split
      · exact .pure _
      · refine (FileTree.conservative_makeDirectory path).bind fun result => ?_
        split
        · exact .pure _
        · refine ih.bind fun result => ?_
          split
          · exact .pure _
          · refine (FileTree.conservative_makeDirectory path).bind fun result => ?_
            exact conservative_unlessDirectory path result
        · exact conservative_unlessDirectory path _

/-! ### Making the output -/

/-- How making the file of a path ends: with a failure that changes nothing, or with an empty file
where the path leads. -/
def FileTree.Creates (tree : FileTree) (path : String) (outcome : Except String Unit × FileTree) :
    Prop :=
  (∃ cause, outcome = (.error cause, tree)) ∨
    ∃ location, tree.resolve path = .ok location ∧ tree.get? location ≠ some .directory ∧
      outcome = (.ok (), tree.put location (.file []))

theorem creates_create (tree : FileTree) (path : String) :
    tree.Creates path ((createOutput.create fileSystem path).run tree) := by
  rw [createOutput.create, run_bind, show fileSystem.create path = FileTree.putFile path [] from rfl]
  obtain ⟨cause, hfailed⟩ | ⟨location, hresolve, hvacant, hput⟩ := FileTree.run_putFile tree path []
  · rw [hfailed]
    exact .inl ⟨_, rfl⟩
  · rw [hput]
    exact .inr ⟨location, hresolve, hvacant, rfl⟩

/-- Making the file is what comes last, behind directories that are missing. -/
theorem creates_createOutput (tree : FileTree) (path : String) (overwrite : Bool) :
    ∃ made : FileTree, tree.Grown made ∧
      made.Creates path ((createOutput fileSystem path overwrite).run tree) := by
  have hrefl := FileTree.Grown.refl tree
  rw [createOutput, run_bind, FileTree.tree_kind?]
  split
  · exact ⟨tree, hrefl, .inl ⟨_, rfl⟩⟩
  · split
    · exact ⟨tree, hrefl, creates_create tree path⟩
    · exact ⟨tree, hrefl, .inl ⟨_, rfl⟩⟩
  · split
    · exact ⟨tree, hrefl, .inl ⟨_, rfl⟩⟩
    · rename_i parent ancestors _
      split
      · exact ⟨tree, hrefl, creates_create tree path⟩
      · rw [run_bind, FileTree.tree_kind?]
        split
        · exact ⟨tree, hrefl, creates_create tree path⟩
        · rw [run_bind]
          have hdirectories := conservative_makeDirectories (parent :: ancestors) tree
          split
          · exact ⟨_, hdirectories, .inl ⟨_, rfl⟩⟩
          · exact ⟨_, hdirectories, creates_create _ path⟩

/-- Directories may have been added, and then an empty file may have been put where the path
leads. -/
def FileTree.Made (tree : FileTree) (path : String) (after : FileTree) : Prop :=
  ∃ made : FileTree, tree.Extends made ∧ (after = made ∨
    ∃ location, made.resolve path = .ok location ∧ after = made.put location (.file []))

theorem made_createOutput (tree : FileTree) (path : String) (overwrite : Bool) :
    tree.Made path ((createOutput fileSystem path overwrite).run tree).2 := by
  obtain ⟨made, hgrown, ⟨cause, hrun⟩ | ⟨location, hresolve, -, hrun⟩⟩ :=
    creates_createOutput tree path overwrite
  · rw [hrun]
    exact ⟨made, hgrown.keeps, .inl rfl⟩
  · rw [hrun]
    exact ⟨made, hgrown.keeps, .inr ⟨location, hresolve, rfl⟩⟩

/-- Without leave to replace it, whatever the path names is refused, -/
theorem exists_error_of_lookup {entry : Entry} (h : tree.lookup path = .ok entry) :
    ∃ cause, (createOutput fileSystem path false).run tree = (.error cause, tree) := by
  rw [createOutput, run_bind, FileTree.run_kind?, h]
  cases entry with
  | file bytes => exact ⟨_, rfl⟩
  | directory => exact ⟨_, rfl⟩

/-- and stays as it is. -/
theorem createOutput_of_lookup {entry : Entry} (h : tree.lookup path = .ok entry) :
    ((createOutput fileSystem path false).run tree).2 = tree := by
  obtain ⟨cause, hrun⟩ := exists_error_of_lookup h
  rw [hrun]

/-! ### Failing -/

theorem tree_readInput (options : Options) (tree : FileTree) :
    ((readInput fileSystem options).run tree).2 = tree := by
  rw [readInput, run_bind, FileTree.run_read]
  split
  · rfl
  · rfl
  · split
    · rfl
    · rfl

/-- A dump that fails has changed nothing but what it changed to make the output. -/
theorem tree_of_dump_failed (options : Options) (tree : FileTree)
    (hfailed : ((dump fileSystem options).run tree).1.exitCode = 1) :
    ((dump fileSystem options).run tree).2 =
      ((prepareOutput fileSystem options).run tree).2 := by
  rw [dump, run_bind] at hfailed ⊢
  split at hfailed
  · rfl
  · rw [run_bind, tree_readInput] at hfailed ⊢
    generalize ((readInput fileSystem options).run _).1 = read at hfailed ⊢
    obtain ⟨input, log⟩ := read
    cases input with
    | error failure => rfl
    | ok file =>
        cases houtput : options.output with
        | none =>
            simp only [houtput] at hfailed
            exact absurd (show (0 : UInt32) = 1 from hfailed) (by decide)
        | some path =>
            simp only [houtput] at hfailed ⊢
            rw [run_bind, show fileSystem.write path (document options.format file) =
              FileTree.putFile path _ from rfl] at hfailed ⊢
            obtain ⟨cause, hwrite⟩ | ⟨location, -, -, hwrite⟩ := FileTree.run_putFile
              ((prepareOutput fileSystem options).run tree).2 path
              (document options.format file).toUTF8.toList
            · rw [hwrite]
              rfl
            · rw [hwrite] at hfailed
              exact absurd (show (0 : UInt32) = 1 from hfailed) (by decide)

/-- Preparing the output makes it, whatever is said of a failure. -/
theorem run_prepareOutput {options : Options} (h : options.output = some path)
    (tree : FileTree) : ((prepareOutput fileSystem options).run tree).2 =
      ((createOutput fileSystem path options.overwrite).run tree).2 := by
  rw [prepareOutput, h]
  dsimp only
  rw [run_bind]
  split
  · rfl
  · rfl

/-- Making the output can only empty a file to which the path leads in the end. -/
theorem FileTree.Made.get?_or {after : FileTree} (h : tree.Made path after) {location : Location}
    {bytes : List UInt8} (hfile : tree.get? location = some (.file bytes)) :
    after.get? location = some (.file bytes) ∨
      after.resolve path = .ok location ∧ after.get? location = some (.file []) ∧
        ∃ made : FileTree, tree.Extends made ∧ made.resolve path = .ok location := by
  obtain ⟨made, hextends, rfl | ⟨place, hresolve, rfl⟩⟩ := h
  · exact .inl (hextends _ _ hfile)
  · have hfile' := hextends _ _ hfile
    by_cases hplace : location = place
    · subst hplace
      right
      refine ⟨?_, FileTree.get?_put_self made _ (FileTree.ne_nil_of_file hfile'), made, hextends,
        hresolve⟩
      rw [FileTree.resolve_eq_ok] at hresolve ⊢
      rwa [FileTree.follow_put_file hfile']
    · left
      rw [FileTree.get?_put_of_ne made _ hplace, hfile']

/-- A path that leads to a file of the tree once directories have been added, and named nothing
before, goes up somewhere, and could not be followed. -/
theorem FileTree.Extends.resolve_of_file {made : FileTree} (h : tree.Extends made)
    (hwell : tree.WellFormed) {location : Location} {bytes : List UInt8}
    (hfile : tree.get? location = some (.file bytes)) (hresolve : made.resolve path = .ok location) :
    tree.lookup path = .ok (.file bytes) ∨
      ".." ∈ Path.split path ∧ ∃ cause, tree.resolve path = .error cause := by
  obtain ⟨hpath, hfollow⟩ := FileTree.resolve_eq_ok.mp hresolve
  cases hplace : tree.resolve path with
  | ok place =>
      obtain ⟨-, hfollow'⟩ := FileTree.resolve_eq_ok.mp hplace
      obtain rfl : place = location := Except.ok.inj ((h.follow hfollow').symm.trans hfollow)
      left
      rw [FileTree.lookup, hplace]
      dsimp only
      rw [hfile]
  | error cause =>
      by_cases hup : ".." ∈ Path.split path
      · exact .inr ⟨hup, cause, rfl⟩
      · have hfollow' := h.follow_of_file hwell hup hfile hfollow
        rw [FileTree.resolve_eq_ok.mpr ⟨hpath, hfollow'⟩] at hplace
        cases hplace

/-- Only a dump ends with exit code 1. -/
theorem exists_dump_of_perform {invocation : Invocation} {after : FileTree} {report : Report}
    (hrun : (perform fileSystem invocation).run tree = (report, after))
    (hfailed : report.exitCode = 1) :
    ∃ options, invocation = .dump options ∧
      (dump fileSystem options).run tree = (report, after) := by
  cases invocation with
  | dump options => exact ⟨options, rfl, hrun⟩
  | showVersion =>
      cases hrun
      exact absurd hfailed (by decide)
  | showHelp =>
      cases hrun
      exact absurd hfailed (by decide)
  | misuse =>
      cases hrun
      exact absurd hfailed (by decide)

/-- A dump that fails leaves every file as it was, with the exception of the one file that the
output leads to after the run, which may have been emptied and may be the input as well.  That
takes leave to replace the output, or an output that could not be found before because it goes up
from a directory that was missing. -/
theorem perform_failed_keeps (arguments : List String) (tree after : FileTree) (report : Report)
    (hwell : tree.WellFormed)
    (hrun : (perform fileSystem (.ofArguments arguments)).run tree = (report, after))
    (hfailed : report.exitCode = 1) (location : Location) (bytes : List UInt8)
    (hfile : tree.get? location = some (.file bytes)) :
    after.get? location = some (.file bytes) ∨
      ∃ options path, Invocation.ofArguments arguments = .dump options ∧
        options.output = some path ∧ after.resolve path = .ok location ∧
        after.get? location = some (.file []) ∧
        (options.overwrite = true ∨
          options.overwrite = false ∧ ".." ∈ Path.split path ∧
            ∃ cause, tree.resolve path = .error cause) := by
  obtain ⟨options, hinvocation, hdump⟩ := exists_dump_of_perform hrun hfailed
  have hafter := tree_of_dump_failed options tree (by rw [hdump]; exact hfailed)
  rw [hdump] at hafter
  obtain rfl : after = ((prepareOutput fileSystem options).run tree).2 := hafter
  cases houtput : options.output with
  | none =>
      left
      rw [prepareOutput, houtput]
      exact hfile
  | some path =>
      have hmade := made_createOutput tree path options.overwrite
      rw [run_prepareOutput houtput]
      obtain hkept | ⟨hresolve, hempty, made, hextends, hplace⟩ := hmade.get?_or hfile
      · exact .inl hkept
      · cases hoverwrite : options.overwrite with
        | true =>
            rw [hoverwrite] at hresolve hempty
            exact .inr ⟨options, path, hinvocation, houtput, hresolve, hempty, .inl hoverwrite⟩
        | false =>
            obtain hentry | hup := hextends.resolve_of_file hwell hfile hplace
            · left
              rw [createOutput_of_lookup hentry]
              exact hfile
            · rw [hoverwrite] at hresolve hempty
              exact .inr ⟨options, path, hinvocation, houtput, hresolve, hempty,
                .inr ⟨hoverwrite, hup⟩⟩

/-- An input that is no file of the format, beside a file that is already there. -/
def beside : FileTree := ⟨[(["out"], .file [1]), (["in"], .file [])]⟩

theorem wellFormed_beside : beside.WellFormed := by
  intro location name entry h
  cases location with
  | nil => rfl
  | cons first names => simp [beside, FileTree.get?] at h

/-- The dump refuses to replace the file. -/
theorem failed_keeps_beside :
    ∃ report after, (perform fileSystem (.ofArguments ["-f", "out", "in"])).run beside =
      (report, after) ∧ report.exitCode = 1 ∧ after.get? ["out"] = some (.file [1]) := by
  have hinvocation : Invocation.ofArguments ["-f", "out", "in"] =
      .dump ⟨"in", .json, some "out", {}, false, 0⟩ := by cbv
  have hfailed : ((dump fileSystem ⟨"in", .json, some "out", {}, false, 0⟩).run beside).1.exitCode =
      1 := by decide +kernel
  refine ⟨_, _, rfl, by rw [hinvocation]; exact hfailed, ?_⟩
  obtain hkept | ⟨options, path, hoptions, houtput, -, -, hoverwrite | ⟨-, hup, -⟩⟩ :=
    perform_failed_keeps ["-f", "out", "in"] beside _ _ wellFormed_beside rfl
      (by rw [hinvocation]; exact hfailed) ["out"] [1] rfl
  · exact hkept
  · rw [hinvocation] at hoptions
    cases hoptions
    cases hoverwrite
  · rw [hinvocation] at hoptions
    cases hoptions
    cases houtput
    exact absurd hup (by decide +kernel)

/-- Told to replace the file, the dump empties it before it finds that the input is no file of
the format. -/
theorem not_forall_failed_keeps :
    ¬ ∀ (arguments : List String) (tree after : FileTree) (report : Report), tree.WellFormed →
      (perform fileSystem (.ofArguments arguments)).run tree = (report, after) →
      report.exitCode = 1 → ∀ location bytes, tree.get? location = some (.file bytes) →
        after.get? location = some (.file bytes) := by
  intro hall
  have hinvocation : Invocation.ofArguments ["--no-confirm-overwrite", "-f", "out", "in"] =
      .dump ⟨"in", .json, some "out", {}, true, 0⟩ := by cbv
  have hfailed : ((dump fileSystem ⟨"in", .json, some "out", {}, true, 0⟩).run beside).1.exitCode =
      1 := by decide +kernel
  have hempty : ((dump fileSystem ⟨"in", .json, some "out", {}, true, 0⟩).run beside).2.get? ["out"] =
      some (.file []) := by decide +kernel
  have hkept := hall ["--no-confirm-overwrite", "-f", "out", "in"] beside _ _ wellFormed_beside rfl
    (by rw [hinvocation]; exact hfailed) ["out"] [1] rfl
  rw [hinvocation] at hkept
  cases hempty.symm.trans hkept

end XamlBinary.Dump
