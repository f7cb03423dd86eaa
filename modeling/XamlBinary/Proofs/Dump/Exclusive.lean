import XamlBinary.Proofs.Dump.Preserve
import XamlBinary.Proofs.File.Extension

/-!
What a dump does that has no leave to replace files.  Its document goes to one
place, which is standard output or a file that was not there, and all other
files stay as they were.  One kind of output path escapes the refusal: one that
could not be followed before directories were made on its way.
-/

namespace XamlBinary.Dump

open FileTree (fileSystem)

variable {options : Options} {tree made after : FileTree} {path : String} {location : Location}
  {report : Report}

/-! ### What is asked of a dump -/

/-- The input leads to a file that was there before, and decodes to this one. -/
def Decodes (options : Options) (tree after : FileTree) (file : File) : Prop :=
  ∃ location bytes, after.resolve options.input = .ok location ∧
    tree.get? location = some (.file bytes) ∧ File.ofBytes options.settings bytes = .ok file

/-- The text is all that was written: to standard output, or to a file that is new and stands where
the output leads. -/
def Delivered (options : Options) (tree after : FileTree) (report : Report) (text : String) :
    Prop :=
  match options.output with
  | none => report.stdout = text ∧ after = tree
  | some path => report.stdout = "" ∧ ∃ location, after.resolve path = .ok location ∧
      tree.get? location = none ∧ after.get? location = some (.file text.toUTF8.toList) ∧
      ∀ other bytes, after.get? other = some (.file bytes) →
        other = location ∨ tree.get? other = some (.file bytes)

/-- No file that was there is touched, and the document is written whole or not at all. -/
structure Exclusive (options : Options) (tree after : FileTree) (report : Report) : Prop where
  kept : ∀ location bytes, tree.get? location = some (.file bytes) →
    after.get? location = some (.file bytes)
  silent : report.exitCode = 1 → report.stdout = ""
  whole : report.exitCode = 0 →
    ∃ file, Decodes options tree after file ∧
      Delivered options tree after report (document options.format file)

/-- The output goes up from a directory that was missing, and leads on to a file that was there and
that has been written over. -/
def Strays (options : Options) (tree after : FileTree) (report : Report) : Prop :=
  ∃ path location bytes, options.output = some path ∧ ".." ∈ Path.split path ∧
    (∃ cause, tree.resolve path = .error cause) ∧ after.resolve path = .ok location ∧
    tree.get? location = some (.file bytes) ∧
    (report.exitCode = 0 ∨ after.get? location ≠ some (.file bytes))

theorem Exclusive.not_strays (h : Exclusive options tree after report) :
    ¬ Strays options tree after report := by
  rintro ⟨path, location, bytes, houtput, -, -, hresolve, hfile, hzero | hchanged⟩
  · obtain ⟨file, -, hdelivered⟩ := h.whole hzero
    simp only [Delivered, houtput] at hdelivered
    obtain ⟨-, place, hplace, hnew, -⟩ := hdelivered
    obtain rfl : location = place := Except.ok.inj (hresolve.symm.trans hplace)
    rw [hfile] at hnew
    cases hnew
  · exact hchanged (h.kept location bytes hfile)

/-! ### How a dump ends -/

/-- The file of the output is about to be made: the path named nothing, directories have been made
that were missing, and it leads to a place where no directory is. -/
structure Prepared (tree : FileTree) (path : String) (made : FileTree) (location : Location) :
    Prop where
  absent : ∃ cause, tree.lookup path = .error cause
  grown : tree.Grown made
  place : made.resolve path = .ok location
  vacant : made.get? location ≠ some .directory

/-- The ways in which a dump ends that may not replace files. -/
inductive Ends (options : Options) (tree : FileTree) : Report → FileTree → Prop
  /-- Nothing was written. -/
  | refused (notes : String) (failure : Failure) (made : FileTree) (hgrown : tree.Grown made) :
      Ends options tree (failed notes failure) made
  /-- The output has been made but stays empty. -/
  | abandoned (notes : String) (failure : Failure) (path : String) (made : FileTree)
      (location : Location) (houtput : options.output = some path)
      (hprepared : Prepared tree path made location) :
      Ends options tree (failed notes failure) (made.put location (.file []))
  | printed (notes : String) (file : File) (bytes : List UInt8) (houtput : options.output = none)
      (hinput : tree.lookup options.input = .ok (.file bytes))
      (hfile : File.ofBytes options.settings bytes = .ok file) :
      Ends options tree { stdout := document options.format file, stderr := notes } tree
  | written (notes : String) (file : File) (bytes : List UInt8) (path : String) (made : FileTree)
      (location : Location) (houtput : options.output = some path)
      (hprepared : Prepared tree path made location)
      (hinput : (made.put location (.file [])).lookup options.input = .ok (.file bytes))
      (hfile : File.ofBytes options.settings bytes = .ok file) :
      Ends options tree { stderr := notes }
        (made.put location (.file (document options.format file).toUTF8.toList))

/-- What is read is a file that decodes. -/
theorem exists_of_readInput {file : File} {log : Log}
    (h : ((readInput fileSystem options).run tree).1 = (.ok file, log)) :
    ∃ bytes, tree.lookup options.input = .ok (.file bytes) ∧
      File.ofBytes options.settings bytes = .ok file := by
  rw [readInput, run_bind, FileTree.run_read] at h
  cases hlookup : tree.lookup options.input with
  | error cause =>
      rw [hlookup] at h
      cases h
  | ok entry =>
      rw [hlookup] at h
      cases entry with
      | directory => cases h
      | file bytes =>
          dsimp only at h
          refine ⟨bytes, rfl, ?_⟩
          rw [File.ofBytes]
          cases hread : (File.read options.settings).run (ByteStream.ofBytes bytes) with
          | ok found s noted =>
              rw [hread] at h
              cases h
              rfl
          | fail fault s noted =>
              rw [hread] at h
              cases h

/-- Once the output is made, or none is asked for, the dump fails or writes the document of what it
has read. -/
theorem run_dump_of_prepared {prepared : FileTree}
    (h : (prepareOutput fileSystem options).run tree = (.ok (), prepared)) :
    (∃ notes failure, (dump fileSystem options).run tree = (failed notes failure, prepared)) ∨
      ∃ notes file bytes, prepared.lookup options.input = .ok (.file bytes) ∧
        File.ofBytes options.settings bytes = .ok file ∧
        match options.output with
        | none => (dump fileSystem options).run tree =
            ({ stdout := document options.format file, stderr := notes }, prepared)
        | some path => ∃ place, prepared.resolve path = .ok place ∧
            (dump fileSystem options).run tree = ({ stderr := notes },
              prepared.put place (.file (document options.format file).toUTF8.toList)) := by
  rw [dump, run_bind, h]
  dsimp only
  rw [run_bind, tree_readInput]
  cases hinput : ((readInput fileSystem options).run prepared).1 with
  | mk input log =>
      cases input with
      | error failure => exact .inl ⟨_, failure, rfl⟩
      | ok file =>
          obtain ⟨bytes, hlookup, hfile⟩ := exists_of_readInput hinput
          cases houtput : options.output with
          | none => exact .inr ⟨_, file, bytes, hlookup, hfile, rfl⟩
          | some path =>
              dsimp only
              rw [run_bind, show fileSystem.write path (document options.format file) =
                FileTree.putFile path _ from rfl]
              obtain ⟨cause, hwrite⟩ | ⟨place, hplace, -, hwrite⟩ :=
                FileTree.run_putFile prepared path (document options.format file).toUTF8.toList
              · rw [hwrite]
                exact .inl ⟨_, _, rfl⟩
              · rw [hwrite]
                exact .inr ⟨_, file, bytes, hlookup, hfile, place, hplace, rfl⟩

/-- With an output to be made, it is made or the dump ends. -/
theorem prepared_or_refused (houtput : options.output = some path)
    (hoverwrite : options.overwrite = false) (tree : FileTree) :
    ∃ made : FileTree, tree.Grown made ∧
      ((∃ failure, (prepareOutput fileSystem options).run tree = (.error failure, made)) ∨
        ∃ location, Prepared tree path made location ∧
          (prepareOutput fileSystem options).run tree =
            (.ok (), made.put location (.file []))) := by
  rw [prepareOutput, houtput]
  dsimp only
  rw [hoverwrite, run_bind]
  obtain ⟨made, hgrown, ⟨cause, hcreate⟩ | ⟨location, hplace, hvacant, hcreate⟩⟩ :=
    creates_createOutput tree path false
  · rw [hcreate]
    exact ⟨made, hgrown, .inl ⟨_, rfl⟩⟩
  · have habsent : ∃ cause, tree.lookup path = .error cause := by
      cases hlookup : tree.lookup path with
      | error cause => exact ⟨cause, rfl⟩
      | ok entry =>
          obtain ⟨cause, hrefused⟩ := exists_error_of_lookup hlookup
          rw [hrefused] at hcreate
          cases hcreate
    rw [hcreate]
    exact ⟨made, hgrown, .inr ⟨location, ⟨habsent, hgrown, hplace, hvacant⟩, rfl⟩⟩

theorem ends_dump (hoverwrite : options.overwrite = false) (tree : FileTree) :
    Ends options tree ((dump fileSystem options).run tree).1
      ((dump fileSystem options).run tree).2 := by
  cases houtput : options.output with
  | none =>
      have hprepare : (prepareOutput fileSystem options).run tree = (.ok (), tree) := by
        rw [prepareOutput, houtput]
        rfl
      obtain ⟨notes, failure, hrun⟩ | ⟨notes, file, bytes, hinput, hfile, hrun⟩ :=
        run_dump_of_prepared hprepare
      · rw [hrun]
        exact .refused notes failure tree (.refl tree)
      · simp only [houtput] at hrun
        rw [hrun]
        exact .printed notes file bytes houtput hinput hfile
  | some path =>
      obtain ⟨made, hgrown, ⟨failure, hprepare⟩ | ⟨location, hprepared, hprepare⟩⟩ :=
        prepared_or_refused houtput hoverwrite tree
      · rw [dump, run_bind, hprepare]
        exact .refused _ failure made hgrown
      · obtain ⟨notes, failure, hrun⟩ | ⟨notes, file, bytes, hinput, hfile, hrun⟩ :=
          run_dump_of_prepared hprepare
        · rw [hrun]
          exact .abandoned notes failure path made location houtput hprepared
        · simp only [houtput] at hrun
          obtain ⟨place, hplace, hrun⟩ := hrun
          have hsame := (FileTree.resolve_put_eq_ok hprepared.vacant).mp hplace
          obtain rfl : location = place := Except.ok.inj (hprepared.place.symm.trans hsame)
          rw [hrun, FileTree.put_put]
          exact .written notes file bytes path made location houtput hprepared hinput hfile

/-! ### What it leaves -/

namespace Prepared

variable {bytes written : List UInt8}

theorem ne_nil (h : Prepared tree path made location) : location ≠ [] := by
  rintro rfl
  exact h.vacant rfl

theorem resolve (h : Prepared tree path made location) :
    (made.put location (.file written)).resolve path = .ok location :=
  (FileTree.resolve_put_eq_ok h.vacant).mpr h.place

theorem get?_self (h : Prepared tree path made location) :
    (made.put location (.file written)).get? location = some (.file written) :=
  FileTree.get?_put_self made _ h.ne_nil

/-- All other files are those of the tree. -/
theorem file_iff (h : Prepared tree path made location) {other : Location}
    (hother : other ≠ location) :
    (made.put location (.file written)).get? other = some (.file bytes) ↔
      tree.get? other = some (.file bytes) := by
  rw [FileTree.get?_put_of_ne made _ hother]
  exact ⟨h.grown.files other bytes, h.grown.keeps other _⟩

/-- A file that was there can only be where the output leads if the path goes up and could not be
followed before. -/
theorem strays (h : Prepared tree path made location) (hwell : tree.WellFormed)
    (houtput : options.output = some path) (hfile : tree.get? location = some (.file bytes))
    (hover : report.exitCode = 0 ∨
      (made.put location (.file written)).get? location ≠ some (.file bytes)) :
    Strays options tree (made.put location (.file written)) report := by
  obtain hlookup | ⟨hup, hcause⟩ := h.grown.keeps.resolve_of_file hwell hfile h.place
  · obtain ⟨cause, habsent⟩ := h.absent
    rw [hlookup] at habsent
    cases habsent
  · exact ⟨path, location, bytes, houtput, hup, hcause, h.resolve, hfile, hover⟩

theorem kept (h : Prepared tree path made location) (hwell : tree.WellFormed)
    (houtput : options.output = some path)
    (hstrays : ¬ Strays options tree (made.put location (.file written)) report)
    (place : Location) (bytes : List UInt8) (hfile : tree.get? place = some (.file bytes)) :
    (made.put location (.file written)).get? place = some (.file bytes) := by
  by_cases hplace : place = location
  · subst hplace
    exact Decidable.byContradiction fun hchanged =>
      hstrays (h.strays hwell houtput hfile (.inr hchanged))
  · exact (h.file_iff hplace).mpr hfile

end Prepared

/-- A file that is accepted has bytes. -/
theorem ne_nil_of_ofBytes {settings : Settings} {bytes : List UInt8} {file : File}
    (h : File.ofBytes settings bytes = .ok file) : bytes ≠ [] := by
  rintro rfl
  obtain ⟨body, hread, -⟩ := File.ofBytes_eq_ok.mp h
  have hlength := hread.header.length_eq
  have hsize : 0 < file.header.size := by
    rw [Header.size]
    split
    · decide
    · decide
  rw [List.length_nil] at hlength
  omega

/-- The input is not the output, which is empty when the input is read; so it was there before. -/
theorem Prepared.decodes {bytes written : List UInt8} {file : File}
    (h : Prepared tree path made location)
    (hinput : (made.put location (.file [])).lookup options.input = .ok (.file bytes))
    (hfile : File.ofBytes options.settings bytes = .ok file) :
    Decodes options tree (made.put location (.file written)) file := by
  obtain ⟨place, hplace, hentry⟩ := FileTree.lookup_eq_ok.mp hinput
  have hother : place ≠ location := by
    rintro rfl
    rw [h.get?_self] at hentry
    cases hentry
    exact ne_nil_of_ofBytes hfile rfl
  refine ⟨place, bytes, ?_, (h.file_iff hother).mp hentry, hfile⟩
  exact (FileTree.resolve_put_eq_ok h.vacant).mpr ((FileTree.resolve_put_eq_ok h.vacant).mp hplace)

theorem Prepared.delivered {text : String} (h : Prepared tree path made location)
    (houtput : options.output = some path) (hnew : ∀ bytes, tree.get? location ≠ some (.file bytes))
    (hsilent : report.stdout = "") :
    Delivered options tree (made.put location (.file text.toUTF8.toList)) report text := by
  have hnone : tree.get? location = none := by
    cases hentry : tree.get? location with
    | none => rfl
    | some entry =>
        cases entry with
        | file bytes => exact absurd hentry (hnew bytes)
        | directory => exact absurd (h.grown.keeps _ _ hentry) h.vacant
  simp only [Delivered, houtput]
  refine ⟨hsilent, location, h.resolve, hnone, h.get?_self, fun other bytes hfile => ?_⟩
  by_cases hother : other = location
  · exact .inl hother
  · exact .inr ((h.file_iff hother).mp hfile)

theorem Ends.exitCode (h : Ends options tree report after) :
    report.exitCode = 0 ∨ report.exitCode = 1 := by
  cases h with
  | refused | abandoned => exact .inr rfl
  | printed | written => exact .inl rfl

theorem Ends.exclusive (h : Ends options tree report after) (hwell : tree.WellFormed)
    (hstrays : ¬ Strays options tree after report) : Exclusive options tree after report := by
  have hnonzero : (1 : UInt32) ≠ 0 := by decide
  cases h with
  | refused notes failure made hgrown =>
      exact ⟨fun location bytes => hgrown.keeps location _, fun _ => rfl,
        fun hzero => absurd hzero hnonzero⟩
  | abandoned notes failure path made location houtput hprepared =>
      exact ⟨hprepared.kept hwell houtput hstrays, fun _ => rfl,
        fun hzero => absurd hzero hnonzero⟩
  | printed notes file bytes houtput hinput hfile =>
      obtain ⟨place, hplace, hentry⟩ := FileTree.lookup_eq_ok.mp hinput
      refine ⟨fun _ _ hkept => hkept, fun hone => absurd hone.symm hnonzero,
        fun _ => ⟨file, ⟨place, bytes, hplace, hentry, hfile⟩, ?_⟩⟩
      simp [Delivered, houtput]
  | written notes file bytes path made location houtput hprepared hinput hfile =>
      have hnew (old : List UInt8) : tree.get? location ≠ some (.file old) := fun hold =>
        hstrays (hprepared.strays hwell houtput hold (.inl rfl))
      exact ⟨hprepared.kept hwell houtput hstrays, fun _ => rfl,
        fun _ => ⟨file, hprepared.decodes hinput hfile, hprepared.delivered houtput hnew rfl⟩⟩

/-- A dump without leave to replace files keeps all of them and writes its document whole, to one
place, or not at all, exactly unless its output goes up from a directory that is missing and leads
on to a file: the output is looked for before the directories on its way are made. -/
theorem exclusive_iff_not_strays (arguments : List String) (options : Options)
    (tree after : FileTree) (report : Report) (hwell : tree.WellFormed)
    (hinvocation : Invocation.ofArguments arguments = .dump options)
    (hoverwrite : options.overwrite = false)
    (hrun : (perform fileSystem (.ofArguments arguments)).run tree = (report, after)) :
    (report.exitCode = 0 ∨ report.exitCode = 1) ∧
      (Exclusive options tree after report ↔ ¬ Strays options tree after report) := by
  rw [hinvocation] at hrun
  have hends := ends_dump hoverwrite tree
  rw [show (dump fileSystem options).run tree = (report, after) from hrun] at hends
  exact ⟨hends.exitCode, Exclusive.not_strays, hends.exclusive hwell⟩

/-- A file without substreams, alone. -/
def lone : FileTree := ⟨[(["in"], .file (File.bytes ⟨⟨24, 4, none⟩, {}, []⟩))]⟩

theorem wellFormed_lone : lone.WellFormed := by
  intro location name entry h
  cases location with
  | nil => rfl
  | cons first names => simp [lone, FileTree.get?] at h

/-- It is dumped into a directory that is made for the output. -/
theorem exclusive_lone :
    ∃ report after, (perform fileSystem (.ofArguments ["-f", "new/out", "in"])).run lone =
      (report, after) ∧ report.exitCode = 0 ∧
        Exclusive ⟨"in", .json, some "new/out", {}, false, 0⟩ lone after report := by
  have hinvocation : Invocation.ofArguments ["-f", "new/out", "in"] =
      .dump ⟨"in", .json, some "new/out", {}, false, 0⟩ := by cbv
  have hzero : ((dump fileSystem ⟨"in", .json, some "new/out", {}, false, 0⟩).run lone).1.exitCode =
      0 := by decide +kernel
  cases hrun : (perform fileSystem (.ofArguments ["-f", "new/out", "in"])).run lone with
  | mk report after =>
      have hiff := (exclusive_iff_not_strays ["-f", "new/out", "in"] _ lone after report
        wellFormed_lone hinvocation rfl hrun).2
      rw [hinvocation] at hrun
      rw [show (dump fileSystem _).run lone = _ from hrun] at hzero
      refine ⟨report, after, rfl, hzero, hiff.mpr ?_⟩
      rintro ⟨path, location, bytes, houtput, hup, -⟩
      cases houtput
      exact absurd hup (by decide +kernel)

/-- The path of the output goes up from a directory that is not there, to a file that is: the dump
makes the directory, finds the path free and empties the file. -/
theorem not_forall_exclusive :
    ¬ ∀ (arguments : List String) (options : Options) (tree after : FileTree) (report : Report),
      tree.WellFormed → Invocation.ofArguments arguments = .dump options →
      options.overwrite = false →
      (perform fileSystem (.ofArguments arguments)).run tree = (report, after) →
      Exclusive options tree after report := by
  intro hall
  have hinvocation : Invocation.ofArguments ["-f", "new/../out", "in"] =
      .dump ⟨"in", .json, some "new/../out", {}, false, 0⟩ := by cbv
  have hempty : ((dump fileSystem ⟨"in", .json, some "new/../out", {}, false, 0⟩).run
      beside).2.get? ["out"] = some (.file []) := by decide +kernel
  cases hrun : (perform fileSystem (.ofArguments ["-f", "new/../out", "in"])).run beside with
  | mk report after =>
      have hkept := (hall ["-f", "new/../out", "in"] _ beside after report wellFormed_beside
        hinvocation rfl hrun).kept ["out"] [1] rfl
      rw [hinvocation] at hrun
      rw [show (dump fileSystem _).run beside = _ from hrun] at hempty
      cases hempty.symm.trans hkept

end XamlBinary.Dump
