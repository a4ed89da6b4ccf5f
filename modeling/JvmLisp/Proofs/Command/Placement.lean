import JvmLisp.Proofs.Command.Effects
import Mathlib.Data.List.TakeWhile

/-! # Where a class file goes

The class file goes into the output directory under the name of its class without the package. No
other file is touched, and none at all by a run that fails or lists.
-/

namespace JvmLisp

open Host (Fault FileTree Path.Plain World)

/-! ### File names -/

/-- The part of the class name behind its last slash. -/
def Naming.SimpleName (n : Naming) (simple : String) : Prop :=
  '/' ∉ simple.toList ∧ (n.className = simple ∨ ∃ package, n.className = package ++ "/" ++ simple)

theorem Naming.exists_simpleName (n : Naming) :
    ∃ simple, n.SimpleName simple ∧ n.fileName = simple ++ ".class" := by
  let name := n.className.toList
  refine ⟨String.ofList (name.reverse.takeWhile (· != '/')).reverse, ⟨?_, ?_⟩, rfl⟩
  · intro hslash
    rw [String.toList_ofList, List.mem_reverse] at hslash
    simpa using List.mem_takeWhile_imp hslash
  · have hsplit : name = (name.reverse.dropWhile (· != '/')).reverse ++
        (name.reverse.takeWhile (· != '/')).reverse := by
      rw [← List.reverse_append, List.takeWhile_append_dropWhile, List.reverse_reverse]
    -- The reversed name is cut at its first slash, if it has one.
    rcases hrest : name.reverse.dropWhile (· != '/') with _ | ⟨c, outer⟩
    · left
      rw [hrest] at hsplit
      apply String.toList_inj.1
      rw [String.toList_ofList]
      exact hsplit
    · right
      have hc : c = '/' := by
        have hne : name.reverse.dropWhile (· != '/') ≠ [] := by simp [hrest]
        simpa [hrest] using List.head_dropWhile_not (· != '/') hne
      rw [hrest, hc] at hsplit
      refine ⟨String.ofList outer.reverse, String.toList_inj.1 ?_⟩
      simpa using hsplit

theorem Naming.plain_fileName (n : Naming) : Path.Plain n.fileName := by
  obtain ⟨simple, ⟨hslash, -⟩, hname⟩ := n.exists_simpleName
  have hlength : 6 ≤ n.fileName.length := by
    rw [hname, String.length_append]
    exact Nat.le_add_left ..
  refine ⟨?_, ?_, ?_, ?_⟩
  · rw [hname]
    simpa using hslash
  all_goals
    intro h
    rw [h] at hlength
    revert hlength
    decide

namespace Command

variable {o : Options} {w : World} {bytes : List UInt8} {files : FileTree}

/-! ### Places -/

/-- The directory that the class file goes into: the named one, or else the working directory. -/
def Options.GoesInto (o : Options) (t : FileTree) (directory : List String) : Prop :=
  let path := o.outputDir.getD ""
  t.node? directory = some .directory ∧
    if path = "" then directory = t.here else t.resolve path (Host.Path.parts path) = .ok directory

/-- A class file has been put into the output directory under its own name. Directories may have
been made for it, and no other file is different. -/
structure Placed (o : Options) (bytes : List UInt8) (before after : FileTree)
    (directory : List String) : Prop where
  goesInto : o.GoesInto after directory
  resolve_eq : after.resolve o.outputPath (Host.Path.parts o.outputPath) =
    .ok (directory ++ [o.naming.fileName])
  readFile_eq : after.readFile o.outputPath = .ok bytes
  file_iff : ∀ names content, names ≠ directory ++ [o.naming.fileName] →
    (after.node? names = some (.file content) ↔ before.node? names = some (.file content))
  keeps_directory : ∀ names, before.node? names = some .directory →
    after.node? names = some .directory

theorem resolve_outputPath {t : FileTree} {names : List String}
    (h : t.resolve o.outputPath (Host.Path.parts o.outputPath) = .ok names) :
    ∃ directory, o.GoesInto t directory ∧ names = directory ++ [o.naming.fileName] := by
  have hname := o.naming.plain_fileName
  by_cases hpath : o.outputDir.getD "" = ""
  · have houtput : o.outputPath = o.naming.fileName := by
      rw [Options.outputPath]
      split
      · rename_i directory hdirectory
        obtain rfl : directory = "" := by simpa [hdirectory] using hpath
        exact Host.Path.join_empty _
      · rfl
    rw [houtput] at h
    obtain ⟨hhere, hnames⟩ := FileTree.resolve_plain hname h
    exact ⟨t.here, ⟨hhere, by rw [if_pos hpath]⟩, hnames⟩
  · have houtput : o.outputPath = Host.Path.join (o.outputDir.getD "") o.naming.fileName := by
      rw [Options.outputPath]
      split
      · rename_i directory hdirectory
        rw [hdirectory, Option.getD_some]
      · rename_i hdirectory
        exact absurd (by rw [hdirectory, Option.getD_none]) hpath
    rw [houtput] at h
    obtain ⟨directory, hresolve, hdirectory, hnames⟩ := FileTree.resolve_join hpath hname h
    exact ⟨directory, ⟨hdirectory, by rw [if_neg hpath]; exact hresolve⟩, hnames⟩

theorem Options.GoesInto.mono {t t' : FileTree} {directory : List String}
    (h : o.GoesInto t directory) (hhere : t'.here = t.here)
    (hkept : ∀ names, t.node? names = some .directory → t'.node? names = some .directory) :
    o.GoesInto t' directory := by
  obtain ⟨hdirectory, hplace⟩ := h
  refine ⟨hkept _ hdirectory, ?_⟩
  split_ifs at hplace ⊢
  · rw [hplace, hhere]
  · exact FileTree.resolve_of_directories hkept hhere hplace

/-- A file that is written when the output directory has been made is where it belongs. -/
theorem exists_placed {prepared : World} (hmake : o.makeDirectory w = (.ok (), prepared))
    (hfiles : prepared.files.writeFile o.outputPath bytes = .ok files) :
    ∃ directory, Placed o bytes w.files files directory := by
  have hadded : w.files.AddsDirectories prepared.files := by
    obtain ⟨files, hadds, rfl⟩ := (makesDirectories_makeDirectory o).exists_of_apply hmake
    exact hadds
  obtain ⟨names, hresolve, hwrites⟩ := FileTree.writeFile_eq_ok hfiles
  have hkept : ∀ names, prepared.files.node? names = some .directory →
      files.node? names = some .directory := fun _ => hwrites.keeps_directory
  obtain ⟨directory, hgoes, rfl⟩ := resolve_outputPath hresolve
  refine ⟨directory, hgoes.mono hwrites.here_eq hkept, ?_, ?_, ?_, ?_⟩
  · exact FileTree.resolve_of_directories hkept hwrites.here_eq hresolve
  · exact FileTree.readFile_of_writes hresolve hwrites
  · intro names content hne
    rw [hwrites.node?_of_ne names hne]
    exact hadded.file_iff
  · intro names hdirectory
    exact hkept names (hadded.keeps_directory hdirectory)

/-! ### Runs -/

section

variable {failure : Failure} {source : String} {program : Program}
  {ending : Except Failure Outcome × World}

/-- A run that fails after the class file is made has made directories at most. -/
theorem Ends.of_error (h : Ends o w program bytes ending) (herror : ending.1 = .error failure) :
    w.files.AddsDirectories ending.2.files ∧ ending.2.output = w.output := by
  have hmakes := makesDirectories_makeDirectory o
  cases h with
  | listed => cases herror
  | notListed => exact ⟨.refl _, rfl⟩
  | noDirectory prepared _ hmake =>
    obtain ⟨files, hadds, rfl⟩ := hmakes.exists_of_apply hmake
    exact ⟨hadds, rfl⟩
  | notWritten prepared _ hmake =>
    obtain ⟨files, hadds, rfl⟩ := hmakes.exists_of_apply hmake
    exact ⟨hadds, rfl⟩
  | written => cases herror

/-- A listing goes to the output, or else nothing does. -/
theorem Ends.of_dump (h : Ends o w program bytes ending) (hdump : o.dump = true) :
    ending.2.files = w.files ∧
    (w.outputFault = none →
      ending.1 = .ok .dumped ∧ ending.2.output = w.output ++ program.listing) ∧
    ∀ fault, w.outputFault = some fault →
      ending.1 = .error (.write "<stdout>" fault) ∧ ending.2.output = w.output := by
  cases h with
  | listed _ hnone => simp [hnone]
  | @notListed _ fault _ hsome =>
    refine ⟨rfl, by simp [hsome], fun fault' hsome' => ?_⟩
    obtain rfl : fault = fault' := Option.some.inj (hsome.symm.trans hsome')
    exact ⟨rfl, rfl⟩
  | noDirectory _ hwrites => cases hwrites.symm.trans hdump
  | notWritten _ hwrites => cases hwrites.symm.trans hdump
  | written _ hwrites => cases hwrites.symm.trans hdump

/-- A class file goes to its place, once its directory is made and the file written. -/
theorem Ends.of_write (h : Ends o w program bytes ending) (hwrites : o.dump = false) :
    ending.2.output = w.output ∧ ∀ prepared files, o.makeDirectory w = (.ok (), prepared) →
      prepared.files.writeFile o.outputPath bytes = .ok files →
        ending.1 = .ok (.written o.outputPath) ∧ ending.2.files = files := by
  have houtput : ∀ made prepared, o.makeDirectory w = (made, prepared) →
      prepared.output = w.output := by
    intro made prepared hmake
    obtain ⟨files, -, rfl⟩ := (makesDirectories_makeDirectory o).exists_of_apply hmake
    rfl
  cases h with
  | listed hdump => cases hwrites.symm.trans hdump
  | notListed hdump => cases hwrites.symm.trans hdump
  | noDirectory prepared _ hmake =>
    refine ⟨houtput _ prepared hmake, fun prepared' files hmake' _ => ?_⟩
    cases hmake.symm.trans hmake'
  | notWritten prepared _ hmake hfile =>
    refine ⟨houtput _ prepared hmake, fun prepared' files hmake' hfile' => ?_⟩
    cases hmake.symm.trans hmake'
    cases hfile.symm.trans hfile'
  | written prepared _ hmake hfile =>
    refine ⟨houtput _ prepared hmake, fun prepared' files hmake' hfile' => ?_⟩
    cases hmake.symm.trans hmake'
    cases hfile.symm.trans hfile'
    exact ⟨rfl, rfl⟩

/-- Without a listing a run ends by writing, or with the failure to write. -/
theorem Ends.result_of_write (h : Ends o w program bytes ending) (hwrites : o.dump = false) :
    ending.1 = .ok (.written o.outputPath) ∨ ∃ path fault, ending.1 = .error (.write path fault) := by
  cases h with
  | listed hdump => cases hwrites.symm.trans hdump
  | notListed hdump => cases hwrites.symm.trans hdump
  | noDirectory => exact .inr ⟨_, _, rfl⟩
  | notWritten => exact .inr ⟨_, _, rfl⟩
  | written => exact .inl rfl

theorem Refused.run_eq (h : Refused o w failure) :
    (run World.record o w).1 = .error failure ∧ (run World.record o w).2.files = w.files ∧
      (run World.record o w).2.output = w.output := by
  obtain ⟨journal, hrun⟩ := run_of_refused h
  rw [hrun]
  exact ⟨rfl, rfl, rfl⟩

theorem Refused.ne_write (h : Refused o w failure) (path : String) (fault : Fault) :
    failure ≠ .write path fault := by
  cases h <;> rintro ⟨⟩

theorem Refused.of_dump (h : Refused o w failure) (dump : Bool) :
    Refused { o with dump } w failure := by
  cases h with
  | unreadable hread => exact .unreadable hread
  | notText hread hdecode => exact .notText hread hdecode
  | notCompiled hread hdecode hcompile => exact .notCompiled hread hdecode hcompile
  | notPackaged hread hdecode hcompile hpackage =>
    exact .notPackaged hread hdecode hcompile hpackage

theorem Made.of_dump (h : Made o w source program bytes) (dump : Bool) :
    Made { o with dump } w source program bytes :=
  ⟨h.read, h.compiled, h.packaged⟩

/-- Every run that fails leaves the files and the output as they were, but for directories. -/
theorem run_error (h : (run World.record o w).1 = .error failure) :
    w.files.AddsDirectories (run World.record o w).2.files ∧
      (run World.record o w).2.output = w.output := by
  rcases refused_or_made o w with ⟨failure', hrefused⟩ | ⟨source, program, bytes, hmade⟩
  · obtain ⟨-, hfiles, houtput⟩ := hrefused.run_eq
    exact ⟨hfiles ▸ .refl _, houtput⟩
  · exact (ends_of_made hmade).of_error h

/-- A listing can be had of exactly the sources whose class file a run gets as far as writing. -/
theorem run_dump_iff (o : Options) (hfault : w.outputFault = none) :
    (run World.record { o with dump := true } w).1 = .ok .dumped ↔
      (run World.record { o with dump := false } w).1 = .ok (.written o.outputPath) ∨
      ∃ path fault,
        (run World.record { o with dump := false } w).1 = .error (.write path fault) := by
  rcases refused_or_made o w with ⟨failure, hrefused⟩ | ⟨source, program, bytes, hmade⟩
  · have hdumps := (hrefused.of_dump true).run_eq.1
    have hwrites := (hrefused.of_dump false).run_eq.1
    simp [hdumps, hwrites, hrefused.ne_write]
  · have hdumps := ((ends_of_made (hmade.of_dump true)).of_dump rfl).2.1 hfault
    have hwrites := (ends_of_made (hmade.of_dump false)).result_of_write rfl
    exact iff_of_true hdumps.1 hwrites

/-- A run refuses a source text that cannot be read or made into a class file, and then changes
nothing. Of any other it writes the listing, or else the class file into its place. -/
theorem run_all_or_nothing (o : Options) (w : World) :
    let result := (run World.record o w).1
    let after := (run World.record o w).2
    ((∃ failure, Refused o w failure) ∨ ∃ source program bytes, Made o w source program bytes) ∧
    (∀ failure, Refused o w failure →
      result = .error failure ∧ after.files = w.files ∧ after.output = w.output) ∧
    (∀ failure, result = .error failure →
      w.files.AddsDirectories after.files ∧ after.output = w.output) ∧
    (∀ source program bytes, Made o w source program bytes →
      (compileClass source o.naming).1 = .ok (program, bytes) ∧
      (compileStream (o.stream w) o.naming).1 = .ok (program, bytes) ∧
      (o.dump = true →
        after.files = w.files ∧
        (w.outputFault = none → result = .ok .dumped ∧
          after.output = w.output ++ program.listing) ∧
        ∀ fault, w.outputFault = some fault →
          result = .error (.write "<stdout>" fault) ∧ after.output = w.output) ∧
      (o.dump = false →
        after.output = w.output ∧
        ∀ prepared files, o.makeDirectory w = (.ok (), prepared) →
          prepared.files.writeFile o.outputPath bytes = .ok files →
            result = .ok (.written o.outputPath) ∧
              ∃ directory, Placed o bytes w.files after.files directory)) ∧
    (∃ simple, o.naming.SimpleName simple ∧ o.naming.fileName = simple ++ ".class") ∧
    '/' ∉ o.naming.fileName.toList ∧
    (w.outputFault = none →
      ((run World.record { o with dump := true } w).1 = .ok .dumped ↔
        (run World.record { o with dump := false } w).1 = .ok (.written o.outputPath) ∨
        ∃ path fault,
          (run World.record { o with dump := false } w).1 = .error (.write path fault))) := by
  intro result after
  refine ⟨refused_or_made o w, fun _ hrefused => hrefused.run_eq, fun _ herror => run_error herror,
    fun source program bytes hmade => ?_, o.naming.exists_simpleName, o.naming.plain_fileName.1,
    run_dump_iff o⟩
  have hends := ends_of_made hmade
  refine ⟨hmade.compileClass_eq_ok, hmade.compileStream_eq_ok, hends.of_dump, fun hwrites => ?_⟩
  obtain ⟨houtput, hwritten⟩ := hends.of_write hwrites
  refine ⟨houtput, fun prepared files hmake hfile => ?_⟩
  obtain ⟨hresult, rfl⟩ := hwritten prepared files hmake hfile
  exact ⟨hresult, exists_placed hmake hfile⟩

end

end Command
end JvmLisp
