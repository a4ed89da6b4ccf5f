import JvmLisp.Command.Run
import JvmLisp.Proofs.Host.Directories

/-! # What a run changes

A run makes the whole class file before it writes anything. So it ends in one of few ways, which
`Ends` lists with all that is different in the world behind it. From them follows that a run that
fails changes no file, and that one that succeeds changes one file or only the output.
-/

namespace JvmLisp

open Host (ByteSource Fault FileTree MakesDirectories Services World)

namespace Command

variable {α β : Type} {o : Options} {w w' : World} {source : String} {program : Program}
  {bytes : List UInt8}

/-! ### Steps of a run -/

theorem bind_of_ok {m : ExceptT Failure (StateM World) α}
    {next : α → ExceptT Failure (StateM World) β} {x : α} (h : m w = (.ok x, w')) :
    (m >>= next) w = next x w' := by
  simp only [bind, ExceptT.bind, ExceptT.mk, StateT.bind, h]
  rfl

theorem bind_of_error {m : ExceptT Failure (StateM World) α}
    {next : α → ExceptT Failure (StateM World) β} {failure : Failure}
    (h : m w = (.error failure, w')) : (m >>= next) w = (.error failure, w') := by
  simp only [bind, ExceptT.bind, ExceptT.mk, StateT.bind, h]
  rfl

theorem report_apply (event : Event) (w : World) :
    (World.record event : ExceptT Failure (StateM World) Unit) w =
      (.ok (), { w with journal := w.journal.push event }) := rfl

theorem reportAll_apply (events : Array Event) (w : World) :
    ∃ journal, (events.forM fun event =>
      (World.record event : ExceptT Failure (StateM World) Unit)) w =
        (.ok (), { w with journal }) := by
  rw [Array.forM, ← Array.foldlM_toList]
  induction events.toList generalizing w with
  | nil => exact ⟨w.journal, rfl⟩
  | cons event events ih =>
    rw [List.foldlM_cons, bind_of_ok (report_apply event w)]
    exact ih _

theorem liftExcept_apply (m : Except Failure α) (w : World) :
    (liftExcept m : ExceptT Failure (StateM World) α) w = (m, w) := by
  cases m <;> rfl

theorem attempt_of_ok {failure : Fault → Failure} {operation : StateM World (Except Fault α)} {x : α}
    (h : operation w = (.ok x, w')) : attempt failure operation w = (.ok x, w') := by
  change ((operation w).1.mapError failure, (operation w).2) = _
  rw [h]
  rfl

theorem attempt_of_error {failure : Fault → Failure} {operation : StateM World (Except Fault α)}
    {fault : Fault} (h : operation w = (.error fault, w')) :
    attempt failure operation w = (.error (failure fault), w') := by
  change ((operation w).1.mapError failure, (operation w).2) = _
  rw [h]
  rfl

theorem writeOutput_of_none (h : w.outputFault = none) (text : String) :
    (Services.writeOutput text : StateM World _) w =
      (.ok (), { w with output := w.output ++ text }) := by
  rcases w with ⟨files, input, output, _, error, journal⟩
  obtain rfl : _ = none := h
  rfl

theorem writeOutput_of_some {fault : Fault} (h : w.outputFault = some fault) (text : String) :
    (Services.writeOutput text : StateM World _) w = (.error fault, w) := by
  rcases w with ⟨files, input, output, _, error, journal⟩
  obtain rfl : _ = some fault := h
  rfl

theorem writeFile_of_ok {path : String} {files : FileTree}
    (h : w.files.writeFile path bytes = .ok files) :
    (Services.writeFile path bytes : StateM World _) w = (.ok (), { w with files }) := by
  change World.change (·.writeFile path bytes) w = _
  simp only [World.change, h]

theorem writeFile_of_error {path : String} {fault : Fault}
    (h : w.files.writeFile path bytes = .error fault) :
    (Services.writeFile path bytes : StateM World _) w = (.error fault, w) := by
  change World.change (·.writeFile path bytes) w = _
  simp only [World.change, h]

/-! ### The source text -/

/-- The stream that the source text is read from: a file, or else the standard input. -/
def Options.stream (o : Options) (w : World) : ByteSource :=
  match o.input with
  | none => w.input
  | some path =>
    match w.files.readFile path with
    | .ok bytes => { bytes }
    | .error fault => { fault := some fault }

def Options.inputName (o : Options) : String :=
  o.input.getD "<stdin>"

theorem read_apply {path : String} {operation : StateM World (Except Fault (List UInt8))}
    {content : Except Fault (List UInt8)} (h : operation w = (content, w)) :
    (do let bytes ← attempt (Failure.read path) operation
        liftExcept ((Host.decode bytes).mapError (Failure.read path)) :
      ExceptT Failure (StateM World) String) w =
        ((content >>= Host.decode).mapError (Failure.read path), w) := by
  cases content with
  | error fault => exact bind_of_error (attempt_of_error h)
  | ok content => exact (bind_of_ok (attempt_of_ok h)).trans (liftExcept_apply _ _)

theorem readSource_apply (o : Options) (w : World) :
    ∃ journal, readSource World.record o.input w =
      (((o.stream w).read >>= Host.decode).mapError (Failure.read o.inputName),
        { w with journal }) := by
  rcases hinput : o.input with _ | path
  · refine ⟨w.journal.push .readingInput, ?_⟩
    rw [Options.stream, Options.inputName, hinput, readSource, bind_of_ok (report_apply _ _)]
    exact read_apply rfl
  · refine ⟨w.journal.push (.readingFile path), ?_⟩
    rw [Options.stream, Options.inputName, hinput, readSource, bind_of_ok (report_apply _ _)]
    have hread : (match w.files.readFile path with
        | .ok bytes => ({ bytes } : ByteSource)
        | .error fault => { fault := some fault }).read = w.files.readFile path := by
      cases w.files.readFile path <;> rfl
    simp only [hread]
    exact read_apply rfl

/-! ### The class file -/

/-- What keeps a class file from being made, with the failure that is reported for it. -/
inductive Refused (o : Options) (w : World) : Failure → Prop
  | unreadable {fault : Fault} : (o.stream w).read = .error fault →
    Refused o w (.read o.inputName fault)
  | notText {content : List UInt8} {fault : Fault} : (o.stream w).read = .ok content →
    Host.decode content = .error fault → Refused o w (.read o.inputName fault)
  | notCompiled {content : List UInt8} {source : String} {e : Error} :
    (o.stream w).read = .ok content → Host.decode content = .ok source →
    compile source = .error e → Refused o w (.compile e)
  | notPackaged {content : List UInt8} {source : String} {program : Program} {e : Error} :
    (o.stream w).read = .ok content → Host.decode content = .ok source →
    compile source = .ok program → program.classFile o.naming = .error e → Refused o w (.compile e)

/-- A program and its class file are made from the source text. -/
structure Made (o : Options) (w : World) (source : String) (program : Program)
    (bytes : List UInt8) : Prop where
  read : ∃ content, (o.stream w).read = .ok content ∧ Host.decode content = .ok source
  compiled : compile source = .ok program
  packaged : program.classFile o.naming = .ok bytes

theorem compileClass_eq (source : String) (names : Naming) :
    (compileClass source names).1 = (compile source >>= fun program =>
      (program.classFile names).map (program, ·)) := by
  rw [compileClass, compile]
  rcases Compiler.compile source.toList with ⟨e | program, a⟩ <;> rfl

theorem Made.compileClass_eq_ok (h : Made o w source program bytes) :
    (compileClass source o.naming).1 = .ok (program, bytes) := by
  rw [compileClass_eq, h.compiled]
  change (program.classFile o.naming).map _ = _
  rw [h.packaged]
  rfl

theorem Made.read_eq_ok (h : Made o w source program bytes) :
    (o.stream w).read >>= Host.decode = .ok source := by
  obtain ⟨content, hread, hdecode⟩ := h.read
  rw [hread]
  exact hdecode

theorem Made.compileStream_eq_ok (h : Made o w source program bytes) :
    (compileStream (o.stream w) o.naming).1 = .ok (program, bytes) := by
  rw [compileStream, h.read_eq_ok]
  exact h.compileClass_eq_ok

theorem refused_or_made (o : Options) (w : World) :
    (∃ failure, Refused o w failure) ∨ ∃ source program bytes, Made o w source program bytes := by
  rcases hread : (o.stream w).read with fault | content
  · exact .inl ⟨_, .unreadable hread⟩
  rcases hdecode : Host.decode content with fault | source
  · exact .inl ⟨_, .notText hread hdecode⟩
  rcases hcompile : compile source with e | program
  · exact .inl ⟨_, .notCompiled hread hdecode hcompile⟩
  rcases hpackage : program.classFile o.naming with e | bytes
  · exact .inl ⟨_, .notPackaged hread hdecode hcompile hpackage⟩
  · exact .inr ⟨source, program, bytes, ⟨content, hread, hdecode⟩, hcompile, hpackage⟩

/-- What a refused run fails for comes from reading or from making the class file. -/
theorem Refused.outcome {failure : Failure} (h : Refused o w failure) :
    (∃ fault, failure = .read o.inputName fault ∧
      (o.stream w).read >>= Host.decode = .error fault) ∨
    ∃ source e, failure = .compile e ∧ (o.stream w).read >>= Host.decode = .ok source ∧
      (compileClass source o.naming).1 = .error e := by
  cases h with
  | @unreadable fault hread => exact .inl ⟨fault, rfl, by rw [hread]; rfl⟩
  | @notText content fault hread hdecode => exact .inl ⟨fault, rfl, by rw [hread]; exact hdecode⟩
  | @notCompiled content source e hread hdecode hcompile =>
    refine .inr ⟨source, e, rfl, by rw [hread]; exact hdecode, ?_⟩
    rw [compileClass_eq, hcompile]
    rfl
  | @notPackaged content source program e hread hdecode hcompile hpackage =>
    refine .inr ⟨source, e, rfl, by rw [hread]; exact hdecode, ?_⟩
    rw [compileClass_eq, hcompile]
    change (program.classFile o.naming).map _ = _
    rw [hpackage]
    rfl

/-! ### The ways in which a run ends -/

/-- A text that has been read is compiled into a class file, and this is reported. -/
theorem run_of_read (hread : (o.stream w).read >>= Host.decode = .ok source) :
    ∃ journal, run World.record o w =
      (liftExcept ((compileClass source o.naming).1.mapError Failure.compile) >>=
        fun (program, bytes) => writeResult World.record o program bytes) { w with journal } := by
  obtain ⟨journal, hsource⟩ := readSource_apply o w
  obtain ⟨journal', hevents⟩ :=
    reportAll_apply (compileClass source o.naming).2 { w with journal }
  rw [hread] at hsource
  refine ⟨journal', ?_⟩
  rw [run, bind_of_ok hsource]
  exact bind_of_ok hevents

theorem run_of_refused {failure : Failure} (h : Refused o w failure) :
    ∃ journal, run World.record o w = (.error failure, { w with journal }) := by
  rcases h.outcome with ⟨fault, rfl, hread⟩ | ⟨source, e, rfl, hread, hclass⟩
  · obtain ⟨journal, hsource⟩ := readSource_apply o w
    rw [hread] at hsource
    exact ⟨journal, bind_of_error hsource⟩
  · obtain ⟨journal, hrun⟩ := run_of_read hread
    refine ⟨journal, ?_⟩
    rw [hrun, hclass]
    exact bind_of_error (liftExcept_apply _ _)

/-- Makes the directory that the class file goes into, if one is named. -/
def Options.makeDirectory (o : Options) : StateM World (Except Fault Unit) :=
  match o.outputDir with
  | none => pure (.ok ())
  | some directory => Host.ensureDirectory directory

theorem makesDirectories_makeDirectory (o : Options) : MakesDirectories o.makeDirectory := by
  rw [Options.makeDirectory]
  split
  · exact Host.makesDirectories_pure _
  · exact Host.makesDirectories_ensureDirectory _

/-- How a run ends whose class file is made. -/
inductive Ends (o : Options) (w : World) (program : Program) (bytes : List UInt8) :
    Except Failure Outcome × World → Prop
  | listed {journal : Array Event} : o.dump = true → w.outputFault = none →
    Ends o w program bytes
      (.ok .dumped, { w with output := w.output ++ program.listing, journal })
  | notListed {journal : Array Event} {fault : Fault} : o.dump = true →
    w.outputFault = some fault →
    Ends o w program bytes (.error (.write "<stdout>" fault), { w with journal })
  | noDirectory {journal : Array Event} {path : String} {fault : Fault} (prepared : World) :
    o.dump = false → o.makeDirectory w = (.error fault, prepared) →
    Ends o w program bytes (.error (.write path fault), { prepared with journal })
  | notWritten {journal : Array Event} {fault : Fault} (prepared : World) :
    o.dump = false → o.makeDirectory w = (.ok (), prepared) →
    prepared.files.writeFile o.outputPath bytes = .error fault →
    Ends o w program bytes (.error (.write o.outputPath fault), { prepared with journal })
  | written {journal : Array Event} {files : FileTree} (prepared : World) :
    o.dump = false → o.makeDirectory w = (.ok (), prepared) →
    prepared.files.writeFile o.outputPath bytes = .ok files →
    Ends o w program bytes (.ok (.written o.outputPath), { prepared with files, journal })

theorem ends_writeFile {prepared : World} (hdump : o.dump = false)
    (hmake : o.makeDirectory w = (.ok (), prepared)) (journal : Array Event) (program : Program)
    (bytes : List UInt8) :
    Ends o w program bytes ((do
      attempt (.write o.outputPath) (Services.writeFile o.outputPath bytes)
      World.record (.wrote o.outputPath bytes.length)
      return .written o.outputPath : ExceptT Failure (StateM World) Outcome)
        { prepared with journal }) := by
  rcases hfiles : prepared.files.writeFile o.outputPath bytes with fault | files
  · have hwrite := writeFile_of_error (w := { prepared with journal }) hfiles
    rw [bind_of_error (attempt_of_error hwrite)]
    exact .notWritten prepared hdump hmake hfiles
  · have hwrite := writeFile_of_ok (w := { prepared with journal }) hfiles
    rw [bind_of_ok (attempt_of_ok hwrite)]
    exact .written prepared hdump hmake hfiles

/-- Nothing but its options and the world decides how a class file is written. -/
theorem ends_writeResult (o : Options) (w : World) (journal : Array Event) (program : Program)
    (bytes : List UInt8) :
    Ends o w program bytes (writeResult World.record o program bytes { w with journal }) := by
  rw [writeResult]
  by_cases hdump : o.dump = true
  · rw [if_pos hdump]
    rcases Option.eq_none_or_eq_some w.outputFault with hfault | ⟨fault, hfault⟩
    · have hout := writeOutput_of_none (w := { w with journal }) hfault program.listing
      rw [bind_of_ok (attempt_of_ok hout)]
      exact .listed hdump hfault
    · have hout := writeOutput_of_some (w := { w with journal }) hfault program.listing
      rw [bind_of_error (attempt_of_error hout)]
      exact .notListed hdump hfault
  · have hwrites : o.dump = false := by simpa using hdump
    rw [if_neg hdump]
    rcases hdirectory : o.outputDir with _ | directory
    · have hmake : o.makeDirectory w = (.ok (), w) := by
        rw [Options.makeDirectory, hdirectory]
        rfl
      exact ends_writeFile hwrites hmake journal program bytes
    · have hensure : o.makeDirectory = Host.ensureDirectory directory := by
        rw [Options.makeDirectory, hdirectory]
      obtain ⟨act, hact, -⟩ := makesDirectories_makeDirectory o
      have hmake := hact w
      have hmake' := hact { w with journal }
      rw [hensure] at hmake'
      dsimp only at hmake' ⊢
      rcases hmade : (act w.files).1 with fault | _
      · rw [hmade] at hmake hmake'
        rw [bind_of_error (attempt_of_error hmake')]
        exact .noDirectory _ hwrites hmake
      · rw [hmade] at hmake hmake'
        rw [bind_of_ok (attempt_of_ok hmake')]
        exact ends_writeFile hwrites hmake journal program bytes

theorem ends_of_made (h : Made o w source program bytes) :
    Ends o w program bytes (run World.record o w) := by
  obtain ⟨journal, hrun⟩ := run_of_read h.read_eq_ok
  have hclass : (liftExcept ((compileClass source o.naming).1.mapError Failure.compile) :
      ExceptT Failure (StateM World) _) { w with journal } =
        (.ok (program, bytes), { w with journal }) := by
    rw [h.compileClass_eq_ok]
    rfl
  rw [hrun, bind_of_ok hclass]
  exact ends_writeResult o w journal program bytes

end Command
end JvmLisp
