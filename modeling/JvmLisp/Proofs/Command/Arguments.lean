import JvmLisp.Command.Options
import Mathlib.Tactic

/-! # What the arguments ask for

`Reads` cuts the arguments into flags, options with their values, and inputs. Those are then applied
one after another, which fails only at an input that comes after a file. Hence standard input may be
named any number of times before the last input, although only one input is asked for.
-/

namespace JvmLisp.Command

/-! ### Items -/

/-- The options that take no value. -/
inductive Flag where
  | help
  | version
  | verbose
  | dump
deriving DecidableEq

def Flag.spellings : Flag → List String
  | help => ["-h", "--help"]
  | version => ["-V", "--version"]
  | verbose => ["-v", "--verbose"]
  | dump => ["--dump"]

/-- What one argument, or an option with its value, stands for. -/
inductive Item where
  | flag (f : Flag)
  | directory (path : String)
  | className (name : String)
  /-- A source file, or else the standard input. -/
  | input (path : Option String)
deriving DecidableEq

namespace Item

def directory? : Item → Option String
  | directory path => some path
  | _ => none

def className? : Item → Option String
  | className name => some name
  | _ => none

def input? : Item → Option (Option String)
  | input path => some path
  | _ => none

end Item

/-- The arguments, from left to right, are spellings of these items. A value may look like an
option. -/
inductive Reads : List String → List Item → Prop
  | nil : Reads [] []
  | flag {f : Flag} {word : String} {args : List String} {items : List Item} :
    word ∈ f.spellings → Reads args items → Reads (word :: args) (.flag f :: items)
  | directory {word path : String} {args : List String} {items : List Item} :
    word ∈ ["-o", "--output-dir"] → Reads args items →
    Reads (word :: path :: args) (.directory path :: items)
  | className {name : String} {args : List String} {items : List Item} :
    Reads args items → Reads ("--class-name" :: name :: args) (.className name :: items)
  | standardInput {args : List String} {items : List Item} :
    Reads args items → Reads ("-" :: args) (.input none :: items)
  | file {path : String} {args : List String} {items : List Item} :
    path.toList.head? ≠ some '-' → Reads args items →
    Reads (path :: args) (.input (some path) :: items)

namespace Options

variable {o o' : Options} {args : List String} {items : List Item}

/-! ### Steps -/

def setFlag (o : Options) : Flag → Options
  | .help => { o with help := true }
  | .version => { o with version := true }
  | .verbose => { o with verbose := true }
  | .dump => { o with dump := true }

def apply (o : Options) : Item → Except Misuse Options
  | .flag f => .ok (o.setFlag f)
  | .directory path => .ok { o with outputDir := some path }
  | .className name => .ok { o with className := some name }
  | .input path => o.setInput path

theorem setInput_eq_ok_iff {input : Option String} :
    o.setInput input = .ok o' ↔ o.input = none ∧ o' = { o with input } := by
  rw [setInput]
  split_ifs with hinput
  · simp [Option.isSome_iff_ne_none.1 hinput]
  · simp [Option.not_isSome_iff_eq_none.1 hinput, eq_comm]

theorem parseFrom_flag {f : Flag} {word : String} (h : word ∈ f.spellings) :
    parseFrom o (word :: args) = parseFrom (o.setFlag f) args := by
  rw [parseFrom.eq_def]
  cases f <;> fin_cases h <;> simp [setFlag]

theorem parseFrom_directory {word path : String} (h : word ∈ ["-o", "--output-dir"]) :
    parseFrom o (word :: path :: args) = parseFrom { o with outputDir := some path } args := by
  rw [parseFrom.eq_def]
  fin_cases h <;> simp

theorem parseFrom_className {name : String} :
    parseFrom o ("--class-name" :: name :: args) =
      parseFrom { o with className := some name } args := by
  rw [parseFrom.eq_def]
  simp

theorem parseFrom_standardInput :
    parseFrom o ("-" :: args) = (o.setInput none >>= (parseFrom · args)) := by
  rw [parseFrom.eq_def]
  rcases o.setInput none <;> simp <;> rfl

theorem parseFrom_file {path : String} (h : path.toList.head? ≠ some '-') :
    parseFrom o (path :: args) = (o.setInput (some path) >>= (parseFrom · args)) := by
  have hne : path ∉ ["-h", "--help", "-V", "--version", "-v", "--verbose", "--dump", "-o",
      "--output-dir", "--class-name", "-"] := by
    intro hoption
    fin_cases hoption <;> exact h rfl
  simp only [List.mem_cons, List.not_mem_nil, not_or] at hne
  rw [parseFrom.eq_def]
  simp only [hne, h, or_self, if_false]
  rcases o.setInput (some path) <;> rfl

theorem parseFrom_of_reads (h : Reads args items) :
    parseFrom o args = items.foldlM apply o := by
  induction h generalizing o with
  | nil => rfl
  | flag hword _ ih => rw [parseFrom_flag hword, ih]; rfl
  | directory hword _ ih => rw [parseFrom_directory hword, ih]; rfl
  | className _ ih => rw [parseFrom_className, ih]; rfl
  | standardInput _ ih =>
    simp only [parseFrom_standardInput, ih]
    rfl
  | file hpath _ ih =>
    simp only [parseFrom_file hpath, ih]
    rfl

theorem exists_reads (h : parseFrom o args = .ok o') : ∃ items, Reads args items := by
  fun_induction parseFrom o args with
  | case1 => exact ⟨[], .nil⟩
  | case2 o word args hword ih =>
    obtain ⟨items, hitems⟩ := ih h
    exact ⟨_, .flag (f := .help) (by simpa [Flag.spellings] using hword) hitems⟩
  | case3 o word args _ hword ih =>
    obtain ⟨items, hitems⟩ := ih h
    exact ⟨_, .flag (f := .version) (by simpa [Flag.spellings] using hword) hitems⟩
  | case4 o word args _ _ hword ih =>
    obtain ⟨items, hitems⟩ := ih h
    exact ⟨_, .flag (f := .verbose) (by simpa [Flag.spellings] using hword) hitems⟩
  | case5 o args _ _ _ ih =>
    obtain ⟨items, hitems⟩ := ih h
    exact ⟨_, .flag (f := .dump) (by simp [Flag.spellings]) hitems⟩
  | case7 o word _ _ _ _ hword path args ih =>
    obtain ⟨items, hitems⟩ := ih h
    exact ⟨_, .directory (by simpa using hword) hitems⟩
  | case9 o name args _ _ _ _ _ ih =>
    obtain ⟨items, hitems⟩ := ih h
    exact ⟨_, .className hitems⟩
  | case10 o args o₁ _ _ _ _ _ _ _ ih =>
    obtain ⟨items, hitems⟩ := ih h
    exact ⟨_, .standardInput hitems⟩
  | case13 o path args _ _ _ _ _ _ _ hpath o₁ _ ih =>
    obtain ⟨items, hitems⟩ := ih h
    exact ⟨_, .file hpath hitems⟩
  | _ => cases h

theorem parseFrom_eq_ok_iff :
    parseFrom o args = .ok o' ↔ ∃ items, Reads args items ∧ items.foldlM apply o = .ok o' := by
  constructor
  · intro h
    obtain ⟨items, hitems⟩ := exists_reads h
    exact ⟨items, hitems, parseFrom_of_reads hitems ▸ h⟩
  · rintro ⟨items, hitems, hfold⟩
    rw [parseFrom_of_reads hitems, hfold]

/-! ### Runs -/

/-- The options to which the items add up. The last value of an option counts, and so does the last
input. -/
def adding (o : Options) (items : List Item) : Options where
  input := (items.filterMap Item.input?).getLast?.getD o.input
  outputDir := (items.filterMap Item.directory?).getLast?.or o.outputDir
  className := (items.filterMap Item.className?).getLast?.or o.className
  dump := o.dump || items.contains (.flag .dump)
  verbose := o.verbose || items.contains (.flag .verbose)
  help := o.help || items.contains (.flag .help)
  version := o.version || items.contains (.flag .version)

theorem adding_of_apply {item : Item} {next : Options} (h : o.apply item = .ok next)
    (items : List Item) : o.adding (item :: items) = next.adding items := by
  cases item with
  | flag f =>
    obtain rfl : o.setFlag f = next := Except.ok.inj h
    cases f <;> simp [adding, setFlag, Item.input?, Item.directory?, Item.className?]
  | directory path =>
    obtain rfl : { o with outputDir := some path } = next := Except.ok.inj h
    simp [adding, Item.input?, Item.directory?, Item.className?, List.getLast?_cons]
  | className name =>
    obtain rfl : { o with className := some name } = next := Except.ok.inj h
    simp [adding, Item.input?, Item.directory?, Item.className?, List.getLast?_cons]
  | input path =>
    obtain ⟨-, rfl⟩ := setInput_eq_ok_iff.1 h
    simp [adding, Item.input?, Item.directory?, Item.className?, List.getLast?_cons]

/-- An item is refused only if it is an input and there is a file already. -/
theorem exists_apply_iff {item : Item} :
    (∃ next, o.apply item = .ok next) ↔ (item.input?.isSome → o.input = none) := by
  cases item with
  | input path => simp [apply, setInput_eq_ok_iff, Item.input?]
  | _ => simp [apply, Item.input?]

theorem input_of_apply {item : Item} {next : Options} (h : o.apply item = .ok next) :
    next.input = item.input?.getD o.input := by
  cases item with
  | flag f =>
    obtain rfl : o.setFlag f = next := Except.ok.inj h
    cases f <;> rfl
  | directory path =>
    obtain rfl : { o with outputDir := some path } = next := Except.ok.inj h
    rfl
  | className name =>
    obtain rfl : { o with className := some name } = next := Except.ok.inj h
    rfl
  | input path =>
    obtain ⟨-, rfl⟩ := setInput_eq_ok_iff.1 h
    rfl

/-- Items are applied as long as there is no file before an input. -/
theorem foldlM_apply_eq_ok_iff :
    items.foldlM apply o = .ok o' ↔
      (∀ input ∈ (o.input :: items.filterMap Item.input?).dropLast, input = none) ∧
        o' = o.adding items := by
  induction items generalizing o with
  | nil =>
    change Except.ok o = .ok o' ↔ _
    simp [adding, eq_comm]
  | cons item items ih =>
    rw [List.foldlM_cons]
    rcases happly : o.apply item with misuse | next
    -- Only an input can be refused, and then the input so far is a file in front of it.
    · have hrefused : ¬∃ next, o.apply item = .ok next := by simp [happly]
      rw [exists_apply_iff, Classical.not_imp] at hrefused
      obtain ⟨hsome, hfile⟩ := hrefused
      obtain ⟨path, hpath⟩ := Option.isSome_iff_exists.1 hsome
      refine iff_of_false (by nofun) fun h => hfile (h.1 o.input ?_)
      simp [List.filterMap_cons_some hpath]
    · rw [adding_of_apply happly]
      refine ih.trans (and_congr_left' ?_)
      rw [input_of_apply happly]
      rcases hinput : item.input? with _ | path
      · rw [List.filterMap_cons_none hinput, Option.getD_none]
      · have hnone : o.input = none := exists_apply_iff.1 ⟨next, happly⟩ (by simp [hinput])
        rw [List.filterMap_cons_some hinput, Option.getD_some, List.dropLast_cons_cons,
          List.forall_mem_cons]
        exact (and_iff_right hnone).symm

/-- The arguments are accepted if they can be read and name no input after a file. Each option is
then set if it occurs, its last value counts, and so does the last input. -/
theorem parse_eq_ok_iff (args : List String) (o : Options) :
    parse args = .ok o ↔ ∃ items, Reads args items ∧
      (∀ input ∈ (items.filterMap Item.input?).dropLast, input = none) ∧
      o.input = (items.filterMap Item.input?).getLast?.join ∧
      o.outputDir = (items.filterMap Item.directory?).getLast? ∧
      o.className = (items.filterMap Item.className?).getLast? ∧
      (o.dump = true ↔ .flag .dump ∈ items) ∧
      (o.verbose = true ↔ .flag .verbose ∈ items) ∧
      (o.help = true ↔ .flag .help ∈ items) ∧
      (o.version = true ↔ .flag .version ∈ items) := by
  rw [parse, parseFrom_eq_ok_iff]
  refine exists_congr fun items => and_congr_right fun _ => ?_
  rw [foldlM_apply_eq_ok_iff]
  refine and_congr ?_ ?_
  · rcases items.filterMap Item.input? with _ | ⟨input, inputs⟩
    · simp
    · rw [List.dropLast_cons_cons, List.forall_mem_cons]
      exact and_iff_right rfl
  · have hinput : (items.filterMap Item.input?).getLast?.getD none =
        (items.filterMap Item.input?).getLast?.join := by
      rcases (items.filterMap Item.input?).getLast? <;> rfl
    have hflag (set : Bool) (f : Flag) :
        set = items.contains (.flag f) ↔ (set = true ↔ .flag f ∈ items) := by
      rw [Bool.eq_iff_iff, List.contains_iff_mem]
    rcases o with ⟨input, outputDir, className, dump, verbose, help, version⟩
    simp only [adding, mk.injEq, Option.or_none, Bool.false_or, hinput, hflag]

/-- A file may follow the standard input, but not the other way round. -/
example : parse ["-", "a.lisp"] = .ok { input := some "a.lisp" } ∧
    parse ["a.lisp", "-"] = .error .secondInput :=
  ⟨rfl, rfl⟩

end Options
end JvmLisp.Command
