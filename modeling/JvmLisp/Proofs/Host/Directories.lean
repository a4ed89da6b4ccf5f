import JvmLisp.Host.Services
import JvmLisp.Proofs.Host.Tree

/-! # Making directories

A directory and its ancestors are made by many operations, each of which may fail. Whatever comes of
them, they read and change the files alone, and at most directories are new afterwards.
-/

namespace JvmLisp.Host

namespace FileTree

variable {t t' t'' : FileTree} {names : List String} {path : String} {content : List UInt8}

/-- Directories may have been added, and nothing else is different. -/
structure AddsDirectories (t t' : FileTree) : Prop where
  here_eq : t'.here = t.here
  node?_eq : ∀ names, t'.node? names = t.node? names ∨
    t.node? names = none ∧ t'.node? names = some .directory

theorem AddsDirectories.refl (t : FileTree) : t.AddsDirectories t :=
  ⟨rfl, fun _ => .inl rfl⟩

theorem AddsDirectories.trans (h : t.AddsDirectories t') (h' : t'.AddsDirectories t'') :
    t.AddsDirectories t'' := by
  refine ⟨h'.here_eq.trans h.here_eq, fun names => ?_⟩
  rcases h'.node?_eq names with heq' | ⟨hnone', hdirectory'⟩
  · rw [heq']
    exact h.node?_eq names
  · rcases h.node?_eq names with heq | ⟨-, hdirectory⟩
    · exact .inr ⟨heq ▸ hnone', hdirectory'⟩
    · cases hnone'.symm.trans hdirectory

theorem AddsDirectories.file_iff (h : t.AddsDirectories t') :
    t'.node? names = some (.file content) ↔ t.node? names = some (.file content) := by
  rcases h.node?_eq names with heq | ⟨hnone, hdirectory⟩
  · rw [heq]
  · simp [hnone, hdirectory]

theorem AddsDirectories.keeps_directory (h : t.AddsDirectories t')
    (hdirectory : t.node? names = some .directory) : t'.node? names = some .directory := by
  rcases h.node?_eq names with heq | ⟨-, hdirectory'⟩
  · rw [heq, hdirectory]
  · exact hdirectory'

theorem addsDirectories_of_makeDirectory (h : t.makeDirectory path = .ok t') :
    t.AddsDirectories t' := by
  simp only [makeDirectory, bind, Except.bind] at h
  split at h
  · cases h
  · rename_i names _
    by_cases hsome : (t.node? names).isSome
    · simp [hsome, throw, throwThe, MonadExceptOf.throw] at h
    · have hnone : t.node? names = none := by simpa using hsome
      have hne : names ≠ [] := by
        rintro rfl
        cases hnone
      simp only [hsome] at h
      obtain rfl : t.put names .directory = t' := Except.ok.inj h
      refine ⟨rfl, fun other => ?_⟩
      by_cases hother : other = names
      · subst hother
        exact .inr ⟨hnone, t.node?_put_self _ hne⟩
      · exact .inl (t.node?_put_of_ne _ hother)

end FileTree

/-- The operation reads and changes only the files of a world, to which it at most adds directories.
-/
def MakesDirectories {α : Type} (operation : StateM World α) : Prop :=
  ∃ act : FileTree → α × FileTree,
    (∀ w, operation w = ((act w.files).1, { w with files := (act w.files).2 })) ∧
      ∀ t, FileTree.AddsDirectories t (act t).2

variable {α β : Type}

theorem MakesDirectories.exists_of_apply {operation : StateM World α} {w w' : World} {x : α}
    (h : MakesDirectories operation) (happly : operation w = (x, w')) :
    ∃ files, w.files.AddsDirectories files ∧ w' = { w with files } := by
  obtain ⟨act, hact, hadds⟩ := h
  cases (hact w).symm.trans happly
  exact ⟨_, hadds _, rfl⟩

theorem makesDirectories_pure (x : α) : MakesDirectories (pure x) :=
  ⟨fun t => (x, t), fun _ => rfl, .refl⟩

theorem MakesDirectories.bind {operation : StateM World α} {next : α → StateM World β}
    (h : MakesDirectories operation) (hnext : ∀ x, MakesDirectories (next x)) :
    MakesDirectories (operation >>= next) := by
  obtain ⟨act, hact, hadds⟩ := h
  choose acts hacts hadds' using hnext
  refine ⟨fun t => acts (act t).1 (act t).2, fun w => ?_, fun t => (hadds t).trans (hadds' _ _)⟩
  change next (operation w).1 (operation w).2 = _
  rw [hact, hacts]

theorem makesDirectories_makeDirectory (path : String) :
    MakesDirectories (Services.makeDirectory path) := by
  let change (t : FileTree) := World.change (·.makeDirectory path) { files := t }
  refine ⟨fun t => ((change t).1, (change t).2.files), fun w => ?_, fun t => ?_⟩
  · change World.change _ w = _
    simp only [change, World.change]
    rcases w.files.makeDirectory path with fault | t' <;> rfl
  · simp only [change, World.change]
    rcases hmake : t.makeDirectory path with fault | t'
    · exact .refl t
    · exact FileTree.addsDirectories_of_makeDirectory hmake

theorem makesDirectories_isDirectory (path : String) :
    MakesDirectories (Services.isDirectory path) :=
  ⟨fun t => (t.isDirectory path, t), fun _ => rfl, .refl⟩

theorem makesDirectories_ensureLast (path : String) :
    MakesDirectories (ensureLast path : StateM World _) := by
  rw [ensureLast]
  split
  · exact makesDirectories_pure _
  · refine (makesDirectories_makeDirectory path).bind fun result => ?_
    cases result with
    | ok => exact makesDirectories_pure _
    | error fault =>
      refine (makesDirectories_isDirectory path).bind fun found => ?_
      cases found <;> exact makesDirectories_pure _

theorem makesDirectories_ensureFrom (path : String) (ancestors : List String) :
    MakesDirectories (ensureFrom path ancestors : StateM World _) := by
  induction ancestors generalizing path with
  | nil => exact makesDirectories_ensureLast path
  | cons parent ancestors ih =>
    rw [ensureFrom]
    refine (makesDirectories_ensureLast path).bind fun result => ?_
    split
    · refine (ih parent).bind fun result => ?_
      cases result with
      | ok => exact makesDirectories_ensureLast path
      | error fault => exact makesDirectories_pure _
    · exact makesDirectories_pure _

/-- However far it gets, making a directory changes no file. -/
theorem makesDirectories_ensureDirectory (path : String) :
    MakesDirectories (ensureDirectory path : StateM World _) :=
  makesDirectories_ensureFrom path (Path.ancestors path)

end JvmLisp.Host
