import JvmLisp.Host.FileTree
import Mathlib.Data.List.Basic
import Mathlib.Tactic

/-! # Paths in a file tree

A path that joins a directory and a name leads to that name in the directory, if it leads anywhere.
Writing a file changes what its own path leads to and nothing else, and the path still leads there.
-/

namespace JvmLisp.Host

namespace Path

variable {directory name path : String}

/-- A text that can name something in a directory: it separates nothing and leads nowhere else. -/
structure Plain (name : String) : Prop where
  no_slash : '/' ∉ name.toList
  ne_empty : name ≠ ""
  ne_here : name ≠ "."
  ne_above : name ≠ ".."

theorem parts_of_no_slash (h : '/' ∉ name.toList) : parts name = [name] := by
  rw [parts, List.splitOn_eq_singleton h]
  simp

theorem parts_append_slash (s t : List Char) :
    parts (String.ofList (s ++ '/' :: t)) = parts (String.ofList s) ++ parts (String.ofList t) := by
  simp only [parts, String.toList_ofList]
  rw [List.splitOn_eq_splitOnP, List.splitOnP_append_cons _ _ (by decide), List.map_append]
  rfl

/-- The parts of a joined path are those of the directory, but for an empty one at its end, and the
name. -/
theorem parts_join (hdirectory : directory ≠ "") (hname : '/' ∉ name.toList) :
    ∃ ps, (parts directory = ps ∨ parts directory = ps ++ [""]) ∧
      parts (join directory name) = ps ++ [name] := by
  have hempty : directory.isEmpty = false := by simpa using hdirectory
  by_cases hslash : directory.toList.getLast? = some '/'
  · obtain ⟨s, hs⟩ := List.getLast?_eq_some_iff.1 hslash
    obtain rfl : directory = String.ofList (s ++ ['/']) := by
      rw [← hs, String.ofList_toList]
    refine ⟨parts (String.ofList s), .inr ?_, ?_⟩
    · exact parts_append_slash s []
    · have hjoin : join (String.ofList (s ++ ['/'])) name =
          String.ofList (s ++ '/' :: name.toList) := by
        rw [join, if_pos (by simp)]
        apply String.toList_inj.1
        simp
      rw [hjoin, parts_append_slash, String.ofList_toList, parts_of_no_slash hname]
  · refine ⟨parts directory, .inl rfl, ?_⟩
    have hjoin : join directory name = String.ofList (directory.toList ++ '/' :: name.toList) := by
      rw [join, hempty, Bool.false_or, if_neg (by simpa using hslash)]
      apply String.toList_inj.1
      simp
    rw [hjoin, parts_append_slash, String.ofList_toList, String.ofList_toList,
      parts_of_no_slash hname]

theorem join_empty (name : String) : join "" name = name := by
  simp [join]

/-- A joined path is longer than its directory and starts with it. -/
theorem exists_join_eq (directory name : String) : ∃ t, join directory name = directory ++ t := by
  rw [join]
  split
  · exact ⟨name, rfl⟩
  · exact ⟨"/" ++ name, String.append_assoc⟩

theorem isAbsolute_append (h : directory ≠ "") (t : String) :
    isAbsolute (directory ++ t) = isAbsolute directory := by
  have hne : directory.toList ≠ [] := by simpa using h
  simp [isAbsolute, List.head?_append_of_ne_nil _ hne]

end Path

namespace FileTree

variable {t t' : FileTree} {names other : List String} {node : Node} {path directory name : String}
  {content : List UInt8}

/-! ### Nodes -/

@[simp] theorem node?_nil (t : FileTree) : t.node? [] = some .directory := rfl

theorem node?_of_ne_nil (t : FileTree) (h : names ≠ []) : t.node? names = t.nodes.lookup names := by
  cases names with
  | nil => exact absurd rfl h
  | cons n names => rfl

theorem node?_put_self (t : FileTree) (node : Node) (h : names ≠ []) :
    (t.put names node).node? names = some node := by
  rw [node?_of_ne_nil _ h, put, List.lookup_cons_self]

theorem lookup_filter_ne {nodes : List (List String × Node)} (h : other ≠ names) :
    (nodes.filter (·.1 != names)).lookup other = nodes.lookup other := by
  induction nodes with
  | nil => rfl
  | cons entry nodes ih =>
    rcases entry with ⟨key, node⟩
    by_cases hkey : key = names
    · subst hkey
      have hother : (other == key) = false := by simpa using h
      simp [List.lookup_cons, hother, ih]
    · simp [hkey, List.lookup_cons, ih]

theorem node?_put_of_ne (t : FileTree) (node : Node) (h : other ≠ names) :
    (t.put names node).node? other = t.node? other := by
  by_cases hother : other = []
  · rw [hother, node?_nil, node?_nil]
  · have hkey : (other == names) = false := by simpa using h
    rw [node?_of_ne_nil _ hother, node?_of_ne_nil _ hother, put, List.lookup_cons, hkey]
    exact lookup_filter_ne h

/-! ### Walks -/

theorem walk_append (t : FileTree) (current : List String) (ps qs : List String) :
    t.walk current (ps ++ qs) = (t.walk current ps).bind fun c => t.walk c qs := by
  induction ps generalizing current with
  | nil => rfl
  | cons p ps ih =>
    simp only [List.cons_append, walk]
    split
    · rfl
    · rfl
    · split_ifs
      · exact ih _
      · exact ih _
      · rfl
      · exact ih _

/-- A last part that is a plain name is looked up in a directory. -/
theorem walk_plain {current : List String} (hname : Path.Plain name)
    (h : t.walk current [name] = .ok names) :
    t.node? current = some .directory ∧ names = current ++ [name] := by
  simp only [walk] at h
  split at h
  · cases h
  · cases h
  · rename_i hdirectory
    rw [if_neg (by simp [hname.ne_empty, hname.ne_here]), if_neg hname.ne_above] at h
    split at h
    · cases h
    · exact ⟨hdirectory, (Except.ok.inj h).symm⟩

theorem walk_empty {current : List String} (h : t.node? current = some .directory) :
    t.walk current [""] = .ok current := by
  simp [walk, h]

/-- A walk passes through directories only, so it is the same where these are still directories. -/
theorem walk_of_directories
    (hkept : ∀ names, t.node? names = some .directory → t'.node? names = some .directory)
    {current : List String} {ps : List String} (h : t.walk current ps = .ok names) :
    t'.walk current ps = .ok names := by
  induction ps generalizing current with
  | nil => exact h
  | cons p ps ih =>
    simp only [walk] at h ⊢
    split at h
    · cases h
    · cases h
    · rename_i hdirectory
      rw [hkept _ hdirectory]
      simp only
      split_ifs at h ⊢
      · exact ih h
      · exact ih h
      · exact ih h

theorem resolve_of_directories
    (hkept : ∀ names, t.node? names = some .directory → t'.node? names = some .directory)
    (hhere : t'.here = t.here) {ps : List String} (h : t.resolve path ps = .ok names) :
    t'.resolve path ps = .ok names := by
  simp only [resolve, hhere] at h ⊢
  split_ifs at h ⊢
  · exact walk_of_directories hkept h
  · exact walk_of_directories hkept h

/-! ### Joined paths -/

theorem resolve_eq_ok {ps : List String} :
    t.resolve path ps = .ok names ↔ '\x00' ∉ path.toList ∧ path ≠ "" ∧
      path.utf8ByteSize < pathBound ∧
      t.walk (if Path.isAbsolute path then [] else t.here) ps = .ok names := by
  simp only [resolve]
  split_ifs with hnul hempty hlength <;> simp_all

/-- A path that joins a directory and a plain name leads to the name in the directory. -/
theorem resolve_join (hdirectory : directory ≠ "") (hname : Path.Plain name)
    (h : t.resolve (Path.join directory name) (Path.parts (Path.join directory name)) = .ok names) :
    ∃ place, t.resolve directory (Path.parts directory) = .ok place ∧
      t.node? place = some .directory ∧ names = place ++ [name] := by
  obtain ⟨ps, hparts, hjoined⟩ := Path.parts_join hdirectory hname.no_slash
  obtain ⟨rest, hrest⟩ := Path.exists_join_eq directory name
  rw [hjoined, hrest, resolve_eq_ok, Path.isAbsolute_append hdirectory, walk_append] at h
  obtain ⟨hnul, -, hlength, h⟩ := h
  rcases hwalk : t.walk (if Path.isAbsolute directory then [] else t.here) ps with _ | place
  · rw [hwalk] at h
    cases h
  · rw [hwalk] at h
    obtain ⟨hplace, hnames⟩ := walk_plain hname h
    refine ⟨place, resolve_eq_ok.2 ⟨?_, hdirectory, ?_, ?_⟩, hplace, hnames⟩
    · intro hmem
      exact hnul (by simp [hmem])
    · rw [String.utf8ByteSize_append] at hlength
      omega
    · rcases hparts with hparts | hparts
      · rw [hparts, hwalk]
      · rw [hparts, walk_append, hwalk]
        exact walk_empty hplace

/-- A plain name leads to itself in the working directory. -/
theorem resolve_plain (hname : Path.Plain name)
    (h : t.resolve name (Path.parts name) = .ok names) :
    t.node? t.here = some .directory ∧ names = t.here ++ [name] := by
  have hrelative : Path.isAbsolute name = false := by
    rcases hchars : name.toList with _ | ⟨c, s⟩
    · simp [Path.isAbsolute, hchars]
    · have hc : c ≠ '/' := by
        rintro rfl
        exact hname.no_slash (by simp [hchars])
      simp [Path.isAbsolute, hchars, hc]
  rw [Path.parts_of_no_slash hname.no_slash, resolve_eq_ok, hrelative] at h
  exact walk_plain hname h.2.2.2

/-! ### Written files -/

/-- A file has been written at a place that was no directory, and nothing else is different. -/
structure Writes (t t' : FileTree) (names : List String) (content : List UInt8) : Prop where
  here_eq : t'.here = t.here
  not_directory : t.node? names ≠ some .directory
  node?_self : t'.node? names = some (.file content)
  node?_of_ne : ∀ other ≠ names, t'.node? other = t.node? other

theorem Writes.keeps_directory (h : t.Writes t' names content)
    (hother : t.node? other = some .directory) : t'.node? other = some .directory := by
  have hne : other ≠ names := by
    rintro rfl
    exact h.not_directory hother
  rw [h.node?_of_ne other hne, hother]

theorem writeFile_eq_ok (h : t.writeFile path content = .ok t') :
    ∃ names, t.resolve path (Path.parts path) = .ok names ∧ t.Writes t' names content := by
  simp only [writeFile, bind, Except.bind] at h
  split at h
  · cases h
  · rename_i names hresolve
    refine ⟨names, hresolve, ?_⟩
    by_cases hdirectory : t.node? names = some .directory
    · simp [hdirectory, throw, throwThe, MonadExceptOf.throw] at h
    · have hne : names ≠ [] := by
        rintro rfl
        exact hdirectory rfl
      simp only [hdirectory, if_false] at h
      obtain rfl : t.put names (.file content) = t' := Except.ok.inj h
      exact ⟨rfl, hdirectory, t.node?_put_self _ hne, fun other => t.node?_put_of_ne _⟩

/-- A path leads to what has just been written there. -/
theorem readFile_of_writes (hresolve : t.resolve path (Path.parts path) = .ok names)
    (h : t.Writes t' names content) : t'.readFile path = .ok content := by
  have hresolve' := resolve_of_directories (fun _ => h.keeps_directory) h.here_eq hresolve
  simp only [readFile, hresolve', bind, Except.bind, h.node?_self]
  rfl

end FileTree

end JvmLisp.Host
