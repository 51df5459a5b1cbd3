import Provenance.Files.Discovery

/-!
# Paths continued by names

A path that is continued by names has its own names and then those, and it leads to what lies under
the names below the tree that it led to.
-/

namespace Provenance

/-- Whether a text can be the name of an entry of a folder. -/
structure IsEntryName (name : String) : Prop where
  nonempty : name ≠ ""
  notHere : name ≠ "."
  notBack : name ≠ ".."
  noSlash : '/' ∉ name.toList

instance (name : String) : Decidable (IsEntryName name) :=
  decidable_of_iff (name ≠ "" ∧ name ≠ "." ∧ name ≠ ".." ∧ '/' ∉ name.toList)
    ⟨fun ⟨hempty, hhere, hback, hslash⟩ => ⟨hempty, hhere, hback, hslash⟩,
      fun h => ⟨h.nonempty, h.notHere, h.notBack, h.noSlash⟩⟩

/-! ## Steps of a path -/

theorem pathSteps_intercalate {names : List String} (hne : names ≠ [])
    (h : ∀ name ∈ names, IsEntryName name) : pathSteps ("/".intercalate names) = names := by
  have hslash : "/".toList = ['/'] := rfl
  have hlists : ∀ cs ∈ names.map String.toList, '/' ∉ cs := by
    intro cs hcs
    obtain ⟨name, hname, rfl⟩ := List.mem_map.mp hcs
    exact (h name hname).noSlash
  rw [pathSteps, String.toList_intercalate, hslash,
    List.splitOn_intercalate '/' hlists (by simpa using hne), List.map_map]
  simp [Function.comp_def]

theorem pathSteps_slash (path rest : String) :
    pathSteps (path ++ "/" ++ rest) = pathSteps path ++ pathSteps rest := by
  have hslash : (path ++ "/" ++ rest).toList = path.toList ++ '/' :: rest.toList := by simp
  rw [pathSteps, hslash, List.splitOn_append_cons_self, List.map_append]
  rfl

@[simp] theorem pathSteps_empty : pathSteps "" = [""] := rfl

theorem pathNames_slash (path rest : String) :
    pathNames (path ++ "/" ++ rest) = pathNames path ++ pathNames rest := by
  rw [pathNames, pathSteps_slash, List.filter_append]
  rfl

@[simp] theorem pathNames_empty : pathNames "" = [] := rfl

theorem pathNames_intercalate {names : List String} (hne : names ≠ [])
    (h : ∀ name ∈ names, IsEntryName name) : pathNames ("/".intercalate names) = names := by
  rw [pathNames, pathSteps_intercalate hne h, List.filter_eq_self]
  intro name hname
  simp [(h name hname).nonempty, (h name hname).notHere]

/-- A slash at the end of the path counts as the one in front of the names. -/
theorem joinPath_cases (path : String) {names : List String} (hne : names ≠ []) :
    (joinPath path names = path ++ "/" ++ "/".intercalate names) ∨
      ∃ front, path = front ++ "/" ∧
        joinPath path names = front ++ "/" ++ "/".intercalate names := by
  by_cases hlast : path.toList.getLast? = some '/'
  · obtain ⟨front, hfront⟩ := List.getLast?_eq_some_iff.mp hlast
    have hpath : path = String.ofList front ++ "/" := by
      rw [← String.toList_inj, hfront]
      simp
    exact .inr ⟨String.ofList front, hpath, by simp [joinPath, hne, hlast, ← hpath]⟩
  · exact .inl (by simp [joinPath, hne, hlast])

theorem pathNames_joinPath (path : String) {names : List String}
    (h : ∀ name ∈ names, IsEntryName name) :
    pathNames (joinPath path names) = pathNames path ++ names := by
  by_cases hne : names = []
  · simp [hne, joinPath]
  · obtain hjoin | ⟨front, rfl, hjoin⟩ := joinPath_cases path hne
    · rw [hjoin, pathNames_slash, pathNames_intercalate hne h]
    · have hown : pathNames (front ++ "/") = pathNames front := by
        simpa using pathNames_slash front ""
      rw [hjoin, pathNames_slash, pathNames_intercalate hne h, hown]

/-! ## Following a path -/

namespace FileTree

variable {root tree : FileTree}

theorem below?_append (front back : List String) :
    root.below? (front ++ back) = (root.below? front).bind (below? back) := by
  induction front generalizing root with
  | nil => rfl
  | cons name front ih =>
    cases root with
    | file bytes => rfl
    | folder entries =>
      rw [List.cons_append, below?, below?, Option.bind_assoc]
      exact congrArg _ (funext fun tree => ih)

theorem follow?_append (here steps more : List String) :
    follow? root here (steps ++ more) =
      (follow? root here steps).bind fun there => follow? root there more := by
  induction steps generalizing here with
  | nil => rfl
  | cons step steps ih =>
    rw [List.cons_append, follow?.eq_def, follow?.eq_def root here (step :: steps)]
    dsimp only
    split
    · split
      · exact ih here
      split
      · cases here with
        | nil => rfl
        | cons _ up => exact ih up
      · exact ih (step :: here)
    · rfl

theorem eq_of_follow?_empty {here there : List String}
    (h : follow? root here [""] = some there) : here = there := by
  rw [follow?.eq_def] at h
  dsimp only at h
  split at h
  · simpa [follow?] using h
  · cases h

theorem follow?_names {here names : List String} {found : FileTree}
    (hhere : root.below? here.reverse = some tree) (hbelow : tree.below? names = some found)
    (h : ∀ name ∈ names, IsEntryName name) :
    follow? root here names = some (names.reverse ++ here) := by
  induction names generalizing here tree with
  | nil => rfl
  | cons name names ih =>
    obtain ⟨hname, hnames⟩ := List.forall_mem_cons.mp h
    cases tree with
    | file bytes => simp [below?] at hbelow
    | folder entries =>
      obtain ⟨next, hlookup, hnext⟩ := Option.bind_eq_some_iff.mp hbelow
      have hstep : root.below? (name :: here).reverse = some next := by
        rw [List.reverse_cons, below?_append, hhere]
        simp [below?, hlookup]
      rw [follow?.eq_def, hhere]
      simp [isFolder, hname.nonempty, hname.notHere, hname.notBack, ih hstep hnext hnames]

theorem at?_eq_some_iff {path : String} :
    root.at? path = some tree ↔
      (∃ c cs, path.toList = c :: cs ∧ c ≠ '/') ∧
        ∃ here, follow? root [] (pathSteps path) = some here ∧
          root.below? here.reverse = some tree := by
  have hsteps : ∀ steps, steps? path = some steps ↔
      (∃ c cs, path.toList = c :: cs ∧ c ≠ '/') ∧ pathSteps path = steps := by
    intro steps
    have hempty : path.isEmpty = path.toList.isEmpty := by
      rw [Bool.eq_iff_iff]
      simp
    rw [steps?, hempty]
    cases hpath : path.toList with
    | nil => simp
    | cons c cs => simp
  simp only [at?, locate?, Option.bind_eq_some_iff, Option.map_eq_some_iff, hsteps]
  constructor
  · rintro ⟨-, ⟨here, ⟨-, ⟨hrelative, rfl⟩, hfollow⟩, rfl⟩, hbelow⟩
    exact ⟨hrelative, here, hfollow, hbelow⟩
  · rintro ⟨hrelative, here, hfollow, hbelow⟩
    exact ⟨here.reverse, ⟨here, ⟨_, ⟨hrelative, rfl⟩, hfollow⟩, rfl⟩, hbelow⟩

theorem follow?_joinPath {path : String} {here names : List String} (hne : names ≠ [])
    (h : ∀ name ∈ names, IsEntryName name)
    (hfollow : follow? root [] (pathSteps path) = some here) :
    follow? root [] (pathSteps (joinPath path names)) = follow? root here names := by
  obtain hjoin | ⟨front, rfl, hjoin⟩ := joinPath_cases path hne
  · rw [hjoin, pathSteps_slash, pathSteps_intercalate hne h, follow?_append, hfollow,
      Option.bind_some]
  · have hsteps : pathSteps (front ++ "/") = pathSteps front ++ [""] := by
      simpa using pathSteps_slash front ""
    rw [hsteps, follow?_append, Option.bind_eq_some_iff] at hfollow
    obtain ⟨there, hthere, hempty⟩ := hfollow
    obtain rfl := eq_of_follow?_empty hempty
    rw [hjoin, pathSteps_slash, pathSteps_intercalate hne h, follow?_append, hthere,
      Option.bind_some]

theorem at?_joinPath {path : String} {names : List String} {found : FileTree}
    (hpath : root.at? path = some tree) (hbelow : tree.below? names = some found)
    (h : ∀ name ∈ names, IsEntryName name) : root.at? (joinPath path names) = some found := by
  by_cases hne : names = []
  · subst hne
    obtain rfl : tree = found := by simpa [below?] using hbelow
    simpa [joinPath] using hpath
  · obtain ⟨⟨c, cs, hchars, hc⟩, here, hfollow, hhere⟩ := at?_eq_some_iff.mp hpath
    obtain ⟨more, hmore⟩ : ∃ more, joinPath path names = path ++ more :=
      ⟨_, by rw [joinPath, if_neg (by simpa using hne), String.append_assoc]⟩
    refine at?_eq_some_iff.mpr ⟨⟨c, cs ++ more.toList, ?_, hc⟩, names.reverse ++ here, ?_, ?_⟩
    · rw [hmore, String.toList_append, hchars, List.cons_append]
    · rw [follow?_joinPath hne h hfollow, follow?_names hhere hbelow h]
    · rw [List.reverse_append, List.reverse_reverse, below?_append, hhere, Option.bind_some,
        hbelow]

end FileTree

end Provenance
