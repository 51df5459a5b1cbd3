import Mathlib.Data.List.Nodup
import Mathlib.Data.List.Perm.Basic
import Provenance.Proofs.Files.Paths
import Provenance.Proofs.Text.LowerCase

/-!
# Discovered files

The files that are found are told by their names alone: the last one ends in `.sql` and none of
those before it, from the last name of the path on, is one of a build. They come in the order of
their names, which does not depend on the order in which folders list their entries.
-/

namespace Provenance

/-! ## Names of SQL files -/

/-- Whether a name has the extension `sql`, in any ASCII case. -/
def HasSqlExtension (name : String) : Prop :=
  ∃ stem extension, name = stem ++ "." ++ extension ∧ stem ≠ "" ∧
    Text.equalIgnoringCase extension "sql" = true

theorem extension?_eq_some {name extension : String} (h : extension? name = some extension) :
    ∃ stem, name = stem ++ "." ++ extension ∧ stem ≠ "" := by
  have hsplit := List.takeWhile_append_dropWhile (p := (· != '.')) (l := name.toList.reverse)
  rw [extension?] at h
  match hdrop : name.toList.reverse.dropWhile (· != '.') with
  | [] => simp [hdrop] at h
  | [_] => simp [hdrop] at h
  | dot :: c :: rest =>
    have hdot : dot = '.' := by
      have hhead := List.head?_dropWhile_not (· != '.') name.toList.reverse
      simpa [hdrop] using hhead
    simp only [hdrop, Option.some.injEq] at h
    rw [hdrop, hdot] at hsplit
    refine ⟨String.ofList (c :: rest).reverse, ?_, by simp⟩
    rw [← String.toList_inj, ← List.reverse_inj, ← hsplit, ← h]
    simp

theorem extension?_append {stem extension : String} (hstem : stem ≠ "")
    (hdot : '.' ∉ extension.toList) : extension? (stem ++ "." ++ extension) = some extension := by
  have hreverse : (stem ++ "." ++ extension).toList.reverse =
      extension.toList.reverse ++ '.' :: stem.toList.reverse := by simp
  have hne : ∀ c ∈ extension.toList.reverse, (c != '.') = true := by
    intro c hc
    have hmem : c ∈ extension.toList := List.mem_reverse.mp hc
    simp only [bne_iff_ne, ne_eq]
    rintro rfl
    exact hdot hmem
  obtain ⟨c, rest, hrest⟩ : ∃ c rest, stem.toList.reverse = c :: rest := by
    apply List.exists_cons_of_ne_nil
    simpa using hstem
  rw [extension?, hreverse, List.dropWhile_append_of_pos hne, List.takeWhile_append_of_pos hne,
    hrest]
  simp

theorem isSqlName_iff {name : String} : isSqlName name = true ↔ HasSqlExtension name := by
  rw [isSqlName, Option.any_eq_true]
  constructor
  · rintro ⟨extension, hextension, hsql⟩
    obtain ⟨stem, hname, hstem⟩ := extension?_eq_some hextension
    exact ⟨stem, extension, hname, hstem, hsql⟩
  · rintro ⟨stem, extension, rfl, hstem, hsql⟩
    have hdot : '.' ∉ extension.toList := by
      rw [← Text.dot_mem_lowerCase, Text.lowerCase_eq_of_equalIgnoringCase hsql,
        Text.dot_mem_lowerCase]
      decide
    exact ⟨extension, extension?_append hstem hdot, hsql⟩

/-- Whether names lead to a SQL file past no folder of a build. -/
structure IsSqlPath (names : List String) : Prop where
  file : ∃ name ∈ names.getLast?, HasSqlExtension name
  folders : ∀ name ∈ names.dropLast, isBuildName name = false

theorem isSqlPath_singleton {name : String} : IsSqlPath [name] ↔ HasSqlExtension name := by
  constructor
  · rintro ⟨⟨other, hother, hfile⟩, -⟩
    obtain rfl : name = other := by simpa using hother
    exact hfile
  · intro hfile
    exact ⟨⟨name, by simp, hfile⟩, by simp⟩

theorem isSqlPath_cons {name : String} {names : List String} (hne : names ≠ []) :
    IsSqlPath (name :: names) ↔ isBuildName name = false ∧ IsSqlPath names := by
  obtain ⟨next, rest, rfl⟩ := List.exists_cons_of_ne_nil hne
  constructor
  · rintro ⟨hfile, hfolders⟩
    exact ⟨hfolders name (by simp), ⟨by simpa using hfile, fun n hn => hfolders n (by simp [hn])⟩⟩
  · rintro ⟨hname, hfile, hfolders⟩
    refine ⟨by simpa using hfile, fun n hn => ?_⟩
    rcases List.mem_cons.mp hn with rfl | hn
    · exact hname
    · exact hfolders n hn

theorem IsSqlPath.ne_nil {names : List String} (h : IsSqlPath names) : names ≠ [] := by
  rintro rfl
  obtain ⟨name, hname, -⟩ := h.file
  simp at hname

/-! ## Files of a tree -/

namespace FileTree

/-- Whether the entries of every folder have names that they can have, and no two the same. -/
inductive IsProper : FileTree → Prop
  | file (bytes : ByteArray) : IsProper (file bytes)
  | folder {entries : List (String × FileTree)} (hnodup : (entries.map Prod.fst).Nodup)
      (hnames : ∀ entry ∈ entries, IsEntryName entry.1)
      (h : ∀ entry ∈ entries, IsProper entry.2) : IsProper (folder entries)

theorem below?_cons_folder {entries : List (String × FileTree)}
    (hnodup : (entries.map Prod.fst).Nodup) {name : String} {names : List String}
    {found : FileTree} :
    (folder entries).below? (name :: names) = some found ↔
      ∃ tree, (name, tree) ∈ entries ∧ tree.below? names = some found := by
  have hlookup : ∀ tree, entries.lookup name = some tree ↔ (name, tree) ∈ entries := by
    intro tree
    rw [List.lookup_eq_some_iff]
    constructor
    · rintro ⟨front, back, rfl, -⟩
      simp
    · intro hmem
      obtain ⟨front, back, rfl⟩ := List.append_of_mem hmem
      refine ⟨front, back, rfl, fun entry hentry => ?_⟩
      rw [List.map_append, List.map_cons, List.nodup_append] at hnodup
      have hne : entry.1 ≠ name := hnodup.2.2 entry.1 (List.mem_map_of_mem hentry) name (by simp)
      simpa using hne.symm
  simp only [below?, Option.bind_eq_some_iff, hlookup]

theorem isEntryName_of_below? {tree : FileTree} (h : tree.IsProper) {names : List String}
    {found : FileTree} (hbelow : tree.below? names = some found) :
    ∀ name ∈ names, IsEntryName name := by
  induction h generalizing names with
  | file bytes =>
    cases names with
    | nil => simp
    | cons name names => simp [below?] at hbelow
  | folder hnodup hnames h ih =>
    cases names with
    | nil => simp
    | cons name names =>
      obtain ⟨tree, hmem, hbelow⟩ := (below?_cons_folder hnodup).mp hbelow
      intro n hn
      rcases List.mem_cons.mp hn with rfl | hn
      · exact hnames _ hmem
      · exact ih _ hmem hbelow n hn

end FileTree

theorem sqlFilesIn_eq_flatMap (entries : List (String × FileTree)) :
    sqlFilesIn entries = entries.flatMap fun entry => sqlFilesAt entry.1 entry.2 := by
  induction entries with
  | nil => rfl
  | cons entry entries ih => rw [sqlFilesIn, ih, List.flatMap_cons]

theorem mem_sqlFilesIn {entries : List (String × FileTree)}
    (hnodup : (entries.map Prod.fst).Nodup)
    (h : ∀ entry ∈ entries, ∀ f, f ∈ sqlFilesAt entry.1 entry.2 ↔
      ∃ names, f.names = entry.1 :: names ∧ entry.2.below? names = some (.file f.bytes) ∧
        IsSqlPath f.names) (f : FoundFile) :
    f ∈ sqlFilesIn entries ↔
      (FileTree.folder entries).below? f.names = some (.file f.bytes) ∧ IsSqlPath f.names := by
  rw [sqlFilesIn_eq_flatMap, List.mem_flatMap]
  constructor
  · rintro ⟨⟨name, tree⟩, hmem, hf⟩
    obtain ⟨names, hnames, hbelow, hpath⟩ := (h _ hmem f).mp hf
    rw [hnames, FileTree.below?_cons_folder hnodup]
    exact ⟨⟨tree, hmem, hbelow⟩, hnames ▸ hpath⟩
  · rintro ⟨hbelow, hpath⟩
    obtain ⟨name, names, hnames⟩ := List.exists_cons_of_ne_nil hpath.ne_nil
    rw [hnames, FileTree.below?_cons_folder hnodup] at hbelow
    obtain ⟨tree, hmem, hbelow⟩ := hbelow
    exact ⟨(name, tree), hmem, (h _ hmem f).mpr ⟨names, hnames, hbelow, hpath⟩⟩

theorem mem_sqlFilesAt {tree : FileTree} (h : tree.IsProper) (name : String) (f : FoundFile) :
    f ∈ sqlFilesAt name tree ↔
      ∃ names, f.names = name :: names ∧ tree.below? names = some (.file f.bytes) ∧
        IsSqlPath f.names := by
  induction h generalizing name f with
  | file bytes =>
    rw [sqlFilesAt]
    constructor
    · intro hf
      obtain ⟨hname, rfl⟩ : isSqlName name = true ∧ f = ⟨[name], bytes⟩ := by
        simpa [List.mem_ite_nil_right] using hf
      exact ⟨[], rfl, rfl, isSqlPath_singleton.mpr (isSqlName_iff.mp hname)⟩
    · rintro ⟨names, hnames, hbelow, hpath⟩
      obtain ⟨rfl, hbytes⟩ : names = [] ∧ bytes = f.bytes := by
        cases names with
        | nil => simpa [FileTree.below?] using hbelow
        | cons => simp [FileTree.below?] at hbelow
      rw [hnames, isSqlPath_singleton, ← isSqlName_iff] at hpath
      simp [hpath, hbytes, ← hnames]
  | @folder entries hnodup hnames h ih =>
    have hin := mem_sqlFilesIn hnodup fun entry hentry f => ih entry hentry entry.1 f
    rw [sqlFilesAt]
    constructor
    · intro hf
      obtain ⟨hname, g, hg, rfl⟩ : isBuildName name = false ∧
          ∃ g ∈ sqlFilesIn entries, { g with names := name :: g.names } = f := by
        simpa [List.mem_ite_nil_left] using hf
      obtain ⟨hbelow, hpath⟩ := (hin g).mp hg
      exact ⟨g.names, rfl, hbelow, (isSqlPath_cons hpath.ne_nil).mpr ⟨hname, hpath⟩⟩
    · rintro ⟨names, hnames, hbelow, hpath⟩
      have hne : names ≠ [] := by
        rintro rfl
        simp [FileTree.below?] at hbelow
      rw [hnames, isSqlPath_cons hne] at hpath
      rw [if_neg (by simp [hpath.1]), List.mem_map]
      refine ⟨⟨names, f.bytes⟩, (hin _).mpr ⟨hbelow, hpath.2⟩, ?_⟩
      rw [← hnames]

theorem nodup_sqlFilesIn {entries : List (String × FileTree)}
    (hnodup : (entries.map Prod.fst).Nodup) (hproper : ∀ entry ∈ entries, entry.2.IsProper)
    (h : ∀ entry ∈ entries, ((sqlFilesAt entry.1 entry.2).map FoundFile.names).Nodup) :
    ((sqlFilesIn entries).map FoundFile.names).Nodup := by
  rw [sqlFilesIn_eq_flatMap, List.map_flatMap, List.nodup_flatMap]
  refine ⟨h, (List.pairwise_map.mp hnodup).imp_of_mem fun {a b} ha hb hne => ?_⟩
  have hhead : ∀ entry ∈ entries, ∀ names ∈ (sqlFilesAt entry.1 entry.2).map FoundFile.names,
      names.head? = some entry.1 := by
    intro entry hentry names hnames
    obtain ⟨f, hf, rfl⟩ := List.mem_map.mp hnames
    obtain ⟨rest, hrest, -⟩ := (mem_sqlFilesAt (hproper entry hentry) entry.1 f).mp hf
    rw [hrest, List.head?_cons]
  intro names hnames hnames'
  have hsame := (hhead a ha names hnames).symm.trans (hhead b hb names hnames')
  exact hne (Option.some.inj hsame)

theorem nodup_sqlFilesAt {tree : FileTree} (h : tree.IsProper) (name : String) :
    ((sqlFilesAt name tree).map FoundFile.names).Nodup := by
  induction h generalizing name with
  | file bytes =>
    rw [sqlFilesAt]
    split <;> simp
  | @folder entries hnodup hnames h ih =>
    have hin := nodup_sqlFilesIn hnodup h fun entry hentry => ih entry hentry entry.1
    rw [sqlFilesAt]
    split
    · simp
    · have hcons : (fun f : FoundFile => name :: f.names) = (name :: ·) ∘ FoundFile.names := rfl
      rw [List.map_map, Function.comp_def, hcons, ← List.map_map]
      exact hin.map List.cons_injective

/-! ## Files below a path -/

/-- A file of an entry with the name of the entry. -/
def FoundFile.under (name : String) (f : FoundFile) : FoundFile :=
  { f with names := name :: f.names }

theorem FoundFile.under_injective (name : String) : (FoundFile.under name).Injective := by
  rintro ⟨names, bytes⟩ ⟨names', bytes'⟩ h
  simpa [FoundFile.under] using h

/-- What is found below a path is what is found below an entry with the last name of the path. -/
theorem map_sqlFiles_perm (path : String) (tree : FileTree) :
    ((sqlFiles path tree).map (FoundFile.under ((lastName? path).getD ""))).Perm
      (sqlFilesAt ((lastName? path).getD "") tree) := by
  cases tree with
  | file bytes =>
    have hname : (lastName? path).any isSqlName = isSqlName ((lastName? path).getD "") := by
      cases lastName? path <;> rfl
    rw [sqlFiles, sqlFilesAt, hname]
    split <;> rfl
  | folder entries =>
    have hname : (lastName? path).any isBuildName = isBuildName ((lastName? path).getD "") := by
      cases lastName? path <;> rfl
    rw [sqlFiles, sqlFilesAt, hname]
    split
    · rfl
    · exact (List.mergeSort_perm _ _).map _

/-- Whether a file stands at or below a path at which a tree stands, and its name and those of the
folders on the way, from that of the path on, are those of a SQL file. -/
structure IsFound (path : String) (tree : FileTree) (f : FoundFile) : Prop where
  below : tree.below? f.names = some (.file f.bytes)
  isSqlPath : IsSqlPath ((lastName? path).toList ++ f.names)

theorem isSqlPath_getD {last : Option String} {names : List String} :
    IsSqlPath (last.getD "" :: names) ↔ IsSqlPath (last.toList ++ names) := by
  cases last with
  | some name => rfl
  | none =>
    by_cases hne : names = []
    · subst hne
      have hempty : ¬ HasSqlExtension "" := by
        rw [← isSqlName_iff]
        decide
      exact iff_of_false (fun h => hempty (isSqlPath_singleton.mp h)) fun h => h.ne_nil rfl
    · have hbuild : isBuildName "" = false := by decide
      rw [Option.getD_none, isSqlPath_cons hne, hbuild]
      simp

theorem mem_sqlFiles {tree : FileTree} (h : tree.IsProper) {path : String} {f : FoundFile} :
    f ∈ sqlFiles path tree ↔ IsFound path tree f := by
  rw [← List.mem_map_of_injective (FoundFile.under_injective ((lastName? path).getD "")),
    (map_sqlFiles_perm path tree).mem_iff, mem_sqlFilesAt h]
  constructor
  · rintro ⟨names, hnames, hbelow, hpath⟩
    obtain rfl : f.names = names := List.tail_eq_of_cons_eq hnames
    exact ⟨hbelow, isSqlPath_getD.mp hpath⟩
  · rintro ⟨hbelow, hpath⟩
    exact ⟨f.names, rfl, hbelow, isSqlPath_getD.mpr hpath⟩

/-! ## The order of files -/

/-- Whether a comparison puts any entries in exactly one order. -/
structure IsOrder {α : Type} (le : α → α → Bool) : Prop where
  total : ∀ a b, le a b = true ∨ le b a = true
  antisymm : ∀ a b, le a b = true → le b a = true → a = b
  trans : ∀ a b c, le a b = true → le b c = true → le a c = true

section Order

variable {α : Type} [DecidableEq α] {le : α → α → Bool}

theorem listLe_cons_iff {a b : α} {as bs : List α} :
    listLe le (a :: as) (b :: bs) = true ↔
      (a = b ∧ listLe le as bs = true) ∨ (a ≠ b ∧ le a b = true) := by
  by_cases hab : a = b <;> simp [listLe, hab]

theorem listLe_append (front as bs : List α) :
    listLe le (front ++ as) (front ++ bs) = listLe le as bs := by
  induction front with
  | nil => rfl
  | cons a front ih => simpa [listLe] using ih

theorem listLe_total (h : IsOrder le) (as bs : List α) :
    listLe le as bs = true ∨ listLe le bs as = true := by
  induction as generalizing bs with
  | nil => exact .inl rfl
  | cons a as ih =>
    cases bs with
    | nil => exact .inr rfl
    | cons b bs =>
      simp only [listLe_cons_iff]
      by_cases hab : a = b
      · subst hab
        simpa using ih bs
      · simpa [hab, Ne.symm hab] using h.total a b

theorem listLe_antisymm (h : IsOrder le) (as bs : List α) (hle : listLe le as bs = true)
    (hge : listLe le bs as = true) : as = bs := by
  induction as generalizing bs with
  | nil =>
    cases bs with
    | nil => rfl
    | cons b bs => cases hge
  | cons a as ih =>
    cases bs with
    | nil => cases hle
    | cons b bs =>
      rw [listLe_cons_iff] at hle hge
      rcases hle with ⟨rfl, hle⟩ | ⟨hne, hle⟩
      · rw [ih bs hle (by simpa using hge)]
      · have hge : le b a = true := by simpa [Ne.symm hne] using hge
        exact absurd (h.antisymm a b hle hge) hne

/-- Where the first entries differ in both steps, they differ in both together, as otherwise two
entries would each come before the other. -/
theorem listLe_trans (h : IsOrder le) (as bs cs : List α) (hab : listLe le as bs = true)
    (hbc : listLe le bs cs = true) : listLe le as cs = true := by
  induction as generalizing bs cs with
  | nil => rfl
  | cons a as ih =>
    cases bs with
    | nil => cases hab
    | cons b bs =>
      cases cs with
      | nil => cases hbc
      | cons c cs =>
        rw [listLe_cons_iff] at hab hbc ⊢
        rcases hab with ⟨rfl, hab⟩ | ⟨hne, hab⟩
        · rcases hbc with ⟨rfl, hbc⟩ | hbc
          · exact .inl ⟨rfl, ih bs cs hab hbc⟩
          · exact .inr hbc
        · rcases hbc with ⟨rfl, hbc⟩ | ⟨hne', hbc⟩
          · exact .inr ⟨hne, hab⟩
          · refine .inr ⟨?_, h.trans a b c hab hbc⟩
            rintro rfl
            exact hne (h.antisymm a b hab hbc)

theorem isOrder_listLe (h : IsOrder le) : IsOrder (listLe le) :=
  ⟨listLe_total h, listLe_antisymm h, listLe_trans h⟩

end Order

theorem isOrder_nameLe : IsOrder nameLe := by
  have hcodes : IsOrder fun c d : Char => decide (c.toNat ≤ d.toNat) := by
    refine ⟨fun c d => ?_, fun c d hle hge => ?_, fun c d e hcd hde => ?_⟩
    · simpa using Nat.le_total c.toNat d.toNat
    · exact Char.toNat_inj.mp (Nat.le_antisymm (of_decide_eq_true hle) (of_decide_eq_true hge))
    · exact decide_eq_true (Nat.le_trans (of_decide_eq_true hcd) (of_decide_eq_true hde))
  have hlists := isOrder_listLe hcodes
  exact ⟨fun a b => hlists.total _ _,
    fun a b hle hge => String.toList_inj.mp (hlists.antisymm _ _ hle hge),
    fun a b c hab hbc => hlists.trans _ _ _ hab hbc⟩

theorem isOrder_namesLe : IsOrder namesLe := isOrder_listLe isOrder_nameLe

theorem pairwise_sqlFiles (path : String) (tree : FileTree) :
    (sqlFiles path tree).Pairwise fun f g => namesLe f.names g.names = true := by
  cases tree with
  | file bytes =>
    rw [sqlFiles]
    split <;> simp
  | folder entries =>
    rw [sqlFiles]
    split
    · exact List.Pairwise.nil
    · apply List.pairwise_mergeSort
      · exact fun f g k => isOrder_namesLe.trans f.names g.names k.names
      · intro f g
        rw [Bool.or_eq_true]
        exact isOrder_namesLe.total f.names g.names

theorem nodup_sqlFiles {tree : FileTree} (h : tree.IsProper) (path : String) :
    ((sqlFiles path tree).map FoundFile.names).Nodup := by
  have hperm := (map_sqlFiles_perm path tree).map FoundFile.names
  have hnodup := hperm.nodup_iff.mpr (nodup_sqlFilesAt h _)
  have hnames : ∀ name, FoundFile.names ∘ FoundFile.under name =
      (name :: ·) ∘ FoundFile.names := fun _ => rfl
  rw [List.map_map, hnames, ← List.map_map] at hnodup
  exact hnodup.of_map

/-! ## Other orders of entries -/

namespace FileTree

/-- Whether two trees differ at most in the order in which folders list their entries. -/
inductive Relisted : FileTree → FileTree → Prop
  | refl (tree : FileTree) : Relisted tree tree
  | perm {entries others : List (String × FileTree)} (h : entries.Perm others) :
      Relisted (folder entries) (folder others)
  | entry {tree other : FileTree} (front back : List (String × FileTree)) (name : String)
      (h : Relisted tree other) :
      Relisted (folder (front ++ (name, tree) :: back)) (folder (front ++ (name, other) :: back))
  | trans {tree other third : FileTree} (h : Relisted tree other) (h' : Relisted other third) :
      Relisted tree third

end FileTree

theorem sqlFilesAt_perm {tree other : FileTree} (h : tree.Relisted other) (name : String) :
    (sqlFilesAt name tree).Perm (sqlFilesAt name other) := by
  induction h generalizing name with
  | refl tree => rfl
  | perm hperm =>
    rw [sqlFilesAt, sqlFilesAt, sqlFilesIn_eq_flatMap, sqlFilesIn_eq_flatMap]
    split
    · rfl
    · exact (hperm.flatMap_right _).map _
  | entry front back entryName h ih =>
    simp only [sqlFilesAt, sqlFilesIn_eq_flatMap, List.flatMap_append, List.flatMap_cons]
    split
    · rfl
    · exact (((ih entryName).append_right _).append_left _).map _
  | trans h h' ih ih' => exact (ih name).trans (ih' name)

/-- The order in which folders list their entries makes no difference. -/
theorem sqlFiles_relisted {tree other : FileTree} (hproper : tree.IsProper)
    (h : tree.Relisted other) (path : String) : sqlFiles path tree = sqlFiles path other := by
  have hperm : (sqlFiles path tree).Perm (sqlFiles path other) := by
    rw [← List.map_perm_map_iff (FoundFile.under_injective ((lastName? path).getD ""))]
    exact ((map_sqlFiles_perm path tree).trans (sqlFilesAt_perm h _)).trans
      (map_sqlFiles_perm path other).symm
  refine hperm.eq_of_pairwise (fun f g hf hg hfg hgf => ?_)
    (pairwise_sqlFiles path tree) (pairwise_sqlFiles path other)
  have hnames : f.names = g.names := isOrder_namesLe.antisymm _ _ hfg hgf
  exact List.inj_on_of_nodup_map (nodup_sqlFiles hproper path) hf (hperm.mem_iff.mpr hg) hnames

/-! ## Paths of files -/

/-- Whether files are those that are found below a path, each once and under a path that leads to
it, in the order of the names of their paths. -/
structure IsListing (path : String) (tree : FileTree) (files : List (String × ByteArray)) :
    Prop where
  mem_iff : ∀ file, file ∈ files ↔
    ∃ names, file.1 = joinPath path names ∧ IsFound path tree ⟨names, file.2⟩
  at_path : ∀ root : FileTree, root.at? path = some tree →
    ∀ file ∈ files, root.at? file.1 = some (.file file.2)
  sorted : files.Pairwise fun file other =>
    namesLe (pathNames file.1) (pathNames other.1) = true
  nodup : (files.map Prod.fst).Nodup

theorem isListing_sqlFiles {tree : FileTree} (h : tree.IsProper) (path : String) :
    IsListing path tree ((sqlFiles path tree).map fun f => (joinPath path f.names, f.bytes)) := by
  have hentryNames : ∀ f ∈ sqlFiles path tree, ∀ name ∈ f.names, IsEntryName name :=
    fun f hf => FileTree.isEntryName_of_below? h ((mem_sqlFiles h).mp hf).below
  have hpathNames : ∀ f ∈ sqlFiles path tree,
      pathNames (joinPath path f.names) = pathNames path ++ f.names :=
    fun f hf => pathNames_joinPath path (hentryNames f hf)
  refine ⟨fun file => ?_, fun root hroot file hfile => ?_, ?_, ?_⟩
  · constructor
    · intro hfile
      obtain ⟨f, hf, rfl⟩ := List.mem_map.mp hfile
      exact ⟨f.names, rfl, (mem_sqlFiles h).mp hf⟩
    · rintro ⟨names, hpath, hfound⟩
      refine List.mem_map.mpr ⟨⟨names, file.2⟩, (mem_sqlFiles h).mpr hfound, ?_⟩
      exact Prod.ext hpath.symm rfl
  · obtain ⟨f, hf, rfl⟩ := List.mem_map.mp hfile
    exact FileTree.at?_joinPath hroot ((mem_sqlFiles h).mp hf).below (hentryNames f hf)
  · refine List.pairwise_map.mpr ((pairwise_sqlFiles path tree).imp_of_mem ?_)
    intro f g hf hg hle
    rw [hpathNames f hf, hpathNames g hg, namesLe, listLe_append]
    exact hle
  · rw [List.map_map]
    refine (List.nodup_map_iff_inj_on (.of_map _ (nodup_sqlFiles h path))).mpr ?_
    intro f hf g hg hpath
    have hnames := congrArg pathNames hpath
    simp only [Function.comp_apply, hpathNames f hf, hpathNames g hg] at hnames
    exact List.inj_on_of_nodup_map (nodup_sqlFiles h path) hf hg (List.append_cancel_left hnames)

end Provenance
