import Provenance.Files.Survey
import Provenance.Proofs.Files.Discovery

/-!
# Surveyed files

A survey parts the files that are found into those that define an object and those that do not.
What it says of a file depends on nothing but the content of the file, so it does not matter how
the files are shared out.
-/

namespace Provenance

/-- Whether a survey of files lists each of them once, in their order, with the object that its own
content defines or among those that define none. -/
structure Survey.IsPartition (index : Index) (defaultSchema : Option String)
    (files : List (String × ByteArray)) (survey : Survey) : Prop where
  objects : (survey.objects.map Prod.fst).Sublist (files.map Prod.fst)
  unrecognized : survey.unrecognized.Sublist (files.map Prod.fst)
  disjoint : (survey.objects.map Prod.fst).Disjoint survey.unrecognized
  every : (survey.objects.map Prod.fst ++ survey.unrecognized).Perm (files.map Prod.fst)
  mem_objects : ∀ path object, (path, object) ∈ survey.objects ↔
    ∃ bytes sql, (path, bytes) ∈ files ∧ Text.decode? bytes = some sql ∧
      readObject? index defaultSchema sql = some object
  mem_unrecognized : ∀ path, path ∈ survey.unrecognized ↔
    ∃ bytes sql, (path, bytes) ∈ files ∧ Text.decode? bytes = some sql ∧
      readObject? index defaultSchema sql = none

section Survey

variable {index : Index} {defaultSchema : Option String} {files : List (String × ByteArray)}

theorem surveyInParts_eq {parts : List (List (String × ByteArray))} (h : parts.flatten = files) :
    surveyInParts index defaultSchema parts files = surveyFiles index defaultSchema files := by
  rw [surveyInParts, surveyFiles, mapInParts_eq h, List.mapM_map]
  rfl

/-- What a file says about an object by itself. -/
def surveyed (index : Index) (defaultSchema : Option String) (file : String × ByteArray) :
    SurveyedFile :=
  (file.1, (Text.decode? file.2).bind (readObject? index defaultSchema))

theorem surveyFile_of_isSome {file : String × ByteArray}
    (h : (Text.decode? file.2).isSome = true) :
    surveyFile index defaultSchema file = .ok (surveyed index defaultSchema file) := by
  obtain ⟨sql, hsql⟩ := Option.isSome_iff_exists.mp h
  simp [surveyFile, loadDefinition, surveyed, FileTree.bytes?, hsql, Except.map]

theorem surveyFile_of_eq_none {file : String × ByteArray} (h : Text.decode? file.2 = none) :
    surveyFile index defaultSchema file = .error (.definitionUnreadable file.1) := by
  simp [surveyFile, loadDefinition, FileTree.bytes?, h, Except.map]

theorem mapM_surveyFile (h : ∀ file ∈ files, (Text.decode? file.2).isSome = true) :
    files.mapM (surveyFile index defaultSchema) =
      .ok (files.map (surveyed index defaultSchema)) := by
  induction files with
  | nil => rfl
  | cons file files ih =>
    rw [List.mapM_cons, surveyFile_of_isSome (h file (by simp)),
      ih fun f hf => h f (List.mem_cons_of_mem file hf)]
    rfl

theorem surveyFiles_of_eq_none {front back : List (String × ByteArray)} {file : String × ByteArray}
    (hfront : ∀ f ∈ front, (Text.decode? f.2).isSome = true) (h : Text.decode? file.2 = none) :
    surveyFiles index defaultSchema (front ++ file :: back) =
      .error (.definitionUnreadable file.1) := by
  rw [surveyFiles, List.mapM_append, mapM_surveyFile hfront, List.mapM_cons,
    surveyFile_of_eq_none h]
  rfl

theorem map_fst_objects (surveyedFiles : List SurveyedFile) :
    (Survey.ofFiles surveyedFiles).objects.map Prod.fst =
      (surveyedFiles.filter fun file => file.2.isSome).map Prod.fst := by
  rw [Survey.ofFiles]
  induction surveyedFiles with
  | nil => rfl
  | cons file surveyedFiles ih =>
    obtain ⟨path, _ | object⟩ := file
    · simpa using ih
    · simpa using ih

theorem mem_objects_ofFiles {surveyedFiles : List SurveyedFile} {path : String}
    {object : ObjectSummary} :
    (path, object) ∈ (Survey.ofFiles surveyedFiles).objects ↔
      (path, some object) ∈ surveyedFiles := by
  simp [Survey.ofFiles]

theorem mem_unrecognized_ofFiles {surveyedFiles : List SurveyedFile} {path : String} :
    path ∈ (Survey.ofFiles surveyedFiles).unrecognized ↔ (path, none) ∈ surveyedFiles := by
  simp [Survey.ofFiles]

theorem mem_map_surveyed (h : ∀ file ∈ files, (Text.decode? file.2).isSome = true) {path : String}
    {object : Option ObjectSummary} :
    (path, object) ∈ files.map (surveyed index defaultSchema) ↔
      ∃ bytes sql, (path, bytes) ∈ files ∧ Text.decode? bytes = some sql ∧
        readObject? index defaultSchema sql = object := by
  constructor
  · intro hpath
    obtain ⟨file, hfile, heq⟩ := List.mem_map.mp hpath
    obtain ⟨sql, hsql⟩ := Option.isSome_iff_exists.mp (h file hfile)
    obtain ⟨rfl, rfl⟩ := Prod.mk.inj heq
    exact ⟨file.2, sql, hfile, hsql, by rw [hsql, Option.bind_some]⟩
  · rintro ⟨bytes, sql, hfile, hsql, rfl⟩
    refine List.mem_map.mpr ⟨(path, bytes), hfile, ?_⟩
    rw [surveyed, hsql, Option.bind_some]

theorem isPartition_ofFiles (hpaths : (files.map Prod.fst).Nodup)
    (h : ∀ file ∈ files, (Text.decode? file.2).isSome = true) :
    (Survey.ofFiles (files.map (surveyed index defaultSchema))).IsPartition index defaultSchema
      files := by
  have hfst : (files.map (surveyed index defaultSchema)).map Prod.fst = files.map Prod.fst := by
    rw [List.map_map]
    rfl
  have hevery : ((Survey.ofFiles (files.map (surveyed index defaultSchema))).objects.map Prod.fst ++
      (Survey.ofFiles (files.map (surveyed index defaultSchema))).unrecognized).Perm
      (files.map Prod.fst) := by
    rw [map_fst_objects, ← hfst, Survey.ofFiles, ← List.map_append]
    simp only [← Option.not_isSome]
    exact (List.filter_append_perm _ _).map Prod.fst
  refine ⟨?_, ?_, ?_, hevery, fun path object => ?_, fun path => ?_⟩
  · rw [map_fst_objects, ← hfst]
    exact List.filter_sublist.map Prod.fst
  · rw [← hfst]
    exact List.filter_sublist.map Prod.fst
  · exact List.disjoint_of_nodup_append (hevery.nodup_iff.mpr hpaths)
  · rw [mem_objects_ofFiles, mem_map_surveyed h]
  · rw [mem_unrecognized_ofFiles, mem_map_surveyed h]

end Survey

/-- The files below a path are the same however folders list their entries. Shared out in any way,
they are parted into those that define an object and the others, if all of them can be decoded;
otherwise the first one that cannot be is reported. -/
theorem surveyDirectory_of_tree {tree : FileTree} (hproper : tree.IsProper) (index : Index)
    (defaultSchema : Option String) (path : String) :
    ∃ files, discover path (some tree) = .ok files ∧ IsListing path tree files ∧
      (∀ other, tree.Relisted other → discover path (some other) = .ok files) ∧
      (∀ parts, parts.flatten = files →
        surveyInParts index defaultSchema parts files =
          surveyDirectory index defaultSchema path (some tree)) ∧
      ((∀ file ∈ files, (Text.decode? file.2).isSome = true) →
        ∃ survey, surveyDirectory index defaultSchema path (some tree) = .ok survey ∧
          survey.IsPartition index defaultSchema files) ∧
      ∀ front file back, files = front ++ file :: back →
        (∀ f ∈ front, (Text.decode? f.2).isSome = true) → Text.decode? file.2 = none →
          surveyDirectory index defaultSchema path (some tree) =
            .error (.definitionUnreadable file.1) := by
  let files := (sqlFiles path tree).map fun f => (joinPath path f.names, f.bytes)
  have hdirectory : surveyDirectory index defaultSchema path (some tree) =
      surveyFiles index defaultSchema files := rfl
  have hlisting : IsListing path tree files := isListing_sqlFiles hproper path
  refine ⟨files, rfl, hlisting, fun other hother => ?_, fun parts hparts => ?_,
    fun hdecode => ?_, fun front file back hfiles hfront hnone => ?_⟩
  · rw [discover, ← sqlFiles_relisted hproper hother path]
  · rw [hdirectory, surveyInParts_eq hparts]
  · refine ⟨Survey.ofFiles (files.map (surveyed index defaultSchema)), ?_,
      isPartition_ofFiles hlisting.nodup hdecode⟩
    rw [hdirectory, surveyFiles, mapM_surveyFile hdecode]
    rfl
  · rw [hdirectory, hfiles, surveyFiles_of_eq_none hfront hnone]

/-- The folder `BIN` is passed over, and `Views` comes first wherever it is listed. -/
theorem surveyDirectory_of_tree_views :
    let view := "create view v as select 1 as x".toUTF8
    let query := "select x from v".toUTF8
    let build : FileTree := .folder [("c.sql", .file view)]
    let views : FileTree := .folder [("b.SQL", .file view), ("b.txt", .file view)]
    let tree : FileTree := .folder [("BIN", build), ("Views", views), ("a.sql", .file query)]
    let other : FileTree := .folder [("a.sql", .file query), ("Views", views), ("BIN", build)]
    tree.IsProper ∧
      discover "db" (some other) = .ok [("db/Views/b.SQL", view), ("db/a.sql", query)] ∧
      ∃ survey, surveyDirectory Catalog.empty.index none "db" (some tree) = .ok survey ∧
        (∃ object, ("db/Views/b.SQL", object) ∈ survey.objects) ∧
        "db/a.sql" ∈ survey.unrecognized := by
  intro view query build views tree other
  have hbuild : build.IsProper :=
    .folder (by decide) (by decide) (by simp [FileTree.IsProper.file])
  have hviews : views.IsProper :=
    .folder (by decide) (by decide) (by simp [FileTree.IsProper.file])
  have hproper : tree.IsProper :=
    .folder (by decide) (by decide) (by simp [FileTree.IsProper.file, hbuild, hviews])
  have hfiles : sqlFiles "db" tree = [⟨["Views", "b.SQL"], view⟩, ⟨["a.sql"], query⟩] := by
    rw [sqlFiles, if_neg (by decide)]
    exact List.mergeSort_of_pairwise (by decide)
  obtain ⟨files, hdiscover, -, hrelisted, -, hsurvey, -⟩ :=
    surveyDirectory_of_tree hproper Catalog.empty.index none "db"
  obtain rfl : [("db/Views/b.SQL", view), ("db/a.sql", query)] = files := by
    rw [discover, hfiles] at hdiscover
    exact Except.ok.inj hdiscover
  obtain ⟨survey, hsurvey, hpartition⟩ := hsurvey (by decide +kernel)
  refine ⟨hproper, hrelisted other (.perm (List.reverse_perm _).symm), survey, hsurvey, ?_, ?_⟩
  · have hobject : (readObject? Catalog.empty.index none "create view v as select 1 as x").isSome =
        true := by decide +kernel
    obtain ⟨object, hobject⟩ := Option.isSome_iff_exists.mp hobject
    refine ⟨object, (hpartition.mem_objects _ object).mpr ?_⟩
    exact ⟨view, "create view v as select 1 as x", by simp, by decide +kernel, hobject⟩
  · rw [hpartition.mem_unrecognized]
    exact ⟨query, "select x from v", by simp, by decide +kernel, by decide +kernel⟩

/-- A byte order mark in front of what is no UTF-8 ends the scan. -/
theorem surveyDirectory_of_broken_mark :
    let bytes : ByteArray := ⟨#[0xEF, 0xBB, 0xBF, 0xFF]⟩
    let tree : FileTree := .folder [("a.sql", .file bytes)]
    tree.IsProper ∧ discover "d" (some tree) = .ok [("d/a.sql", bytes)] ∧
      surveyDirectory Catalog.empty.index none "d" (some tree) =
        .error (.definitionUnreadable "d/a.sql") := by
  intro bytes tree
  have hproper : tree.IsProper :=
    .folder (by decide) (by decide) (by simp [FileTree.IsProper.file])
  have hfiles : sqlFiles "d" tree = [⟨["a.sql"], bytes⟩] := by
    rw [sqlFiles, if_neg (by decide)]
    exact List.mergeSort_singleton _
  have hdiscover : discover "d" (some tree) = .ok [("d/a.sql", bytes)] := by
    rw [discover, hfiles]
    rfl
  have hfront : ∀ f ∈ ([] : List (String × ByteArray)), (Text.decode? f.2).isSome = true := by
    simp
  refine ⟨hproper, hdiscover, ?_⟩
  rw [surveyDirectory, hdiscover]
  exact surveyFiles_of_eq_none hfront (by decide +kernel)

end Provenance
