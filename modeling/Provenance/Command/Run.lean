import Provenance.Catalog.Analysis
import Provenance.Command.Basic
import Provenance.Writing.Definition
import Provenance.Report
import Provenance.Text.Line

/-!
# Running commands

A command is run against what stands at the paths it reads. It prints a result, or it has a
file to save, or it fails; lines that were printed before a failure stay.
-/

namespace Provenance

structure Save where
  path : String
  content : String
  /-- What is printed once the file is saved. -/
  notice : String

/-- What a command does. -/
structure Outcome where
  printed : String
  /-- Why it fails, or what it saves after printing. -/
  result : Except Failure (Option Save)

namespace Outcome

def printing (text : String) : Outcome := ⟨text, .ok none⟩

def failing (printed : String) (failure : Failure) : Outcome := ⟨printed, .error failure⟩

/-- The outcome of a command that goes on with a value unless that is a failure. -/
def bind {α : Type} (value : Except Failure α) (next : α → Outcome) : Outcome :=
  match value with
  | .ok a => next a
  | .error failure => failing "" failure

end Outcome

def line (s : String) : String := s ++ "\n"

/-- Lines that are printed only on request. -/
def remark (verbose : Bool) (s : String) : String := if verbose then line s else ""

def versionText : String := "tsql-lineage 0.1.0"

/-- The catalog at a path, or an empty one without a path. -/
def loadOptionalCatalog (disk : String → Option FileTree) (path : Option String) :
    Except Failure Catalog :=
  match path with
  | some path => loadCatalog path (disk path)
  | none => .ok .empty

/-- What is said about the size of a catalog before it is analysed. -/
def Catalog.sizeRemark (g : Catalog) : String :=
  "Analyzing " ++ g.views.length.repr ++ " views, " ++ g.procedures.length.repr ++
    " procedures, " ++ g.functions.length.repr ++ " functions, " ++ g.triggers.length.repr ++
    " triggers"

def runAnalyze (g : Catalog) (output : Option String) (defaultSchema : Option String)
    (verbose : Bool) : Outcome :=
  let analyzed := g.analyze defaultSchema
  let remarks := remark verbose g.sizeRemark ++
    remark verbose ("Indexed columns of " ++ g.index.size.repr ++ " tables and views") ++
    remark verbose ("Resolved lineage for " ++ analyzed.attributedColumns.repr ++ " view columns")
  match output with
  | none => .printing (remarks ++ line analyzed.print)
  | some path =>
    ⟨remarks, .ok (some ⟨path, analyzed.print, remark verbose ("Wrote enriched schema: " ++ path)⟩)⟩

/-- Prints what the SQL files at a path define. -/
def runScan (g : Catalog) (path : String) (tree : Option FileTree)
    (defaultSchema : Option String) (verbose : Bool) : Outcome :=
  Outcome.bind (discover path tree) fun files =>
    let remarks :=
      remark verbose ("Found " ++ files.length.repr ++ " SQL files in " ++ path) ++
      remark (verbose && g.index.isEmpty)
        "No tables or views in schema; table names are kept as written"
    match surveyFiles g.index defaultSchema files with
    | .error failure => .failing remarks failure
    | .ok report =>
      .printing (remarks ++
        remark verbose ("Analyzed " ++ report.objects.length.repr ++ " objects (" ++
          report.unrecognized.length.repr ++ " files unrecognized)") ++
        line report.toJson.pretty)

def Command.run (disk : String → Option FileTree) : Command → Outcome
  | analyze catalog output defaultSchema verbose =>
    Outcome.bind (loadCatalog catalog (disk catalog)) fun g =>
      runAnalyze g output defaultSchema verbose
  | view definition catalog defaultSchema =>
    Outcome.bind (loadDefinition definition (disk definition)) fun sql =>
      Outcome.bind (loadOptionalCatalog disk catalog) fun g =>
        .printing (line (readView g.index defaultSchema none sql).toJson.pretty)
  | routine definition catalog defaultSchema =>
    Outcome.bind (loadDefinition definition (disk definition)) fun sql =>
      Outcome.bind (loadOptionalCatalog disk catalog) fun g =>
        .printing (line (RoutineSummary.ofDefinition g.index defaultSchema sql).toJson.pretty)
  | scan directory catalog defaultSchema verbose =>
    Outcome.bind (loadOptionalCatalog disk catalog) fun g =>
      runScan g directory (disk directory) defaultSchema verbose
  | generate catalog object =>
    Outcome.bind (loadCatalog catalog (disk catalog)) fun g =>
      match g.writeDefinition? object with
      | some definition => .printing (line definition)
      | none => .failing "" (.objectUnknown object)
  | version => .printing (line versionText)

/-- What a run of the command line leaves behind. -/
structure Session where
  code : Nat
  printed : String
  /-- The first line of what was reported of a failure. -/
  reported : Option String
  /-- The files, with the one that was saved. -/
  files : FileTree

/-- What is reported of a failure on a command line. The message can have line breaks of its
own. -/
def Failure.report (failure : Failure) : String := line ("Error: " ++ failure.message)

/-- A session that a failure ends. -/
def Session.failing (printed : String) (failure : Failure) (files : FileTree) : Session :=
  ⟨1, printed, some (Text.firstLine failure.report), files⟩

/-- Runs the command that arguments give in the folder at the root of a tree. Arguments that
give none end with exit code 2, and a failure with 1. -/
def runArguments (args : List String) (files : FileTree) : Session :=
  match Command.parse? args with
  | none => ⟨2, "", none, files⟩
  | some command =>
    let outcome := command.run files.at?
    match outcome.result with
    | .error failure => .failing outcome.printed failure files
    | .ok none => ⟨0, outcome.printed, none, files⟩
    | .ok (some save) =>
      match files.write? save.path save.content.toUTF8 with
      | some files => ⟨0, outcome.printed ++ save.notice, none, files⟩
      | none => .failing outcome.printed (.outputUnwritable save.path) files

end Provenance
