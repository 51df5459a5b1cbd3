import Provenance.Definition.Object
import Provenance.Files.Discovery
import Provenance.Files.Load
import Provenance.Parts

/-!
# Scanning a directory

Every SQL file of a directory is decoded and its definition read. The files without a header of
a view or routine are listed by themselves. Many files may be shared out to be read side by side.
-/

namespace Provenance

structure Survey where
  objects : List (String × ObjectSummary)
  unrecognized : List String

/-- A file and what it says about an object, if it defines one. -/
abbrev SurveyedFile := String × Option ObjectSummary

/-- Decodes a file and reads its definition. -/
def surveyFile (index : Index) (defaultSchema : Option String) (file : String × ByteArray) :
    Except Failure SurveyedFile :=
  (loadDefinition file.1 (some (.file file.2))).map fun sql =>
    (file.1, readObject? index defaultSchema sql)

/-- Parts files by whether they define an object. -/
def Survey.ofFiles (files : List SurveyedFile) : Survey where
  objects := files.filterMap fun (path, analysis) => analysis.map (path, ·)
  unrecognized := (files.filter fun file => file.2.isNone).map Prod.fst

/-- Reads the definitions in SQL files. The first file that cannot be decoded ends the scan. -/
def surveyFiles (index : Index) (defaultSchema : Option String)
    (files : List (String × ByteArray)) : Except Failure Survey :=
  (files.mapM (surveyFile index defaultSchema)).map Survey.ofFiles

/-- Reads the definitions in SQL files that are shared out in parts. Of the files that cannot be
decoded the first one is reported, whichever is read first. -/
def surveyInParts (index : Index) (defaultSchema : Option String)
    (parts : List (List (String × ByteArray))) (files : List (String × ByteArray)) :
    Except Failure Survey :=
  ((mapInParts (surveyFile index defaultSchema) parts files).mapM id).map Survey.ofFiles

/-- Reads the definitions in the SQL files at or below a path, given what stands there. -/
def surveyDirectory (index : Index) (defaultSchema : Option String) (path : String)
    (tree : Option FileTree) : Except Failure Survey := do
  surveyFiles index defaultSchema (← discover path tree)

end Provenance
