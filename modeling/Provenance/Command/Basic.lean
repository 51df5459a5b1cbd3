import Provenance.Command.Options

/-!
# Commands

A command reads a catalog, a definition or a directory of definitions, and is given by its name
and its options. The program is asked for its version by an option before any command.
-/

namespace Provenance

inductive Command where
  | analyze (catalog : String) (output : Option String) (defaultSchema : Option String)
      (verbose : Bool)
  | view (definition : String) (catalog : Option String) (defaultSchema : Option String)
  | routine (definition : String) (catalog : Option String) (defaultSchema : Option String)
  | scan (directory : String) (catalog : Option String) (defaultSchema : Option String)
      (verbose : Bool)
  | generate (catalog : String) (object : String)
  | version
  deriving DecidableEq, Repr

namespace Command

private def schema : Opt := .path "schema" (some 's')

private def defaultSchema : Opt := .text "default-schema" (some 'd')

private def verbose : Opt := .flag "verbose" (some 'v')

private def file : Opt := .path "file" (some 'f')

/-- Whether an argument asks for the version. What stands behind the letter is not read. -/
def asksVersion (arg : String) : Bool :=
  arg == "--version" || arg.toList.take 2 == ['-', 'V']

/-- The command that arguments give, if they are well formed. Nothing after a question for the
version is read. -/
def parse? : List String → Option Command
  | "analyze" :: args => do
    let given ← readSettings [schema, .path "output" (some 'o'), defaultSchema, verbose] args
    return .analyze (← valueOf? "schema" given) (valueOf? "output" given)
      (valueOf? "default-schema" given) (isGiven "verbose" given)
  | "view" :: args => do
    let given ← readSettings [file, schema, defaultSchema] args
    return .view (← valueOf? "file" given) (valueOf? "schema" given)
      (valueOf? "default-schema" given)
  | "routine" :: args => do
    let given ← readSettings [file, schema, defaultSchema] args
    return .routine (← valueOf? "file" given) (valueOf? "schema" given)
      (valueOf? "default-schema" given)
  | "scan" :: args => do
    let given ← readSettings [.path "dir" none, schema, defaultSchema, verbose] args
    return .scan (← valueOf? "dir" given) (valueOf? "schema" given)
      (valueOf? "default-schema" given) (isGiven "verbose" given)
  | "generate" :: args => do
    let given ← readSettings [schema, .text "object" none] args
    return .generate (← valueOf? "schema" given) (← valueOf? "object" given)
  | arg :: _ => if asksVersion arg then some .version else none
  | [] => none

/-- The paths that a command reads. -/
def paths : Command → List String
  | analyze catalog _ _ _ => [catalog]
  | view definition catalog _ => definition :: catalog.toList
  | routine definition catalog _ => definition :: catalog.toList
  | scan directory catalog _ _ => directory :: catalog.toList
  | generate catalog _ => [catalog]
  | version => []

end Command

end Provenance
