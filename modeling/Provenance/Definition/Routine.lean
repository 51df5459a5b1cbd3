import Provenance.Query.Usage
import Provenance.Token.Render

/-!
# Definitions of routines

Procedures, functions and triggers are read for three things, each on its own: the parameters,
the type that a function returns, and the tables that the body reads and writes.
-/

namespace Provenance

/-! ## Parameters -/

structure Signature where
  parameters : List Parameter
  /-- Whether there is a list of parameters at all. -/
  hasSignature : Bool
  deriving DecidableEq, Repr

/-- The tokens after the keyword of a routine. The search ends where a body begins. -/
def afterRoutineKeyword? : List Token → Option (List Token)
  | [] => none
  | t :: rest =>
    if t.is .FUNCTION || t.is .PROCEDURE || t.spells "PROC" then some rest
    else if t.is .AS || t.is .BEGIN || t.is .SELECT then none
    else afterRoutineKeyword? rest

/-- Whether a token outside parentheses ends a list of parameters. -/
def endsParameters (t : Token) : Bool :=
  [.AS, .BEGIN, .RETURNS, .WITH, .FOR].any t.is

/-- The tokens of a list of parameters, which stands in parentheses or reaches up to the body. -/
def parameterList (ts : List Token) : List Token :=
  match group? ts with
  | some (inner, _) => inner
  | none => (breakOutside endsParameters ts).1

/-- The tokens that may hold the parameters of a routine: those after its name, or all of them
if there is no header. -/
def parameterTokens (ts : List Token) : List Token :=
  match afterRoutineKeyword? ts with
  | none => parameterList ts
  | some rest =>
    match qualifiedName? rest with
    | some (_, rest) => parameterList rest
    | none => []

def isOutputMark (t : Token) : Bool := t.spells "OUTPUT" || t.spells "OUT"

/-- The tokens of a type, of which those given are the declaration up to the default value. -/
def typeTokens (ts : List Token) : List Token :=
  skipKeyword .AS (ts.filter fun t => !isOutputMark t && !t.spells "READONLY")

/-- The parameter that a declaration `@name [AS] type [READONLY] [= default] [OUTPUT]` makes. -/
def parameter? (declaration : List Token) : Option Parameter :=
  match declaration.dropWhile fun t => !t.isVariable with
  | [] => none
  | name :: rest =>
    some {
      name := name.text
      dataType := render (typeTokens (breakOutside (Token.isMark '=') rest).1)
      isOutput := rest.any isOutputMark }

def Signature.ofTokens (ts : List Token) : Signature :=
  let list := parameterTokens ts
  if list.any Token.isVariable then ⟨(splitCommas list).filterMap parameter?, true⟩
  else ⟨[], false⟩

/-- The signature that the definition of a routine has. -/
def Signature.parse (sql : String) : Signature := Signature.ofTokens (sqlTokens sql)

/-! ## Return types -/

def endsReturnType (t : Token) : Bool :=
  t.is .AS || t.is .BEGIN || t.isMark ';'

def returnType? (sql : String) : Option String :=
  match (sqlTokens sql).dropWhile fun t => !t.is .RETURNS with
  | [] => none
  | _ :: rest =>
    let type := render
      ((breakOutside (Token.is .WITH) rest).1.takeWhile fun t => !endsReturnType t)
    if type.isEmpty then none else some type

/-! ## Tables -/

/-- Whether an id is that of a temporary table, a table variable or one of the tables that only
triggers see. -/
def isTransient (id : String) : Bool :=
  let short := Identifier.lastPart id
  short.toList.head?.any (fun c => c == '@' || c == '#') ||
    Text.equalIgnoringCase short "inserted" || Text.equalIgnoringCase short "deleted"

structure RoutineUsage where
  referencedTables : List String
  affectedTables : List String
  deriving DecidableEq, Repr

/-- The tables that the definition of a routine reads and writes, without transient ones. -/
def routineUsage (index : Index) (defaultSchema : Option String) (sql : String) :
    RoutineUsage :=
  let usage := Usage.ofTokens index defaultSchema (sqlTokens sql)
  ⟨usage.reads.filter fun id => !isTransient id,
    usage.writes.filter fun id => !isTransient id⟩

end Provenance
