import Provenance.Identifier
import Provenance.Token.Reader

/-!
# Headers of definitions

A definition begins with `CREATE`, `ALTER` or `CREATE OR ALTER`, the kind of object and its
name. Other statements may stand before it.
-/

namespace Provenance

inductive ObjectKind where
  | view
  | procedure
  | function
  | trigger
  deriving DecidableEq, Repr

namespace ObjectKind

def label : ObjectKind → String
  | view => "view"
  | procedure => "procedure"
  | function => "function"
  | trigger => "trigger"

/-- The kind that a token stands for in a header. -/
def ofToken? (t : Token) : Option ObjectKind :=
  if t.is .VIEW then some view
  else if t.is .PROCEDURE || t.spells "PROC" then some procedure
  else if t.is .FUNCTION then some function
  else if t.is .TRIGGER then some trigger
  else none

end ObjectKind

/-- The tokens after the verb of a header, if they begin with one. -/
def afterVerb? : List Token → Option (List Token)
  | [] => none
  | t :: rest =>
    if t.is .CREATE then
      match afterKeyword? .OR rest with
      | some alternative => some (skipKeyword .ALTER alternative)
      | none => some rest
    else if t.is .ALTER then some rest
    else none

theorem afterVerb?_length {ts rest : List Token} (h : afterVerb? ts = some rest) :
    rest.length < ts.length := by
  cases ts with
  | nil => simp [afterVerb?] at h
  | cons t tail =>
    simp only [afterVerb?] at h
    split at h
    · split at h
      · rename_i alternative hor
        have shorter := afterKeyword?_length hor
        have skipped := skipKeyword_length .ALTER alternative
        simp only [Option.some.injEq] at h
        simp only [← h, List.length_cons]
        omega
      · simp only [Option.some.injEq] at h
        simp [h]
    · simp only [Option.ite_none_right_eq_some, Option.some.injEq] at h
      simp [h.2]

/-- The first header with a verb before a token that `kind?` accepts, and the tokens after that
token. The search ends at a token that satisfies `stop`. -/
def findHeader? {α : Type} (stop : Token → Bool) (kind? : Token → Option α) (ts : List Token) :
    Option (α × List Token) :=
  match ts with
  | [] => none
  | t :: rest =>
    if stop t then none
    else
      match _h : afterVerb? (t :: rest) with
      | none => findHeader? stop kind? rest
      | some [] => none
      | some (u :: after) =>
        match kind? u with
        | some kind => some (kind, after)
        | none => findHeader? stop kind? (u :: after)
termination_by ts.length
decreasing_by
  · exact Nat.lt_succ_self _
  · exact afterVerb?_length _h

/-- The kind and name of the object that a text defines. -/
structure Header where
  kind : ObjectKind
  /-- The last two parts of the name, or nothing if there is no name. -/
  name : String
  deriving DecidableEq, Repr

def Header.ofTokens? (ts : List Token) : Option Header :=
  (findHeader? (fun _ => false) ObjectKind.ofToken? ts).map fun (kind, rest) =>
    ⟨kind, ((qualifiedName? rest).map fun (parts, _) =>
      Identifier.joinId (Identifier.lastTwo (parts.map Identifier.bare))).getD ""⟩

def Header.parse? (sql : String) : Option Header := Header.ofTokens? (sqlTokens sql)

end Provenance
