import Provenance.Identifier
import Provenance.Token.Reader

/-!
# Mentions of tables

A statement mentions tables after the keywords that read or write them, and names common table
expressions after `WITH`. Mentions are collected in the order of the text, with the depth of
parentheses at which each stands; subqueries and the bodies of common table expressions are
searched like the rest.
-/

namespace Provenance

inductive Access where
  | read
  | write
  deriving DecidableEq, Repr

/-- A table as a statement uses it. -/
structure TableUse where
  /-- The parts of its name as they are written. -/
  parts : List String
  aliasName : Option String
  access : Access
  /-- How many parentheses are open around it. -/
  depth : Nat
  deriving DecidableEq, Repr

/-- The last part of the name, bare. -/
def TableUse.lastPart (u : TableUse) : String := (u.parts.getLast?.map Identifier.bare).getD ""

def TableUse.isSimple (u : TableUse) : Bool := u.parts.length == 1

/-- Something that a statement says about tables. -/
inductive Mention where
  | table (use : TableUse)
  /-- A common table expression, by its bare name. -/
  | commonTable (name : String)
  deriving DecidableEq, Repr

/-- The alias at the front of a list, with or without `AS`, and the tokens after it. -/
def aliasName? : List Token → Option (String × List Token)
  | [] => none
  | t :: rest =>
    if t.is .AS then
      match rest with
      | name :: rest => if name.isPlainName then some (Identifier.bare name.text, rest) else none
      | [] => none
    else if t.isPlainName then some (Identifier.bare t.text, rest)
    else none

/-- The table at the front of a list, with its arguments or column list and its alias, and the
tokens after it. -/
def tableUse? (access : Access) (depth : Nat) (ts : List Token) :
    Option (TableUse × List Token) :=
  (qualifiedName? ts).map fun (parts, rest) =>
    match aliasName? (skipGroup rest) with
    | some (name, rest) => (⟨parts, some name, access, depth⟩, rest)
    | none => (⟨parts, none, access, depth⟩, skipGroup rest)

theorem aliasName?_length {ts rest : List Token} {name : String}
    (h : aliasName? ts = some (name, rest)) : rest.length < ts.length := by
  cases ts with
  | nil => simp [aliasName?] at h
  | cons t tail =>
    simp only [aliasName?] at h
    split at h
    · cases tail with
      | nil => simp at h
      | cons u tail =>
        simp only [Option.ite_none_right_eq_some, Option.some.injEq, Prod.mk.injEq] at h
        simp only [← h.2.2, List.length_cons]
        omega
    · simp only [Option.ite_none_right_eq_some, Option.some.injEq, Prod.mk.injEq] at h
      simp [← h.2.2]

theorem tableUse?_length {access : Access} {depth : Nat} {ts rest : List Token} {use : TableUse}
    (h : tableUse? access depth ts = some (use, rest)) : rest.length < ts.length := by
  unfold tableUse? at h
  obtain ⟨⟨parts, named⟩, hname, heq⟩ := Option.map_eq_some_iff.1 h
  have shorter := qualifiedName?_length hname
  have grouped := skipGroup_length named
  simp only at heq
  split at heq
  · rename_i name after halias
    have aliased := aliasName?_length halias
    simp only [Prod.mk.injEq] at heq
    rw [← heq.2]
    omega
  · simp only [Prod.mk.injEq] at heq
    rw [← heq.2]
    omega

def oneTable (access : Access) (depth : Nat) (ts : List Token) : List Mention × List Token :=
  match tableUse? access depth ts with
  | some (use, rest) => ([.table use], rest)
  | none => ([], ts)

/-- The tables at the front of a list, separated by commas. -/
def tableList (access : Access) (depth : Nat) (ts : List Token) : List Mention × List Token :=
  match _h : tableUse? access depth ts with
  | none => ([], ts)
  | some (use, rest) =>
    match _hcomma : afterMark? ',' rest with
    | none => ([.table use], rest)
    | some rest =>
      let tail := tableList access depth rest
      (.table use :: tail.1, tail.2)
termination_by ts.length
decreasing_by exact Nat.lt_trans (afterMark?_length _hcomma) (tableUse?_length _h)

/-- The common table expressions declared after `WITH`: each is `name [(columns)] AS (body)`,
and commas join them. -/
def commonTables (ts : List Token) : List Mention :=
  match _h : identifier? ts with
  | none => []
  | some (name, rest) =>
    match _has : afterKeyword? .AS (skipGroup rest) with
    | none => []
    | some body =>
      match group? body with
      | none => []
      | some _ =>
        .commonTable (Identifier.bare name) ::
          match _hcomma : afterMark? ',' (skipGroup body) with
          | none => []
          | some next => commonTables next
termination_by ts.length
decreasing_by
  have := identifier?_length _h
  have := skipGroup_length rest
  have := afterKeyword?_length _has
  have := skipGroup_length body
  have := afterMark?_length _hcomma
  omega

/-- What a token says about the tables after it, and the tokens left to search. -/
def mentionsAt (depth : Nat) (t : Token) (rest : List Token) : List Mention × List Token :=
  match t.keyword? with
  | some .FROM => tableList .read depth rest
  | some .JOIN | some .APPLY | some .USING => oneTable .read depth rest
  | some .INSERT | some .MERGE => oneTable .write depth (skipKeyword .INTO (skipTop rest))
  | some .UPDATE => oneTable .write depth (skipTop rest)
  | some .DELETE => oneTable .write depth (skipKeyword .FROM (skipTop rest))
  | some .INTO => oneTable .write depth rest
  | some .WITH => (commonTables rest, rest)
  | _ => ([], rest)

/-- The depth after a token. A parenthesis that closes nothing leaves it at zero. -/
def depthAfter (depth : Nat) (t : Token) : Nat :=
  if t.isMark '(' then depth + 1 else if t.isMark ')' then depth - 1 else depth

theorem oneTable_length (access : Access) (depth : Nat) (ts : List Token) :
    (oneTable access depth ts).2.length ≤ ts.length := by
  unfold oneTable
  split
  · exact Nat.le_of_lt (tableUse?_length (by assumption))
  · exact Nat.le_refl _

theorem tableList_length (access : Access) (depth : Nat) (ts : List Token) :
    (tableList access depth ts).2.length ≤ ts.length := by
  fun_induction tableList access depth ts with
  | case1 => exact Nat.le_refl _
  | case2 ts use rest h hcomma => exact Nat.le_of_lt (tableUse?_length h)
  | case3 ts use rest h rest' hcomma tail ih =>
    have := tableUse?_length h
    have := afterMark?_length hcomma
    simp only [tail]
    omega

theorem mentionsAt_length (depth : Nat) (t : Token) (rest : List Token) :
    (mentionsAt depth t rest).2.length ≤ rest.length := by
  have top := skipTop_length rest
  have into := skipKeyword_length .INTO (skipTop rest)
  have source := skipKeyword_length .FROM (skipTop rest)
  unfold mentionsAt
  split
  · exact tableList_length ..
  · exact oneTable_length ..
  · exact oneTable_length ..
  · exact oneTable_length ..
  · exact Nat.le_trans (oneTable_length ..) (Nat.le_trans into top)
  · exact Nat.le_trans (oneTable_length ..) (Nat.le_trans into top)
  · exact Nat.le_trans (oneTable_length ..) top
  · exact Nat.le_trans (oneTable_length ..) (Nat.le_trans source top)
  · exact oneTable_length ..
  · exact Nat.le_refl _
  · exact Nat.le_refl _

/-- The mentions in tokens that stand at a depth. -/
def mentions (depth : Nat) : List Token → List Mention
  | [] => []
  | t :: rest =>
    (mentionsAt depth t rest).1 ++ mentions (depthAfter depth t) (mentionsAt depth t rest).2
termination_by ts => ts.length
decreasing_by exact Nat.lt_succ_of_le (mentionsAt_length depth t rest)

def tableUses (ms : List Mention) : List TableUse :=
  ms.filterMap fun
    | .table use => some use
    | .commonTable _ => none

def commonNames (ms : List Mention) : List String :=
  ms.filterMap fun
    | .table _ => none
    | .commonTable name => some name

end Provenance
