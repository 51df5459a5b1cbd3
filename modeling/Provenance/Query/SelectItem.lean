import Provenance.Identifier

/-!
# Items of a select list

An item is an expression with or without an alias, written `expr AS alias`, `alias = expr` or
`expr alias`. Words that are not reserved can still belong to a phrase such as `AT TIME ZONE`;
such a word is no alias.
-/

namespace Provenance

/-! ## Phrases -/

def beginsWithWords : List String → List Token → Bool
  | [], _ => true
  | _ :: _, [] => false
  | w :: words, t :: ts => t.spells w && beginsWithWords words ts

/-- Whether a token belongs to a phrase of words that are not reserved: `AT TIME ZONE`, a
collation after `COLLATE`, `CURRENT ROW` or `NEXT VALUE FOR` and the sequence it names. The
tokens before it are given latest first. -/
def isPhraseWord (before : List Token) (t : Token) (after : List Token) : Bool :=
  beginsWithWords ["AT", "TIME", "ZONE"] (t :: after) ||
  beginsWithWords ["AT"] before && beginsWithWords ["TIME", "ZONE"] (t :: after) ||
  beginsWithWords ["TIME", "AT"] before && t.spells "ZONE" ||
  beginsWithWords ["COLLATE"] before ||
  beginsWithWords ["CURRENT"] before && t.spells "ROW" ||
  beginsWithWords ["NEXT", "VALUE", "FOR"] (t :: after) ||
  beginsWithWords ["NEXT"] before && beginsWithWords ["VALUE", "FOR"] (t :: after) ||
  beginsWithWords ["FOR", "VALUE", "NEXT"] before

/-! ## Aliases -/

def unlessEmpty (s : String) : Option String := if s.isEmpty then none else some s

structure SelectItem where
  /-- The alias of the item, if it has one that is not empty. -/
  aliasName : Option String
  expr : List Token
  deriving DecidableEq, Repr

namespace SelectItem

def aliased (name : Token) (expr : List Token) : SelectItem :=
  ⟨unlessEmpty (Identifier.bare name.text), expr⟩

/-- The item `expr AS alias`, given latest token first. -/
def marked? : List Token → Option SelectItem
  | last :: mark :: front =>
    if mark.is .AS && last.isWord && !last.isVariable then some (aliased last front.reverse)
    else none
  | _ => none

def assigned? : List Token → Option SelectItem
  | first :: sign :: e :: expr =>
    if sign.isMark '=' && first.isPlainName then some (aliased first (e :: expr)) else none
  | _ => none

def endsExpression (t : Token) : Bool :=
  t.isMark ')' || t.isWord && (!t.isReserved || t.spells "END" || t.spells "NULL")

/-- The item `expr alias`, given latest token first. -/
def trailing? : List Token → Option SelectItem
  | last :: e :: front =>
    if last.isPlainName && endsExpression e && !isPhraseWord (e :: front) last [] then
      some (aliased last (e :: front).reverse)
    else none
  | _ => none

/-- The item that tokens make up. The three ways to write an alias are tried in turn. -/
def ofTokens (ts : List Token) : SelectItem :=
  (((marked? ts.reverse).or (assigned? ts)).or (trailing? ts.reverse)).getD ⟨none, ts⟩

end SelectItem

end Provenance
