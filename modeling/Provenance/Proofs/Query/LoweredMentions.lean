import Provenance.Proofs.Query.Mentions
import Provenance.Proofs.Token.LoweredReaders

/-!
# Mentions in small letters

A statement in small letters mentions the tables of the statement, in small letters.
-/

namespace Provenance

def TableUse.lowered (u : TableUse) : TableUse :=
  { u with
    parts := u.parts.map Text.asciiLower
    aliasName := u.aliasName.map Text.asciiLower }

def Mention.lowered : Mention → Mention
  | table use => table use.lowered
  | commonTable name => commonTable (Text.asciiLower name)

theorem aliasName?_lowered (ts : List Token) :
    aliasName? (lowered ts) = (aliasName? ts).map (Prod.map Text.asciiLower lowered) := by
  match ts with
  | [] => rfl
  | [t] =>
    simp only [List.map_cons, List.map_nil, aliasName?, Token.lowered_is, Token.lowered_isPlainName,
      Token.lowered_text, Identifier.bare_asciiLower]
    split
    · rfl
    · split <;> rfl
  | t :: u :: rest =>
    simp only [List.map_cons, aliasName?, Token.lowered_is, Token.lowered_isPlainName,
      Token.lowered_text, Identifier.bare_asciiLower]
    split <;> split <;> rfl

theorem tableUse?_lowered (access : Access) (depth : Nat) (ts : List Token) :
    tableUse? access depth (lowered ts) =
      (tableUse? access depth ts).map (Prod.map TableUse.lowered lowered) := by
  unfold tableUse?
  rw [qualifiedName?_lowered]
  cases qualifiedName? ts with
  | none => rfl
  | some found =>
    obtain ⟨parts, rest⟩ := found
    simp only [Option.map_some, Prod.map_apply, skipGroup_lowered, aliasName?_lowered]
    cases aliasName? (skipGroup rest) with
    | none => rfl
    | some found => rfl

theorem oneTable_lowered (access : Access) (depth : Nat) (ts : List Token) :
    oneTable access depth (lowered ts) =
      Prod.map (List.map Mention.lowered) lowered (oneTable access depth ts) := by
  unfold oneTable
  rw [tableUse?_lowered]
  cases tableUse? access depth ts <;> rfl

theorem tableList_lowered (access : Access) (depth : Nat) (ts : List Token) :
    tableList access depth (lowered ts) =
      Prod.map (List.map Mention.lowered) lowered (tableList access depth ts) := by
  fun_induction tableList access depth ts with
  | case1 ts h =>
    rw [tableList_eq, tableUse?_lowered, h]
    rfl
  | case2 ts use rest h hcomma =>
    rw [tableList_eq, tableUse?_lowered, h]
    simp only [Option.map_some, Prod.map_apply, afterComma?_lowered, hcomma]
    rfl
  | case3 ts use rest h next hcomma tail ih =>
    rw [tableList_eq, tableUse?_lowered, h]
    simp only [Option.map_some, Prod.map_apply, afterComma?_lowered, hcomma, ih]
    rfl

theorem commonTables_lowered (ts : List Token) :
    commonTables (lowered ts) = (commonTables ts).map Mention.lowered := by
  fun_induction commonTables ts with
  | case1 ts h =>
    rw [commonTables_eq, identifier?_lowered, h]
    rfl
  | case2 ts name rest h has =>
    rw [commonTables_eq, identifier?_lowered, h]
    simp only [Option.map_some, Prod.map_apply, skipGroup_lowered, afterKeyword?_lowered, has]
    rfl
  | case3 ts name rest h body has hgroup =>
    rw [commonTables_eq, identifier?_lowered, h]
    simp only [Option.map_some, Prod.map_apply, skipGroup_lowered, afterKeyword?_lowered, has,
      group?_lowered, hgroup]
    rfl
  | case4 ts name rest h body has group hgroup ih =>
    rw [commonTables_eq, identifier?_lowered, h]
    simp only [Option.map_some, Prod.map_apply, skipGroup_lowered, afterKeyword?_lowered, has,
      group?_lowered, hgroup, afterComma?_lowered, Identifier.bare_asciiLower]
    rw [List.map_cons]
    congr 1
    split
    · rename_i hcomma
      rw [Option.map_eq_none_iff.mp hcomma]
      rfl
    · rename_i next hcomma
      obtain ⟨next, hnext, rfl⟩ := Option.map_eq_some_iff.mp hcomma
      rw [ih next hnext]
      split
      · rename_i hnone
        rw [hnext] at hnone
        simp at hnone
      · rename_i hsome
        rw [hnext] at hsome
        rw [Option.some.inj hsome]

theorem depthAfter_lowered (depth : Nat) (t : Token) :
    depthAfter depth t.lowered = depthAfter depth t := by
  simp [depthAfter]

theorem mentionsAt_lowered (depth : Nat) (t : Token) (rest : List Token) :
    mentionsAt depth t.lowered (lowered rest) =
      Prod.map (List.map Mention.lowered) lowered (mentionsAt depth t rest) := by
  unfold mentionsAt
  rw [Token.lowered_keyword?]
  split
  · exact tableList_lowered ..
  · exact oneTable_lowered ..
  · exact oneTable_lowered ..
  · exact oneTable_lowered ..
  · rw [skipTop_lowered, skipKeyword_lowered]
    exact oneTable_lowered ..
  · rw [skipTop_lowered, skipKeyword_lowered]
    exact oneTable_lowered ..
  · rw [skipTop_lowered]
    exact oneTable_lowered ..
  · rw [skipTop_lowered, skipKeyword_lowered]
    exact oneTable_lowered ..
  · exact oneTable_lowered ..
  · rw [commonTables_lowered]
    rfl
  · rfl

theorem mentions_lowered (depth : Nat) (ts : List Token) :
    mentions depth (lowered ts) = (mentions depth ts).map Mention.lowered := by
  fun_induction mentions depth ts with
  | case1 => rw [lowered, List.map_nil, mentions]; rfl
  | case2 depth t rest ih =>
    rw [lowered_cons, mentions, mentionsAt_lowered, depthAfter_lowered, List.map_append, ← ih]
    rfl

end Provenance
