import Provenance.Proofs.Identifier

/-!
# Names in generated SQL

Whatever its characters are, a name is written so that it is read as one token, which no reader
takes for anything but a name. A written id is read as one qualified name. The bare forms of what
is read are the names again, if these have no blanks at their ends.
-/

namespace Provenance

/-- Whether a token names something and nothing else: it is no variable, no reserved word and none
of the keywords that readers look for. -/
structure Token.IsOnlyName (t : Token) : Prop where
  isName : t.isName = true
  not_isVariable : t.isVariable = false
  not_isReserved : t.isReserved = false
  keyword? : t.keyword? = none

namespace Identifier

theorem token_isOnlyName (name : String) : (token name).IsOnlyName where
  isName := token_isName name
  not_isVariable := token_isVariable name
  not_isReserved := token_isReserved name
  keyword? := token_keyword? name

theorem sqlTokens_written (name : String) : sqlTokens (written name) = [token name] :=
  (Reads.name name rfl).sqlTokens_toList_eq

theorem sqlTokens_writtenId (id : String) : sqlTokens (writtenId id) = idTokens id :=
  (Reads.id id rfl).sqlTokens_toList_eq

theorem written_injOn {a b : String} (ha : Text.trim a = a) (hb : Text.trim b = b)
    (h : written a = written b) : a = b := by
  rw [← ha, ← hb, ← bare_written, ← bare_written, h]

theorem splitId?_cases (id : String) :
    splitId? id = none ∧ '.' ∉ id.toList ∨
      ∃ schema name, splitId? id = some (schema, name) ∧ '.' ∉ schema.toList ∧
        id = joinId [schema, name] := by
  have hfront : '.' ∉ id.toList.takeWhile (· != '.') := by
    intro hdot
    have hne := List.all_eq_true.mp List.all_takeWhile _ hdot
    simp at hne
  cases hsplit : splitId? id with
  | none =>
    refine .inl ⟨rfl, ?_⟩
    have hwhole := List.takeWhile_append_dropWhile (p := (· != '.')) (l := id.toList)
    unfold splitId? at hsplit
    split at hsplit
    · rename_i hdrop
      rw [hdrop, List.append_nil] at hwhole
      rwa [hwhole] at hfront
    · simp at hsplit
  | some parts =>
    obtain ⟨schema, name⟩ := parts
    refine .inr ⟨schema, name, rfl, ?_, (joinId_of_splitId? hsplit).symm⟩
    unfold splitId? at hsplit
    split at hsplit
    · simp at hsplit
    · obtain ⟨rfl, -⟩ := Prod.mk.inj (Option.some.inj hsplit)
      rwa [String.toList_ofList]

theorem qualifiedName?_writtenId (id : String) :
    qualifiedName? (sqlTokens (writtenId id)) = some ((idParts id).map written, []) := by
  have hend : ∀ t, ([] : List Token).head? = some t → t.isMark '.' = false := by simp
  have hname := qualifiedName?_idTokens id [] hend
  rwa [List.append_nil, ← sqlTokens_writtenId] at hname

/-- A name is written as one token that only names, and names without blanks at their ends are
read as they are, so no two of them are written alike. An id without a full stop is written as
such a token, and any other as two, with the first full stop between them; it is read to its end
as a qualified name, and the parts of that make up the id. -/
theorem written_isOnlyName :
    (∀ name, ∃ t : Token, sqlTokens (written name) = [t] ∧ t.IsOnlyName ∧
        (Text.trim name = name → bare t.text = name)) ∧
      (∀ a b, Text.trim a = a → Text.trim b = b → written a = written b → a = b) ∧
      ∀ id,
        ('.' ∉ id.toList ∧ ∃ t : Token, sqlTokens (writtenId id) = [t] ∧ t.IsOnlyName ∧
          qualifiedName? (sqlTokens (writtenId id)) = some ([t.text], []) ∧
          (Text.trim id = id → bare t.text = id)) ∨
        ∃ schema name, '.' ∉ schema.toList ∧ id = joinId [schema, name] ∧
          ∃ t u : Token, sqlTokens (writtenId id) = [t, .mark '.', u] ∧
            t.IsOnlyName ∧ u.IsOnlyName ∧
            qualifiedName? (sqlTokens (writtenId id)) = some ([t.text, u.text], []) ∧
            (Text.trim schema = schema → Text.trim name = name →
              joinId [bare t.text, bare u.text] = id) := by
  refine ⟨fun name => ⟨token name, sqlTokens_written name, token_isOnlyName name, bare_token_text⟩,
    fun a b => written_injOn, fun id => ?_⟩
  have hread := qualifiedName?_writtenId id
  rcases splitId?_cases id with ⟨hsplit, hdot⟩ | ⟨schema, name, hsplit, hdot, hid⟩
  · have hparts : idParts id = [id] := by rw [idParts, hsplit]
    refine .inl ⟨hdot, token id, ?_, token_isOnlyName id, ?_, bare_token_text⟩
    · rw [sqlTokens_writtenId, idTokens, hsplit]
    · rw [hread, hparts, token_text]
      rfl
  · have hparts : idParts id = [schema, name] := by rw [idParts, hsplit]
    refine .inr ⟨schema, name, hdot, hid, token schema, token name, ?_, token_isOnlyName schema,
      token_isOnlyName name, ?_, ?_⟩
    · rw [sqlTokens_writtenId, idTokens, hsplit]
    · rw [hread, hparts, token_text, token_text]
      rfl
    · intro hschema hname
      rw [bare_token_text hschema, bare_token_text hname, hid]

/-- Every bracket of a name is doubled, also one at its end. -/
example : sqlTokens (writtenId "a].from.b]]") =
    [.delimited "[a]]]", .mark '.', .delimited "[from.b]]]]]"] := by decide +kernel

end Identifier

end Provenance
