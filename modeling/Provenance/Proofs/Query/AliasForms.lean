import Provenance.Proofs.Query.Expressions
import Provenance.Proofs.Token.Words

/-!
# Three ways to write an alias

An expression takes its alias behind `AS`, in front of an equals sign or directly behind itself. The
three are tried in this order, so the expression must not read as one of the ways tried before. Then
it makes no difference which way an alias is written.
-/

namespace Provenance

/-- An expression and the token that is its alias. -/
structure AliasedExpression where
  aliasToken : Token
  expr : List Token

namespace AliasedExpression

def aliasName (x : AliasedExpression) : String := Identifier.bare x.aliasToken.text

def item (x : AliasedExpression) : SelectItem := ⟨some x.aliasName, x.expr⟩

/-- The ways to write the alias, one of which has the keyword `mark` in it. -/
def spellings (mark : Token) (x : AliasedExpression) : List (List Token) :=
  [x.expr ++ [mark, x.aliasToken], x.aliasToken :: .mark '=' :: x.expr, x.expr ++ [x.aliasToken]]

/-- Whether an alias may stand directly behind a token: behind a parenthesis that closes, behind
`END` or `NULL`, and behind a word that is neither reserved nor `AS`. -/
def closesExpression (t : Token) : Bool :=
  t.isMark ')' || t.spells "END" || t.spells "NULL" || t.isWord && !t.isReserved && !t.is .AS

/-- Whether tokens, given latest first, end in `AS` and a word. -/
def endsInMarked : List Token → Bool
  | last :: mark :: _ => mark.is .AS && last.isWord
  | _ => false

/-- Whether tokens begin with an identifier and an equals sign. -/
def beginsAssigned : List Token → Bool
  | first :: sign :: _ => first.isName && sign.isMark '='
  | _ => false

/-- The alias is an identifier that is not empty and no variable. The expression is not empty and
reads as no item with an alias, and the two make up no `AT TIME ZONE`. -/
structure IsProper (x : AliasedExpression) : Prop where
  plain : x.aliasToken.isPlainName = true
  named : x.aliasName ≠ ""
  closed : x.expr.getLast?.any closesExpression = true
  unmarked : endsInMarked x.expr.reverse = false
  unassigned : beginsAssigned x.expr = false
  phrase : x.aliasToken.spells "ZONE" = true → beginsWithWords ["TIME", "AT"] x.expr.reverse = false

instance (x : AliasedExpression) : Decidable x.IsProper :=
  decidable_of_iff
    (x.aliasToken.isPlainName = true ∧ x.aliasName ≠ "" ∧
      x.expr.getLast?.any closesExpression = true ∧ endsInMarked x.expr.reverse = false ∧
      beginsAssigned x.expr = false ∧
      (x.aliasToken.spells "ZONE" = true → beginsWithWords ["TIME", "AT"] x.expr.reverse = false))
    ⟨fun ⟨plain, named, closed, unmarked, unassigned, phrase⟩ =>
        ⟨plain, named, closed, unmarked, unassigned, phrase⟩,
      fun h => ⟨h.plain, h.named, h.closed, h.unmarked, h.unassigned, h.phrase⟩⟩

/-! ## The end of the expression -/

section Closing

variable {t : Token}

theorem endsExpression_of_closes (h : closesExpression t = true) :
    SelectItem.endsExpression t = true := by
  simp only [closesExpression, Bool.or_eq_true, Bool.and_eq_true, Bool.not_eq_true'] at h
  rcases h with ((hclose | hend) | hnull) | ⟨⟨hword, hreserved⟩, -⟩
  · simp [SelectItem.endsExpression, hclose]
  · simp [SelectItem.endsExpression, Token.isWord_of_spells hend, hend]
  · simp [SelectItem.endsExpression, Token.isWord_of_spells hnull, hnull]
  · simp [SelectItem.endsExpression, hword, hreserved]

theorem not_spells_of_closes {w : String} (h : closesExpression t = true)
    (hreserved : spellsReserved w = true) (hend : Text.equalIgnoringCase "END" w = false)
    (hnull : Text.equalIgnoringCase "NULL" w = false) : t.spells w = false := by
  by_cases hspells : t.spells w = true
  · have hclose := Token.not_isMark_of_isWord (Token.isWord_of_spells hspells) ')'
    simp only [closesExpression, hclose, Token.isReserved_of_spells hreserved hspells,
      Bool.false_or, Bool.not_true, Bool.and_false, Bool.false_and, Bool.or_false,
      Bool.or_eq_true] at h
    rcases h with h | h
    · exact Token.not_spells_of_spells h hend
    · exact Token.not_spells_of_spells h hnull
  · simpa using hspells

theorem not_isAs_of_closes (h : closesExpression t = true) : t.is .AS = false := by
  simp only [closesExpression, Bool.or_eq_true, Bool.and_eq_true, Bool.not_eq_true'] at h
  rcases h with ((hclose | hend) | hnull) | ⟨-, has⟩
  · obtain rfl := Token.eq_mark_of_isMark hclose
    rfl
  · exact (Token.is_eq_of_spells hend .AS).trans (by decide +kernel)
  · exact (Token.is_eq_of_spells hnull .AS).trans (by decide +kernel)
  · exact has

end Closing

variable {x : AliasedExpression}

theorem IsProper.exists_last (h : x.IsProper) :
    ∃ front last, x.expr = front ++ [last] ∧ closesExpression last = true := by
  rcases List.eq_nil_or_concat x.expr with hexpr | ⟨front, last, hexpr⟩
  · have hclosed := h.closed
    simp [hexpr] at hclosed
  · have hclosed := h.closed
    rw [List.concat_eq_append] at hexpr
    rw [hexpr, List.getLast?_concat, Option.any_some] at hclosed
    exact ⟨front, last, hexpr, hclosed⟩

/-! ## The item -/

theorem IsProper.aliased_eq (h : x.IsProper) : SelectItem.aliased x.aliasToken x.expr = x.item := by
  have hnamed : Identifier.bare x.aliasToken.text ≠ "" := h.named
  simp [SelectItem.aliased, unlessEmpty, hnamed, item, aliasName]

theorem IsProper.ofTokens_marked (h : x.IsProper) {mark : Token} (hmark : mark.is .AS = true) :
    SelectItem.ofTokens (x.expr ++ [mark, x.aliasToken]) = x.item := by
  have hplain := h.plain
  simp only [Token.isPlainName, Bool.and_eq_true, Bool.not_eq_true'] at hplain
  have hword := Token.isWord_of_isName hplain.1
  have hfound : SelectItem.marked? (x.expr ++ [mark, x.aliasToken]).reverse = some x.item := by
    simp [SelectItem.marked?, hmark, hword, hplain.2, h.aliased_eq]
  rw [SelectItem.ofTokens, hfound]
  rfl

/-- In front of an equals sign an alias is found, since the expression does not end in `AS` and a
word. -/
theorem IsProper.ofTokens_assigned (h : x.IsProper) :
    SelectItem.ofTokens (x.aliasToken :: .mark '=' :: x.expr) = x.item := by
  obtain ⟨front, last, hexpr, -⟩ := h.exists_last
  have hsign : (Token.mark '=').isMark '=' = true := rfl
  have hunmarked : SelectItem.marked? (x.aliasToken :: .mark '=' :: x.expr).reverse = none := by
    have hends := h.unmarked
    rcases List.eq_nil_or_concat front with rfl | ⟨more, u, rfl⟩
    · have has : (Token.mark '=').is .AS = false := rfl
      simp [hexpr, SelectItem.marked?, has]
    · rw [hexpr] at hends
      simp only [List.concat_eq_append, List.reverse_append, List.reverse_cons, List.reverse_nil,
        List.nil_append, List.cons_append, endsInMarked] at hends
      simp only [hexpr, List.concat_eq_append, List.reverse_append, List.reverse_cons,
        List.reverse_nil, List.nil_append, List.cons_append, SelectItem.marked?, hends,
        Bool.false_and, Bool.false_eq_true, if_false]
  have hfound : SelectItem.assigned? (x.aliasToken :: .mark '=' :: x.expr) = some x.item := by
    obtain ⟨e, tail, htail⟩ : ∃ e tail, x.expr = e :: tail := by
      cases front <;> simp [hexpr]
    rw [htail, SelectItem.assigned?, ← htail, hsign, h.plain, h.aliased_eq]
    rfl
  rw [SelectItem.ofTokens, hunmarked, hfound]
  rfl

theorem IsProper.not_isPhraseWord (h : x.IsProper) :
    isPhraseWord x.expr.reverse x.aliasToken [] = false := by
  obtain ⟨front, last, hexpr, hlast⟩ := h.exists_last
  have hcollate := not_spells_of_closes (w := "COLLATE") hlast (by decide) (by decide) (by decide)
  have hcurrent := not_spells_of_closes (w := "CURRENT") hlast (by decide) (by decide) (by decide)
  have hfor := not_spells_of_closes (w := "FOR") hlast (by decide) (by decide) (by decide)
  have hzone : (beginsWithWords ["TIME", "AT"] x.expr.reverse && x.aliasToken.spells "ZONE") =
      false := by
    by_cases hspells : x.aliasToken.spells "ZONE" = true
    · rw [h.phrase hspells, Bool.false_and]
    · simp [hspells]
  rw [isPhraseWord, hzone, hexpr]
  simp [beginsWithWords, hcollate, hcurrent, hfor]

/-- Directly behind the expression an alias is found, since the expression neither ends in `AS` nor
assigns. -/
theorem IsProper.ofTokens_trailing (h : x.IsProper) :
    SelectItem.ofTokens (x.expr ++ [x.aliasToken]) = x.item := by
  obtain ⟨front, last, hexpr, hlast⟩ := h.exists_last
  have hreverse : (x.expr ++ [x.aliasToken]).reverse =
      x.aliasToken :: last :: front.reverse := by simp [hexpr]
  have hunmarked : SelectItem.marked? (x.expr ++ [x.aliasToken]).reverse = none := by
    simp [hreverse, SelectItem.marked?, not_isAs_of_closes hlast]
  have hunassigned : SelectItem.assigned? (x.expr ++ [x.aliasToken]) = none := by
    have hbegins := h.unassigned
    match hx : x.expr with
    | [] => rfl
    | [e] => rfl
    | first :: sign :: rest =>
      obtain ⟨e, tail, htail⟩ : ∃ e tail, rest ++ [x.aliasToken] = e :: tail := by
        cases rest <;> simp
      have hassigned : (sign.isMark '=' && first.isPlainName) = false := by
        rw [hx, beginsAssigned] at hbegins
        cases hsign : sign.isMark '=' with
        | false => rfl
        | true =>
          have hname : first.isName = false := by simpa [hsign] using hbegins
          simp [Token.isPlainName, hname]
      rw [List.cons_append, List.cons_append, htail, SelectItem.assigned?, hassigned]
      rfl
  have hphrase : isPhraseWord (last :: front.reverse) x.aliasToken [] = false := by
    have hphrase := h.not_isPhraseWord
    rwa [hexpr, List.reverse_append] at hphrase
  have hfound : SelectItem.trailing? (x.expr ++ [x.aliasToken]).reverse = some x.item := by
    have hback : (last :: front.reverse).reverse = x.expr := by simp [hexpr]
    rw [hreverse, SelectItem.trailing?, h.plain, endsExpression_of_closes hlast, hphrase, hback,
      h.aliased_eq]
    rfl
  rw [SelectItem.ofTokens, hunmarked, hunassigned, hfound]
  rfl

theorem IsProper.ofTokens_spellings (h : x.IsProper) {mark : Token} (hmark : mark.is .AS = true) :
    ∀ ts ∈ x.spellings mark, SelectItem.ofTokens ts = x.item := by
  simp only [spellings, List.forall_mem_cons]
  exact ⟨h.ofTokens_marked hmark, h.ofTokens_assigned, h.ofTokens_trailing, by simp⟩

/-! ## The column -/

theorem IsProper.wildcard?_expr (h : x.IsProper) (scope : Scope) :
    scope.wildcard? x.expr = none := by
  obtain ⟨front, last, hexpr, hlast⟩ := h.exists_last
  have hstar : last.isMark '*' = false := by
    by_cases hmark : last.isMark '*' = true
    · obtain rfl := Token.eq_mark_of_isMark hmark
      exact absurd hlast (by decide)
    · simpa using hmark
  simp [Scope.wildcard?, hexpr, hstar]

end AliasedExpression

/-- An item makes no difference to a select list but through its columns. -/
theorem Scope.outputColumns_replace {scope : Scope} {ts us : List Token}
    (h : ∀ position, scope.itemColumns ts position = scope.itemColumns us position)
    (front back : List (List Token)) :
    scope.outputColumns (front ++ ts :: back) = scope.outputColumns (front ++ us :: back) := by
  simp only [outputColumns, List.zipIdx_append, List.zipIdx_cons, List.flatMap_append,
    List.flatMap_cons, h]

namespace AliasedExpression

variable {x : AliasedExpression}

/-- However an alias is written, it is the alias of the expression, and the item has the same one
column at its place in every select list. -/
theorem itemColumns_spellings (h : x.IsProper) {mark : Token} (hmark : mark.is .AS = true) :
    (∀ ts ∈ x.spellings mark, SelectItem.ofTokens ts = ⟨some x.aliasName, x.expr⟩) ∧
      ∀ scope : Scope, ∀ ts ∈ x.spellings mark,
        (∀ position, scope.itemColumns ts position = [scope.outputColumn position x.item]) ∧
        ∀ us ∈ x.spellings mark, ∀ front back,
          scope.outputColumns (front ++ ts :: back) = scope.outputColumns (front ++ us :: back) := by
  have hitem := h.ofTokens_spellings hmark
  have hcolumn : ∀ scope : Scope, ∀ ts ∈ x.spellings mark, ∀ position,
      scope.itemColumns ts position = [scope.outputColumn position x.item] := by
    intro scope ts hts position
    have hwildcard : scope.wildcard? x.item.expr = none := h.wildcard?_expr scope
    simp only [Scope.itemColumns, hitem ts hts, hwildcard]
  refine ⟨hitem, ?_⟩
  intro scope ts hts
  refine ⟨hcolumn scope ts hts, ?_⟩
  intro us hus
  apply Scope.outputColumns_replace
  intro position
  rw [hcolumn scope ts hts, hcolumn scope us hus]

/-- A delimited `[Zone]` belongs to no `AT TIME ZONE`, and the `as` of a `CAST` in front of it marks
no alias. -/
theorem itemColumns_spellings_zone :
    let x : AliasedExpression :=
      ⟨.delimited "[Zone]", sqlTokens "CAST(o.Created as datetime) AT TIME"⟩
    let mark : Token := .word "as"
    x.IsProper ∧ mark.is .AS = true ∧ x.aliasName = "Zone" ∧
      ∀ ts ∈ x.spellings mark, SelectItem.ofTokens ts =
        ⟨some "Zone", sqlTokens "CAST(o.Created as datetime) AT TIME"⟩ := by
  intro x mark
  have hx : x.IsProper := by decide +kernel
  have hmark : mark.is .AS = true := by decide
  have hname : x.aliasName = "Zone" := by decide +kernel
  have hspellings := (itemColumns_spellings hx hmark).1
  rw [hname] at hspellings
  exact ⟨hx, hmark, hname, hspellings⟩

end AliasedExpression

end Provenance
