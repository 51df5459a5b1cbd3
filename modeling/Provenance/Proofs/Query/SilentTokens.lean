import Mathlib.Data.List.Basic
import Provenance.Proofs.Query.References

/-!
# Tokens in front of a verb

Statements that name no table leave nothing to be read behind them, if a verb such as `CREATE`
follows: it is no name, so no list of tables, common table expression or alias goes on with it.
-/

namespace Provenance

/-! ## Verbs -/

/-- A character is its own capital, or one of three letters is among its capitals. -/
theorem Text.capitals_cases (c : Char) :
    capitals c = [c.toUpper] ∨ ∃ d ∈ ['S', 'I', 'F'], d ∈ capitals c := by
  unfold capitals
  split <;> simp

theorem Keyword.asciiUpper_of_ofWord? {w : String} {k : Keyword}
    (hk : ∀ d ∈ ['S', 'I', 'F'], d ∉ k.spelling.toList) (h : ofWord? w = some k) :
    Text.asciiUpper w = k.spelling := by
  have hspelling := spelling_of_ofWord? h
  have hchars : ∀ c ∈ w.toList, Text.capitals c = [c.toUpper] := by
    intro c hc
    rcases Text.capitals_cases c with hself | ⟨d, hd, hmem⟩
    · exact hself
    · refine absurd ?_ (hk d hd)
      rw [hspelling, Text.capitalised, String.toList_ofList]
      exact List.mem_flatMap.mpr ⟨c, hc, hmem⟩
  rw [hspelling, Text.capitalised, Text.asciiUpper, List.flatMap_congr hchars,
    List.map_eq_flatMap]

theorem Token.isReserved_of_is {t : Token} {k : Keyword}
    (hk : ∀ d ∈ ['S', 'I', 'F'], d ∉ k.spelling.toList) (h : t.is k = true) :
    t.isReserved = true := by
  cases t with
  | word w =>
    have hword : Keyword.ofWord? w = some k := by simpa [is, keyword?] using h
    rw [isReserved, spellsReserved, Keyword.asciiUpper_of_ofWord? hk hword, List.contains_iff_mem]
    exact k.spelling_mem_reservedSpellings
  | delimited d => simp [is, keyword?] at h
  | mark c => simp [is, keyword?] at h

/-- Whether a token is a verb that begins a definition. -/
def isDefiningVerb (t : Token) : Bool := t.is .CREATE || t.is .ALTER

section Verb

variable {v : Token} (hv : isDefiningVerb v = true)

include hv

theorem not_isName_of_isDefiningVerb : v.isName = false := by
  have hreserved : v.isReserved = true := by
    rcases Bool.or_eq_true _ _ ▸ hv with hcreate | halter
    · exact Token.isReserved_of_is (by simp [Keyword.spelling]) hcreate
    · exact Token.isReserved_of_is (by simp [Keyword.spelling]) halter
  simp [Token.isName, hreserved]

theorem is_of_isDefiningVerb {k : Keyword} (hcreate : Keyword.CREATE ≠ k)
    (halter : Keyword.ALTER ≠ k) : v.is k = false := by
  rcases Bool.or_eq_true _ _ ▸ hv with h | h
  · exact Token.is_of_is h hcreate
  · exact Token.is_of_is h halter

theorem not_isMark_of_isDefiningVerb (c : Char) : v.isMark c = false := by
  rcases Bool.or_eq_true _ _ ▸ hv with h | h
  · exact Token.not_isMark_of_isWord (Token.isWord_of_is h) c
  · exact Token.not_isMark_of_isWord (Token.isWord_of_is h) c

/-! ## Readers in front of a verb -/

variable {ts : List Token}

theorem identifier?_verb (h : identifier? ts = none) (rest : List Token) :
    identifier? (ts ++ v :: rest) = none := by
  cases ts with
  | nil => simp [identifier?, not_isName_of_isDefiningVerb hv]
  | cons t ts =>
    cases hname : t.isName with
    | false => simp [identifier?, hname]
    | true => simp [identifier?, hname] at h

theorem tableUse?_verb {access : Access} {level : Nat} (h : tableUse? access level ts = none)
    (rest : List Token) : tableUse? access level (ts ++ v :: rest) = none := by
  have hname : ∀ us, tableUse? access level us = none ↔ identifier? us = none := by
    intro us
    simp [tableUse?, qualifiedName?]
  rw [hname] at h ⊢
  exact identifier?_verb hv h rest

theorem oneTable_verb {access : Access} {level : Nat} (h : (oneTable access level ts).1 = [])
    (rest : List Token) : oneTable access level (ts ++ v :: rest) = ([], ts ++ v :: rest) ∧
      (oneTable access level ts).2 = ts := by
  have hnone : tableUse? access level ts = none := by
    unfold oneTable at h
    split at h
    · simp at h
    · assumption
  constructor
  · rw [oneTable, tableUse?_verb hv hnone]
  · rw [oneTable, hnone]

theorem tableList_verb {access : Access} {level : Nat} (h : (tableList access level ts).1 = [])
    (rest : List Token) : tableList access level (ts ++ v :: rest) = ([], ts ++ v :: rest) ∧
      (tableList access level ts).2 = ts := by
  have hnone : tableUse? access level ts = none := by
    rw [tableList_eq] at h
    split at h
    · assumption
    · split at h <;> simp at h
  constructor
  · rw [tableList_eq, tableUse?_verb hv hnone]
  · rw [tableList_eq, hnone]

theorem skipKeyword_verb {k : Keyword} (hcreate : Keyword.CREATE ≠ k) (halter : Keyword.ALTER ≠ k)
    (rest : List Token) : skipKeyword k (ts ++ v :: rest) = skipKeyword k ts ++ v :: rest := by
  cases ts with
  | nil => simp [skipKeyword, afterKeyword?, is_of_isDefiningVerb hv hcreate halter]
  | cons t ts => cases ht : t.is k <;> simp [skipKeyword, afterKeyword?, ht]

theorem skipTop_verb (h : ∀ t ∈ ts.head?, t.is .TOP = false) (rest : List Token) :
    skipTop (ts ++ v :: rest) = ts ++ v :: rest := by
  apply skipTop_of_head
  cases ts with
  | nil => simp [is_of_isDefiningVerb hv (k := .TOP)]
  | cons t ts => exact h

omit hv in
theorem splitGroup_append {inner depth : Nat} (h : balancedFrom (inner + 1 + depth) ts = true)
    (rest : List Token) :
    splitGroup inner (ts ++ rest) = ((splitGroup inner ts).1, (splitGroup inner ts).2 ++ rest) := by
  obtain ⟨group, left, -, -, hsplit⟩ := splitGroup_inside h
  have hself := hsplit []
  rw [List.append_nil, List.append_nil] at hself
  rw [hsplit, hself]

theorem skipGroup_verb {depth : Nat} (h : balancedFrom depth ts = true) (rest : List Token) :
    skipGroup (ts ++ v :: rest) = skipGroup ts ++ v :: rest := by
  cases ts with
  | nil => simp [skipGroup, group?, not_isMark_of_isDefiningVerb hv]
  | cons t ts =>
    cases hopen : t.isMark '(' with
    | false => simp [skipGroup, group?, hopen]
    | true =>
      unfold balancedFrom at h
      rw [if_pos hopen, Nat.add_comm depth 1, ← Nat.zero_add 1] at h
      simp [skipGroup, group?, hopen, splitGroup_append h]

theorem commonTables_verb {depth : Nat} (hbal : balancedFrom depth ts = true)
    (h : commonTables ts = []) (rest : List Token) : commonTables (ts ++ v :: rest) = [] := by
  rw [commonTables_eq] at h ⊢
  cases hname : identifier? ts with
  | none => rw [identifier?_verb hv hname]
  | some named =>
    obtain ⟨name, columns⟩ := named
    obtain ⟨t, rfl, hword⟩ : ∃ t, ts = t :: columns ∧ t.isFlat = true := by
      cases ts with
      | nil => simp [identifier?] at hname
      | cons t ts =>
        simp only [identifier?, Option.ite_none_right_eq_some, Option.some.injEq,
          Prod.mk.injEq] at hname
        obtain ⟨hname, -, rfl⟩ := hname
        exact ⟨t, rfl, Token.isFlat_of_isWord (Token.isWord_of_isName hname)⟩
    have hcolumns : balancedFrom depth columns = true := by
      simp only [Token.isFlat, Bool.and_eq_true, Bool.not_eq_true'] at hword
      simpa [balancedFrom, hword.1, hword.2] using hbal
    have hlonger : identifier? (t :: columns ++ v :: rest) = some (name, columns ++ v :: rest) := by
      simp only [identifier?, Option.ite_none_right_eq_some, Option.some.injEq,
        Prod.mk.injEq] at hname
      simp [identifier?, hname.1, hname.2.1]
    rw [hname] at h
    rw [hlonger]
    simp only [skipGroup_verb hv hcolumns] at h ⊢
    have has := is_of_isDefiningVerb hv (k := .AS) (by decide) (by decide)
    cases hafter : skipGroup columns with
    | nil => simp [afterKeyword?, has]
    | cons u after =>
      rw [hafter] at h
      cases hu : u.is .AS with
      | false => simp [afterKeyword?, hu]
      | true =>
        simp only [afterKeyword?, hu, if_true, List.cons_append] at h ⊢
        cases after with
        | nil => simp [group?, not_isMark_of_isDefiningVerb hv]
        | cons body after =>
          cases hopen : body.isMark '(' with
          | false => simp [group?, hopen]
          | true => simp [group?, hopen] at h

/-- What is left of tokens when at most one of them is passed, and that is no parenthesis. -/
def PassesOne (ts left : List Token) : Prop := ts = left ∨ ∃ t, ts = t :: left ∧ t.isFlat = true

omit hv in
theorem passesOne_skipKeyword (k : Keyword) (ts : List Token) :
    PassesOne ts (skipKeyword k ts) := by
  unfold skipKeyword
  cases h : afterKeyword? k ts with
  | none => exact .inl rfl
  | some rest =>
    obtain ⟨t, rfl, ht⟩ := afterKeyword?_cons h
    exact .inr ⟨t, rfl, Token.isFlat_of_is ht⟩

/-- A token that says nothing about tables says nothing in front of a verb either, and passes at
most the keyword that may stand before the name of a table. -/
theorem mentionsAt_verb {level depth : Nat} {t : Token} (hbal : balancedFrom depth ts = true)
    (htop : topKeywords.any t.is = true → ∀ u ∈ ts.head?, u.is .TOP = false)
    (h : (mentionsAt level t ts).1 = []) (rest : List Token) :
    mentionsAt level t (ts ++ v :: rest) = ([], (mentionsAt level t ts).2 ++ v :: rest) ∧
      PassesOne ts (mentionsAt level t ts).2 := by
  have hone : ∀ {access us}, PassesOne ts us → (oneTable access level us).1 = [] →
      oneTable access level (us ++ v :: rest) =
          ([], (oneTable access level us).2 ++ v :: rest) ∧
        PassesOne ts (oneTable access level us).2 := by
    intro access us hus hnone
    obtain ⟨hverb, hself⟩ := oneTable_verb hv hnone rest
    rw [hself]
    exact ⟨hverb, hus⟩
  have hskip : ∀ {j}, t.keyword? = some j → j ∈ topKeywords →
      skipTop ts = ts ∧ skipTop (ts ++ v :: rest) = ts ++ v :: rest := by
    intro j hj hmem
    have hhead := htop (List.any_eq_true.mpr ⟨j, hmem, by simp [Token.is, hj]⟩)
    exact ⟨skipTop_of_head hhead, skipTop_verb hv hhead rest⟩
  have hthrough : ∀ {j k}, t.keyword? = some j → j ∈ topKeywords → Keyword.CREATE ≠ k →
      Keyword.ALTER ≠ k → (oneTable .write level (skipKeyword k (skipTop ts))).1 = [] →
      oneTable .write level (skipKeyword k (skipTop (ts ++ v :: rest))) =
          ([], (oneTable .write level (skipKeyword k (skipTop ts))).2 ++ v :: rest) ∧
        PassesOne ts (oneTable .write level (skipKeyword k (skipTop ts))).2 := by
    intro j k hj hmem hcreate halter hnone
    obtain ⟨hself, hlonger⟩ := hskip hj hmem
    rw [hself] at hnone ⊢
    rw [hlonger, skipKeyword_verb hv hcreate halter]
    exact hone (passesOne_skipKeyword k ts) hnone
  unfold mentionsAt at h ⊢
  split at h
  · obtain ⟨hverb, hself⟩ := tableList_verb hv h rest
    rw [hself]
    exact ⟨hverb, .inl rfl⟩
  · exact hone (.inl rfl) h
  · exact hone (.inl rfl) h
  · exact hone (.inl rfl) h
  · exact hthrough ‹_› (by decide) (by decide) (by decide) h
  · exact hthrough ‹_› (by decide) (by decide) (by decide) h
  · obtain ⟨hself, hlonger⟩ := hskip ‹_› (by decide)
    rw [hself] at h ⊢
    rw [hlonger]
    exact hone (.inl rfl) h
  · exact hthrough ‹_› (by decide) (by decide) (by decide) h
  · exact hone (.inl rfl) h
  · exact ⟨by rw [commonTables_verb hv hbal h], .inl rfl⟩
  · exact ⟨rfl, .inl rfl⟩

end Verb

/-! ## Silent tokens -/

/-- Whether a `TOP` clause stands right behind the verb of a statement that writes a table. -/
def hasTopClause : List Token → Bool
  | t :: u :: rest => topKeywords.any t.is && u.is .TOP || hasTopClause (u :: rest)
  | _ => false

theorem hasTopClause_cons {t : Token} {ts : List Token} (h : hasTopClause (t :: ts) = false) :
    hasTopClause ts = false ∧
      (topKeywords.any t.is = true → ∀ u ∈ ts.head?, u.is .TOP = false) := by
  cases ts with
  | nil => exact ⟨rfl, by simp⟩
  | cons u ts =>
    simp only [hasTopClause, Bool.or_eq_false_iff, Bool.and_eq_false_imp] at h
    refine ⟨h.2, fun hverb w hw => ?_⟩
    obtain rfl : u = w := by simpa using hw
    exact h.1 hverb

/-- Tokens with matching parentheses that mention no table. They have no `TOP` clause behind a verb,
since that takes the next token for its number, whatever it is. -/
structure IsSilent (ts : List Token) : Prop where
  balanced : isBalanced ts = true
  silent : mentions 0 ts = []
  top : hasTopClause ts = false

instance (ts : List Token) : Decidable (IsSilent ts) :=
  decidable_of_iff (isBalanced ts = true ∧ mentions 0 ts = [] ∧ hasTopClause ts = false)
    ⟨fun ⟨balanced, silent, top⟩ => ⟨balanced, silent, top⟩,
      fun h => ⟨h.balanced, h.silent, h.top⟩⟩

theorem mentions_append_verb {n depth : Nat} {ts : List Token} (hn : ts.length ≤ n)
    (hbal : balancedFrom depth ts = true) (hsilent : mentions depth ts = [])
    (htop : hasTopClause ts = false) {v : Token} (hv : isDefiningVerb v = true)
    (rest : List Token) : mentions depth (ts ++ v :: rest) = mentions 0 (v :: rest) := by
  induction n generalizing depth ts with
  | zero =>
    obtain rfl := List.eq_nil_of_length_eq_zero (Nat.le_zero.mp hn)
    obtain rfl : depth = 0 := by simpa [balancedFrom] using hbal
    rfl
  | succ n ih =>
    cases ts with
    | nil =>
      obtain rfl : depth = 0 := by simpa [balancedFrom] using hbal
      rfl
    | cons t ts =>
      obtain ⟨htailTop, hhead⟩ := hasTopClause_cons htop
      rw [mentions, List.append_eq_nil_iff] at hsilent
      have htail : balancedFrom (depthAfter depth t) ts = true := by
        unfold balancedFrom at hbal
        unfold depthAfter
        split at hbal
        · rename_i hopen
          rwa [if_pos hopen]
        split at hbal
        · rename_i hopen hclose
          rw [if_neg hopen, if_pos hclose]
          cases depth with
          | zero => simp at hbal
          | succ outer => exact hbal
        · rename_i hopen hclose
          rwa [if_neg hopen, if_neg hclose]
      obtain ⟨hverb, hpasses⟩ := mentionsAt_verb hv htail hhead hsilent.1 rest
      have hleft : balancedFrom (depthAfter depth t) (mentionsAt depth t ts).2 = true ∧
          hasTopClause (mentionsAt depth t ts).2 = false := by
        rcases hpasses with hself | ⟨u, hu, hflat⟩
        · rw [← hself]
          exact ⟨htail, htailTop⟩
        · rw [hu] at htail htailTop
          simp only [Token.isFlat, Bool.and_eq_true, Bool.not_eq_true'] at hflat
          refine ⟨?_, (hasTopClause_cons htailTop).1⟩
          simpa [balancedFrom, hflat.1, hflat.2] using htail
      have hlength := Nat.le_trans (mentionsAt_length depth t ts) (Nat.le_of_succ_le_succ hn)
      rw [List.cons_append, mentions, hverb, List.nil_append]
      exact ih hlength hleft.1 hsilent.2 hleft.2

/-- Silent tokens in front of a verb are passed over. -/
theorem IsSilent.mentions_append {ts : List Token} (h : IsSilent ts) {v : Token}
    (hv : isDefiningVerb v = true) (rest : List Token) :
    mentions 0 (ts ++ v :: rest) = mentions 0 (v :: rest) :=
  mentions_append_verb (Nat.le_refl _) h.balanced h.silent h.top hv rest

end Provenance
