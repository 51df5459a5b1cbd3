import Provenance.Proofs.Query.Mentions
import Provenance.Proofs.Query.References

/-!
# References in parentheses

What is read after a reference keyword inside parentheses ends before the parenthesis that closes
them. An expression that refers to tables only in its parentheses mentions the same tables
wherever it stands.
-/

namespace Provenance

/-- Whether tokens close the `depth` parentheses that are open before them and all that they open,
introduce tables only inside of these and change none. -/
def enclosesReferences (depth : Nat) : List Token → Bool
  | [] => depth == 0
  | t :: rest =>
    !topKeywords.any t.is &&
      if t.isMark '(' then enclosesReferences (depth + 1) rest
      else if t.isMark ')' then
        match depth with
        | 0 => false
        | outer + 1 => enclosesReferences outer rest
      else (depth != 0 || t.isQuiet) && enclosesReferences depth rest

section Tail

variable {depth : Nat} {t : Token} {ts : List Token}

theorem exists_cons_of_balancedFrom (h : balancedFrom (depth + 1) ts = true) :
    ∃ t tail, ts = t :: tail := by
  cases ts with
  | nil => simp [balancedFrom] at h
  | cons t tail => exact ⟨t, tail, rfl⟩

theorem balancedFrom_of_open (h : balancedFrom depth (t :: ts) = true)
    (hopen : t.isMark '(' = true) : balancedFrom (depth + 1) ts = true := by
  unfold balancedFrom at h
  rwa [if_pos hopen] at h

theorem balancedFrom_of_isFlat (h : balancedFrom depth (t :: ts) = true)
    (hflat : t.isFlat = true) : balancedFrom depth ts = true := by
  simp only [Token.isFlat, Bool.and_eq_true, Bool.not_eq_true'] at hflat
  unfold balancedFrom at h
  rwa [hflat.1, hflat.2] at h

theorem balancedFrom_of_enclosesReferences (h : enclosesReferences depth ts = true) :
    balancedFrom depth ts = true := by
  induction ts generalizing depth with
  | nil => exact h
  | cons t ts ih =>
    unfold enclosesReferences at h
    unfold balancedFrom
    rw [Bool.and_eq_true] at h
    obtain ⟨-, h⟩ := h
    split at h
    · rename_i hopen
      rw [if_pos hopen]
      exact ih h
    split at h
    · rename_i hopen hclose
      rw [if_neg hopen, if_pos hclose]
      cases depth with
      | zero => simp at h
      | succ outer => exact ih h
    · rename_i hopen hclose
      rw [if_neg hopen, if_neg hclose]
      exact ih (Bool.and_eq_true_iff.mp h).2

theorem enclosesReferences_of_suffix {inner : Nat} {left : List Token}
    (h : enclosesReferences depth ts = true) (hsuffix : left <:+ ts)
    (hleft : balancedFrom inner left = true) : enclosesReferences inner left = true := by
  induction ts generalizing depth with
  | nil =>
    obtain rfl := List.suffix_nil.mp hsuffix
    exact hleft
  | cons t ts ih =>
    rcases List.suffix_cons_iff.mp hsuffix with rfl | htail
    · -- The tokens close one number of parentheses only.
      have hinner := net_of_balancedFrom hleft
      have hdepth := net_of_balancedFrom (balancedFrom_of_enclosesReferences h)
      obtain rfl : depth = inner := by omega
      exact h
    · unfold enclosesReferences at h
      rw [Bool.and_eq_true] at h
      obtain ⟨-, h⟩ := h
      split at h
      · exact ih h htail
      split at h
      · cases depth with
        | zero => simp at h
        | succ outer => exact ih h htail
      · exact ih (Bool.and_eq_true_iff.mp h).2 htail

end Tail

/-! ## Readers in parentheses -/

/-- What a reader may leave of tokens in parentheses: at least the parenthesis that closes them. -/
structure LeftInside (depth : Nat) (ts left : List Token) : Prop where
  closes : balancedFrom (depth + 1) left = true
  suffix : left <:+ ts

/-- Whether a reader ends in the parentheses in which it begins, whatever stands after them. -/
def ReadsInside {α : Type} (reader : List Token → Option (α × List Token)) (depth : Nat)
    (ts : List Token) : Prop :=
  (∀ rest, reader (ts ++ rest) = none) ∨
    ∃ a left, LeftInside depth ts left ∧ ∀ rest, reader (ts ++ rest) = some (a, left ++ rest)

section Readers

variable {depth : Nat} {ts : List Token} (h : balancedFrom (depth + 1) ts = true)

include h

theorem leftInside_refl : LeftInside depth ts ts := ⟨h, List.suffix_refl ts⟩

omit h in
theorem LeftInside.trans {us left : List Token} (hts : LeftInside depth ts us)
    (hus : LeftInside depth us left) : LeftInside depth ts left :=
  ⟨hus.closes, hus.suffix.trans hts.suffix⟩

omit h in
theorem leftInside_of_isFlat {t : Token} (h : balancedFrom (depth + 1) (t :: ts) = true)
    (hflat : t.isFlat = true) : LeftInside depth (t :: ts) ts :=
  ⟨balancedFrom_of_isFlat h hflat, List.suffix_cons t ts⟩

theorem readsInside_identifier? : ReadsInside identifier? depth ts := by
  obtain ⟨t, tail, rfl⟩ := exists_cons_of_balancedFrom h
  cases hname : t.isName with
  | false => exact .inl fun rest => by simp [identifier?, hname]
  | true =>
    have hflat := Token.isFlat_of_isWord (Token.isWord_of_isName hname)
    exact .inr ⟨t.text, tail, leftInside_of_isFlat h hflat, fun rest => by
      simp [identifier?, hname]⟩

omit h in
theorem dottedParts_inside (n : Nat) (hn : ts.length ≤ n)
    (h : balancedFrom (depth + 1) ts = true) :
    ∃ parts left, LeftInside depth ts left ∧
      ∀ rest, dottedParts (ts ++ rest) = (parts, left ++ rest) := by
  induction n generalizing ts with
  | zero =>
    obtain ⟨t, tail, rfl⟩ := exists_cons_of_balancedFrom h
    simp at hn
  | succ n ih =>
    obtain ⟨t, tail, rfl⟩ := exists_cons_of_balancedFrom h
    cases hdot : t.isMark '.' with
    | false =>
      refine ⟨[], _, leftInside_refl h, fun rest => ?_⟩
      cases hrest : tail ++ rest <;> simp [dottedParts, hrest, hdot]
    | true =>
      have hinside := leftInside_of_isFlat h (Token.isFlat_of_isMark hdot (by decide) (by decide))
      obtain ⟨part, tail, rfl⟩ := exists_cons_of_balancedFrom hinside.closes
      cases hpart : part.isWord && !part.isNumber with
      | false =>
        refine ⟨[], _, leftInside_refl h, fun rest => ?_⟩
        simp [dottedParts, hdot, hpart]
      | true =>
        have hword := (Bool.and_eq_true_iff.mp hpart).1
        have htail := leftInside_of_isFlat hinside.closes (Token.isFlat_of_isWord hword)
        obtain ⟨parts, left, hleft, hread⟩ := ih (by simp at hn; omega) htail.closes
        refine ⟨part.text :: parts, left, hinside.trans (htail.trans hleft), fun rest => ?_⟩
        simp [dottedParts, hdot, hpart, hread]

theorem readsInside_qualifiedName? : ReadsInside qualifiedName? depth ts := by
  rcases readsInside_identifier? h with hnone | ⟨first, tail, htail, hfirst⟩
  · exact .inl fun rest => by rw [qualifiedName?, hnone]; rfl
  · obtain ⟨parts, left, hleft, hparts⟩ := dottedParts_inside _ (Nat.le_refl _) htail.closes
    refine .inr ⟨first :: parts, left, htail.trans hleft, fun rest => ?_⟩
    rw [qualifiedName?, hfirst, Option.map_some]
    simp only [hparts]

theorem readsInside_group? : ReadsInside group? depth ts := by
  obtain ⟨t, tail, rfl⟩ := exists_cons_of_balancedFrom h
  cases hopen : t.isMark '(' with
  | false => exact .inl fun rest => by simp [group?, hopen]
  | true =>
    have htail := balancedFrom_of_open h hopen
    rw [show depth + 1 + 1 = 0 + 1 + (depth + 1) by omega] at htail
    obtain ⟨group, left, hleft, hsuffix, hsplit⟩ := splitGroup_inside htail
    exact .inr ⟨group, left, ⟨hleft, hsuffix.trans (List.suffix_cons t tail)⟩, fun rest => by
      simp [group?, hopen, hsplit]⟩

theorem skipGroup_inside : ∃ left, LeftInside depth ts left ∧
    ∀ rest, skipGroup (ts ++ rest) = left ++ rest := by
  rcases readsInside_group? h with hnone | ⟨group, left, hleft, hgroup⟩
  · exact ⟨ts, leftInside_refl h, fun rest => by rw [skipGroup, hnone]; rfl⟩
  · exact ⟨left, hleft, fun rest => by rw [skipGroup, hgroup]; rfl⟩

theorem readsInside_aliasName? : ReadsInside aliasName? depth ts := by
  have hname : ∀ {t : Token}, t.isPlainName = true → t.isFlat = true := by
    intro t ht
    exact Token.isFlat_of_isWord (Token.isWord_of_isName (Token.isName_of_isPlainName ht))
  obtain ⟨t, tail, rfl⟩ := exists_cons_of_balancedFrom h
  cases has : t.is .AS with
  | true =>
    have hinside := leftInside_of_isFlat h (Token.isFlat_of_is has)
    obtain ⟨u, tail, rfl⟩ := exists_cons_of_balancedFrom hinside.closes
    cases hu : u.isPlainName with
    | false => exact .inl fun rest => by simp [aliasName?, has, hu]
    | true =>
      have htail := leftInside_of_isFlat hinside.closes (hname hu)
      exact .inr ⟨Identifier.bare u.text, tail, hinside.trans htail, fun rest => by
        simp [aliasName?, has, hu]⟩
  | false =>
    cases ht : t.isPlainName with
    | false => exact .inl fun rest => by simp [aliasName?, has, ht]
    | true =>
      exact .inr ⟨Identifier.bare t.text, tail, leftInside_of_isFlat h (hname ht), fun rest => by
        simp [aliasName?, has, ht]⟩

theorem readsInside_tableUse? (access : Access) (level : Nat) :
    ReadsInside (tableUse? access level) depth ts := by
  rcases readsInside_qualifiedName? h with hnone | ⟨parts, named, hnamed, hparts⟩
  · exact .inl fun rest => by rw [tableUse?, hnone]; rfl
  obtain ⟨after, hafter, hskip⟩ := skipGroup_inside hnamed.closes
  rcases readsInside_aliasName? hafter.closes with hnone | ⟨name, left, hleft, halias⟩
  · refine .inr ⟨⟨parts, none, access, level⟩, after, hnamed.trans hafter, fun rest => ?_⟩
    rw [tableUse?, hparts, Option.map_some]
    simp only [hskip, hnone]
  · refine .inr ⟨⟨parts, some name, access, level⟩, left, hnamed.trans (hafter.trans hleft),
      fun rest => ?_⟩
    rw [tableUse?, hparts, Option.map_some]
    simp only [hskip, halias]

theorem afterMark?_inside {c : Char} (hopen : c ≠ '(') (hclose : c ≠ ')') :
    (∀ rest, afterMark? c (ts ++ rest) = none) ∨
      ∃ left, LeftInside depth ts left ∧ left.length < ts.length ∧
        ∀ rest, afterMark? c (ts ++ rest) = some (left ++ rest) := by
  obtain ⟨t, tail, rfl⟩ := exists_cons_of_balancedFrom h
  cases hmark : t.isMark c with
  | false => exact .inl fun rest => by simp [afterMark?, hmark]
  | true =>
    have hinside := leftInside_of_isFlat h (Token.isFlat_of_isMark hmark hopen hclose)
    exact .inr ⟨tail, hinside, by simp, fun rest => by simp [afterMark?, hmark]⟩

theorem afterKeyword?_inside (k : Keyword) :
    (∀ rest, afterKeyword? k (ts ++ rest) = none) ∨
      ∃ left, LeftInside depth ts left ∧
        ∀ rest, afterKeyword? k (ts ++ rest) = some (left ++ rest) := by
  obtain ⟨t, tail, rfl⟩ := exists_cons_of_balancedFrom h
  cases hword : t.is k with
  | false => exact .inl fun rest => by simp [afterKeyword?, hword]
  | true =>
    have hinside := leftInside_of_isFlat h (Token.isFlat_of_is hword)
    exact .inr ⟨tail, hinside, fun rest => by simp [afterKeyword?, hword]⟩

theorem oneTable_inside (access : Access) (level : Nat) :
    ∃ ms left, LeftInside depth ts left ∧
      ∀ rest, oneTable access level (ts ++ rest) = (ms, left ++ rest) := by
  rcases readsInside_tableUse? h access level with hnone | ⟨use, left, hleft, huse⟩
  · exact ⟨[], ts, leftInside_refl h, fun rest => by rw [oneTable, hnone]⟩
  · exact ⟨[.table use], left, hleft, fun rest => by rw [oneTable, huse]⟩

omit h in
theorem tableList_inside (access : Access) (level n : Nat) (hn : ts.length ≤ n)
    (h : balancedFrom (depth + 1) ts = true) :
    ∃ ms left, LeftInside depth ts left ∧
      ∀ rest, tableList access level (ts ++ rest) = (ms, left ++ rest) := by
  induction n generalizing ts with
  | zero =>
    obtain ⟨t, tail, rfl⟩ := exists_cons_of_balancedFrom h
    simp at hn
  | succ n ih =>
    rcases readsInside_tableUse? h access level with hnone | ⟨use, after, hafter, huse⟩
    · exact ⟨[], ts, leftInside_refl h, fun rest => by rw [tableList_eq, hnone]⟩
    rcases afterMark?_inside hafter.closes (c := ',') (by decide) (by decide) with
      hnone | ⟨next, hnext, hlength, hcomma⟩
    · exact ⟨[.table use], after, hafter, fun rest => by simp only [tableList_eq, huse, hnone]⟩
    · have hshorter : next.length ≤ n := by
        have hle := hafter.suffix.length_le
        omega
      obtain ⟨ms, left, hleft, hlist⟩ := ih hshorter hnext.closes
      refine ⟨.table use :: ms, left, hafter.trans (hnext.trans hleft), fun rest => ?_⟩
      rw [tableList_eq]
      simp only [huse, hcomma, hlist]

omit h in
theorem commonTables_inside (n : Nat) (hn : ts.length ≤ n)
    (h : balancedFrom (depth + 1) ts = true) :
    ∃ ms, ∀ rest, commonTables (ts ++ rest) = ms := by
  induction n generalizing ts with
  | zero =>
    obtain ⟨t, tail, rfl⟩ := exists_cons_of_balancedFrom h
    simp at hn
  | succ n ih =>
    rcases readsInside_identifier? h with hnone | ⟨name, named, hnamed, hname⟩
    · exact ⟨[], fun rest => by rw [commonTables_eq, hnone]⟩
    obtain ⟨declared, hdeclared, hcolumns⟩ := skipGroup_inside hnamed.closes
    rcases afterKeyword?_inside hdeclared.closes .AS with hnone | ⟨body, hbody, has⟩
    · exact ⟨[], fun rest => by simp only [commonTables_eq, hname, hcolumns, hnone]⟩
    rcases readsInside_group? hbody.closes with hnone | ⟨group, _, _, hgroup⟩
    · exact ⟨[], fun rest => by simp only [commonTables_eq, hname, hcolumns, has, hnone]⟩
    obtain ⟨after, hafter, hskip⟩ := skipGroup_inside hbody.closes
    rcases afterMark?_inside hafter.closes (c := ',') (by decide) (by decide) with
      hnone | ⟨next, hnext, hlength, hcomma⟩
    · exact ⟨[.commonTable (Identifier.bare name)], fun rest => by
        simp only [commonTables_eq, hname, hcolumns, has, hgroup, hskip, hnone]⟩
    · have hshorter : next.length ≤ n := by
        have hle := (hnamed.trans (hdeclared.trans (hbody.trans hafter))).suffix.length_le
        omega
      obtain ⟨ms, hlist⟩ := ih hshorter hnext.closes
      refine ⟨.commonTable (Identifier.bare name) :: ms, fun rest => ?_⟩
      rw [commonTables_eq]
      simp only [hname, hcolumns, has, hgroup, hskip, hcomma, hlist]

theorem mentionsAt_inside {t : Token} (ht : topKeywords.any t.is = false) (level : Nat) :
    ∃ ms left, LeftInside depth ts left ∧
      ∀ rest, mentionsAt level t (ts ++ rest) = (ms, left ++ rest) := by
  cases hkeyword : t.keyword? with
  | none => exact ⟨[], ts, leftInside_refl h, fun rest => by rw [mentionsAt, hkeyword]⟩
  | some k =>
    cases k with
    | FROM =>
      obtain ⟨ms, left, hleft, hlist⟩ := tableList_inside .read level _ (Nat.le_refl _) h
      exact ⟨ms, left, hleft, fun rest => by rw [mentionsAt, hkeyword]; exact hlist rest⟩
    | JOIN | APPLY | USING =>
      obtain ⟨ms, left, hleft, hone⟩ := oneTable_inside h .read level
      exact ⟨ms, left, hleft, fun rest => by rw [mentionsAt, hkeyword]; exact hone rest⟩
    | INTO =>
      obtain ⟨ms, left, hleft, hone⟩ := oneTable_inside h .write level
      exact ⟨ms, left, hleft, fun rest => by rw [mentionsAt, hkeyword]; exact hone rest⟩
    | WITH =>
      obtain ⟨ms, hcommon⟩ := commonTables_inside _ (Nat.le_refl _) h
      refine ⟨ms, ts, leftInside_refl h, fun rest => ?_⟩
      rw [mentionsAt, hkeyword]
      simp only [hcommon]
    | INSERT | UPDATE | DELETE | MERGE => simp [topKeywords, Token.is, hkeyword] at ht
    | _ => exact ⟨[], ts, leftInside_refl h, fun rest => by rw [mentionsAt, hkeyword]⟩

end Readers

/-! ## Mentions of expressions -/

theorem Token.isQuiet_of_isMark {t : Token} {c : Char} (h : t.isMark c = true) :
    t.isQuiet = true := by
  obtain rfl := Token.eq_mark_of_isMark h
  rfl

theorem mentions_append_inside (n level : Nat) {depth : Nat} {ts : List Token} (hn : ts.length ≤ n)
    (h : enclosesReferences depth ts = true) (rest : List Token) :
    mentions (level + depth) (ts ++ rest) =
      mentions (level + depth) ts ++ mentions level rest := by
  induction n generalizing depth ts with
  | zero =>
    obtain rfl := List.eq_nil_of_length_eq_zero (Nat.le_zero.mp hn)
    obtain rfl : depth = 0 := by simpa [enclosesReferences] using h
    simp [mentions]
  | succ n ih =>
    cases ts with
    | nil =>
      obtain rfl : depth = 0 := by simpa [enclosesReferences] using h
      simp [mentions]
    | cons t ts =>
      have hts : ts.length ≤ n := Nat.le_of_succ_le_succ hn
      have htail := h
      unfold enclosesReferences at htail
      rw [Bool.and_eq_true, Bool.not_eq_true'] at htail
      obtain ⟨htop, htail⟩ := htail
      rw [List.cons_append, mentions]
      conv => rhs; rw [mentions]
      split at htail
      · rename_i hopen
        have hdepth : depthAfter (level + depth) t = level + (depth + 1) := by
          simp [depthAfter, hopen, Nat.add_assoc]
        simp only [mentionsAt_of_isQuiet (Token.isQuiet_of_isMark hopen), hdepth]
        exact ih hts htail
      split at htail
      · rename_i hopen hclose
        cases depth with
        | zero => simp at htail
        | succ outer =>
          have hdepth : depthAfter (level + (outer + 1)) t = level + outer := by
            simp [depthAfter, hopen, hclose]
          simp only [mentionsAt_of_isQuiet (Token.isQuiet_of_isMark hclose), hdepth]
          exact ih hts htail
      · rename_i hopen hclose
        have hflat : t.isFlat = true := by simp [Token.isFlat, hopen, hclose]
        obtain ⟨hquiet, htail⟩ := Bool.and_eq_true_iff.mp htail
        rw [depthAfter_of_isFlat hflat]
        cases depth with
        | zero =>
          simp only [mentionsAt_of_isQuiet (t := t) (by simpa using hquiet)]
          exact ih hts htail
        | succ outer =>
          obtain ⟨ms, left, hleft, hread⟩ := mentionsAt_inside
            (balancedFrom_of_enclosesReferences htail) htop (level + (outer + 1))
          have hencloses := enclosesReferences_of_suffix htail hleft.suffix hleft.closes
          have hself := hread []
          rw [List.append_nil, List.append_nil] at hself
          rw [hread, hself, ih (Nat.le_trans hleft.suffix.length_le hts) hencloses,
            List.append_assoc]

/-- Tokens that refer to tables in their parentheses only mention what they mention by
themselves. -/
theorem mentions_append_of_enclosesReferences {ts : List Token}
    (h : enclosesReferences 0 ts = true) (rest : List Token) :
    mentions 0 (ts ++ rest) = mentions 0 ts ++ mentions 0 rest :=
  mentions_append_inside _ 0 (Nat.le_refl _) h rest

theorem mentions_joined {es : List (List Token)} (h : ∀ e ∈ es, enclosesReferences 0 e = true)
    (rest : List Token) :
    mentions 0 ([Token.mark ','].intercalate es ++ rest) =
      es.flatMap (mentions 0) ++ mentions 0 rest := by
  have hcomma : ∀ ts, mentions 0 (.mark ',' :: ts) = mentions 0 ts := mentions_mark 0 rfl
  induction es with
  | nil => rfl
  | cons e es ih =>
    have he := mentions_append_of_enclosesReferences (h e (by simp))
    have htail := ih fun d hd => h d (List.mem_cons_of_mem e hd)
    cases es with
    | nil => simpa [List.intercalate] using he rest
    | cons next es =>
      rw [List.flatMap_cons, joined_cons_cons, List.append_assoc, he, List.cons_append, hcomma,
        htail, List.append_assoc]

end Provenance
