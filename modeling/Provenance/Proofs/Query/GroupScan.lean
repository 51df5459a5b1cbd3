import Provenance.Proofs.Query.Enclosed
import Provenance.Proofs.Query.MentionDepth

/-!
# Scans of parentheses

What a scan finds in parentheses does not depend on what follows them, and it goes on behind them.
Only a `TOP` clause can pass the parenthesis that closes them, which it takes for its number. The
depth at which the scan stands makes no other difference than the depth of what is mentioned.
-/

namespace Provenance

/-! ## Clauses in parentheses -/

theorem keyword?_of_topKeywords {t : Token} (h : topKeywords.any t.is = true) :
    t.keyword? = some .INSERT ∨ t.keyword? = some .UPDATE ∨ t.keyword? = some .DELETE ∨
      t.keyword? = some .MERGE := by
  simpa [topKeywords, Token.is] using h

section Readers

variable {depth : Nat} {ts : List Token} (h : balancedFrom (depth + 1) ts = true)

include h

theorem skipKeyword_inside (k : Keyword) :
    ∃ left, LeftInside depth ts left ∧ ∀ rest, skipKeyword k (ts ++ rest) = left ++ rest := by
  rcases afterKeyword?_inside h k with hnone | ⟨left, hleft, hread⟩
  · exact ⟨ts, leftInside_refl h, fun rest => by rw [skipKeyword, hnone, Option.getD_none]⟩
  · exact ⟨left, hleft, fun rest => by rw [skipKeyword, hread, Option.getD_some]⟩

theorem rowCount_inside :
    (∃ inner left, LeftInside inner ts left ∧ ∀ rest,
      ((group? (ts ++ rest)).map Prod.snd).getD ((ts ++ rest).drop 1) = left ++ rest) ∨
    ∃ close tail, ts = close :: tail ∧ close.isMark ')' = true ∧ depth = 0 := by
  obtain ⟨t, tail, rfl⟩ := exists_cons_of_balancedFrom h
  cases hopen : t.isMark '(' with
  | true =>
    rcases readsInside_group? h with hnone | ⟨group, left, hleft, hread⟩
    · exact absurd (hnone []) (by simp [group?, hopen])
    · exact .inl ⟨depth, left, hleft, fun rest => by rw [hread]; rfl⟩
  | false =>
    have hgroup : ∀ rest, group? (t :: tail ++ rest) = none := fun rest => by
      simp [group?, hopen]
    have hdrop : ∀ inner, balancedFrom (inner + 1) tail = true →
        ∃ inner left, LeftInside inner (t :: tail) left ∧ ∀ rest,
          ((group? (t :: tail ++ rest)).map Prod.snd).getD ((t :: tail ++ rest).drop 1) =
            left ++ rest := by
      intro inner htail
      exact ⟨inner, tail, ⟨htail, List.suffix_cons t tail⟩, fun rest => by rw [hgroup]; rfl⟩
    cases hclose : t.isMark ')' with
    | true =>
      cases depth with
      | zero => exact .inr ⟨t, tail, rfl, hclose, rfl⟩
      | succ outer =>
        apply Or.inl
        apply hdrop outer
        simpa [balancedFrom, hopen, hclose] using h
    | false =>
      have hflat : t.isFlat = true := by simp [Token.isFlat, hopen, hclose]
      exact .inl (hdrop depth (balancedFrom_of_isFlat h hflat))

theorem skipTies_inside : ∃ left, LeftInside depth ts left ∧ ∀ rest,
    (match ts ++ rest with
      | t :: u :: rest => if t.is .WITH && u.spells "TIES" then rest else t :: u :: rest
      | rest => rest) = left ++ rest := by
  obtain ⟨t, tail, rfl⟩ := exists_cons_of_balancedFrom h
  cases hwith : t.is .WITH with
  | false =>
    refine ⟨t :: tail, leftInside_refl h, fun rest => ?_⟩
    cases hrest : tail ++ rest <;> simp [hrest, hwith]
  | true =>
    have hinside := leftInside_of_isFlat h (Token.isFlat_of_is hwith)
    obtain ⟨u, tail, rfl⟩ := exists_cons_of_balancedFrom hinside.closes
    cases hties : u.spells "TIES" with
    | false =>
      exact ⟨t :: u :: tail, leftInside_refl h, fun rest => by simp [hties]⟩
    | true =>
      have hflat := Token.isFlat_of_isWord (Token.isWord_of_spells hties)
      exact ⟨tail, hinside.trans (leftInside_of_isFlat hinside.closes hflat), fun rest => by
        simp [hwith, hties]⟩

/-- A `TOP` clause ends in parentheses unless it takes the one that closes them for its number. -/
theorem skipTop_inside :
    (∃ inner left, LeftInside inner ts left ∧ ∀ rest, skipTop (ts ++ rest) = left ++ rest) ∨
    ∃ top close tail, ts = top :: close :: tail ∧ top.is .TOP = true ∧
      close.isMark ')' = true ∧ depth = 0 := by
  obtain ⟨top, tail, rfl⟩ := exists_cons_of_balancedFrom h
  cases htop : top.is .TOP with
  | false =>
    refine .inl ⟨depth, top :: tail, leftInside_refl h, fun rest => ?_⟩
    exact skipTop_of_head fun u hu => by
      obtain rfl : top = u := by simpa using hu
      exact htop
  | true =>
    have hinside := leftInside_of_isFlat h (Token.isFlat_of_is htop)
    rcases rowCount_inside hinside.closes with
      ⟨inner, counted, hcounted, hcount⟩ | ⟨close, back, rfl, hclose, hdepth⟩
    · obtain ⟨percent, hpercent, hskip⟩ := skipKeyword_inside hcounted.closes .PERCENT
      obtain ⟨left, hleft, hties⟩ := skipTies_inside hpercent.closes
      have hsuffix := (hpercent.trans hleft).suffix
      refine .inl ⟨inner, left, ⟨hleft.closes, ?_⟩, fun rest => ?_⟩
      · exact hsuffix.trans (hcounted.suffix.trans (List.suffix_cons top tail))
      · have hafter : afterKeyword? .TOP (top :: tail ++ rest) = some (tail ++ rest) := by
          simp [afterKeyword?, htop]
        rw [skipTop, hafter]
        simp only [hcount, hskip]
        exact hties rest
    · exact .inr ⟨top, close, back, rfl, htop, hclose, hdepth⟩

/-- What a keyword in parentheses says about tables it says of what stands in them, unless a `TOP`
clause takes the parenthesis that closes them for its number. -/
theorem mentionsAt_inside_or (t : Token) (level : Nat) :
    (∃ ms inner left, LeftInside inner ts left ∧
      ∀ rest, mentionsAt level t (ts ++ rest) = (ms, left ++ rest)) ∨
    topKeywords.any t.is = true ∧ ∃ top close tail, ts = top :: close :: tail ∧
      top.is .TOP = true ∧ close.isMark ')' = true ∧ depth = 0 := by
  cases hverb : topKeywords.any t.is with
  | false =>
    obtain ⟨ms, left, hleft, hread⟩ := mentionsAt_inside h hverb level
    exact .inl ⟨ms, depth, left, hleft, hread⟩
  | true =>
    rcases skipTop_inside h with ⟨inner, counted, hcounted, hskip⟩ | hclosing
    · have hplain : ∃ ms left, LeftInside inner ts left ∧ ∀ rest,
          oneTable .write level (skipTop (ts ++ rest)) = (ms, left ++ rest) := by
        obtain ⟨ms, left, hleft, hone⟩ := oneTable_inside hcounted.closes .write level
        exact ⟨ms, left, hcounted.trans hleft, fun rest => by rw [hskip, hone]⟩
      have hthrough : ∀ k, ∃ ms left, LeftInside inner ts left ∧ ∀ rest,
          oneTable .write level (skipKeyword k (skipTop (ts ++ rest))) = (ms, left ++ rest) := by
        intro k
        obtain ⟨after, hafter, hkeyword⟩ := skipKeyword_inside hcounted.closes k
        obtain ⟨ms, left, hleft, hone⟩ := oneTable_inside hafter.closes .write level
        exact ⟨ms, left, hcounted.trans (hafter.trans hleft), fun rest => by
          rw [hskip, hkeyword, hone]⟩
      have hat : ∃ ms left, LeftInside inner ts left ∧ ∀ rest,
          mentionsAt level t (ts ++ rest) = (ms, left ++ rest) := by
        rcases keyword?_of_topKeywords hverb with hinsert | hupdate | hdelete | hmerge
        · simpa only [mentionsAt, hinsert] using hthrough .INTO
        · simpa only [mentionsAt, hupdate] using hplain
        · simpa only [mentionsAt, hdelete] using hthrough .FROM
        · simpa only [mentionsAt, hmerge] using hthrough .INTO
      obtain ⟨ms, left, hleft, hread⟩ := hat
      exact .inl ⟨ms, inner, left, hleft, hread⟩
    · exact .inr ⟨rfl, hclosing⟩

end Readers

/-! ## The end of parentheses -/

/-- What a scan has left when it comes to the end of parentheses: the one that closes them, or a
keyword with a `TOP` clause that takes it for its number. -/
inductive IsClosing : List Token → Prop where
  | mark : IsClosing [.mark ')']
  | top {t top : Token} (verb : topKeywords.any t.is = true) (clause : top.is .TOP = true) :
      IsClosing [t, top, .mark ')']

theorem skipTop_close {top : Token} (htop : top.is .TOP = true) {rest : List Token}
    (hrest : endsMention rest = true) : skipTop (top :: .mark ')' :: rest) = rest := by
  rw [endsMention_iff] at hrest
  have hgroup : group? (.mark ')' :: rest) = none := rfl
  have hpercent : skipKeyword .PERCENT rest = rest :=
    skipKeyword_of_head fun u hu => (hrest u hu).2 .PERCENT (by decide)
  have hafter : afterKeyword? .TOP (top :: .mark ')' :: rest) = some (.mark ')' :: rest) := by
    simp [afterKeyword?, htop]
  rw [skipTop, hafter]
  simp only [hgroup, Option.map_none, Option.getD_none, List.drop_one, List.tail_cons, hpercent]
  cases rest with
  | nil => rfl
  | cons t rest =>
    have hwith : t.is .WITH = false := (hrest t rfl).2 .WITH (by decide)
    cases rest <;> simp [hwith]

/-- A scan goes on behind parentheses, if no mention can reach over them. -/
theorem IsClosing.mentions_append {back : List Token} (h : IsClosing back) (level : Nat) :
    ∃ outer, ∀ rest, endsMention rest = true →
      mentions level (back ++ rest) = mentions outer rest := by
  cases h with
  | mark =>
    refine ⟨level - 1, fun rest _ => ?_⟩
    rw [List.singleton_append, mentions, mentionsAt_of_isQuiet rfl]
    rfl
  | @top t top verb clause =>
    refine ⟨level, fun rest hrest => ?_⟩
    have hflat : t.isFlat = true := by
      obtain ⟨k, -, hkeyword⟩ := List.any_eq_true.mp verb
      exact Token.isFlat_of_is hkeyword
    have hskip : skipTop (top :: .mark ')' :: rest) = skipTop rest := by
      rw [skipTop_close clause hrest, skipTop_of_head fun u hu => ?_]
      exact (endsMention_iff.mp hrest u hu).2 .TOP (by decide)
    have hat : mentionsAt level t (top :: .mark ')' :: rest) = ([], rest) := by
      rw [← mentionsAt_of_endsMention level t hrest]
      rcases keyword?_of_topKeywords verb with hkeyword | hkeyword | hkeyword | hkeyword <;>
        simp only [mentionsAt, hkeyword, hskip]
    rw [List.cons_append, List.cons_append, List.singleton_append, mentions, hat,
      depthAfter_of_isFlat hflat]
    rfl

theorem exists_balancedFrom_of_suffix {depth : Nat} {ts left : List Token}
    (h : balancedFrom depth ts = true) (hsuffix : left <:+ ts) :
    ∃ inner, balancedFrom inner left = true := by
  induction ts generalizing depth with
  | nil =>
    obtain rfl := List.suffix_nil.mp hsuffix
    exact ⟨0, rfl⟩
  | cons t ts ih =>
    rcases List.suffix_cons_iff.mp hsuffix with rfl | htail
    · exact ⟨depth, h⟩
    · unfold balancedFrom at h
      split at h
      · exact ih h htail
      split at h
      · cases depth with
        | zero => simp at h
        | succ outer => exact ih h htail
      · exact ih h htail

theorem balancedFrom_append_close {depth : Nat} {ts : List Token}
    (h : balancedFrom depth ts = true) :
    balancedFrom (depth + 1) (ts ++ [.mark ')']) = true := by
  rw [balancedFrom_add_append h]
  decide

theorem IsClosing.mentions_self {back : List Token} (h : IsClosing back) (level : Nat) :
    mentions level back = [] := by
  obtain ⟨outer, hrest⟩ := h.mentions_append level
  have hend := hrest [] rfl
  rwa [List.append_nil, mentions] at hend

/-- A scan that stands at the end of parentheses has found all that they mention. -/
theorem IsClosing.mentions_split {ts : List Token} (h : IsClosing (ts ++ [.mark ')']))
    (level : Nat) :
    ∃ back inner, IsClosing back ∧ ∀ rest, mentions level (ts ++ .mark ')' :: rest) =
      mentions level (ts ++ [.mark ')']) ++ mentions inner (back ++ rest) := by
  refine ⟨ts ++ [.mark ')'], level, h, fun rest => ?_⟩
  rw [h.mentions_self, List.nil_append, List.append_assoc, List.singleton_append]

theorem eq_singleton_of_append_close {ts tail : List Token} {top close : Token}
    (h : isBalanced ts = true) (htop : top.isWord = true) (hclose : close.isMark ')' = true)
    (hsplit : ts ++ [.mark ')'] = top :: close :: tail) : ts = [top] := by
  have hopen := Token.not_isMark_of_isWord htop '('
  have hend := Token.not_isMark_of_isWord htop ')'
  obtain rfl := Token.eq_mark_of_isMark hclose
  cases ts with
  | nil => simp at hsplit
  | cons u ts =>
    obtain ⟨rfl, hback⟩ := List.cons.inj hsplit
    cases ts with
    | nil => rfl
    | cons v ts =>
      obtain ⟨rfl, -⟩ := List.cons.inj hback
      have hnext : (Token.mark ')').isMark '(' = false := rfl
      simp [isBalanced, balancedFrom, hopen, hend, hclose, hnext] at h

/-- A scan finds the same in parentheses whatever follows them. -/
theorem mentions_append_close (n level : Nat) {depth : Nat} {ts : List Token} (hn : ts.length ≤ n)
    (h : balancedFrom depth ts = true) :
    ∃ back inner, IsClosing back ∧ ∀ rest, mentions level (ts ++ .mark ')' :: rest) =
      mentions level (ts ++ [.mark ')']) ++ mentions inner (back ++ rest) := by
  have hempty : IsClosing ([] ++ [.mark ')']) := .mark
  induction n generalizing level depth ts with
  | zero =>
    obtain rfl := List.eq_nil_of_length_eq_zero (Nat.le_zero.mp hn)
    exact hempty.mentions_split level
  | succ n ih =>
    cases ts with
    | nil => exact hempty.mentions_split level
    | cons t ts =>
      obtain ⟨inner, hts⟩ := exists_balancedFrom_of_suffix h (List.suffix_cons t ts)
      have hcons : ∀ rest, mentions level (t :: ts ++ .mark ')' :: rest) =
          (mentionsAt level t (ts ++ [.mark ')'] ++ rest)).1 ++
            mentions (depthAfter level t) (mentionsAt level t (ts ++ [.mark ')'] ++ rest)).2 := by
        intro rest
        rw [List.cons_append, mentions, List.append_assoc, List.singleton_append]
      rcases mentionsAt_inside_or (balancedFrom_append_close hts) t level with
        ⟨ms, outer, left, hleft, hread⟩ | ⟨verb, top, close, tail, hsplit, clause, hclose, rfl⟩
      · -- The scan goes on with a shorter end of the tokens.
        obtain ⟨us, rfl, hsuffix⟩ : ∃ us, left = us ++ [.mark ')'] ∧ us <:+ ts := by
          rcases List.suffix_concat_iff.mp hleft.suffix with rfl | hsuffix
          · exact absurd hleft.closes (by simp [balancedFrom])
          · exact hsuffix
        obtain ⟨depth, hus⟩ := exists_balancedFrom_of_suffix hts hsuffix
        have hlength : us.length ≤ n :=
          Nat.le_trans hsuffix.length_le (Nat.le_of_succ_le_succ hn)
        obtain ⟨back, inner, hback, hrest⟩ := ih (depthAfter level t) hlength hus
        refine ⟨back, inner, hback, fun rest => ?_⟩
        have hself := hcons []
        rw [hread, List.append_nil] at hself
        rw [hcons, hread, hself, List.append_assoc, List.singleton_append, hrest,
          ← List.append_assoc]
      · -- The scan stands at the end.
        obtain rfl := eq_singleton_of_append_close hts (Token.isWord_of_is clause) hclose hsplit
        have hend : IsClosing ([t, top] ++ [.mark ')']) := .top verb clause
        exact hend.mentions_split level

end Provenance
