import Provenance.Proofs.Query.Mentions
import Provenance.Proofs.Token.Groups
import Provenance.Proofs.Token.Words

/-!
# Tokens that readers of tables skip

Reading a table skips its name, its arguments and its alias. Outside arguments the only reference
keywords that are skipped so stand right after a full stop, where they are parts of a name, or
right after `TOP`.
-/

namespace Provenance

/-! ## Reference keywords -/

/-- Kinds of tokens to be accounted for. They are reference keywords in ASCII letters. -/
class Counted (r : Token → Bool) : Prop where
  isReference : ∀ t, r t = true → t.isReference = true
  isAscii : ∀ t, r t = true → t.isAscii = true

instance : Counted fun t => t.isReference && t.isAscii where
  isReference _ h := (Bool.and_eq_true _ _ ▸ h).1
  isAscii _ h := (Bool.and_eq_true _ _ ▸ h).2

instance : Counted fun _ => false where
  isReference _ h := absurd h (by decide)
  isAscii _ h := absurd h (by decide)

section Counted

variable {r : Token → Bool} [Counted r] {t : Token}

theorem not_counted_of_keyword? (h : t.keyword? = none) : r t = false := by
  cases hr : r t with
  | false => rfl
  | true =>
    have hreference := Counted.isReference t hr
    simp [Token.isReference, Token.is, h] at hreference

theorem not_counted_of_is {k : Keyword} (h : t.is k = true)
    (hk : referenceKeywords.contains k = false) : r t = false := by
  have hkeyword : t.keyword? = some k := by simpa [Token.is] using h
  cases hr : r t with
  | false => rfl
  | true =>
    obtain ⟨l, hl, his⟩ := List.any_eq_true.mp (Counted.isReference t hr)
    obtain rfl : k = l := by simpa [Token.is, hkeyword] using his
    rw [List.contains_iff_mem.mpr hl] at hk
    exact absurd hk (by decide)

theorem not_counted_of_isMark {c : Char} (h : t.isMark c = true) : r t = false := by
  obtain rfl := Token.eq_mark_of_isMark h
  exact not_counted_of_keyword? rfl

theorem not_counted_of_isName (h : t.isName = true) : r t = false := by
  cases hr : r t with
  | false => rfl
  | true =>
    have hkeyword := Token.keyword?_of_isName (Counted.isAscii t hr) h
    rw [not_counted_of_keyword? (r := r) hkeyword] at hr
    exact absurd hr (by decide)

theorem not_counted_of_spells {w : String} (h : t.spells w = true)
    (hw : Keyword.ofWord? w = none) : r t = false :=
  not_counted_of_keyword? ((Token.keyword?_of_spells h).trans hw)

end Counted

/-- Whether a token keeps a keyword after it from being one. -/
def hidesKeyword (t : Token) : Bool := t.isMark '.' || t.is .TOP

/-- Whether every token of a list that is counted stands right after one that hides it. The token
before the list is `before`. -/
def isGuarded (r : Token → Bool) (before : Option Token) : List Token → Bool
  | [] => true
  | t :: rest => (!r t || before.any hidesKeyword) && isGuarded r (some t) rest

section Guarded

variable {r : Token → Bool}

theorem isGuarded_of_none {before : Option Token} {ts : List Token}
    (h : isGuarded r none ts = true) : isGuarded r before ts = true := by
  cases ts with
  | nil => rfl
  | cons t ts =>
    simp only [isGuarded, Option.any_none, Bool.or_false, Bool.and_eq_true] at h ⊢
    exact ⟨by simp [h.1], h.2⟩

theorem isGuarded_append {before : Option Token} {ts us : List Token}
    (hts : isGuarded r before ts = true) (hus : isGuarded r none us = true) :
    isGuarded r before (ts ++ us) = true := by
  induction ts generalizing before with
  | nil => exact isGuarded_of_none hus
  | cons t ts ih =>
    simp only [isGuarded, Bool.and_eq_true, List.cons_append] at hts ⊢
    exact ⟨hts.1, ih hts.2⟩

theorem isGuarded_of_forall {before : Option Token} {ts : List Token}
    (h : ∀ t ∈ ts, r t = false) : isGuarded r before ts = true := by
  induction ts generalizing before with
  | nil => rfl
  | cons t ts ih =>
    have ht := h t (by simp)
    have htail : isGuarded r (some t) ts = true := ih fun u hu => h u (List.mem_cons_of_mem t hu)
    simp [isGuarded, ht, htail]

/-- A counted token in a guarded list stands right after a token that hides it. -/
theorem hidesKeyword_of_isGuarded {before : Option Token} {front rest : List Token} {k : Token}
    (h : isGuarded r before (front ++ k :: rest) = true) (hk : r k = true) :
    (front.getLast?.or before).any hidesKeyword = true := by
  induction front generalizing before with
  | nil =>
    simp only [List.nil_append, isGuarded, hk, Bool.and_eq_true] at h
    exact h.1
  | cons t front ih =>
    simp only [List.cons_append, isGuarded, Bool.and_eq_true] at h
    have htail := h.2
    have hlast : (t :: front).getLast?.or before = front.getLast?.or (some t) := by
      rw [List.getLast?_cons]
      cases front.getLast? <;> rfl
    rw [hlast]
    exact ih htail

end Guarded

theorem afterKeyword?_cons {k : Keyword} {ts rest : List Token}
    (h : afterKeyword? k ts = some rest) : ∃ t, ts = t :: rest ∧ t.is k = true := by
  cases ts with
  | nil => simp [afterKeyword?] at h
  | cons t ts =>
    simp only [afterKeyword?, Option.ite_none_right_eq_some, Option.some.injEq] at h
    exact ⟨t, by rw [h.2], h.1⟩

/-! ## Skipping -/

/-- What is left of a list when guarded tokens are skipped. -/
def Skips (r : Token → Bool) (ts rest : List Token) : Prop := ∃ skipped, ts = skipped ++ rest ∧
  isGuarded r none skipped = true

namespace Skips

variable {r : Token → Bool} {ts us rest : List Token}

theorem refl (ts : List Token) : Skips r ts ts := ⟨[], rfl, rfl⟩

theorem trans (h : Skips r ts us) (hrest : Skips r us rest) : Skips r ts rest := by
  obtain ⟨a, rfl, ha⟩ := h
  obtain ⟨b, rfl, hb⟩ := hrest
  exact ⟨a ++ b, (List.append_assoc ..).symm, isGuarded_append ha hb⟩

theorem one {t : Token} (h : r t = false) : Skips r (t :: rest) rest :=
  ⟨[t], rfl, by simp [isGuarded, h]⟩

variable [Counted r]

theorem afterKeyword? {k : Keyword} (hk : referenceKeywords.contains k = false)
    (h : Provenance.afterKeyword? k ts = some rest) : Skips r ts rest := by
  obtain ⟨t, rfl, ht⟩ := afterKeyword?_cons h
  exact one (not_counted_of_is ht hk)

theorem skipKeyword {k : Keyword} (hk : referenceKeywords.contains k = false)
    (ts : List Token) : Skips r ts (Provenance.skipKeyword k ts) := by
  unfold Provenance.skipKeyword
  cases h : Provenance.afterKeyword? k ts with
  | none => exact refl ts
  | some rest => exact afterKeyword? hk h

theorem afterMark? {c : Char} (h : Provenance.afterMark? c ts = some rest) : Skips r ts rest := by
  cases ts with
  | nil => simp [Provenance.afterMark?] at h
  | cons t ts =>
    simp only [Provenance.afterMark?, Option.ite_none_right_eq_some, Option.some.injEq] at h
    obtain ⟨ht, rfl⟩ := h
    exact one (not_counted_of_isMark ht)

theorem dottedParts (ts : List Token) : Skips r ts (Provenance.dottedParts ts).2 := by
  fun_induction Provenance.dottedParts ts with
  | case1 dot part rest h tail ih =>
    simp only [Bool.and_eq_true] at h
    obtain ⟨skipped, hrest, hguarded⟩ := ih
    refine ⟨dot :: part :: skipped, by rw [hrest]; rfl, ?_⟩
    simp [isGuarded, not_counted_of_isMark h.1.1, hidesKeyword, h.1.1, isGuarded_of_none hguarded]
  | case2 => exact refl _
  | case3 => exact refl _

theorem qualifiedName? {parts : List String}
    (h : Provenance.qualifiedName? ts = some (parts, rest)) : Skips r ts rest := by
  cases ts with
  | nil => simp [Provenance.qualifiedName?, identifier?] at h
  | cons t ts =>
    simp only [Provenance.qualifiedName?, identifier?, Option.map_eq_some_iff,
      Option.ite_none_right_eq_some, Option.some.injEq] at h
    obtain ⟨_, ⟨hname, rfl⟩, heq⟩ := h
    obtain ⟨-, rfl⟩ := Prod.mk.inj heq
    exact (one (not_counted_of_isName hname)).trans (dottedParts ts)

theorem aliasName? {name : String} (h : Provenance.aliasName? ts = some (name, rest)) :
    Skips r ts rest := by
  have hplain : ∀ {t}, t.isPlainName = true → r t = false := fun hname =>
    not_counted_of_isName (Token.isName_of_isPlainName hname)
  cases ts with
  | nil => simp [Provenance.aliasName?] at h
  | cons t ts =>
    simp only [Provenance.aliasName?] at h
    split at h
    · rename_i has
      cases ts with
      | nil => simp at h
      | cons u ts =>
        simp only [Option.ite_none_right_eq_some, Option.some.injEq, Prod.mk.injEq] at h
        obtain ⟨hname, -, rfl⟩ := h
        exact (one (not_counted_of_is has (by decide))).trans (one (hplain hname))
    · simp only [Option.ite_none_right_eq_some, Option.some.injEq, Prod.mk.injEq] at h
      obtain ⟨hname, -, rfl⟩ := h
      exact one (hplain hname)

end Skips

/-! ## Groups -/

section Groups

variable {r : Token → Bool} [Counted r]

def groupTokens (ts : List Token) : List Token := ((group? ts).map Prod.fst).getD []

theorem splitGroup_split (depth : Nat) (ts : List Token) :
    ∃ closing, ts = (splitGroup depth ts).1 ++ (closing ++ (splitGroup depth ts).2) ∧
      ∀ t ∈ closing, t.isMark ')' = true := by
  rcases splitGroup_cases depth ts with ⟨inner, left, hts, -, hsplit⟩ | ⟨-, hsplit⟩
  · exact ⟨[.mark ')'], by rw [hsplit, hts]; rfl, by simp [Token.isMark]⟩
  · exact ⟨[], by simp [hsplit], by simp⟩

theorem group?_split {ts inner rest : List Token} (h : group? ts = some (inner, rest)) :
    ∃ t closing, ts = t :: (inner ++ (closing ++ rest)) ∧ t.isMark '(' = true ∧
      ∀ u ∈ closing, u.isMark ')' = true := by
  cases ts with
  | nil => simp [group?] at h
  | cons t ts =>
    simp only [group?, Option.ite_none_right_eq_some, Option.some.injEq] at h
    obtain ⟨closing, hts, hclosing⟩ := splitGroup_split 0 ts
    rw [h.2] at hts
    exact ⟨t, closing, by rw [← hts], h.1, hclosing⟩

theorem Skips.group {ts inner rest : List Token} (h : group? ts = some (inner, rest))
    (hinner : ∀ t ∈ inner, r t = false) : Skips r ts rest := by
  obtain ⟨t, closing, rfl, hopen, hclosing⟩ := group?_split h
  refine ⟨t :: (inner ++ closing), by simp, isGuarded_of_forall ?_⟩
  intro u hu
  rcases List.mem_cons.mp hu with rfl | hu
  · exact not_counted_of_isMark hopen
  rcases List.mem_append.mp hu with hu | hu
  · exact hinner u hu
  · exact not_counted_of_isMark (hclosing u hu)

theorem Skips.skipGroup {ts : List Token} (h : ∀ t ∈ groupTokens ts, r t = false) :
    Skips r ts (Provenance.skipGroup ts) := by
  unfold Provenance.skipGroup
  cases hgroup : group? ts with
  | none => exact refl ts
  | some split => exact group hgroup (by simpa [groupTokens, hgroup] using h)

/-! ## Tables -/

/-- The tokens that are skipped after the name of a table: arguments or a list of columns. -/
def skippedInTable (ts : List Token) : List Token :=
  ((qualifiedName? ts).map fun (_, rest) => groupTokens rest).getD []

def skippedInList (access : Access) (depth : Nat) (ts : List Token) : List Token :=
  match _h : tableUse? access depth ts with
  | none => []
  | some (_, rest) =>
    match _hcomma : afterMark? ',' rest with
    | none => skippedInTable ts
    | some rest => skippedInTable ts ++ skippedInList access depth rest
termination_by ts.length
decreasing_by exact Nat.lt_trans (afterMark?_length _hcomma) (tableUse?_length _h)

def skippedInTop (ts : List Token) : List Token :=
  ((afterKeyword? .TOP ts).map groupTokens).getD []

theorem Skips.tableUse? {access : Access} {depth : Nat} {ts rest : List Token} {use : TableUse}
    (hskipped : ∀ t ∈ skippedInTable ts, r t = false)
    (h : Provenance.tableUse? access depth ts = some (use, rest)) : Skips r ts rest := by
  unfold Provenance.tableUse? at h
  obtain ⟨⟨parts, named⟩, hname, heq⟩ := Option.map_eq_some_iff.mp h
  have hnamed : Skips r ts named := qualifiedName? hname
  have hgroup : Skips r named (Provenance.skipGroup named) :=
    skipGroup (by simpa [skippedInTable, hname] using hskipped)
  have hgrouped := hnamed.trans hgroup
  simp only at heq
  split at heq
  · rename_i name after halias
    obtain ⟨-, rfl⟩ := Prod.mk.inj heq
    exact hgrouped.trans (aliasName? halias)
  · obtain ⟨-, rfl⟩ := Prod.mk.inj heq
    exact hgrouped

theorem Skips.oneTable (access : Access) (depth : Nat) {ts : List Token}
    (hskipped : ∀ t ∈ skippedInTable ts, r t = false) :
    Skips r ts (Provenance.oneTable access depth ts).2 := by
  unfold Provenance.oneTable
  split
  · rename_i h
    exact tableUse? hskipped h
  · exact refl ts

theorem skippedInList_last {access : Access} {depth : Nat} {ts rest : List Token}
    {use : TableUse} (h : tableUse? access depth ts = some (use, rest))
    (hcomma : afterMark? ',' rest = none) : skippedInList access depth ts = skippedInTable ts := by
  rw [skippedInList]
  split
  · rename_i hnone
    rw [h] at hnone
    simp at hnone
  · rename_i use' rest' hsome
    rw [h] at hsome
    obtain ⟨rfl, rfl⟩ := Prod.mk.inj (Option.some.inj hsome)
    split
    · rfl
    · rename_i hmark
      rw [hcomma] at hmark
      simp at hmark

theorem skippedInList_comma {access : Access} {depth : Nat} {ts rest next : List Token}
    {use : TableUse} (h : tableUse? access depth ts = some (use, rest))
    (hcomma : afterMark? ',' rest = some next) :
    skippedInList access depth ts = skippedInTable ts ++ skippedInList access depth next := by
  rw [skippedInList]
  split
  · rename_i hnone
    rw [h] at hnone
    simp at hnone
  · rename_i use' rest' hsome
    rw [h] at hsome
    obtain ⟨rfl, rfl⟩ := Prod.mk.inj (Option.some.inj hsome)
    split
    · rename_i hmark
      rw [hcomma] at hmark
      simp at hmark
    · rename_i next' hmark
      rw [hcomma] at hmark
      obtain rfl := Option.some.inj hmark
      rfl

theorem Skips.tableList {access : Access} {depth : Nat} {ts : List Token}
    (hskipped : ∀ t ∈ skippedInList access depth ts, r t = false) :
    Skips r ts (Provenance.tableList access depth ts).2 := by
  fun_induction Provenance.tableList access depth ts with
  | case1 => exact refl _
  | case2 ts use rest h hcomma =>
    rw [skippedInList_last h hcomma] at hskipped
    exact tableUse? hskipped h
  | case3 ts use rest h next hcomma tail ih =>
    rw [skippedInList_comma h hcomma] at hskipped
    have huse := tableUse? (fun t ht => hskipped t (List.mem_append_left _ ht)) h
    have hnext := huse.trans (afterMark? hcomma)
    exact hnext.trans (ih (fun t ht => hskipped t (List.mem_append_right _ ht)))

/-- A `TOP` clause skips a keyword only if that is its number. -/
theorem Skips.skipTop {ts : List Token} (hskipped : ∀ t ∈ skippedInTop ts, r t = false) :
    Skips r ts (Provenance.skipTop ts) := by
  unfold Provenance.skipTop
  cases htop : Provenance.afterKeyword? .TOP ts with
  | none => exact refl ts
  | some rest =>
    have hcounted : Skips r ts (((group? rest).map Prod.snd).getD (rest.drop 1)) := by
      cases hgroup : group? rest with
      | some split =>
        have hinner : ∀ t ∈ split.1, r t = false := by
          simpa [skippedInTop, htop, groupTokens, hgroup] using hskipped
        exact (afterKeyword? (by decide) htop).trans (group hgroup hinner)
      | none =>
        cases rest with
        | nil => exact afterKeyword? (by decide) htop
        | cons u rest =>
          obtain ⟨t, rfl, ht⟩ := afterKeyword?_cons htop
          refine ⟨[t, u], rfl, ?_⟩
          simp [isGuarded, not_counted_of_is ht (by decide), hidesKeyword, ht]
    have hpercent := hcounted.trans (skipKeyword (k := .PERCENT) (by decide) _)
    simp only
    split
    · rename_i t u after hties
      rw [hties] at hpercent
      split
      · rename_i hwith
        simp only [Bool.and_eq_true] at hwith
        have hties := not_counted_of_spells (r := r) hwith.2 (by decide +kernel)
        exact hpercent.trans ((one (not_counted_of_is hwith.1 (by decide))).trans (one hties))
      · exact hpercent
    · exact hpercent

end Groups

end Provenance
