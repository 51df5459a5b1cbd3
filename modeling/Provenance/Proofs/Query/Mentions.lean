import Provenance.Proofs.Token.Depth
import Provenance.Query.Mention

/-!
# Tokens that mention nothing

Tables are mentioned after a reference keyword, and common table expressions after `WITH`. Tokens
without such keywords and without parentheses are passed over.
-/

namespace Provenance

/-- The keywords after which a statement names a table. -/
def referenceKeywords : List Keyword :=
  [.FROM, .JOIN, .APPLY, .USING, .INTO, .INSERT, .UPDATE, .DELETE, .MERGE]

def Token.isReference (t : Token) : Bool := referenceKeywords.any t.is

/-- Whether a token introduces neither a table nor a common table expression. -/
def Token.isQuiet (t : Token) : Bool := !t.isReference && !t.is .WITH

theorem mentionsAt_of_isQuiet {t : Token} (h : t.isQuiet = true) (depth : Nat)
    (rest : List Token) : mentionsAt depth t rest = ([], rest) := by
  unfold Token.isQuiet Token.isReference at h
  unfold mentionsAt
  split <;> simp_all [Token.is, referenceKeywords]

theorem depthAfter_of_isFlat {t : Token} (h : t.isFlat = true) (depth : Nat) :
    depthAfter depth t = depth := by
  simp only [Token.isFlat, Bool.and_eq_true, Bool.not_eq_true'] at h
  simp [depthAfter, h.1, h.2]

theorem mentions_append {depth : Nat} {ts : List Token}
    (hts : ∀ t ∈ ts, t.isQuiet = true ∧ t.isFlat = true) (rest : List Token) :
    mentions depth (ts ++ rest) = mentions depth rest := by
  induction ts with
  | nil => rfl
  | cons t ts ih =>
    have ht := hts t (by simp)
    have htail := ih fun u hu => hts u (List.mem_cons_of_mem t hu)
    rw [List.cons_append, mentions, mentionsAt_of_isQuiet ht.1, depthAfter_of_isFlat ht.2, htail]
    rfl

/-- Quiet tokens that close the parentheses open before them, and all that they open, are passed
over. -/
theorem mentions_append_of_balancedFrom (level : Nat) {depth : Nat} {ts : List Token}
    (hquiet : ∀ t ∈ ts, t.isQuiet = true) (h : balancedFrom depth ts = true) (rest : List Token) :
    mentions (level + depth) (ts ++ rest) = mentions level rest := by
  induction ts generalizing depth with
  | nil =>
    obtain rfl : depth = 0 := by simpa [balancedFrom] using h
    rfl
  | cons t ts ih =>
    have htail := fun u hu => hquiet u (List.mem_cons_of_mem t hu)
    rw [List.cons_append, mentions, mentionsAt_of_isQuiet (hquiet t (by simp)), List.nil_append]
    unfold balancedFrom at h
    unfold depthAfter
    split at h
    · rename_i hopen
      rw [if_pos hopen]
      exact ih htail h
    split at h
    · rename_i hopen hclose
      rw [if_neg hopen, if_pos hclose]
      cases depth with
      | zero => simp at h
      | succ outer => exact ih htail h
    · rename_i hopen hclose
      rw [if_neg hopen, if_neg hclose]
      exact ih htail h

theorem mentions_append_of_isBalanced (level : Nat) {ts : List Token}
    (hquiet : ∀ t ∈ ts, t.isQuiet = true) (h : isBalanced ts = true) (rest : List Token) :
    mentions level (ts ++ rest) = mentions level rest :=
  mentions_append_of_balancedFrom level hquiet h rest

/-! ## Lists of tables -/

theorem tableList_eq (access : Access) (depth : Nat) (ts : List Token) :
    tableList access depth ts =
      match tableUse? access depth ts with
      | none => ([], ts)
      | some (use, rest) =>
        match afterMark? ',' rest with
        | none => ([.table use], rest)
        | some next =>
          (.table use :: (tableList access depth next).1, (tableList access depth next).2) := by
  rw [tableList]
  cases tableUse? access depth ts with
  | none => rfl
  | some found =>
    obtain ⟨use, rest⟩ := found
    simp only
    cases afterMark? ',' rest <;> rfl

theorem commonTables_eq (ts : List Token) : commonTables ts =
    match identifier? ts with
    | none => []
    | some (name, rest) =>
      match afterKeyword? .AS (skipGroup rest) with
      | none => []
      | some body =>
        match group? body with
        | none => []
        | some _ =>
          .commonTable (Identifier.bare name) ::
            match afterMark? ',' (skipGroup body) with
            | none => []
            | some next => commonTables next := by
  rw [commonTables]
  cases identifier? ts with
  | none => rfl
  | some found =>
    obtain ⟨name, rest⟩ := found
    simp only
    cases afterKeyword? .AS (skipGroup rest) with
    | none => rfl
    | some body =>
      simp only
      cases group? body with
      | none => rfl
      | some found => cases afterMark? ',' (skipGroup body) <;> rfl

/-! ## Words before the end of a mention -/

/-- The keywords that may stand between a keyword and the table that it refers to. -/
def leadKeywords : List Keyword := [.TOP, .PERCENT, .WITH, .INTO, .FROM]

/-- Whether tokens begin with none to which a keyword in front of them can refer. -/
def endsMention (ts : List Token) : Bool :=
  ts.head?.all fun t => !t.isName && !leadKeywords.any t.is

theorem endsMention_iff {ts : List Token} : endsMention ts = true ↔
    ∀ t ∈ ts.head?, t.isName = false ∧ ∀ k ∈ leadKeywords, t.is k = false := by
  simp [endsMention, Option.all_eq_true]

theorem skipTop_of_head {ts : List Token} (h : ∀ t ∈ ts.head?, t.is .TOP = false) :
    skipTop ts = ts := by
  cases ts with
  | nil => rfl
  | cons t ts => simp [skipTop, afterKeyword?, h t rfl]

theorem skipKeyword_of_head {k : Keyword} {ts : List Token}
    (h : ∀ t ∈ ts.head?, t.is k = false) : skipKeyword k ts = ts := by
  cases ts with
  | nil => rfl
  | cons t ts => simp [skipKeyword, afterKeyword?, h t rfl]

theorem mentionsAt_of_endsMention (level : Nat) (t : Token) {rest : List Token}
    (h : endsMention rest = true) : mentionsAt level t rest = ([], rest) := by
  rw [endsMention_iff] at h
  have hidentifier : identifier? rest = none := by
    cases rest with
    | nil => rfl
    | cons u rest => simp [identifier?, (h u rfl).1]
  have hname : qualifiedName? rest = none := by rw [qualifiedName?, hidentifier, Option.map_none]
  have htable : ∀ access, oneTable access level rest = ([], rest) := by
    intro access
    rw [oneTable, tableUse?, hname, Option.map_none]
  have htables : tableList .read level rest = ([], rest) := by
    rw [tableList_eq, tableUse?, hname, Option.map_none]
  have hcommon : commonTables rest = [] := by rw [commonTables_eq, hidentifier]
  have hskip : ∀ k ∈ leadKeywords, skipKeyword k rest = rest := fun k hk =>
    skipKeyword_of_head fun u hu => (h u hu).2 k hk
  have htop : skipTop rest = rest := skipTop_of_head fun u hu => (h u hu).2 .TOP (by decide)
  have hinto : skipKeyword .INTO rest = rest := hskip .INTO (by decide)
  have hfrom : skipKeyword .FROM rest = rest := hskip .FROM (by decide)
  unfold mentionsAt
  split <;> simp only [htable, htables, hcommon, htop, hinto, hfrom]

theorem mentions_cons_of_endsMention (level : Nat) {t : Token} (ht : t.isWord = true)
    {rest : List Token} (h : endsMention rest = true) :
    mentions level (t :: rest) = mentions level rest := by
  rw [mentions, mentionsAt_of_endsMention level t h,
    depthAfter_of_isFlat (Token.isFlat_of_isWord ht)]
  rfl

theorem mentions_cons_mark (level : Nat) {t : Token} (ht : t.isWord = true) (c : Char)
    (rest : List Token) :
    mentions level (t :: .mark c :: rest) = mentions level (.mark c :: rest) :=
  mentions_cons_of_endsMention level ht rfl

theorem mentions_mark (level : Nat) {c : Char} (hc : (Token.mark c).isFlat = true)
    (rest : List Token) : mentions level (.mark c :: rest) = mentions level rest := by
  rw [mentions, mentionsAt_of_isQuiet rfl, depthAfter_of_isFlat hc]
  rfl

theorem mentions_dotted (level : Nat) {first : Token} {parts : List Token}
    (hwords : ∀ t ∈ first :: parts, t.isWord = true) {rest : List Token}
    (hrest : endsMention rest = true) :
    mentions level (first :: (parts.flatMap fun t => [.mark '.', t]) ++ rest) =
      mentions level rest := by
  have hfirst := hwords first (by simp)
  induction parts generalizing first with
  | nil => exact mentions_cons_of_endsMention level hfirst hrest
  | cons part parts ih =>
    have htail := ih (fun t ht => hwords t (List.mem_cons_of_mem first ht)) (hwords part (by simp))
    rw [List.flatMap_cons]
    simp only [List.cons_append, List.nil_append] at htail ⊢
    rw [mentions_cons_mark level hfirst, mentions_mark level rfl, htail]

theorem mentions_open (level : Nat) (rest : List Token) :
    mentions level (.mark '(' :: rest) = mentions (level + 1) rest := by
  rw [mentions, mentionsAt_of_isQuiet rfl]
  rfl

theorem mentions_close (level : Nat) (rest : List Token) :
    mentions (level + 1) (.mark ')' :: rest) = mentions level rest := by
  rw [mentions, mentionsAt_of_isQuiet rfl]
  rfl

end Provenance
