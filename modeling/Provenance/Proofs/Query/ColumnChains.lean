import Provenance.Proofs.Query.NameChains
import Provenance.Proofs.Token.Depth

/-!
# Columns of parts of an expression

A chain of names is told from a keyword, a type or a table by the tokens next to it. Behind a
keyword that belongs to no phrase the columns are those of what follows alone, and in front of such
a keyword they are those of what it follows.
-/

namespace Provenance

/-! ## Phrases -/

/-- The words of phrases that are not reserved as a whole. -/
def phraseWords : List String :=
  ["AT", "TIME", "ZONE", "COLLATE", "CURRENT", "ROW", "NEXT", "VALUE", "FOR"]

/-- Whether a token is a reserved word that belongs to no phrase, as `SELECT` and `FROM` are. -/
def Token.isSeparate (t : Token) : Bool := t.isReserved && phraseWords.all fun w => !t.spells w

/-- Whether what stands in front of a token makes no difference to the names behind it. -/
def Token.hidesFront (t : Token) : Bool :=
  t.isSeparate && !([Keyword.AS, .FROM, .JOIN, .APPLY].any t.is) &&
    !keywordArgumentFunctions.any t.spells

section Separate

variable {t : Token}

theorem Token.isReserved_of_isSeparate (h : t.isSeparate = true) : t.isReserved = true :=
  (Bool.and_eq_true_iff.mp h).1

theorem Token.not_spells_of_isSeparate (h : t.isSeparate = true) {w : String}
    (hw : w ∈ phraseWords) : t.spells w = false := by
  have hwords := List.all_eq_true.mp (Bool.and_eq_true_iff.mp h).2 w hw
  simpa using hwords

theorem Token.isSeparate_of_spells {w : String} (h : t.spells w = true)
    (hw : (Token.word w).isSeparate = true) : t.isSeparate = true := by
  rw [isSeparate, isReserved_of_spells (isReserved_of_isSeparate hw) h, Bool.true_and,
    List.all_eq_true]
  intro v hv
  have hother : (Token.word w).spells v = false := not_spells_of_isSeparate hw hv
  rw [not_spells_of_spells h hother]
  rfl

theorem Token.hidesFront_of_spells {w : String} (h : t.spells w = true)
    (hw : (Token.word w).hidesFront = true) : t.hidesFront = true := by
  simp only [hidesFront, Bool.and_eq_true, Bool.not_eq_true'] at hw
  obtain ⟨⟨hseparate, hkeyword⟩, hfunction⟩ := hw
  have hkeywords : [Keyword.AS, .FROM, .JOIN, .APPLY].any t.is = false := by
    simp only [is_eq_of_spells h]
    exact hkeyword
  have hfunctions : keywordArgumentFunctions.any t.spells = false := by
    rw [List.any_eq_false] at hfunction ⊢
    intro f hf
    have hother : (Token.word w).spells f = false := by simpa using hfunction f hf
    simpa using not_spells_of_spells h hother
  rw [hidesFront, isSeparate_of_spells h hseparate, hkeywords, hfunctions]
  rfl

theorem beginsWithWords_append_cons {words : List String} (h : ∀ w ∈ words, t.spells w = false)
    (inner rest : List Token) :
    beginsWithWords words (inner ++ t :: rest) = beginsWithWords words inner := by
  induction inner generalizing words with
  | nil => cases words <;> simp_all [beginsWithWords]
  | cons u inner ih =>
    cases words with
    | nil => rfl
    | cons w words =>
      rw [List.cons_append, beginsWithWords, beginsWithWords,
        ih fun v hv => h v (List.mem_cons_of_mem w hv)]

theorem beginsWithWords_append_of_isSeparate (h : t.isSeparate = true) {words : List String}
    (hwords : words ⊆ phraseWords) (inner rest : List Token) :
    beginsWithWords words (inner ++ t :: rest) = beginsWithWords words inner :=
  beginsWithWords_append_cons (fun _ hw => Token.not_spells_of_isSeparate h (hwords hw)) inner rest

end Separate

/-! ## Where a chain ends -/

theorem chainTail_append (ts : List Token) :
    ((chainTail ts).1.flatMap fun t => [.mark '.', t]) ++ (chainTail ts).2 = ts := by
  fun_induction chainTail ts with
  | case1 dot word rest h tail ih =>
    obtain ⟨hdot, -⟩ := Bool.and_eq_true_iff.mp h
    obtain rfl := Token.eq_mark_of_isMark hdot
    simpa [tail] using ih
  | case2 => rfl
  | case3 => rfl

/-- A chain goes on with a word behind it only if it ends in a full stop. -/
theorem chainTail_append_cons {t : Token} (ht : t.isWord = true) {rest : List Token}
    (hrest : chainTail rest = ([], rest)) (ts : List Token) :
    chainTail (ts ++ t :: rest) =
      if (chainTail ts).2 = [.mark '.'] then ((chainTail ts).1 ++ [t], rest)
      else ((chainTail ts).1, (chainTail ts).2 ++ t :: rest) := by
  have hdot : t.isMark '.' = false := Token.not_isMark_of_isWord ht '.'
  fun_induction chainTail ts with
  | case1 dot word ts h tail ih =>
    rw [List.cons_append, List.cons_append, chainTail, if_pos h, ih]
    split <;> rfl
  | case2 dot word ts h => simp [chainTail, h]
  | case3 ts hshort =>
    rcases ts with _ | ⟨u, _ | ⟨v, ts⟩⟩
    · cases rest <;> simp [chainTail, hdot]
    · by_cases hmark : u.isMark '.' = true
      · obtain rfl := Token.eq_mark_of_isMark hmark
        simp [chainTail, hmark, ht, hrest]
      · have hne : u ≠ .mark '.' := by
          rintro rfl
          exact hmark rfl
        simp [chainTail, hmark, hne]
    · exact absurd rfl (hshort u v ts)

/-! ## Columns next to separate words -/

/-- The names of the columns of tokens that stand behind others, which are given latest first. -/
def columnNames (before ts : List Token) : List (List String) :=
  ((chains before ts).filter Chain.isColumn).map Chain.bareNames

theorem Scope.origins_eq (scope : Scope) (expr : List Token) :
    scope.origins expr =
      distinctBy Origin.key ((columnNames [] expr).filterMap scope.origin?) := by
  rw [origins, columnNames, List.filterMap_map]
  rfl

namespace Chain

def columnName (c : Chain) : List (List String) := if c.isColumn then [c.bareNames] else []

theorem columnName_of_isReserved {c : Chain} (h : c.first.isReserved = true) :
    c.columnName = [] := by
  simp [columnName, isColumn, h]

theorem columnName_of_isNumber {c : Chain} (h : c.first.isNumber = true) : c.columnName = [] := by
  simp [columnName, isColumn, h]

end Chain

theorem columnNames_nil (before : List Token) : columnNames before [] = [] := by
  simp [columnNames, chains]

theorem columnNames_of_isMark {t : Token} (h : t.isWord = false) (before rest : List Token) :
    columnNames before (t :: rest) = columnNames (t :: before) rest := by
  simp [columnNames, chains, h]

theorem columnNames_of_isWord {t : Token} (h : t.isWord = true) (before rest : List Token) :
    columnNames before (t :: rest) =
      (Chain.mk before t rest).columnName ++
        columnNames (Chain.mk before t rest).passed (Chain.mk before t rest).after := by
  rw [columnNames, chains, if_pos h, Chain.columnName]
  by_cases hcolumn : (Chain.mk before t rest).isColumn = true
  · simp [hcolumn, columnNames]
  · simp [hcolumn, columnNames]

theorem columnNames_of_isReserved {t : Token} (h : t.isReserved = true) {rest : List Token}
    (hrest : chainTail rest = ([], rest)) (before : List Token) :
    columnNames before (t :: rest) = columnNames (t :: before) rest := by
  have hpassed : (Chain.mk before t rest).passed = t :: before := by
    simp [Chain.passed, Chain.further, hrest]
  have hafter : (Chain.mk before t rest).after = rest := by
    simp [Chain.after, hrest]
  rw [columnNames_of_isWord (Token.isWord_of_isReserved h), Chain.columnName_of_isReserved h,
    hpassed, hafter, List.nil_append]

section Front

variable {t : Token}

theorem isPhraseWord_append_cons (h : t.isSeparate = true) (inner before : List Token) (u : Token)
    (after : List Token) :
    isPhraseWord (inner ++ t :: before) u after = isPhraseWord inner u after := by
  have hwords : ∀ words : List String, words ⊆ phraseWords →
      beginsWithWords words (inner ++ t :: before) = beginsWithWords words inner :=
    fun words hsubset => beginsWithWords_append_of_isSeparate h hsubset inner before
  simp only [isPhraseWord, hwords ["AT"] (by decide), hwords ["TIME", "AT"] (by decide),
    hwords ["COLLATE"] (by decide), hwords ["CURRENT"] (by decide), hwords ["NEXT"] (by decide),
    hwords ["FOR", "VALUE", "NEXT"] (by decide)]

theorem Chain.excludedBy_append_cons (h : t.hidesFront = true) (inner before : List Token) :
    Chain.excludedBy (inner ++ t :: before) = Chain.excludedBy inner := by
  simp only [Token.hidesFront, Bool.and_eq_true, Bool.not_eq_true', List.any_cons, List.any_nil,
    Bool.or_false, Bool.or_eq_false_iff] at h
  obtain ⟨⟨hseparate, has, hfrom, hjoin, happly⟩, hfunction⟩ := h
  have hword := Token.isWord_of_isReserved (Token.isReserved_of_isSeparate hseparate)
  have hopen : t.isMark '(' = false := Token.not_isMark_of_isWord hword '('
  match inner with
  | [] => simp [excludedBy, has, hfrom, hjoin, happly, hopen]
  | [u] => simp [excludedBy, hfunction]
  | u :: v :: inner => rfl

/-- Columns stay the same whatever stands in front of a word that hides it. -/
theorem columnNames_append_front (h : t.hidesFront = true) (inner before ts : List Token) :
    columnNames (inner ++ t :: before) ts = columnNames inner ts := by
  have hseparate : t.isSeparate = true := by
    simp only [Token.hidesFront, Bool.and_eq_true] at h
    exact h.1.1
  fun_induction chains inner ts with
  | case1 inner => rw [columnNames_nil, columnNames_nil]
  | case2 inner u rest hword chain ih =>
    have hname : (Chain.mk (inner ++ t :: before) u rest).columnName = chain.columnName := by
      have hcolumn : (Chain.mk (inner ++ t :: before) u rest).isColumn = chain.isColumn := by
        simp only [Chain.isColumn, isPhraseWord_append_cons hseparate,
          Chain.excludedBy_append_cons h, chain]
        rfl
      rw [Chain.columnName, Chain.columnName, hcolumn]
      rfl
    have hpassed : (Chain.mk (inner ++ t :: before) u rest).passed =
        chain.passed ++ t :: before := (List.append_assoc _ _ _).symm
    rw [columnNames_of_isWord hword, columnNames_of_isWord hword, hname, hpassed]
    exact congrArg (chain.columnName ++ ·) ih
  | case3 inner u rest hword ih =>
    have hmark : u.isWord = false := by simpa using hword
    rw [columnNames_of_isMark hmark, columnNames_of_isMark hmark]
    exact ih

/-- Whether tokens begin with no full stop but that of a number. -/
def beginsWhole : List Token → Bool
  | dot :: n :: _ => !dot.isMark '.' || n.isNumber
  | ts => ts.head?.all fun t => !t.isMark '.'

theorem beginsWhole_append {ts : List Token} (h : beginsWhole ts = true)
    (ht : t.isMark '.' = false) (rest : List Token) : beginsWhole (ts ++ t :: rest) = true := by
  match ts with
  | [] => cases rest <;> simp [beginsWhole, ht]
  | [u] =>
    have hu : u.isMark '.' = false := by simpa [beginsWhole] using h
    simp [beginsWhole, hu]
  | dot :: n :: ts => exact h

theorem columnNames_cons_of_hidesFront (h : t.hidesFront = true) {ts : List Token}
    (hts : beginsWhole ts = true) (before : List Token) :
    columnNames before (t :: ts) = columnNames [] ts := by
  have hreserved : t.isReserved = true := by
    simp only [Token.hidesFront, Bool.and_eq_true] at h
    exact Token.isReserved_of_isSeparate h.1.1
  by_cases hnone : chainTail ts = ([], ts)
  · rw [columnNames_of_isReserved hreserved hnone]
    exact columnNames_append_front h [] before ts
  · -- The word takes a number behind a full stop to itself, which is no column either.
    match ts with
    | [] => exact absurd rfl hnone
    | [u] => exact absurd rfl hnone
    | dot :: n :: us =>
      have hchain : (dot.isMark '.' && n.isWord) = true := by
        cases hjoins : dot.isMark '.' && n.isWord with
        | true => rfl
        | false => exact absurd (by simp [chainTail, hjoins]) hnone
      obtain ⟨hdot, hword⟩ := Bool.and_eq_true_iff.mp hchain
      obtain rfl := Token.eq_mark_of_isMark hdot
      have hnumber : n.isNumber = true := by simpa [beginsWhole, hdot] using hts
      have htail : chainTail (.mark '.' :: n :: us) =
          (n :: (chainTail us).1, (chainTail us).2) := by
        rw [chainTail, if_pos hchain]
      have hpassed : (Chain.mk before t (.mark '.' :: n :: us)).passed =
          (Chain.mk [.mark '.'] n us).passed ++ t :: before := by
        simp [Chain.passed, Chain.further, htail]
      have hafter : (Chain.mk before t (.mark '.' :: n :: us)).after =
          (Chain.mk [.mark '.'] n us).after := by
        rw [Chain.after, htail, Chain.after]
      have hfirst : (Chain.mk [.mark '.'] n us).columnName = [] :=
        Chain.columnName_of_isNumber hnumber
      rw [columnNames_of_isWord (Token.isWord_of_isReserved hreserved),
        Chain.columnName_of_isReserved hreserved, hpassed, hafter, columnNames_append_front h,
        columnNames_of_isMark rfl, columnNames_of_isWord hword, hfirst]

end Front

/-- Whether tokens, given latest first, end in no full stop but that of a number that begins a
chain. -/
def endsWhole : List Token → Bool
  | dot :: n :: before => !dot.isMark '.' || n.isNumber && before.head?.all fun t => !t.isMark '.'
  | _ => true

section Back

variable {t : Token} {rest : List Token}

theorem Chain.isNumber_of_endsWhole {c : Chain} (hafter : c.after = [.mark '.'])
    (h : endsWhole (c.after.reverse ++ c.passed) = true) :
    c.further = [] ∧ c.first.isNumber = true := by
  have hdot : (Token.mark '.').isMark '.' = true := rfl
  rcases List.eq_nil_or_concat c.further with hfurther | ⟨front, last, hfurther⟩
  · refine ⟨hfurther, ?_⟩
    simp [hafter, passed, hfurther, endsWhole, hdot] at h
    exact h.1
  · simp [hafter, passed, hfurther, endsWhole, hdot] at h

theorem Chain.chainTail_append_of_ne (ht : t.isWord = true) (hrest : chainTail rest = ([], rest))
    {c : Chain} (hafter : c.after ≠ [.mark '.']) :
    chainTail (c.rest ++ t :: rest) = (c.further, c.after ++ t :: rest) := by
  have hopen : (chainTail c.rest).2 ≠ [.mark '.'] := hafter
  rw [chainTail_append_cons ht hrest, if_neg hopen]
  rfl

theorem Chain.chainTail_append_of_eq (ht : t.isWord = true) (hrest : chainTail rest = ([], rest))
    {c : Chain} (hafter : c.after = [.mark '.']) :
    chainTail (c.rest ++ t :: rest) = (c.further ++ [t], rest) := by
  have hdot : (chainTail c.rest).2 = [.mark '.'] := hafter
  rw [chainTail_append_cons ht hrest, if_pos hdot]
  rfl

theorem Chain.columnName_append_cons (h : t.isSeparate = true) (hrest : chainTail rest = ([], rest))
    (c : Chain) (hafter : c.after ≠ [.mark '.']) :
    (Chain.mk c.before c.first (c.rest ++ t :: rest)).columnName = c.columnName := by
  have hword := Token.isWord_of_isReserved (Token.isReserved_of_isSeparate h)
  have htail := chainTail_append_of_ne hword hrest hafter
  have hcontinued : (Chain.mk c.before c.first (c.rest ++ t :: rest)).isContinued =
      c.isContinued := by
    have hopen := Token.not_isMark_of_isWord hword '('
    have hdot := Token.not_isMark_of_isWord hword '.'
    rw [isContinued, isContinued, after, htail]
    cases c.after with
    | nil => simp [hopen, hdot]
    | cons u after => rfl
  have hwords : ∀ words : List String, words ⊆ phraseWords →
      beginsWithWords words (c.first :: (c.rest ++ t :: rest)) =
        beginsWithWords words (c.first :: c.rest) :=
    fun words hsubset => beginsWithWords_append_of_isSeparate h hsubset (c.first :: c.rest) rest
  have hphrase : isPhraseWord c.before c.first (c.rest ++ t :: rest) =
      isPhraseWord c.before c.first c.rest := by
    simp only [isPhraseWord, hwords ["AT", "TIME", "ZONE"] (by decide),
      hwords ["TIME", "ZONE"] (by decide), hwords ["NEXT", "VALUE", "FOR"] (by decide),
      hwords ["VALUE", "FOR"] (by decide)]
  have hcolumn : (Chain.mk c.before c.first (c.rest ++ t :: rest)).isColumn = c.isColumn := by
    simp only [isColumn, hcontinued, hphrase]
  have hnames : (Chain.mk c.before c.first (c.rest ++ t :: rest)).bareNames = c.bareNames := by
    rw [bareNames, further, htail, bareNames]
  rw [columnName, columnName, hcolumn, hnames]

/-- The columns of tokens stay the same in front of a separate word. -/
theorem columnNames_append_back (h : t.isSeparate = true) (hrest : chainTail rest = ([], rest))
    {before ts : List Token} (hends : endsWhole (ts.reverse ++ before) = true) :
    columnNames before (ts ++ t :: rest) =
      columnNames before ts ++ columnNames (t :: (ts.reverse ++ before)) rest := by
  have hreserved := Token.isReserved_of_isSeparate h
  have hword := Token.isWord_of_isReserved hreserved
  fun_induction chains before ts with
  | case1 before =>
    rw [columnNames_nil]
    exact columnNames_of_isReserved hreserved hrest before
  | case2 before u ts hu c ih =>
    have hts : (c.further.flatMap fun t => [.mark '.', t]) ++ c.after = ts := chainTail_append ts
    have hpassed : (u :: ts).reverse ++ before = c.after.reverse ++ c.passed := by
      rw [← hts, Chain.passed]
      simp [c]
    have hown : columnNames before (u :: ts) = c.columnName ++ columnNames c.passed c.after :=
      columnNames_of_isWord hu before ts
    rw [hpassed] at hends ⊢
    rw [List.cons_append, columnNames_of_isWord hu, hown]
    by_cases hdot : c.after = [.mark '.']
    · -- The chain of a number goes on with the word and stays no column.
      obtain ⟨hfurther, hnumber⟩ := Chain.isNumber_of_endsWhole hdot hends
      have hnext : chainTail (ts ++ t :: rest) = ([t], rest) := by
        have htail := Chain.chainTail_append_of_eq hword hrest hdot
        rwa [hfurther] at htail
      have hnone : columnNames c.passed c.after = [] := by
        rw [hdot, columnNames_of_isMark rfl, columnNames_nil]
      have hjoined : (Chain.mk before u (ts ++ t :: rest)).passed =
          t :: (c.after.reverse ++ c.passed) := by
        rw [hdot, Chain.passed, Chain.further, hnext, Chain.passed, hfurther]
        rfl
      have hafter : (Chain.mk before u (ts ++ t :: rest)).after = rest := by
        rw [Chain.after, hnext]
      have hnumbered : (Chain.mk before u (ts ++ t :: rest)).columnName = [] :=
        Chain.columnName_of_isNumber hnumber
      rw [hnumbered, Chain.columnName_of_isNumber hnumber, hnone, hjoined, hafter]
      rfl
    · have hname := Chain.columnName_append_cons h hrest c hdot
      have hnext := Chain.chainTail_append_of_ne hword hrest hdot
      have hjoined : (Chain.mk before u (ts ++ t :: rest)).passed = c.passed := by
        rw [Chain.passed, Chain.further, hnext, Chain.passed]
      have hafter : (Chain.mk before u (ts ++ t :: rest)).after = c.after ++ t :: rest := by
        rw [Chain.after, hnext]
      rw [hname, hjoined, hafter, ih hends, List.append_assoc]
  | case3 before u ts hu ih =>
    have hmark : u.isWord = false := by simpa using hu
    rw [List.cons_append, columnNames_of_isMark hmark, columnNames_of_isMark hmark]
    have hback : (u :: ts).reverse ++ before = ts.reverse ++ u :: before := by simp
    rw [hback] at hends ⊢
    exact ih hends

end Back

end Provenance
