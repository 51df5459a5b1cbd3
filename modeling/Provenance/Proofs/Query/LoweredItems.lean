import Provenance.Proofs.Token.LoweredReaders
import Provenance.Query.Chain
import Provenance.Query.SelectList

/-!
# Select lists in small letters

The select list of a statement in small letters has the items of the statement, in small letters,
with the same aliases and the same chains of names.
-/

namespace Provenance

/-! ## The list -/

@[simp] theorem isQuantifier_lowered (t : Token) : isQuantifier t.lowered = isQuantifier t := by
  simp [isQuantifier]

@[simp] theorem endsList_lowered (t : Token) : endsList t.lowered = endsList t := by
  simp [endsList]

@[simp] theorem awaitsSequence_lowered (before : List Token) :
    awaitsSequence (lowered before) = awaitsSequence before := by
  match before with
  | [] => rfl
  | [t] => rfl
  | t :: u :: before => simp [awaitsSequence]

theorem takeList_lowered (before : List Token) (depth : Nat) (ts : List Token) :
    takeList (lowered before) depth (lowered ts) = lowered (takeList before depth ts) := by
  induction ts generalizing before depth with
  | nil => rfl
  | cons t ts ih =>
    have htail : ∀ depth, takeList (t.lowered :: lowered before) depth (lowered ts) =
        lowered (takeList (t :: before) depth ts) := fun depth => ih (t :: before) depth
    rw [lowered_cons]
    unfold takeList
    rw [Token.lowered_isMark t rfl rfl, Token.lowered_isMark t rfl rfl, endsList_lowered,
      awaitsSequence_lowered]
    split
    · rw [htail, lowered_cons]
    split
    · cases depth with
      | zero => rfl
      | succ outer => simp only [htail, lowered_cons]
    split
    · rfl
    · rw [htail, lowered_cons]

@[simp] theorem selectList_lowered (ts : List Token) :
    selectList (lowered ts) = lowered (selectList ts) := by
  have hquantifier : isQuantifier ∘ Token.lowered = isQuantifier := funext isQuantifier_lowered
  have hbreak := breakOutside_lowered (fun t => t.lowered_is .SELECT) ts
  unfold selectList breakSelect
  rw [hbreak]
  cases (breakOutside (Token.is .SELECT) ts).2 with
  | nil => rfl
  | cons select rest =>
    simp only [List.map_cons, List.dropWhile_map, hquantifier, skipTop_lowered, List.length_map,
      ← List.map_take, ← List.map_reverse]
    exact takeList_lowered ..

@[simp] theorem outputItems_lowered (ts : List Token) :
    outputItems (lowered ts) = (outputItems ts).map lowered := by
  rw [outputItems, selectList_lowered, splitCommas_lowered, outputItems]

/-! ## Items -/

@[simp] theorem beginsWithWords_lowered (words : List String) (ts : List Token) :
    beginsWithWords words (lowered ts) = beginsWithWords words ts := by
  induction words generalizing ts with
  | nil => rfl
  | cons word words ih =>
    cases ts with
    | nil => rfl
    | cons t ts => simp [beginsWithWords, ih]

@[simp] theorem isPhraseWord_lowered (before : List Token) (t : Token) (after : List Token) :
    isPhraseWord (lowered before) t.lowered (lowered after) = isPhraseWord before t after := by
  simp only [isPhraseWord, ← lowered_cons, beginsWithWords_lowered, Token.lowered_spells]

@[simp] theorem unlessEmpty_asciiLower (s : String) :
    unlessEmpty (Text.asciiLower s) = (unlessEmpty s).map Text.asciiLower := by
  rw [unlessEmpty, Text.isEmpty_asciiLower, unlessEmpty]
  split <;> rfl

namespace SelectItem

def lowered (item : SelectItem) : SelectItem :=
  ⟨item.aliasName.map Text.asciiLower, Provenance.lowered item.expr⟩

theorem aliased_lowered (name : Token) (expr : List Token) :
    aliased name.lowered (Provenance.lowered expr) = (aliased name expr).lowered := by
  simp [aliased, lowered]

theorem marked?_lowered (ts : List Token) :
    marked? (Provenance.lowered ts) = (marked? ts).map lowered := by
  match ts with
  | [] => rfl
  | [t] => rfl
  | last :: mark :: front =>
    simp only [List.map_cons, marked?, Token.lowered_is, Token.lowered_isWord,
      Token.lowered_isVariable, ← List.map_reverse, aliased_lowered]
    split <;> rfl

theorem assigned?_lowered (ts : List Token) :
    assigned? (Provenance.lowered ts) = (assigned? ts).map lowered := by
  match ts with
  | [] => rfl
  | [t] => rfl
  | [t, u] => rfl
  | first :: sign :: e :: expr =>
    have hsign : sign.lowered.isMark '=' = sign.isMark '=' := Token.lowered_isMark sign rfl rfl
    have haliased := aliased_lowered first (e :: expr)
    simp only [List.map_cons] at haliased ⊢
    simp only [assigned?, Token.lowered_isPlainName, hsign, haliased]
    split <;> rfl

@[simp] theorem endsExpression_lowered (t : Token) :
    endsExpression t.lowered = endsExpression t := by
  simp [endsExpression]

theorem trailing?_lowered (ts : List Token) :
    trailing? (Provenance.lowered ts) = (trailing? ts).map lowered := by
  match ts with
  | [] => rfl
  | [t] => rfl
  | last :: e :: front =>
    have hphrase : isPhraseWord (Provenance.lowered (e :: front)) last.lowered [] =
        isPhraseWord (e :: front) last [] := isPhraseWord_lowered (e :: front) last []
    have haliased := aliased_lowered last (e :: front).reverse
    simp only [List.map_reverse, List.map_cons] at hphrase haliased ⊢
    simp only [trailing?, Token.lowered_isPlainName, endsExpression_lowered, hphrase, haliased]
    split <;> rfl

@[simp] theorem ofTokens_lowered (ts : List Token) :
    ofTokens (Provenance.lowered ts) = (ofTokens ts).lowered := by
  unfold ofTokens
  rw [← List.map_reverse, marked?_lowered, assigned?_lowered, trailing?_lowered]
  cases marked? ts.reverse <;> cases assigned? ts <;> cases trailing? ts.reverse <;> rfl

end SelectItem

/-! ## Chains of names -/

theorem chainTail_lowered (ts : List Token) :
    chainTail (lowered ts) = Prod.map lowered lowered (chainTail ts) := by
  fun_induction chainTail ts with
  | case1 dot word rest h tail ih =>
    simp only [Bool.and_eq_true] at h
    simp [chainTail, h, ih, tail]
  | case2 dot word rest h =>
    simp only [Bool.and_eq_true] at h
    simp [chainTail, h]
  | case3 ts hts =>
    match ts with
    | [] => rfl
    | [t] => rfl
    | t :: word :: rest => exact absurd rfl (hts t word rest)

namespace Chain

def lowered (c : Chain) : Chain :=
  ⟨Provenance.lowered c.before, c.first.lowered, Provenance.lowered c.rest⟩

variable (c : Chain)

@[simp] theorem further_lowered : c.lowered.further = Provenance.lowered c.further := by
  rw [further, lowered, chainTail_lowered, further]
  rfl

@[simp] theorem after_lowered : c.lowered.after = Provenance.lowered c.after := by
  rw [after, lowered, chainTail_lowered, after]
  rfl

@[simp] theorem passed_lowered : c.lowered.passed = Provenance.lowered c.passed := by
  have hmark : (Token.mark '.').lowered = .mark '.' := rfl
  rw [passed, further_lowered, passed]
  simp [lowered, List.map_flatMap, List.flatMap_map, hmark]

@[simp] theorem bareNames_lowered : c.lowered.bareNames = c.bareNames.map Text.asciiLower := by
  rw [bareNames, further_lowered, bareNames]
  simp [lowered]

theorem any_head?_lowered {p : Token → Bool} (hp : ∀ t : Token, p t.lowered = p t)
    (ts : List Token) : (Provenance.lowered ts).head?.any p = ts.head?.any p := by
  cases ts with
  | nil => rfl
  | cons t ts => exact hp t

theorem excludedBy_lowered (before : List Token) :
    excludedBy (Provenance.lowered before) = excludedBy before := by
  cases before with
  | nil => rfl
  | cons t before =>
    have hfunction : ∀ f : Token, keywordArgumentFunctions.any f.lowered.spells =
        keywordArgumentFunctions.any f.spells := by
      intro f
      simp
    rw [lowered_cons, excludedBy, any_head?_lowered hfunction, excludedBy]
    simp

@[simp] theorem isColumn_lowered : c.lowered.isColumn = c.isColumn := by
  have hcontinued : c.lowered.isContinued = c.isContinued := by
    rw [isContinued, after_lowered, any_head?_lowered (by simp), isContinued]
  have hdollar : c.first.lowered.beginsWith (· == '$') = c.first.beginsWith (· == '$') :=
    Token.lowered_beginsWith_eq c.first rfl rfl
  rw [isColumn, hcontinued, isColumn]
  simp only [lowered, Token.lowered_isVariable, Token.lowered_isNumber, Token.lowered_isReserved,
    hdollar, isPhraseWord_lowered, excludedBy_lowered]

end Chain

theorem chains_lowered (before ts : List Token) :
    chains (lowered before) (lowered ts) = (chains before ts).map Chain.lowered := by
  fun_induction chains before ts with
  | case1 before => simp [chains]
  | case2 before t rest hword chain ih =>
    have hchain : (⟨lowered before, t.lowered, lowered rest⟩ : Chain) = chain.lowered := rfl
    rw [lowered_cons, chains, if_pos (by simpa using hword)]
    simp only [hchain, Chain.passed_lowered, Chain.after_lowered, ih, List.map_cons]
  | case3 before t rest hword ih =>
    rw [lowered_cons, chains, if_neg (by simpa using hword)]
    exact ih

@[simp] theorem isDotted_lowered {isPart : Token → Bool}
    (hpart : ∀ t : Token, isPart t.lowered = isPart t) (ts : List Token) :
    isDotted isPart (lowered ts) = isDotted isPart ts := by
  fun_induction isDotted isPart ts with
  | case1 => rfl
  | case2 t => exact hpart t
  | case3 t dot rest ih => simp [isDotted, hpart, ih]

@[simp] theorem impliedName?_lowered (expr : List Token) :
    impliedName? (lowered expr) = (impliedName? expr).map Text.asciiLower := by
  unfold impliedName?
  rw [List.getLast?_map, isDotted_lowered Token.lowered_isPlainName]
  cases expr.getLast? with
  | none => rfl
  | some last =>
    simp only [Option.map_some, Token.lowered_isWord, Token.lowered_text,
      Identifier.bare_asciiLower, unlessEmpty_asciiLower]
    split <;> rfl

@[simp] theorem wildcardQualifier?_lowered (reversed : List Token) :
    wildcardQualifier? (lowered reversed) = (wildcardQualifier? reversed).map lowered := by
  cases reversed with
  | nil => rfl
  | cons dot front =>
    have hword : Token.isWord ∘ Token.lowered = Token.isWord := funext Token.lowered_isWord
    have hempty : (lowered front).isEmpty = front.isEmpty := by simp
    rw [lowered_cons, wildcardQualifier?, wildcardQualifier?, Token.lowered_isMark dot rfl rfl,
      hempty, ← List.map_reverse, isDotted_lowered Token.lowered_isWord, List.filter_map, hword]
    split <;> rfl

end Provenance
