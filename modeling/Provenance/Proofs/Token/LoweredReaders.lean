import Provenance.Identifier
import Provenance.Proofs.Token.Lowered
import Provenance.Token.Reader
import Provenance.Token.Render

/-!
# Reading tokens in small letters

Every reader takes the same tokens from a list and from the list in small letters, and finds what
it finds in small letters.
-/

namespace Provenance

abbrev lowered (ts : List Token) : List Token := ts.map Token.lowered

theorem lowered_cons (t : Token) (ts : List Token) :
    lowered (t :: ts) = t.lowered :: lowered ts := rfl

/-! ## Parentheses -/

theorem breakAt_lowered {stop : Token → Bool} (hstop : ∀ t : Token, stop t.lowered = stop t)
    (depth : Int) (ts : List Token) :
    breakAt stop depth (lowered ts) =
      (lowered (breakAt stop depth ts).1, lowered (breakAt stop depth ts).2) := by
  induction ts generalizing depth with
  | nil => rfl
  | cons t ts ih =>
    rw [lowered_cons, breakAt, breakAt, hstop, Token.lowered_nesting, ih]
    split <;> rfl

theorem breakOutside_lowered {stop : Token → Bool} (hstop : ∀ t : Token, stop t.lowered = stop t)
    (ts : List Token) :
    breakOutside stop (lowered ts) =
      (lowered (breakOutside stop ts).1, lowered (breakOutside stop ts).2) :=
  breakAt_lowered hstop 0 ts

theorem splitGroup_lowered (depth : Nat) (ts : List Token) :
    splitGroup depth (lowered ts) =
      (lowered (splitGroup depth ts).1, lowered (splitGroup depth ts).2) := by
  fun_induction splitGroup depth ts with
  | case1 => rfl
  | case2 depth t rest hopen tail ih => simp [splitGroup, hopen, ih, tail]
  | case3 t rest hopen hclose => simp [splitGroup, hopen, hclose]
  | case4 t rest hopen hclose outer tail ih => simp [splitGroup, hopen, hclose, ih, tail]
  | case5 depth t rest hopen hclose tail ih => simp [splitGroup, hopen, hclose, ih, tail]

@[simp] theorem group?_lowered (ts : List Token) :
    group? (lowered ts) = (group? ts).map (Prod.map lowered lowered) := by
  cases ts with
  | nil => rfl
  | cons t ts =>
    rw [lowered_cons, group?, group?, splitGroup_lowered, Token.lowered_isMark t rfl rfl]
    split <;> rfl

@[simp] theorem skipGroup_lowered (ts : List Token) :
    skipGroup (lowered ts) = lowered (skipGroup ts) := by
  rw [skipGroup, group?_lowered, skipGroup]
  cases group? ts <;> rfl

theorem piecesFrom_lowered (depth : Int) (ts : List Token) :
    piecesFrom depth (lowered ts) =
      (lowered (piecesFrom depth ts).1, (piecesFrom depth ts).2.map lowered) := by
  induction ts generalizing depth with
  | nil => rfl
  | cons t ts ih =>
    rw [lowered_cons, piecesFrom, piecesFrom, Token.lowered_isMark t rfl rfl,
      Token.lowered_nesting, ih, ih]
    split <;> rfl

@[simp] theorem splitCommas_lowered (ts : List Token) :
    splitCommas (lowered ts) = (splitCommas ts).map lowered := by
  have hempty : (fun piece : List Token => !piece.isEmpty) ∘ lowered =
      fun piece => !piece.isEmpty := by
    funext piece
    simp
  simp only [splitCommas, piecesFrom_lowered]
  rw [← List.map_cons, List.filter_map, hempty]

/-! ## Names and clauses -/

@[simp] theorem afterKeyword?_lowered (k : Keyword) (ts : List Token) :
    afterKeyword? k (lowered ts) = (afterKeyword? k ts).map lowered := by
  cases ts with
  | nil => rfl
  | cons t ts =>
    rw [lowered_cons, afterKeyword?, afterKeyword?, Token.lowered_is]
    split <;> rfl

@[simp] theorem skipKeyword_lowered (k : Keyword) (ts : List Token) :
    skipKeyword k (lowered ts) = lowered (skipKeyword k ts) := by
  rw [skipKeyword, afterKeyword?_lowered, skipKeyword]
  cases afterKeyword? k ts <;> rfl

@[simp] theorem afterComma?_lowered (ts : List Token) :
    afterMark? ',' (lowered ts) = (afterMark? ',' ts).map lowered := by
  cases ts with
  | nil => rfl
  | cons t ts =>
    rw [lowered_cons, afterMark?, afterMark?, Token.lowered_isMark t rfl rfl]
    split <;> rfl

@[simp] theorem identifier?_lowered (ts : List Token) :
    identifier? (lowered ts) = (identifier? ts).map (Prod.map Text.asciiLower lowered) := by
  cases ts with
  | nil => rfl
  | cons t ts =>
    rw [lowered_cons, identifier?, identifier?, Token.lowered_isName, Token.lowered_text]
    split <;> rfl

@[simp] theorem dottedParts_lowered (ts : List Token) :
    dottedParts (lowered ts) = Prod.map (List.map Text.asciiLower) lowered (dottedParts ts) := by
  fun_induction dottedParts ts with
  | case1 t part rest h tail ih =>
    simp only [Bool.and_eq_true, Bool.not_eq_true'] at h
    simp [dottedParts, h, ih, tail]
  | case2 t part rest h =>
    simp only [Bool.and_eq_true, Bool.not_eq_true'] at h
    simp [dottedParts, h]
  | case3 ts hts =>
    match ts with
    | [] => rfl
    | [t] => rfl
    | t :: part :: rest => exact absurd rfl (hts t part rest)

@[simp] theorem qualifiedName?_lowered (ts : List Token) :
    qualifiedName? (lowered ts) =
      (qualifiedName? ts).map (Prod.map (List.map Text.asciiLower) lowered) := by
  rw [qualifiedName?, identifier?_lowered, qualifiedName?]
  cases identifier? ts with
  | none => rfl
  | some found => simp [Prod.map]

@[simp] theorem skipTop_lowered (ts : List Token) :
    skipTop (lowered ts) = lowered (skipTop ts) := by
  unfold skipTop
  rw [afterKeyword?_lowered]
  cases afterKeyword? .TOP ts with
  | none => rfl
  | some rest =>
    have hcounted : ((group? (lowered rest)).map Prod.snd).getD ((lowered rest).drop 1) =
        lowered (((group? rest).map Prod.snd).getD (rest.drop 1)) := by
      rw [group?_lowered]
      cases group? rest <;> simp [Prod.map]
    simp only [Option.map_some, hcounted, skipKeyword_lowered]
    generalize skipKeyword .PERCENT _ = counted
    match counted with
    | [] => rfl
    | [t] => rfl
    | t :: u :: rest =>
      simp only [List.map_cons, Token.lowered_is, Token.lowered_spells]
      split <;> rfl

/-! ## Names -/

namespace Identifier

theorem undouble_map_toLower {c : Char} (hlower : c.toLower = c) (hupper : c.toUpper = c)
    (cs : List Char) : undouble c (cs.map Char.toLower) = (undouble c cs).map Char.toLower := by
  have hc : ∀ d : Char, d.toLower = c ↔ d = c := Text.toLower_eq_iff hlower hupper
  fun_induction undouble c cs with
  | case1 => rfl
  | case2 d => rfl
  | case3 d e rest h ih => simp [undouble, hlower, hc, h, ih]
  | case4 d e rest h ih =>
    rw [List.map_cons] at ih
    simp [undouble, hc, h, ih]

theorem unwrap_map_toLower {close : Char} (hlower : close.toLower = close)
    (hupper : close.toUpper = close) (cs : List Char) :
    unwrap close (cs.map Char.toLower) = (unwrap close cs).map Char.toLower := by
  have hlast : (cs.map Char.toLower).getLast? = some close ↔ cs.getLast? = some close := by
    rw [List.getLast?_map]
    cases cs.getLast? with
    | none => simp
    | some c => simp [hlower, hupper]
  unfold unwrap
  simp only [hlast, List.map_dropLast.symm]
  split <;> rw [undouble_map_toLower hlower hupper, Text.trimChars_map_toLower]

@[simp] theorem bare_asciiLower (written : String) :
    bare (Text.asciiLower written) = Text.asciiLower (bare written) := by
  have hchars : ∀ cs : List Char, bareChars (cs.map Char.toLower) =
      (bareChars cs).map Char.toLower := by
    intro cs
    unfold bareChars
    rw [Text.trimChars_map_toLower]
    cases Text.trimChars cs with
    | nil => rfl
    | cons c rest =>
      by_cases hbracket : c = '['
      · subst hbracket
        exact unwrap_map_toLower rfl rfl rest
      by_cases hquote : c = '"'
      · subst hquote
        exact unwrap_map_toLower rfl rfl rest
      simp [hbracket, hquote]
  rw [bare, Text.toList_asciiLower, hchars, bare, Text.asciiLower_ofList]

theorem map_bare_asciiLower (parts : List String) :
    (parts.map Text.asciiLower).map bare = (parts.map bare).map Text.asciiLower := by
  simp [Function.comp_def]

end Identifier

/-! ## Writing -/

@[simp] theorem render_lowered (ts : List Token) :
    render (lowered ts) = Text.asciiLower (render ts) := by
  have hgap : ∀ t u : Token, gap t.lowered u.lowered = (gap t u).map Char.toLower := by
    intro t u
    unfold gap
    simp [Token.gluesBack, Token.gluesNext]
    split <;> rfl
  have hchars : renderChars (lowered ts) = (renderChars ts).map Char.toLower := by
    fun_induction renderChars ts with
    | case1 => rfl
    | case2 t => simp [renderChars]
    | case3 t u rest ih =>
      rw [lowered_cons] at ih
      simp [renderChars, hgap, ih]
  rw [render, hchars, render, Text.asciiLower_ofList]

end Provenance
