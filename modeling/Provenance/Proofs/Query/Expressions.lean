import Provenance.Proofs.Catalog.Column
import Provenance.Proofs.Query.SelectList
import Provenance.Query.Attribution

/-!
# Lists of expressions

The expressions of a select list are its items, each for one output column, whatever stands in
their parentheses.
-/

namespace Provenance

def isWildcard (expr : List Token) : Bool :=
  match expr.reverse with
  | [] => false
  | star :: front => star.isMark '*' && (front.isEmpty || (wildcardQualifier? front).isSome)

theorem Scope.wildcard?_of_isWildcard {expr : List Token} (h : isWildcard expr = false)
    (scope : Scope) : scope.wildcard? expr = none := by
  unfold isWildcard at h
  unfold wildcard?
  cases hexpr : expr.reverse with
  | nil => rfl
  | cons star front =>
    rw [hexpr] at h
    cases hstar : star.isMark '*' with
    | false => simp [hstar]
    | true =>
      simp only [hstar, Bool.true_and, Bool.or_eq_false_iff] at h
      simpa [hstar, h.1] using h.2

/-- Tokens that make up an expression of a select list. They are a piece between commas, no clause
begins among them, they do not end in `NEXT VALUE`, they do not begin with what may stand between
`SELECT` and the list, and they are no wildcard. -/
structure IsExpression (ts : List Token) : Prop where
  piece : isPiece ts = true
  whole : takeList [] 0 ts = ts
  closed : awaitsSequence ts.reverse = false
  first : ∀ t ∈ ts.head?, isQuantifier t = false ∧ t.is .TOP = false
  single : isWildcard (SelectItem.ofTokens ts).expr = false

instance (ts : List Token) : Decidable (IsExpression ts) :=
  decidable_of_iff
    (isPiece ts = true ∧ takeList [] 0 ts = ts ∧ awaitsSequence ts.reverse = false ∧
      (∀ t ∈ ts.head?, isQuantifier t = false ∧ t.is .TOP = false) ∧
      isWildcard (SelectItem.ofTokens ts).expr = false)
    ⟨fun ⟨piece, whole, closed, first, single⟩ => ⟨piece, whole, closed, first, single⟩,
      fun h => ⟨h.piece, h.whole, h.closed, h.first, h.single⟩⟩

theorem IsExpression.isBalanced {ts : List Token} (h : IsExpression ts) :
    isBalanced ts = true := by
  have hpiece := h.piece
  simp only [isPiece, Bool.and_eq_true] at hpiece
  exact hpiece.1.2

theorem IsExpression.exists_cons {ts : List Token} (h : IsExpression ts) :
    ∃ t rest, ts = t :: rest := by
  cases ts with
  | nil => exact absurd h.piece (by decide)
  | cons t rest => exact ⟨t, rest, rfl⟩

/-! ## The end of the list -/

/-- Whether a token is neither `NEXT` nor `VALUE`. -/
def breaksSequence (t : Token) : Bool := !t.spells "NEXT" && !t.spells "VALUE"

theorem awaitsSequence_append {b : Token} (hb : breaksSequence b = true)
    (inner before : List Token) :
    awaitsSequence (inner ++ b :: before) = awaitsSequence inner := by
  simp only [breaksSequence, Bool.and_eq_true, Bool.not_eq_true'] at hb
  match inner with
  | [] =>
    cases before with
    | nil => rfl
    | cons t before => simp [awaitsSequence, hb.2]
  | [t] => simp [awaitsSequence, hb.1]
  | t :: u :: inner => rfl

/-- Where all of an expression belongs to a list of its own, all of it belongs to the list in which
it stands. -/
theorem takeList_of_whole {b : Token} (hb : breaksSequence b = true) {depth : Nat}
    {inner ts : List Token} (hbal : balancedFrom depth ts = true)
    (hwhole : takeList inner depth ts = ts) (before rest : List Token) :
    takeList (inner ++ b :: before) depth (ts ++ rest) =
      ts ++ takeList (ts.reverse ++ (inner ++ b :: before)) 0 rest := by
  induction ts generalizing depth inner with
  | nil =>
    obtain rfl : depth = 0 := by simpa [balancedFrom] using hbal
    rfl
  | cons t ts ih =>
    have htail : ∀ {depth : Nat}, balancedFrom depth ts = true →
        takeList (t :: inner) depth ts = ts →
        takeList (t :: (inner ++ b :: before)) depth (ts ++ rest) =
          ts ++ takeList ((t :: ts).reverse ++ (inner ++ b :: before)) 0 rest := by
      intro depth hbal hwhole
      have hts := ih hbal hwhole
      simpa using hts
    unfold balancedFrom at hbal
    unfold takeList at hwhole
    rw [List.cons_append]
    conv => lhs; unfold takeList
    split at hbal
    · rename_i hopen
      rw [if_pos hopen] at hwhole ⊢
      rw [htail hbal (List.cons.inj hwhole).2, List.cons_append]
    split at hbal
    · rename_i hopen hclose
      rw [if_neg hopen, if_pos hclose] at hwhole ⊢
      cases depth with
      | zero => simp at hbal
      | succ outer =>
        simp only [htail hbal (List.cons.inj hwhole).2, List.cons_append]
    · rename_i hopen hclose
      rw [if_neg hopen, if_neg hclose] at hwhole ⊢
      rw [awaitsSequence_append hb]
      split at hwhole
      · simp at hwhole
      · rename_i hstays
        rw [if_neg hstays, htail hbal (List.cons.inj hwhole).2, List.cons_append]

theorem takeList_comma (before rest : List Token) :
    takeList before 0 (.mark ',' :: rest) =
      .mark ',' :: takeList (.mark ',' :: before) 0 rest := by
  have hends : endsList (.mark ',') = false := by decide
  rw [takeList]
  simp [Token.isMark, hends]

theorem takeList_joined {b : Token} (hb : breaksSequence b = true) {e : List Token}
    {es : List (List Token)} (hes : ∀ d ∈ e :: es, IsExpression d) {clause : Token}
    (hflat : clause.isFlat = true) (hends : endsList clause = true) (before rest : List Token) :
    takeList (b :: before) 0 ([Token.mark ','].intercalate (e :: es) ++ clause :: rest) =
      [Token.mark ','].intercalate (e :: es) := by
  induction es generalizing e b before with
  | nil =>
    have he := hes e (by simp)
    have hlist := takeList_of_whole hb he.isBalanced he.whole before (clause :: rest)
    have hclosed : awaitsSequence (e.reverse ++ b :: before) = false := by
      rw [awaitsSequence_append hb]
      exact he.closed
    rw [List.nil_append] at hlist
    rw [show [Token.mark ','].intercalate [e] = e by simp [List.intercalate], hlist,
      takeList_of_endsList hflat hends hclosed, List.append_nil]
  | cons next es ih =>
    have he := hes e (by simp)
    have hlist := takeList_of_whole hb he.isBalanced he.whole before
      (.mark ',' :: ([Token.mark ','].intercalate (next :: es) ++ clause :: rest))
    have htail := ih (b := .mark ',') (by decide) (fun d hd => hes d (List.mem_cons_of_mem _ hd))
      (e.reverse ++ b :: before)
    rw [List.nil_append, takeList_comma, htail] at hlist
    rw [joined_cons_cons, List.append_assoc, List.cons_append, hlist]

theorem outputItems_of_expressions {before rest : List Token} {select clause : Token}
    {e : List Token} {es : List (List Token)} (hnet : net before = 0)
    (hbefore : ∀ t ∈ outside 0 before, t.is .SELECT = false) (hselect : select.is .SELECT = true)
    (hb : breaksSequence select = true) (hes : ∀ d ∈ e :: es, IsExpression d)
    (hflat : clause.isFlat = true) (hends : endsList clause = true) :
    outputItems (before ++ select :: ([Token.mark ','].intercalate (e :: es) ++ clause :: rest)) =
      e :: es := by
  have hfirst : ∀ t, ([Token.mark ','].intercalate (e :: es) ++ clause :: rest).head? = some t →
      isQuantifier t = false ∧ t.is .TOP = false := by
    intro t ht
    have he := hes e (by simp)
    obtain ⟨u, tail, rfl⟩ := he.exists_cons
    have hu : t = u := by
      cases es with
      | nil => simpa [List.intercalate] using ht.symm
      | cons next es =>
        rw [joined_cons_cons] at ht
        simpa using ht.symm
    exact he.first t (by simp [hu])
  apply outputItems_of_selectList _ fun d hd => (hes d hd).piece
  rw [selectList_of_head hnet hbefore hselect hfirst]
  exact takeList_joined hb hes hflat hends before.reverse rest

/-! ## One column for each expression -/

theorem Scope.itemColumns_of_isExpression {ts : List Token} (h : IsExpression ts) (scope : Scope)
    (position : Nat) :
    scope.itemColumns ts position = [scope.outputColumn position (SelectItem.ofTokens ts)] := by
  unfold itemColumns
  simp only [wildcard?_of_isWildcard h.single]

theorem Scope.map_sources_itemColumns {es : List (List Token)} (hes : ∀ e ∈ es, IsExpression e)
    (scope : Scope) (start : Nat) :
    ((es.zipIdx start).flatMap fun (e, position) => scope.itemColumns e position).map
        Column.sources =
      es.map fun e => scope.origins (SelectItem.ofTokens e).expr := by
  induction es generalizing start with
  | nil => rfl
  | cons e es ih =>
    have he := scope.itemColumns_of_isExpression (hes e (by simp)) start
    have htail := ih (fun d hd => hes d (List.mem_cons_of_mem e hd)) (start + 1)
    rw [List.zipIdx_cons, List.flatMap_cons, List.map_append, htail]
    simp only [he, List.map_cons, List.map_nil, List.singleton_append, outputColumn,
      Column.withOrigins_sources]

end Provenance
