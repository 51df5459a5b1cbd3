import Provenance.Proofs.Query.Mentions
import Provenance.Proofs.Query.SelectList
import Provenance.Proofs.Writing.ViewTokens

/-!
# Select lists of written views

The select list of a written view is split into the items of its columns. No name in it ends the
list or an item.
-/

namespace Provenance

/-- Whether a token can stand in the select list of a written view. -/
def isListToken (t : Token) : Bool :=
  t.isFlat && t.isQuiet && !endsList t && !isQuantifier t && !t.is .TOP && !t.is .SELECT

theorem isListToken_iff {t : Token} : isListToken t = true ↔
    t.isFlat = true ∧ t.isQuiet = true ∧ endsList t = false ∧ isQuantifier t = false ∧
      t.is .TOP = false ∧ t.is .SELECT = false := by
  simp [isListToken, and_assoc]

def isItemToken (t : Token) : Bool := isListToken t && !t.isMark ','

theorem isListToken_of_isItemToken {t : Token} (h : isItemToken t = true) :
    isListToken t = true :=
  (Bool.and_eq_true_iff.mp h).1

theorem isItemToken_token (name : String) : isItemToken (Identifier.token name) = true := by
  have hspells : (Identifier.token name).spells "OPTION" = false :=
    Identifier.token_spells (by decide) name
  simp [isItemToken, isListToken, Token.isFlat, Token.isQuiet, Token.isReference,
    referenceKeywords, endsList, listEnders, isQuantifier, Identifier.token_isMark,
    Identifier.token_is, hspells]

theorem isItemToken_of_mem_idTokens {id : String} {t : Token} (h : t ∈ Identifier.idTokens id) :
    isItemToken t = true := by
  unfold Identifier.idTokens at h
  split at h
  · rcases (by simpa using h) with rfl | rfl | rfl
    · exact isItemToken_token _
    · decide
    · exact isItemToken_token _
  · obtain rfl := List.mem_singleton.mp h
    exact isItemToken_token _

theorem isItemToken_of_mem_itemTokens {qualified : Bool} {c : Column} {t : Token}
    (h : t ∈ c.itemTokens qualified) : isItemToken t = true := by
  have horigin : ∀ o : Origin, t ∈ o.tokens qualified → isItemToken t = true := by
    intro o ho
    cases qualified with
    | false =>
      obtain rfl := List.mem_singleton.mp ho
      exact isItemToken_token _
    | true =>
      rcases List.mem_append.mp ho with ho | ho
      · exact isItemToken_of_mem_idTokens ho
      · rcases (by simpa using ho) with rfl | rfl
        · decide
        · exact isItemToken_token _
  unfold Column.itemTokens at h
  split at h
  · rcases (by simpa using h) with rfl | rfl | rfl
    · decide
    · decide
    · exact isItemToken_token _
  · rename_i o _
    split at h
    · exact horigin o h
    · rcases List.mem_append.mp h with h | h
      · exact horigin o h
      · rcases (by simpa using h) with rfl | rfl
        · decide
        · exact isItemToken_token _

theorem isListToken_of_mem_listTokens (columns : List Column) :
    ∀ t ∈ listTokens columns, isListToken t = true := by
  unfold listTokens
  apply forall_mem_joined (p := fun t => isListToken t = true) (by decide)
  intro piece hpiece t ht
  obtain ⟨c, -, rfl⟩ := List.mem_map.mp hpiece
  exact isListToken_of_isItemToken (isItemToken_of_mem_itemTokens ht)

theorem isFlat_of_isListToken {t : Token} (h : isListToken t = true) : t.isFlat = true :=
  (isListToken_iff.mp h).1

theorem isPiece_of_isItemToken {ts : List Token} (hne : ts.isEmpty = false)
    (h : ∀ t ∈ ts, isItemToken t = true) : isPiece ts = true := by
  have hitem : ∀ t ∈ ts, isListToken t = true ∧ t.isMark ',' = false := by
    intro t ht
    simpa [isItemToken] using h t ht
  have hbalanced : isBalanced ts = true :=
    isBalanced_of_isFlat fun t ht => isFlat_of_isListToken (hitem t ht).1
  have hcomma : ∀ t ∈ outside 0 ts, t.isMark ',' = false :=
    fun t ht => (hitem t (outside_subset ht)).2
  simpa [isPiece, hne, hbalanced] using hcomma

theorem isPiece_itemTokens (qualified : Bool) (c : Column) :
    isPiece (c.itemTokens qualified) = true := by
  apply isPiece_of_isItemToken _ fun t ht => isItemToken_of_mem_itemTokens ht
  unfold Column.itemTokens
  cases c.firstOrigin? with
  | none => rfl
  | some o =>
    simp only
    split <;> cases qualified <;> simp [Origin.tokens]

/-- The items of a written view do not end with `NEXT VALUE`: before a last name stands `AS`, a
full stop or what stands before the item. -/
theorem awaitsSequence_itemTokens (qualified : Bool) (c : Column) {before : List Token}
    (hbefore : ∀ t, before.head? = some t → t.spells "NEXT" = false) :
    awaitsSequence ((c.itemTokens qualified).reverse ++ before) = false := by
  have has : (Token.word "AS").spells "NEXT" = false := by decide
  have hdot : (Token.mark '.').spells "NEXT" = false := by decide
  unfold Column.itemTokens
  cases c.firstOrigin? with
  | none => simp [awaitsSequence, has]
  | some o =>
    simp only
    split
    · cases qualified with
      | true => simp [Origin.tokens, awaitsSequence, hdot]
      | false =>
        cases before with
        | nil => rfl
        | cons t before => simp [Origin.tokens, awaitsSequence, hbefore t rfl]
    · simp [awaitsSequence, has]

theorem awaitsSequence_listTokens {columns : List Column} (hne : columns ≠ [])
    {before : List Token} (hbefore : ∀ t, before.head? = some t → t.spells "NEXT" = false) :
    awaitsSequence ((listTokens columns).reverse ++ before) = false := by
  have hcomma : (Token.mark ',').spells "NEXT" = false := by decide
  unfold listTokens
  generalize (writtenTable? columns).isNone = qualified
  obtain ⟨front, last, rfl⟩ := List.eq_nil_or_concat columns |>.resolve_left hne
  rw [List.map_concat, List.concat_eq_append]
  obtain ⟨more, hmore, hend⟩ :=
    joined_concat (front.map (Column.itemTokens qualified)) (last.itemTokens qualified)
  rw [hmore, List.reverse_append, List.append_assoc]
  apply awaitsSequence_itemTokens
  rcases hend with rfl | ⟨more, rfl⟩
  · exact hbefore
  · intro t ht
    obtain rfl : Token.mark ',' = t := by simpa using ht
    exact hcomma

theorem isListToken_of_mem_headerTokens (id : String) :
    ∀ t ∈ headerTokens id, isListToken t = true := by
  intro t ht
  rcases List.mem_cons.mp ht with rfl | ht
  · decide
  rcases List.mem_cons.mp ht with rfl | ht
  · decide
  rcases List.mem_append.mp ht with ht | ht
  · exact isListToken_of_isItemToken (isItemToken_of_mem_idTokens ht)
  · obtain rfl := List.mem_singleton.mp ht
    decide

theorem takeList_sourceTokens {columns : List Column} (hne : columns ≠ []) (before : List Token)
    (table : Option String) :
    takeList ((listTokens columns).reverse ++ .word "SELECT" :: before) 0 (sourceTokens table) =
      [] := by
  cases table with
  | none => rfl
  | some table =>
    apply takeList_of_endsList (by decide) (by decide)
    apply awaitsSequence_listTokens hne
    intro t ht
    obtain rfl : Token.word "SELECT" = t := by simpa using ht
    decide

theorem selectList_viewTokens (id : String) {columns : List Column} (hne : columns ≠ []) :
    selectList (viewTokens id columns) = listTokens columns := by
  have hlist := isListToken_of_mem_listTokens columns
  have hheader := isListToken_of_mem_headerTokens id
  have hfirst : ∀ t ∈ listTokens columns ++ sourceTokens (writtenTable? columns),
      isQuantifier t = false ∧ t.is .TOP = false := by
    have hplain : ∀ t, isListToken t = true → isQuantifier t = false ∧ t.is .TOP = false := by
      intro t ht
      obtain ⟨-, -, -, hquantifier, htop, -⟩ := isListToken_iff.mp ht
      exact ⟨hquantifier, htop⟩
    intro t ht
    rcases List.mem_append.mp ht with ht | ht
    · exact hplain t (hlist t ht)
    · unfold sourceTokens at ht
      split at ht
      · rcases List.mem_cons.mp ht with rfl | ht
        · decide
        · exact hplain t (isListToken_of_isItemToken (isItemToken_of_mem_idTokens ht))
      · simp at ht
  unfold viewTokens
  apply selectList_append
  · exact net_of_isBalanced (isBalanced_of_isFlat fun t ht => isFlat_of_isListToken (hheader t ht))
  · intro t ht
    obtain ⟨-, -, -, -, -, hselect⟩ := isListToken_iff.mp (hheader t (outside_subset ht))
    exact hselect
  · decide
  · intro t ht
    exact hfirst t (List.mem_of_head? ht)
  · exact isBalanced_of_isFlat fun t ht => isFlat_of_isListToken (hlist t ht)
  · intro t ht
    obtain ⟨-, -, hends, -, -, -⟩ := isListToken_iff.mp (hlist t (outside_subset ht))
    exact hends
  · exact takeList_sourceTokens hne _ _

theorem outputItems_viewTokens (id : String) {columns : List Column} (hne : columns ≠ []) :
    outputItems (viewTokens id columns) =
      columns.map (Column.itemTokens (writtenTable? columns).isNone) := by
  apply outputItems_of_selectList (selectList_viewTokens id hne)
  intro p hp
  obtain ⟨c, -, rfl⟩ := List.mem_map.mp hp
  exact isPiece_itemTokens _ c

end Provenance
