import Provenance.Proofs.Token.Pieces

/-!
# Reassembled tokens

Tokens of a text that are written one after the other are read as they were, all of them or any
slice. Only the last token of a text can be a name that is never closed, and in a slice it is the
last one again, so nothing runs into it or is taken up by it.
-/

namespace Provenance

/-- Whether a token that ends a text is read as it stands. A name need not be closed there. -/
def Token.endsText : Token → Bool
  | delimited d =>
    match d.toList with
    | o :: body => (o == '[' || o == '"') && (splitDelimited (closer o) body).2.isEmpty
    | [] => false
  | t => t.isWhole

theorem Token.endsText_of_isWhole {t : Token} (h : t.isWhole = true) : t.endsText = true := by
  cases t with
  | word w => exact h
  | mark c => exact h
  | delimited d =>
    cases hd : d.toList with
    | nil => simp [isWhole, hd] at h
    | cons o body =>
      simp only [isWhole, hd, Bool.and_eq_true] at h
      have hend : [].head? ≠ some (closer o) := by simp
      have hsplit := splitDelimited_of_closes h.2 hend
      rw [List.append_nil] at hsplit
      simp [endsText, hd, h.1, hsplit]

theorem Token.endsText_cases {t : Token} (h : t.endsText = true) :
    t.isWhole = true ∨ ∃ o body, t = .delimited (String.ofList (o :: body)) ∧
      (o = '[' ∨ o = '"') ∧ splitDelimited (closer o) body = (body, []) := by
  cases t with
  | word w => exact .inl h
  | mark c => exact .inl h
  | delimited d =>
    cases hd : d.toList with
    | nil => simp [endsText, hd] at h
    | cons o body =>
      simp only [endsText, hd, Bool.and_eq_true, Bool.or_eq_true, beq_iff_eq,
        List.isEmpty_iff] at h
      have hwhole := splitDelimited_append (closer o) body
      rw [h.2, List.append_nil] at hwhole
      exact .inr ⟨o, body, by rw [← hd, String.ofList_toList], h.1, Prod.ext hwhole h.2⟩

theorem lexChars_of_endsText {t : Token} (h : t.endsText = true) :
    lexChars t.text.toList = [t] := by
  rcases t.endsText_cases h with hwhole | ⟨o, body, rfl, ho, hsplit⟩
  · exact lexChars_text hwhole
  · rw [Token.text, String.toList_ofList, lexChars_delimited ho, hsplit, lexChars]

theorem reads_of_endsText {t : Token} (h : t.endsText = true) : Reads t.text.toList [t] [] := by
  rcases t.endsText_cases h with hwhole | ⟨o, body, rfl, ho, hsplit⟩
  · exact .single t hwhole rfl
  · intro before
    rw [Token.text, String.toList_ofList, List.append_nil, tokensFrom_opening ho, hsplit,
      tokensFrom_nil, tokensFrom_nil]
    rfl

/-! ## Tokens of a text -/

/-- Tokens that can be written one after the other and are read again. -/
structure IsLegible (ts : List Token) : Prop where
  whole : ∀ t ∈ ts.dropLast, t.isWhole = true
  last : ∀ t ∈ ts.getLast?, t.endsText = true

/-- A token is whole, unless it takes all the rest of the text. -/
theorem isWhole_or_of_nextToken {c : Char} {rest : List Char} {t : Token}
    (h : (nextToken c rest).1 = some t) :
    t.isWhole = true ∨ t.endsText = true ∧ (nextToken c rest).2 = [] := by
  by_cases ho : c = '[' ∨ c = '"'
  · have hblank : Text.isBlank c = false := by rcases ho with rfl | rfl <;> decide
    have hnext : nextToken c rest =
        (some (.delimited (String.ofList (c :: (splitDelimited (closer c) rest).1))),
          (splitDelimited (closer c) rest).2) := by
      simp [nextToken, hblank, ho, closer]
    rw [hnext] at h ⊢
    obtain rfl := Option.some.inj h
    by_cases hrest : (splitDelimited (closer c) rest).2 = []
    · right
      have hwhole := splitDelimited_append (closer c) rest
      rw [hrest, List.append_nil] at hwhole
      refine ⟨?_, hrest⟩
      simp [Token.endsText, hwhole, hrest, ho]
    · left
      have hcloses := (closes_splitDelimited hrest).1
      simp [Token.isWhole, hcloses, ho]
  · have hclosed : t.isClosed = true := by
      simp only [nextToken, Bool.or_eq_true, decide_eq_true_eq, if_neg ho] at h
      split at h
      · simp at h
      split at h
      · obtain rfl := Option.some.inj h
        rfl
      split at h
      · obtain rfl := Option.some.inj h
        rfl
      · simp at h
    exact .inl (isWhole_of_nextToken h hclosed)

namespace IsLegible

variable {ts us : List Token}

theorem nil : IsLegible [] := ⟨by simp, by simp⟩

theorem cons {t : Token} (ht : t.isWhole = true) (h : IsLegible ts) : IsLegible (t :: ts) := by
  cases ts with
  | nil => exact ⟨by simp, by simpa using Token.endsText_of_isWhole ht⟩
  | cons u ts =>
    constructor
    · intro v hv
      rcases (by simpa using hv) with rfl | hv
      · exact ht
      · exact h.whole v hv
    · intro v hv
      exact h.last v (by simpa using hv)

theorem single {t : Token} (ht : t.endsText = true) : IsLegible [t] :=
  ⟨by simp, by simpa using ht⟩

theorem slice (h : IsLegible ts) (hus : us <:+: ts) : IsLegible us := by
  obtain ⟨front, back, rfl⟩ := hus
  cases back with
  | nil =>
    rw [List.append_nil] at h
    constructor
    · intro t ht
      apply h.whole t
      rw [List.dropLast_append_of_ne_nil (List.ne_nil_of_mem (List.dropLast_subset us ht))]
      exact List.mem_append_right _ ht
    · intro t ht
      apply h.last t
      rw [List.getLast?_append, Option.mem_def.mp ht]
      rfl
  | cons b back =>
    -- The last token of the text stands behind the slice, so all of the slice is whole.
    have hwhole : ∀ t ∈ us, t.isWhole = true := by
      intro t ht
      apply h.whole t
      rw [List.dropLast_append_cons]
      simp [ht]
    exact ⟨fun t ht => hwhole t (List.dropLast_subset us ht),
      fun t ht => Token.endsText_of_isWhole (hwhole t (List.mem_of_getLast? ht))⟩

theorem lex_eq (h : IsLegible ts) : lex (render ts) = ts := by
  rw [lex, render, String.toList_ofList]
  exact lexChars_renderChars_of_last h.whole fun t ht => lexChars_of_endsText (h.last t ht)

theorem sqlTokens_eq (h : IsLegible ts) : sqlTokens (render ts) = ts :=
  (Reads.render_of_last h.whole fun t ht => reads_of_endsText (h.last t ht)).sqlTokens_eq

end IsLegible

theorem isLegible_lexChars (cs : List Char) : IsLegible (lexChars cs) := by
  fun_induction lexChars cs with
  | case1 => exact .nil
  | case2 c rest ih =>
    cases htoken : (nextToken c rest).1 with
    | none => exact ih
    | some t =>
      rcases isWhole_or_of_nextToken htoken with hwhole | ⟨hends, hrest⟩
      · exact ih.cons hwhole
      · rw [hrest, lexChars]
        exact .single hends

/-- The tokens of a text, and every slice of them, are read again from the text that they are
written as. So no two slices are written as one text. -/
theorem sqlTokens_render (s : String) :
    sqlTokens (render (sqlTokens s)) = sqlTokens s ∧
      lex (render (lex s)) = lex s ∧
      (∀ ts, ts <:+: sqlTokens s → sqlTokens (render ts) = ts) ∧
      ∀ s' ts ts', ts <:+: sqlTokens s → ts' <:+: sqlTokens s' → render ts = render ts' →
        ts = ts' := by
  have hslice : ∀ {s ts}, ts <:+: sqlTokens s → sqlTokens (render ts) = ts := fun h =>
    ((isLegible_lexChars _).slice h).sqlTokens_eq
  refine ⟨hslice List.infix_rfl, (isLegible_lexChars s.toList).lex_eq, fun _ => hslice, ?_⟩
  intro s' ts ts' hts hts' hrender
  rw [← hslice hts, hrender, hslice hts']

/-- A name that is never closed is read again at the end of a slice, with the quote in it. -/
theorem sqlTokens_render_open :
    let s := "SELECT a.[b]]c], - -1 -- d\n/ *[it's"
    let ts : List Token := [.delimited "[b]]c]", .mark ',', .mark '-', .mark '-', .word "1",
      .mark '/', .mark '*', .delimited "[it's"]
    ts <:+: sqlTokens s ∧ render ts = "[b]]c],- - 1 / * [it's" ∧ sqlTokens (render ts) = ts := by
  intro s ts
  have hslice : ts <:+: sqlTokens s := by decide +kernel
  exact ⟨hslice, by decide +kernel, (sqlTokens_render s).2.2.1 ts hslice⟩

end Provenance
