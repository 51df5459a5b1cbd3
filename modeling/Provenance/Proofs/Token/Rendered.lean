import Provenance.Proofs.Token.Reads

/-!
# Reading written tokens

Tokens with blanks between them are read as they stand. The blanks may be left out next to
a bracket, a comma or a full stop.
-/

namespace Provenance

/-- Whether a character can stand right after every token. -/
def separates (c : Char) : Bool := Text.isBlank c || ['(', ')', ',', '.'].contains c

/-- Whether a text is empty or begins with a character that can stand after every token. -/
def isSeparated (cs : List Char) : Bool := cs.head?.all separates

theorem admits_of_separates {c : Char} {t : Token} (hc : separates c = true)
    (ht : t.isWhole = true) : t.admits c = true := by
  have hword : Text.inWord c = false := by
    rcases Bool.or_eq_true _ _ ▸ hc with h | h
    · exact Text.inWord_of_isBlank h
    · apply Text.inWord_of_mem_punctuation
      rcases (by simpa using h : c = '(' ∨ c = ')' ∨ c = ',' ∨ c = '.') with
        rfl | rfl | rfl | rfl <;> decide
  cases t with
  | word w =>
    have hquote : c ≠ '\'' := by
      rintro rfl
      exact absurd hc (by decide)
    simp [Token.admits, hword, hquote]
  | delimited d =>
    cases hd : d.toList with
    | nil => simp [Token.admits, hd]
    | cons o body =>
      simp only [Token.isWhole, hd, Bool.and_eq_true, Bool.or_eq_true, beq_iff_eq] at ht
      have hclose : c ≠ closer o := by
        rintro rfl
        rcases ht.1 with rfl | rfl <;> exact absurd hc (by decide)
      simp [Token.admits, hd, hclose]
  | mark d =>
    have hdash : c ≠ '-' := by
      rintro rfl
      exact absurd hc (by decide)
    have hstar : c ≠ '*' := by
      rintro rfl
      exact absurd hc (by decide)
    unfold Token.admits
    split <;> simp_all

theorem admits_of_gluesNext {t : Token} (ht : t.gluesNext = true) (c : Char) :
    t.admits c = true := by
  cases t with
  | word w => simp [Token.gluesNext, Token.isMark] at ht
  | delimited d => simp [Token.gluesNext, Token.isMark] at ht
  | mark d =>
    simp only [Token.gluesNext, Token.isMark, Bool.or_eq_true, beq_iff_eq] at ht
    rcases ht with (rfl | rfl) | rfl <;> rfl

theorem isSeparated_append {cs ds : List Char} (h : isSeparated cs = true) (hne : cs ≠ []) :
    isSeparated (cs ++ ds) = true := by
  cases cs with
  | nil => exact absurd rfl hne
  | cons c cs => exact h

namespace Reads

variable {text rest : List Char} {ts us : List Token}

/-- A whole token and blanks in front of a text. Without blanks one of the neighbours has to
close up to the other. -/
theorem cons (t : Token) (gap : List Char) (ht : t.isWhole = true)
    (hgap : gap.all Text.isBlank = true)
    (hnext : t.gluesNext = true ∨ isSeparated (gap ++ (text ++ rest)) = true)
    (h : Reads text ts rest) : Reads (t.text.toList ++ gap ++ text) (t :: ts) rest := by
  have htoken : Reads t.text.toList [t] ((gap ++ text) ++ rest) := by
    apply Reads.token ht
    intro c hc
    rw [List.append_assoc] at hc
    rcases hnext with hglue | hsep
    · exact admits_of_gluesNext hglue c
    · rw [isSeparated, hc] at hsep
      exact admits_of_separates hsep ht
  rw [List.append_assoc]
  exact htoken.append ((Reads.blanks hgap).append h)

theorem spaced (t : Token) (gap : List Char) (ht : t.isWhole = true)
    (hgap : gap.all Text.isBlank = true)
    (hnext : t.gluesNext = true ∨ isSeparated (gap ++ rest) = true) :
    Reads (t.text.toList ++ gap) [t] rest := by
  have hnil : Reads [] [] rest := .nil
  have h := hnil.cons t gap ht hgap hnext
  rwa [List.append_nil] at h

theorem single (t : Token) (ht : t.isWhole = true) (hrest : isSeparated rest = true) :
    Reads t.text.toList [t] rest := by
  have h := Reads.spaced t [] ht (by simp) (.inr hrest)
  rwa [List.append_nil] at h

theorem words (ws : List String) (htext : text = ws.flatMap fun w => w.toList ++ [' '])
    (hws : ∀ w ∈ ws, (Token.word w).isWhole = true) : Reads text (ws.map Token.word) rest := by
  subst htext
  induction ws with
  | nil => exact .nil
  | cons w ws ih =>
    have hblank : [' '].all Text.isBlank = true := by decide
    have hsep : isSeparated ([' '] ++ ((ws.flatMap fun w => w.toList ++ [' ']) ++ rest)) = true :=
      isSeparated_append (by decide) (by simp)
    rw [List.flatMap_cons, List.map_cons]
    have htail := ih fun v hv => hws v (by simp [hv])
    exact Reads.cons (.word w) [' '] (hws w (by simp)) hblank (.inr hsep) htail

theorem isSeparated_renderChars {t : Token} (ts : List Token) (ht : t.gluesBack = true) :
    isSeparated (renderChars (t :: ts) ++ rest) = true := by
  cases t with
  | word w => simp [Token.gluesBack, Token.gluesNext, Token.isMark] at ht
  | delimited d => simp [Token.gluesBack, Token.gluesNext, Token.isMark] at ht
  | mark c =>
    simp only [Token.gluesBack, Token.gluesNext, Token.isMark, Bool.or_eq_true,
      beq_iff_eq] at ht
    have hc : separates c = true := by
      rcases ht with ((rfl | rfl) | rfl) | rfl <;> decide
    have htext : (Token.mark c).text.toList = [c] := String.toList_singleton c
    cases ts with
    | nil => simp [renderChars, htext, isSeparated, hc]
    | cons u us => simp [renderChars, htext, isSeparated, hc]

/-- Rendered tokens are read as they are where the last of them is read. All others are whole. -/
theorem render_of_last (hts : ∀ t ∈ ts.dropLast, t.isWhole = true)
    (hlast : ∀ t ∈ ts.getLast?, Reads t.text.toList [t] rest) :
    Reads (renderChars ts) ts rest := by
  fun_induction renderChars ts with
  | case1 => exact .nil
  | case2 t => exact hlast t rfl
  | case3 t u ts ih =>
    have ht : t.isWhole = true := hts t (by simp)
    have htail := ih (fun v hv => hts v (by simp [hv])) fun v hv => hlast v (by simpa using hv)
    have hblank : (gap t u).all Text.isBlank = true := by
      unfold gap
      split <;> decide
    have hnext : t.gluesNext = true ∨
        isSeparated (gap t u ++ (renderChars (u :: ts) ++ rest)) = true := by
      unfold gap
      split
      · rename_i hglue
        rcases Bool.or_eq_true _ _ ▸ hglue with h | h
        · exact .inl h
        · exact .inr (isSeparated_renderChars ts h)
      · exact .inr (isSeparated_append (by decide) (by simp))
    exact Reads.cons t (gap t u) ht hblank hnext htail

theorem render (hts : ∀ t ∈ ts, t.isWhole = true) (hrest : isSeparated rest = true) :
    Reads (renderChars ts) ts rest := by
  apply render_of_last fun t ht => hts t (List.dropLast_subset ts ht)
  intro t ht
  exact .single t (hts t (List.mem_of_getLast? ht)) hrest

/-- Texts that are read in front of a comma and of what follows the last of them are read when
they are joined by commas with blanks after them. -/
theorem joined {α : Type} (text : α → List Char) (tokens : α → List Token) (gap : List Char)
    (hgap : gap.all Text.isBlank = true) {xs : List α}
    (hxs : ∀ x ∈ xs, ∀ rest, isSeparated rest = true → Reads (text x) (tokens x) rest)
    (hrest : isSeparated rest = true) :
    Reads ((',' :: gap).intercalate (xs.map text)) ([Token.mark ','].intercalate (xs.map tokens))
      rest := by
  induction xs with
  | nil => exact .nil
  | cons x xs ih =>
    cases xs with
    | nil => simpa using hxs x (by simp) rest hrest
    | cons y xs =>
      have htail := ih fun z hz => hxs z (by simp [hz])
      have hcomma := Reads.cons (.mark ',') gap (by decide) hgap (.inl (by decide)) htail
      have hsep : ∀ cs, isSeparated (',' :: cs) = true := fun _ => rfl
      have hx := hxs x (by simp) _ (hsep (gap ++
        (',' :: gap).intercalate ((y :: xs).map text) ++ rest))
      have hmark : (Token.mark ',').text.toList = [','] := String.toList_singleton ','
      rw [hmark] at hcomma
      have h := Reads.append (a := text x) (by simpa using hx) hcomma
      simpa [List.intercalate] using h

end Reads

/-! ## Rendered texts -/

theorem getLast?_of_closes {close : Char} {cs : List Char} (h : closes close cs = true) :
    cs.getLast? = some close := by
  fun_induction closes close cs with
  | case1 => simp at h
  | case2 c => simpa using h
  | case3 d rest ih =>
    simp only [Bool.and_eq_true, decide_eq_true_eq] at h
    cases rest with
    | nil => simp [closes] at h
    | cons e rest => simpa using ih h.2
  | case4 c d rest hc ih => simpa using ih h

theorem isBlank_of_isWhole {t : Token} (ht : t.isWhole = true) :
    t.text.toList ≠ [] ∧ (∀ c, t.text.toList.head? = some c → Text.isBlank c = false) ∧
      ∀ c, t.text.toList.getLast? = some c → Text.isBlank c = false := by
  cases t with
  | word w =>
    simp only [Token.isWhole, Bool.and_eq_true, Bool.not_eq_true', List.isEmpty_eq_false_iff,
      List.all_eq_true] at ht
    refine ⟨ht.1, ?_, ?_⟩
    · intro c hc
      exact Text.isBlank_of_inWord (ht.2 c (List.mem_of_head? hc))
    · intro c hc
      exact Text.isBlank_of_inWord (ht.2 c (List.mem_of_getLast? hc))
  | delimited d =>
    cases hd : d.toList with
    | nil => simp [Token.isWhole, hd] at ht
    | cons o body =>
      simp only [Token.isWhole, hd, Bool.and_eq_true, Bool.or_eq_true, beq_iff_eq] at ht
      obtain ⟨ho, hclosed⟩ := ht
      have hlast : (o :: body).getLast? = some (closer o) := by
        rw [List.getLast?_cons, getLast?_of_closes hclosed]
        rfl
      refine ⟨by simp [Token.text, hd], ?_, ?_⟩
      · intro c hc
        obtain rfl : o = c := by simpa [Token.text, hd] using hc
        rcases ho with rfl | rfl <;> decide
      · intro c hc
        rw [Token.text, hd, hlast] at hc
        obtain rfl := Option.some.inj hc
        rcases ho with rfl | rfl <;> decide
  | mark c =>
    have hc : c ∈ punctuation := by simpa [Token.isWhole] using ht
    have htext : (Token.mark c).text.toList = [c] := String.toList_singleton c
    rw [htext]
    simpa using Text.isBlank_of_mem_punctuation hc

theorem renderChars_cons_ne_nil {t : Token} (ht : t.isWhole = true) (ts : List Token) :
    renderChars (t :: ts) ≠ [] := by
  have htext := (isBlank_of_isWhole ht).1
  cases ts with
  | nil => exact htext
  | cons u ts =>
    intro h
    rw [renderChars, List.append_assoc, List.append_eq_nil_iff] at h
    exact htext h.1

theorem isBlank_renderChars {ts : List Token} (hts : ∀ t ∈ ts, t.isWhole = true) :
    (∀ c, (renderChars ts).head? = some c → Text.isBlank c = false) ∧
      ∀ c, (renderChars ts).getLast? = some c → Text.isBlank c = false := by
  fun_induction renderChars ts with
  | case1 => simp
  | case2 t => exact (isBlank_of_isWhole (hts t (by simp))).2
  | case3 t u ts ih =>
    obtain ⟨htext, hhead, -⟩ := isBlank_of_isWhole (hts t (by simp))
    have htail := (ih fun v hv => hts v (by simp [hv])).2
    have hne := renderChars_cons_ne_nil (hts u (by simp)) ts
    constructor
    · intro c hc
      rw [List.append_assoc, List.head?_append, List.head?_eq_some_head htext] at hc
      exact hhead c (by rwa [List.head?_eq_some_head htext])
    · intro c hc
      rw [List.getLast?_append, List.getLast?_eq_some_getLast hne] at hc
      exact htail c (by rwa [List.getLast?_eq_some_getLast hne])

/-- Rendered tokens are cut up into themselves where the last of them is, with nothing taken for a
literal or comment. All others are whole. -/
theorem lexChars_renderChars_of_last {ts : List Token} (hts : ∀ t ∈ ts.dropLast, t.isWhole = true)
    (hlast : ∀ t ∈ ts.getLast?, lexChars t.text.toList = [t]) : lexChars (renderChars ts) = ts := by
  fun_induction renderChars ts with
  | case1 => rw [lexChars]
  | case2 t => exact hlast t rfl
  | case3 t u ts ih =>
    have ht : t.isWhole = true := hts t (by simp)
    have htail := ih (fun v hv => hts v (by simp [hv])) fun v hv => hlast v (by simpa using hv)
    rw [List.append_assoc]
    unfold gap
    split
    · rename_i hglue
      rw [List.nil_append, lexChars_token ht, htail]
      intro c hc
      rcases Bool.or_eq_true _ _ ▸ hglue with hnext | hback
      · exact admits_of_gluesNext hnext c
      · have hsep : isSeparated (renderChars (u :: ts) ++ []) = true :=
          Reads.isSeparated_renderChars ts hback
        rw [List.append_nil, isSeparated, hc] at hsep
        exact admits_of_separates hsep ht
    · rw [List.singleton_append, lexChars_token ht, lexChars_blank (by decide), htail]
      intro c hc
      obtain rfl : ' ' = c := by simpa using hc
      exact admits_of_separates (by decide) ht

theorem lexChars_text {t : Token} (ht : t.isWhole = true) : lexChars t.text.toList = [t] := by
  have hlex : lexChars (t.text.toList ++ []) = t :: lexChars [] := lexChars_token ht (by simp)
  rwa [List.append_nil, lexChars] at hlex

theorem lexChars_renderChars {ts : List Token} (hts : ∀ t ∈ ts, t.isWhole = true) :
    lexChars (renderChars ts) = ts := by
  apply lexChars_renderChars_of_last fun t ht => hts t (List.dropLast_subset ts ht)
  intro t ht
  exact lexChars_text (hts t (List.mem_of_getLast? ht))

/-- Texts that are rendered from their own tokens, none of which is left open. -/
structure IsRendered (s : String) : Prop where
  rendered : render (sqlTokens s) = s
  closed : ∀ t ∈ sqlTokens s, t.isClosed = true

instance (s : String) : Decidable (IsRendered s) :=
  decidable_of_iff (render (sqlTokens s) = s ∧ ∀ t ∈ sqlTokens s, t.isClosed = true)
    ⟨fun ⟨rendered, closed⟩ => ⟨rendered, closed⟩, fun h => ⟨h.rendered, h.closed⟩⟩

namespace IsRendered

variable {s : String}

theorem isWhole (h : IsRendered s) : ∀ t ∈ sqlTokens s, t.isWhole = true :=
  fun t ht => isWhole_of_mem_sqlTokens ht (h.closed t ht)

theorem toList_eq (h : IsRendered s) : s.toList = renderChars (sqlTokens s) := by
  rw [← String.toList_ofList (l := renderChars (sqlTokens s)), ← render, h.rendered]

theorem trim_eq (h : IsRendered s) : Text.trim s = s := by
  obtain ⟨hhead, hlast⟩ := isBlank_renderChars h.isWhole
  rw [Text.trim_eq_self_iff, h.toList_eq]
  exact Text.trimChars_eq_self hhead hlast

theorem reads {rest : List Char} (h : IsRendered s) (hrest : isSeparated rest = true) :
    Reads s.toList (sqlTokens s) rest := by
  rw [h.toList_eq]
  exact .render h.isWhole hrest

end IsRendered

end Provenance
