import Provenance.Proofs.Token.QualifiedNames
import Provenance.Proofs.Token.Rendered

/-!
# Written names

A name in generated SQL is one token that names something: it is never reserved, a keyword, a
number or a variable, whatever characters it has. Read back it is the name again, less the blanks
at its ends. An id is written as its two parts with a full stop between them.
-/

namespace Provenance

namespace Identifier

def token (name : String) : Token :=
  if isRegular name && !spellsReserved name then .word name else .delimited (written name)

theorem token_text (name : String) : (token name).text = written name := by
  unfold token
  split
  · rename_i h
    rw [written, if_pos h]
    rfl
  · rfl

theorem token_cases (name : String) :
    (token name = .word name ∧ isRegular name = true ∧ spellsReserved name = false) ∨
      token name = .delimited (String.ofList ('[' :: double ']' name.toList ++ [']'])) := by
  unfold token written
  by_cases h : isRegular name && !spellsReserved name
  · left
    simp only [Bool.and_eq_true, Bool.not_eq_true'] at h
    simp [h.1, h.2]
  · right
    simp only [if_neg h]

theorem isRegular_cons {name : String} (h : isRegular name = true) :
    ∃ c rest, name.toList = c :: rest ∧ isRegularFirst c = true ∧
      ∀ d ∈ c :: rest, isRegularNext d = true := by
  unfold isRegular at h
  split at h
  · simp at h
  · rename_i c rest hname
    simp only [Bool.and_eq_true, List.all_eq_true] at h
    refine ⟨c, rest, hname, h.1, ?_⟩
    rintro d hd
    rcases List.mem_cons.mp hd with rfl | hd
    · exact isRegularNext_of_isRegularFirst h.1
    · exact h.2 d hd

theorem closes_double (close : Char) (cs : List Char) :
    closes close (double close cs ++ [close]) = true := by
  induction cs with
  | nil => simp [double, closes]
  | cons c cs ih =>
    rw [double] at ih ⊢
    by_cases hc : c = close
    · simpa [closes, hc] using ih
    · cases h : (cs.flatMap fun d => if d = close then [close, close] else [d]) ++ [close] with
      | nil => simp at h
      | cons d rest =>
        rw [h] at ih
        simp [hc, h, closes, ih]

theorem token_isWhole (name : String) : (token name).isWhole = true := by
  rcases token_cases name with ⟨h, hregular, -⟩ | h
  · obtain ⟨c, rest, hname, -, hall⟩ := isRegular_cons hregular
    rw [h]
    simp only [Token.isWhole, hname, List.isEmpty_cons, Bool.not_false, Bool.true_and,
      List.all_eq_true]
    exact fun d hd => inWord_of_isRegularNext (hall d hd)
  · rw [h]
    simpa [Token.isWhole, closer] using closes_double ']' name.toList

theorem token_beginsWith {p : Char → Bool}
    (hp : ∀ n < 128, isRegularFirst (Char.ofNat n) = true → p (Char.ofNat n) = false)
    (name : String) : (token name).beginsWith p = false := by
  rcases token_cases name with ⟨h, hregular, -⟩ | h
  · obtain ⟨c, rest, hname, hfirst, -⟩ := isRegular_cons hregular
    have hc := Text.char_of_ascii (p := fun c => isRegularFirst c = true → p c = false) hp
      (toNat_lt_of_isRegularNext (isRegularNext_of_isRegularFirst hfirst))
    rw [h]
    simp [Token.beginsWith, hname, hc hfirst]
  · rw [h]
    rfl

theorem token_isNumber (name : String) : (token name).isNumber = false :=
  token_beginsWith (by decide +kernel) name

theorem token_isVariable (name : String) : (token name).isVariable = false :=
  token_beginsWith (by decide +kernel) name

theorem token_isPlainName (name : String) : (token name).isPlainName = true := by
  rcases token_cases name with ⟨h, hregular, hreserved⟩ | h
  · have hnumber := token_isNumber name
    have hvariable := token_isVariable name
    obtain ⟨c, rest, hname, -⟩ := isRegular_cons hregular
    have hne : name ≠ "" := by
      rintro rfl
      simp at hname
    rw [h] at hnumber hvariable ⊢
    simp [Token.isPlainName, Token.isName, Token.isWord, Token.isReserved, Token.text, hnumber,
      hvariable, hreserved, hne]
  · rw [h]
    simp [Token.isPlainName, Token.isName, Token.isWord, Token.isReserved, Token.isNumber,
      Token.isVariable, Token.beginsWith, Token.text]

theorem token_isName (name : String) : (token name).isName = true :=
  Token.isName_of_isPlainName (token_isPlainName name)

theorem token_isWord (name : String) : (token name).isWord = true :=
  Token.isWord_of_isName (token_isName name)

theorem token_isMark (name : String) (c : Char) : (token name).isMark c = false :=
  Token.not_isMark_of_isWord (token_isWord name) c

theorem token_isAscii (name : String) : (token name).isAscii = true := by
  rcases token_cases name with ⟨h, hregular, -⟩ | h
  · obtain ⟨c, rest, hname, -, hall⟩ := isRegular_cons hregular
    rw [h]
    simp only [Token.isAscii, hname, List.all_eq_true, decide_eq_true_eq]
    exact fun d hd => toNat_lt_of_isRegularNext (hall d hd)
  · rw [h]
    rfl

theorem token_keyword? (name : String) : (token name).keyword? = none :=
  Token.keyword?_of_isName (token_isAscii name) (token_isName name)

theorem token_is (name : String) (k : Keyword) : (token name).is k = false :=
  Token.is_eq_false_of_keyword? (token_keyword? name) k

theorem token_isReserved (name : String) : (token name).isReserved = false :=
  Token.not_isReserved_of_isName (token_isName name)

theorem token_spells {w : String} (hw : spellsReserved w = true) (name : String) :
    (token name).spells w = false := by
  cases h : (token name).spells w with
  | false => rfl
  | true =>
    have hreserved := Token.isReserved_of_spells hw h
    rw [token_isReserved] at hreserved
    exact absurd hreserved (by decide)

/-! ## Reading a written name -/

theorem undouble_double (c : Char) (cs : List Char) : undouble c (double c cs) = cs := by
  induction cs with
  | nil => rfl
  | cons d cs ih =>
    rw [double] at ih ⊢
    by_cases hd : d = c
    · simp [undouble, hd, ih]
    · cases h : cs.flatMap fun e => if e = c then [c, c] else [e] with
      | nil =>
        rw [h] at ih
        simp [hd, undouble, ← ih]
      | cons e rest =>
        rw [h] at ih
        simp [hd, h, undouble, ih]

theorem unwrap_double (close : Char) (cs : List Char) :
    unwrap close (double close cs ++ [close]) = Text.trimChars cs := by
  simp [unwrap, undouble_double]

theorem bareChars_bracketed (cs : List Char) :
    bareChars ('[' :: double ']' cs ++ [']']) = Text.trimChars cs := by
  have htrim : Text.trimChars ('[' :: double ']' cs ++ [']']) =
      '[' :: (double ']' cs ++ [']']) := by
    apply Text.trimChars_eq_self
    · intro c hc
      obtain rfl : '[' = c := by simpa using hc
      decide
    · intro c hc
      rw [List.getLast?_concat] at hc
      obtain rfl := Option.some.inj hc
      decide
  rw [bareChars, htrim]
  exact unwrap_double ']' cs

theorem bareChars_word {cs : List Char} (hcs : ∀ c ∈ cs, Text.inWord c = true) :
    bareChars cs = cs := by
  rw [bareChars, Text.trimChars_of_inWord hcs]
  split
  · exact absurd (hcs '[' (by simp)) (by decide)
  · exact absurd (hcs '"' (by simp)) (by decide)
  · rfl

theorem trimChars_bareChars (cs : List Char) : Text.trimChars (bareChars cs) = bareChars cs := by
  unfold bareChars
  split
  · exact Text.trimChars_trimChars _
  · exact Text.trimChars_trimChars _
  · exact Text.trimChars_trimChars cs

theorem trim_bare (written : String) : Text.trim (bare written) = bare written := by
  rw [Text.trim_eq_self_iff, bare, String.toList_ofList, trimChars_bareChars]

/-- A written name stands for the name without the blanks at its ends. -/
theorem bare_written (name : String) : bare (written name) = Text.trim name := by
  rw [← token_text]
  rcases token_cases name with ⟨h, hregular, -⟩ | h
  · obtain ⟨c, rest, hname, -, hall⟩ := isRegular_cons hregular
    have hword : ∀ d ∈ name.toList, Text.inWord d = true := by
      rw [hname]
      exact fun d hd => inWord_of_isRegularNext (hall d hd)
    rw [h, Token.text, bare, Text.trim, bareChars_word hword, Text.trimChars_of_inWord hword]
  · rw [h, Token.text, bare, Text.trim, String.toList_ofList, bareChars_bracketed]

theorem bare_token_text {name : String} (h : Text.trim name = name) :
    bare (token name).text = name := by
  rw [token_text, bare_written, h]

/-! ## Ids -/

def idTokens (id : String) : List Token :=
  match splitId? id with
  | some (schema, name) => [token schema, .mark '.', token name]
  | none => [token id]

theorem joinId_of_splitId? {id schema name : String} (h : splitId? id = some (schema, name)) :
    joinId [schema, name] = id := by
  unfold splitId? at h
  split at h
  · simp at h
  · rename_i c rest hdrop
    obtain ⟨rfl, rfl⟩ := Prod.mk.inj (Option.some.inj h)
    have hc : c = '.' := by
      have hhead := List.head?_dropWhile_not (· != '.') id.toList
      rw [hdrop] at hhead
      simpa using hhead
    have hjoin : ".".toList = ['.'] := by decide
    have hid := List.takeWhile_append_dropWhile (p := (· != '.')) (l := id.toList)
    rw [hdrop, hc] at hid
    rw [← String.toList_inj, joinId, String.toList_intercalate]
    simp only [List.map_cons, List.map_nil, String.toList_ofList, hjoin]
    rw [← hid]
    simp [List.intercalate, hid]

/-- The parts before and after the first full stop of an id, or the id if it has none. -/
def idParts (id : String) : List String :=
  match splitId? id with
  | some (schema, name) => [schema, name]
  | none => [id]

theorem joinId_idParts (id : String) : joinId (idParts id) = id := by
  unfold idParts
  split
  · rename_i h
    exact joinId_of_splitId? h
  · exact String.intercalate_singleton

/-- Whether the parts of an id are names as they are read: not empty and without blanks at their
ends. -/
def IsReadable (id : String) : Prop := ∀ part ∈ idParts id, part ≠ "" ∧ Text.trim part = part

instance (id : String) : Decidable (IsReadable id) :=
  inferInstanceAs (Decidable (∀ part ∈ idParts id, part ≠ "" ∧ Text.trim part = part))

theorem IsReadable.ne_empty {id : String} (h : IsReadable id) : id ≠ "" := by
  rintro rfl
  exact (h "" (by decide)).1 rfl

theorem idParts_cases (id : String) :
    idParts id = [id] ∨ ∃ schema name, idParts id = [schema, name] := by
  unfold idParts
  split
  · exact .inr ⟨_, _, rfl⟩
  · exact .inl rfl

theorem ne_dot_of_undotted {cs : List Char} (h : '.' ∉ cs) : ∀ c ∈ cs, (c != '.') = true := by
  intro c hc
  rw [bne_iff_ne]
  rintro rfl
  exact h hc

theorem idParts_of_undotted {id : String} (h : '.' ∉ id.toList) : idParts id = [id] := by
  have hdrop : (id.toList ++ []).dropWhile (· != '.') = [].dropWhile (· != '.') :=
    List.dropWhile_append_of_pos (ne_dot_of_undotted h)
  rw [List.append_nil, List.dropWhile_nil] at hdrop
  simp [idParts, splitId?, hdrop]

theorem lastTwo_append {α : Type} (xs : List α) {ys : List α} (h : 2 ≤ ys.length) :
    lastTwo (xs ++ ys) = lastTwo ys := by
  have hlength : (xs ++ ys).length - 2 = xs.length + (ys.length - 2) := by
    rw [List.length_append]
    omega
  rw [lastTwo, hlength, List.drop_length_add_append, lastTwo]

theorem length_lastTwo_le {α : Type} (xs : List α) : (lastTwo xs).length ≤ 2 := by
  rw [lastTwo, List.length_drop]
  omega

theorem lastTwo_idParts (id : String) : lastTwo (idParts id) = idParts id := by
  unfold idParts
  split <;> rfl

theorem qualifiedName?_idTokens (id : String) (rest : List Token)
    (hrest : ∀ t, rest.head? = some t → t.isMark '.' = false) :
    qualifiedName? (idTokens id ++ rest) = some ((idParts id).map written, rest) := by
  unfold idTokens idParts
  split
  · rename_i schema name h
    have hproper : (QualifiedName.mk (token schema) [token name]).IsProper :=
      ⟨token_isName schema, by simp [token_isWord, token_isNumber]⟩
    simpa [QualifiedName.tokens, QualifiedName.parts, token_text] using
      hproper.qualifiedName?_tokens_append hrest
  · have hproper : (QualifiedName.mk (token id) []).IsProper := ⟨token_isName id, by simp⟩
    simpa [QualifiedName.tokens, QualifiedName.parts, token_text] using
      hproper.qualifiedName?_tokens_append hrest

theorem map_bare_written {parts : List String} (h : ∀ p ∈ parts, Text.trim p = p) :
    (parts.map written).map bare = parts := by
  have hparts : parts.map (bare ∘ written) = parts.map id := by
    apply List.map_congr_left
    intro p hp
    rw [Function.comp_apply, bare_written, h p hp]
    rfl
  rw [List.map_map, hparts, List.map_id]

theorem writtenId_toList (id : String) : (writtenId id).toList = renderChars (idTokens id) := by
  unfold writtenId idTokens
  cases splitId? id with
  | none => simp [renderChars, token_text]
  | some parts =>
    have hjoin : ".".toList = ['.'] := by decide
    have hmark : (Token.mark '.').text.toList = ['.'] := String.toList_singleton '.'
    have hgap : gap (.mark '.') (token parts.2) = [] := rfl
    have hgap' : gap (token parts.1) (.mark '.') = [] := by
      simp [gap, Token.gluesBack, Token.gluesNext, Token.isMark]
    unfold joinId
    rw [String.toList_intercalate]
    simp [renderChars, token_text, hgap, hgap', hmark, hjoin, List.intercalate]

theorem idTokens_isWhole (id : String) : ∀ t ∈ idTokens id, t.isWhole = true := by
  unfold idTokens
  split
  · rintro t ht
    rcases (by simpa using ht) with rfl | rfl | rfl
    · exact token_isWhole _
    · decide
    · exact token_isWhole _
  · rintro t ht
    obtain rfl := List.mem_singleton.mp ht
    exact token_isWhole _

/-- A written id is cut up into its tokens, with nothing taken for a literal or comment. -/
theorem lex_writtenId (id : String) : lex (writtenId id) = idTokens id := by
  rw [lex, writtenId_toList, lexChars_renderChars (idTokens_isWhole id)]

theorem words_idTokens (id : String) :
    ((idTokens id).filter Token.isWord).map Token.text = (idParts id).map written := by
  have hdot : (Token.mark '.').isWord = false := rfl
  unfold idTokens idParts
  split <;> simp [token_isWord, token_text, hdot]

theorem is_of_mem_idTokens {id : String} {t : Token} (h : t ∈ idTokens id) (k : Keyword) :
    t.is k = false := by
  have hdot : ∀ k, (Token.mark '.').is k = false := fun _ => rfl
  unfold idTokens at h
  split at h
  · rcases (by simpa using h) with rfl | rfl | rfl
    · exact token_is _ k
    · exact hdot k
    · exact token_is _ k
  · obtain rfl := List.mem_singleton.mp h
    exact token_is _ k

end Identifier

theorem Reads.name {rest : List Char} (name : String) (hrest : isSeparated rest = true) :
    Reads (Identifier.written name).toList [Identifier.token name] rest := by
  rw [← Identifier.token_text]
  exact .single (Identifier.token name) (Identifier.token_isWhole name) hrest

theorem Reads.id {rest : List Char} (id : String) (hrest : isSeparated rest = true) :
    Reads (Identifier.writtenId id).toList (Identifier.idTokens id) rest := by
  rw [Identifier.writtenId_toList]
  exact .render (Identifier.idTokens_isWhole id) hrest

end Provenance
