import Provenance.Definition.Routine
import Provenance.Proofs.Token.Depth
import Provenance.Proofs.Token.QualifiedNames

/-!
# Declarations of parameters

A declaration is `@name [AS] type [READONLY] [= default] [OUTPUT]`. Declarations joined by commas
are read one by one, in parentheses or up to the body of the routine, whatever stands in the
parentheses of their types and defaults.
-/

namespace Provenance

/-! ## Tokens outside parentheses -/

/-- Whether the parentheses of tokens match and `p` holds of all tokens outside them. -/
structure HoldsOutside (p : Token → Prop) (ts : List Token) : Prop where
  balanced : isBalanced ts = true
  outside : ∀ t ∈ outside 0 ts, p t

namespace HoldsOutside

variable {p : Token → Prop} {ts us : List Token} {t : Token}

instance [DecidablePred p] : Decidable (HoldsOutside p ts) :=
  decidable_of_iff (isBalanced ts = true ∧ ∀ t ∈ Provenance.outside 0 ts, p t)
    ⟨fun ⟨balanced, outside⟩ => ⟨balanced, outside⟩, fun h => ⟨h.balanced, h.outside⟩⟩

theorem imp {q : Token → Prop} (h : HoldsOutside p ts) (hpq : ∀ t, p t → q t) :
    HoldsOutside q ts :=
  ⟨h.balanced, fun t ht => hpq t (h.outside t ht)⟩

theorem append (hts : HoldsOutside p ts) (hus : HoldsOutside p us) :
    HoldsOutside p (ts ++ us) where
  balanced := isBalanced_append hts.balanced hus.balanced
  outside := by
    intro t ht
    rw [outside_append, net_of_isBalanced hts.balanced, Int.add_zero] at ht
    rcases List.mem_append.mp ht with ht | ht
    · exact hts.outside t ht
    · exact hus.outside t ht

theorem of_isFlat (h : ∀ t ∈ ts, t.isFlat = true ∧ p t) : HoldsOutside p ts where
  balanced := isBalanced_of_isFlat fun t ht => (h t ht).1
  outside := fun t ht => (h t (outside_subset ht)).2

theorem cons (hflat : t.isFlat = true) (ht : p t) (hts : HoldsOutside p ts) :
    HoldsOutside p (t :: ts) := by
  have hsingle : HoldsOutside p [t] := of_isFlat (by simp [hflat, ht])
  exact hsingle.append hts

theorem joined (hcomma : p (.mark ',')) {pieces : List (List Token)}
    (h : ∀ piece ∈ pieces, HoldsOutside p piece) :
    HoldsOutside p ([Token.mark ','].intercalate pieces) := by
  obtain ⟨hbalanced, houtside⟩ := isBalanced_joined hcomma
    (fun piece hpiece => (h piece hpiece).balanced)
    (fun piece hpiece => (h piece hpiece).outside)
  exact ⟨hbalanced, houtside⟩

theorem breakOutside_append {stop : Token → Bool}
    (h : HoldsOutside (fun t => stop t = false) ts) {rest : List Token}
    (hrest : ∀ t ∈ rest.head?, stop t = true) :
    breakOutside stop (ts ++ rest) = (ts, rest) := by
  have hstop : breakAt stop 0 rest = ([], rest) := by
    cases rest with
    | nil => rfl
    | cons t rest => simp [breakAt, hrest t rfl]
  rw [breakOutside, breakAt_append h.outside, net_of_isBalanced h.balanced, Int.add_zero, hstop,
    List.append_nil]

end HoldsOutside

/-! ## Declarations -/

structure Declaration where
  name : Token
  /-- The `AS` in front of the type. -/
  marker : Option Token
  type : List Token
  readOnly : Option Token
  /-- The tokens after `=`. -/
  initial : Option (List Token)
  output : Option Token
  deriving DecidableEq, Repr

namespace Declaration

def typedTokens (d : Declaration) : List Token :=
  d.marker.toList ++ (d.type ++ d.readOnly.toList)

def initialTokens (d : Declaration) : List Token :=
  match d.initial with
  | some value => .mark '=' :: value
  | none => []

def tokens (d : Declaration) : List Token :=
  d.name :: (d.typedTokens ++ (d.initialTokens ++ d.output.toList))

def parameter (d : Declaration) : Parameter where
  name := d.name.text
  dataType := render d.type
  isOutput := d.output.isSome

/-- Declarations with a type that is not empty. No comma stands outside parentheses in it, no `=`
ends it, and no word in it or in the default value marks an output. -/
structure IsProper (d : Declaration) : Prop where
  name : d.name.isVariable = true
  marker : ∀ t ∈ d.marker, t.is .AS = true
  nonempty : d.type ≠ []
  first : ∀ t ∈ d.type.head?, t.is .AS = false
  balanced : isBalanced d.type = true
  type : ∀ t ∈ outside 0 d.type, t.isMark ',' = false ∧ t.isMark '=' = false
  unmarked : ∀ t ∈ d.type, isOutputMark t = false ∧ t.spells "READONLY" = false
  readOnly : ∀ t ∈ d.readOnly, t.spells "READONLY" = true
  initial : ∀ value ∈ d.initial, isBalanced value = true ∧
    (∀ t ∈ outside 0 value, t.isMark ',' = false) ∧ ∀ t ∈ value, isOutputMark t = false
  output : ∀ t ∈ d.output, isOutputMark t = true

instance (d : Declaration) : Decidable d.IsProper :=
  decidable_of_iff
    (d.name.isVariable = true ∧ (∀ t ∈ d.marker, t.is .AS = true) ∧ d.type ≠ [] ∧
      (∀ t ∈ d.type.head?, t.is .AS = false) ∧ isBalanced d.type = true ∧
      (∀ t ∈ outside 0 d.type, t.isMark ',' = false ∧ t.isMark '=' = false) ∧
      (∀ t ∈ d.type, isOutputMark t = false ∧ t.spells "READONLY" = false) ∧
      (∀ t ∈ d.readOnly, t.spells "READONLY" = true) ∧
      (∀ value ∈ d.initial, isBalanced value = true ∧
        (∀ t ∈ outside 0 value, t.isMark ',' = false) ∧ ∀ t ∈ value, isOutputMark t = false) ∧
      ∀ t ∈ d.output, isOutputMark t = true)
    ⟨fun ⟨name, marker, nonempty, first, balanced, type, unmarked, readOnly, initial, output⟩ =>
        ⟨name, marker, nonempty, first, balanced, type, unmarked, readOnly, initial, output⟩,
      fun h => ⟨h.name, h.marker, h.nonempty, h.first, h.balanced, h.type, h.unmarked, h.readOnly,
        h.initial, h.output⟩⟩

/-- Declarations that can stand without parentheses: nothing in them begins the body of a
routine. -/
structure IsBare (d : Declaration) : Prop where
  marker : d.marker = none
  type : ∀ t ∈ outside 0 d.type, endsParameters t = false
  initial : ∀ value ∈ d.initial, ∀ t ∈ outside 0 value, endsParameters t = false

instance (d : Declaration) : Decidable d.IsBare :=
  decidable_of_iff
    (d.marker = none ∧ (∀ t ∈ outside 0 d.type, endsParameters t = false) ∧
      ∀ value ∈ d.initial, ∀ t ∈ outside 0 value, endsParameters t = false)
    ⟨fun ⟨marker, type, initial⟩ => ⟨marker, type, initial⟩,
      fun h => ⟨h.marker, h.type, h.initial⟩⟩

end Declaration

theorem endsParameters_of_keyword? {t : Token} (h : t.keyword? = none) :
    endsParameters t = false := by
  simp [endsParameters, Token.is, h]

theorem keyword?_of_isOutputMark {t : Token} (h : isOutputMark t = true) : t.keyword? = none := by
  rcases Bool.or_eq_true _ _ ▸ h with hspells | hspells
  · rw [Token.keyword?_of_spells hspells]
    decide +kernel
  · rw [Token.keyword?_of_spells hspells]
    decide +kernel

theorem isWord_of_isOutputMark {t : Token} (h : isOutputMark t = true) : t.isWord = true := by
  rcases Bool.or_eq_true _ _ ▸ h with hspells | hspells <;> exact Token.isWord_of_spells hspells

theorem not_isOutputMark_of_is {t : Token} (h : t.is .AS = true) : isOutputMark t = false := by
  have houtput := Token.not_spells_of_is (w := "OUTPUT") h (by decide +kernel)
  have hout := Token.not_spells_of_is (w := "OUT") h (by decide +kernel)
  simp [isOutputMark, houtput, hout]

theorem not_isOutputMark_of_readOnly {t : Token} (h : t.spells "READONLY" = true) :
    isOutputMark t = false := by
  have houtput := Token.not_spells_of_spells (w := "OUTPUT") h (by decide +kernel)
  have hout := Token.not_spells_of_spells (w := "OUT") h (by decide +kernel)
  simp [isOutputMark, houtput, hout]

namespace Declaration

variable {d : Declaration}

/-- What holds outside the parentheses of the type, and of the words around it, holds outside the
parentheses of what stands before the default value. -/
theorem holdsOutside_typedTokens {p : Token → Prop} (h : d.IsProper)
    (hmarker : ∀ t ∈ d.marker, p t) (htype : ∀ t ∈ outside 0 d.type, p t)
    (hreadOnly : ∀ t ∈ d.readOnly, p t) : HoldsOutside p d.typedTokens := by
  have hbefore : HoldsOutside p d.marker.toList := by
    apply HoldsOutside.of_isFlat
    intro t ht
    have ht := Option.mem_toList.mp ht
    exact ⟨Token.isFlat_of_is (h.marker t ht), hmarker t ht⟩
  have hafter : HoldsOutside p d.readOnly.toList := by
    apply HoldsOutside.of_isFlat
    intro t ht
    have ht := Option.mem_toList.mp ht
    exact ⟨Token.isFlat_of_isWord (Token.isWord_of_spells (h.readOnly t ht)), hreadOnly t ht⟩
  have hbetween : HoldsOutside p d.type := ⟨h.balanced, htype⟩
  exact hbefore.append (hbetween.append hafter)

theorem holdsOutside_tokens {p : Token → Prop} (h : d.IsProper) (hname : p d.name)
    (htyped : HoldsOutside p d.typedTokens) (hassign : p (.mark '='))
    (hinitial : ∀ value ∈ d.initial, ∀ t ∈ outside 0 value, p t)
    (houtput : ∀ t ∈ d.output, p t) : HoldsOutside p d.tokens := by
  have hvalue : HoldsOutside p d.initialTokens := by
    unfold initialTokens
    cases hvalue : d.initial with
    | none => exact .of_isFlat (by simp)
    | some value =>
      have hvalue : HoldsOutside p value := ⟨(h.initial value hvalue).1, hinitial value hvalue⟩
      exact hvalue.cons (by decide) hassign
  have hmarked : HoldsOutside p d.output.toList := by
    apply HoldsOutside.of_isFlat
    intro t ht
    have ht := Option.mem_toList.mp ht
    exact ⟨Token.isFlat_of_isWord (isWord_of_isOutputMark (h.output t ht)), houtput t ht⟩
  have hword := Token.isWord_of_isVariable h.name
  exact (htyped.append (hvalue.append hmarked)).cons (Token.isFlat_of_isWord hword) hname

/-! ### Declarations as pieces between commas -/

theorem not_isMark_of_mem_marker (h : d.IsProper) {t : Token} (ht : t ∈ d.marker) (c : Char) :
    t.isMark c = false :=
  Token.not_isMark_of_isWord (Token.isWord_of_is (h.marker t ht)) c

theorem not_isMark_of_mem_readOnly (h : d.IsProper) {t : Token} (ht : t ∈ d.readOnly)
    (c : Char) : t.isMark c = false :=
  Token.not_isMark_of_isWord (Token.isWord_of_spells (h.readOnly t ht)) c

theorem not_isMark_of_mem_output (h : d.IsProper) {t : Token} (ht : t ∈ d.output) (c : Char) :
    t.isMark c = false :=
  Token.not_isMark_of_isWord (isWord_of_isOutputMark (h.output t ht)) c

theorem IsProper.isPiece_tokens (h : d.IsProper) : isPiece d.tokens = true := by
  have htyped : HoldsOutside (fun t => t.isMark ',' = false) d.typedTokens :=
    holdsOutside_typedTokens h (fun t ht => not_isMark_of_mem_marker h ht ',')
      (fun t ht => (h.type t ht).1) (fun t ht => not_isMark_of_mem_readOnly h ht ',')
  have htokens : HoldsOutside (fun t => t.isMark ',' = false) d.tokens :=
    holdsOutside_tokens h (Token.not_isMark_of_isWord (Token.isWord_of_isVariable h.name) ',')
      htyped (by decide) (fun value hvalue => (h.initial value hvalue).2.1)
      (fun t ht => not_isMark_of_mem_output h ht ',')
  have hempty : d.tokens.isEmpty = false := rfl
  simpa [isPiece, hempty, htokens.balanced] using htokens.outside

theorem IsBare.holdsOutside (hbare : d.IsBare) (h : d.IsProper) :
    HoldsOutside (fun t => endsParameters t = false) d.tokens := by
  have hmarker : ∀ t ∈ d.marker, endsParameters t = false := by simp [hbare.marker]
  have hreadOnly : ∀ t ∈ d.readOnly, endsParameters t = false := by
    intro t ht
    apply endsParameters_of_keyword?
    rw [Token.keyword?_of_spells (h.readOnly t ht)]
    decide +kernel
  have htyped := holdsOutside_typedTokens h hmarker hbare.type hreadOnly
  exact holdsOutside_tokens h (endsParameters_of_keyword? (Token.keyword?_of_isVariable h.name))
    htyped (by decide) hbare.initial
    fun t ht => endsParameters_of_keyword? (keyword?_of_isOutputMark (h.output t ht))

/-! ### Declarations as parameters -/

theorem breakOutside_tokens (h : d.IsProper) :
    ∃ marked, (breakOutside (Token.isMark '=')
        (d.typedTokens ++ (d.initialTokens ++ d.output.toList))).1 = d.typedTokens ++ marked ∧
      ∀ t ∈ marked, isOutputMark t = true := by
  have htyped : HoldsOutside (fun t => t.isMark '=' = false) d.typedTokens :=
    holdsOutside_typedTokens h (fun t ht => not_isMark_of_mem_marker h ht '=')
      (fun t ht => (h.type t ht).2) (fun t ht => not_isMark_of_mem_readOnly h ht '=')
  cases hinitial : d.initial with
  | some value =>
    refine ⟨[], ?_, by simp⟩
    have hassign : ∀ t ∈ (d.initialTokens ++ d.output.toList).head?, t.isMark '=' = true := by
      simp [initialTokens, hinitial, Token.isMark]
    rw [htyped.breakOutside_append hassign, List.append_nil]
  | none =>
    refine ⟨d.output.toList, ?_, fun t ht => h.output t (Option.mem_toList.mp ht)⟩
    have houtput : HoldsOutside (fun t => t.isMark '=' = false) d.output.toList := by
      apply HoldsOutside.of_isFlat
      intro t ht
      have ht := Option.mem_toList.mp ht
      have hword := isWord_of_isOutputMark (h.output t ht)
      exact ⟨Token.isFlat_of_isWord hword, not_isMark_of_mem_output h ht '='⟩
    have hnothing : ∀ t ∈ ([] : List Token).head?, t.isMark '=' = true := by simp
    have hwhole := (htyped.append houtput).breakOutside_append hnothing
    rw [List.append_nil] at hwhole
    rw [initialTokens, hinitial, List.nil_append, hwhole]

/-- The type is what is left without `AS`, `READONLY` and the mark of an output. -/
theorem typeTokens_append (h : d.IsProper) {marked : List Token}
    (hmarked : ∀ t ∈ marked, isOutputMark t = true) :
    typeTokens (d.typedTokens ++ marked) = d.type := by
  have hmarker : d.marker.toList.filter (fun t => !isOutputMark t && !t.spells "READONLY") =
      d.marker.toList := by
    apply List.filter_eq_self.mpr
    intro t ht
    have has := h.marker t (Option.mem_toList.mp ht)
    have hreadOnly := Token.not_spells_of_is (w := "READONLY") has (by decide +kernel)
    simp [not_isOutputMark_of_is has, hreadOnly]
  have htype : d.type.filter (fun t => !isOutputMark t && !t.spells "READONLY") = d.type := by
    apply List.filter_eq_self.mpr
    intro t ht
    obtain ⟨houtput, hreadOnly⟩ := h.unmarked t ht
    simp [houtput, hreadOnly]
  have hreadOnly : d.readOnly.toList.filter
      (fun t => !isOutputMark t && !t.spells "READONLY") = [] := by
    apply List.filter_eq_nil_iff.mpr
    intro t ht
    simp [h.readOnly t (Option.mem_toList.mp ht)]
  have hmarks : marked.filter (fun t => !isOutputMark t && !t.spells "READONLY") = [] := by
    apply List.filter_eq_nil_iff.mpr
    intro t ht
    simp [hmarked t ht]
  obtain ⟨t, ts, hts⟩ := List.exists_cons_of_ne_nil h.nonempty
  have hfirst : t.is .AS = false := h.first t (by simp [hts])
  rw [typeTokens, typedTokens, List.filter_append, List.filter_append, List.filter_append, hmarker,
    htype, hreadOnly, hmarks, List.append_nil, List.append_nil]
  cases hmark : d.marker with
  | none => simp [skipKeyword, afterKeyword?, hts, hfirst]
  | some u => simp [skipKeyword, afterKeyword?, h.marker u hmark]

theorem any_isOutputMark (h : d.IsProper) :
    (d.typedTokens ++ (d.initialTokens ++ d.output.toList)).any isOutputMark =
      d.output.isSome := by
  have htyped : d.typedTokens.any isOutputMark = false := by
    rw [List.any_eq_false]
    intro t ht
    simp only [typedTokens, List.mem_append, Option.mem_toList] at ht
    rcases ht with ht | ht | ht
    · simp [not_isOutputMark_of_is (h.marker t ht)]
    · simp [(h.unmarked t ht).1]
    · simp [not_isOutputMark_of_readOnly (h.readOnly t ht)]
  have hinitial : d.initialTokens.any isOutputMark = false := by
    have hassign : isOutputMark (.mark '=') = false := by decide
    rw [List.any_eq_false]
    intro t ht
    unfold initialTokens at ht
    cases hvalue : d.initial with
    | none => simp [hvalue] at ht
    | some value =>
      rw [hvalue] at ht
      rcases List.mem_cons.mp ht with rfl | ht
      · simp [hassign]
      · simp [(h.initial value hvalue).2.2 t ht]
  rw [List.any_append, htyped, List.any_append, hinitial, Bool.false_or, Bool.false_or]
  cases houtput : d.output with
  | none => rfl
  | some t => simp [h.output t houtput]

theorem IsProper.parameter?_tokens (h : d.IsProper) :
    Provenance.parameter? d.tokens = some d.parameter := by
  have hname : d.tokens.dropWhile (fun t => !t.isVariable) = d.tokens := by
    rw [tokens, List.dropWhile_cons_of_neg (by simp [h.name])]
  obtain ⟨marked, hbreak, hmarked⟩ := breakOutside_tokens h
  have htype := typeTokens_append h hmarked
  rw [Provenance.parameter?, hname, tokens]
  simp only [hbreak, htype, any_isOutputMark h]
  rfl

end Declaration

end Provenance
