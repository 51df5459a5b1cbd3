import Provenance.Proofs.Definition.DeclaredRoutine
import Provenance.Proofs.Token.Reads

/-!
# The optional `AS` of a parameter

`AS` between the name and the type of a parameter is passed over, but it is also one of the
words that end a list of parameters. In parentheses a marked declaration is read like one without
the marker. A list that is followed by the body ends at the first marker.
-/

namespace Provenance

/-! ## Declarations -/

/-- Whether a token can stand outside the parentheses of a declaration in a list that a body
follows. -/
def staysDeclared (t : Token) : Bool := !t.isMark ',' && !endsParameters t

theorem staysDeclared_of_isWord {t : Token} (hword : t.isWord = true) (h : t.keyword? = none) :
    staysDeclared t = true := by
  simp [staysDeclared, Token.not_isMark_of_isWord hword, endsParameters_of_keyword? h]

namespace Declaration

def body (d : Declaration) : List Token :=
  d.type ++ (d.readOnly.toList ++ (d.initialTokens ++ d.output.toList))

def unmarked (d : Declaration) : Declaration := { d with marker := none }

/-- The parameter that is read, whatever the words of the type and of the default value are. -/
def reading (d : Declaration) : Parameter where
  name := d.name.text
  dataType := render (typeTokens (breakOutside (Token.isMark '=') d.body).1)
  isOutput := d.body.any isOutputMark

/-- Declarations in which no comma and no word that ends a list of parameters stands outside
parentheses, apart from the marker. -/
structure IsContained (d : Declaration) : Prop where
  name : d.name.isVariable = true
  marker : ∀ t ∈ d.marker, t.is .AS = true
  type : HoldsOutside (fun t => staysDeclared t = true) d.type
  readOnly : ∀ t ∈ d.readOnly, t.spells "READONLY" = true
  initial : ∀ value ∈ d.initial, HoldsOutside (fun t => staysDeclared t = true) value
  output : ∀ t ∈ d.output, isOutputMark t = true

instance (d : Declaration) : Decidable d.IsContained :=
  decidable_of_iff
    (d.name.isVariable = true ∧ (∀ t ∈ d.marker, t.is .AS = true) ∧
      HoldsOutside (fun t => staysDeclared t = true) d.type ∧
      (∀ t ∈ d.readOnly, t.spells "READONLY" = true) ∧
      (∀ value ∈ d.initial, HoldsOutside (fun t => staysDeclared t = true) value) ∧
      ∀ t ∈ d.output, isOutputMark t = true)
    ⟨fun ⟨name, marker, type, readOnly, initial, output⟩ =>
        ⟨name, marker, type, readOnly, initial, output⟩,
      fun h => ⟨h.name, h.marker, h.type, h.readOnly, h.initial, h.output⟩⟩

variable {d : Declaration}

theorem tokens_eq (d : Declaration) : d.tokens = d.name :: (d.marker.toList ++ d.body) := by
  simp [tokens, typedTokens, body]

theorem IsContained.unmarked (h : d.IsContained) : d.unmarked.IsContained where
  name := h.name
  marker := by simp [Declaration.unmarked]
  type := h.type
  readOnly := h.readOnly
  initial := h.initial
  output := h.output

theorem IsContained.holdsOutside_body (h : d.IsContained) :
    HoldsOutside (fun t => staysDeclared t = true) d.body := by
  have hreadOnly : HoldsOutside (fun t => staysDeclared t = true) d.readOnly.toList := by
    apply HoldsOutside.of_isFlat
    intro t ht
    have hspells := h.readOnly t (Option.mem_toList.mp ht)
    have hword := Token.isWord_of_spells hspells
    refine ⟨Token.isFlat_of_isWord hword, staysDeclared_of_isWord hword ?_⟩
    rw [Token.keyword?_of_spells hspells]
    decide +kernel
  have hinitial : HoldsOutside (fun t => staysDeclared t = true) d.initialTokens := by
    unfold initialTokens
    cases hvalue : d.initial with
    | none => exact .of_isFlat (by simp)
    | some value => exact (h.initial value hvalue).cons (by decide) (by decide)
  have houtput : HoldsOutside (fun t => staysDeclared t = true) d.output.toList := by
    apply HoldsOutside.of_isFlat
    intro t ht
    have hmark := h.output t (Option.mem_toList.mp ht)
    have hword := isWord_of_isOutputMark hmark
    exact ⟨Token.isFlat_of_isWord hword,
      staysDeclared_of_isWord hword (keyword?_of_isOutputMark hmark)⟩
  exact h.type.append (hreadOnly.append (hinitial.append houtput))

theorem exists_joined_eq_cons {ds : List Declaration} (hne : ds ≠ [])
    (h : ∀ d ∈ ds, d.IsContained) :
    ∃ t ts, [Token.mark ','].intercalate (ds.map tokens) = t :: ts ∧ t.isVariable = true := by
  obtain ⟨d, ds, rfl⟩ := List.exists_cons_of_ne_nil hne
  have hname := (h d (by simp)).name
  cases ds with
  | nil => exact ⟨d.name, _, List.intercalate_singleton, hname⟩
  | cons next ds => exact ⟨d.name, _, joined_cons_cons .., hname⟩

theorem IsContained.isPiece_tokens (h : d.IsContained) : isPiece d.tokens = true := by
  have hmarker : HoldsOutside (fun t => t.isMark ',' = false) d.marker.toList := by
    apply HoldsOutside.of_isFlat
    intro t ht
    have has := h.marker t (Option.mem_toList.mp ht)
    exact ⟨Token.isFlat_of_is has, Token.not_isMark_of_isWord (Token.isWord_of_is has) ','⟩
  have hbody : HoldsOutside (fun t => t.isMark ',' = false) d.body := by
    apply h.holdsOutside_body.imp
    intro t ht
    simp only [staysDeclared, Bool.and_eq_true, Bool.not_eq_true'] at ht
    exact ht.1
  have hname := Token.isWord_of_isVariable h.name
  have htokens : HoldsOutside (fun t => t.isMark ',' = false) d.tokens := by
    rw [tokens_eq]
    exact (hmarker.append hbody).cons (Token.isFlat_of_isWord hname)
      (Token.not_isMark_of_isWord hname ',')
  have hempty : d.tokens.isEmpty = false := rfl
  simpa [isPiece, hempty, htokens.balanced] using htokens.outside

theorem IsContained.holdsOutside_tokens (h : d.IsContained) (hmarker : d.marker = none) :
    HoldsOutside (fun t => endsParameters t = false) d.tokens := by
  have hbody : HoldsOutside (fun t => endsParameters t = false) d.body := by
    apply h.holdsOutside_body.imp
    intro t ht
    simp only [staysDeclared, Bool.and_eq_true, Bool.not_eq_true'] at ht
    exact ht.2
  rw [tokens_eq, hmarker]
  exact hbody.cons (Token.isFlat_of_isWord (Token.isWord_of_isVariable h.name))
    (endsParameters_of_keyword? (Token.keyword?_of_isVariable h.name))

/-! ### Readings -/

/-- The type begins behind `AS`. No word that is left out of a type can bring a second `AS` to
its front. -/
theorem typeTokens_cons_marker {marker : Token} (hmarker : marker.is .AS = true)
    {ts : List Token} (hts : ∀ t ∈ outside 0 ts, t.is .AS = false) :
    typeTokens (marker :: ts) = typeTokens ts := by
  have hkept : (!isOutputMark marker && !marker.spells "READONLY") = true := by
    have hreadOnly := Token.not_spells_of_is (w := "READONLY") hmarker (by decide +kernel)
    simp [not_isOutputMark_of_is hmarker, hreadOnly]
  have hdropped : ∀ t ∈ ts, (!isOutputMark t && !t.spells "READONLY") = false →
      t.isFlat = true := by
    intro t ht hdrop
    simp only [Bool.and_eq_false_iff, Bool.not_eq_false'] at hdrop
    rcases hdrop with houtput | hreadOnly
    · exact Token.isFlat_of_isWord (isWord_of_isOutputMark houtput)
    · exact Token.isFlat_of_isWord (Token.isWord_of_spells hreadOnly)
  have hfirst := mem_outside_of_mem_head?_filter hdropped
  rw [typeTokens, typeTokens, List.filter_cons_of_pos (by simpa using hkept)]
  generalize ts.filter (fun t => !isOutputMark t && !t.spells "READONLY") = kept at hfirst
  cases kept with
  | nil => simp [skipKeyword, afterKeyword?, hmarker]
  | cons t kept =>
    have ht : t.is .AS = false := hts t (hfirst t rfl)
    simp [skipKeyword, afterKeyword?, hmarker, ht]

theorem breakOutside_cons_marker {marker : Token} (hmarker : marker.is .AS = true)
    (ts : List Token) :
    (breakOutside (Token.isMark '=') (marker :: ts)).1 =
      marker :: (breakOutside (Token.isMark '=') ts).1 := by
  have hassign := Token.not_isMark_of_isWord (Token.isWord_of_is hmarker) '='
  simp [breakOutside, breakAt, hassign, nesting_of_isFlat (Token.isFlat_of_is hmarker)]

theorem IsContained.parameter?_tokens (h : d.IsContained) :
    parameter? d.tokens = some d.reading := by
  have hname : d.tokens.dropWhile (fun t => !t.isVariable) = d.tokens := by
    rw [tokens, List.dropWhile_cons_of_neg (by simp [h.name])]
  rw [parameter?, hname, tokens_eq]
  cases hmarker : d.marker with
  | none => rfl
  | some marker =>
    have has := h.marker marker hmarker
    have hbefore : ∀ t ∈ outside 0 (breakOutside (Token.isMark '=') d.body).1,
        t.is .AS = false := by
      intro t ht
      have ht := h.holdsOutside_body.outside t (outside_breakOutside_subset _ _ ht)
      simp only [staysDeclared, endsParameters, List.any_cons, Bool.and_eq_true,
        Bool.not_eq_true', Bool.or_eq_false_iff] at ht
      exact ht.2.1
    simp [reading, breakOutside_cons_marker has, typeTokens_cons_marker has hbefore,
      not_isOutputMark_of_is has]

theorem ofTokens_of_isContained {ts : List Token} {ds : List Declaration}
    (hts : parameterTokens ts = [Token.mark ','].intercalate (ds.map tokens)) (hne : ds ≠ [])
    (hds : ∀ d ∈ ds, d.IsContained) : Signature.ofTokens ts = ⟨ds.map reading, true⟩ := by
  have hpieces : ∀ piece ∈ ds.map tokens, isPiece piece = true := by
    intro piece hpiece
    obtain ⟨d, hd, rfl⟩ := List.mem_map.mp hpiece
    exact (hds d hd).isPiece_tokens
  have hparameters : (ds.map tokens).filterMap parameter? = ds.map reading := by
    rw [List.filterMap_map, ← List.filterMap_eq_map]
    apply List.filterMap_congr
    intro d hd
    exact (hds d hd).parameter?_tokens
  have hvariable : (parameterTokens ts).any Token.isVariable = true := by
    obtain ⟨t, rest, ht, hname⟩ := exists_joined_eq_cons hne hds
    simp [hts, ht, hname]
  rw [Signature.ofTokens]
  simp only [hvariable, if_true]
  rw [hts, splitCommas_intercalate hpieces, hparameters]

/-! ### The first marker -/

def named (d : Declaration) : Declaration := ⟨d.name, none, [], none, none, none⟩

/-- The declarations up to the first `AS`. Of the one with this `AS` the name is left. -/
def upToMarker : List Declaration → List Declaration
  | [] => []
  | d :: ds => if d.marker.isSome then [d.named] else d :: upToMarker ds

theorem IsContained.named (h : d.IsContained) : d.named.IsContained where
  name := h.name
  marker := by simp [Declaration.named]
  type := .of_isFlat (by simp [Declaration.named])
  readOnly := by simp [Declaration.named]
  initial := by simp [Declaration.named]
  output := by simp [Declaration.named]

theorem upToMarker_of_unmarked {ds : List Declaration} (h : ∀ d ∈ ds, d.marker = none) :
    upToMarker ds = ds := by
  induction ds with
  | nil => rfl
  | cons d ds ih =>
    have htail := ih fun e he => h e (List.mem_cons_of_mem d he)
    simp [upToMarker, h d (by simp), htail]

theorem upToMarker_ne_nil {ds : List Declaration} (h : ds ≠ []) : upToMarker ds ≠ [] := by
  obtain ⟨d, ds, rfl⟩ := List.exists_cons_of_ne_nil h
  rw [upToMarker]
  split <;> simp

theorem forall_mem_upToMarker {ds : List Declaration} (h : ∀ d ∈ ds, d.IsContained) :
    ∀ d ∈ upToMarker ds, d.IsContained ∧ d.marker = none := by
  induction ds with
  | nil => simp [upToMarker]
  | cons d ds ih =>
    intro e he
    rw [upToMarker] at he
    cases hmarker : d.marker with
    | some t =>
      obtain rfl : e = d.named := by simpa [hmarker] using he
      exact ⟨(h d (by simp)).named, rfl⟩
    | none =>
      rcases List.mem_cons.mp (by simpa [hmarker] using he) with rfl | he
      · exact ⟨h e (by simp), hmarker⟩
      · exact ih (fun c hc => h c (List.mem_cons_of_mem d hc)) e he

/-- Joined declarations in front of a body begin with those up to the first `AS`, and then comes
a word that ends a list of parameters. -/
theorem joined_upToMarker {ds : List Declaration} (h : ∀ d ∈ ds, d.IsContained)
    {rest : List Token} (hrest : ∀ t ∈ rest.head?, endsParameters t = true) :
    ∃ tail, [Token.mark ','].intercalate (ds.map tokens) ++ rest =
        [Token.mark ','].intercalate ((upToMarker ds).map tokens) ++ tail ∧
      ∀ t ∈ tail.head?, endsParameters t = true := by
  induction ds with
  | nil => exact ⟨rest, by simp [upToMarker], hrest⟩
  | cons d ds ih =>
    cases hmarker : d.marker with
    | some t =>
      have hends : endsParameters t = true := by
        simp [endsParameters, (h d (by simp)).marker t hmarker]
      obtain ⟨after, hafter⟩ : ∃ after,
          [Token.mark ','].intercalate ((d :: ds).map tokens) = d.tokens ++ after := by
        cases ds with
        | nil => exact ⟨[], by simp [List.intercalate_singleton]⟩
        | cons next ds => exact ⟨_, joined_cons_cons ..⟩
      have hname : [Token.mark ','].intercalate ((upToMarker (d :: ds)).map tokens) =
          [d.name] := by
        simp [upToMarker, hmarker, named, tokens_eq, body, initialTokens,
          List.intercalate_singleton]
      refine ⟨t :: (d.body ++ (after ++ rest)), ?_, by simp [hends]⟩
      rw [hafter, hname, tokens_eq, hmarker]
      simp
    | none =>
      cases ds with
      | nil => exact ⟨rest, by simp [upToMarker, hmarker], hrest⟩
      | cons next ds =>
        obtain ⟨tail, htail, hends⟩ := ih fun e he => h e (List.mem_cons_of_mem d he)
        obtain ⟨first, more, hmore⟩ := List.exists_cons_of_ne_nil
          (upToMarker_ne_nil (List.cons_ne_nil next ds))
        refine ⟨tail, ?_, hends⟩
        rw [upToMarker, hmarker, hmore, if_neg (by simp)]
        rw [hmore, List.map_cons, List.map_cons] at htail
        simp only [List.map_cons, joined_cons_cons]
        simp [htail]

end Declaration

/-! ## Routines -/

namespace DeclaredRoutine

/-- The definition without the optional `AS` of its parameters. -/
def unmarked (r : DeclaredRoutine) : DeclaredRoutine :=
  { r with declarations := r.declarations.map Declaration.unmarked }

/-- Definitions with contained declarations, which stand in parentheses or are followed by a
body. -/
structure IsContained (r : DeclaredRoutine) : Prop where
  verb : isVerb r.verb = true
  kind : isRoutineKeyword r.kind = true
  name : r.name.IsProper
  nonempty : r.declarations ≠ []
  declarations : ∀ d ∈ r.declarations, d.IsContained
  rest : r.enclosed = false → ∀ t ∈ r.rest.head?, endsParameters t = true

instance (r : DeclaredRoutine) : Decidable r.IsContained :=
  decidable_of_iff
    (isVerb r.verb = true ∧ isRoutineKeyword r.kind = true ∧ r.name.IsProper ∧
      r.declarations ≠ [] ∧ (∀ d ∈ r.declarations, d.IsContained) ∧
      (r.enclosed = false → ∀ t ∈ r.rest.head?, endsParameters t = true))
    ⟨fun ⟨verb, kind, name, nonempty, declarations, rest⟩ =>
        ⟨verb, kind, name, nonempty, declarations, rest⟩,
      fun h => ⟨h.verb, h.kind, h.name, h.nonempty, h.declarations, h.rest⟩⟩

variable {r : DeclaredRoutine}

theorem IsContained.unmarked (h : r.IsContained) : r.unmarked.IsContained where
  verb := h.verb
  kind := h.kind
  name := h.name
  nonempty := by simpa [DeclaredRoutine.unmarked] using h.nonempty
  declarations := by
    intro d hd
    obtain ⟨e, he, rfl⟩ := List.mem_map.mp hd
    exact (h.declarations e he).unmarked
  rest := h.rest

theorem IsContained.parameterTokens_tokens (h : r.IsContained) :
    parameterTokens r.tokens = parameterList r.signatureTokens :=
  parameterTokens_eq h.verb h.kind h.name
    (Declaration.exists_joined_eq_cons h.nonempty h.declarations)

theorem IsContained.ofTokens_of_enclosed (h : r.IsContained) (henclosed : r.enclosed = true) :
    Signature.ofTokens r.tokens = ⟨r.declarations.map Declaration.reading, true⟩ := by
  have hbalanced : HoldsOutside (fun _ => True) r.declarationTokens := by
    apply HoldsOutside.joined trivial
    intro piece hpiece
    obtain ⟨d, hd, rfl⟩ := List.mem_map.mp hpiece
    have hpiece := (h.declarations d hd).isPiece_tokens
    simp only [isPiece, Bool.and_eq_true] at hpiece
    exact ⟨hpiece.1.2, fun _ _ => trivial⟩
  have hlist : parameterTokens r.tokens = r.declarationTokens := by
    rw [h.parameterTokens_tokens, signatureTokens, henclosed, if_pos rfl, parameterList,
      group?_of_isBalanced hbalanced.balanced]
  exact Declaration.ofTokens_of_isContained hlist h.nonempty h.declarations

theorem IsContained.ofTokens_of_bare (h : r.IsContained) (hbare : r.enclosed = false) :
    Signature.ofTokens r.tokens =
      ⟨(Declaration.upToMarker r.declarations).map Declaration.reading, true⟩ := by
  have hread := Declaration.forall_mem_upToMarker h.declarations
  obtain ⟨tail, htail, hends⟩ := Declaration.joined_upToMarker h.declarations (h.rest hbare)
  have hlist : HoldsOutside (fun t => endsParameters t = false)
      ([Token.mark ','].intercalate
        ((Declaration.upToMarker r.declarations).map Declaration.tokens)) := by
    apply HoldsOutside.joined (by decide)
    intro piece hpiece
    obtain ⟨d, hd, rfl⟩ := List.mem_map.mp hpiece
    exact (hread d hd).1.holdsOutside_tokens (hread d hd).2
  have hgroup : group? (r.declarationTokens ++ r.rest) = none := by
    obtain ⟨t, ts, hts, ht⟩ := Declaration.exists_joined_eq_cons h.nonempty h.declarations
    have hopen := Token.not_isMark_of_isWord (Token.isWord_of_isVariable ht) '('
    simp [declarationTokens, hts, group?, hopen]
  have htokens : parameterTokens r.tokens = [Token.mark ','].intercalate
      ((Declaration.upToMarker r.declarations).map Declaration.tokens) := by
    rw [h.parameterTokens_tokens, signatureTokens, hbare, if_neg (by simp), parameterList, hgroup]
    rw [declarationTokens, htail, hlist.breakOutside_append hends]
  exact Declaration.ofTokens_of_isContained htokens (Declaration.upToMarker_ne_nil h.nonempty)
    fun d hd => (hread d hd).1

/-- In parentheses the `AS` of a parameter makes no difference. In a list that a body follows the
first `AS` ends the list, and its parameter has no type. -/
theorem parse_unmarked (h : r.IsContained) {sql plain : String} (hsql : sqlTokens sql = r.tokens)
    (hplain : sqlTokens plain = r.unmarked.tokens) :
    Signature.parse plain = ⟨r.declarations.map Declaration.reading, true⟩ ∧
      (r.enclosed = true → Signature.parse sql = Signature.parse plain) ∧
      (r.enclosed = false → Signature.parse sql =
        ⟨(Declaration.upToMarker r.declarations).map Declaration.reading, true⟩) := by
  have hunmarked : r.unmarked.declarations.map Declaration.reading =
      r.declarations.map Declaration.reading := by
    simp only [unmarked, List.map_map]
    rfl
  have hparse : Signature.parse plain = ⟨r.declarations.map Declaration.reading, true⟩ := by
    rw [Signature.parse, hplain, ← hunmarked]
    cases henclosed : r.enclosed with
    | true => exact h.unmarked.ofTokens_of_enclosed henclosed
    | false =>
      have hnone : ∀ d ∈ r.unmarked.declarations, d.marker = none := by
        simp [unmarked, Declaration.unmarked]
      rw [h.unmarked.ofTokens_of_bare henclosed, Declaration.upToMarker_of_unmarked hnone]
  refine ⟨hparse, fun henclosed => ?_, fun hbare => ?_⟩
  · rw [hparse, Signature.parse, hsql, h.ofTokens_of_enclosed henclosed]
  · rw [Signature.parse, hsql, h.ofTokens_of_bare hbare]

/-- A type with arguments, a default and an output, in parentheses. -/
theorem parse_unmarked_enclosed :
    let r : DeclaredRoutine :=
      { verb := [.word "ALTER"]
        kind := .word "proc"
        name := ⟨.word "dbo", [.word "p"]⟩
        declarations :=
          [{ name := .word "@a", marker := some (.word "as"), type := sqlTokens "decimal(10, 2)",
             readOnly := none, initial := some (sqlTokens "f(x AS y)"),
             output := some (.word "OUTPUT") },
           { name := .word "@b", marker := none, type := [.word "int"], readOnly := none,
             initial := none, output := none }]
        enclosed := true
        rest := sqlTokens "WITH RECOMPILE AS RETURN" }
    let sql := "ALTER proc dbo.p (@a as decimal(10, 2) = f(x AS y) OUTPUT, @b int)
      WITH RECOMPILE AS RETURN"
    let plain := "ALTER proc dbo.p (@a decimal(10, 2) = f(x AS y) OUTPUT, @b int)
      WITH RECOMPILE AS RETURN"
    r.IsContained ∧ sqlTokens sql = r.tokens ∧ sqlTokens plain = r.unmarked.tokens ∧
      Signature.parse plain = ⟨[⟨"@a", "decimal(10,2)", true⟩, ⟨"@b", "int", false⟩], true⟩ ∧
      Signature.parse sql = Signature.parse plain := by
  intro r sql plain
  have htype : sqlTokens "decimal(10, 2)" =
      [.word "decimal", .mark '(', .word "10", .mark ',', .word "2", .mark ')'] :=
    (sqlTokens_ofList _).trans (by decide +kernel)
  have hinitial : sqlTokens "f(x AS y)" =
      [.word "f", .mark '(', .word "x", .word "AS", .word "y", .mark ')'] :=
    (sqlTokens_ofList _).trans (by decide +kernel)
  have hrest : sqlTokens "WITH RECOMPILE AS RETURN" =
      [.word "WITH", .word "RECOMPILE", .word "AS", .word "RETURN"] :=
    (sqlTokens_ofList _).trans (by decide +kernel)
  have h : r.IsContained := by
    simp only [r, htype, hinitial, hrest]
    decide +kernel
  have hsql : sqlTokens sql = r.tokens := by
    simp only [r, htype, hinitial, hrest]
    exact (sqlTokens_ofList _).trans (by decide +kernel)
  have hplain : sqlTokens plain = r.unmarked.tokens := by
    simp only [r, htype, hinitial, hrest]
    exact (sqlTokens_ofList _).trans (by decide +kernel)
  have hreadings : r.declarations.map Declaration.reading =
      [⟨"@a", "decimal(10,2)", true⟩, ⟨"@b", "int", false⟩] := by
    simp only [r, htype]
    decide +kernel
  obtain ⟨hparse, henclosed, -⟩ := parse_unmarked h hsql hplain
  exact ⟨h, hsql, hplain, hreadings ▸ hparse, henclosed rfl⟩

/-- Without parentheses the parameters behind the first `AS` are lost, and so is the type. -/
theorem parse_ne_of_bare :
    let r : DeclaredRoutine :=
      { verb := [.word "CREATE"]
        kind := .word "PROCEDURE"
        name := ⟨.word "p", []⟩
        declarations :=
          [{ name := .word "@a", marker := some (.word "AS"), type := [.word "int"],
             readOnly := none, initial := none, output := none },
           { name := .word "@b", marker := none, type := [.word "int"], readOnly := none,
             initial := none, output := none }]
        enclosed := false
        rest := sqlTokens "AS SELECT 1" }
    let sql := "CREATE PROCEDURE p @a AS int, @b int AS SELECT 1"
    let plain := "CREATE PROCEDURE p @a int, @b int AS SELECT 1"
    r.IsContained ∧ sqlTokens sql = r.tokens ∧ sqlTokens plain = r.unmarked.tokens ∧
      Signature.parse sql = ⟨[⟨"@a", "", false⟩], true⟩ ∧
      Signature.parse plain = ⟨[⟨"@a", "int", false⟩, ⟨"@b", "int", false⟩], true⟩ ∧
      Signature.parse sql ≠ Signature.parse plain := by
  intro r sql plain
  have hrest : sqlTokens "AS SELECT 1" = [.word "AS", .word "SELECT", .word "1"] :=
    (sqlTokens_ofList _).trans (by decide +kernel)
  have hsql : sqlTokens sql = r.tokens := by
    simp only [r, hrest]
    exact (sqlTokens_ofList _).trans (by decide +kernel)
  have hplain : sqlTokens plain = r.unmarked.tokens := by
    simp only [r, hrest]
    exact (sqlTokens_ofList _).trans (by decide +kernel)
  simp only [Signature.parse, hsql, hplain]
  simp only [r, hrest]
  decide +kernel

end DeclaredRoutine

end Provenance
