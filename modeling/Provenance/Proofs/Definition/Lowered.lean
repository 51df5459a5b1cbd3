import Provenance.Definition.Routine
import Provenance.Definition.View
import Provenance.Proofs.Definition.Header
import Provenance.Proofs.Query.LoweredScope

/-!
# Definitions in small letters

Every reader of definitions finds in a text in small letters what it finds in the text, in small
letters, where the index and the known columns are in small letters as well. Types and flags are
the same.
-/

namespace Provenance

/-! ## Headers -/

theorem afterVerb?_lowered (ts : List Token) :
    afterVerb? (lowered ts) = (afterVerb? ts).map lowered := by
  cases ts with
  | nil => rfl
  | cons t rest =>
    rw [lowered_cons, afterVerb?, afterVerb?, Token.lowered_is, Token.lowered_is,
      afterKeyword?_lowered]
    split
    · cases afterKeyword? .OR rest with
      | none => rfl
      | some alternative => simp
    · split <;> rfl

/-- A header is found in the same place, if what ends the search and what is looked for are told
without regard to case. -/
theorem findHeader?_lowered {α : Type} {stop : Token → Bool} {kind? : Token → Option α}
    (hstop : ∀ t : Token, stop t.lowered = stop t) (hkind : ∀ t : Token, kind? t.lowered = kind? t)
    (ts : List Token) :
    findHeader? stop kind? (lowered ts) =
      (findHeader? stop kind? ts).map (Prod.map id lowered) := by
  have hverb : ∀ (t : Token) (rest : List Token), afterVerb? (t.lowered :: lowered rest) =
      (afterVerb? (t :: rest)).map lowered := fun t rest => afterVerb?_lowered (t :: rest)
  fun_induction findHeader? stop kind? ts with
  | case1 => simp [findHeader?]
  | case2 t rest h =>
    rw [lowered_cons, findHeader?_cons, hstop, if_pos h]
    rfl
  | case3 t rest h hafter ih => simp [findHeader?_cons, hstop, h, hverb, hafter, ih]
  | case4 t rest h hafter => simp [findHeader?_cons, hstop, h, hverb, hafter]
  | case5 t rest h u after hafter kind hu =>
    simp [findHeader?_cons, hstop, h, hverb, hafter, hkind, hu]
  | case6 t rest h u after hafter hu ih =>
    rw [lowered_cons] at ih
    rw [lowered_cons, findHeader?_cons, hverb, hafter]
    simp [hstop, h, hkind, hu, ih]

theorem ObjectKind.ofToken?_lowered (t : Token) : ofToken? t.lowered = ofToken? t := by
  simp [ofToken?]

namespace Header

def lowered (h : Header) : Header := { h with name := Text.asciiLower h.name }

theorem ofTokens?_lowered (ts : List Token) :
    ofTokens? (Provenance.lowered ts) = (ofTokens? ts).map lowered := by
  unfold ofTokens?
  rw [findHeader?_lowered (fun t => rfl) ObjectKind.ofToken?_lowered]
  cases findHeader? (fun _ => false) ObjectKind.ofToken? ts with
  | none => rfl
  | some found =>
    obtain ⟨kind, rest⟩ := found
    simp only [Option.map_some, Prod.map_apply, id_eq, qualifiedName?_lowered]
    cases qualifiedName? rest with
    | none => rfl
    | some found =>
      simp only [Option.map_some, Prod.map_fst, Option.getD_some, Identifier.map_bare_asciiLower]
      rw [Identifier.lastTwo_map, Identifier.joinId_asciiLower]
      rfl

theorem parse?_asciiLower (sql : String) :
    parse? (Text.asciiLower sql) = (parse? sql).map lowered := by
  rw [parse?, sqlTokens_asciiLower, ofTokens?_lowered, parse?]

end Header

/-! ## Views -/

theorem declaredColumns?_lowered (ts : List Token) :
    declaredColumns? (lowered ts) = (declaredColumns? ts).map (List.map Text.asciiLower) := by
  have hview : ∀ t : Token, (if t.lowered.is .VIEW then some () else none) =
      if t.is .VIEW then some () else none := by
    intro t
    rw [Token.lowered_is]
  have hword : Token.isWord ∘ Token.lowered = Token.isWord := funext Token.lowered_isWord
  have hfirst : (fun piece : List Token => piece.find? Token.isWord) ∘ lowered =
      fun piece => (piece.find? Token.isWord).map Token.lowered := by
    funext piece
    rw [Function.comp_apply, List.find?_map, hword]
  have hbare : (fun t : Token => Identifier.bare t.text) ∘ Token.lowered =
      Text.asciiLower ∘ fun t => Identifier.bare t.text := by
    funext t
    simp
  unfold declaredColumns?
  rw [findHeader?_lowered (Token.lowered_is · .SELECT) hview]
  cases findHeader? (Token.is .SELECT) (fun t => if t.is .VIEW then some () else none) ts with
  | none => rfl
  | some found =>
    obtain ⟨kind, rest⟩ := found
    simp only [Option.map_some, Prod.map_apply, Option.bind_eq_bind, Option.bind_some,
      qualifiedName?_lowered]
    cases qualifiedName? rest with
    | none => rfl
    | some found =>
      obtain ⟨parts, rest⟩ := found
      simp only [Option.map_some, Prod.map_apply, Option.bind_some, group?_lowered]
      cases group? rest with
      | none => rfl
      | some found =>
        simp only [Option.map_some, Prod.map_fst, Option.bind_some, splitCommas_lowered,
          List.filterMap_map, hfirst, ← List.map_filterMap]
        rw [List.map_map, hbare, ← List.map_map, Text.filter_not_isEmpty_asciiLower,
          List.isEmpty_map]
        split <;> rfl

theorem rename_lowered (columns : List Column) (names : List String) :
    rename (columns.map Column.lowered) (names.map Text.asciiLower) =
      (rename columns names).map Column.lowered := by
  induction names generalizing columns with
  | nil => cases columns <;> rfl
  | cons name names ih =>
    cases columns with
    | nil => simp [rename]
    | cons c columns =>
      rw [List.map_cons, List.map_cons, rename, ih, rename, List.map_cons]
      rfl

theorem fillType_lowered (known : List Column) (c : Column) :
    fillType (known.map Column.lowered) c.lowered = (fillType known c).lowered := by
  have hname : (fun k : Column => Text.equalIgnoringCase k.name c.lowered.name && !k.lacksType) ∘
      Column.lowered = fun k => Text.equalIgnoringCase k.name c.name && !k.lacksType := by
    funext k
    simp [Column.lowered, Column.lacksType]
  unfold fillType
  rw [Column.lacksType_lowered, List.find?_map, hname]
  split
  · cases known.find? fun k => Text.equalIgnoringCase k.name c.name && !k.lacksType <;> rfl
  · rfl

theorem fillTypes_lowered (known columns : List Column) :
    fillTypes (known.map Column.lowered) (columns.map Column.lowered) =
      (fillTypes known columns).map Column.lowered := by
  cases columns with
  | nil => rfl
  | cons c columns => simp [fillTypes, fillType_lowered]

def ViewSummary.lowered (s : ViewSummary) : ViewSummary :=
  ⟨s.columns.map Column.lowered, s.referencedTables.map Text.asciiLower⟩

variable (index : Index) (defaultSchema : Option String)

theorem readView_asciiLower (known : Option (List Column)) (sql : String) :
    readView index.lowered (defaultSchema.map Text.asciiLower)
        (known.map (List.map Column.lowered)) (Text.asciiLower sql) =
      (readView index defaultSchema known sql).lowered := by
  have hcolumns : ∀ (usage : Usage) (items : List (List Token)),
      Scope.outputColumns ⟨usage.lowered, index.lowered⟩ (items.map lowered) =
        (Scope.outputColumns ⟨usage, index⟩ items).map Column.lowered :=
    fun usage => Scope.outputColumns_lowered ⟨usage, index⟩
  have hnames : ∀ ts : List Token, (declaredColumns? (lowered ts)).getD [] =
      ((declaredColumns? ts).getD []).map Text.asciiLower := by
    intro ts
    rw [declaredColumns?_lowered]
    cases declaredColumns? ts <;> rfl
  simp only [readView, sqlTokens_asciiLower, Usage.ofTokens_lowered, outputItems_lowered, hcolumns,
    hnames, rename_lowered]
  cases known with
  | none => simp [ViewSummary.lowered, Usage.lowered]
  | some known => simp [ViewSummary.lowered, Usage.lowered, fillTypes_lowered]

/-! ## Routines -/

theorem isTransient_asciiLower (id : String) :
    isTransient (Text.asciiLower id) = isTransient id := by
  have hat : ∀ c : Char, (c.toLower == '@') = (c == '@') := Text.toLower_beq rfl rfl
  have hhash : ∀ c : Char, (c.toLower == '#') = (c == '#') := Text.toLower_beq rfl rfl
  simp only [isTransient, Identifier.lastPart_asciiLower, Text.toList_asciiLower, List.head?_map,
    Option.any_map, hat, hhash, Text.equalIgnoringCase_asciiLower_left]

def RoutineUsage.lowered (u : RoutineUsage) : RoutineUsage :=
  ⟨u.referencedTables.map Text.asciiLower, u.affectedTables.map Text.asciiLower⟩

theorem routineUsage_asciiLower (sql : String) :
    routineUsage index.lowered (defaultSchema.map Text.asciiLower) (Text.asciiLower sql) =
      (routineUsage index defaultSchema sql).lowered := by
  have hkept : (fun id => !isTransient id) ∘ Text.asciiLower = fun id => !isTransient id := by
    funext id
    simp [isTransient_asciiLower]
  simp only [routineUsage, sqlTokens_asciiLower, Usage.ofTokens_lowered, Usage.lowered,
    List.filter_map, hkept, RoutineUsage.lowered]

/-! ## Parameters -/

theorem afterRoutineKeyword?_lowered (ts : List Token) :
    afterRoutineKeyword? (lowered ts) = (afterRoutineKeyword? ts).map lowered := by
  induction ts with
  | nil => rfl
  | cons t ts ih =>
    rw [lowered_cons, afterRoutineKeyword?, afterRoutineKeyword?, ih]
    simp only [Token.lowered_is, Token.lowered_spells]
    split
    · rfl
    split <;> rfl

theorem endsParameters_lowered (t : Token) : endsParameters t.lowered = endsParameters t := by
  simp [endsParameters]

theorem parameterList_lowered (ts : List Token) :
    parameterList (lowered ts) = lowered (parameterList ts) := by
  unfold parameterList
  rw [group?_lowered, breakOutside_lowered endsParameters_lowered]
  cases group? ts <;> rfl

theorem parameterTokens_lowered (ts : List Token) :
    parameterTokens (lowered ts) = lowered (parameterTokens ts) := by
  unfold parameterTokens
  rw [afterRoutineKeyword?_lowered]
  cases afterRoutineKeyword? ts with
  | none => exact parameterList_lowered ts
  | some rest =>
    simp only [Option.map_some, qualifiedName?_lowered]
    cases qualifiedName? rest with
    | none => rfl
    | some found => exact parameterList_lowered found.2

@[simp] theorem isOutputMark_lowered (t : Token) : isOutputMark t.lowered = isOutputMark t := by
  simp [isOutputMark]

theorem typeTokens_lowered (ts : List Token) :
    typeTokens (lowered ts) = lowered (typeTokens ts) := by
  have hkept : (fun t : Token => !isOutputMark t && !t.spells "READONLY") ∘ Token.lowered =
      fun t => !isOutputMark t && !t.spells "READONLY" := by
    funext t
    simp
  rw [typeTokens, List.filter_map, hkept, skipKeyword_lowered, typeTokens]

def Parameter.lowered (p : Parameter) : Parameter :=
  { p with name := Text.asciiLower p.name, dataType := Text.asciiLower p.dataType }

theorem parameter?_lowered (declaration : List Token) :
    parameter? (lowered declaration) = (parameter? declaration).map Parameter.lowered := by
  have hvariable : (fun t : Token => !t.isVariable) ∘ Token.lowered = fun t => !t.isVariable := by
    funext t
    simp
  have hdefault : ∀ t : Token, t.lowered.isMark '=' = t.isMark '=' :=
    fun t => t.lowered_isMark rfl rfl
  have houtput : isOutputMark ∘ Token.lowered = isOutputMark := funext isOutputMark_lowered
  unfold parameter?
  rw [List.dropWhile_map, hvariable]
  cases declaration.dropWhile fun t => !t.isVariable with
  | nil => rfl
  | cons name rest =>
    simp only [List.map_cons, breakOutside_lowered hdefault, typeTokens_lowered, render_lowered,
      Token.lowered_text, List.any_map, houtput]
    rfl

namespace Signature

def lowered (s : Signature) : Signature :=
  { s with parameters := s.parameters.map Parameter.lowered }

theorem ofTokens_lowered (ts : List Token) :
    ofTokens (Provenance.lowered ts) = (ofTokens ts).lowered := by
  have hvariable : Token.isVariable ∘ Token.lowered = Token.isVariable :=
    funext Token.lowered_isVariable
  have hparameter : parameter? ∘ Provenance.lowered =
      fun declaration => (parameter? declaration).map Parameter.lowered :=
    funext parameter?_lowered
  simp only [ofTokens, parameterTokens_lowered, List.any_map, hvariable, splitCommas_lowered,
    List.filterMap_map, hparameter, ← List.map_filterMap]
  split <;> rfl

theorem parse_asciiLower (sql : String) : parse (Text.asciiLower sql) = (parse sql).lowered := by
  rw [parse, sqlTokens_asciiLower, ofTokens_lowered, parse]

end Signature

/-! ## Return types -/

theorem endsReturnType_lowered (t : Token) : endsReturnType t.lowered = endsReturnType t := by
  have hend : t.lowered.isMark ';' = t.isMark ';' := t.lowered_isMark rfl rfl
  simp only [endsReturnType, Token.lowered_is, hend]

theorem returnType?_asciiLower (sql : String) :
    returnType? (Text.asciiLower sql) = (returnType? sql).map Text.asciiLower := by
  have hreturns : (fun t : Token => !t.is .RETURNS) ∘ Token.lowered = fun t => !t.is .RETURNS := by
    funext t
    simp
  have hend : (fun t : Token => !endsReturnType t) ∘ Token.lowered =
      fun t => !endsReturnType t := by
    funext t
    simp [endsReturnType_lowered]
  unfold returnType?
  rw [sqlTokens_asciiLower, List.dropWhile_map, hreturns]
  cases (sqlTokens sql).dropWhile fun t => !t.is .RETURNS with
  | nil => rfl
  | cons returns rest =>
    simp only [List.map_cons, breakOutside_lowered (Token.lowered_is · .WITH), List.takeWhile_map,
      hend, render_lowered, Text.isEmpty_asciiLower]
    split <;> rfl

end Provenance
