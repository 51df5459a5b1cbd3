import Provenance.Proofs.Definition.Declarations
import Provenance.Proofs.Definition.Header
import Provenance.Proofs.Writing.RoutineTokens

/-!
# Routines that are written and read back

The parameters of a written procedure or function are those that are read from it, each with its
`@` and its type, and so are its header and the type that it returns.
-/

namespace Provenance

/-! ## Texts of types -/

/-- Texts that can be the type of a parameter: no clause of a declaration or a header begins in
them, and nothing in them marks an output. -/
structure IsTypeText (type : String) : Prop extends IsRendered type where
  nonempty : sqlTokens type ≠ []
  balanced : isBalanced (sqlTokens type) = true
  unmarked : ∀ t ∈ sqlTokens type, isOutputMark t = false ∧ t.spells "READONLY" = false
  plain : ∀ t ∈ outside 0 (sqlTokens type),
    t.isMark ',' = false ∧ t.isMark '=' = false ∧ endsParameters t = false

/-- Texts that can be the type of a function: nothing in them ends it. -/
structure IsReturnText (type : String) : Prop extends IsRendered type where
  balanced : isBalanced (sqlTokens type) = true
  unended : ∀ t ∈ sqlTokens type, endsReturnType t = false
  plain : ∀ t ∈ outside 0 (sqlTokens type), t.is .WITH = false

instance (type : String) : Decidable (IsTypeText type) :=
  decidable_of_iff (IsRendered type ∧ sqlTokens type ≠ [] ∧ isBalanced (sqlTokens type) = true ∧
      (∀ t ∈ sqlTokens type, isOutputMark t = false ∧ t.spells "READONLY" = false) ∧
      ∀ t ∈ outside 0 (sqlTokens type),
        t.isMark ',' = false ∧ t.isMark '=' = false ∧ endsParameters t = false)
    ⟨fun ⟨rendered, nonempty, balanced, unmarked, plain⟩ =>
        ⟨rendered, nonempty, balanced, unmarked, plain⟩,
      fun h => ⟨h.toIsRendered, h.nonempty, h.balanced, h.unmarked, h.plain⟩⟩

instance (type : String) : Decidable (IsReturnText type) :=
  decidable_of_iff (IsRendered type ∧ isBalanced (sqlTokens type) = true ∧
      (∀ t ∈ sqlTokens type, endsReturnType t = false) ∧
      ∀ t ∈ outside 0 (sqlTokens type), t.is .WITH = false)
    ⟨fun ⟨rendered, balanced, unended, plain⟩ => ⟨rendered, balanced, unended, plain⟩,
      fun h => ⟨h.toIsRendered, h.balanced, h.unended, h.plain⟩⟩

theorem isTypeText_typeOrVariant {type : String}
    (h : Text.isBlankText type = true ∨ IsTypeText type) : IsTypeText (typeOrVariant type) := by
  have hvariant : IsTypeText "sql_variant" := by decide +kernel
  unfold typeOrVariant
  split
  · exact hvariant
  · rename_i hblank
    exact h.resolve_left hblank

theorem isReturnText_typeOrVariant {type : String}
    (h : Text.isBlankText type = true ∨ IsReturnText type) :
    IsReturnText (typeOrVariant type) := by
  have hvariant : IsReturnText "sql_variant" := by decide +kernel
  unfold typeOrVariant
  split
  · exact hvariant
  · rename_i hblank
    exact h.resolve_left hblank

/-! ## Declarations -/

namespace Parameter

/-- Parameters whose names are words, with or without `@`, and whose types are blank or texts of
types. -/
structure IsDeclarable (p : Parameter) : Prop where
  name : ∀ c ∈ p.name.toList, Text.inWord c = true
  type : Text.isBlankText p.dataType = true ∨ IsTypeText p.dataType

instance (p : Parameter) : Decidable p.IsDeclarable :=
  decidable_of_iff (p.name.toList.all Text.inWord = true ∧
      (Text.isBlankText p.dataType = true ∨ IsTypeText p.dataType))
    ⟨fun ⟨name, type⟩ => ⟨List.all_eq_true.mp name, type⟩,
      fun h => ⟨List.all_eq_true.mpr h.name, h.type⟩⟩

/-- A parameter with `@` in front of its name and `sql_variant` in place of a blank type. -/
def completed (p : Parameter) : Parameter where
  name := if p.name.toList.head? = some '@' then p.name else "@" ++ p.name
  dataType := if Text.isBlankText p.dataType then "sql_variant" else p.dataType
  isOutput := p.isOutput

variable {p : Parameter}

theorem IsDeclarable.isWritable (h : p.IsDeclarable) : p.IsWritable where
  name := h.name
  type := h.type.imp_right IsTypeText.toIsRendered

theorem IsDeclarable.isTypeText (h : p.IsDeclarable) : IsTypeText (typeOrVariant p.dataType) :=
  isTypeText_typeOrVariant h.type

theorem IsDeclarable.isVariable (h : p.IsDeclarable) :
    (Token.word (parameterName p.name)).isVariable = true := by
  obtain ⟨cs, hname, -⟩ := parameterName_toList h.name
  simp [Token.isVariable, Token.beginsWith, hname]

theorem outputTokens_cases (p : Parameter) :
    p.isOutput = true ∧ p.outputTokens = [.word "OUTPUT"] ∨
      p.isOutput = false ∧ p.outputTokens = [] := by
  unfold outputTokens
  cases h : p.isOutput <;> simp

theorem completed_eq (h : p.IsDeclarable) : p.completed =
    { name := parameterName p.name, dataType := typeOrVariant p.dataType,
      isOutput := p.isOutput } := by
  have htrim : Text.trim p.name = p.name :=
    Text.trim_eq_self_iff.mpr (Text.trimChars_of_inWord h.name)
  rw [completed, typeOrVariant, parameterName, htrim]

def declaration (p : Parameter) : Declaration where
  name := .word (parameterName p.name)
  marker := none
  type := p.typeTokens
  readOnly := none
  initial := none
  output := if p.isOutput then some (.word "OUTPUT") else none

theorem tokens_declaration (p : Parameter) : p.declaration.tokens = p.tokens := by
  unfold declaration tokens outputTokens
  cases p.isOutput <;> simp [Declaration.tokens, Declaration.typedTokens, Declaration.initialTokens]

theorem IsDeclarable.isProper_declaration (h : p.IsDeclarable) : p.declaration.IsProper where
  name := h.isVariable
  marker := by simp [declaration]
  nonempty := h.isTypeText.nonempty
  first := by
    intro t ht
    obtain ⟨ts, hts⟩ := List.head?_eq_some_iff.mp ht
    have hfirst : t ∈ outside 0 p.typeTokens := by
      rw [show p.typeTokens = t :: ts from hts, outside, if_pos rfl]
      simp
    have hplain := (h.isTypeText.plain t hfirst).2.2
    simp only [endsParameters, List.any_cons, Bool.or_eq_false_iff] at hplain
    exact hplain.1
  balanced := h.isTypeText.balanced
  type := fun t ht => ⟨(h.isTypeText.plain t ht).1, (h.isTypeText.plain t ht).2.1⟩
  unmarked := h.isTypeText.unmarked
  readOnly := by simp [declaration]
  initial := by simp [declaration]
  output := by
    have hmark : isOutputMark (.word "OUTPUT") = true := by decide
    unfold declaration
    cases p.isOutput <;> simp [hmark]

theorem IsDeclarable.isBare_declaration (h : p.IsDeclarable) : p.declaration.IsBare where
  marker := rfl
  type := fun t ht => (h.isTypeText.plain t ht).2.2
  initial := by simp [declaration]

theorem isPiece_tokens (h : p.IsDeclarable) : isPiece p.tokens = true := by
  rw [← tokens_declaration]
  exact h.isProper_declaration.isPiece_tokens

theorem parameter?_tokens (h : p.IsDeclarable) : parameter? p.tokens = some p.completed := by
  have hrender : render p.typeTokens = typeOrVariant p.dataType := h.isTypeText.rendered
  have hcompleted : p.declaration.parameter = p.completed := by
    rw [completed_eq h, Declaration.parameter, declaration]
    cases p.isOutput <;> simp [Token.text, hrender]
  rw [← tokens_declaration, h.isProper_declaration.parameter?_tokens, hcompleted]

end Parameter

/-! ## Lists of parameters -/

section Lists

variable {ps : List Parameter}

theorem holdsOutside_declarationTokens (h : ∀ p ∈ ps, p.IsDeclarable) :
    HoldsOutside (fun t => endsParameters t = false) (declarationTokens ps) := by
  apply HoldsOutside.joined (by decide)
  intro piece hpiece
  obtain ⟨p, hp, rfl⟩ := List.mem_map.mp hpiece
  rw [← Parameter.tokens_declaration]
  exact (h p hp).isBare_declaration.holdsOutside (h p hp).isProper_declaration

theorem declarationTokens_cons (p : Parameter) (ps : List Parameter) :
    ∃ rest, declarationTokens (p :: ps) = .word (parameterName p.name) :: rest := by
  cases ps with
  | nil => exact ⟨_, rfl⟩
  | cons q ps => exact ⟨_, joined_cons_cons ..⟩

theorem filterMap_parameter? (h : ∀ p ∈ ps, p.IsDeclarable) :
    (ps.map Parameter.tokens).filterMap parameter? = ps.map Parameter.completed := by
  induction ps with
  | nil => rfl
  | cons p ps ih =>
    have hp := Parameter.parameter?_tokens (h p (by simp))
    have htail := ih fun q hq => h q (List.mem_cons_of_mem p hq)
    rw [List.map_cons, List.filterMap_cons, hp]
    simp only [htail, List.map_cons]

theorem ofDeclarations (h : ∀ p ∈ ps, p.IsDeclarable) {ts : List Token}
    (hts : parameterTokens ts = declarationTokens ps) :
    Signature.ofTokens ts = ⟨ps.map Parameter.completed, !ps.isEmpty⟩ := by
  have hpieces : splitCommas (declarationTokens ps) = ps.map Parameter.tokens := by
    apply splitCommas_intercalate
    intro piece hpiece
    obtain ⟨p, hp, rfl⟩ := List.mem_map.mp hpiece
    exact Parameter.isPiece_tokens (h p hp)
  have hparameters := filterMap_parameter? h
  have hany : (declarationTokens ps).any Token.isVariable = !ps.isEmpty := by
    cases ps with
    | nil => rfl
    | cons p ps =>
      obtain ⟨rest, hrest⟩ := declarationTokens_cons p ps
      rw [hrest, List.any_cons, (h p (by simp)).isVariable]
      rfl
  rw [Signature.ofTokens, hts, hany, hpieces, hparameters]
  cases ps <;> rfl

theorem afterRoutineKeyword?_create {u : Token}
    (hu : (u.is .FUNCTION || u.is .PROCEDURE) = true) (rest : List Token) :
    afterRoutineKeyword? (.word "CREATE" :: u :: rest) = some rest := by
  have hkind : ((Token.word "CREATE").is .FUNCTION || (Token.word "CREATE").is .PROCEDURE ||
      (Token.word "CREATE").spells "PROC") = false := by decide
  have hbody : ((Token.word "CREATE").is .AS || (Token.word "CREATE").is .BEGIN ||
      (Token.word "CREATE").is .SELECT) = false := by decide
  rw [afterRoutineKeyword?, hkind, hbody, afterRoutineKeyword?, hu]
  rfl

theorem declarationTokens_append_procedureBody (ps : List Parameter) :
    ∃ w rest, declarationTokens ps ++ procedureBody = .word w :: rest := by
  cases ps with
  | nil => exact ⟨_, _, rfl⟩
  | cons p ps =>
    obtain ⟨rest, hrest⟩ := declarationTokens_cons p ps
    exact ⟨_, rest ++ procedureBody, by rw [hrest]; rfl⟩

theorem head_procedureTokens (ps : List Parameter) :
    ∀ t, (declarationTokens ps ++ procedureBody).head? = some t → t.isMark '.' = false := by
  obtain ⟨w, rest, hhead⟩ := declarationTokens_append_procedureBody ps
  intro t ht
  rw [hhead] at ht
  obtain rfl := Option.some.inj ht
  rfl

theorem parameterTokens_procedureTokens (id : String) (h : ∀ p ∈ ps, p.IsDeclarable) :
    parameterTokens (procedureTokens id ps) = declarationTokens ps := by
  obtain ⟨w, rest, hhead⟩ := declarationTokens_append_procedureBody ps
  have hkeyword : afterRoutineKeyword? (procedureTokens id ps) =
      some (Identifier.idTokens id ++ (declarationTokens ps ++ procedureBody)) :=
    afterRoutineKeyword?_create (by decide) _
  have hname := Identifier.qualifiedName?_idTokens id
    (declarationTokens ps ++ procedureBody) (head_procedureTokens ps)
  have hgroup : group? (declarationTokens ps ++ procedureBody) = none := by
    rw [hhead]
    rfl
  have hbody : ∀ t ∈ procedureBody.head?, endsParameters t = true := by decide
  have hbreak := (holdsOutside_declarationTokens h).breakOutside_append hbody
  rw [parameterTokens, hkeyword]
  simp only [hname, parameterList, hgroup, hbreak]

theorem parameterTokens_functionTokens (id : String) (type : String)
    (h : ∀ p ∈ ps, p.IsDeclarable) :
    parameterTokens (functionTokens id ps type) = declarationTokens ps := by
  have hgroup := group?_of_isBalanced (holdsOutside_declarationTokens h).balanced
    (.word "RETURNS" :: (sqlTokens (typeOrVariant type) ++ functionBody))
  have hname := Identifier.qualifiedName?_idTokens id
    (.mark '(' :: (declarationTokens ps ++ .mark ')' :: .word "RETURNS" ::
      (sqlTokens (typeOrVariant type) ++ functionBody))) (by
      intro t ht
      obtain rfl := Option.some.inj ht
      decide)
  rw [parameterTokens, functionTokens, afterRoutineKeyword?_create (by decide)]
  simp only [hname, parameterList, hgroup]

end Lists

/-! ## Return types -/

theorem returnType_functionBody {type : String} (h : IsReturnText type) :
    render ((breakOutside (Token.is .WITH) (sqlTokens type ++ functionBody)).1.takeWhile
      fun t => !endsReturnType t) = type := by
  have hbody : breakAt (Token.is .WITH) 0 functionBody = (functionBody, []) := by decide
  have hends : functionBody.takeWhile (fun t => !endsReturnType t) = [] := by decide
  have htype : ∀ t ∈ sqlTokens type, (!endsReturnType t) = true := by
    intro t ht
    simp [h.unended t ht]
  rw [breakOutside, breakAt_append h.plain, net_of_isBalanced h.balanced, Int.add_zero, hbody]
  simp only
  rw [List.takeWhile_append_of_pos htype, hends, List.append_nil, h.rendered]

/-- No token before the type of a written function is `RETURNS`, unless one of the types of its
parameters holds it. -/
theorem dropWhile_functionTokens (id : String) (type : String) {ps : List Parameter}
    (h : ∀ p ∈ ps, p.IsDeclarable)
    (hreturns : ∀ p ∈ ps, ∀ t ∈ sqlTokens p.dataType, t.is .RETURNS = false) :
    (functionTokens id ps type).dropWhile (fun t => !t.is .RETURNS) =
      .word "RETURNS" :: (sqlTokens (typeOrVariant type) ++ functionBody) := by
  have hvariant : ∀ t ∈ sqlTokens "sql_variant", t.is .RETURNS = false := by decide +kernel
  have htokens : ∀ p ∈ ps, ∀ t ∈ p.tokens, t.is .RETURNS = false := by
    intro p hp t ht
    rcases List.mem_cons.mp ht with rfl | ht
    · exact Token.is_eq_false_of_keyword? (Token.keyword?_of_isVariable (h p hp).isVariable) _
    rcases List.mem_append.mp ht with ht | ht
    · unfold Parameter.typeTokens typeOrVariant at ht
      split at ht
      · exact hvariant t ht
      · exact hreturns p hp t ht
    · rcases p.outputTokens_cases with ⟨-, hout⟩ | ⟨-, hout⟩
      · rw [hout] at ht
        obtain rfl := List.mem_singleton.mp ht
        decide
      · simp [hout] at ht
  have hdeclarations : ∀ t ∈ declarationTokens ps, t.is .RETURNS = false := by
    apply forall_mem_joined (p := fun t => t.is .RETURNS = false) (by decide)
    intro piece hpiece
    obtain ⟨p, hp, rfl⟩ := List.mem_map.mp hpiece
    exact htokens p hp
  have hbefore : ∀ t ∈ .word "CREATE" :: .word "FUNCTION" :: (Identifier.idTokens id ++
      .mark '(' :: (declarationTokens ps ++ [.mark ')'])), (!t.is .RETURNS) = true := by
    intro t ht
    simp only [List.mem_cons, List.mem_append, List.not_mem_nil, or_false] at ht
    rcases ht with rfl | rfl | ht | rfl | ht | rfl
    · decide
    · decide
    · simp [Identifier.is_of_mem_idTokens ht]
    · decide
    · simp [hdeclarations t ht]
    · decide
  have hsplit : functionTokens id ps type = (.word "CREATE" :: .word "FUNCTION" ::
      (Identifier.idTokens id ++ .mark '(' :: (declarationTokens ps ++ [.mark ')']))) ++
        .word "RETURNS" :: (sqlTokens (typeOrVariant type) ++ functionBody) := by
    simp [functionTokens]
  rw [hsplit, List.dropWhile_append_of_pos hbefore, List.dropWhile_cons_of_neg (by decide)]

/-! ## The round trip -/

/-- Written routines are read back: a procedure or function has the parameters and the header that
it was written from, and a function the type. -/
theorem parse_writeRoutine (id : String) {ps : List Parameter}
    (hid : ∀ part ∈ Identifier.idParts id, Text.trim part = part)
    (hps : ∀ p ∈ ps, p.IsDeclarable) :
    Signature.parse (writeProcedure id ps) = ⟨ps.map Parameter.completed, !ps.isEmpty⟩ ∧
      Header.parse? (writeProcedure id ps) = some ⟨.procedure, id⟩ ∧
      ∀ type : Option String,
        (∀ p ∈ ps, ∀ t ∈ sqlTokens p.dataType, t.is .RETURNS = false) →
        (∀ r ∈ type, Text.isBlankText r = true ∨ IsReturnText r) →
        Signature.parse (writeFunction id ps type) =
            ⟨ps.map Parameter.completed, !ps.isEmpty⟩ ∧
          Header.parse? (writeFunction id ps type) = some ⟨.function, id⟩ ∧
          returnType? (writeFunction id ps type) =
            some (if Text.isBlankText (type.getD "") then "sql_variant" else type.getD "") := by
  have hwritable : ∀ p ∈ ps, p.IsWritable := fun p hp => (hps p hp).isWritable
  have hprocedure := sqlTokens_writeProcedure id hwritable
  refine ⟨?_, ?_, ?_⟩
  · rw [Signature.parse, hprocedure]
    exact ofDeclarations hps (parameterTokens_procedureTokens id hps)
  · rw [Header.parse?, hprocedure]
    exact Header.ofTokens?_create (by decide) (by decide) hid (head_procedureTokens ps)
  · intro type hreturns htype
    have htext : Text.isBlankText (type.getD "") = true ∨ IsReturnText (type.getD "") := by
      cases type with
      | none => exact .inl rfl
      | some r => exact htype r rfl
    have hfunction := sqlTokens_writeFunction id hwritable
      (htext.imp_right IsReturnText.toIsRendered)
    have hreturn := isReturnText_typeOrVariant htext
    refine ⟨?_, ?_, ?_⟩
    · rw [Signature.parse, hfunction]
      exact ofDeclarations hps (parameterTokens_functionTokens id _ hps)
    · rw [Header.parse?, hfunction]
      exact Header.ofTokens?_create (by decide) (by decide) hid (by simp [Token.isMark])
    · rw [returnType?, hfunction, dropWhile_functionTokens id _ hps hreturns]
      simp only [returnType_functionBody hreturn, typeOrVariant_isEmpty]
      rfl

/-- Types with arguments, names in brackets and blank types are kept. -/
theorem parse_writeRoutine_nested :
    let ps : List Parameter :=
      [⟨"@total", "decimal(10,2)", true⟩, ⟨"rows", "dbo.[OUT, (x]", false⟩, ⟨"any", " ", true⟩]
    let type : Option String := some "TABLE(a int,b nvarchar(max))"
    (∀ part ∈ Identifier.idParts "my schema.FROM", Text.trim part = part) ∧
      (∀ p ∈ ps, p.IsDeclarable) ∧
      (∀ p ∈ ps, ∀ t ∈ sqlTokens p.dataType, t.is .RETURNS = false) ∧
      (∀ r ∈ type, Text.isBlankText r = true ∨ IsReturnText r) ∧
      Signature.parse (writeProcedure "my schema.FROM" ps) =
        ⟨[⟨"@total", "decimal(10,2)", true⟩, ⟨"@rows", "dbo.[OUT, (x]", false⟩,
          ⟨"@any", "sql_variant", true⟩], true⟩ ∧
      returnType? (writeFunction "my schema.FROM" ps type) = type := by
  intro ps type
  have hid : ∀ part ∈ Identifier.idParts "my schema.FROM", Text.trim part = part := by
    decide +kernel
  have hps : ∀ p ∈ ps, p.IsDeclarable := by decide +kernel
  have hreturns : ∀ p ∈ ps, ∀ t ∈ sqlTokens p.dataType, t.is .RETURNS = false := by
    decide +kernel
  have htype : ∀ r ∈ type, Text.isBlankText r = true ∨ IsReturnText r := by decide +kernel
  have hread := parse_writeRoutine "my schema.FROM" hid hps
  have hprocedure := hread.1
  have hfunction := (hread.2.2 type hreturns htype).2.2
  refine ⟨hid, hps, hreturns, htype, ?_, ?_⟩
  · rw [hprocedure]
    decide +kernel
  · rw [hfunction]
    decide +kernel

end Provenance
