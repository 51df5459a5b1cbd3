import Provenance.Proofs.Identifier
import Provenance.Writing.Routine

/-!
# Tokens of written routines

A written procedure or function reads as its header, the declarations of its parameters and an
empty body. Types are read in their places as they are read by themselves.
-/

namespace Provenance

/-- The type that is written: the given one, unless that is blank. -/
def typeOrVariant (type : String) : String :=
  if Text.isBlankText type then "sql_variant" else type

theorem writeType_eq {type : String} (h : Text.isBlankText type = true ∨ IsRendered type) :
    writeType type = typeOrVariant type := by
  unfold writeType typeOrVariant
  rcases h with h | h
  · rw [if_pos h, if_pos h]
  · rw [h.trim_eq]

theorem typeOrVariant_isEmpty (type : String) : (typeOrVariant type).isEmpty = false := by
  unfold typeOrVariant
  split
  · decide
  · rename_i hblank
    cases hempty : type.isEmpty with
    | false => rfl
    | true =>
      rw [String.isEmpty_iff.mp hempty] at hblank
      exact absurd rfl hblank

theorem isRendered_typeOrVariant {type : String}
    (h : Text.isBlankText type = true ∨ IsRendered type) : IsRendered (typeOrVariant type) := by
  have hvariant : IsRendered "sql_variant" := by decide +kernel
  unfold typeOrVariant
  split
  · exact hvariant
  · rename_i hblank
    exact h.resolve_left hblank

theorem parameterName_toList {name : String} (h : ∀ c ∈ name.toList, Text.inWord c = true) :
    ∃ cs, (parameterName name).toList = '@' :: cs ∧ ∀ c ∈ '@' :: cs, Text.inWord c = true := by
  have hat : Text.inWord '@' = true := by decide +kernel
  have htrim : Text.trim name = name :=
    Text.trim_eq_self_iff.mpr (Text.trimChars_of_inWord h)
  unfold parameterName
  rw [htrim]
  simp only
  split
  · rename_i hhead
    obtain ⟨c, cs, hname⟩ : ∃ c cs, name.toList = c :: cs := by
      cases hname : name.toList with
      | nil => simp [hname] at hhead
      | cons c cs => exact ⟨c, cs, rfl⟩
    obtain rfl : c = '@' := by simpa [hname] using hhead
    exact ⟨cs, hname, by rwa [← hname]⟩
  · have hsign : "@".toList = ['@'] := by decide
    refine ⟨name.toList, by rw [String.toList_append, hsign]; rfl, ?_⟩
    intro c hc
    rcases List.mem_cons.mp hc with rfl | hc
    · exact hat
    · exact h c hc

/-! ## Declarations -/

namespace Parameter

def outputTokens (p : Parameter) : List Token := if p.isOutput then [.word "OUTPUT"] else []

def typeTokens (p : Parameter) : List Token := sqlTokens (typeOrVariant p.dataType)

def tokens (p : Parameter) : List Token :=
  .word (parameterName p.name) :: (p.typeTokens ++ p.outputTokens)

/-- Parameters whose names are words and whose types are blank or rendered. -/
structure IsWritable (p : Parameter) : Prop where
  name : ∀ c ∈ p.name.toList, Text.inWord c = true
  type : Text.isBlankText p.dataType = true ∨ IsRendered p.dataType

end Parameter

def declarationTokens (ps : List Parameter) : List Token :=
  [Token.mark ','].intercalate (ps.map Parameter.tokens)

namespace Reads

variable {rest : List Char} {p : Parameter} {ps : List Parameter}

theorem ending {cs : List Char} {ts : List Token} (hblank : cs.head?.any Text.isBlank = true)
    (h : tokensFrom none cs = ts) : Reads cs ts [] := by
  intro before
  cases cs with
  | nil => simp at hblank
  | cons c cs =>
    have hc : Text.isBlank c = true := hblank
    rw [tokensFrom_blank hc] at h
    rw [List.append_nil, tokensFrom_blank hc, h, tokensFrom_nil, List.append_nil]

theorem output (hrest : isSeparated rest = true) :
    Reads (if p.isOutput then " OUTPUT" else "").toList p.outputTokens rest := by
  unfold Parameter.outputTokens
  cases p.isOutput with
  | false => exact .nil
  | true =>
    have hblank : Reads [' '] [] ("OUTPUT".toList ++ rest) := .blanks (by decide)
    exact hblank.append (.single (.word "OUTPUT") (by decide) hrest)

theorem parameter (h : p.IsWritable) (hrest : isSeparated rest = true) :
    Reads p.line.toList p.tokens rest := by
  obtain ⟨cs, hname, hword⟩ := parameterName_toList h.name
  have hwhole : (Token.word (parameterName p.name)).isWhole = true := by
    simpa [Token.isWhole, hname] using hword
  have hsep : isSeparated ((if p.isOutput then " OUTPUT" else "").toList ++ rest) = true := by
    cases p.isOutput with
    | false => exact hrest
    | true => exact isSeparated_append (by decide) (by decide)
  have htype := (isRendered_typeOrVariant h.type).reads hsep
  have hdeclared := Reads.cons (.word (parameterName p.name)) [' '] hwhole
    (by decide) (.inr rfl) (htype.append (.output hrest))
  have hindent : ∀ cs, Reads "    ".toList [] cs := fun _ => .blanks (by decide)
  have hline := (hindent _).append hdeclared
  have hspace : " ".toList = [' '] := by decide
  simpa [Parameter.line, Parameter.tokens, Parameter.typeTokens, writeType_eq h.type, Token.text,
    String.toList_append, hspace] using hline

theorem parameters (h : ∀ p ∈ ps, p.IsWritable) (hrest : isSeparated rest = true) :
    Reads (parameterLines ps).toList (declarationTokens ps) rest := by
  have hcomma : ",\n".toList = [',', '\n'] := by decide
  unfold parameterLines
  rw [String.toList_intercalate, List.map_map, hcomma]
  exact .joined _ _ ['\n'] (by decide) (fun p hp _ hsep => .parameter (h p hp) hsep) hrest

theorem parameterBlock (h : ∀ p ∈ ps, p.IsWritable) (hrest : isSeparated rest = true) :
    Reads (if ps.isEmpty then "" else "\n" ++ parameterLines ps).toList (declarationTokens ps)
      rest := by
  cases ps with
  | nil => exact .nil
  | cons p ps =>
    have hbreak : Reads "\n".toList [] ((parameterLines (p :: ps)).toList ++ rest) :=
      .blanks (by decide)
    simp only [List.isEmpty_cons, Bool.false_eq_true, if_false, String.toList_append]
    exact hbreak.append (.parameters h hrest)

theorem parameterGroup (h : ∀ p ∈ ps, p.IsWritable) :
    Reads (if ps.isEmpty then "" else "\n" ++ parameterLines ps ++ "\n").toList
      (declarationTokens ps) rest := by
  cases ps with
  | nil => exact .nil
  | cons p ps =>
    have hbreak : ∀ cs, Reads "\n".toList [] cs := fun _ => .blanks (by decide)
    have hsep : isSeparated ("\n".toList ++ rest) = true :=
      isSeparated_append (by decide) (by decide)
    have hlines := (hbreak _).concat (Reads.parameters h hsep)
    have hgroup := hlines.concat (hbreak rest)
    simpa using hgroup

theorem isSeparated_parameterBlock (ps : List Parameter) (hrest : isSeparated rest = true) :
    isSeparated ((if ps.isEmpty then "" else "\n" ++ parameterLines ps).toList ++ rest) =
      true := by
  cases ps with
  | nil => exact hrest
  | cons p ps =>
    simp only [List.isEmpty_cons, Bool.false_eq_true, if_false, String.toList_append,
      List.append_assoc]
    exact isSeparated_append (by decide) (by decide)

end Reads

def procedureBody : List Token :=
  [.word "AS", .word "BEGIN", .word "SET", .word "NOCOUNT", .word "ON", .mark ';', .word "END"]

def procedureTokens (id : String) (ps : List Parameter) : List Token :=
  .word "CREATE" :: .word "PROCEDURE" ::
    (Identifier.idTokens id ++ (declarationTokens ps ++ procedureBody))

/-- A written procedure reads as its header, its parameters and an empty body. -/
theorem sqlTokens_writeProcedure (id : String) {ps : List Parameter}
    (h : ∀ p ∈ ps, p.IsWritable) :
    sqlTokens (writeProcedure id ps) = procedureTokens id ps := by
  have hcreate : ∀ cs, Reads "CREATE PROCEDURE ".toList [.word "CREATE", .word "PROCEDURE"] cs :=
    fun cs => .words ["CREATE", "PROCEDURE"] (by decide +kernel) (by decide)
  have hbody : Reads "\nAS\nBEGIN\n    SET NOCOUNT ON;\nEND".toList procedureBody [] :=
    .ending (by decide +kernel) (by decide +kernel)
  have hsep : isSeparated ("\nAS\nBEGIN\n    SET NOCOUNT ON;\nEND".toList ++ []) = true := by
    decide +kernel
  have hid := (hcreate _).concat (Reads.id id (Reads.isSeparated_parameterBlock ps hsep))
  have hprocedure := (hid.concat (.parameterBlock h hsep)).concat hbody
  have htokens := hprocedure.sqlTokens_toList_eq
  unfold writeProcedure
  refine htokens.trans ?_
  simp [procedureTokens]

def functionBody : List Token :=
  [.word "AS", .word "BEGIN", .word "RETURN", .word "NULL", .mark ';', .word "END"]

def functionTokens (id : String) (ps : List Parameter) (type : String) : List Token :=
  .word "CREATE" :: .word "FUNCTION" ::
    (Identifier.idTokens id ++ .mark '(' :: (declarationTokens ps ++
      .mark ')' :: .word "RETURNS" :: (sqlTokens (typeOrVariant type) ++ functionBody)))

/-- A written function reads as its header, its parameters, its type and an empty body. -/
theorem sqlTokens_writeFunction (id : String) {ps : List Parameter} {type : Option String}
    (h : ∀ p ∈ ps, p.IsWritable)
    (htype : Text.isBlankText (type.getD "") = true ∨ IsRendered (type.getD "")) :
    sqlTokens (writeFunction id ps type) = functionTokens id ps (type.getD "") := by
  have hcreate : ∀ cs, Reads "CREATE FUNCTION ".toList [.word "CREATE", .word "FUNCTION"] cs :=
    fun cs => .words ["CREATE", "FUNCTION"] (by decide +kernel) (by decide)
  have hopen : ∀ cs, Reads " (".toList [.mark '('] cs := by
    intro cs
    have hblank : Reads [' '] [] ("(".toList ++ cs) := .blanks (by decide)
    exact hblank.append (.spaced (.mark '(') [] (by decide) (by simp) (.inl (by decide)))
  have hclose : ∀ cs, Reads ")\nRETURNS ".toList [.mark ')', .word "RETURNS"] cs := by
    intro cs
    have htext : ")\nRETURNS ".toList =
        (Token.mark ')').text.toList ++ ['\n'] ++ "RETURNS ".toList := by decide +kernel
    rw [htext]
    have hsep : isSeparated (['\n'] ++ ("RETURNS ".toList ++ cs)) = true :=
      isSeparated_append (by decide) (by simp)
    exact .cons (.mark ')') ['\n'] (by decide) (by decide) (.inr hsep)
      (.words ["RETURNS"] (by decide +kernel) (by decide))
  have hparen : ∀ cs, isSeparated (" (".toList ++ cs) = true :=
    fun _ => isSeparated_append (by decide) (by decide)
  have hbody : Reads "\nAS\nBEGIN\n    RETURN NULL;\nEND".toList functionBody [] :=
    .ending (by decide +kernel) (by decide +kernel)
  have hsep : isSeparated ("\nAS\nBEGIN\n    RETURN NULL;\nEND".toList ++ []) = true := by
    decide +kernel
  have hreturned : Reads (writeType (type.getD "")).toList
      (sqlTokens (typeOrVariant (type.getD "")))
      ("\nAS\nBEGIN\n    RETURN NULL;\nEND".toList ++ []) := by
    rw [writeType_eq htype]
    exact (isRendered_typeOrVariant htype).reads hsep
  have hid : ∀ cs, Reads ("CREATE FUNCTION " ++ Identifier.writtenId id).toList
      ([.word "CREATE", .word "FUNCTION"] ++ Identifier.idTokens id) (" (".toList ++ cs) :=
    fun cs => (hcreate _).concat (.id id (hparen cs))
  have hsignature := (((hid _).concat (hopen _)).concat (.parameterGroup h)).concat
    (hclose ((writeType (type.getD "")).toList ++
      ("\nAS\nBEGIN\n    RETURN NULL;\nEND".toList ++ [])))
  have htokens := ((hsignature.concat hreturned).concat hbody).sqlTokens_toList_eq
  unfold writeFunction
  refine htokens.trans ?_
  simp [functionTokens]

end Provenance
