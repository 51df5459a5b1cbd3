import Provenance.Proofs.Identifier
import Provenance.Writing.View

/-!
# Tokens of written views

A written view reads as the header, one select item for each column and the table that the
columns have in common, whatever the names in it are made of.
-/

namespace Provenance

def Origin.tokens (qualified : Bool) (o : Origin) : List Token :=
  if qualified then Identifier.idTokens o.table ++ [.mark '.', Identifier.token o.column]
  else [Identifier.token o.column]

def Column.itemTokens (qualified : Bool) (c : Column) : List Token :=
  match c.firstOrigin? with
  | none => [.word "NULL", .word "AS", Identifier.token c.name]
  | some o =>
    if c.name == o.column then o.tokens qualified
    else o.tokens qualified ++ [.word "AS", Identifier.token c.name]

def sourceTokens (table : Option String) : List Token :=
  match table with
  | some id => .word "FROM" :: Identifier.idTokens id
  | none => []

/-- The table that a written view names, if there is one. -/
def writtenTable? (columns : List Column) : Option String :=
  commonTable? (columns.filterMap Column.firstOrigin?)

def listTokens (columns : List Column) : List Token :=
  [Token.mark ','].intercalate (columns.map (Column.itemTokens (writtenTable? columns).isNone))

def headerTokens (id : String) : List Token :=
  .word "CREATE" :: .word "VIEW" :: (Identifier.idTokens id ++ [.word "AS"])

def viewTokens (id : String) (columns : List Column) : List Token :=
  headerTokens id ++
    .word "SELECT" :: (listTokens columns ++ sourceTokens (writtenTable? columns))

namespace Reads

variable {rest : List Char}

theorem origin (qualified : Bool) (o : Origin) (hrest : isSeparated rest = true) :
    Reads (o.written qualified).toList (o.tokens qualified) rest := by
  cases qualified with
  | false => exact .name o.column hrest
  | true =>
    have hdot : (Token.mark '.').text.toList = ['.'] := String.toList_singleton '.'
    have htail := Reads.cons (.mark '.') [] (by decide) (by simp)
      (.inl (by decide)) (Reads.name o.column hrest)
    rw [hdot] at htail
    have h := Reads.append (Reads.id o.table rfl) htail
    have hjoin : ".".toList = ['.'] := by decide
    simpa [Origin.written, Origin.tokens, Identifier.joinId, String.toList_intercalate,
      List.intercalate, hjoin] using h

theorem aliased (name : String) (hrest : isSeparated rest = true) :
    Reads (" AS " ++ Identifier.written name).toList [.word "AS", Identifier.token name] rest := by
  have hmark : Reads " AS ".toList [.word "AS"] ((Identifier.written name).toList ++ rest) := by
    have hblank : Reads [' '] [] ("AS ".toList ++ ((Identifier.written name).toList ++ rest)) :=
      .blanks (by decide)
    exact hblank.append (.words ["AS"] (by decide +kernel) (by decide))
  rw [String.toList_append]
  exact hmark.append (.name name hrest)

theorem column (qualified : Bool) (c : Column) (hrest : isSeparated rest = true) :
    Reads (c.written qualified).toList (c.itemTokens qualified) rest := by
  unfold Column.written Column.itemTokens
  cases c.firstOrigin? with
  | none =>
    have hnull : Reads "NULL AS ".toList [.word "NULL", .word "AS"]
        ((Identifier.written c.name).toList ++ rest) :=
      .words ["NULL", "AS"] (by decide +kernel) (by decide)
    rw [String.toList_append]
    exact hnull.append (.name c.name hrest)
  | some o =>
    simp only
    split
    · exact .origin qualified o hrest
    · rw [String.append_assoc, String.toList_append]
      refine (Reads.origin qualified o ?_).append (.aliased c.name hrest)
      rw [String.toList_append]
      exact isSeparated_append (isSeparated_append (by decide) (by decide)) (by simp)

theorem item (qualified : Bool) (c : Column) (hrest : isSeparated rest = true) :
    Reads ("    " ++ c.written qualified).toList (c.itemTokens qualified) rest := by
  have hindent : Reads "    ".toList [] ((c.written qualified).toList ++ rest) :=
    .blanks (by decide)
  rw [String.toList_append]
  exact hindent.append (.column qualified c hrest)

theorem source (table : Option String) :
    Reads (writeSource table).toList (sourceTokens table) [] := by
  cases table with
  | none => exact .nil
  | some id =>
    have hbreak : Reads ['\n'] [] ("FROM ".toList ++ ((Identifier.writtenId id).toList ++ [])) :=
      .blanks (by decide)
    have hfrom : Reads "\nFROM ".toList [.word "FROM"] ((Identifier.writtenId id).toList ++ []) :=
      hbreak.append (.words ["FROM"] (by decide +kernel) (by decide))
    unfold writeSource sourceTokens
    rw [String.toList_append]
    exact hfrom.append (.id id rfl)

theorem list {columns : List Column} (hrest : isSeparated rest = true) :
    Reads (",\n".intercalate (columns.map fun c =>
      "    " ++ c.written (writtenTable? columns).isNone)).toList (listTokens columns) rest := by
  have hcomma : ",\n".toList = [',', '\n'] := by decide
  rw [String.toList_intercalate, List.map_map, hcomma]
  exact .joined _ _ ['\n'] (by decide)
    (fun c _ _ hsep => .item (writtenTable? columns).isNone c hsep) hrest

theorem query {columns : List Column} (hne : columns ≠ []) :
    Reads (writeQuery columns).toList
      (.word "SELECT" :: (listTokens columns ++ sourceTokens (writtenTable? columns))) [] := by
  have hselect : ∀ cs, Reads "SELECT\n".toList [.word "SELECT"] cs := by
    intro cs
    exact .spaced (.word "SELECT") ['\n'] (by decide) (by decide) (.inr rfl)
  have hsource : isSeparated ((writeSource (writtenTable? columns)).toList ++ []) = true := by
    cases writtenTable? columns with
    | none => rfl
    | some id =>
      unfold writeSource
      rw [String.toList_append]
      exact isSeparated_append (isSeparated_append (by decide) (by decide)) (by simp)
  have hempty : columns.isEmpty = false := by simpa using hne
  rw [writeQuery, hempty]
  simp only [Bool.false_eq_true, if_false, String.toList_append, List.append_assoc]
  exact (hselect _).append ((Reads.list hsource).append (.source _))

end Reads

/-- A written view reads as its header, its items and its source. -/
theorem sqlTokens_writeView (id : String) {columns : List Column} (hne : columns ≠ []) :
    sqlTokens (writeView id columns) = viewTokens id columns := by
  have hcreate : ∀ cs, Reads "CREATE VIEW ".toList [.word "CREATE", .word "VIEW"] cs :=
    fun cs => .words ["CREATE", "VIEW"] (by decide +kernel) (by decide)
  have has : ∀ cs, Reads " AS\n".toList [.word "AS"] cs := by
    intro cs
    have hblank : Reads [' '] [] ("AS\n".toList ++ cs) := .blanks (by decide)
    exact hblank.append (.spaced (.word "AS") ['\n'] (by decide) (by decide) (.inr rfl))
  have hbody := Reads.append (a := " AS\n".toList) (has _) (Reads.query hne)
  have hid : Reads (Identifier.writtenId id).toList (Identifier.idTokens id)
      ((" AS\n".toList ++ (writeQuery columns).toList) ++ []) := by
    apply Reads.id
    exact isSeparated_append (isSeparated_append (by decide) (by decide)) (by simp)
  have hview := Reads.append (a := "CREATE VIEW ".toList) (hcreate _) (hid.append hbody)
  rw [← String.ofList_toList (s := writeView id columns)]
  simpa [writeView, viewTokens, headerTokens] using hview.sqlTokens_eq

end Provenance
