import Provenance.Proofs.Catalog.Index
import Provenance.Proofs.Definition.View

/-!
# Types of the columns of a view

A column that is read has the type of its first origin, or one from the known columns where that
origin has none. So types are found again when the columns themselves are the known ones.
-/

namespace Provenance

/-! ## First origins -/

namespace Column

theorem firstOrigin?_withOrigins (origins : List Origin) (c : Column) :
    (c.withOrigins origins).firstOrigin? = origins.head? := by
  cases origins <;> rfl

theorem firstOrigin?_withTypeOf (c known : Column) :
    (c.withTypeOf known).firstOrigin? = c.firstOrigin? := rfl

theorem firstOrigin?_fillType (known : List Column) (c : Column) :
    (fillType known c).firstOrigin? = c.firstOrigin? := by
  rcases fillType_cases known c with ⟨h, -⟩ | ⟨-, k, -, -, -, h⟩ <;> rw [h]
  rfl

/-- Whether a column has the type of another, or a type where the other has none. -/
def Completes (known c : Column) : Prop :=
  known.dataType = c.dataType ∧ known.isNullable = c.isNullable ∨
    known.lacksType = true ∧ c.lacksType = false

variable {known c : Column}

theorem Completes.fillType (h : known.Completes c) (others : List Column) :
    known.Completes (fillType others c) := by
  rcases fillType_cases others c with ⟨hkept, -⟩ | ⟨hlacks, k, -, -, htype, htaken⟩
  · rwa [hkept]
  · rw [htaken]
    right
    refine ⟨?_, htype⟩
    rcases h with ⟨hsame, -⟩ | ⟨-, hknown⟩
    · unfold lacksType at hlacks ⊢
      rwa [hsame]
    · rw [hknown] at hlacks
      contradiction

end Column

/-- The column that an origin names, of unknown type if the index has none. -/
def Index.source (index : Index) (origin : Option Origin) : Column :=
  (origin.bind fun o => index.columnOf? o.table o.column).getD (.named "")

theorem Scope.typed_named (scope : Scope) (origin : Option Origin) (name : String) :
    scope.typed origin (.named name) =
      (Column.named name).withTypeOf (scope.index.source origin) := by
  unfold typed Index.source
  cases origin.bind fun o => scope.index.columnOf? o.table o.column <;> rfl

/-! ## The first reading -/

/-- Whether a column has the type of its first origin, or one from elsewhere if that is unknown.
Of a table whose columns share names nothing is said. -/
def Index.Types (index : Index) (c : Column) : Prop :=
  (∀ o ∈ c.firstOrigin?, ∀ columns ∈ index.columnsOf? o.table, HaveDistinctNames columns) →
    (index.source c.firstOrigin?).Completes c

namespace Index.Types

variable {index : Index} {c : Column}

theorem named (name : String) : index.Types (.named name) := fun _ => .inl ⟨rfl, rfl⟩

theorem with_name (h : index.Types c) (name : String) : index.Types { c with name } := h

theorem fillType (h : index.Types c) (known : List Column) : index.Types (fillType known c) := by
  unfold Types
  rw [Column.firstOrigin?_fillType]
  exact fun hdistinct => (h hdistinct).fillType known

theorem uniqueNames {columns : List Column} (h : ∀ c ∈ columns, index.Types c) :
    ∀ c ∈ uniqueNames columns, index.Types c := by
  intro c hc
  obtain ⟨d, hd, name, rfl⟩ := exists_of_mem_uniqueNamesFrom hc
  exact (h d hd).with_name name

theorem rename {columns : List Column} (h : ∀ c ∈ columns, index.Types c) (names : List String) :
    ∀ c ∈ rename columns names, index.Types c := by
  induction names generalizing columns with
  | nil => rwa [rename_nil]
  | cons name names ih =>
    cases columns with
    | nil =>
      intro c hc
      obtain ⟨name, -, rfl⟩ := List.mem_map.mp hc
      exact .named name
    | cons d columns =>
      intro c hc
      rcases List.mem_cons.mp hc with rfl | hc
      · exact (h d (by simp)).with_name name
      · exact ih (fun e he => h e (List.mem_cons_of_mem d he)) c hc

end Index.Types

namespace Scope

variable {scope : Scope} {c : Column}

theorem types_of_mem_expand {id : String} (h : c ∈ scope.expand id) : scope.index.Types c := by
  obtain ⟨known, hknown, rfl⟩ := List.mem_map.mp h
  intro hdistinct
  rw [Column.firstOrigin?_withOrigins] at hdistinct ⊢
  cases hcolumns : scope.index.columnsOf? id with
  | none => simp [hcolumns] at hknown
  | some columns =>
    have hmem : known ∈ columns := by simpa [hcolumns] using hknown
    have hfind : scope.index.columnOf? id known.name = some known :=
      Index.columnOf?_eq_some_iff.mpr
        ⟨columns, hcolumns, find?_of_haveDistinctNames (hdistinct _ rfl columns hcolumns) hmem⟩
    left
    simp [Index.source, hfind, Column.withTypeOf]

theorem types_outputColumn (position : Nat) (item : SelectItem) :
    scope.index.Types (scope.outputColumn position item) := by
  intro _
  unfold outputColumn
  dsimp only
  rw [Column.firstOrigin?_withOrigins, typed_named]
  left
  simp [Column.withTypeOf]

theorem types_of_mem_outputColumns {items : List (List Token)}
    (h : c ∈ scope.outputColumns items) : scope.index.Types c := by
  apply Index.Types.uniqueNames _ c h
  intro d hd
  obtain ⟨⟨item, position⟩, -, hitem⟩ := List.mem_flatMap.mp hd
  unfold itemColumns at hitem
  dsimp only at hitem
  split at hitem
  · obtain ⟨id, -, hid⟩ := List.mem_flatMap.mp hitem
    exact types_of_mem_expand hid
  · obtain rfl := List.mem_singleton.mp hitem
    exact types_outputColumn position _

end Scope

theorem rename_ne_nil {columns : List Column} (h : columns ≠ []) (names : List String) :
    rename columns names ≠ [] := by
  cases columns with
  | nil => exact absurd rfl h
  | cons c columns => cases names <;> simp [rename]

theorem uniqueNames_ne_nil {columns : List Column} (h : columns ≠ []) :
    uniqueNames columns ≠ [] := by
  cases columns with
  | nil => exact absurd rfl h
  | cons c columns => simp [uniqueNames, uniqueNamesFrom]

theorem columns_readView_ne_nil {index : Index} {defaultSchema : Option String} {sql : String}
    (hresolved : Scope.outputColumns ⟨Usage.ofTokens index defaultSchema (sqlTokens sql), index⟩
      (outputItems (sqlTokens sql)) ≠ []) (known : Option (List Column)) :
    (readView index defaultSchema known sql).columns ≠ [] := by
  have hne : namedColumns index defaultSchema (sqlTokens sql) ≠ [] := rename_ne_nil hresolved _
  cases known with
  | none => exact uniqueNames_ne_nil hne
  | some known =>
    apply uniqueNames_ne_nil
    have hfill : fillTypes known (namedColumns index defaultSchema (sqlTokens sql)) ≠ [] := by
      rw [fillTypes_of_ne_nil hne]
      simpa using hne
    exact hfill

/-- The columns that a definition gives have the types of their first origins, or known types where
these are unknown. -/
theorem types_readView {index : Index} {defaultSchema : Option String} {sql : String}
    (hresolved : Scope.outputColumns ⟨Usage.ofTokens index defaultSchema (sqlTokens sql), index⟩
      (outputItems (sqlTokens sql)) ≠ []) (known : Option (List Column)) :
    ∀ c ∈ (readView index defaultSchema known sql).columns, index.Types c := by
  have hnamed : ∀ c ∈ namedColumns index defaultSchema (sqlTokens sql), index.Types c :=
    Index.Types.rename (fun c hc => Scope.types_of_mem_outputColumns hc) _
  have hne : namedColumns index defaultSchema (sqlTokens sql) ≠ [] := rename_ne_nil hresolved _
  cases known with
  | none => exact Index.Types.uniqueNames hnamed
  | some known =>
    have hfilled : ∀ c ∈ fillTypes known (namedColumns index defaultSchema (sqlTokens sql)),
        index.Types c := by
      intro c hc
      rw [fillTypes_of_ne_nil hne] at hc
      obtain ⟨d, hd, rfl⟩ := List.mem_map.mp hc
      exact (hnamed d hd).fillType known
    exact Index.Types.uniqueNames hfilled

/-! ## The second reading -/

theorem fillType_of_completes {columns : List Column} (hnodup : (nameKeys columns).Nodup)
    {b c : Column} (hc : c ∈ columns) (hname : b.name = c.name) (h : b.Completes c) :
    fillType columns b = b.withTypeOf c := by
  rcases fillType_cases columns b with ⟨hkept, hunknown⟩ | ⟨-, k, hk, hsame, -, htaken⟩
  · rw [hkept]
    rcases h with ⟨htype, hnullable⟩ | ⟨hlacks, hknown⟩
    · rw [Column.withTypeOf, ← htype, ← hnullable]
    · have hself : Text.equalIgnoringCase c.name b.name = true := by
        rw [hname]
        exact Text.equalIgnoringCase_refl _
      rw [hunknown hlacks c hc hself] at hknown
      contradiction
  · rw [hname] at hsame
    rw [htaken, eq_of_equalIgnoringCase_name hnodup hk hc hsame]

end Provenance
