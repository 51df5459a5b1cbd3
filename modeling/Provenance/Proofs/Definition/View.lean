import Mathlib.Data.List.Nodup
import Provenance.Definition.View
import Provenance.Proofs.Catalog.Column
import Provenance.Proofs.Query.UniqueNames

/-!
# Columns that a view is read with

Where names are declared for all columns, the columns have these names. Types that are filled in
from known columns stay the same when they are filled in from the result.
-/

namespace Provenance

theorem map_sources_uniqueNamesFrom (used : List String) (columns : List Column) :
    (uniqueNamesFrom used columns).map Column.sources = columns.map Column.sources := by
  induction columns generalizing used with
  | nil => rfl
  | cons c columns ih =>
    rw [uniqueNamesFrom, List.map_cons, ih]
    rfl

theorem map_sources_uniqueNames (columns : List Column) :
    (uniqueNames columns).map Column.sources = columns.map Column.sources :=
  map_sources_uniqueNamesFrom [] columns

theorem rename_nil (columns : List Column) : rename columns [] = columns := by
  cases columns <;> rfl

theorem map_name_rename {columns : List Column} {names : List String}
    (h : columns.length ≤ names.length) : (rename columns names).map Column.name = names := by
  induction names generalizing columns with
  | nil =>
    obtain rfl := List.eq_nil_of_length_eq_zero (Nat.le_zero.mp h)
    rfl
  | cons name names ih =>
    cases columns with
    | nil => simp [rename, Function.comp_def, Column.named]
    | cons c columns =>
      rw [rename, List.map_cons, ih (Nat.le_of_succ_le_succ h)]

theorem map_sources_rename {columns : List Column} {names : List String}
    (h : names.length ≤ columns.length) :
    (rename columns names).map Column.sources = columns.map Column.sources := by
  induction names generalizing columns with
  | nil => rw [rename_nil]
  | cons name names ih =>
    cases columns with
    | nil => simp at h
    | cons c columns =>
      rw [rename, List.map_cons, List.map_cons, ih (Nat.le_of_succ_le_succ h)]
      rfl

/-! ## Types of known columns -/

section FillType

variable {known columns : List Column} {c : Column}

theorem fillType_cases (known : List Column) (c : Column) :
    (fillType known c = c ∧ (c.lacksType = true → ∀ k ∈ known,
      Text.equalIgnoringCase k.name c.name = true → k.lacksType = true)) ∨
    (c.lacksType = true ∧ ∃ k ∈ known, Text.equalIgnoringCase k.name c.name = true ∧
      k.lacksType = false ∧ fillType known c = c.withTypeOf k) := by
  unfold fillType
  split
  · rename_i htype
    split
    · rename_i k hfind
      have hk := List.find?_some hfind
      simp only [Bool.and_eq_true, Bool.not_eq_true'] at hk
      exact .inr ⟨htype, k, List.mem_of_find?_eq_some hfind, hk.1, hk.2, rfl⟩
    · rename_i hnone
      refine .inl ⟨rfl, fun _ k hk hname => ?_⟩
      simpa [hname] using List.find?_eq_none.mp hnone k hk
  · rename_i htype
    exact .inl ⟨rfl, fun h => absurd h htype⟩

@[simp] theorem fillType_name (known : List Column) (c : Column) :
    (fillType known c).name = c.name := by
  rcases fillType_cases known c with ⟨h, -⟩ | ⟨-, k, -, -, -, h⟩ <;> rw [h]
  rfl

@[simp] theorem withTypeOf_fillType (known : List Column) (c : Column) :
    c.withTypeOf (fillType known c) = fillType known c := by
  rcases fillType_cases known c with ⟨h, -⟩ | ⟨-, k, -, -, -, h⟩ <;> rw [h] <;> rfl

@[simp] theorem fillType_sources (known : List Column) (c : Column) :
    (fillType known c).sources = c.sources := by
  rcases fillType_cases known c with ⟨h, -⟩ | ⟨-, k, -, -, -, h⟩ <;> rw [h]
  rfl

@[simp] theorem nameKeys_map_fillType (known columns : List Column) :
    nameKeys (columns.map (fillType known)) = nameKeys columns := by
  simp [nameKeys, Function.comp_def]

theorem eq_of_equalIgnoringCase_name (h : (nameKeys columns).Nodup) {a b : Column}
    (ha : a ∈ columns) (hb : b ∈ columns)
    (hname : Text.equalIgnoringCase a.name b.name = true) : a = b :=
  List.inj_on_of_nodup_map h ha hb (Text.lowerCase_eq_of_equalIgnoringCase hname)

theorem fillType_map_fillType (h : (nameKeys columns).Nodup) (hc : c ∈ columns) :
    fillType (columns.map (fillType known)) c = fillType known c := by
  have hself : fillType known c ∈ columns.map (fillType known) := List.mem_map_of_mem hc
  rcases fillType_cases (columns.map (fillType known)) c with
    ⟨hkept, hunknown⟩ | ⟨-, k, hk, hname, -, htaken⟩
  · rw [hkept]
    rcases fillType_cases known c with ⟨hfirst, -⟩ | ⟨hlacks, k, -, -, htype, hfirst⟩
    · exact hfirst.symm
    · -- The column would have a type that its own name does not find.
      have hlost := hunknown hlacks _ hself (by simp [Text.equalIgnoringCase_refl])
      have hkept : (c.withTypeOf k).lacksType = k.lacksType := rfl
      rw [hfirst, hkept, htype] at hlost
      contradiction
  · obtain ⟨d, hd, rfl⟩ := List.mem_map.mp hk
    rw [fillType_name] at hname
    obtain rfl := eq_of_equalIgnoringCase_name h hd hc hname
    rw [htaken, withTypeOf_fillType]

theorem fillTypes_of_ne_nil (h : columns ≠ []) :
    fillTypes known columns = columns.map (fillType known) := by
  cases columns with
  | nil => exact absurd rfl h
  | cons c columns => rfl

theorem fillTypes_fillTypes (h : (nameKeys columns).Nodup) :
    fillTypes (fillTypes known columns) columns = fillTypes known columns := by
  cases columns with
  | nil => rfl
  | cons c columns =>
    exact List.map_congr_left fun d hd => fillType_map_fillType h hd

end FillType

/-! ## Columns of a view -/

/-- A second reading, with the columns of the first as known ones, gives these columns again. -/
theorem uniqueNames_fillTypes {named : List Column} (known : List Column)
    (h : (nameKeys named).Nodup) :
    uniqueNames (fillTypes (uniqueNames (fillTypes known named)) named) =
      uniqueNames (fillTypes known named) := by
  cases named with
  | nil => exact uniqueNames_uniqueNames known
  | cons c named =>
    have hkeys : (nameKeys (fillTypes known (c :: named))).Nodup := by
      rw [fillTypes, nameKeys_map_fillType]
      · exact h
      · simp
    rw [uniqueNames_of_nodup hkeys, fillTypes_fillTypes h, uniqueNames_of_nodup hkeys]

theorem columns_readView_of_names {index : Index} {defaultSchema : Option String} {sql : String}
    {names : List String} (hdeclared : declaredColumns? (sqlTokens sql) = some names)
    (hne : names ≠ []) (hdistinct : (names.map Text.lowerCase).Nodup) {resolved : List Column}
    (hresolved : Scope.outputColumns ⟨Usage.ofTokens index defaultSchema (sqlTokens sql), index⟩
      (outputItems (sqlTokens sql)) = resolved)
    (hlength : resolved.length = names.length) (known : Option (List Column)) :
    let columns := (readView index defaultSchema known sql).columns
    columns.map Column.name = names ∧ columns.map Column.sources = resolved.map Column.sources := by
  have hname : (rename resolved names).map Column.name = names :=
    map_name_rename (Nat.le_of_eq hlength)
  have hsources := map_sources_rename (Nat.le_of_eq hlength.symm)
  have htyped : ∀ typed : List Column, typed.map Column.name = names →
      typed.map Column.sources = resolved.map Column.sources →
      (uniqueNames typed).map Column.name = names ∧
        (uniqueNames typed).map Column.sources = resolved.map Column.sources := by
    intro typed htypedName htypedSources
    refine ⟨?_, (map_sources_uniqueNames typed).trans htypedSources⟩
    rw [uniqueNames_of_nodup, htypedName]
    rw [← htypedName, List.map_map] at hdistinct
    exact hdistinct
  cases known with
  | none =>
    simp only [readView, hdeclared, hresolved]
    exact htyped _ hname hsources
  | some known =>
    simp only [readView, hdeclared, hresolved]
    have hsome : rename resolved names ≠ [] := by
      intro hnil
      rw [hnil] at hname
      exact hne hname.symm
    have hfill : fillTypes known (rename resolved names) =
        (rename resolved names).map (fillType known) := fillTypes_of_ne_nil hsome
    apply htyped
    · simpa [hfill, Function.comp_def] using hname
    · simpa [hfill, Function.comp_def] using hsources

theorem columns_readView_of_undeclared {index : Index} {defaultSchema : Option String}
    {sql : String} (hdeclared : declaredColumns? (sqlTokens sql) = none) {resolved : List Column}
    (hresolved : Scope.outputColumns ⟨Usage.ofTokens index defaultSchema (sqlTokens sql), index⟩
      (outputItems (sqlTokens sql)) = resolved)
    (hne : resolved ≠ []) (known : Option (List Column)) :
    (readView index defaultSchema known sql).columns.map (fun c => (c.name, c.sources)) =
      resolved.map fun c => (c.name, c.sources) := by
  have hnodup : (nameKeys resolved).Nodup := by
    rw [← hresolved]
    exact nodup_nameKeys_uniqueNames _
  cases known with
  | none =>
    simp only [readView, hdeclared, hresolved, Option.getD_none, rename_nil]
    rw [uniqueNames_of_nodup hnodup]
  | some known =>
    have hkeys : (nameKeys (resolved.map (fillType known))).Nodup := by
      rwa [nameKeys_map_fillType]
    simp only [readView, hdeclared, hresolved, Option.getD_none, rename_nil]
    rw [fillTypes_of_ne_nil hne, uniqueNames_of_nodup hkeys]
    simp [Function.comp_def]

/-- The columns that the select list and the declared names of a statement give. -/
def namedColumns (index : Index) (defaultSchema : Option String) (ts : List Token) :
    List Column :=
  rename (Scope.outputColumns ⟨Usage.ofTokens index defaultSchema ts, index⟩ (outputItems ts))
    ((declaredColumns? ts).getD [])

theorem columns_readView (index : Index) (defaultSchema : Option String) (known : List Column)
    (sql : String) :
    (readView index defaultSchema (if known.isEmpty then none else some known) sql).columns =
      uniqueNames (fillTypes known (namedColumns index defaultSchema (sqlTokens sql))) := by
  cases known with
  | nil =>
    have hfill : ∀ columns, fillTypes [] columns = columns := by
      intro columns
      have hid : ∀ c : Column, fillType [] c = c := by simp [fillType]
      cases columns with
      | nil => rfl
      | cons c columns =>
        rw [fillTypes, List.map_congr_left fun c _ => hid c, List.map_id']
        simp
    rw [hfill]
    rfl
  | cons c known => rfl

/-- Whether the names that a statement declares for its columns, if it declares any, differ in any
case and there is one for every column. -/
def NamesAllColumns (index : Index) (defaultSchema : Option String) (ts : List Token) : Prop :=
  ∀ names ∈ declaredColumns? ts, (names.map Text.lowerCase).Nodup ∧
    (Scope.outputColumns ⟨Usage.ofTokens index defaultSchema ts, index⟩ (outputItems ts)).length ≤
      names.length

instance (index : Index) (defaultSchema : Option String) (ts : List Token) :
    Decidable (NamesAllColumns index defaultSchema ts) :=
  inferInstanceAs (Decidable (∀ names ∈ declaredColumns? ts, _))

theorem nodup_nameKeys_namedColumns {index : Index} {defaultSchema : Option String}
    {ts : List Token} (h : NamesAllColumns index defaultSchema ts) :
    (nameKeys (namedColumns index defaultSchema ts)).Nodup := by
  unfold namedColumns
  cases hnames : declaredColumns? ts with
  | none =>
    rw [Option.getD_none, rename_nil]
    exact nodup_nameKeys_uniqueNames _
  | some names =>
    obtain ⟨hnodup, hlength⟩ := h names hnames
    have hkeys : nameKeys = fun columns => (columns.map Column.name).map Text.lowerCase := by
      simp [funext_iff, nameKeys, Function.comp_def]
    rw [hkeys, Option.getD_some]
    dsimp only
    rw [map_name_rename hlength]
    exact hnodup

end Provenance
