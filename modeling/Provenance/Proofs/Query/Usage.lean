import Provenance.Proofs.Distinct
import Provenance.Query.Usage

/-!
# Resolved tables

An alias stands for the table of the last use that declares it. The tables that are reported are
those of the uses with an id, each under one of its spellings.
-/

namespace Provenance

namespace Usage

/-- The last use that declares an alias. -/
def lastDeclaring? (aliasName : String) (uses : List ResolvedUse) : Option ResolvedUse :=
  uses.reverse.find? fun u =>
    u.use.aliasName.any fun name => Text.lowerCase name == Text.lowerCase aliasName

theorem find?_foldl_declare (uses : List ResolvedUse) (b : Bindings) (aliasName : String) :
    (uses.foldl ResolvedUse.declare b).aliases.find? aliasName =
      ((lastDeclaring? aliasName uses).map ResolvedUse.id).or (b.aliases.find? aliasName) := by
  induction uses generalizing b with
  | nil => rfl
  | cons u uses ih =>
    rw [List.foldl_cons, ih]
    unfold lastDeclaring?
    rw [List.reverse_cons, List.find?_append, Option.map_or, Option.or_assoc]
    congr 1
    unfold ResolvedUse.declare
    cases hname : u.use.aliasName with
    | none => simp [hname]
    | some name =>
      have hbind : (b.bindAlias name u.id).aliases = b.aliases.replace name u.id := rfl
      simp only [hbind]
      rw [NameTable.find?_replace]
      by_cases hkey : Text.lowerCase name = Text.lowerCase aliasName <;> simp [hname, hkey]

theorem find?_declared (uses : List ResolvedUse) (aliasName : String) :
    (declared uses).aliases.find? aliasName =
      (lastDeclaring? aliasName uses).map ResolvedUse.id := by
  rw [declared, find?_foldl_declare]
  exact Option.or_none

/-- The id that a use stands for: that of the last use which declares its name as an alias, if it
is a single name without an alias of its own, or else the one of its name. -/
def referenceId (index : Index) (defaultSchema : Option String) (ms : List Mention)
    (u : TableUse) : String :=
  if u.isSimple && u.aliasName.isNone then
    ((lastDeclaring? u.lastPart (byName index defaultSchema ms)).map ResolvedUse.id).getD
      (index.tableId defaultSchema u.parts)
  else index.tableId defaultSchema u.parts

section Resolved

variable {index : Index} {defaultSchema : Option String} {ms : List Mention} {u : TableUse}

theorem followAlias_byName (index : Index) (defaultSchema : Option String) (ms : List Mention)
    (u : TableUse) :
    ResolvedUse.followAlias (declared (byName index defaultSchema ms))
        ⟨u, index.tableId defaultSchema u.parts⟩ =
      ⟨u, referenceId index defaultSchema ms u⟩ := by
  unfold ResolvedUse.followAlias referenceId
  rw [find?_declared]
  split <;> rfl

theorem resolved_byName (index : Index) (defaultSchema : Option String) (ms : List Mention) :
    resolved (byName index defaultSchema ms) =
      (((tableUses ms).filter fun u => !u.namesOneOf (commonNames ms)).map fun u =>
        ⟨u, referenceId index defaultSchema ms u⟩).filter fun u => !u.id.isEmpty := by
  rw [resolved, byName, List.map_map]
  congr 1
  apply List.map_congr_left
  intro u _
  exact followAlias_byName index defaultSchema ms u

theorem mem_tableUses : u ∈ tableUses ms ↔ .table u ∈ ms := by
  rw [tableUses, List.mem_filterMap]
  constructor
  · rintro ⟨m, hm, hu⟩
    cases m with
    | table v =>
      obtain rfl := Option.some.inj hu
      exact hm
    | commonTable name => simp at hu
  · intro hu
    exact ⟨.table u, hu, rfl⟩

theorem mem_byName {r : ResolvedUse} :
    r ∈ byName index defaultSchema ms ↔ ∃ u, .table u ∈ ms ∧
      u.namesOneOf (commonNames ms) = false ∧ r = ⟨u, index.tableId defaultSchema u.parts⟩ := by
  simp only [byName, List.mem_map, List.mem_filter, Bool.not_eq_true', mem_tableUses]
  constructor
  · rintro ⟨u, ⟨hu, hcommon⟩, rfl⟩
    exact ⟨u, hu, hcommon, rfl⟩
  · rintro ⟨u, hu, hcommon, rfl⟩
    exact ⟨u, ⟨hu, hcommon⟩, rfl⟩

/-- The tables of a statement depend on the uses that are no common table expressions only. -/
theorem ofMentions_of_byName {ms' : List Mention}
    (h : byName index defaultSchema ms = byName index defaultSchema ms') :
    ofMentions index defaultSchema ms = ofMentions index defaultSchema ms' := by
  rw [ofMentions, ofMentions, h]

/-- The tables in front are resolved by their names, unless one of the common table expressions
behind them hides them. -/
theorem byName_tables_append (index : Index) (defaultSchema : Option String)
    (us : List TableUse) (ms : List Mention) :
    byName index defaultSchema (us.map .table ++ ms) =
      ((us.filter fun u => !u.namesOneOf (commonNames ms)).map fun u =>
        ⟨u, index.tableId defaultSchema u.parts⟩) ++ byName index defaultSchema ms := by
  have huses : tableUses (us.map .table ++ ms) = us ++ tableUses ms := by
    rw [tableUses, List.filterMap_append, List.filterMap_map]
    exact congrArg (· ++ tableUses ms) List.filterMap_some
  have hcommons : commonNames (us.map .table ++ ms) = commonNames ms := by
    rw [commonNames, List.filterMap_append, List.filterMap_map]
    exact congrArg (· ++ commonNames ms) (List.filterMap_eq_nil_iff.mpr fun u _ => rfl)
  rw [byName, huses, hcommons, List.filter_append, List.map_append]
  rfl

theorem byName_tables (index : Index) (defaultSchema : Option String) (us : List TableUse) :
    byName index defaultSchema (us.map .table) =
      us.map fun u => ⟨u, index.tableId defaultSchema u.parts⟩ := by
  have hnone : ∀ u ∈ us, (!u.namesOneOf (commonNames [])) = true := by
    simp [commonNames, TableUse.namesOneOf]
  have h := byName_tables_append index defaultSchema us []
  rw [List.append_nil, List.filter_eq_self.mpr hnone] at h
  exact h.trans (List.append_nil _)

theorem mem_resolved {r : ResolvedUse} :
    r ∈ resolved (byName index defaultSchema ms) ↔ ∃ u, .table u ∈ ms ∧
      u.namesOneOf (commonNames ms) = false ∧ referenceId index defaultSchema ms u ≠ "" ∧
      r = ⟨u, referenceId index defaultSchema ms u⟩ := by
  simp only [resolved_byName, List.mem_filter, List.mem_map, mem_tableUses, Bool.not_eq_true',
    String.isEmpty_eq_false_iff]
  constructor
  · rintro ⟨⟨u, ⟨hu, hcommon⟩, rfl⟩, hid⟩
    exact ⟨u, hu, hcommon, hid, rfl⟩
  · rintro ⟨u, hu, hcommon, hid, rfl⟩
    exact ⟨⟨u, ⟨hu, hcommon⟩, rfl⟩, hid⟩

end Resolved

theorem exists_mem_idsOf {p : TableUse → Bool} {uses : List ResolvedUse} {r : ResolvedUse}
    (hr : r ∈ uses) (hp : p r.use = true) :
    ∃ id ∈ idsOf p uses, Text.lowerCase id = Text.lowerCase r.id := by
  apply exists_mem_distinctBy
  exact List.mem_map.mpr ⟨r, List.mem_filter.mpr ⟨hr, hp⟩, rfl⟩

theorem exists_of_mem_idsOf {p : TableUse → Bool} {uses : List ResolvedUse} {id : String}
    (h : id ∈ idsOf p uses) : ∃ r ∈ uses, p r.use = true ∧ r.id = id := by
  obtain ⟨r, hr, hid⟩ := List.mem_map.mp (distinctBy_subset _ h)
  obtain ⟨hmem, hp⟩ := List.mem_filter.mp hr
  exact ⟨r, hmem, hp, hid⟩

/-- A use that is found has its id among the tables, unless it names a common table expression or
has no id. -/
theorem mem_reads_or_writes {index : Index} {defaultSchema : Option String} {ms : List Mention}
    {u : TableUse} (hu : .table u ∈ ms)
    (hcommon : u.namesOneOf (commonNames ms) = false)
    (hid : referenceId index defaultSchema ms u ≠ "") :
    ∃ id ∈ (ofMentions index defaultSchema ms).reads ++ (ofMentions index defaultSchema ms).writes,
      Text.lowerCase id = Text.lowerCase (referenceId index defaultSchema ms u) := by
  have hresolved := mem_resolved.mpr ⟨u, hu, hcommon, hid, rfl⟩
  cases haccess : u.access with
  | read =>
    obtain ⟨id, hmem, hkey⟩ :=
      exists_mem_idsOf (p := fun u => u.access == .read) hresolved (by simp [haccess])
    exact ⟨id, List.mem_append_left _ hmem, hkey⟩
  | write =>
    obtain ⟨id, hmem, hkey⟩ :=
      exists_mem_idsOf (p := fun u => u.access == .write) hresolved (by simp [haccess])
    exact ⟨id, List.mem_append_right _ hmem, hkey⟩

theorem reads_ofMentions_singleton (index : Index) (defaultSchema : Option String)
    {u : TableUse} (halias : u.aliasName = none) (haccess : u.access = .read) :
    (ofMentions index defaultSchema [.table u]).reads =
      [index.tableId defaultSchema u.parts].filter fun id => !id.isEmpty := by
  have hbyName : byName index defaultSchema [.table u] =
      [⟨u, index.tableId defaultSchema u.parts⟩] := byName_tables index defaultSchema [u]
  have hid : referenceId index defaultSchema [.table u] u =
      index.tableId defaultSchema u.parts := by
    simp [referenceId, hbyName, lastDeclaring?, halias]
  have huses : (tableUses [.table u]).filter
      (fun v => !v.namesOneOf (commonNames [.table u])) = [u] := by
    simp [tableUses, commonNames, TableUse.namesOneOf]
  rw [ofMentions, resolved_byName, huses, List.map_singleton, hid]
  by_cases hempty : (index.tableId defaultSchema u.parts).isEmpty <;>
    simp [hempty, idsOf, distinctBy, haccess]

end Usage

end Provenance
