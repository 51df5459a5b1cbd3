import Mathlib.Data.List.Basic
import Provenance.Proofs.Query.Bindings
import Provenance.Query.Attribution

/-!
# The part of an index that attribution uses

The columns of a statement are looked up in the tables that its names can stand for and in no
others. Two indexes that agree on these tables give the same output columns.
-/

namespace Provenance

namespace Usage

/-- Whether a name, alias or wildcard of a statement can stand for the table with an id. -/
def Reaches (usage : Usage) (id : String) : Prop :=
  id ∈ usage.reads ∨ id ∈ usage.topLevelReads ∨
    ∃ name, usage.bindings.lookup? name = some id

section Reaches

variable {index : Index} {defaultSchema : Option String} {ms : List Mention} {id : String}

def IsReferred (index : Index) (defaultSchema : Option String) (ms : List Mention)
    (id : String) : Prop :=
  ∃ u ∈ tableUses ms, u.namesOneOf (commonNames ms) = false ∧
    id = referenceId index defaultSchema ms u

theorem isReferred_of_mem_idsOf {p : TableUse → Bool}
    (h : id ∈ idsOf p (resolved (byName index defaultSchema ms))) :
    IsReferred index defaultSchema ms id := by
  obtain ⟨r, hr, -, rfl⟩ := exists_of_mem_idsOf h
  obtain ⟨u, hu, hcommon, -, rfl⟩ := mem_resolved.mp hr
  exact ⟨u, mem_tableUses.mpr hu, hcommon, rfl⟩

theorem isReferred_of_alias {name : String}
    (h : (lastDeclaring? name (byName index defaultSchema ms)).map ResolvedUse.id = some id) :
    IsReferred index defaultSchema ms id := by
  obtain ⟨r, hlast, rfl⟩ := Option.map_eq_some_iff.mp h
  have hmem := List.mem_reverse.mp (List.mem_of_find?_eq_some hlast)
  obtain ⟨u, hu, hcommon, rfl⟩ := mem_byName.mp hmem
  have halias := List.find?_some hlast
  obtain ⟨declaredName, haliasName, -⟩ := (Option.any_eq_true _ _).mp halias
  exact ⟨u, mem_tableUses.mpr hu, hcommon, (referenceId_of_aliasName haliasName).symm⟩

theorem isReferred_of_reaches (h : (ofMentions index defaultSchema ms).Reaches id) :
    IsReferred index defaultSchema ms id := by
  rcases h with hread | htop | ⟨name, hname⟩
  · exact isReferred_of_mem_idsOf (p := fun u => u.access == .read) hread
  · exact isReferred_of_mem_idsOf (p := fun u => u.access == .read && u.depth == 0) htop
  · rw [lookup?_ofMentions] at hname
    rcases Option.or_eq_some_iff.mp hname with halias | ⟨-, hname⟩
    · exact isReferred_of_alias halias
    · obtain ⟨r, hr, rfl⟩ := Option.map_eq_some_iff.mp hname
      obtain ⟨u, hu, hcommon, -, rfl⟩ := mem_resolved.mp (List.mem_of_find?_eq_some hr)
      exact ⟨u, mem_tableUses.mpr hu, hcommon, rfl⟩

end Reaches

/-! ## Names of tables -/

theorem tableId_congr {i j : Index} (h : i.ids = j.ids) (defaultSchema : Option String)
    (parts : List String) : i.tableId defaultSchema parts = j.tableId defaultSchema parts := by
  simp only [Index.tableId, Index.idOf?, h]

theorem ofTokens_congr {i j : Index} (h : i.ids = j.ids) (defaultSchema : Option String)
    (ts : List Token) : ofTokens i defaultSchema ts = ofTokens j defaultSchema ts := by
  simp only [ofTokens, ofMentions, byName, tableId_congr h]

end Usage

namespace Scope

variable {usage : Usage} {i j : Index} {id : String}

section Congr

variable (h : ∀ id, usage.Reaches id → i.columnsOf? id = j.columnsOf? id)

include h

theorem columnOf?_congr (hid : usage.Reaches id) (column : String) :
    i.columnOf? id column = j.columnOf? id column := by
  simp only [Index.columnOf?, h id hid]

theorem unqualified?_congr (column : String) :
    unqualified? ⟨usage, i⟩ column = unqualified? ⟨usage, j⟩ column := by
  have howned : ∀ id ∈ usage.reads,
      ownedBy? ⟨usage, i⟩ column id = ownedBy? ⟨usage, j⟩ column id := by
    intro id hid
    simp only [ownedBy?, columnOf?_congr h (.inl hid)]
  unfold unqualified?
  cases hreads : usage.reads with
  | nil => rfl
  | cons id ids =>
    have hid : id ∈ usage.reads := by simp [hreads]
    cases ids with
    | nil => simp only [h id (.inl hid), howned id hid]
    | cons next ids =>
      have howners : (id :: next :: ids).filterMap (ownedBy? ⟨usage, i⟩ column) =
          (id :: next :: ids).filterMap (ownedBy? ⟨usage, j⟩ column) :=
        List.filterMap_congr (hreads ▸ howned)
      simp only [howners]

theorem origin?_congr (names : List String) :
    origin? ⟨usage, i⟩ names = origin? ⟨usage, j⟩ names := by
  unfold origin?
  split
  · rfl
  · exact unqualified?_congr h _
  · rename_i column qualifier _ _
    unfold qualified?
    cases hid : usage.bindings.lookup?
        (Identifier.joinId (Identifier.lastTwo qualifier.reverse)) with
    | none => rfl
    | some id => simp [originIn, columnOf?_congr h (.inr (.inr ⟨_, hid⟩))]

theorem origins_congr (expr : List Token) :
    origins ⟨usage, i⟩ expr = origins ⟨usage, j⟩ expr := by
  simp only [origins, origin?_congr h]

omit h in
theorem reaches_of_origin? {names : List String} {o : Origin}
    (ho : origin? ⟨usage, i⟩ names = some o) : usage.Reaches o.table := by
  unfold origin? at ho
  split at ho
  · simp at ho
  · unfold unqualified? at ho
    split at ho
    · rename_i id hreads
      have hid : id ∈ usage.reads := hreads ▸ List.mem_singleton_self id
      split at ho
      · obtain ⟨c, -, rfl⟩ := Option.map_eq_some_iff.mp ho
        exact .inl hid
      · obtain rfl := Option.some.inj ho
        exact .inl hid
    · split at ho
      · rename_i origin howned
        obtain rfl := Option.some.inj ho
        have hmem := List.mem_singleton_self origin
        rw [← howned] at hmem
        obtain ⟨id, hid, horigin⟩ := List.mem_filterMap.mp hmem
        obtain ⟨c, -, rfl⟩ := Option.map_eq_some_iff.mp horigin
        exact .inl hid
      · simp at ho
  · obtain ⟨id, hid, rfl⟩ := Option.map_eq_some_iff.mp ho
    exact .inr (.inr ⟨_, hid⟩)

theorem typed_congr (expr : List Token) (c : Column) :
    typed ⟨usage, i⟩ (origins ⟨usage, i⟩ expr).head? c =
      typed ⟨usage, j⟩ (origins ⟨usage, i⟩ expr).head? c := by
  cases ho : (origins ⟨usage, i⟩ expr).head? with
  | none => rfl
  | some o =>
    have hmem := distinctBy_subset _ (List.mem_of_head? ho)
    obtain ⟨chain, -, horigin⟩ := List.mem_filterMap.mp hmem
    simp only [typed, Option.bind_some, columnOf?_congr h (reaches_of_origin? horigin)]

theorem outputColumn_congr (position : Nat) (item : SelectItem) :
    outputColumn ⟨usage, i⟩ position item = outputColumn ⟨usage, j⟩ position item := by
  unfold outputColumn
  dsimp only
  rw [typed_congr h, origins_congr h]

omit h in
theorem reaches_of_wildcard? {expr : List Token} {ids : List String}
    (hids : wildcard? ⟨usage, i⟩ expr = some ids) (hid : id ∈ ids) : usage.Reaches id := by
  unfold wildcard? at hids
  split at hids
  · simp at hids
  split at hids
  · simp at hids
  split at hids
  · obtain rfl := Option.some.inj hids
    unfold starTables at hid
    split at hid
    · exact .inl hid
    · exact .inr (.inl hid)
  · obtain ⟨qualifier, -, rfl⟩ := Option.map_eq_some_iff.mp hids
    exact .inr (.inr ⟨_, Option.mem_toList.mp hid⟩)

theorem itemColumns_congr (ts : List Token) (position : Nat) :
    itemColumns ⟨usage, i⟩ ts position = itemColumns ⟨usage, j⟩ ts position := by
  have hwildcard : ∀ expr, wildcard? ⟨usage, i⟩ expr = wildcard? ⟨usage, j⟩ expr := fun _ => rfl
  unfold itemColumns
  dsimp only
  rw [← hwildcard, outputColumn_congr h]
  cases hids : wildcard? ⟨usage, i⟩ (SelectItem.ofTokens ts).expr with
  | none => rfl
  | some ids =>
    apply List.flatMap_congr
    intro id hid
    simp only [expand, h id (reaches_of_wildcard? hids hid)]

/-- Output columns depend on the columns of the tables that the statement reaches only. -/
theorem outputColumns_congr (items : List (List Token)) :
    outputColumns ⟨usage, i⟩ items = outputColumns ⟨usage, j⟩ items := by
  simp only [outputColumns, itemColumns_congr h]

end Congr

end Scope

end Provenance
