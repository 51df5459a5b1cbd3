import Provenance.Proofs.Distinct
import Provenance.Proofs.Query.NameChains
import Provenance.Proofs.Writing.ViewRoundTrip

/-!
# Names of written columns

A column of a written view is named by an alias, by its first origin or by the chain of names that
it is written as. Where the columns of no table are known all of these are the name it was written
with, whatever its origins are.
-/

namespace Provenance

/-! ## Origins in unknown tables -/

/-- Whether an index knows no column of any table. -/
def Index.KnowsNone (index : Index) : Prop := ∀ id column, index.columnOf? id column = none

theorem Index.knowsNone_empty : Catalog.empty.index.KnowsNone := fun _ _ => rfl

namespace Scope

variable {scope : Scope}

theorem column_of_origin? (hindex : scope.index.KnowsNone) {names : List String} {o : Origin}
    (h : scope.origin? names = some o) : names.getLast? = some o.column := by
  have howned : ∀ column id, scope.ownedBy? column id = none := by
    intro column id
    rw [ownedBy?, hindex id column]
    rfl
  have hunqualified : ∀ {column}, scope.unqualified? column = some o → o.column = column := by
    intro column hcolumn
    unfold unqualified? at hcolumn
    split at hcolumn
    · split at hcolumn
      · simp [howned] at hcolumn
      · rw [← Option.some.inj hcolumn]
    · simp [funext (howned column)] at hcolumn
  rw [← List.head?_reverse]
  unfold origin? at h
  split at h
  · simp at h
  · rename_i column hnames
    rw [hnames, hunqualified h]
    rfl
  · rename_i column qualifier _ hnames
    obtain ⟨id, -, rfl⟩ := Option.map_eq_some_iff.mp h
    rw [hnames, originIn, hindex id column]
    rfl

theorem column_of_mem_origins (hindex : scope.index.KnowsNone) {n : QualifiedName}
    (h : n.IsPlain) {o : Origin} (ho : o ∈ scope.origins n.tokens) :
    o.column = Identifier.bare n.last.text := by
  obtain ⟨c, hchains, hbare⟩ := QualifiedName.exists_chain h.isWord
  obtain ⟨chain, hchain, horigin⟩ := List.mem_filterMap.mp (distinctBy_subset _ ho)
  obtain rfl : chain = c := by simpa [hchains] using (List.mem_filter.mp hchain).1
  have hlast := column_of_origin? hindex horigin
  rw [hbare, List.getLast?_map, List.getLast?_eq_some_getLast (List.cons_ne_nil _ _)] at hlast
  exact (Option.some.inj hlast).symm

theorem itemColumns_qualifiedName (hindex : scope.index.KnowsNone) {n : QualifiedName}
    (h : n.IsPlain) (hne : Identifier.bare n.last.text ≠ "") (position : Nat) :
    scope.itemColumns n.tokens position =
      [scope.columnAs (Identifier.bare n.last.text) n.tokens] := by
  have hname : outputName position ⟨none, n.tokens⟩ (scope.origins n.tokens) =
      Identifier.bare n.last.text := by
    unfold outputName
    cases horigins : scope.origins n.tokens with
    | nil => simp [h.impliedName?_tokens, unlessEmpty, hne]
    | cons o origins =>
      have ho : o ∈ scope.origins n.tokens := by simp [horigins]
      simp [column_of_mem_origins hindex h ho]
  unfold itemColumns
  rw [n.ofTokens_tokens]
  simp only [QualifiedName.wildcard?_tokens h.isWord_last, outputColumn, hname, columnAs]

end Scope

/-! ## Written columns -/

/-- The name that an origin is written as. -/
def Origin.qualifiedName (qualified : Bool) (o : Origin) : QualifiedName :=
  let column := Identifier.token o.column
  if qualified then
    match Identifier.splitId? o.table with
    | some (schema, name) => ⟨Identifier.token schema, [Identifier.token name, column]⟩
    | none => ⟨Identifier.token o.table, [column]⟩
  else ⟨column, []⟩

namespace Origin

variable (qualified : Bool) (o : Origin)

theorem tokens_eq : o.tokens qualified = (o.qualifiedName qualified).tokens := by
  cases qualified with
  | false => rfl
  | true =>
    rw [tokens, if_pos rfl, qualifiedName, if_pos rfl, Identifier.idTokens]
    cases Identifier.splitId? o.table <;> rfl

theorem isPlain_qualifiedName : (o.qualifiedName qualified).IsPlain := by
  intro t ht
  have hplain := Identifier.token_isPlainName
  unfold qualifiedName at ht
  cases qualified with
  | false =>
    obtain rfl := List.mem_singleton.mp ht
    exact hplain _
  | true =>
    cases hsplit : Identifier.splitId? o.table with
    | none =>
      simp only [hsplit, if_true, List.mem_cons, List.not_mem_nil, or_false] at ht
      rcases ht with rfl | rfl <;> exact hplain _
    | some parts =>
      simp only [hsplit, if_true, List.mem_cons, List.not_mem_nil, or_false] at ht
      rcases ht with rfl | rfl | rfl <;> exact hplain _

theorem last_qualifiedName : (o.qualifiedName qualified).last = Identifier.token o.column := by
  unfold qualifiedName
  cases qualified with
  | false => rfl
  | true => cases Identifier.splitId? o.table <;> rfl

end Origin

def Column.exprTokens (qualified : Bool) (c : Column) : List Token :=
  match c.firstOrigin? with
  | none => [.word "NULL"]
  | some o => o.tokens qualified

theorem Scope.itemColumns_writtenName {scope : Scope} (hindex : scope.index.KnowsNone)
    (qualified : Bool) {c : Column} (hne : c.name ≠ "") (htrim : Text.trim c.name = c.name)
    (position : Nat) :
    scope.itemColumns (c.itemTokens qualified) position =
      [scope.columnAs c.name (c.exprTokens qualified)] := by
  unfold Column.itemTokens Column.exprTokens
  cases c.firstOrigin? with
  | none => exact itemColumns_marked rfl hne htrim position
  | some o =>
    have hplain := o.isPlain_qualifiedName qualified
    simp only [o.tokens_eq qualified]
    split
    · rename_i hname
      have hbare : Identifier.bare (o.qualifiedName qualified).last.text = c.name := by
        rw [o.last_qualifiedName, ← eq_of_beq hname, Identifier.bare_token_text htrim]
      rw [itemColumns_qualifiedName hindex hplain (hbare ▸ hne), hbare]
    · exact itemColumns_aliased (QualifiedName.wildcard?_tokens hplain.isWord_last scope) hne
        htrim position

/-- Where no columns are known a written view has the names that it was written with. -/
theorem names_outputColumns {scope : Scope} (hindex : scope.index.KnowsNone) (id : String)
    {columns : List Column} (hne : columns ≠ [])
    (hnamed : ∀ c ∈ columns, c.name ≠ "" ∧ Text.trim c.name = c.name)
    (hdistinct : (nameKeys columns).Nodup) :
    (scope.outputColumns (outputItems (viewTokens id columns))).map Column.name =
      columns.map Column.name := by
  let qualified := (writtenTable? columns).isNone
  let read := fun c : Column => scope.columnAs c.name (c.exprTokens qualified)
  have hitem : ∀ c ∈ columns, ∀ position,
      scope.itemColumns (c.itemTokens qualified) position = [read c] := by
    intro c hc position
    obtain ⟨hname, htrim⟩ := hnamed c hc
    exact Scope.itemColumns_writtenName hindex qualified hname htrim position
  have hitems := scope.flatMap_itemColumns _ (fun c => [read c]) hitem
  rw [← List.map_eq_flatMap] at hitems
  have hnames : (columns.map read).map Column.name = columns.map Column.name := by
    simp [read, Scope.columnAs_name]
  have hkeys : nameKeys (columns.map read) = nameKeys columns := by
    simp [nameKeys, read, Scope.columnAs_name]
  rw [Scope.outputColumns, outputItems_viewTokens id hne, hitems,
    uniqueNames_of_nodup (hkeys ▸ hdistinct), hnames]

/-- A written view that is read where nothing else is known has the names that it was written
with, in their order, whatever its columns come from. -/
theorem names_readView_writeView (id : String) {columns : List Column} (hne : columns ≠ [])
    (hnamed : ∀ c ∈ columns, c.name ≠ "" ∧ Text.trim c.name = c.name)
    (hdistinct : (nameKeys columns).Nodup) :
    (readView Catalog.empty.index none none (writeView id columns)).columns.map Column.name =
      columns.map Column.name := by
  let scope : Scope :=
    ⟨Usage.ofTokens Catalog.empty.index none (viewTokens id columns), Catalog.empty.index⟩
  have hindex : scope.index.KnowsNone := Index.knowsNone_empty
  have hnames := names_outputColumns hindex id hne hnamed hdistinct
  unfold readView
  simp only [sqlTokens_writeView id hne, declaredColumns?_viewTokens, Option.getD_none, rename,
    Scope.outputColumns, uniqueNames_uniqueNames]
  exact hnames

/-- Origins in tables of several names, of no name and of a name that has blanks, full stops and
brackets in it, and a column that has two. -/
theorem names_readView_writeView_sources :
    let columns : List Column :=
      [(Column.named "a").withOrigins [⟨"", "a"⟩, ⟨"s.t", "b"⟩],
        (Column.named "NULL").withOrigins [⟨" x.y.z", "NULL"⟩],
        (Column.named "b.c").withOrigins [⟨".", " b.c"⟩],
        (Column.named "]--").withOrigins [⟨"[q]", ""⟩], .named "'"]
    (readView Catalog.empty.index none none (writeView "" columns)).columns.map Column.name =
      ["a", "NULL", "b.c", "]--", "'"] := by
  intro columns
  exact names_readView_writeView "" (by decide +kernel) (by decide +kernel) (by decide +kernel)

end Provenance
