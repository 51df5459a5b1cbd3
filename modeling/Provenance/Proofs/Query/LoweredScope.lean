import Provenance.Proofs.Query.LoweredItems
import Provenance.Proofs.Query.LoweredUsage
import Provenance.Query.Attribution

/-!
# Output columns in small letters

Names are resolved in any case, and a name that is made up has no capital letters but those of the
name it is made from. So the items in small letters have the output columns of the items.
-/

namespace Provenance

namespace Scope

def lowered (scope : Scope) : Scope := ⟨scope.usage.lowered, scope.index.lowered⟩

variable (scope : Scope)

/-! ## Names -/

@[simp] theorem qualified?_lowered (qualifier : List String) :
    scope.lowered.qualified? (qualifier.map Text.asciiLower) =
      (scope.qualified? qualifier).map Text.asciiLower := by
  simp [qualified?, lowered, Usage.lowered]

@[simp] theorem originIn_lowered (column id : String) :
    scope.lowered.originIn (Text.asciiLower column) (Text.asciiLower id) =
      (scope.originIn column id).lowered := by
  simp only [originIn, lowered, Index.columnOf?_lowered, Origin.lowered]
  cases scope.index.columnOf? id column <;> rfl

@[simp] theorem ownedBy?_lowered (column id : String) :
    scope.lowered.ownedBy? (Text.asciiLower column) (Text.asciiLower id) =
      (scope.ownedBy? column id).map Origin.lowered := by
  simp only [ownedBy?, lowered, Index.columnOf?_lowered]
  cases scope.index.columnOf? id column <;> rfl

theorem filterMap_ownedBy?_lowered (column : String) (ids : List String) :
    (ids.map Text.asciiLower).filterMap (scope.lowered.ownedBy? (Text.asciiLower column)) =
      (ids.filterMap (scope.ownedBy? column)).map Origin.lowered := by
  rw [List.filterMap_map, List.map_filterMap]
  congr 1
  funext id
  exact scope.ownedBy?_lowered column id

@[simp] theorem unqualified?_lowered (column : String) :
    scope.lowered.unqualified? (Text.asciiLower column) =
      (scope.unqualified? column).map Origin.lowered := by
  have hreads : scope.lowered.usage.reads = scope.usage.reads.map Text.asciiLower := rfl
  have hcolumns : ∀ id, scope.lowered.index.columnsOf? (Text.asciiLower id) =
      (scope.index.columnsOf? id).map (List.map Column.lowered) := scope.index.columnsOf?_lowered
  unfold unqualified?
  rw [hreads]
  match scope.usage.reads with
  | [] => rfl
  | [id] =>
    simp only [List.map_cons, List.map_nil, hcolumns, ownedBy?_lowered]
    match scope.index.columnsOf? id with
    | none => rfl
    | some [] => rfl
    | some (c :: columns) => rfl
  | first :: second :: rest =>
    have howned := scope.filterMap_ownedBy?_lowered column (first :: second :: rest)
    simp only [List.map_cons] at howned ⊢
    rw [howned]
    match (first :: second :: rest).filterMap (scope.ownedBy? column) with
    | [] => rfl
    | [origin] => rfl
    | origin :: other :: origins => rfl

@[simp] theorem origin?_lowered (names : List String) :
    scope.lowered.origin? (names.map Text.asciiLower) =
      (scope.origin? names).map Origin.lowered := by
  unfold origin?
  rw [← List.map_reverse]
  match names.reverse with
  | [] => rfl
  | [column] => exact scope.unqualified?_lowered column
  | column :: first :: rest =>
    have hqualified := scope.qualified?_lowered (first :: rest).reverse
    rw [List.map_reverse] at hqualified
    simp only [List.map_cons] at hqualified ⊢
    rw [hqualified]
    cases scope.qualified? (first :: rest).reverse with
    | none => rfl
    | some id => exact congrArg some (scope.originIn_lowered column id)

@[simp] theorem origins_lowered (expr : List Token) :
    scope.lowered.origins (Provenance.lowered expr) =
      (scope.origins expr).map Origin.lowered := by
  have hcolumn : Chain.isColumn ∘ Chain.lowered = Chain.isColumn := funext Chain.isColumn_lowered
  have horigin : (fun c : Chain => scope.lowered.origin? c.bareNames) ∘ Chain.lowered =
      fun c => (scope.origin? c.bareNames).map Origin.lowered := by
    funext c
    simp
  have hchains : chains [] (Provenance.lowered expr) = (chains [] expr).map Chain.lowered :=
    chains_lowered [] expr
  rw [origins, hchains, List.filter_map, hcolumn, List.filterMap_map, horigin,
    ← List.map_filterMap, distinctBy_map Origin.key_lowered, origins]

/-! ## Wildcards -/

@[simp] theorem starTables_lowered :
    scope.lowered.starTables = scope.starTables.map Text.asciiLower := by
  unfold starTables
  rw [lowered, Usage.lowered]
  simp only [List.isEmpty_map]
  split <;> rfl

@[simp] theorem wildcard?_lowered (expr : List Token) :
    scope.lowered.wildcard? (Provenance.lowered expr) =
      (scope.wildcard? expr).map (List.map Text.asciiLower) := by
  unfold wildcard?
  rw [← List.map_reverse]
  cases expr.reverse with
  | nil => rfl
  | cons star front =>
    have hstar : star.lowered.isMark '*' = star.isMark '*' := Token.lowered_isMark star rfl rfl
    have hname : ∀ qualifier : List Token,
        (qualifier.map Token.lowered).map (fun t => Identifier.bare t.text) =
          (qualifier.map fun t => Identifier.bare t.text).map Text.asciiLower := by
      intro qualifier
      simp [Function.comp_def]
    simp only [List.map_cons, hstar, List.isEmpty_map, starTables_lowered,
      wildcardQualifier?_lowered]
    split
    · rfl
    split
    · rfl
    · cases wildcardQualifier? front with
      | none => rfl
      | some qualifier =>
        simp only [Option.map_some, hname, qualified?_lowered]
        cases scope.qualified? (qualifier.map fun t => Identifier.bare t.text) <;> rfl

@[simp] theorem expand_lowered (id : String) :
    scope.lowered.expand (Text.asciiLower id) = (scope.expand id).map Column.lowered := by
  have hcolumns : scope.lowered.index.columnsOf? (Text.asciiLower id) =
      (scope.index.columnsOf? id).map (List.map Column.lowered) :=
    scope.index.columnsOf?_lowered id
  unfold expand
  rw [hcolumns]
  cases scope.index.columnsOf? id with
  | none => rfl
  | some columns =>
    simp only [Option.map_some, Option.getD_some, List.map_map]
    rfl

/-! ## Columns -/

theorem outputName_lowered (position : Nat) (item : SelectItem) (origins : List Origin) :
    outputName position item.lowered (origins.map Origin.lowered) =
      Text.asciiLower (outputName position item origins) := by
  have hexpr : Text.asciiLower "expr_" = "expr_" := by decide
  have halias : item.lowered.aliasName = item.aliasName.map Text.asciiLower := rfl
  have himplied : impliedName? item.lowered.expr =
      (impliedName? item.expr).map Text.asciiLower := impliedName?_lowered item.expr
  have hfirst : (origins.map Origin.lowered).head?.map Origin.column =
      (origins.head?.map Origin.column).map Text.asciiLower := by
    cases origins <;> rfl
  rw [outputName, halias, himplied, hfirst, ← Option.map_or, ← Option.map_or, outputName]
  cases (item.aliasName.or (origins.head?.map Origin.column)).or (impliedName? item.expr) with
  | none =>
    simp only [Option.map_none, Option.getD_none, Text.asciiLower_append, hexpr,
      Text.asciiLower_repr]
  | some name => rfl

@[simp] theorem typed_lowered (origin : Option Origin) (c : Column) :
    scope.lowered.typed (origin.map Origin.lowered) c.lowered = (scope.typed origin c).lowered := by
  cases origin with
  | none => rfl
  | some o =>
    have hknown : scope.lowered.index.columnOf? o.lowered.table o.lowered.column =
        (scope.index.columnOf? o.table o.column).map Column.lowered :=
      scope.index.columnOf?_lowered o.table o.column
    simp only [typed, Option.map_some, Option.bind_some, hknown]
    cases scope.index.columnOf? o.table o.column <;> rfl

@[simp] theorem outputColumn_lowered (position : Nat) (item : SelectItem) :
    scope.lowered.outputColumn position item.lowered =
      (scope.outputColumn position item).lowered := by
  have horigins : scope.lowered.origins item.lowered.expr =
      (scope.origins item.expr).map Origin.lowered := scope.origins_lowered item.expr
  have hhead : ((scope.origins item.expr).map Origin.lowered).head? =
      (scope.origins item.expr).head?.map Origin.lowered := List.head?_map
  unfold outputColumn
  simp only [horigins, outputName_lowered, hhead, Column.named_asciiLower, typed_lowered,
    Column.withOrigins_lowered]

@[simp] theorem itemColumns_lowered (ts : List Token) (position : Nat) :
    scope.lowered.itemColumns (Provenance.lowered ts) position =
      (scope.itemColumns ts position).map Column.lowered := by
  have hexpr : (SelectItem.ofTokens ts).lowered.expr =
      Provenance.lowered (SelectItem.ofTokens ts).expr := rfl
  simp only [itemColumns, SelectItem.ofTokens_lowered, hexpr, wildcard?_lowered,
    outputColumn_lowered]
  cases scope.wildcard? (SelectItem.ofTokens ts).expr with
  | none => rfl
  | some ids => simp [List.flatMap_map, List.map_flatMap]

end Scope

/-! ## Unique names -/

theorem numbered_asciiLower (name : String) (k : Nat) :
    numbered (Text.asciiLower name) k = Text.asciiLower (numbered name k) := by
  have hbar : Text.asciiLower "_" = "_" := by decide
  rw [numbered, numbered, Text.asciiLower_append, Text.asciiLower_append, hbar,
    Text.asciiLower_repr]

theorem freshName_asciiLower (used : List String) (name : String) :
    freshName used (Text.asciiLower name) = Text.asciiLower (freshName used name) := by
  have hnumbered : numbered (Text.asciiLower name) = Text.asciiLower ∘ numbered name :=
    funext (numbered_asciiLower name)
  have hkey : (fun candidate => !used.contains (Text.lowerCase candidate)) ∘ Text.asciiLower =
      fun candidate => !used.contains (Text.lowerCase candidate) := by
    funext candidate
    simp
  unfold freshName
  rw [Text.lowerCase_asciiLower, hnumbered, ← List.map_map, List.find?_map, hkey]
  split
  · cases ((List.range' 2 used.length).map (numbered name)).find? _ <;> rfl
  · rfl

theorem uniqueNamesFrom_lowered (used : List String) (columns : List Column) :
    uniqueNamesFrom used (columns.map Column.lowered) =
      (uniqueNamesFrom used columns).map Column.lowered := by
  induction columns generalizing used with
  | nil => rfl
  | cons c columns ih =>
    have hname : freshName used c.lowered.name = Text.asciiLower (freshName used c.name) :=
      freshName_asciiLower used c.name
    rw [List.map_cons, uniqueNamesFrom, hname, Text.lowerCase_asciiLower, ih, uniqueNamesFrom]
    rfl

@[simp] theorem uniqueNames_lowered (columns : List Column) :
    uniqueNames (columns.map Column.lowered) = (uniqueNames columns).map Column.lowered :=
  uniqueNamesFrom_lowered [] columns

theorem Scope.outputColumns_lowered (scope : Scope) (items : List (List Token)) :
    scope.lowered.outputColumns (items.map Provenance.lowered) =
      (scope.outputColumns items).map Column.lowered := by
  unfold outputColumns
  rw [← uniqueNames_lowered, List.zipIdx_map, List.flatMap_map, List.map_flatMap]
  congr 2
  funext ⟨item, position⟩
  exact scope.itemColumns_lowered item position

end Provenance
