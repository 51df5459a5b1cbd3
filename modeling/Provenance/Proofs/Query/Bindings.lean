import Provenance.Proofs.Query.Usage

/-!
# What aliases and names stand for

A name that is looked up stands for what it was bound to last as an alias, or else for what it was
bound to first as a name. In a statement aliases are declared before they are followed and names
are entered after that, so each of them stands for a table that is reported, and every table that
is reported is found by its id and its short name.
-/

namespace Provenance

/-! ## Bindings one after the other -/

/-- A name that is bound to the id of a table, as an alias or as a name of the table. -/
inductive Binding where
  | ofAlias (name id : String)
  | ofName (name id : String)
  deriving DecidableEq, Repr

namespace Binding

def enter (b : Bindings) : Binding → Bindings
  | ofAlias name id => b.bindAlias name id
  | ofName name id => b.bindName name id

/-- The id that a name is bound to as an alias. -/
def aliasId? (name : String) : Binding → Option String
  | ofAlias bound id => if Text.lowerCase bound = Text.lowerCase name then some id else none
  | ofName .. => none

/-- The id that a name is bound to as a name of the table. -/
def nameId? (name : String) : Binding → Option String
  | ofAlias .. => none
  | ofName bound id => if Text.lowerCase bound = Text.lowerCase name then some id else none

variable (b : Bindings) (binding : Binding) (bindings : List Binding) (name : String)

theorem find?_aliases_enter :
    (binding.enter b).aliases.find? name = (binding.aliasId? name).or (b.aliases.find? name) := by
  cases binding with
  | ofAlias bound id =>
    have haliases : ((ofAlias bound id).enter b).aliases = b.aliases.replace bound id := rfl
    rw [haliases, NameTable.find?_replace, aliasId?]
    split <;> rfl
  | ofName bound id => rfl

theorem find?_names_enter :
    (binding.enter b).names.find? name = (b.names.find? name).or (binding.nameId? name) := by
  cases binding with
  | ofAlias bound id => exact Option.or_none.symm
  | ofName bound id => exact NameTable.find?_enter bound name id b.names

theorem find?_aliases_foldl_enter :
    (bindings.foldl enter b).aliases.find? name =
      (bindings.reverse.findSome? (aliasId? name)).or (b.aliases.find? name) := by
  induction bindings generalizing b with
  | nil => rfl
  | cons binding bindings ih =>
    rw [List.foldl_cons, ih, find?_aliases_enter, List.reverse_cons, List.findSome?_append,
      Option.or_assoc]
    simp

theorem find?_names_foldl_enter :
    (bindings.foldl enter b).names.find? name =
      (b.names.find? name).or (bindings.findSome? (nameId? name)) := by
  induction bindings generalizing b with
  | nil => exact Option.or_none.symm
  | cons binding bindings ih =>
    rw [List.foldl_cons, ih, find?_names_enter, Option.or_assoc, List.findSome?_cons]
    cases binding.nameId? name <;> rfl

end Binding

/-- The last binding of an alias goes before the first binding of a name. -/
theorem Bindings.lookup?_foldl_enter (bindings : List Binding) (name : String) :
    (bindings.foldl Binding.enter .empty).lookup? name =
      (bindings.reverse.findSome? (Binding.aliasId? name)).or
        (bindings.findSome? (Binding.nameId? name)) := by
  rw [lookup?, Binding.find?_aliases_foldl_enter, Binding.find?_names_foldl_enter]
  simp [empty]

/-! ## The bindings of a statement -/

/-- Whether a use declares an alias and is no common table expression. -/
def TableUse.declares (commons : List String) (name : String) (u : TableUse) : Bool :=
  !u.namesOneOf commons &&
    u.aliasName.any fun declared => Text.lowerCase declared == Text.lowerCase name

/-- Whether a name is the id of the table that a use stands for or the last part of it, in any
case. -/
def ResolvedUse.isNamed (name : String) (u : ResolvedUse) : Bool :=
  Text.lowerCase u.id == Text.lowerCase name ||
    Text.lowerCase (Identifier.lastPart u.id) == Text.lowerCase name

namespace Usage

/-- Whether a table is read or written, its id taken in any case. -/
def Has (usage : Usage) (id : String) : Prop :=
  ∃ table ∈ usage.reads ++ usage.writes, Text.lowerCase table = Text.lowerCase id

theorem has_of_mem_reads {usage : Usage} {id : String} (h : id ∈ usage.reads) : usage.Has id :=
  ⟨id, List.mem_append_left _ h, rfl⟩

variable {index : Index} {defaultSchema : Option String} {ms : List Mention}

theorem referenceId_of_aliasName {u : TableUse} {name : String} (h : u.aliasName = some name) :
    referenceId index defaultSchema ms u = index.tableId defaultSchema u.parts := by
  rw [referenceId, if_neg (by simp [h])]

theorem has_of_alias (hid : ∀ r ∈ byName index defaultSchema ms, r.id ≠ "") {name id : String}
    (h : (lastDeclaring? name (byName index defaultSchema ms)).map ResolvedUse.id = some id) :
    (ofMentions index defaultSchema ms).Has id := by
  obtain ⟨r, hlast, rfl⟩ := Option.map_eq_some_iff.mp h
  have hmem : r ∈ byName index defaultSchema ms :=
    List.mem_reverse.mp (List.mem_of_find?_eq_some hlast)
  obtain ⟨u, hu, hcommon, rfl⟩ := mem_byName.mp hmem
  have halias := List.find?_some hlast
  obtain ⟨declaredName, haliasName, -⟩ := (Option.any_eq_true _ _).mp halias
  -- The declaring use is not followed itself, so its id is the one that is reported.
  have href : referenceId index defaultSchema ms u = index.tableId defaultSchema u.parts :=
    referenceId_of_aliasName haliasName
  have hne : referenceId index defaultSchema ms u ≠ "" := by
    rw [href]
    exact hid _ hmem
  rw [← href]
  exact mem_reads_or_writes hu hcommon hne

theorem foldl_name_aliases (uses : List ResolvedUse) (b : Bindings) :
    (uses.foldl ResolvedUse.name b).aliases = b.aliases := by
  induction uses generalizing b with
  | nil => rfl
  | cons u uses ih => rw [List.foldl_cons, ih]; rfl

theorem foldl_declare_names (uses : List ResolvedUse) (b : Bindings) :
    (uses.foldl ResolvedUse.declare b).names = b.names := by
  induction uses generalizing b with
  | nil => rfl
  | cons u uses ih =>
    rw [List.foldl_cons, ih, ResolvedUse.declare]
    split <;> rfl

/-- A name that is entered for a use stands for its table, unless another table has it. -/
theorem find?_name (b : Bindings) (u : ResolvedUse) (name : String) :
    (u.name b).names.find? name =
      (b.names.find? name).or (if u.isNamed name then some u.id else none) := by
  have hname : (u.name b).names = (b.names.enter u.id u.id).enter (Identifier.lastPart u.id) u.id :=
    rfl
  rw [hname, NameTable.find?_enter, NameTable.find?_enter, Option.or_assoc, ResolvedUse.isNamed]
  congr 1
  by_cases hid : Text.lowerCase u.id = Text.lowerCase name <;> simp [hid]

theorem find?_foldl_name (uses : List ResolvedUse) (b : Bindings) (name : String) :
    (uses.foldl ResolvedUse.name b).names.find? name =
      (b.names.find? name).or ((uses.find? (ResolvedUse.isNamed name)).map ResolvedUse.id) := by
  induction uses generalizing b with
  | nil => exact Option.or_none.symm
  | cons u uses ih =>
    rw [List.foldl_cons, ih, find?_name, Option.or_assoc, List.find?_cons]
    cases u.isNamed name <;> simp

theorem has_of_mem_resolved {r : ResolvedUse}
    (h : r ∈ resolved (byName index defaultSchema ms)) :
    (ofMentions index defaultSchema ms).Has r.id := by
  obtain ⟨u, hu, hcommon, hid, rfl⟩ := mem_resolved.mp h
  exact mem_reads_or_writes hu hcommon hid

/-- A name stands for the table of the last use that declares it as an alias, or else for the one of
the first use that is named so. -/
theorem lookup?_ofMentions (index : Index) (defaultSchema : Option String) (ms : List Mention)
    (name : String) :
    (ofMentions index defaultSchema ms).bindings.lookup? name =
      ((lastDeclaring? name (byName index defaultSchema ms)).map ResolvedUse.id).or
        (((resolved (byName index defaultSchema ms)).find? (ResolvedUse.isNamed name)).map
          ResolvedUse.id) := by
  have hbindings : (ofMentions index defaultSchema ms).bindings =
      (resolved (byName index defaultSchema ms)).foldl ResolvedUse.name
        (declared (byName index defaultSchema ms)) := rfl
  have hdeclared : (declared (byName index defaultSchema ms)).names.find? name = none := by
    rw [declared, foldl_declare_names]
    rfl
  rw [Bindings.lookup?, hbindings, foldl_name_aliases, find?_declared, find?_foldl_name, hdeclared,
    Option.none_or]

theorem has_of_lookup? (hid : ∀ r ∈ byName index defaultSchema ms, r.id ≠ "") {name id : String}
    (h : (ofMentions index defaultSchema ms).bindings.lookup? name = some id) :
    (ofMentions index defaultSchema ms).Has id := by
  rw [lookup?_ofMentions] at h
  rcases Option.or_eq_some_iff.mp h with halias | ⟨-, hname⟩
  · exact has_of_alias hid halias
  · obtain ⟨r, hr, rfl⟩ := Option.map_eq_some_iff.mp hname
    exact has_of_mem_resolved (List.mem_of_find?_eq_some hr)

theorem has_of_mem_topLevelReads {id : String}
    (h : id ∈ (ofMentions index defaultSchema ms).topLevelReads) :
    (ofMentions index defaultSchema ms).Has id := by
  have hids : id ∈ idsOf (fun u => u.access == .read && u.depth == 0)
      (resolved (byName index defaultSchema ms)) := h
  obtain ⟨r, hr, -, rfl⟩ := exists_of_mem_idsOf hids
  exact has_of_mem_resolved hr

/-- The table that is named so is found, or the one that has the name as an alias. -/
theorem isSome_lookup? {r : ResolvedUse} (hr : r ∈ resolved (byName index defaultSchema ms))
    {name : String} (hname : r.isNamed name = true) :
    ((ofMentions index defaultSchema ms).bindings.lookup? name).isSome = true := by
  have hfind : ((resolved (byName index defaultSchema ms)).find?
      (ResolvedUse.isNamed name)).isSome = true :=
    List.find?_isSome.mpr ⟨r, hr, hname⟩
  rw [lookup?_ofMentions, Option.isSome_or, Option.isSome_map, Option.isSome_map, hfind,
    Bool.or_true]

theorem isSome_lookup?_of_mem {id : String}
    (h : id ∈ (ofMentions index defaultSchema ms).reads ++
      (ofMentions index defaultSchema ms).writes) :
    ((ofMentions index defaultSchema ms).bindings.lookup? id).isSome = true ∧
      ((ofMentions index defaultSchema ms).bindings.lookup?
        (Identifier.lastPart id)).isSome = true := by
  obtain ⟨access, hids⟩ : ∃ access, id ∈ idsOf (fun u => u.access == access)
      (resolved (byName index defaultSchema ms)) := by
    rcases List.mem_append.mp h with hread | hwrite
    · exact ⟨.read, hread⟩
    · exact ⟨.write, hwrite⟩
  obtain ⟨r, hr, -, rfl⟩ := exists_of_mem_idsOf hids
  exact ⟨isSome_lookup? hr (by simp [ResolvedUse.isNamed]),
    isSome_lookup? hr (by simp [ResolvedUse.isNamed])⟩

theorem lastDeclaring?_byName (index : Index) (defaultSchema : Option String) (ms : List Mention)
    (name : String) :
    lastDeclaring? name (byName index defaultSchema ms) =
      ((tableUses ms).reverse.find? (TableUse.declares (commonNames ms) name)).map fun u =>
        ⟨u, index.tableId defaultSchema u.parts⟩ := by
  rw [lastDeclaring?, byName, ← List.map_reverse, ← List.filter_reverse, List.find?_map,
    List.find?_filter]
  congr 2
  funext u
  simp [TableUse.declares]

theorem lookup?_of_declares {name : String}
    (h : ∃ u ∈ tableUses ms, u.declares (commonNames ms) name = true) :
    ∃ front last back, tableUses ms = front ++ last :: back ∧
      last.declares (commonNames ms) name = true ∧
      (∀ u ∈ back, u.declares (commonNames ms) name = false) ∧
      (ofMentions index defaultSchema ms).bindings.lookup? name =
        some (index.tableId defaultSchema last.parts) := by
  obtain ⟨u, hu, hdeclares⟩ := h
  obtain ⟨last, hlast⟩ : ∃ last,
      (tableUses ms).reverse.find? (TableUse.declares (commonNames ms) name) = some last :=
    Option.isSome_iff_exists.mp
      (List.find?_isSome.mpr ⟨u, List.mem_reverse.mpr hu, hdeclares⟩)
  obtain ⟨hdeclares, back, front, huses, hback⟩ := List.find?_eq_some_iff_append.mp hlast
  refine ⟨front.reverse, last, back.reverse, ?_, hdeclares, ?_, ?_⟩
  · rw [List.reverse_eq_iff.mp huses]
    simp
  · intro u hu
    simpa using hback u (List.mem_reverse.mp hu)
  · rw [lookup?_ofMentions, lastDeclaring?_byName, hlast]
    rfl

/-- A name stands for what it was bound to last as an alias, or else for what it was bound to first
as a name. In a statement a declared alias stands for the table of the last use that declares it,
and every table that is read or written is found by its id and by its short name. -/
theorem lookup?_precedence (bindings : List Binding) (index : Index)
    (defaultSchema : Option String) (ts : List Token) :
    (∀ name, (bindings.foldl Binding.enter .empty).lookup? name =
      (bindings.reverse.findSome? (Binding.aliasId? name)).or
        (bindings.findSome? (Binding.nameId? name))) ∧
    let uses := tableUses (mentions 0 ts)
    let commons := commonNames (mentions 0 ts)
    let usage := ofTokens index defaultSchema ts
    (∀ name, (∃ u ∈ uses, u.declares commons name = true) →
      ∃ front last back, uses = front ++ last :: back ∧ last.declares commons name = true ∧
        (∀ u ∈ back, u.declares commons name = false) ∧
        usage.bindings.lookup? name = some (index.tableId defaultSchema last.parts)) ∧
    ∀ id ∈ usage.reads ++ usage.writes,
      (usage.bindings.lookup? id).isSome = true ∧
        (usage.bindings.lookup? (Identifier.lastPart id)).isSome = true := by
  refine ⟨Bindings.lookup?_foldl_enter bindings, ?_, ?_⟩
  · intro name hname
    exact lookup?_of_declares hname
  · intro id hid
    exact isSome_lookup?_of_mem hid

/-- Of two tables with one alias the second has it, and the first is found by its name. -/
theorem lookup?_precedence_twice :
    let ts := sqlTokens "SELECT 1 FROM dbo.Orders o JOIN dbo.Lines O ON 1 = 1"
    let uses := tableUses (mentions 0 ts)
    let commons := commonNames (mentions 0 ts)
    let usage := ofTokens .empty none ts
    (∃ u ∈ uses, u.declares commons "o" = true) ∧
      (∃ front last back, uses = front ++ last :: back ∧ last.declares commons "o" = true ∧
        (∀ u ∈ back, u.declares commons "o" = false) ∧
        usage.bindings.lookup? "o" = some (Index.empty.tableId none last.parts)) ∧
      "dbo.Orders" ∈ usage.reads ++ usage.writes ∧
      (usage.bindings.lookup? "dbo.Orders").isSome = true ∧
        (usage.bindings.lookup? (Identifier.lastPart "dbo.Orders")).isSome = true := by
  intro ts uses commons usage
  have hdeclared : ∃ u ∈ uses, u.declares commons "o" = true := by decide +kernel
  have hread : "dbo.Orders" ∈ usage.reads ++ usage.writes := by decide +kernel
  obtain ⟨-, haliases, htables⟩ := lookup?_precedence [] .empty none ts
  exact ⟨hdeclared, haliases "o" hdeclared, hread, htables _ hread⟩

end Usage

end Provenance
