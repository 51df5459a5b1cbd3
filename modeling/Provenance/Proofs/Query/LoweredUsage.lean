import Provenance.Proofs.Catalog.Lowered
import Provenance.Proofs.Distinct
import Provenance.Proofs.Query.LoweredMentions
import Provenance.Query.Usage

/-!
# Usage in small letters

Aliases and names are resolved in any case. So a statement in small letters uses the tables of the
statement, as an index in small letters has them.
-/

namespace Provenance

/-! ## Bindings -/

namespace Bindings

def lowered (b : Bindings) : Bindings :=
  ⟨b.aliases.map Text.asciiLower, b.names.map Text.asciiLower⟩

@[simp] theorem lookup?_lowered (name : String) (b : Bindings) :
    b.lowered.lookup? (Text.asciiLower name) = (b.lookup? name).map Text.asciiLower := by
  simp [lookup?, lowered, Option.map_or]

end Bindings

/-! ## Uses -/

namespace TableUse

variable (u : TableUse)

@[simp] theorem isSimple_lowered : u.lowered.isSimple = u.isSimple := by
  simp [isSimple, lowered]

@[simp] theorem lastPart_lowered : u.lowered.lastPart = Text.asciiLower u.lastPart := by
  rw [lastPart, lowered, List.getLast?_map, lastPart]
  cases u.parts.getLast? with
  | none => rfl
  | some part => exact Identifier.bare_asciiLower part

theorem namesOneOf_lowered (commons : List String) :
    u.lowered.namesOneOf (commons.map Text.asciiLower) = u.namesOneOf commons := by
  simp [namesOneOf, Function.comp_def]

end TableUse

theorem tableUses_lowered (ms : List Mention) :
    tableUses (ms.map Mention.lowered) = (tableUses ms).map TableUse.lowered := by
  rw [tableUses, List.filterMap_map, tableUses, List.map_filterMap]
  congr 1
  funext m
  cases m <;> rfl

theorem commonNames_lowered (ms : List Mention) :
    commonNames (ms.map Mention.lowered) = (commonNames ms).map Text.asciiLower := by
  rw [commonNames, List.filterMap_map, commonNames, List.map_filterMap]
  congr 1
  funext m
  cases m <;> rfl

namespace ResolvedUse

def lowered (u : ResolvedUse) : ResolvedUse := ⟨u.use.lowered, Text.asciiLower u.id⟩

theorem declare_lowered (b : Bindings) (u : ResolvedUse) :
    declare b.lowered u.lowered = (declare b u).lowered := by
  unfold declare
  rw [lowered, TableUse.lowered]
  cases u.use.aliasName with
  | none => rfl
  | some name => simp [Bindings.bindAlias, Bindings.lowered, NameTable.replace_asciiLower]

theorem name_lowered (b : Bindings) (u : ResolvedUse) :
    name b.lowered u.lowered = (name b u).lowered := by
  simp [name, lowered, Bindings.bindName, Bindings.lowered, NameTable.enter_asciiLower]

theorem followAlias_lowered (b : Bindings) (u : ResolvedUse) :
    followAlias b.lowered u.lowered = (followAlias b u).lowered := by
  have halias : u.lowered.use.aliasName.isNone = u.use.aliasName.isNone := Option.isNone_map
  have hsimple : u.lowered.use.isSimple = u.use.isSimple := u.use.isSimple_lowered
  have hfind : b.lowered.aliases.find? u.lowered.use.lastPart =
      (b.aliases.find? u.use.lastPart).map Text.asciiLower := by
    simp [lowered, Bindings.lowered]
  unfold followAlias
  rw [hsimple, halias, hfind]
  split
  · cases b.aliases.find? u.use.lastPart <;> rfl
  · rfl

end ResolvedUse

/-! ## Usage -/

namespace Usage

def lowered (usage : Usage) : Usage where
  reads := usage.reads.map Text.asciiLower
  topLevelReads := usage.topLevelReads.map Text.asciiLower
  writes := usage.writes.map Text.asciiLower
  bindings := usage.bindings.lowered

theorem declared_lowered (uses : List ResolvedUse) :
    declared (uses.map ResolvedUse.lowered) = (declared uses).lowered := by
  have hempty : Bindings.empty = Bindings.empty.lowered := rfl
  rw [declared, List.foldl_map, hempty, declared]
  exact List.foldl_hom Bindings.lowered fun b u => ResolvedUse.declare_lowered b u

theorem resolved_lowered (uses : List ResolvedUse) :
    resolved (uses.map ResolvedUse.lowered) = (resolved uses).map ResolvedUse.lowered := by
  have hfollow : ResolvedUse.followAlias (declared uses).lowered ∘ ResolvedUse.lowered =
      ResolvedUse.lowered ∘ ResolvedUse.followAlias (declared uses) :=
    funext (ResolvedUse.followAlias_lowered (declared uses))
  have hid : (fun u : ResolvedUse => !u.id.isEmpty) ∘ ResolvedUse.lowered =
      fun u => !u.id.isEmpty := by
    funext u
    simp [ResolvedUse.lowered]
  rw [resolved, declared_lowered, List.map_map, hfollow, ← List.map_map, List.filter_map, hid,
    resolved]

theorem idsOf_lowered {p : TableUse → Bool} (hp : ∀ u : TableUse, p u.lowered = p u)
    (uses : List ResolvedUse) :
    idsOf p (uses.map ResolvedUse.lowered) = (idsOf p uses).map Text.asciiLower := by
  have hkeep : (fun u : ResolvedUse => p u.use) ∘ ResolvedUse.lowered = fun u => p u.use :=
    funext fun u => hp u.use
  have hid : ResolvedUse.id ∘ ResolvedUse.lowered = Text.asciiLower ∘ ResolvedUse.id := rfl
  rw [idsOf, List.filter_map, hkeep, List.map_map, hid, ← List.map_map,
    distinctBy_map Text.lowerCase_asciiLower, idsOf]

variable (index : Index) (defaultSchema : Option String)

theorem byName_lowered (ms : List Mention) :
    byName index.lowered (defaultSchema.map Text.asciiLower) (ms.map Mention.lowered) =
      (byName index defaultSchema ms).map ResolvedUse.lowered := by
  have hcommon : (fun u : TableUse =>
      !u.namesOneOf ((commonNames ms).map Text.asciiLower)) ∘ TableUse.lowered =
        fun u => !u.namesOneOf (commonNames ms) := by
    funext u
    simp [TableUse.namesOneOf_lowered]
  have hid : ∀ u : TableUse,
      index.lowered.tableId (defaultSchema.map Text.asciiLower) u.lowered.parts =
        Text.asciiLower (index.tableId defaultSchema u.parts) :=
    fun u => index.tableId_lowered defaultSchema u.parts
  rw [byName, tableUses_lowered, commonNames_lowered, List.filter_map, hcommon, byName,
    List.map_map, List.map_map]
  apply List.map_congr_left
  intro u _
  simp [ResolvedUse.lowered, hid]

theorem ofMentions_lowered (ms : List Mention) :
    ofMentions index.lowered (defaultSchema.map Text.asciiLower) (ms.map Mention.lowered) =
      (ofMentions index defaultSchema ms).lowered := by
  simp only [ofMentions, byName_lowered, resolved_lowered, declared_lowered, lowered,
    Usage.mk.injEq]
  refine ⟨idsOf_lowered (fun u => rfl) _, idsOf_lowered (fun u => rfl) _,
    idsOf_lowered (fun u => rfl) _, ?_⟩
  rw [List.foldl_map]
  exact List.foldl_hom Bindings.lowered fun b u => ResolvedUse.name_lowered b u

theorem ofTokens_lowered (ts : List Token) :
    ofTokens index.lowered (defaultSchema.map Text.asciiLower) (Provenance.lowered ts) =
      (ofTokens index defaultSchema ts).lowered := by
  rw [ofTokens, mentions_lowered, ofMentions_lowered, ofTokens]

end Usage

end Provenance
