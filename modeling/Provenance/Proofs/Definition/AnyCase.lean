import Mathlib.Data.List.Forall2
import Provenance.Proofs.Catalog.Column
import Provenance.Proofs.Definition.Lowered

/-!
# Definitions in any case

Definitions whose texts differ only in the case of ASCII letters are read alike. What is read off
them is the same, save for the case of names that are spelt as in the text.
-/

namespace Provenance

/-! ## Names -/

/-- Whether two names differ at most in the case of ASCII letters. -/
def SameName (a b : String) : Prop := Text.equalIgnoringCase a b = true

instance (a b : String) : Decidable (SameName a b) := inferInstanceAs (Decidable (_ = true))

theorem sameName_of_asciiLower_eq {a b : String} (h : Text.asciiLower a = Text.asciiLower b) :
    SameName a b :=
  Text.equalIgnoringCase_iff.mpr h

section Related

variable {α β : Type} {f : α → β} {R : α → α → Prop}

theorem forall₂_of_map_eq (hR : ∀ a b, f a = f b → R a b) {xs ys : List α}
    (h : xs.map f = ys.map f) : List.Forall₂ R xs ys := by
  have hmap : List.Forall₂ Eq (xs.map f) (ys.map f) := by
    rw [List.forall₂_eq_eq_eq, h]
  rw [List.forall₂_map_left_iff, List.forall₂_map_right_iff] at hmap
  exact hmap.imp hR

theorem rel_of_map_eq (hR : ∀ a b, f a = f b → R a b) {x y : Option α}
    (h : x.map f = y.map f) : Option.Rel R x y := by
  cases x <;> cases y <;> simp at h
  · exact .none
  · exact .some (hR _ _ h)

end Related

theorem sameNames_of_map_eq {xs ys : List String}
    (h : xs.map Text.asciiLower = ys.map Text.asciiLower) : List.Forall₂ SameName xs ys :=
  forall₂_of_map_eq (fun _ _ => sameName_of_asciiLower_eq) h

/-! ## What is read off a definition -/

structure Origin.SameInAnyCase (o p : Origin) : Prop where
  table : SameName o.table p.table
  column : SameName o.column p.column

/-- Whether two columns differ at most in the case of their names and origins. -/
structure Column.SameInAnyCase (c d : Column) : Prop where
  name : SameName c.name d.name
  dataType : c.dataType = d.dataType
  isNullable : c.isNullable = d.isNullable
  isPrimaryKey : c.isPrimaryKey = d.isPrimaryKey
  sources : List.Forall₂ Origin.SameInAnyCase c.sources d.sources
  originTable : Option.Rel SameName c.originTable d.originTable
  originColumn : Option.Rel SameName c.originColumn d.originColumn

structure ViewSummary.SameInAnyCase (s t : ViewSummary) : Prop where
  columns : List.Forall₂ Column.SameInAnyCase s.columns t.columns
  referencedTables : List.Forall₂ SameName s.referencedTables t.referencedTables

structure RoutineUsage.SameInAnyCase (u v : RoutineUsage) : Prop where
  referencedTables : List.Forall₂ SameName u.referencedTables v.referencedTables
  affectedTables : List.Forall₂ SameName u.affectedTables v.affectedTables

structure Parameter.SameInAnyCase (p q : Parameter) : Prop where
  name : SameName p.name q.name
  dataType : SameName p.dataType q.dataType
  isOutput : p.isOutput = q.isOutput

structure Signature.SameInAnyCase (s t : Signature) : Prop where
  hasSignature : s.hasSignature = t.hasSignature
  parameters : List.Forall₂ Parameter.SameInAnyCase s.parameters t.parameters

structure Header.SameInAnyCase (h k : Header) : Prop where
  kind : h.kind = k.kind
  name : SameName h.name k.name

/-! ## What is the same in small letters -/

theorem Origin.sameInAnyCase_of_lowered_eq (o p : Origin) (h : o.lowered = p.lowered) :
    o.SameInAnyCase p where
  table := sameName_of_asciiLower_eq (congrArg Origin.table h)
  column := sameName_of_asciiLower_eq (congrArg Origin.column h)

theorem Column.sources_lowered (c : Column) : c.lowered.sources = c.sources.map Origin.lowered := by
  rw [sources, lowered, sources]
  cases c.origins <;> rfl

theorem Column.sameInAnyCase_of_lowered_eq (c d : Column) (h : c.lowered = d.lowered) :
    c.SameInAnyCase d where
  name := sameName_of_asciiLower_eq (congrArg Column.name h)
  dataType := show c.lowered.dataType = d.lowered.dataType from congrArg _ h
  isNullable := show c.lowered.isNullable = d.lowered.isNullable from congrArg _ h
  isPrimaryKey := show c.lowered.isPrimaryKey = d.lowered.isPrimaryKey from congrArg _ h
  sources := by
    have hsources := congrArg Column.sources h
    rw [sources_lowered, sources_lowered] at hsources
    exact forall₂_of_map_eq Origin.sameInAnyCase_of_lowered_eq hsources
  originTable :=
    rel_of_map_eq (fun _ _ => sameName_of_asciiLower_eq) (congrArg Column.originTable h)
  originColumn :=
    rel_of_map_eq (fun _ _ => sameName_of_asciiLower_eq) (congrArg Column.originColumn h)

theorem ViewSummary.sameInAnyCase_of_lowered_eq {s t : ViewSummary} (h : s.lowered = t.lowered) :
    s.SameInAnyCase t where
  columns := forall₂_of_map_eq Column.sameInAnyCase_of_lowered_eq (congrArg ViewSummary.columns h)
  referencedTables := sameNames_of_map_eq (congrArg ViewSummary.referencedTables h)

theorem RoutineUsage.sameInAnyCase_of_lowered_eq {u v : RoutineUsage} (h : u.lowered = v.lowered) :
    u.SameInAnyCase v where
  referencedTables := sameNames_of_map_eq (congrArg RoutineUsage.referencedTables h)
  affectedTables := sameNames_of_map_eq (congrArg RoutineUsage.affectedTables h)

theorem Parameter.sameInAnyCase_of_lowered_eq (p q : Parameter) (h : p.lowered = q.lowered) :
    p.SameInAnyCase q where
  name := sameName_of_asciiLower_eq (congrArg Parameter.name h)
  dataType := sameName_of_asciiLower_eq (congrArg Parameter.dataType h)
  isOutput := show p.lowered.isOutput = q.lowered.isOutput from congrArg _ h

theorem Signature.sameInAnyCase_of_lowered_eq {s t : Signature} (h : s.lowered = t.lowered) :
    s.SameInAnyCase t where
  hasSignature := show s.lowered.hasSignature = t.lowered.hasSignature from congrArg _ h
  parameters :=
    forall₂_of_map_eq Parameter.sameInAnyCase_of_lowered_eq (congrArg Signature.parameters h)

theorem Header.sameInAnyCase_of_lowered_eq (h k : Header) (heq : h.lowered = k.lowered) :
    h.SameInAnyCase k where
  kind := show h.lowered.kind = k.lowered.kind from congrArg _ heq
  name := sameName_of_asciiLower_eq (congrArg Header.name heq)

/-! ## Texts in any case -/

/-- Texts that differ only in the case of ASCII letters are read alike as views and as routines,
and for their signatures, return types and headers. -/
theorem sameInAnyCase_of_equalIgnoringCase (index : Index) (defaultSchema : Option String)
    (known : Option (List Column)) {a b : String} (h : Text.equalIgnoringCase a b = true) :
    (readView index defaultSchema known a).SameInAnyCase (readView index defaultSchema known b) ∧
      (routineUsage index defaultSchema a).SameInAnyCase (routineUsage index defaultSchema b) ∧
      (Signature.parse a).SameInAnyCase (Signature.parse b) ∧
      Option.Rel SameName (returnType? a) (returnType? b) ∧
      Option.Rel Header.SameInAnyCase (Header.parse? a) (Header.parse? b) := by
  -- Both texts have the same small letters, and what is read off these is read off either of them.
  have hsmall : Text.asciiLower a = Text.asciiLower b := Text.equalIgnoringCase_iff.mp h
  refine ⟨?_, ?_, ?_, ?_, ?_⟩
  · apply ViewSummary.sameInAnyCase_of_lowered_eq
    rw [← readView_asciiLower, hsmall, readView_asciiLower]
  · apply RoutineUsage.sameInAnyCase_of_lowered_eq
    rw [← routineUsage_asciiLower, hsmall, routineUsage_asciiLower]
  · apply Signature.sameInAnyCase_of_lowered_eq
    rw [← Signature.parse_asciiLower, hsmall, Signature.parse_asciiLower]
  · apply rel_of_map_eq fun _ _ => sameName_of_asciiLower_eq
    rw [← returnType?_asciiLower, hsmall, returnType?_asciiLower]
  · apply rel_of_map_eq Header.sameInAnyCase_of_lowered_eq
    rw [← Header.parse?_asciiLower, hsmall, Header.parse?_asciiLower]

/-- A procedure with a parameter and with a column that is not known. -/
theorem sameInAnyCase_of_equalIgnoringCase_procedure :
    let id : Column := { Column.named "Id" with dataType := "int", isNullable := false }
    let index := Index.ofRelations [⟨"Sales.Orders", "Orders", "Sales", [id]⟩]
    let a := "CREATE PROCEDURE dbo.Load @Day DATE AS SELECT o.Id, o.Total FROM Orders o"
    let b := "create procedure DBO.load @DAY Date as select O.ID, o.TOTAL from ORDERS O"
    Text.equalIgnoringCase a b = true ∧
      (readView index (some "Sales") none a).SameInAnyCase
        (readView index (some "Sales") none b) ∧
      (readView index (some "Sales") none a).columns.map Column.name = ["Id", "Total"] ∧
      (readView index (some "Sales") none b).columns.map Column.name = ["Id", "TOTAL"] ∧
      (Signature.parse a).SameInAnyCase (Signature.parse b) ∧
      (Signature.parse a).parameters = [⟨"@Day", "DATE", false⟩] ∧
      (Signature.parse b).parameters = [⟨"@DAY", "Date", false⟩] := by
  intro id index a b
  have h : Text.equalIgnoringCase a b = true := by decide +kernel
  obtain ⟨hview, -, hsignature, -, -⟩ :=
    sameInAnyCase_of_equalIgnoringCase index (some "Sales") none h
  exact ⟨h, hview, by decide +kernel, by decide +kernel, hsignature, by decide +kernel,
    by decide +kernel⟩

end Provenance
