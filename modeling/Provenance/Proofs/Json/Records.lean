import Provenance.Json.Record
import Provenance.Proofs.Json.RoundTrip

/-!
# Reading written records

A record with fields of different names is read field by field, with nothing for the fields that
were left out.
-/

namespace Provenance.Json

/-- The fields of a record that are written, in their order. -/
def given (fields : List (String × Option Json)) : List (String × Json) :=
  fields.filterMap fun field => field.2.map (field.1, ·)

theorem given_cons_none (name : String) (fields : List (String × Option Json)) :
    given ((name, none) :: fields) = given fields := rfl

theorem given_cons_some (name : String) (j : Json) (fields : List (String × Option Json)) :
    given ((name, some j) :: fields) = (name, j) :: given fields := rfl

theorem countP_given_le (fields : List (String × Option Json)) (name : String) :
    (given fields).countP (fun f => f.1 == name) ≤ (fields.map Prod.fst).count name := by
  induction fields with
  | nil => simp [given]
  | cons field fields ih =>
    obtain ⟨other, value⟩ := field
    rw [List.map_cons, List.count_cons]
    cases value with
    | none =>
      rw [given_cons_none]
      exact Nat.le_add_right_of_le ih
    | some j =>
      rw [given_cons_some, List.countP_cons]
      exact Nat.add_le_add_right ih _

theorem find?_given_of_not_mem {fields : List (String × Option Json)} {name : String}
    (h : name ∉ fields.map Prod.fst) : (given fields).find? (fun f => f.1 == name) = none := by
  have hcount := countP_given_le fields name
  rw [List.count_eq_zero.2 h, Nat.le_zero, List.countP_eq_zero] at hcount
  exact List.find?_eq_none.2 hcount

theorem find?_given {fields : List (String × Option Json)} (hnames : (fields.map Prod.fst).Nodup)
    {field : String × Option Json} (hfield : field ∈ fields) :
    ((given fields).find? fun f => f.1 == field.1).map Prod.snd = field.2 := by
  induction fields with
  | nil => exact absurd hfield (by simp)
  | cons next fields ih =>
    obtain ⟨name, value⟩ := next
    rw [List.map_cons, List.nodup_cons] at hnames
    rcases List.mem_cons.1 hfield with rfl | hlater
    · cases value with
      | none =>
        rw [given_cons_none, find?_given_of_not_mem hnames.1]
        rfl
      | some j => simp [given_cons_some]
    · have hne : name ≠ field.1 := by
        intro heq
        exact hnames.1 (List.mem_map.2 ⟨field, hlater, heq.symm⟩)
      cases value with
      | none => exact ih hnames.2 hlater
      | some j =>
        rw [given_cons_some, List.find?_cons_of_neg (by simpa using hne)]
        exact ih hnames.2 hlater

theorem fields?_given {fields : List (String × Option Json)} {names : List String}
    (hnames : fields.map Prod.fst = names) (hnodup : names.Nodup) :
    (ofFields (given fields)).fields? names = some (fields.map Prod.snd) := by
  subst hnames
  rw [ofFields, fields?, if_pos]
  · rw [List.map_map]
    congr 1
    apply List.map_congr_left
    intro field hfield
    rw [Function.comp_apply, List.find?_map]
    simpa [Function.comp_def] using find?_given hnodup hfield
  · simp only [Bool.and_eq_true, List.all_eq_true, decide_eq_true_eq]
    constructor
    · intro m hm
      obtain ⟨field, -, rfl⟩ := List.mem_map.1 hm
      rfl
    · intro name _
      rw [List.countP_map]
      have hcount := Nat.le_trans (countP_given_le fields name) (List.nodup_iff_count.1 hnodup name)
      simpa [Function.comp_def] using hcount

theorem given_map_some (fields : List (String × Json)) :
    given (fields.map fun field => (field.1, some field.2)) = fields := by
  induction fields with
  | nil => rfl
  | cons field fields ih => rw [List.map_cons, given_cons_some, ih]

theorem fields?_ofFields {fields : List (String × Json)} {names : List String}
    (hnames : fields.map Prod.fst = names) (hnodup : names.Nodup) :
    (ofFields fields).fields? names = some (fields.map fun field => some field.2) := by
  have hfirst : (fields.map fun field => (field.1, some field.2)).map Prod.fst = names := by
    rw [List.map_map, ← hnames]
    rfl
  have hread := fields?_given hfirst hnodup
  rw [given_map_some, List.map_map] at hread
  exact hread

@[simp] theorem isReadBack_ofString (s : String) : IsReadBack (.ofString s) :=
  isReadBack_string (some s)

theorem isReadBack_ofFields {fields : List (String × Json)} (h : ∀ f ∈ fields, IsReadBack f.2) :
    IsReadBack (.ofFields fields) := by
  apply isReadBack_object
  intro m hm
  obtain ⟨field, hfield, rfl⟩ := List.mem_map.1 hm
  exact h field hfield

theorem isReadBack_map {α : Type} {toJson : α → Json} (h : ∀ a, IsReadBack (toJson a))
    (values : List α) : IsReadBack (.array (values.map toJson)) := by
  apply isReadBack_array
  intro j hj
  obtain ⟨a, -, rfl⟩ := List.mem_map.1 hj
  exact h a

@[simp] theorem isReadBack_ofStrings (ss : List String) : IsReadBack (.ofStrings ss) :=
  isReadBack_map isReadBack_ofString ss

theorem isReadBack_optionalField {α : Type} {toJson : α → Json} (h : ∀ a, IsReadBack (toJson a))
    {name : String} {value : Option α} {field : String × Json}
    (hfield : field ∈ optionalField name toJson value) : IsReadBack field.2 := by
  cases value with
  | none => simp [optionalField] at hfield
  | some a =>
    rw [optionalField, Option.map_some, Option.toList_some, List.mem_singleton] at hfield
    rw [hfield]
    exact h a

variable {α : Type} {toJson : α → Json} {read : Json → Option α}

theorem asList?_map (h : ∀ a, read (toJson a) = some a) (values : List α) :
    asList? read (.array (values.map toJson)) = some values := by
  rw [asList?]
  induction values with
  | nil => rfl
  | cons a values ih =>
    rw [List.map_cons, List.mapM_cons, h, ih]
    rfl

@[simp] theorem asString?_ofString (s : String) : asString? (.ofString s) = some s := rfl

@[simp] theorem asList?_ofStrings (ss : List String) :
    asList? asString? (.ofStrings ss) = some ss := asList?_map asString?_ofString ss

@[simp] theorem asBool?_bool (b : Bool) : asBool? (.bool b) = some b := rfl

@[simp] theorem required_some (j : Json) : required read (some j) = read j := rfl

@[simp] theorem defaulted_some (missing : α) (j : Json) :
    defaulted missing read (some j) = read j := rfl

/-- A field that may be left out and is never written as `null`. -/
theorem optional_map (h : ∀ a, read (toJson a) = some a) (hnull : ∀ a, toJson a ≠ .null)
    (value : Option α) : optional read (value.map toJson) = some value := by
  cases value with
  | none => rfl
  | some a =>
    rw [Option.map_some, optional, h]
    · rfl
    · exact hnull a

end Provenance.Json
