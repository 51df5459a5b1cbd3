import Mathlib.Data.List.Forall2
import Provenance.Proofs.Text.LowerCase
import Provenance.Query.UniqueNames

/-!
# Unique names

The numbered forms of a name differ from it and from each other in lower case, so that one of them
is always free. A column keeps its name unless a column before it has that name, and then it gets
the first numbered form that none has; columns whose names differ in lower case all keep them.
-/

namespace Provenance

/-- The keys under which the names of columns are compared. -/
def nameKeys (columns : List Column) : List String := columns.map fun c => Text.lowerCase c.name

theorem freshName_of_not_mem {used : List String} {name : String}
    (h : Text.lowerCase name ∉ used) : freshName used name = name := by
  unfold freshName
  rw [if_neg]
  simpa using h

theorem uniqueNamesFrom_of_nodup {used : List String} {columns : List Column}
    (hused : ∀ key ∈ nameKeys columns, key ∉ used) (hnodup : (nameKeys columns).Nodup) :
    uniqueNamesFrom used columns = columns := by
  induction columns generalizing used with
  | nil => rfl
  | cons c columns ih =>
    have hfresh := freshName_of_not_mem (hused _ (List.mem_cons_self ..))
    have hc := (List.nodup_cons.mp hnodup).1
    have htail : ∀ key ∈ nameKeys columns, key ∉ Text.lowerCase c.name :: used := by
      intro key hkey hmem
      rcases List.mem_cons.mp hmem with rfl | hmem
      · exact hc hkey
      · exact hused key (List.mem_cons_of_mem _ hkey) hmem
    rw [uniqueNamesFrom, hfresh, ih htail (List.nodup_cons.mp hnodup).2]

theorem uniqueNames_of_nodup {columns : List Column} (h : (nameKeys columns).Nodup) :
    uniqueNames columns = columns :=
  uniqueNamesFrom_of_nodup (by simp) h

theorem toList_lowerCase_numbered (name : String) (k : Nat) :
    (Text.lowerCase (numbered name k)).toList =
      Text.lowerChars [] (name.toList ++ ['_']) ++ Nat.toDigits 10 k := by
  have hdigits : ∀ c ∈ Nat.toDigits 10 k, c.toNat < 128 ∧ c.toLower = c := by
    intro c hc
    exact Text.toLower_of_isDigit (Nat.isDigit_of_mem_toDigits (by decide) (by decide) hc)
  have hlower : (Nat.toDigits 10 k).map Char.toLower = Nat.toDigits 10 k := by
    rw [List.map_congr_left fun c hc => (hdigits c hc).2, List.map_id']
  rw [Text.toList_lowerCase, numbered, String.toList_append, String.toList_append,
    Nat.toList_repr, List.append_assoc]
  rw [show "_".toList = ['_'] from rfl, List.singleton_append,
    Text.lowerChars_append [] name.toList (by decide) (by decide),
    Text.lowerChars_of_ascii _ fun c hc => (hdigits c hc).1, hlower]

theorem lowerCase_numbered_injective {name : String} {j k : Nat}
    (h : Text.lowerCase (numbered name j) = Text.lowerCase (numbered name k)) : j = k := by
  have hlist := congrArg String.toList h
  rw [toList_lowerCase_numbered, toList_lowerCase_numbered] at hlist
  have hdigits := List.append_cancel_left hlist
  rw [← Nat.ofDigitChars_ten_toDigits (n := j), hdigits, Nat.ofDigitChars_ten_toDigits]

theorem lowerCase_numbered_ne (name : String) (k : Nat) :
    Text.lowerCase (numbered name k) ≠ Text.lowerCase name := by
  intro h
  have hlength := congrArg List.length (congrArg String.toList h)
  rw [toList_lowerCase_numbered, Text.toList_lowerCase, List.length_append,
    Text.length_lowerChars_append [] []] at hlength
  have hpos : 0 < (Nat.toDigits 10 k).length := Nat.length_toDigits_pos
  omega

/-- Fewer keys than numbers cannot take all the numbered forms of a name. -/
theorem exists_numbered_not_mem {used : List String} {name : String}
    (h : Text.lowerCase name ∈ used) :
    ∃ k ∈ List.range' 2 used.length, Text.lowerCase (numbered name k) ∉ used := by
  apply Classical.byContradiction
  intro hnone
  -- The keys of the name and of its numbered forms would all be used, one more than there are.
  let keys := (List.range' 2 used.length).map fun k => Text.lowerCase (numbered name k)
  have hname : Text.lowerCase name ∉ keys := by
    intro hmem
    obtain ⟨k, -, hk⟩ := List.mem_map.mp hmem
    exact lowerCase_numbered_ne name k hk
  have hkeys : keys.Nodup := by
    apply List.Pairwise.map _ _ (List.nodup_range' (s := 2) (n := used.length))
    intro j k hjk heq
    exact hjk (lowerCase_numbered_injective heq)
  have hsubset : Text.lowerCase name :: keys ⊆ used := by
    intro key hkey
    rcases List.mem_cons.mp hkey with rfl | hkey
    · exact h
    · obtain ⟨k, hk, rfl⟩ := List.mem_map.mp hkey
      exact Classical.byContradiction fun hfree => hnone ⟨k, hk, hfree⟩
  have hlength := (List.nodup_cons.mpr ⟨hname, hkeys⟩).length_le_of_subset hsubset
  simp only [keys, List.length_cons, List.length_map, List.length_range'] at hlength
  omega

/-- What a name becomes among the given keys. It is kept if it has none of them, and otherwise it
gets the least number, from two upwards, with which it has none of them. -/
inductive IsFreshForm (used : List String) (name : String) : String → Prop
  | kept (free : Text.lowerCase name ∉ used) : IsFreshForm used name name
  | counted {k : Nat} (taken : Text.lowerCase name ∈ used) (two_le : 2 ≤ k)
      (free : Text.lowerCase (numbered name k) ∉ used)
      (least : ∀ j, 2 ≤ j → j < k → Text.lowerCase (numbered name j) ∈ used) :
      IsFreshForm used name (numbered name k)

namespace IsFreshForm

variable {used : List String} {name fresh : String}

theorem not_mem (h : IsFreshForm used name fresh) : Text.lowerCase fresh ∉ used := by
  cases h with
  | kept free => exact free
  | counted taken two_le free least => exact free

theorem congr {used' : List String} (hused : ∀ key, key ∈ used ↔ key ∈ used')
    (h : IsFreshForm used name fresh) : IsFreshForm used' name fresh := by
  cases h with
  | kept free => exact .kept fun hmem => free ((hused _).mpr hmem)
  | counted taken two_le free least =>
    apply counted ((hused _).mp taken) two_le fun hmem => free ((hused _).mpr hmem)
    intro j hj hlt
    exact (hused _).mp (least j hj hlt)

end IsFreshForm

theorem isFreshForm_freshName (used : List String) (name : String) :
    IsFreshForm used name (freshName used name) := by
  unfold freshName
  split
  · rename_i hused
    have htaken := List.contains_iff_mem.mp hused
    rw [List.find?_map]
    -- One of the numbers is free, so the search among them ends at the least of these.
    cases hfind : (List.range' 2 used.length).find?
        ((fun candidate => !used.contains (Text.lowerCase candidate)) ∘ numbered name) with
    | none =>
      obtain ⟨k, hk, hfree⟩ := exists_numbered_not_mem htaken
      have hnone := List.find?_eq_none.mp hfind k hk
      simp [hfree] at hnone
    | some k =>
      obtain ⟨hfree, hrange, hleast⟩ := List.find?_range'_eq_some.mp hfind
      apply IsFreshForm.counted htaken (List.mem_range'_1.mp hrange).1
      · simpa using hfree
      · intro j hj hlt
        simpa using hleast j hj hlt
  · rename_i hfree
    exact .kept (by simpa using hfree)

theorem freshName_not_mem (used : List String) (name : String) :
    Text.lowerCase (freshName used name) ∉ used :=
  (isFreshForm_freshName used name).not_mem

theorem nodup_nameKeys_uniqueNamesFrom (used : List String) (columns : List Column) :
    (nameKeys (uniqueNamesFrom used columns)).Nodup ∧
      ∀ key ∈ nameKeys (uniqueNamesFrom used columns), key ∉ used := by
  induction columns generalizing used with
  | nil => simp [uniqueNamesFrom, nameKeys]
  | cons c columns ih =>
    obtain ⟨hnodup, hused⟩ := ih (Text.lowerCase (freshName used c.name) :: used)
    constructor
    · apply List.nodup_cons.mpr
      exact ⟨fun hmem => hused _ hmem (List.mem_cons_self ..), hnodup⟩
    · intro key hkey
      rcases List.mem_cons.mp hkey with rfl | hkey
      · exact freshName_not_mem used c.name
      · exact fun hmem => hused key hkey (List.mem_cons_of_mem _ hmem)

theorem nodup_nameKeys_uniqueNames (columns : List Column) :
    (nameKeys (uniqueNames columns)).Nodup :=
  (nodup_nameKeys_uniqueNamesFrom [] columns).1

theorem forall₂_uniqueNamesFrom (used : List String) (columns : List Column) :
    List.Forall₂ (fun c d => d = { c with name := d.name }) columns
      (uniqueNamesFrom used columns) := by
  induction columns generalizing used with
  | nil => exact .nil
  | cons c columns ih => exact .cons rfl (ih _)

theorem exists_of_mem_uniqueNamesFrom {used : List String} {columns : List Column} {c : Column}
    (h : c ∈ uniqueNamesFrom used columns) : ∃ d ∈ columns, ∃ name, c = { d with name } := by
  induction columns generalizing used with
  | nil => simp [uniqueNamesFrom] at h
  | cons d columns ih =>
    rcases List.mem_cons.mp h with rfl | h
    · exact ⟨d, List.mem_cons_self .., _, rfl⟩
    · obtain ⟨e, he, name, rfl⟩ := ih h
      exact ⟨e, List.mem_cons_of_mem _ he, name, rfl⟩

/-- A column differs from the one at its place by its name only, which is a form of the name of that
column that is new among the names before it. -/
theorem getElem?_uniqueNamesFrom (used : List String) {columns : List Column} {i : Nat}
    {c : Column} (h : columns[i]? = some c) :
    ∃ name, (uniqueNamesFrom used columns)[i]? = some { c with name } ∧
      IsFreshForm (nameKeys ((uniqueNamesFrom used columns).take i) ++ used) c.name name := by
  induction columns generalizing used i with
  | nil => simp at h
  | cons d columns ih =>
    cases i with
    | zero =>
      obtain rfl : d = c := by simpa using h
      exact ⟨freshName used d.name, rfl, isFreshForm_freshName used d.name⟩
    | succ i =>
      have htail : columns[i]? = some c := by simpa using h
      obtain ⟨name, hname, hfresh⟩ := ih (Text.lowerCase (freshName used d.name) :: used) htail
      refine ⟨name, hname, hfresh.congr fun key => ?_⟩
      simp only [uniqueNamesFrom, nameKeys, List.take_succ_cons, List.map_cons, List.mem_append,
        List.mem_cons]
      tauto

theorem uniqueNames_uniqueNames (columns : List Column) :
    uniqueNames (uniqueNames columns) = uniqueNames columns :=
  uniqueNames_of_nodup (nodup_nameKeys_uniqueNames columns)

/-- Unique names are given column by column: each column keeps its name if no column before it has
that name, and is numbered from two upwards otherwise. Nothing is numbered where the names differ
already, and nothing is numbered twice. -/
theorem uniqueNames_forms (columns : List Column) :
    (uniqueNames columns).length = columns.length ∧
    (∀ i c, columns[i]? = some c → ∃ name, (uniqueNames columns)[i]? = some { c with name } ∧
      IsFreshForm (nameKeys ((uniqueNames columns).take i)) c.name name) ∧
    (nameKeys (uniqueNames columns)).Nodup ∧
    ((uniqueNames columns).map Column.name = columns.map Column.name ↔
      (nameKeys columns).Nodup) ∧
    uniqueNames (uniqueNames columns) = uniqueNames columns := by
  have hnodup := nodup_nameKeys_uniqueNames columns
  refine ⟨(forall₂_uniqueNamesFrom [] columns).length_eq.symm, ?_, hnodup, ?_,
    uniqueNames_uniqueNames columns⟩
  · intro i c hc
    obtain ⟨name, hname, hfresh⟩ := getElem?_uniqueNamesFrom [] hc
    rw [List.append_nil] at hfresh
    exact ⟨name, hname, hfresh⟩
  · constructor
    · intro hnames
      have hkeys : nameKeys (uniqueNames columns) = nameKeys columns := by
        simpa [nameKeys, Function.comp_def] using congrArg (List.map Text.lowerCase) hnames
      rwa [hkeys] at hnodup
    · intro hdistinct
      rw [uniqueNames_of_nodup hdistinct]

/-- A number that another column has as part of its name is left out. -/
theorem uniqueNames_forms_taken :
    let columns : List Column := [.named "id_2", .named "id", .named "ID"]
    columns[2]? = some (.named "ID") ∧
      (uniqueNames columns).map Column.name = ["id_2", "id", "ID_3"] ∧
      ∃ name, (uniqueNames columns)[2]? = some { Column.named "ID" with name } ∧
        IsFreshForm (nameKeys ((uniqueNames columns).take 2)) "ID" name := by
  intro columns
  exact ⟨rfl, by decide +kernel, (uniqueNames_forms columns).2.1 2 (.named "ID") rfl⟩

end Provenance
