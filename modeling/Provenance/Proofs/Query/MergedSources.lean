import Provenance.Proofs.Distinct
import Provenance.Proofs.Query.ColumnChains
import Provenance.Proofs.Text.LowerCase
import Provenance.Proofs.Token.Reads

/-!
# Merged origins

The key of an origin joins its table and its column with two colons. Names may have colons of their
own, so that the table of one origin can run on into what is the column of another; two such
origins have one key, and only the first of them is kept.
-/

namespace Provenance

/-! ## Origins of one key -/

namespace Origin

/-- The names of an origin in lower case. -/
def pair (o : Origin) : String × String := (Text.lowerCase o.table, Text.lowerCase o.column)

/-- Whether the key of `o` can be read as that of `p`, whose table is longer: it goes on with the
first colon of the separator, or with all of it and the front of the column of `o`. -/
def RunsInto (o p : Origin) : Prop :=
  (p.pair.1 = o.pair.1 ++ ":" ∧ o.pair.2 = ":" ++ p.pair.2) ∨
    ∃ more, p.pair.1 = o.pair.1 ++ "::" ++ more ∧ o.pair.2 = more ++ "::" ++ p.pair.2

variable {o p : Origin}

theorem key_eq (o : Origin) : o.key = o.pair.1 ++ "::" ++ o.pair.2 := rfl

theorem key_eq_of_pair_eq (h : o.pair = p.pair) : o.key = p.key := by
  rw [key_eq, key_eq, h]

theorem key_eq_of_runsInto (h : o.RunsInto p) : o.key = p.key := by
  obtain ⟨htable, hcolumn⟩ | ⟨more, htable, hcolumn⟩ := h
  · rw [key_eq, key_eq, htable, hcolumn, ← String.toList_inj]
    simp
  · rw [key_eq, key_eq, htable, hcolumn, ← String.toList_inj]
    simp

theorem pair_ne_of_runsInto (h : o.RunsInto p) : o.pair ≠ p.pair := by
  have hlength : o.pair.1.length < p.pair.1.length := by
    have hcolon : ":".length = 1 := rfl
    have hcolons : "::".length = 2 := rfl
    obtain ⟨htable, -⟩ | ⟨more, htable, -⟩ := h
    · rw [htable, String.length_append]
      omega
    · rw [htable, String.length_append, String.length_append]
      omega
  intro hpair
  exact absurd hlength (by rw [hpair]; exact Nat.lt_irrefl _)

theorem colon_mem_of_runsInto (h : o.RunsInto p) :
    ':' ∈ p.table.toList ∧ ':' ∈ o.column.toList := by
  have hcolon : ':' ∈ p.pair.1.toList ∧ ':' ∈ o.pair.2.toList := by
    obtain ⟨htable, hcolumn⟩ | ⟨more, htable, hcolumn⟩ := h
    · simp [htable, hcolumn]
    · simp [htable, hcolumn]
  rwa [pair, pair, Text.mark_mem_lowerCase (by decide), Text.mark_mem_lowerCase (by decide)]
    at hcolon

/-- What the longer of two tables has in front of the separator is nothing, the first colon of the
other separator, or all of it and more. -/
theorem pair_eq_or_runsInto {more : List Char} (htable : p.pair.1.toList = o.pair.1.toList ++ more)
    (hcolumn : "::".toList ++ o.pair.2.toList = more ++ ("::".toList ++ p.pair.2.toList)) :
    o.pair = p.pair ∨ o.RunsInto p := by
  have hcolons : "::".toList = [':', ':'] := rfl
  rw [hcolons] at hcolumn
  match more with
  | [] =>
    left
    have htables : p.pair.1.toList = o.pair.1.toList := by rw [htable, List.append_nil]
    have hcolumns : o.pair.2.toList = p.pair.2.toList := by
      simpa only [List.nil_append, List.cons_append, List.cons_inj_right] using hcolumn
    exact Prod.ext (String.toList_inj.mp htables.symm) (String.toList_inj.mp hcolumns)
  | [x] =>
    right; left
    simp only [List.cons_append, List.nil_append, List.cons.injEq, true_and] at hcolumn
    obtain ⟨rfl, hcolumns⟩ := hcolumn
    constructor
    · rw [← String.toList_inj, htable, String.toList_append]
      rfl
    · rw [← String.toList_inj, hcolumns, String.toList_append]
      rfl
  | x :: y :: more =>
    right; right
    simp only [List.cons_append, List.nil_append, List.cons.injEq] at hcolumn
    obtain ⟨rfl, rfl, hcolumns⟩ := hcolumn
    refine ⟨String.ofList more, ?_, ?_⟩
    · rw [← String.toList_inj, htable]
      simp
    · rw [← String.toList_inj, hcolumns]
      simp

theorem key_eq_iff : o.key = p.key ↔ o.pair = p.pair ∨ o.RunsInto p ∨ p.RunsInto o := by
  constructor
  · intro hkey
    rw [key_eq, key_eq, ← String.toList_inj] at hkey
    simp only [String.toList_append, List.append_assoc] at hkey
    obtain ⟨more, htable, hcolumn⟩ | ⟨more, htable, hcolumn⟩ := List.append_eq_append_iff.mp hkey
    · rcases pair_eq_or_runsInto htable hcolumn with hpair | hruns
      · exact .inl hpair
      · exact .inr (.inl hruns)
    · rcases pair_eq_or_runsInto htable hcolumn with hpair | hruns
      · exact .inl hpair.symm
      · exact .inr (.inr hruns)
  · rintro (hpair | hruns | hruns)
    · exact key_eq_of_pair_eq hpair
    · exact key_eq_of_runsInto hruns
    · exact (key_eq_of_runsInto hruns).symm

end Origin

/-! ## Origins of an expression -/

namespace Scope

/-- Whether a chain of names in an expression stands for an origin. -/
def Attributes (scope : Scope) (expr : List Token) (o : Origin) : Prop :=
  ∃ c ∈ chains [] expr, c.isColumn = true ∧ scope.origin? c.bareNames = some o

theorem mem_filterMap_columnNames {scope : Scope} {expr : List Token} {o : Origin} :
    o ∈ (columnNames [] expr).filterMap scope.origin? ↔ scope.Attributes expr o := by
  simp [columnNames, Attributes, and_assoc]

section Pairs

variable {scope : Scope} {expr : List Token}

theorem attributes_of_mem_origins {o : Origin} (h : o ∈ scope.origins expr) :
    scope.Attributes expr o := by
  rw [origins_eq] at h
  exact mem_filterMap_columnNames.mp (distinctBy_subset _ h)

theorem nodup_pairs_origins : ((scope.origins expr).map Origin.pair).Nodup := by
  have hkeys : ((scope.origins expr).map Origin.key).Nodup := by
    rw [origins_eq]
    exact nodup_map_distinctBy _
  rw [List.nodup_map_iff_inj_on (.of_map _ hkeys)]
  intro o ho p hp hpair
  exact List.inj_on_of_nodup_map hkeys ho hp (Origin.key_eq_of_pair_eq hpair)

theorem exists_mem_origins {o : Origin} (h : scope.Attributes expr o) :
    ∃ p ∈ scope.origins expr, p.pair = o.pair ∨ p.RunsInto o ∨ o.RunsInto p := by
  obtain ⟨p, hp, hkey⟩ : ∃ p ∈ scope.origins expr, p.key = o.key := by
    rw [origins_eq]
    exact exists_mem_distinctBy (mem_filterMap_columnNames.mpr h)
  exact ⟨p, hp, Origin.key_eq_iff.mp hkey⟩

theorem mem_pairs_origins_iff :
    (∀ k, k ∈ (scope.origins expr).map Origin.pair ↔
        ∃ o, scope.Attributes expr o ∧ o.pair = k) ↔
      ∀ o, scope.Attributes expr o → ∃ p ∈ scope.origins expr, p.pair = o.pair := by
  constructor
  · intro hpairs o ho
    exact List.mem_map.mp ((hpairs o.pair).mpr ⟨o, ho, rfl⟩)
  · intro hkept k
    constructor
    · intro hk
      obtain ⟨o, ho, rfl⟩ := List.mem_map.mp hk
      exact ⟨o, attributes_of_mem_origins ho, rfl⟩
    · rintro ⟨o, ho, rfl⟩
      exact List.mem_map.mpr (hkept o ho)

theorem exists_pair_origins_iff :
    (∀ o, scope.Attributes expr o → ∃ p ∈ scope.origins expr, p.pair = o.pair) ↔
      ∀ o p, scope.Attributes expr o → scope.Attributes expr p → ¬ o.RunsInto p := by
  have hkey : ∀ o p : Origin, o.pair = p.pair → o.key = p.key := fun _ _ =>
    Origin.key_eq_of_pair_eq
  have hiff := forall_exists_mem_distinctBy_iff hkey
    ((columnNames [] expr).filterMap scope.origin?)
  simp only [mem_filterMap_columnNames, ← origins_eq] at hiff
  rw [hiff]
  constructor
  · intro hkeys o p ho hp hruns
    exact Origin.pair_ne_of_runsInto hruns (hkeys o ho p hp (Origin.key_eq_of_runsInto hruns))
  · intro hnone o ho p hp hkey
    rcases Origin.key_eq_iff.mp hkey with hpair | hruns | hruns
    · exact hpair
    · exact absurd hruns (hnone o p ho hp)
    · exact absurd hruns (hnone p o hp ho)

/-- No pair is left out unless a table and a column have colons. -/
theorem exists_pair_origins_of_colon
    (h : (∀ o, scope.Attributes expr o → ':' ∉ o.table.toList) ∨
      ∀ o, scope.Attributes expr o → ':' ∉ o.column.toList)
    {o : Origin} (ho : scope.Attributes expr o) : ∃ p ∈ scope.origins expr, p.pair = o.pair := by
  refine exists_pair_origins_iff.mpr (fun p q hp hq hruns => ?_) o ho
  obtain ⟨htable, hcolumn⟩ := Origin.colon_mem_of_runsInto hruns
  rcases h with htables | hcolumns
  · exact htables q hq htable
  · exact hcolumns p hp hcolumn

end Pairs

/-- The origins of an expression are those that its chains stand for, one for each pair of names.
A pair is left out where it runs into another or another into it, and only there. -/
theorem pairs_origins (scope : Scope) (expr : List Token) :
    (∀ o ∈ scope.origins expr, scope.Attributes expr o) ∧
      ((scope.origins expr).map Origin.pair).Nodup ∧
      (∀ o, scope.Attributes expr o →
        ∃ p ∈ scope.origins expr, p.pair = o.pair ∨ p.RunsInto o ∨ o.RunsInto p) ∧
      ((∀ k, k ∈ (scope.origins expr).map Origin.pair ↔
          ∃ o, scope.Attributes expr o ∧ o.pair = k) ↔
        ∀ o p, scope.Attributes expr o → scope.Attributes expr p → ¬ o.RunsInto p) := by
  refine ⟨fun o ho => attributes_of_mem_origins ho, nodup_pairs_origins,
    fun o ho => exists_mem_origins ho, ?_⟩
  rw [mem_pairs_origins_iff, exists_pair_origins_iff]

/-- Of the columns `a.[b::c]` and `[a::b].c` only the first is an origin. -/
theorem origins_of_colons :
    let ts := sqlTokens "SELECT a.[b::c] + [a::b].c AS x FROM a, [a::b]"
    let scope : Scope := ⟨Usage.ofTokens Catalog.empty.index none ts, Catalog.empty.index⟩
    ∃ item, outputItems ts = [item] ∧
      scope.Attributes (SelectItem.ofTokens item).expr ⟨"a::b", "c"⟩ ∧
      scope.origins (SelectItem.ofTokens item).expr = [⟨"a", "b::c"⟩] ∧
      ("a::b", "c") ∉ (scope.origins (SelectItem.ofTokens item).expr).map Origin.pair := by
  intro ts scope
  have hts : ts = [.word "SELECT", .word "a", .mark '.', .delimited "[b::c]", .mark '+',
      .delimited "[a::b]", .mark '.', .word "c", .word "AS", .word "x", .word "FROM", .word "a",
      .mark ',', .delimited "[a::b]"] :=
    (sqlTokens_ofList _).trans (by decide +kernel)
  simp only [scope, hts]
  refine ⟨[.word "a", .mark '.', .delimited "[b::c]", .mark '+', .delimited "[a::b]", .mark '.',
    .word "c", .word "AS", .word "x"], ?_, ?_, ?_, ?_⟩
  · decide +kernel
  · exact mem_filterMap_columnNames.mp (by decide +kernel)
  · decide +kernel
  · decide +kernel

end Scope

end Provenance
