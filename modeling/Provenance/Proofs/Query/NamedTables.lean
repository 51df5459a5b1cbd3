import Provenance.Proofs.Query.References
import Provenance.Proofs.Query.Usage

/-!
# Tables that a statement names

The tables that a statement reads or writes are those that it names, once aliases are followed and
common table expressions are left out.
-/

namespace Provenance

namespace Usage

variable {index : Index} {defaultSchema : Option String}

theorem isNamedBy_congr {u v : TableUse} {rest : List Token} (hu : u.IsNamedBy rest)
    (hv : v.IsNamedBy rest) : u.parts = v.parts ∧ u.aliasName = v.aliasName := by
  obtain ⟨after, hname, halias⟩ := hu
  obtain ⟨after', hname', halias'⟩ := hv
  rw [hname] at hname'
  obtain ⟨hparts, rfl⟩ := Prod.mk.inj (Option.some.inj hname')
  exact ⟨hparts, halias.trans halias'.symm⟩

theorem exists_referenceId {p : TableUse → Bool} {ms : List Mention} {id : String}
    (h : id ∈ idsOf p (resolved (byName index defaultSchema ms))) :
    ∃ u, .table u ∈ ms ∧ u.namesOneOf (commonNames ms) = false ∧
      id = referenceId index defaultSchema ms u := by
  obtain ⟨r, hr, -, rfl⟩ := exists_of_mem_idsOf h
  obtain ⟨u, hu, hcommon, -, rfl⟩ := mem_resolved.mp hr
  exact ⟨u, hu, hcommon, rfl⟩

/-- No table is lost or invented. A name that stands after a reference keyword has its id among
the tables that are read or written, if the keyword is not hidden, and a table is only reported if
it is named where a table can be. -/
theorem tables_of_references (index : Index) (defaultSchema : Option String) {ts : List Token}
    (hascii : ∀ t ∈ ts, t.isAscii = true)
    (hskipped : ∀ t ∈ skippedTokens 0 ts, t.isReference = false) :
    (∀ front k rest, ts = front ++ k :: rest → k.isReference = true →
      front.getLast?.any hidesKeyword = false → ∀ u : TableUse, u.IsNamedBy rest →
        u.namesOneOf (commonNames (mentions 0 ts)) = true ∨
        referenceId index defaultSchema (mentions 0 ts) u = "" ∨
        ∃ id ∈ (ofTokens index defaultSchema ts).reads ++ (ofTokens index defaultSchema ts).writes,
          Text.lowerCase id =
            Text.lowerCase (referenceId index defaultSchema (mentions 0 ts) u)) ∧
    ∀ id ∈ (ofTokens index defaultSchema ts).reads ++
        (ofTokens index defaultSchema ts).topLevelReads ++
        (ofTokens index defaultSchema ts).writes,
      ∃ rest u, IsTablePosition ts rest ∧ u.IsNamedBy rest ∧
        id = referenceId index defaultSchema (mentions 0 ts) u := by
  constructor
  · intro front k rest hts hk hfront u hu
    obtain ⟨after, hname, -⟩ := id hu
    obtain ⟨v, hv, hnamed⟩ := finds_mentions hascii hskipped hts hk hfront (by simp [hname])
    obtain ⟨hparts, halias⟩ := isNamedBy_congr hu hnamed
    have hcommon : u.namesOneOf (commonNames (mentions 0 ts)) =
        v.namesOneOf (commonNames (mentions 0 ts)) := by
      simp [TableUse.namesOneOf, TableUse.isSimple, TableUse.lastPart, hparts]
    have hid : referenceId index defaultSchema (mentions 0 ts) u =
        referenceId index defaultSchema (mentions 0 ts) v := by
      simp [referenceId, TableUse.isSimple, TableUse.lastPart, hparts, halias]
    rw [hcommon, hid]
    cases hnamesCommon : v.namesOneOf (commonNames (mentions 0 ts)) with
    | true => exact .inl rfl
    | false =>
      by_cases hempty : referenceId index defaultSchema (mentions 0 ts) v = ""
      · exact .inr (.inl hempty)
      · exact .inr (.inr (mem_reads_or_writes hv hnamesCommon hempty))
  · intro id hid
    have hreported : ∃ p, id ∈ idsOf p (resolved (byName index defaultSchema (mentions 0 ts))) := by
      simp only [List.mem_append] at hid
      rcases hid with (hid | hid) | hid
      · exact ⟨fun u => u.access == .read, hid⟩
      · exact ⟨fun u => u.access == .read && u.depth == 0, hid⟩
      · exact ⟨fun u => u.access == .write, hid⟩
    obtain ⟨p, hmem⟩ := hreported
    obtain ⟨u, hu, -, rfl⟩ := exists_referenceId hmem
    obtain ⟨rest, hposition, hnamed⟩ :=
      isTablePosition_of_mem_mentions (show ts = [] ++ ts from rfl) hu
    exact ⟨rest, u, hposition, hnamed, rfl⟩

/-- The target of a statement that is named by an alias is the table of that alias. -/
theorem tables_of_references_alias :
    let ts := sqlTokens "DELETE TOP (5) FROM o FROM dbo.Orders AS o"
    (∀ t ∈ ts, t.isAscii = true) ∧ (∀ t ∈ skippedTokens 0 ts, t.isReference = false) ∧
      ∃ id ∈ (ofTokens .empty none ts).reads ++ (ofTokens .empty none ts).writes,
        Text.lowerCase id = Text.lowerCase "dbo.Orders" := by
  intro ts
  have hascii : ∀ t ∈ ts, t.isAscii = true := by decide +kernel
  have hskipped : ∀ t ∈ skippedTokens 0 ts, t.isReference = false := by decide +kernel
  let target : TableUse := ⟨["o"], none, .write, 0⟩
  have hsplit : ts = [.word "DELETE", .word "TOP", .mark '(', .word "5", .mark ')'] ++
      .word "FROM" :: [.word "o", .word "FROM", .word "dbo", .mark '.', .word "Orders",
        .word "AS", .word "o"] := by decide +kernel
  have hnamed : target.IsNamedBy [.word "o", .word "FROM", .word "dbo", .mark '.',
      .word "Orders", .word "AS", .word "o"] :=
    ⟨[.word "FROM", .word "dbo", .mark '.', .word "Orders", .word "AS", .word "o"],
      by decide +kernel, by decide +kernel⟩
  have hid : referenceId .empty none (mentions 0 ts) target = "dbo.Orders" := by decide +kernel
  have htables := (tables_of_references .empty none hascii hskipped).1 _ _ _ hsplit (by decide)
    (by decide) target hnamed
  rw [hid] at htables
  rcases htables with hcommon | hempty | hfound
  · exact absurd hcommon (by decide +kernel)
  · exact absurd hempty (by decide)
  · exact ⟨hascii, hskipped, hfound⟩

end Usage

end Provenance
