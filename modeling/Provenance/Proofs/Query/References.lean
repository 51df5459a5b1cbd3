import Provenance.Proofs.Query.Skipped

/-!
# References that a scan finds

A scan for tables skips no name that stands after a reference keyword, and every table that it
finds is named where a table can be: after a reference keyword, after the `TOP` clause of one, or
after a comma in a list that `FROM` begins.
-/

namespace Provenance

/-- Whether a table is the one that is named at the front of a list, with its alias. -/
def TableUse.IsNamedBy (u : TableUse) (ts : List Token) : Prop :=
  ∃ after, qualifiedName? ts = some (u.parts, after) ∧
    u.aliasName = (aliasName? (skipGroup after)).map Prod.fst

/-- What a scan says about the table at the front of a list. -/
def Finds (ms : List Mention) (ts : List Token) : Prop :=
  ∃ use, .table use ∈ ms ∧ use.IsNamedBy ts

section Tables

variable {access : Access} {depth : Nat} {ts rest : List Token}

theorem isNamedBy_of_tableUse? {use : TableUse} (h : tableUse? access depth ts = some (use, rest)) :
    use.IsNamedBy ts := by
  unfold tableUse? at h
  obtain ⟨⟨parts, named⟩, hname, heq⟩ := Option.map_eq_some_iff.mp h
  simp only at heq
  split at heq
  · rename_i name after halias
    obtain ⟨rfl, -⟩ := Prod.mk.inj heq
    exact ⟨named, hname, by rw [halias]; rfl⟩
  · rename_i halias
    obtain ⟨rfl, -⟩ := Prod.mk.inj heq
    exact ⟨named, hname, by rw [halias]; rfl⟩

theorem isSome_tableUse? (h : (qualifiedName? ts).isSome) (access : Access) (depth : Nat) :
    (tableUse? access depth ts).isSome := by
  rw [tableUse?, Option.isSome_map]
  exact h

theorem finds_oneTable (h : (qualifiedName? ts).isSome) (access : Access) (depth : Nat) :
    Finds (oneTable access depth ts).1 ts := by
  obtain ⟨⟨use, rest⟩, huse⟩ := Option.isSome_iff_exists.mp (isSome_tableUse? h access depth)
  refine ⟨use, ?_, isNamedBy_of_tableUse? huse⟩
  rw [oneTable, huse]
  exact List.mem_singleton.mpr rfl

theorem finds_tableList (h : (qualifiedName? ts).isSome) (access : Access) (depth : Nat) :
    Finds (tableList access depth ts).1 ts := by
  obtain ⟨⟨use, rest⟩, huse⟩ := Option.isSome_iff_exists.mp (isSome_tableUse? h access depth)
  refine ⟨use, ?_, isNamedBy_of_tableUse? huse⟩
  rw [tableList]
  split
  · rename_i hnone
    rw [huse] at hnone
    simp at hnone
  · rename_i use' rest' hsome
    rw [huse] at hsome
    obtain ⟨rfl, rfl⟩ := Prod.mk.inj (Option.some.inj hsome)
    split <;> simp

end Tables

/-! ## Nothing is lost -/

theorem afterKeyword?_of_qualifiedName? {ts : List Token} (hascii : ∀ t ∈ ts, t.isAscii = true)
    (h : (qualifiedName? ts).isSome) (k : Keyword) : afterKeyword? k ts = none := by
  cases ts with
  | nil => rfl
  | cons t ts =>
    have hname : t.isName = true := by
      cases hname : t.isName with
      | true => rfl
      | false => simp [qualifiedName?, identifier?, hname] at h
    have hk := Token.is_eq_false_of_keyword?
      (Token.keyword?_of_isName (hascii t (by simp)) hname) k
    simp [afterKeyword?, hk]

theorem finds_mentionsAt {t : Token} {rest : List Token} (ht : t.isReference = true)
    (hascii : ∀ u ∈ rest, u.isAscii = true) (hname : (qualifiedName? rest).isSome)
    (depth : Nat) : Finds (mentionsAt depth t rest).1 rest := by
  have hafter := afterKeyword?_of_qualifiedName? hascii hname
  have htop : skipTop rest = rest := by
    rw [skipTop, hafter]
  have hskip : ∀ k, skipKeyword k rest = rest := by
    intro k
    rw [skipKeyword, hafter, Option.getD_none]
  obtain ⟨k, hk, his⟩ := List.any_eq_true.mp ht
  have hkeyword : t.keyword? = some k := by simpa [Token.is] using his
  unfold mentionsAt
  rw [hkeyword, htop, hskip, hskip]
  simp only [referenceKeywords, List.mem_cons, List.not_mem_nil, or_false] at hk
  rcases hk with rfl | rfl | rfl | rfl | rfl | rfl | rfl | rfl | rfl
  · exact finds_tableList hname ..
  all_goals exact finds_oneTable hname ..

/-- The tokens in groups that a scan skips after a token. -/
def skippedAt (depth : Nat) (t : Token) (rest : List Token) : List Token :=
  match t.keyword? with
  | some .FROM => skippedInList .read depth rest
  | some .JOIN | some .APPLY | some .USING | some .INTO => skippedInTable rest
  | some .INSERT | some .MERGE =>
    skippedInTop rest ++ skippedInTable (skipKeyword .INTO (skipTop rest))
  | some .UPDATE => skippedInTop rest ++ skippedInTable (skipTop rest)
  | some .DELETE => skippedInTop rest ++ skippedInTable (skipKeyword .FROM (skipTop rest))
  | _ => []

/-- The tokens in groups that a scan skips: arguments after the name of a table, the columns of
an `INSERT` and the numbers after `TOP`. -/
def skippedTokens (depth : Nat) : List Token → List Token
  | [] => []
  | t :: rest =>
    skippedAt depth t rest ++ skippedTokens (depthAfter depth t) (mentionsAt depth t rest).2
termination_by ts => ts.length
decreasing_by exact Nat.lt_succ_of_le (mentionsAt_length depth t rest)

/-- Whether each counted token that is skipped stands after a token that hides it, or the name
after it is found. -/
def Accounts (r : Token → Bool) (ts rest : List Token) (ms : List Mention) : Prop :=
  ∃ skipped, ts = skipped ++ rest ∧ ∀ front k back, skipped = front ++ k :: back →
    r k = true → (qualifiedName? (back ++ rest)).isSome →
      front.getLast?.any hidesKeyword = true ∨ Finds ms (back ++ rest)

theorem any_getLast?_append {p : Token → Bool} (ts : List Token) {us : List Token}
    (h : us.getLast?.any p = true) : (ts ++ us).getLast?.any p = true := by
  rw [List.getLast?_append]
  cases hlast : us.getLast? with
  | none => simp [hlast] at h
  | some t => simpa [hlast] using h

theorem any_getLast?_of_append {p : Token → Bool} (ts : List Token) {us : List Token}
    (h : (ts ++ us).getLast?.any p = false) : us.getLast?.any p = false := by
  cases hus : us.getLast?.any p with
  | false => rfl
  | true =>
    rw [any_getLast?_append ts hus] at h
    exact absurd h (by decide)

namespace Accounts

variable {r : Token → Bool} {ts us rest : List Token} {ms : List Mention}

theorem of_skips (h : Skips r ts rest) : Accounts r ts rest ms := by
  obtain ⟨skipped, rfl, hguarded⟩ := h
  refine ⟨skipped, rfl, ?_⟩
  rintro front k back rfl hk -
  left
  simpa using hidesKeyword_of_isGuarded hguarded hk

theorem after_skips (h : Skips r ts us) (hrest : Accounts r us rest ms) :
    Accounts r ts rest ms := by
  obtain ⟨a, rfl, ha⟩ := h
  obtain ⟨b, rfl, hb⟩ := hrest
  refine ⟨a ++ b, (List.append_assoc ..).symm, ?_⟩
  intro front k back hsplit hk hname
  rcases List.append_eq_append_iff.mp hsplit with ⟨middle, rfl, hmiddle⟩ | ⟨middle, hmiddle, hback⟩
  · rcases hb middle k back hmiddle hk hname with hhidden | hfound
    · exact .inl (any_getLast?_append _ hhidden)
    · exact .inr hfound
  · cases middle with
    | nil =>
      rcases hb [] k back hback.symm hk hname with hhidden | hfound
      · simp at hhidden
      · exact .inr hfound
    | cons u middle =>
      obtain ⟨rfl, -⟩ := List.cons.inj hback
      rw [hmiddle] at ha
      left
      simpa using hidesKeyword_of_isGuarded ha hk

theorem after_keyword [Counted r] {k : Keyword} {access : Access} {depth : Nat}
    (hskipped : ∀ t ∈ skippedInTable (skipKeyword k ts), r t = false) :
    Accounts r ts (oneTable access depth (skipKeyword k ts)).2
      (oneTable access depth (skipKeyword k ts)).1 := by
  unfold skipKeyword at hskipped ⊢
  cases hafter : afterKeyword? k ts with
  | none =>
    rw [hafter] at hskipped
    exact of_skips (Skips.oneTable access depth hskipped)
  | some us =>
    rw [hafter, Option.getD_some] at hskipped
    obtain ⟨t, rfl, -⟩ := afterKeyword?_cons hafter
    obtain ⟨skipped, hus, hguarded⟩ := Skips.oneTable access depth hskipped
    refine ⟨t :: skipped, by rw [Option.getD_some, List.cons_append, ← hus], ?_⟩
    intro front l back hsplit hl hname
    cases front with
    | nil =>
      obtain ⟨-, rfl⟩ := List.cons.inj hsplit
      rw [Option.getD_some, ← hus] at hname ⊢
      exact .inr (finds_oneTable hname access depth)
    | cons u front =>
      obtain ⟨-, rfl⟩ := List.cons.inj hsplit
      left
      apply any_getLast?_append [u]
      simpa using hidesKeyword_of_isGuarded hguarded hl

end Accounts

/-- After every token a scan accounts for what it skips. -/
theorem accounts_mentionsAt {r : Token → Bool} [Counted r] {depth : Nat} {t : Token}
    {rest : List Token} (hskipped : ∀ u ∈ skippedAt depth t rest, r u = false) :
    Accounts r rest (mentionsAt depth t rest).2 (mentionsAt depth t rest).1 := by
  have htop : (∀ u ∈ skippedInTop rest, r u = false) → Skips r rest (skipTop rest) :=
    Skips.skipTop
  have hthrough : ∀ k access, (∀ u ∈ skippedInTop rest ++ skippedInTable (skipKeyword k
      (skipTop rest)), r u = false) → Accounts r rest
        (oneTable access depth (skipKeyword k (skipTop rest))).2
        (oneTable access depth (skipKeyword k (skipTop rest))).1 := by
    intro k access h
    have hskips := htop fun u hu => h u (List.mem_append_left _ hu)
    exact .after_skips hskips (.after_keyword fun u hu => h u (List.mem_append_right _ hu))
  unfold skippedAt at hskipped
  unfold mentionsAt
  generalize t.keyword? = keyword at hskipped ⊢
  split
  · exact .of_skips (Skips.tableList hskipped)
  · exact .of_skips (Skips.oneTable _ _ hskipped)
  · exact .of_skips (Skips.oneTable _ _ hskipped)
  · exact .of_skips (Skips.oneTable _ _ hskipped)
  · exact hthrough .INTO .write hskipped
  · exact hthrough .INTO .write hskipped
  · have hskips := htop fun u hu => hskipped u (List.mem_append_left _ hu)
    exact .of_skips (hskips.trans (Skips.oneTable _ _ fun u hu =>
      hskipped u (List.mem_append_right _ hu)))
  · exact hthrough .FROM .write hskipped
  · exact .of_skips (Skips.oneTable _ _ hskipped)
  · exact .of_skips (Skips.refl rest)
  · exact .of_skips (Skips.refl rest)

theorem mentionsAt_split (depth : Nat) (t : Token) (rest : List Token) :
    ∃ skipped, rest = skipped ++ (mentionsAt depth t rest).2 := by
  have haccounts : Accounts (fun _ => false) rest (mentionsAt depth t rest).2
      (mentionsAt depth t rest).1 := accounts_mentionsAt (by simp)
  obtain ⟨skipped, hrest, -⟩ := haccounts
  exact ⟨skipped, hrest⟩

/-- No name after a reference keyword is lost, unless the keyword stands after a full stop or
after `TOP`. -/
theorem finds_mentions {depth : Nat} {ts front rest : List Token} {k : Token}
    (hascii : ∀ t ∈ ts, t.isAscii = true)
    (hskipped : ∀ t ∈ skippedTokens depth ts, t.isReference = false)
    (hts : ts = front ++ k :: rest) (hk : k.isReference = true)
    (hfront : front.getLast?.any hidesKeyword = false) (hname : (qualifiedName? rest).isSome) :
    Finds (mentions depth ts) rest := by
  fun_induction mentions depth ts generalizing front with
  | case1 => simp at hts
  | case2 depth t tail ih =>
    rw [skippedTokens] at hskipped
    have hhead : ∀ u ∈ skippedAt depth t tail, (u.isReference && u.isAscii) = false := by
      intro u hu
      rw [hskipped u (List.mem_append_left _ hu), Bool.false_and]
    have htail : ∀ u ∈ skippedTokens (depthAfter depth t) (mentionsAt depth t tail).2,
        u.isReference = false := fun u hu => hskipped u (List.mem_append_right _ hu)
    have hasciiTail : ∀ u ∈ tail, u.isAscii = true :=
      fun u hu => hascii u (List.mem_cons_of_mem t hu)
    have hlater : ∀ {ms}, Finds ms rest → Finds ((mentionsAt depth t tail).1 ++ ms) rest :=
      fun ⟨use, hmem, hnamed⟩ => ⟨use, List.mem_append_right _ hmem, hnamed⟩
    have hnow : ∀ {ms}, Finds (mentionsAt depth t tail).1 rest →
        Finds ((mentionsAt depth t tail).1 ++ ms) rest :=
      fun ⟨use, hmem, hnamed⟩ => ⟨use, List.mem_append_left _ hmem, hnamed⟩
    cases front with
    | nil =>
      obtain ⟨rfl, rfl⟩ := List.cons.inj hts
      exact hnow (finds_mentionsAt hk hasciiTail hname depth)
    | cons u front =>
      obtain ⟨rfl, hsplit⟩ := List.cons.inj hts
      obtain ⟨skipped, hrest, haccounts⟩ :=
        accounts_mentionsAt (r := fun u => u.isReference && u.isAscii) hhead
      have hasciiRest : ∀ u ∈ (mentionsAt depth t tail).2, u.isAscii = true := by
        intro u hu
        apply hasciiTail u
        rw [hrest]
        exact List.mem_append_right _ hu
      have hcounted : (k.isReference && k.isAscii) = true := by
        rw [hk, hasciiTail k (by simp [hsplit])]
        rfl
      rw [hrest] at hsplit
      rcases List.append_eq_append_iff.mp hsplit with
        ⟨middle, rfl, hmiddle⟩ | ⟨middle, hmiddle, hback⟩
      · -- The keyword is not skipped, so the scan comes to it later.
        apply hlater
        apply ih hasciiRest htail hmiddle
        exact any_getLast?_of_append (t :: skipped) hfront
      · cases middle with
        | nil =>
          apply hlater
          exact ih hasciiRest htail
            (show (mentionsAt depth t tail).2 = [] ++ k :: rest from hback.symm) rfl
        | cons v middle =>
          obtain ⟨rfl, rfl⟩ := List.cons.inj hback
          rcases haccounts front k middle hmiddle hcounted hname with hhidden | hfound
          · rw [any_getLast?_of_append [t] hfront] at hhidden
            exact absurd hhidden (by decide)
          · exact hnow hfound

/-! ## Nothing is invented -/

/-- The ends of a list of tokens at which an entry of a list of tables stands that `FROM` begins. -/
inductive IsFromEntry (ts : List Token) : List Token → Prop
  | first {front rest : List Token} {t : Token} (split : ts = front ++ t :: rest)
      (hfrom : t.is .FROM = true) : IsFromEntry ts rest
  | next {rest after next : List Token} {depth : Nat} {use : TableUse}
      (entry : IsFromEntry ts rest) (hread : tableUse? .read depth rest = some (use, after))
      (hcomma : afterMark? ',' after = some next) : IsFromEntry ts next

/-- The keywords that a `TOP` clause can follow. -/
def topKeywords : List Keyword := [.INSERT, .UPDATE, .DELETE, .MERGE]

/-- The ends of a list of tokens at which a table can be named: after a reference keyword, after
the `TOP` clause of a statement that writes a table, and in a list that `FROM` begins. -/
inductive IsTablePosition (ts : List Token) : List Token → Prop
  | keyword {front rest : List Token} {t : Token} (split : ts = front ++ t :: rest)
      (reference : t.isReference = true) : IsTablePosition ts rest
  | top {front rest : List Token} {t : Token} (split : ts = front ++ t :: rest)
      (verb : topKeywords.any t.is = true) : IsTablePosition ts (skipTop rest)
  | entry {rest : List Token} (entry : IsFromEntry ts rest) : IsTablePosition ts rest

theorem isNamedBy_of_mem_oneTable {access : Access} {depth : Nat} {ts : List Token}
    {use : TableUse} (h : .table use ∈ (oneTable access depth ts).1) : use.IsNamedBy ts := by
  unfold oneTable at h
  split at h
  · rename_i use' rest huse
    obtain rfl : use = use' := by simpa using h
    exact isNamedBy_of_tableUse? huse
  · simp at h

theorem isFromEntry_of_mem_tableList {depth : Nat} {ts us : List Token} {use : TableUse}
    (hus : IsFromEntry ts us) (h : .table use ∈ (tableList .read depth us).1) :
    ∃ rest, IsFromEntry ts rest ∧ use.IsNamedBy rest := by
  fun_induction tableList .read depth us with
  | case1 => simp at h
  | case2 us use' rest huse hcomma =>
    obtain rfl : use = use' := by simpa using h
    exact ⟨us, hus, isNamedBy_of_tableUse? huse⟩
  | case3 us use' rest huse next hcomma tail ih =>
    rcases List.mem_cons.mp h with h | h
    · obtain rfl := Mention.table.inj h
      exact ⟨us, hus, isNamedBy_of_tableUse? huse⟩
    · exact ih (.next hus huse hcomma) h

theorem not_mem_commonTables (use : TableUse) (ts : List Token) :
    .table use ∉ commonTables ts := by
  fun_induction commonTables ts with
  | case1 => simp
  | case2 => simp
  | case3 => simp
  | case4 ts name rest h body has split hgroup ih =>
    intro hmem
    simp only [List.mem_cons, reduceCtorEq, false_or] at hmem
    split at hmem
    · simp at hmem
    · rename_i next hcomma
      exact ih next hcomma hmem

theorem isReference_of_is {t : Token} {k : Keyword} (h : t.is k = true)
    (hk : referenceKeywords.contains k = true) : t.isReference = true :=
  List.any_eq_true.mpr ⟨k, List.contains_iff_mem.mp hk, h⟩

theorem isTablePosition_skipKeyword {ts front rest : List Token} {t : Token} {k : Keyword}
    (hts : ts = front ++ t :: rest) (hverb : topKeywords.any t.is = true)
    (hk : referenceKeywords.contains k = true) :
    IsTablePosition ts (skipKeyword k (skipTop rest)) := by
  unfold skipKeyword
  cases hafter : afterKeyword? k (skipTop rest) with
  | none => exact .top hts hverb
  | some next =>
    obtain ⟨u, hu, his⟩ := afterKeyword?_cons hafter
    have hskips : Skips (fun _ => false) rest (skipTop rest) := Skips.skipTop (by simp)
    obtain ⟨skipped, hrest, -⟩ := hskips
    rw [hu] at hrest
    have hsplit : ts = (front ++ t :: skipped) ++ u :: next := by
      rw [hts, hrest]
      simp
    exact .keyword hsplit (isReference_of_is his hk)

theorem isTablePosition_of_mem_mentionsAt {depth : Nat} {ts front rest : List Token} {t : Token}
    {use : TableUse} (hts : ts = front ++ t :: rest)
    (h : .table use ∈ (mentionsAt depth t rest).1) :
    ∃ us, IsTablePosition ts us ∧ use.IsNamedBy us := by
  have hone : ∀ {access us}, IsTablePosition ts us →
      .table use ∈ (oneTable access depth us).1 →
        ∃ us, IsTablePosition ts us ∧ use.IsNamedBy us :=
    fun hposition h => ⟨_, hposition, isNamedBy_of_mem_oneTable h⟩
  have his : ∀ {k}, t.keyword? = some k → t.is k = true := by
    intro k hk
    simp [Token.is, hk]
  have hreference : ∀ {k}, t.keyword? = some k → referenceKeywords.contains k = true →
      IsTablePosition ts rest := fun hk hmem => .keyword hts (isReference_of_is (his hk) hmem)
  have hverb : ∀ {k}, t.keyword? = some k → k ∈ topKeywords → topKeywords.any t.is = true :=
    fun hk hmem => List.any_eq_true.mpr ⟨_, hmem, his hk⟩
  unfold mentionsAt at h
  split at h
  · rename_i hk
    obtain ⟨us, hentry, hnamed⟩ := isFromEntry_of_mem_tableList (.first hts (his hk)) h
    exact ⟨us, .entry hentry, hnamed⟩
  · rename_i hk
    exact hone (hreference hk (by decide)) h
  · rename_i hk
    exact hone (hreference hk (by decide)) h
  · rename_i hk
    exact hone (hreference hk (by decide)) h
  · rename_i hk
    exact hone (isTablePosition_skipKeyword hts (hverb hk (by decide)) (by decide)) h
  · rename_i hk
    exact hone (isTablePosition_skipKeyword hts (hverb hk (by decide)) (by decide)) h
  · rename_i hk
    exact hone (.top hts (hverb hk (by decide))) h
  · rename_i hk
    exact hone (isTablePosition_skipKeyword hts (hverb hk (by decide)) (by decide)) h
  · rename_i hk
    exact hone (hreference hk (by decide)) h
  · exact absurd h (not_mem_commonTables use rest)
  · simp at h

/-- A table that a scan finds is named where a table can be. -/
theorem isTablePosition_of_mem_mentions {depth : Nat} {ts front us : List Token} {use : TableUse}
    (hts : ts = front ++ us) (h : .table use ∈ mentions depth us) :
    ∃ rest, IsTablePosition ts rest ∧ use.IsNamedBy rest := by
  fun_induction mentions depth us generalizing front with
  | case1 => simp at h
  | case2 depth t tail ih =>
    rcases List.mem_append.mp h with h | h
    · exact isTablePosition_of_mem_mentionsAt hts h
    · obtain ⟨skipped, hsplit⟩ := mentionsAt_split depth t tail
      have hback : ts = (front ++ t :: skipped) ++ (mentionsAt depth t tail).2 := by
        rw [hts, List.append_assoc, List.cons_append, ← hsplit]
      exact ih hback h

end Provenance
