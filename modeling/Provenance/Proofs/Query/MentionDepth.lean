import Provenance.Proofs.Query.References

/-!
# Depth of mentions

A reader of tables passes a group of parentheses as a whole, and of others it passes closing ones
only. So the depth at which a scan stands is never less than that of the text, and what is
mentioned inside parentheses is mentioned at a depth.
-/

namespace Provenance

/-- What a reader may leave of a list: nothing, or what follows tokens that open no more
parentheses than they close. -/
def Passes (ts left : List Token) : Prop :=
  ∃ passed, ts = passed ++ left ∧ (left = [] ∨ net passed ≤ 0)

namespace Passes

variable {ts us left rest : List Token}

theorem refl (ts : List Token) : Passes ts ts := ⟨[], rfl, .inr (Int.le_refl 0)⟩

theorem trans (h : Passes ts us) (hleft : Passes us left) : Passes ts left := by
  obtain ⟨a, rfl, ha⟩ := h
  obtain ⟨b, rfl, hb⟩ := hleft
  refine ⟨a ++ b, (List.append_assoc ..).symm, ?_⟩
  rcases hb with hnil | hb
  · exact .inl hnil
  rcases ha with hnil | ha
  · exact .inl (List.append_eq_nil_iff.mp hnil).2
  · right
    rw [net_append]
    omega

theorem one {t : Token} (h : t.isMark '(' = false) : Passes (t :: rest) rest := by
  have hopen : ¬ t.isMark '(' = true := by simp [h]
  refine ⟨[t], rfl, .inr ?_⟩
  rw [net_cons, net_nil, Token.nesting, if_neg hopen]
  split <;> decide

theorem word {t : Token} (h : t.isWord = true) : Passes (t :: rest) rest :=
  one (Token.not_isMark_of_isWord h '(')

theorem afterKeyword? {k : Keyword} (h : Provenance.afterKeyword? k ts = some rest) :
    Passes ts rest := by
  obtain ⟨t, rfl, ht⟩ := afterKeyword?_cons h
  exact word (Token.isWord_of_is ht)

theorem skipKeyword (k : Keyword) (ts : List Token) :
    Passes ts (Provenance.skipKeyword k ts) := by
  unfold Provenance.skipKeyword
  cases h : Provenance.afterKeyword? k ts with
  | none => exact refl ts
  | some rest => exact afterKeyword? h

theorem afterComma? (h : afterMark? ',' ts = some rest) : Passes ts rest := by
  cases ts with
  | nil => simp [afterMark?] at h
  | cons t ts =>
    simp only [afterMark?, Option.ite_none_right_eq_some, Option.some.injEq] at h
    obtain ⟨ht, rfl⟩ := h
    have hflat := Token.isFlat_of_isMark ht (by decide) (by decide)
    simp only [Token.isFlat, Bool.and_eq_true, Bool.not_eq_true'] at hflat
    exact one hflat.1

theorem dottedParts (ts : List Token) : Passes ts (Provenance.dottedParts ts).2 := by
  fun_induction Provenance.dottedParts ts with
  | case1 dot part rest h tail ih =>
    simp only [Bool.and_eq_true] at h
    have hflat := Token.isFlat_of_isMark h.1.1 (by decide) (by decide)
    simp only [Token.isFlat, Bool.and_eq_true, Bool.not_eq_true'] at hflat
    exact (one hflat.1).trans ((word h.1.2).trans ih)
  | case2 => exact refl _
  | case3 => exact refl _

theorem qualifiedName? {parts : List String}
    (h : Provenance.qualifiedName? ts = some (parts, rest)) : Passes ts rest := by
  cases ts with
  | nil => simp [Provenance.qualifiedName?, identifier?] at h
  | cons t ts =>
    simp only [Provenance.qualifiedName?, identifier?, Option.map_eq_some_iff,
      Option.ite_none_right_eq_some, Option.some.injEq] at h
    obtain ⟨_, ⟨hname, rfl⟩, heq⟩ := h
    obtain ⟨-, rfl⟩ := Prod.mk.inj heq
    exact (word (Token.isWord_of_isName hname)).trans (dottedParts ts)

theorem aliasName? {name : String} (h : Provenance.aliasName? ts = some (name, rest)) :
    Passes ts rest := by
  have hplain : ∀ {t rest}, t.isPlainName = true → Passes (t :: rest) rest := fun hname =>
    word (Token.isWord_of_isName (Token.isName_of_isPlainName hname))
  cases ts with
  | nil => simp [Provenance.aliasName?] at h
  | cons t ts =>
    simp only [Provenance.aliasName?] at h
    split at h
    · rename_i has
      cases ts with
      | nil => simp at h
      | cons u ts =>
        simp only [Option.ite_none_right_eq_some, Option.some.injEq, Prod.mk.injEq] at h
        obtain ⟨hname, -, rfl⟩ := h
        exact (word (Token.isWord_of_is has)).trans (hplain hname)
    · simp only [Option.ite_none_right_eq_some, Option.some.injEq, Prod.mk.injEq] at h
      obtain ⟨hname, -, rfl⟩ := h
      exact hplain hname

/-! ## Groups -/

theorem splitGroup (depth : Nat) (ts : List Token) : ∃ passed,
    ts = passed ++ (Provenance.splitGroup depth ts).2 ∧
      ((Provenance.splitGroup depth ts).2 = [] ∨ net passed = -(depth + 1 : Nat)) := by
  have hclose : (Token.mark ')').nesting = -1 := by decide
  rcases splitGroup_cases depth ts with ⟨inner, left, hts, hinner, hsplit⟩ | ⟨-, hsplit⟩
  · refine ⟨inner ++ [.mark ')'], by rw [hsplit, hts]; simp, .inr ?_⟩
    rw [net_append, net_of_balancedFrom hinner, net_cons, hclose, net_nil]
    omega
  · exact ⟨ts, by simp [hsplit], .inl (by rw [hsplit])⟩

theorem group? {inner : List Token} (h : Provenance.group? ts = some (inner, rest)) :
    Passes ts rest := by
  cases ts with
  | nil => simp [Provenance.group?] at h
  | cons t ts =>
    simp only [Provenance.group?, Option.ite_none_right_eq_some, Option.some.injEq] at h
    obtain ⟨hopen, hsplit⟩ := h
    obtain ⟨passed, hts, hnet⟩ := splitGroup 0 ts
    rw [hsplit] at hts hnet
    refine ⟨t :: passed, by rw [List.cons_append, ← hts], hnet.imp_right fun hnet => ?_⟩
    rw [net_cons, nesting_of_open hopen, hnet]
    decide

theorem skipGroup (ts : List Token) : Passes ts (Provenance.skipGroup ts) := by
  unfold Provenance.skipGroup
  cases hgroup : Provenance.group? ts with
  | none => exact refl ts
  | some split => exact group? hgroup

/-! ## Tables -/

theorem tableUse? {access : Access} {depth : Nat} {use : TableUse}
    (h : Provenance.tableUse? access depth ts = some (use, rest)) : Passes ts rest := by
  unfold Provenance.tableUse? at h
  obtain ⟨⟨parts, named⟩, hname, heq⟩ := Option.map_eq_some_iff.mp h
  have hgrouped := (qualifiedName? hname).trans (skipGroup named)
  simp only at heq
  split at heq
  · rename_i name after halias
    obtain ⟨-, rfl⟩ := Prod.mk.inj heq
    exact hgrouped.trans (aliasName? halias)
  · obtain ⟨-, rfl⟩ := Prod.mk.inj heq
    exact hgrouped

theorem oneTable (access : Access) (depth : Nat) (ts : List Token) :
    Passes ts (Provenance.oneTable access depth ts).2 := by
  unfold Provenance.oneTable
  split
  · rename_i h
    exact tableUse? h
  · exact refl ts

theorem tableList (access : Access) (depth : Nat) (ts : List Token) :
    Passes ts (Provenance.tableList access depth ts).2 := by
  fun_induction Provenance.tableList access depth ts with
  | case1 => exact refl _
  | case2 ts use rest h => exact tableUse? h
  | case3 ts use rest h next hcomma tail ih =>
    exact (tableUse? h).trans ((afterComma? hcomma).trans ih)

theorem skipTop (ts : List Token) : Passes ts (Provenance.skipTop ts) := by
  unfold Provenance.skipTop
  cases htop : Provenance.afterKeyword? .TOP ts with
  | none => exact refl ts
  | some rest =>
    have hcounted : Passes rest (((Provenance.group? rest).map Prod.snd).getD (rest.drop 1)) := by
      cases hgroup : Provenance.group? rest with
      | some split => exact group? hgroup
      | none =>
        cases rest with
        | nil => exact refl _
        | cons u rest =>
          apply one
          cases hopen : u.isMark '(' with
          | false => rfl
          | true => simp [Provenance.group?, hopen] at hgroup
    have hpercent := ((afterKeyword? htop).trans hcounted).trans (skipKeyword .PERCENT _)
    simp only
    split
    · rename_i t u after hties
      rw [hties] at hpercent
      split
      · rename_i hwith
        simp only [Bool.and_eq_true] at hwith
        have hwords : Passes (t :: u :: after) after :=
          (word (Token.isWord_of_is hwith.1)).trans (word (Token.isWord_of_spells hwith.2))
        exact hpercent.trans hwords
      · exact hpercent
    · exact hpercent

theorem mentionsAt (depth : Nat) (t : Token) (rest : List Token) :
    Passes rest (Provenance.mentionsAt depth t rest).2 := by
  unfold Provenance.mentionsAt
  split
  · exact tableList ..
  · exact oneTable ..
  · exact oneTable ..
  · exact oneTable ..
  · exact (skipTop rest).trans ((skipKeyword .INTO _).trans (oneTable ..))
  · exact (skipTop rest).trans ((skipKeyword .INTO _).trans (oneTable ..))
  · exact (skipTop rest).trans (oneTable ..)
  · exact (skipTop rest).trans ((skipKeyword .FROM _).trans (oneTable ..))
  · exact oneTable ..
  · exact refl rest
  · exact refl rest

end Passes

/-! ## Mentions inside parentheses -/

/-- Whether tokens that stand at a depth leave no parentheses around them before the last token. -/
def StaysInside (level : Nat) (ts : List Token) : Prop :=
  ∀ front back, ts = front ++ back → back ≠ [] → 1 ≤ level + net front

section StaysInside

variable {level : Nat} {ts left : List Token}

theorem StaysInside.one_le (h : StaysInside level ts) (hne : ts ≠ []) : 1 ≤ level := by
  have hlevel := h [] ts rfl hne
  rw [net_nil] at hlevel
  omega

theorem StaysInside.of_passes (h : StaysInside level ts) (hpasses : Passes ts left) :
    StaysInside level left := by
  obtain ⟨passed, rfl, hnet⟩ := hpasses
  intro front back hleft hback
  have hdepth := h (passed ++ front) back (by rw [hleft, List.append_assoc]) hback
  rw [net_append] at hdepth
  rcases hnet with rfl | hnet
  · exact absurd (List.append_eq_nil_iff.mp hleft.symm).2 hback
  · omega

theorem StaysInside.tail {t : Token} (h : StaysInside level (t :: ts)) :
    StaysInside (depthAfter level t) ts := by
  intro front back hts hback
  have hdepth := h (t :: front) back (by rw [hts, List.cons_append]) hback
  rw [net_cons] at hdepth
  unfold depthAfter
  unfold Token.nesting at hdepth
  split
  · rename_i hopen
    rw [if_pos hopen] at hdepth
    omega
  split
  · rename_i hopen hclose
    rw [if_neg hopen, if_pos hclose] at hdepth
    omega
  · rename_i hopen hclose
    rw [if_neg hopen, if_neg hclose] at hdepth
    omega

/-- Balanced tokens stay inside the parentheses around them up to the one that closes these. -/
theorem staysInside_of_isBalanced (h : isBalanced ts = true) :
    StaysInside 1 (ts ++ [.mark ')']) := by
  intro front back hsplit hback
  rcases List.append_eq_append_iff.mp hsplit with ⟨middle, rfl, hmiddle⟩ | ⟨middle, hts, -⟩
  · have hclosed : middle = [] := by
      cases middle with
      | nil => rfl
      | cons t middle =>
        obtain ⟨-, hnil⟩ := List.cons.inj hmiddle
        exact absurd (List.append_eq_nil_iff.mp hnil.symm).2 hback
    rw [hclosed, List.append_nil, net_of_isBalanced h]
    decide
  · have hnet := le_net_of_balancedFrom h hts
    omega

theorem use_of_tableUse? {access : Access} {depth : Nat} {use : TableUse}
    (h : tableUse? access depth ts = some (use, left)) :
    use.access = access ∧ use.depth = depth := by
  unfold tableUse? at h
  obtain ⟨⟨parts, named⟩, -, heq⟩ := Option.map_eq_some_iff.mp h
  simp only at heq
  split at heq
  · obtain ⟨rfl, -⟩ := Prod.mk.inj heq
    exact ⟨rfl, rfl⟩
  · obtain ⟨rfl, -⟩ := Prod.mk.inj heq
    exact ⟨rfl, rfl⟩

theorem use_of_mem_oneTable {access : Access} {depth : Nat} {u : TableUse}
    (h : .table u ∈ (oneTable access depth ts).1) : u.access = access ∧ u.depth = depth := by
  unfold oneTable at h
  split at h
  · rename_i use rest huse
    obtain rfl : u = use := by simpa using h
    exact use_of_tableUse? huse
  · simp at h

theorem use_of_mem_tableList {access : Access} {depth : Nat} {u : TableUse}
    (h : .table u ∈ (tableList access depth ts).1) : u.access = access ∧ u.depth = depth := by
  fun_induction tableList access depth ts with
  | case1 => simp at h
  | case2 ts use rest huse hcomma =>
    obtain rfl : u = use := by simpa using h
    exact use_of_tableUse? huse
  | case3 ts use rest huse next hcomma tail ih =>
    rcases List.mem_cons.mp h with h | h
    · obtain rfl := Mention.table.inj h
      exact use_of_tableUse? huse
    · exact ih h

theorem depth_of_mem_mentionsAt {depth : Nat} {t : Token} {rest : List Token} {u : TableUse}
    (h : .table u ∈ (mentionsAt depth t rest).1) : u.depth = depth := by
  unfold mentionsAt at h
  split at h
  · exact (use_of_mem_tableList h).2
  · exact (use_of_mem_oneTable h).2
  · exact (use_of_mem_oneTable h).2
  · exact (use_of_mem_oneTable h).2
  · exact (use_of_mem_oneTable h).2
  · exact (use_of_mem_oneTable h).2
  · exact (use_of_mem_oneTable h).2
  · exact (use_of_mem_oneTable h).2
  · exact (use_of_mem_oneTable h).2
  · exact absurd h (not_mem_commonTables u rest)
  · simp at h

theorem one_le_depth_of_mem_mentions (h : StaysInside level ts) {u : TableUse}
    (hu : .table u ∈ mentions level ts) : 1 ≤ u.depth := by
  fun_induction mentions level ts with
  | case1 => simp at hu
  | case2 depth t rest ih =>
    rcases List.mem_append.mp hu with hu | hu
    · rw [depth_of_mem_mentionsAt hu]
      exact h.one_le (by simp)
    · exact ih (h.tail.of_passes (Passes.mentionsAt depth t rest)) hu

end StaysInside

/-! ## The depth of a scan -/

def Mention.atDepth (depth : Nat) : Mention → Mention
  | .table use => .table { use with depth }
  | .commonTable name => .commonTable name

section AtDepth

variable (access : Access) (i j : Nat)

theorem tableUse?_atDepth (ts : List Token) : tableUse? access j ts =
    (tableUse? access i ts).map fun (use, rest) => ({ use with depth := j }, rest) := by
  rw [tableUse?, tableUse?, Option.map_map]
  apply Option.map_congr
  rintro ⟨parts, rest⟩ -
  simp only [Function.comp_apply]
  cases aliasName? (skipGroup rest) <;> rfl

theorem oneTable_atDepth (ts : List Token) : oneTable access j ts =
    ((oneTable access i ts).1.map (Mention.atDepth j), (oneTable access i ts).2) := by
  rw [oneTable, oneTable, tableUse?_atDepth access i j]
  cases tableUse? access i ts <;> rfl

theorem tableList_atDepth (ts : List Token) : tableList access j ts =
    ((tableList access i ts).1.map (Mention.atDepth j), (tableList access i ts).2) := by
  fun_induction tableList access i ts with
  | case1 ts hnone =>
    rw [tableList_eq, tableUse?_atDepth access i j, hnone]
    rfl
  | case2 ts use rest huse hcomma =>
    rw [tableList_eq, tableUse?_atDepth access i j, huse]
    simp only [Option.map_some, hcomma]
    rfl
  | case3 ts use rest huse next hcomma tail ih =>
    rw [tableList_eq, tableUse?_atDepth access i j, huse]
    simp only [Option.map_some, hcomma, ih]
    rfl

theorem commonTables_atDepth (ts : List Token) :
    (commonTables ts).map (Mention.atDepth j) = commonTables ts := by
  apply (List.map_congr_left fun m hm => ?_).trans (List.map_id _)
  cases m with
  | table use => exact absurd hm (not_mem_commonTables use ts)
  | commonTable name => rfl

theorem mentionsAt_atDepth (t : Token) (rest : List Token) : mentionsAt j t rest =
    ((mentionsAt i t rest).1.map (Mention.atDepth j), (mentionsAt i t rest).2) := by
  unfold mentionsAt
  split
  · exact tableList_atDepth ..
  · exact oneTable_atDepth ..
  · exact oneTable_atDepth ..
  · exact oneTable_atDepth ..
  · exact oneTable_atDepth ..
  · exact oneTable_atDepth ..
  · exact oneTable_atDepth ..
  · exact oneTable_atDepth ..
  · exact oneTable_atDepth ..
  · rw [commonTables_atDepth]
  · rfl

end AtDepth

/-- The depth at which a scan stands makes no other difference than the depth of what is
mentioned. -/
theorem mentions_atDepth (i j : Nat) (ts : List Token) :
    (mentions i ts).map (Mention.atDepth 0) = (mentions j ts).map (Mention.atDepth 0) := by
  have hzero : ∀ j, Mention.atDepth 0 ∘ Mention.atDepth j = Mention.atDepth 0 := by
    intro j
    funext m
    cases m <;> rfl
  fun_induction mentions i ts generalizing j with
  | case1 => simp [mentions]
  | case2 i t rest ih =>
    rw [mentions, mentionsAt_atDepth i j, List.map_append, List.map_append, List.map_map, hzero,
      ih (depthAfter j t)]

theorem exists_mem_mentions {i : Nat} {ts : List Token} {u : TableUse}
    (h : .table u ∈ mentions i ts) (j : Nat) :
    ∃ depth, .table { u with depth } ∈ mentions j ts := by
  have hmem := List.mem_map_of_mem (f := Mention.atDepth 0) h
  rw [mentions_atDepth i j] at hmem
  obtain ⟨m, hm, hsame⟩ := List.mem_map.mp hmem
  cases m with
  | table v =>
    obtain ⟨parts, aliasName, access, depth⟩ := v
    refine ⟨depth, ?_⟩
    simp only [Mention.atDepth, Mention.table.injEq, TableUse.mk.injEq] at hsame
    obtain ⟨rfl, rfl, rfl, -⟩ := hsame
    exact hm
  | commonTable name => simp [Mention.atDepth] at hsame

end Provenance
