import Provenance.Proofs.Token.CommaPieces

/-!
# Commas outside parentheses

Tokens are split at every comma that stands outside parentheses, and nowhere else. The pieces are
what lies between those commas, and pieces that are joined by commas are split again.
-/

namespace Provenance

/-- Whether a comma stands outside parentheses at a place: of those in front of it as many are
opened as are closed. -/
def isOuterComma (ts : List Token) (i : Nat) : Bool :=
  ts[i]?.any (Token.isMark ',') && net (ts.take i) == 0

def withoutOuterCommas (ts : List Token) : List Token :=
  (ts.zipIdx.filter fun u => !isOuterComma ts u.2).map Prod.fst

theorem isOuterComma_append (front : List Token) (t : Token) (back : List Token) :
    isOuterComma (front ++ t :: back) front.length = (t.isMark ',' && net front == 0) := by
  simp [isOuterComma]

theorem not_isOuterComma_of_outside {front piece : List Token}
    (h : ∀ t ∈ outside (net front) piece, t.isMark ',' = false) (back : List Token) {i : Nat}
    (hfrom : front.length ≤ i) (hto : i < front.length + piece.length) :
    isOuterComma (front ++ (piece ++ back)) i = false := by
  obtain ⟨inner, t, outer, rfl, rfl⟩ : ∃ inner t outer, piece = inner ++ t :: outer ∧
      front.length + inner.length = i := by
    have hi : i - front.length < piece.length := by omega
    refine ⟨piece.take (i - front.length), piece[i - front.length],
      piece.drop (i - front.length + 1), ?_, ?_⟩
    · rw [List.getElem_cons_drop, List.take_append_drop]
    · rw [List.length_take]
      omega
  have hplace := isOuterComma_append (front ++ inner) t (outer ++ back)
  rw [List.length_append] at hplace
  rw [List.append_assoc, List.cons_append, ← List.append_assoc, hplace, net_append]
  by_cases hnet : net front + net inner = 0
  · rw [h t, Bool.false_and]
    rw [outside_append, hnet]
    exact List.mem_append_right _ (by simp [outside])
  · simp [hnet]

/-! ## A piece and the comma behind it -/

section Comma

variable {front piece : List Token} (rest : List Token)

theorem append_comma_append : front ++ (piece ++ [.mark ',']) ++ rest =
    front ++ (piece ++ .mark ',' :: rest) := by
  simp

theorem net_append_comma (h : net front + net piece = 0) :
    net (front ++ (piece ++ [.mark ','])) = 0 := by
  simp [h]

theorem isOuterComma_of_net (h : net front + net piece = 0) :
    isOuterComma (front ++ (piece ++ .mark ',' :: rest)) (front.length + piece.length) = true := by
  have hcomma := isOuterComma_append (front ++ piece) (.mark ',') rest
  rw [List.length_append, List.append_assoc, net_append, h] at hcomma
  rw [hcomma]
  rfl

end Comma

/-! ## All pieces -/

/-- Whether stretches of tokens are what lies between the commas outside parentheses. Such a comma
stands between any two of them, and they hold all the other tokens. -/
structure IsCommaSplit (ts : List Token) (stretches : List Stretch) : Prop where
  nonempty : ∀ s ∈ stretches, 0 < s.length
  inside : ∀ s ∈ stretches, s.stop ≤ ts.length
  apart : stretches.Pairwise fun s r => s.stop < r.start
  holds : ∀ i < ts.length, (∃ s ∈ stretches, s.Holds i) ↔ isOuterComma ts i = false

namespace IsCutAtCommas

variable {list front : List Token} {pieces : List (List Token)}

theorem flatten_eq (h : IsCutAtCommas (net front) list pieces) : pieces.flatten =
    ((list.zipIdx front.length).filter fun u => !isOuterComma (front ++ list) u.2).map Prod.fst := by
  have hkeep : ∀ {front piece : List Token} (back : List Token),
      (∀ t ∈ outside (net front) piece, t.isMark ',' = false) →
      ((piece.zipIdx front.length).filter
        fun u => !isOuterComma (front ++ (piece ++ back)) u.2).map Prod.fst = piece := by
    intro front piece back hcommas
    rw [List.filter_eq_self.mpr, List.zipIdx_map_fst]
    intro u hu
    have hplace := List.mem_zipIdx hu
    rw [not_isOuterComma_of_outside hcommas back hplace.1 (by omega), Bool.not_false]
  generalize hdepth : net front = depth at h
  induction h generalizing front with
  | @whole depth ts hcommas =>
    subst hdepth
    have hts := hkeep [] hcommas
    rw [List.append_nil] at hts
    simp [hts]
  | @cut depth piece rest pieces hcommas hnet hrest ih =>
    subst hdepth
    have htail := ih (net_append_comma hnet)
    rw [append_comma_append] at htail
    simp only [List.length_append, List.length_singleton, ← Nat.add_assoc] at htail
    have hcomma := isOuterComma_of_net rest hnet
    rw [List.flatten_cons, htail, List.zipIdx_append, List.filter_append, List.map_append,
      hkeep _ hcommas, List.zipIdx_cons, List.filter_cons_of_neg (by simp [hcomma])]

end IsCutAtCommas

theorem flatten_splitCommas (ts : List Token) : (splitCommas ts).flatten = withoutOuterCommas ts := by
  have hcut : IsCutAtCommas (net []) ts _ := IsCutAtCommas.piecesFrom 0 ts
  rw [splitCommas, List.flatten_filter_not_isEmpty, hcut.flatten_eq]
  rfl

theorem Stretch.IsPieceOf.not_isOuterComma {s : Stretch} {ts earlier piece later : List Token}
    (h : s.IsPieceOf ts 0 earlier piece later) {i : Nat} (hi : s.Holds i) :
    isOuterComma ts i = false := by
  obtain ⟨hfrom, hto⟩ := hi
  simp only [Stretch.stop, h.stretch, Nat.zero_add] at hfrom hto
  rw [h.whole]
  exact not_isOuterComma_of_outside (by rw [h.closed]; exact h.commas) later hfrom hto

/-- The pieces are the stretches between the commas outside parentheses. -/
theorem exists_isCommaSplit (ts : List Token) :
    ∃ stretches : List Stretch, splitCommas ts = stretches.map (Stretch.tokens ts) ∧
      IsCommaSplit ts stretches := by
  obtain ⟨stretches, hpieces, hcut, hlength⟩ := exists_stretches_splitCommas [] ts []
  rw [List.nil_append, List.append_nil] at hpieces
  refine ⟨stretches, hpieces, hlength, ?_, hcut.apart, ?_⟩
  · intro s hs
    obtain ⟨earlier, piece, later, hpiece⟩ := hcut.pieces s hs
    simpa using hpiece.stop_le List.length_nil []
  · intro i hi
    constructor
    · rintro ⟨s, hs, hplace⟩
      obtain ⟨earlier, piece, later, hpiece⟩ := hcut.pieces s hs
      exact hpiece.not_isOuterComma hplace
    · intro hcomma
      rcases hcut.places i hi with ⟨s, hs, hplace⟩ | ⟨earlier, later, rfl, hnet, rfl⟩
      · rw [List.length_nil, Nat.zero_add] at hplace
        exact ⟨s, hs, hplace⟩
      · rw [isOuterComma_append, hnet] at hcomma
        simp [Token.isMark] at hcomma

/-- Splitting leaves out the commas outside parentheses, cuts at each of them and nowhere else, and
undoes joining by commas. -/
theorem splitCommas_at_outerCommas :
    (∀ ts, (splitCommas ts).flatten = withoutOuterCommas ts ∧
      ∃ stretches, splitCommas ts = stretches.map (Stretch.tokens ts) ∧
        IsCommaSplit ts stretches) ∧
    ∀ pieces : List (List Token), (∀ piece ∈ pieces, isPiece piece = true) →
      splitCommas ([Token.mark ','].intercalate pieces) = pieces := by
  constructor
  · intro ts
    exact ⟨flatten_splitCommas ts, exists_isCommaSplit ts⟩
  · intro pieces h
    exact splitCommas_intercalate h

/-- A comma inside a call is no place to split. -/
theorem splitCommas_at_outerCommas_call :
    let pieces : List (List Token) := [[.word "a"],
      [.word "f", .mark '(', .word "b", .mark ',', .mark '(', .word "c", .mark ')', .mark ')'],
      [.mark '(', .mark ',', .mark ')', .delimited "[d,e]"]]
    (∀ piece ∈ pieces, isPiece piece = true) ∧
      splitCommas ([Token.mark ','].intercalate pieces) = pieces :=
  ⟨by decide, splitCommas_at_outerCommas.2 _ (by decide)⟩

/-- Behind a parenthesis that closes nothing, commas count again once another one is opened. -/
example : splitCommas [.word "a", .mark ')', .mark ',', .word "b", .mark '(', .mark ',', .mark ',',
    .word "c", .mark ','] =
      [[.word "a", .mark ')', .mark ',', .word "b", .mark '('], [.word "c"]] := by
  decide

end Provenance
