import Provenance.Proofs.Token.Depth

/-!
# Pieces between commas

Tokens are cut at the commas outside parentheses. The pieces are stretches of the tokens in their
order, and each of them begins outside parentheses.
-/

namespace Provenance

/-- Tokens that are cut at every comma outside parentheses, if the first of them stands at a
depth. -/
inductive IsCutAtCommas : Int → List Token → List (List Token) → Prop where
  | whole {depth : Int} {ts : List Token}
      (hcommas : ∀ t ∈ outside depth ts, t.isMark ',' = false) : IsCutAtCommas depth ts [ts]
  | cut {depth : Int} {piece rest : List Token} {pieces : List (List Token)}
      (hcommas : ∀ t ∈ outside depth piece, t.isMark ',' = false) (hnet : depth + net piece = 0)
      (hrest : IsCutAtCommas 0 rest pieces) :
      IsCutAtCommas depth (piece ++ .mark ',' :: rest) (piece :: pieces)

namespace IsCutAtCommas

theorem cons {depth : Int} {t : Token} {ts piece : List Token} {pieces : List (List Token)}
    (h : IsCutAtCommas (depth + t.nesting) ts (piece :: pieces))
    (ht : depth = 0 → t.isMark ',' = false) :
    IsCutAtCommas depth (t :: ts) ((t :: piece) :: pieces) := by
  have hcons : ∀ {us : List Token}, (∀ u ∈ outside (depth + t.nesting) us, u.isMark ',' = false) →
      ∀ u ∈ outside depth (t :: us), u.isMark ',' = false := by
    intro us hus u hu
    rw [outside] at hu
    by_cases hdepth : depth = 0
    · rw [if_pos hdepth] at hu
      rcases List.mem_cons.mp hu with rfl | hu
      · exact ht hdepth
      · exact hus u hu
    · rw [if_neg hdepth] at hu
      exact hus u hu
  cases h with
  | whole hcommas => exact whole (hcons hcommas)
  | cut hcommas hnet hrest =>
    exact cut (hcons hcommas) (by rw [net_cons, ← Int.add_assoc, hnet]) hrest

theorem piecesFrom (depth : Int) (ts : List Token) :
    IsCutAtCommas depth ts
      ((Provenance.piecesFrom depth ts).1 :: (Provenance.piecesFrom depth ts).2) := by
  fun_induction Provenance.piecesFrom depth ts with
  | case1 depth => exact whole (by simp [outside])
  | case2 depth t rest hcomma tail ih =>
    simp only [Bool.and_eq_true, decide_eq_true_eq] at hcomma
    obtain ⟨rfl, hmark⟩ := hcomma
    obtain rfl := Token.eq_mark_of_isMark hmark
    have hnone : ∀ u ∈ outside 0 ([] : List Token), u.isMark ',' = false := by simp [outside]
    exact cut hnone rfl ih
  | case3 depth t rest hcomma tail ih =>
    apply ih.cons
    intro hdepth
    simpa [hdepth] using hcomma

end IsCutAtCommas

/-! ## Stretches -/

theorem net_comma_cons {piece earlier : List Token} (hpiece : net piece = 0)
    (hearlier : net earlier = 0) : net (piece ++ .mark ',' :: earlier) = 0 := by
  simp [hpiece, hearlier]

/-- Where tokens stand among others. -/
structure Stretch where
  start : Nat
  length : Nat

namespace Stretch

def stop (s : Stretch) : Nat := s.start + s.length

def tokens (ts : List Token) (s : Stretch) : List Token := (ts.drop s.start).take s.length

def Holds (s : Stretch) (i : Nat) : Prop := s.start ≤ i ∧ i < s.stop

def IsBefore (s r : Stretch) : Prop := s.stop ≤ r.start

/-- Whether a stretch is that of a piece of a list whose first token stands at `offset`: the
parentheses in front of the piece are closed, and no comma stands outside its own. -/
structure IsPieceOf (list : List Token) (offset : Nat) (s : Stretch) (earlier piece later :
    List Token) : Prop where
  whole : list = earlier ++ (piece ++ later)
  stretch : s = ⟨offset + earlier.length, piece.length⟩
  closed : net earlier = 0
  commas : ∀ t ∈ outside 0 piece, t.isMark ',' = false

variable {s : Stretch} {list earlier piece later : List Token} {offset : Nat}

theorem IsPieceOf.length_eq (h : s.IsPieceOf list offset earlier piece later) :
    s.length = piece.length := by
  rw [h.stretch]

section Whole

variable {front : List Token} (h : s.IsPieceOf list offset earlier piece later)
  (hoffset : front.length = offset) (back : List Token)

include h hoffset

theorem IsPieceOf.append_eq :
    front ++ (list ++ back) = (front ++ earlier) ++ (piece ++ (later ++ back)) ∧
      s.start = (front ++ earlier).length := by
  constructor
  · simp [h.whole]
  · simp [h.stretch, hoffset]

theorem IsPieceOf.tokens_append : s.tokens (front ++ (list ++ back)) = piece := by
  obtain ⟨hall, hstart⟩ := h.append_eq hoffset back
  rw [tokens, hall, hstart, h.length_eq, List.drop_left, List.take_left]

theorem IsPieceOf.take_start :
    (front ++ (list ++ back)).take s.start = front ++ earlier := by
  obtain ⟨hall, hstart⟩ := h.append_eq hoffset back
  rw [hall, hstart, List.take_left]

theorem IsPieceOf.stop_le : s.stop ≤ (front ++ (list ++ back)).length := by
  obtain ⟨hall, hstart⟩ := h.append_eq hoffset back
  simp only [stop, hall, hstart, h.length_eq, List.length_append]
  omega

end Whole

theorem IsPieceOf.not_comma (h : s.IsPieceOf list offset earlier piece later)
    {inner outer : List Token} {t : Token} (hpiece : piece = inner ++ t :: outer)
    (hnet : net inner = 0) : t.isMark ',' = false := by
  apply h.commas
  rw [hpiece, outside_append, hnet, Int.zero_add]
  exact List.mem_append_right _ (by simp [outside])

theorem IsPieceOf.behind {first : List Token} (hfirst : net first = 0)
    (h : s.IsPieceOf list (offset + (first.length + 1)) earlier piece later) :
    s.IsPieceOf (first ++ .mark ',' :: list) offset (first ++ .mark ',' :: earlier) piece later where
  whole := by simp [h.whole]
  stretch := by
    rw [h.stretch]
    simp
    omega
  closed := net_comma_cons hfirst h.closed
  commas := h.commas

end Stretch

/-- Whether stretches are the pieces of a list whose first token stands at `offset`. Each stands
behind the comma that ends the one before it, and a place of the list that none of them holds is
that of such a comma. -/
structure AreCutAtCommas (list : List Token) (offset : Nat) (stretches : List Stretch) : Prop where
  apart : stretches.Pairwise fun s r => s.stop < r.start
  pieces : ∀ s ∈ stretches, ∃ earlier piece later, s.IsPieceOf list offset earlier piece later
  places : ∀ i < list.length, (∃ s ∈ stretches, s.Holds (offset + i)) ∨
    ∃ earlier later, list = earlier ++ .mark ',' :: later ∧ net earlier = 0 ∧ earlier.length = i

namespace AreCutAtCommas

variable {list : List Token} {offset : Nat} {stretches : List Stretch}

theorem singleton (hcommas : ∀ t ∈ outside 0 list, t.isMark ',' = false) :
    AreCutAtCommas list offset [⟨offset, list.length⟩] where
  apart := List.pairwise_singleton _ _
  pieces := by
    intro s hs
    obtain rfl := List.mem_singleton.mp hs
    exact ⟨[], list, [], by simp, rfl, rfl, hcommas⟩
  places := fun i hi =>
    .inl ⟨_, List.mem_singleton_self _, by simp [Stretch.Holds, Stretch.stop, hi]⟩

theorem cons {first : List Token} (hcommas : ∀ t ∈ outside 0 first, t.isMark ',' = false)
    (hfirst : net first = 0) (h : AreCutAtCommas list (offset + (first.length + 1)) stretches) :
    AreCutAtCommas (first ++ .mark ',' :: list) offset
      (⟨offset, first.length⟩ :: stretches) where
  apart := by
    refine List.pairwise_cons.mpr ⟨?_, h.apart⟩
    intro s hs
    obtain ⟨earlier, piece, later, hpiece⟩ := h.pieces s hs
    simp only [Stretch.stop, hpiece.stretch]
    omega
  pieces := by
    intro s hs
    rcases List.mem_cons.mp hs with rfl | hs
    · exact ⟨[], first, .mark ',' :: list, by simp, rfl, rfl, hcommas⟩
    · obtain ⟨earlier, piece, later, hpiece⟩ := h.pieces s hs
      exact ⟨_, _, _, hpiece.behind hfirst⟩
  places := by
    intro i hi
    rcases Nat.lt_trichotomy i first.length with hlt | rfl | hgt
    · exact .inl ⟨_, List.mem_cons_self, by simp [Stretch.Holds, Stretch.stop, hlt]⟩
    · exact .inr ⟨first, list, rfl, hfirst, rfl⟩
    · obtain ⟨k, rfl⟩ : ∃ k, i = first.length + 1 + k := Nat.exists_eq_add_of_le hgt
      simp only [List.length_append, List.length_cons] at hi
      rcases h.places k (by omega) with ⟨s, hs, hplace⟩ | ⟨earlier, later, rfl, hclosed, rfl⟩
      · exact .inl ⟨s, List.mem_cons_of_mem _ hs, by rwa [← Nat.add_assoc]⟩
      · refine .inr ⟨first ++ .mark ',' :: earlier, later, by simp, ?_, ?_⟩
        · exact net_comma_cons hfirst hclosed
        · simp
          omega

theorem filter_pos (h : AreCutAtCommas list offset stretches) :
    AreCutAtCommas list offset (stretches.filter fun s => 0 < s.length) where
  apart := h.apart.filter _
  pieces := fun s hs => h.pieces s (List.mem_filter.mp hs).1
  places := by
    intro i hi
    refine (h.places i hi).imp_left ?_
    rintro ⟨s, hs, hplace⟩
    -- An empty stretch holds no place.
    have hlength : 0 < s.length := by
      simp only [Stretch.Holds, Stretch.stop] at hplace
      omega
    exact ⟨s, List.mem_filter.mpr ⟨hs, by simpa using hlength⟩, hplace⟩

end AreCutAtCommas

theorem IsCutAtCommas.exists_stretches {list : List Token} {pieces : List (List Token)}
    (h : IsCutAtCommas 0 list pieces) (front back : List Token) :
    ∃ stretches : List Stretch, pieces = stretches.map (Stretch.tokens (front ++ (list ++ back))) ∧
      AreCutAtCommas list front.length stretches := by
  generalize hdepth : (0 : Int) = depth at h
  induction h generalizing front with
  | @whole depth ts hcommas =>
    subst hdepth
    exact ⟨[⟨front.length, ts.length⟩], by simp [Stretch.tokens], .singleton hcommas⟩
  | @cut depth piece rest pieces hcommas hnet hrest ih =>
    subst hdepth
    rw [Int.zero_add] at hnet
    -- The other pieces stand behind the first one and its comma.
    obtain ⟨stretches, hpieces, hcut⟩ := ih (front ++ (piece ++ [.mark ','])) rfl
    have hall : front ++ (piece ++ [.mark ',']) ++ (rest ++ back) =
        front ++ (piece ++ .mark ',' :: rest ++ back) := by simp
    have hbehind : (front ++ (piece ++ [Token.mark ','])).length =
        front.length + (piece.length + 1) := by simp
    rw [hall] at hpieces
    rw [hbehind] at hcut
    refine ⟨⟨front.length, piece.length⟩ :: stretches, ?_, .cons hcommas hnet hcut⟩
    rw [List.map_cons, ← hpieces]
    simp [Stretch.tokens]

/-- The pieces that are not empty are stretches of the tokens. -/
theorem exists_stretches_splitCommas (front list back : List Token) :
    ∃ stretches : List Stretch,
      splitCommas list = stretches.map (Stretch.tokens (front ++ (list ++ back))) ∧
      AreCutAtCommas list front.length stretches ∧ ∀ s ∈ stretches, 0 < s.length := by
  obtain ⟨stretches, hpieces, hcut⟩ := (IsCutAtCommas.piecesFrom 0 list).exists_stretches front back
  refine ⟨stretches.filter fun s => 0 < s.length, ?_, hcut.filter_pos, ?_⟩
  · rw [splitCommas, hpieces, List.filter_map]
    congr 1
    apply List.filter_congr
    intro s hs
    obtain ⟨earlier, piece, later, hpiece⟩ := hcut.pieces s hs
    rw [Function.comp_apply, hpiece.tokens_append rfl, hpiece.length_eq]
    cases piece <;> simp
  · intro s hs
    simpa using (List.mem_filter.mp hs).2

end Provenance
