import Provenance.Json.Reader
import Provenance.Proofs.Json.Literals

/-!
# Reading written values

A written value is taken apart into lexemes of its own, whatever stands behind it, and these
lead a reader that waits for a value to one that holds it. Arrays and objects are read back if
their items and values are.
-/

namespace Provenance.Json

/-- A text makes up lexemes of its own, whatever stands behind it. -/
def LexedAs (cs : List Char) (ls : List Lexeme) : Prop :=
  ∀ rest, lex (cs ++ rest) = (lex rest).map (ls ++ ·)

namespace LexedAs

variable {cs ds : List Char} {ls ms : List Lexeme}

theorem nil : LexedAs [] [] := by
  intro rest
  simp

theorem append (h : LexedAs cs ls) (h' : LexedAs ds ms) : LexedAs (cs ++ ds) (ls ++ ms) := by
  intro rest
  rw [List.append_assoc, h, h', Option.map_map]
  simp [Function.comp_def]

theorem of_isSpace (h : cs.all isSpace = true) : LexedAs cs [] := by
  intro rest
  induction cs with
  | nil => simp
  | cons c cs ih =>
    simp only [List.all_cons, Bool.and_eq_true] at h
    rw [List.cons_append, lex, if_pos h.1]
    exact ih h.2

theorem of_lexeme? {c : Char} {l : Lexeme} (hc : isSpace c = false)
    (h : ∀ rest, lexeme? c (cs ++ rest) = some (l, rest)) : LexedAs (c :: cs) [l] := by
  intro rest
  rw [List.cons_append, lex, if_neg (by simp [hc])]
  split
  · rename_i hread
    rw [h, Option.some.injEq, Prod.mk.injEq] at hread
    rw [← hread.1, ← hread.2]
    rfl
  · rename_i hread
    rw [h] at hread
    exact absurd hread (by simp)

theorem mark {c : Char} (hc : c ∈ ['[', ']', '{', '}', ',', ':']) : LexedAs [c] [.mark c] := by
  simp only [List.mem_cons, List.not_mem_nil, or_false] at hc
  rcases hc with rfl | rfl | rfl | rfl | rfl | rfl <;>
    exact of_lexeme? (by decide) fun _ => rfl

theorem literal (k : Literal) : LexedAs (writeLiteral k) [.string k] := by
  obtain ⟨body, hbody, -⟩ := lexeme?_writeLiteral k []
  rw [hbody]
  refine of_lexeme? (by decide) fun rest => ?_
  obtain ⟨other, hother, hread⟩ := lexeme?_writeLiteral k rest
  rw [hbody, List.cons.injEq] at hother
  rw [hother.2]
  exact hread

theorem lineBreak (layout : Layout) : LexedAs layout.lineBreak [] := by
  apply of_isSpace
  cases layout with
  | line => rfl
  | indented depth => simp [Layout.lineBreak, isSpace]

theorem closing (layout : Layout) (isEmpty : Bool) : LexedAs (layout.closing isEmpty) [] := by
  cases isEmpty with
  | true => exact nil
  | false => exact lineBreak layout

theorem colon (layout : Layout) : LexedAs layout.colon [.mark ':'] := by
  cases layout with
  | line => exact mark (by decide)
  | indented depth => exact (mark (by decide)).append (of_isSpace (by decide))

end LexedAs

theorem Progress.foldlM_append {p q : Progress} {ls : List Lexeme}
    (h : ls.foldlM step p = some q) (ms : List Lexeme) :
    (ls ++ ms).foldlM step p = ms.foldlM step q := by
  rw [List.foldlM_append, h]
  rfl

/-- Lexemes lead a reader that waits for a value to one that holds it. -/
def Builds (ls : List Lexeme) (j : Json) : Prop :=
  ∀ stack, ls.foldlM Progress.step (.value stack) = some (.complete j stack)

/-- A value that is read as it is from every text that it is written as. -/
def IsReadBack (j : Json) : Prop :=
  ∀ layout, ∃ ls, LexedAs (write layout j) ls ∧ Builds ls j

@[simp] theorem isReadBack_bool (b : Bool) : IsReadBack (.bool b) := by
  intro layout
  cases b <;>
    exact ⟨[.scalar (.bool _)], LexedAs.of_lexeme? (by decide) fun _ => rfl, fun _ => rfl⟩

theorem isReadBack_string (k : Literal) : IsReadBack (.string k) := fun _ =>
  ⟨[.string k], LexedAs.literal k, fun _ => rfl⟩

theorem Builds.firstItem {ls : List Lexeme} {j : Json} (h : Builds ls j) (stack : List Frame) :
    ls.foldlM Progress.step (.firstItem stack) = some (.complete j (.array [] :: stack)) := by
  have hvalue := h (.array [] :: stack)
  cases ls with
  | nil => simp at hvalue
  | cons l ls =>
    have hstep : Progress.step (.firstItem stack) l =
        Progress.step (.value (.array [] :: stack)) l := by
      unfold Progress.step
      split <;> simp_all [Progress.step, Progress.beginValue]
    rw [List.foldlM_cons, hstep, ← List.foldlM_cons]
    exact hvalue

theorem exists_items {items : List Json} (h : ∀ j ∈ items, IsReadBack j) (layout : Layout) :
    ∃ ls, LexedAs (writeItems layout [','] items) ls ∧
      ∀ item before stack, (ls ++ [Lexeme.mark ']']).foldlM Progress.step
          (.complete item (.array before :: stack)) =
        some (.complete (.array ((item :: before).reverse ++ items)) stack) := by
  induction items with
  | nil =>
    refine ⟨[], LexedAs.nil, fun item before stack => ?_⟩
    rw [List.append_nil]
    rfl
  | cons next items ih =>
    obtain ⟨ls, hls, hitems⟩ := ih fun j hj => h j (List.mem_cons_of_mem next hj)
    obtain ⟨ms, hms, hnext⟩ := h next List.mem_cons_self layout
    refine ⟨[.mark ','] ++ (ms ++ ls), ?_, fun item before stack => ?_⟩
    · have hcomma := (LexedAs.mark (c := ',') (by decide)).append (LexedAs.lineBreak layout)
      simpa [writeItems] using hcomma.append (hms.append hls)
    · have hstep : [Lexeme.mark ','].foldlM Progress.step
          (.complete item (.array before :: stack)) =
          some (.value (.array (item :: before) :: stack)) := rfl
      rw [List.append_assoc, List.append_assoc, Progress.foldlM_append hstep,
        Progress.foldlM_append (hnext _), hitems]
      simp

theorem isReadBack_array {items : List Json} (h : ∀ j ∈ items, IsReadBack j) :
    IsReadBack (.array items) := by
  intro layout
  have hopen := LexedAs.mark (c := '[') (by decide)
  have hclose := (LexedAs.closing layout items.isEmpty).append (LexedAs.mark (c := ']') (by decide))
  cases items with
  | nil => exact ⟨_, hopen.append hclose, fun stack => rfl⟩
  | cons first items =>
    obtain ⟨ls, hls, hitems⟩ :=
      exists_items (fun j hj => h j (List.mem_cons_of_mem first hj)) layout.deeper
    obtain ⟨ms, hms, hfirst⟩ := h first List.mem_cons_self layout.deeper
    refine ⟨[.mark '['] ++ (ms ++ (ls ++ [.mark ']'])), ?_, fun stack => ?_⟩
    · have hitem := (LexedAs.lineBreak layout.deeper).append hms
      simpa [write, writeItems] using hopen.append (hitem.append (hls.append hclose))
    · have hstep : [Lexeme.mark '['].foldlM Progress.step (.value stack) =
          some (.firstItem stack) := rfl
      rw [Progress.foldlM_append hstep, Progress.foldlM_append (hfirst.firstItem stack), hitems]
      rfl

theorem exists_member {j : Json} (h : IsReadBack j) (layout : Layout) (k : Literal) :
    ∃ ls, LexedAs (layout.lineBreak ++ writeLiteral k ++ layout.colon ++ write layout j) ls ∧
      (∀ stack, ls.foldlM Progress.step (.firstKey stack) =
        some (.complete j (.object [] k :: stack))) ∧
      ∀ before stack, ls.foldlM Progress.step (.key before stack) =
        some (.complete j (.object before k :: stack)) := by
  obtain ⟨ls, hls, hvalue⟩ := h layout
  have hkey := ((LexedAs.lineBreak layout).append (LexedAs.literal k)).append (LexedAs.colon layout)
  refine ⟨.string k :: .mark ':' :: ls, by simpa using hkey.append hls, fun stack => ?_,
    fun before stack => ?_⟩
  · exact hvalue (.object [] k :: stack)
  · exact hvalue (.object before k :: stack)

theorem exists_members {members : List (Literal × Json)} (h : ∀ m ∈ members, IsReadBack m.2)
    (layout : Layout) :
    ∃ ls, LexedAs (writeMembers layout [','] members) ls ∧
      ∀ j k before stack, (ls ++ [Lexeme.mark '}']).foldlM Progress.step
          (.complete j (.object before k :: stack)) =
        some (.complete (.object (((k, j) :: before).reverse ++ members)) stack) := by
  induction members with
  | nil =>
    refine ⟨[], LexedAs.nil, fun j k before stack => ?_⟩
    rw [List.append_nil]
    rfl
  | cons next members ih =>
    obtain ⟨ls, hls, hmembers⟩ := ih fun m hm => h m (List.mem_cons_of_mem next hm)
    obtain ⟨ms, hms, -, hnext⟩ := exists_member (h next List.mem_cons_self) layout next.1
    refine ⟨[.mark ','] ++ (ms ++ ls), ?_, fun j k before stack => ?_⟩
    · have hcomma := LexedAs.mark (c := ',') (by decide)
      simpa [writeMembers] using hcomma.append (hms.append hls)
    · have hstep : [Lexeme.mark ','].foldlM Progress.step
          (.complete j (.object before k :: stack)) = some (.key ((k, j) :: before) stack) := rfl
      rw [List.append_assoc, List.append_assoc, Progress.foldlM_append hstep,
        Progress.foldlM_append (hnext _ _), hmembers]
      simp

theorem isReadBack_object {members : List (Literal × Json)} (h : ∀ m ∈ members, IsReadBack m.2) :
    IsReadBack (.object members) := by
  intro layout
  have hopen := LexedAs.mark (c := '{') (by decide)
  have hclose := (LexedAs.closing layout members.isEmpty).append
    (LexedAs.mark (c := '}') (by decide))
  cases members with
  | nil => exact ⟨_, hopen.append hclose, fun stack => rfl⟩
  | cons first members =>
    obtain ⟨ls, hls, hmembers⟩ :=
      exists_members (fun m hm => h m (List.mem_cons_of_mem first hm)) layout.deeper
    obtain ⟨ms, hms, hfirst, -⟩ := exists_member (h first List.mem_cons_self) layout.deeper first.1
    refine ⟨[.mark '{'] ++ (ms ++ (ls ++ [.mark '}'])), ?_, fun stack => ?_⟩
    · simpa [write, writeMembers] using hopen.append (hms.append (hls.append hclose))
    · have hstep : [Lexeme.mark '{'].foldlM Progress.step (.value stack) =
          some (.firstKey stack) := rfl
      rw [Progress.foldlM_append hstep, Progress.foldlM_append (hfirst stack), hmembers]
      rfl

/-- A text that holds a written value and spaces behind it is read as that value. -/
theorem IsReadBack.parse?_write {j : Json} (h : IsReadBack j) (layout : Layout) {spaces : List Char}
    (hspaces : spaces.all isSpace = true) :
    Json.parse? (String.ofList (write layout j ++ spaces)) = some j := by
  obtain ⟨ls, hls, hbuilds⟩ := h layout
  have hlex := (hls.append (LexedAs.of_isSpace hspaces)) []
  rw [List.append_nil, List.append_nil] at hlex
  rw [Json.parse?, String.toList_ofList, hlex, lex, Option.map_some, Option.bind_some,
    List.append_nil, ofLexemes?, hbuilds]

end Provenance.Json
