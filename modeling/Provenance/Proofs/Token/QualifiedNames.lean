import Provenance.Proofs.Token.Words
import Provenance.Token.Reader

/-!
# Qualified names

A name of several parts, with a full stop before each further one, is read as a whole in front of
anything but another full stop.
-/

namespace Provenance

/-- A name and the parts that follow it after full stops. -/
structure QualifiedName where
  first : Token
  further : List Token
  deriving DecidableEq, Repr

namespace QualifiedName

def tokens (n : QualifiedName) : List Token :=
  n.first :: n.further.flatMap fun t => [.mark '.', t]

def parts (n : QualifiedName) : List String := n.first.text :: n.further.map Token.text

/-- Names whose first part is an identifier. The others are words of any kind but numbers. -/
structure IsProper (n : QualifiedName) : Prop where
  first : n.first.isName = true
  further : ∀ t ∈ n.further, t.isWord = true ∧ t.isNumber = false

instance (n : QualifiedName) : Decidable n.IsProper :=
  decidable_of_iff
    (n.first.isName = true ∧ ∀ t ∈ n.further, t.isWord = true ∧ t.isNumber = false)
    ⟨fun ⟨first, further⟩ => ⟨first, further⟩, fun h => ⟨h.first, h.further⟩⟩

end QualifiedName

theorem dottedParts_of_head {rest : List Token} (h : ∀ t ∈ rest.head?, t.isMark '.' = false) :
    dottedParts rest = ([], rest) := by
  match rest with
  | [] => rfl
  | [t] => rfl
  | t :: u :: rest => simp [dottedParts, h t rfl]

theorem dottedParts_append {ts : List Token}
    (h : ∀ t ∈ ts, t.isWord = true ∧ t.isNumber = false) {rest : List Token}
    (hrest : dottedParts rest = ([], rest)) :
    dottedParts ((ts.flatMap fun t => [.mark '.', t]) ++ rest) = (ts.map Token.text, rest) := by
  have hdot : (Token.mark '.').isMark '.' = true := rfl
  induction ts with
  | nil => exact hrest
  | cons t ts ih =>
    obtain ⟨hword, hnumber⟩ := h t (by simp)
    have htail := ih fun u hu => h u (List.mem_cons_of_mem t hu)
    simp [dottedParts, hdot, hword, hnumber, htail]

namespace QualifiedName.IsProper

variable {n : QualifiedName}

theorem qualifiedName?_append (h : n.IsProper) {rest : List Token}
    (hrest : dottedParts rest = ([], rest)) :
    qualifiedName? (n.tokens ++ rest) = some (n.parts, rest) := by
  have hfurther := dottedParts_append h.further hrest
  simp [qualifiedName?, QualifiedName.tokens, identifier?, h.first, hfurther,
    QualifiedName.parts]

theorem qualifiedName?_tokens_append (h : n.IsProper) {rest : List Token}
    (hrest : ∀ t ∈ rest.head?, t.isMark '.' = false) :
    qualifiedName? (n.tokens ++ rest) = some (n.parts, rest) :=
  h.qualifiedName?_append (dottedParts_of_head hrest)

end QualifiedName.IsProper

end Provenance
