import Provenance.Proofs.Token.QualifiedNames
import Provenance.Query.Attribution

/-!
# Chains of names as items

A name of several parts that stands alone in an item has no alias, is no wildcard and is one chain,
which implies the last part as the name of the column.
-/

namespace Provenance

theorem chainTail_of_head {ts : List Token} (h : ∀ t ∈ ts.head?, t.isMark '.' = false) :
    chainTail ts = ([], ts) := by
  match ts with
  | [] => rfl
  | [t] => rfl
  | t :: u :: ts => simp [chainTail, h t rfl]

namespace QualifiedName

variable {n : QualifiedName}

def last (n : QualifiedName) : Token := (n.first :: n.further).getLast (List.cons_ne_nil _ _)

theorem IsProper.isWord_last (h : n.IsProper) : n.last.isWord = true := by
  have hmem : n.last ∈ n.first :: n.further := List.getLast_mem _
  rcases List.mem_cons.mp hmem with hlast | hlast
  · rw [hlast]
    exact Token.isWord_of_isName h.first
  · exact (h.further n.last hlast).1

theorem tokens_cases (n : QualifiedName) :
    n.tokens = [n.last] ∨ ∃ front, n.tokens = front ++ [.mark '.', n.last] := by
  rcases List.eq_nil_or_concat n.further with hfurther | ⟨front, t, hfurther⟩
  · left
    simp [tokens, last, hfurther]
  · right
    have hlast : n.last = t := by
      simp only [last, hfurther, List.concat_eq_append, ← List.cons_append, List.getLast_concat]
    refine ⟨n.first :: front.flatMap fun t => [.mark '.', t], ?_⟩
    simp [tokens, hlast, hfurther]

theorem ofTokens_tokens (n : QualifiedName) : SelectItem.ofTokens n.tokens = ⟨none, n.tokens⟩ := by
  have hdot : (Token.mark '.').is .AS = false := rfl
  have hsign : (Token.mark '.').isMark '=' = false := rfl
  have hends : SelectItem.endsExpression (.mark '.') = false := rfl
  have hassigned : SelectItem.assigned? n.tokens = none := by
    cases hfurther : n.further <;> simp [tokens, hfurther, SelectItem.assigned?, hsign]
  have hreverse : SelectItem.marked? n.tokens.reverse = none ∧
      SelectItem.trailing? n.tokens.reverse = none := by
    rcases n.tokens_cases with htokens | ⟨front, htokens⟩
    · simp [htokens, SelectItem.marked?, SelectItem.trailing?]
    · simp [htokens, SelectItem.marked?, SelectItem.trailing?, hdot, hends]
  simp [SelectItem.ofTokens, hassigned, hreverse]

theorem wildcard?_tokens (h : n.last.isWord = true) (scope : Scope) :
    scope.wildcard? n.tokens = none := by
  have hstar : n.last.isMark '*' = false := Token.not_isMark_of_isWord h '*'
  rcases n.tokens_cases with htokens | ⟨front, htokens⟩ <;> simp [htokens, Scope.wildcard?, hstar]

theorem chainTail_further_append {ts : List Token} (h : ∀ t ∈ ts, t.isWord = true)
    {rest : List Token} (hrest : chainTail rest = ([], rest)) :
    chainTail ((ts.flatMap fun t => [.mark '.', t]) ++ rest) = (ts, rest) := by
  have hdot : (Token.mark '.').isMark '.' = true := rfl
  induction ts with
  | nil => exact hrest
  | cons t ts ih =>
    have htail := ih fun u hu => h u (List.mem_cons_of_mem t hu)
    simp [chainTail, hdot, h t (by simp), htail]

theorem chainTail_further {ts : List Token} (h : ∀ t ∈ ts, t.isWord = true) :
    chainTail (ts.flatMap fun t => [.mark '.', t]) = (ts, []) := by
  have htail : chainTail ((ts.flatMap fun t => [.mark '.', t]) ++ []) = (ts, []) :=
    chainTail_further_append h rfl
  rwa [List.append_nil] at htail

theorem exists_chain (h : ∀ t ∈ n.first :: n.further, t.isWord = true) :
    ∃ c : Chain, chains [] n.tokens = [c] ∧
      c.bareNames = (n.first :: n.further).map fun t => Identifier.bare t.text := by
  have htail := chainTail_further fun t ht => h t (List.mem_cons_of_mem n.first ht)
  refine ⟨⟨[], n.first, n.further.flatMap fun t => [.mark '.', t]⟩, ?_, ?_⟩
  · rw [tokens, chains]
    simp [h n.first (by simp), Chain.after, htail, chains]
  · simp [Chain.bareNames, Chain.further, htail]

theorem isDotted_further {p : Token → Bool} {ts : List Token} (h : ∀ t ∈ ts, p t = true)
    {t : Token} (ht : p t = true) : isDotted p (t :: ts.flatMap fun t => [.mark '.', t]) = true := by
  have hdot : (Token.mark '.').isMark '.' = true := rfl
  induction ts generalizing t with
  | nil => simpa [isDotted] using ht
  | cons u ts ih =>
    have htail := ih (fun v hv => h v (List.mem_cons_of_mem u hv)) (h u (by simp))
    simp [isDotted, ht, hdot, htail]

/-- Whether every part of a name can stand as an alias. -/
def IsPlain (n : QualifiedName) : Prop := ∀ t ∈ n.first :: n.further, t.isPlainName = true

namespace IsPlain

theorem isWord (h : n.IsPlain) : ∀ t ∈ n.first :: n.further, t.isWord = true :=
  fun t ht => Token.isWord_of_isName (Token.isName_of_isPlainName (h t ht))

theorem isWord_last (h : n.IsPlain) : n.last.isWord = true := h.isWord _ (List.getLast_mem _)

theorem impliedName?_tokens (h : n.IsPlain) :
    impliedName? n.tokens = unlessEmpty (Identifier.bare n.last.text) := by
  have hlast : n.tokens.getLast? = some n.last := by
    rcases n.tokens_cases with htokens | ⟨front, htokens⟩ <;> simp [htokens]
  have hdotted : isDotted Token.isPlainName n.tokens = true :=
    isDotted_further (fun t ht => h t (List.mem_cons_of_mem n.first ht)) (h n.first (by simp))
  simp [impliedName?, hlast, hdotted, h.isWord_last]

end IsPlain

end QualifiedName

end Provenance
