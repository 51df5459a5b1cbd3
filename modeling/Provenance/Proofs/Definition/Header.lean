import Provenance.Definition.Header
import Provenance.Proofs.Identifier

/-!
# Headers of written definitions

A definition that begins with `CREATE`, a kind of object and a written id has these for its
header.
-/

namespace Provenance

theorem findHeader?_cons {α : Type} (stop : Token → Bool) (kind? : Token → Option α) (t : Token)
    (rest : List Token) :
    findHeader? stop kind? (t :: rest) =
      if stop t then none
      else
        match afterVerb? (t :: rest) with
        | none => findHeader? stop kind? rest
        | some [] => none
        | some (u :: after) =>
          match kind? u with
          | some kind => some (kind, after)
          | none => findHeader? stop kind? (u :: after) := by
  rw [findHeader?]
  split
  · rfl
  · split
    · rename_i hverb
      simp only [hverb]
    · rename_i hverb
      simp only [hverb]
    · rename_i u after hverb
      cases hu : kind? u <;> simp only [hverb, hu]

theorem findHeader?_create {α : Type} {stop : Token → Bool} {kind? : Token → Option α} {u : Token}
    {kind : α} (hstop : stop (.word "CREATE") = false) (hor : u.is .OR = false)
    (hkind : kind? u = some kind) (rest : List Token) :
    findHeader? stop kind? (.word "CREATE" :: u :: rest) = some (kind, rest) := by
  have hcreate : (Token.word "CREATE").is .CREATE = true := by decide
  have hverb : afterVerb? (.word "CREATE" :: u :: rest) = some (u :: rest) := by
    simp [afterVerb?, hcreate, afterKeyword?, hor]
  rw [findHeader?_cons, hverb]
  simp [hstop, hkind]

theorem Header.ofTokens?_create {u : Token} {kind : ObjectKind} {id : String} {rest : List Token}
    (hor : u.is .OR = false) (hkind : ObjectKind.ofToken? u = some kind)
    (hid : ∀ part ∈ Identifier.idParts id, Text.trim part = part)
    (hrest : ∀ t, rest.head? = some t → t.isMark '.' = false) :
    Header.ofTokens? (.word "CREATE" :: u :: (Identifier.idTokens id ++ rest)) =
      some ⟨kind, id⟩ := by
  have hname := Identifier.qualifiedName?_idTokens id _ hrest
  rw [Header.ofTokens?, findHeader?_create rfl hor hkind]
  simp only [Option.map_some, hname, Option.getD_some]
  rw [Identifier.map_bare_written hid, Identifier.lastTwo_idParts, Identifier.joinId_idParts]

end Provenance
