/-!
# Distinct entries

Lists of ids and origins keep the first entry of each key, in order of first appearance.
-/

namespace Provenance

/-- Keeps the first entry of each key. -/
def distinctBy {α κ : Type} [DecidableEq κ] (key : α → κ) : List α → List α
  | [] => []
  | a :: rest => a :: (distinctBy key rest).filter fun b => key b ≠ key a

end Provenance
