import Provenance.Token.Reader

/-!
# Cursors

A cursor is a position in a list of tokens. Readers of token lists move it to the end of what
they read and leave it where it is when they find nothing, so it never passes the end and only
moves back when it is told to.
-/

namespace Provenance

structure Cursor where
  tokens : List Token
  position : Nat
  position_le : position ≤ tokens.length

namespace Cursor

def start (ts : List Token) : Cursor := ⟨ts, 0, Nat.zero_le _⟩

def rest (c : Cursor) : List Token := c.tokens.drop c.position

def atEnd (c : Cursor) : Bool := c.position == c.tokens.length

/-- The cursor at position `n`, or at the end if there are fewer tokens. -/
def moveTo (n : Nat) (c : Cursor) : Cursor :=
  ⟨c.tokens, min n c.tokens.length, Nat.min_le_right _ _⟩

/-- The token `n` places after the next one. -/
def ahead? (n : Nat) (c : Cursor) : Option Token := c.tokens[c.position + n]?

def next? (c : Cursor) : Option Token := c.ahead? 0

def pass (c : Cursor) : Cursor := c.moveTo (c.position + 1)

/-- The cursor before the tokens that a reader left over. -/
def moveBefore (left : List Token) (c : Cursor) : Cursor :=
  ⟨c.tokens, c.tokens.length - left.length, Nat.sub_le _ _⟩

/-- Passes the tokens that a reader takes. The result is absent if it takes none. -/
def read {α : Type} (reader : List Token → Option (α × List Token)) (c : Cursor) :
    Option α × Cursor :=
  match reader c.rest with
  | some (a, left) => (some a, c.moveBefore left)
  | none => (none, c)

/-- Passes the tokens that `f` skips. -/
def skip (f : List Token → List Token) (c : Cursor) : Cursor := c.moveBefore (f c.rest)

def passKeyword (k : Keyword) (c : Cursor) : Option Unit × Cursor :=
  c.read fun ts => (afterKeyword? k ts).map ((), ·)

def passMark (s : Char) (c : Cursor) : Option Unit × Cursor :=
  c.read fun ts => (afterMark? s ts).map ((), ·)

end Cursor

end Provenance
