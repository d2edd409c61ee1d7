/-!
# Tokens

The structure block is a run of tokens, 32-bit words that say what follows: a node opens, a node closes, a
property, the end of the block.
-/

namespace DeviceTree

/-- A word that says what follows in the structure block. -/
inductive Token where
  | beginNode
  | endNode
  | property
  | finish
deriving DecidableEq, Repr

namespace Token

/-- The word for a token. -/
def word : Token → UInt32
  | beginNode => 1
  | endNode => 2
  | property => 3
  | finish => 9

/-- The token of a word, if it is one. -/
def ofWord? (w : UInt32) : Option Token :=
  [beginNode, endNode, property, finish].find? (·.word == w)

@[simp] theorem ofWord?_word (t : Token) : ofWord? t.word = some t := by
  cases t <;> rfl

theorem ofWord?_eq_some_iff {w : UInt32} {t : Token} : ofWord? w = some t ↔ w = t.word := by
  refine ⟨fun h => ?_, fun h => h ▸ ofWord?_word t⟩
  have := List.find?_some h
  exact (beq_iff_eq.1 this).symm

end Token

end DeviceTree
