import Codegen.Proofs.Wasm.Lexeme

namespace Codegen.Wasm

/-- An atom, or a sequence of trees between parentheses. -/
inductive Tree where
  | atom (a : Atom)
  | node (items : List Tree)
  deriving Repr

namespace Tree

mutual

/-- The lexemes of a tree in the order of its text. -/
def lexemes : Tree → List Lexeme
  | .atom a => [.atom a]
  | .node items => .opening :: (allLexemes items ++ [.closing])

/-- The lexemes of a sequence of trees. -/
def allLexemes : List Tree → List Lexeme
  | [] => []
  | t :: ts => t.lexemes ++ allLexemes ts

end

@[simp] theorem allLexemes_eq_flatMap (ts : List Tree) : allLexemes ts = ts.flatMap lexemes := by
  induction ts with
  | nil => rfl
  | cons t ts ih => rw [allLexemes, ih, List.flatMap_cons]

/-- Reads trees, where `level` holds the finished ones between the innermost open parentheses and
`outer` those of the levels around it. -/
def ofLexemes (level : List Tree) (outer : List (List Tree)) : List Lexeme → Option (List Tree)
  | [] => if outer = [] then some level else none
  | .opening :: rest => ofLexemes [] (level :: outer) rest
  | .closing :: rest =>
    match outer with
    | [] => none
    | around :: outer => ofLexemes (around ++ [.node level]) outer rest
  | .atom a :: rest => ofLexemes (level ++ [.atom a]) outer rest

/-- The one tree of a text. -/
def read (text : String) : Option Tree := do
  match ← ofLexemes [] [] (← lex text.toList) with
  | [t] => some t
  | _ => none

mutual

/-- Reading the lexemes of a tree adds that tree to its level. -/
theorem ofLexemes_lexemes (t : Tree) (level : List Tree) (outer : List (List Tree))
    (rest : List Lexeme) :
    ofLexemes level outer (t.lexemes ++ rest) = ofLexemes (level ++ [t]) outer rest := by
  match t with
  | .atom a => rfl
  | .node items =>
    rw [lexemes, List.cons_append, ofLexemes, List.append_assoc, ofLexemes_allLexemes items]
    rfl

theorem ofLexemes_allLexemes (ts level : List Tree) (outer : List (List Tree))
    (rest : List Lexeme) :
    ofLexemes level outer (allLexemes ts ++ rest) = ofLexemes (level ++ ts) outer rest := by
  match ts with
  | [] => simp [allLexemes]
  | t :: ts =>
    rw [allLexemes, List.append_assoc, ofLexemes_lexemes t, ofLexemes_allLexemes ts,
      List.append_assoc]
    rfl

end

theorem read_of_lex {text : String} {t : Tree} (hlex : lex text.toList = some t.lexemes) :
    read text = some t := by
  have htree := ofLexemes_lexemes t [] [] []
  rw [List.append_nil] at htree
  rw [read, hlex]
  simp [htree, ofLexemes]

end Tree

end Codegen.Wasm
