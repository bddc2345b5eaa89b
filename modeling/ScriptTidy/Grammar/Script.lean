/-
The grammar of whole scripts. `parseGoal` reads each kind of part with the parser for it, down to a
bounded depth; `concreteTree` reads a text to its end, with its comments as further parts of the
root. Scripts and modules are read alike.
-/
import ScriptTidy.Grammar.Markup
import ScriptTidy.Grammar.Statement

namespace ScriptTidy.Grammar

open Parsing

/-- Reads a part, with the parser for what lies below it. -/
def step (below : Below) : Goal → Parsing Cst
  | .statement => Statement.statement below
  | .expression allowIn => Expression.expression below allowIn
  | .assignment allowIn => Expression.assignment below allowIn
  | .binding => Expression.binding below
  | .construction => Expression.construction below
  | .markup => Markup.markup below

/-- Reads a part that may nest up to the given depth. -/
def parseGoal : Nat → Goal → Parsing Cst
  | 0, _ => throw .tooDeep
  | depth + 1, goal => step (parseGoal depth) goal

/-- Statements up to the end of the text. -/
def statements (depth : Nat) : Parsing (List Cst) :=
  collect do
    skipMarkupComments
    if (← token).kind = .finish then return none
    else return some (← parseGoal depth .statement)

/-- Where a parser starts: before the first token. -/
def State.initial (text : List Char) : State :=
  let start : Cursor := ⟨text, 0⟩
  stateAt ⟨⟨.invalid, "", 0, 0, false⟩, start, start, 0, [], text.length + 1⟩ start 0

/-- The concrete tree of a text that may nest up to the given depth. -/
def concreteTree (depth : Nat) (text : String) : Except GrammarFault Cst := do
  let (body, s) ← (statements depth).run (.initial text.toList)
  let root := makeNode "program" 0 s.token.stop (body ++ s.comments.reverse)
  if holdsStrayDefault root then throw (.unexpected 0 "=") else return root

end ScriptTidy.Grammar
