import ScriptFront.Grammar.Tables
import ScriptFront.Parse.Basic

/-!
# Climbing by binding power

Both expressions and types are read in the same way: a form that the current token starts gives a first
operand, and it is continued for as long as the current token binds more tightly than the bound. The
grammar says which forms there are; what a form reads is given by `start` and `continue`.
-/

namespace ScriptFront.Parse

variable {σ τ α : Type}

/-- Continues `left` while the current token binds more tightly than `bound` (the loop of `climb`). -/
def extend (phrase : Phrase) (g : Grammar σ τ) (more : τ → Power → α → Parse α) (bound : Power) :
    α → Parse α :=
  loop fun left => do
    let token ← current
    let power := g.power token.kind
    if power ≤ bound then
      return .over left
    else
      match g.continues token.kind with
      | none => fail (.cannotContinue phrase token.kind token.lexeme)
      | some form =>
        record (.continued phrase token.kind power)
        return .again (← more form power left)

/-- Reads the first operand of a phrase (`climb` up to its loop). -/
def operand (phrase : Phrase) (g : Grammar σ τ) (start : σ → Parse α) : Parse α := do
  let token ← current
  match g.starts token.kind with
  | none => fail (.cannotStart phrase token.kind token.lexeme)
  | some form => start form

/-- Reads a phrase whose operators bind more tightly than `bound` (`climb`). -/
def climb (phrase : Phrase) (g : Grammar σ τ) (start : σ → Parse α)
    (more : τ → Power → α → Parse α) (bound : Power) : Parse α := do
  extend phrase g more bound (← operand phrase g start)

end ScriptFront.Parse
