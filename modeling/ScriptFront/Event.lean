import ScriptFront.Fault
import ScriptFront.Grammar.Power

/-!
# Events

What a run reports while it works, in the order in which it happens.
-/

namespace ScriptFront

/-- Something that happened in a run. -/
inductive Event where
  /-- The scanner made a token (`push`). -/
  | pushed (token : Token)
  /-- The scanner reached the end, having made so many tokens (`tokenize`). -/
  | tokenized (tokens : Nat)
  /-- The token of this index and kind was passed (`advance`). -/
  | advanced (index : Nat) (kind : Kind)
  /-- A statement form was found for a token of this kind (`parse_stmt`). -/
  | statement (kind : Kind)
  /-- A phrase goes on with a token of this kind, at this power (`climb`). -/
  | continued (phrase : Phrase) (kind : Kind) (power : Power)
  /-- The parser reached the end, having read so many statements (`parse`). -/
  | parsed (statements : Nat)
deriving DecidableEq, Repr

end ScriptFront
