import ScriptFront.Token.Rule
import ScriptFront.Fault

/-!
# Scanning

A scan cuts a source text into segments, each the text that one rule took, until the text is used up
or no rule applies. The segments and the part left over make up the text again (`Scan.ofText_append`).
The tokens are the tokens of the segments, closed by the end token.
-/

namespace ScriptFront

/-- A text and the rule that took it. -/
structure Segment where
  rule : Rule
  text : List Char
deriving DecidableEq, Repr

/-- The token a segment becomes, if any. -/
def Segment.token? (g : Segment) : Option Token := g.rule.token? g.text

/-- The segments cut off a text, and what is left where no rule applies. -/
structure Scan where
  segments : List Segment
  rest : List Char
deriving DecidableEq, Repr

namespace Scan

/-- Cuts segments off the front for as long as a rule applies. -/
def ofText (cs : List Char) : Scan :=
  match h : Rule.first? cs with
  | none => ⟨[], cs⟩
  | some (rule, n) =>
    have : cs.length - n < cs.length := Rule.length_sub_lt h
    let tail := ofText (cs.drop n)
    ⟨⟨rule, cs.take n⟩ :: tail.segments, tail.rest⟩
termination_by cs.length

/-- The tokens of the segments, in order. -/
def tokens (s : Scan) : List Token := s.segments.filterMap Segment.token?

/-- The segments followed by the rest are the scanned text. -/
theorem ofText_append (cs : List Char) :
    (ofText cs).segments.flatMap Segment.text ++ (ofText cs).rest = cs := by
  fun_induction ofText cs with
  | case1 cs h => simp
  | case2 cs rule n h _ tail ih =>
    have ih : tail.segments.flatMap Segment.text ++ tail.rest = cs.drop n := ih
    simp [ih]

/-- The tokens with the end token after them, or the fault that no rule applies to the rest. -/
def result (s : Scan) : Except Fault (List Token) :=
  if s.rest = [] then .ok (s.tokens ++ [.endOfInput])
  else .error (.unrecognised (String.ofList s.rest))

end Scan

/-- The tokens of a source text, or the fault that stopped its scan (`tokenize`). -/
def tokenize (source : String) : Except Fault (List Token) :=
  (Scan.ofText source.toList).result

end ScriptFront
