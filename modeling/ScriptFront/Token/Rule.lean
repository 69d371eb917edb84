import ScriptFront.Text.Blank
import ScriptFront.Token.Basic
import ScriptFront.Token.Escape

/-!
# Scanning rules

A rule says which texts it recognises at the front of the source and what token, if any, such a text
becomes. `Rule.matchLength?` gives the number of characters a rule takes; it is never zero
(`Rule.matchLength?_pos`) and never more than there are (`Rule.matchLength?_le`), so a scan that
follows the rules always moves on and never runs past the end.

The rules are tried in the order of `Rule.all`, and the first that applies is taken.
-/

namespace ScriptFront

/-- A letter of the names: the ASCII letters and the underscore. -/
def isNameStart (c : Char) : Bool := c.isAlpha || c == '_'

/-- A character inside a name. -/
def isNamePart (c : Char) : Bool := c.isAlphanum || c == '_'

/-- What can stand at the front of a source text. -/
inductive Rule where
  /-- A name or a reserved word. -/
  | word
  /-- Digits, with a fraction if a point and a digit follow. -/
  | number
  /-- Blank characters. -/
  | blank
  /-- Everything from a double quote to the next one. -/
  | quoted
  /-- Two slashes and the rest of the line. -/
  | comment
  /-- The spelling of a mark. -/
  | mark (m : Mark)
deriving DecidableEq, Repr

namespace Rule

/-- The marks in the order in which they are tried: where one spelling begins another, the longer
comes first. -/
def marks : List Mark :=
  [.openBracket, .closeBracket, .openCurly, .closeCurly, .openParen, .closeParen, .equals,
   .notEquals, .not, .assign, .lessEquals, .less, .greaterEquals, .greater, .or, .and, .dotDot, .dot,
   .semicolon, .colon, .question, .comma, .plusPlus, .minusMinus, .plusEquals, .minusEquals, .plus,
   .dash, .slash, .star, .percent]

/-- The rules in the order in which they are tried (`PATTERNS`). -/
def all : List Rule := [word, number, blank, quoted, comment] ++ marks.map mark

/-- The number of characters of a fraction at the front: a point and at least one digit. -/
def fractionLength : List Char → Nat
  | '.' :: d :: cs => if d.isDigit then 2 + (cs.takeWhile Char.isDigit).length else 0
  | _ => 0

/-- How many characters the rule takes at the front of the text, if it applies. -/
def matchLength? : Rule → List Char → Option Nat
  | word, c :: cs => if isNameStart c then some (1 + (cs.takeWhile isNamePart).length) else none
  | number, c :: cs =>
    if c.isDigit then
      some (1 + (cs.takeWhile Char.isDigit).length + fractionLength (cs.dropWhile Char.isDigit))
    else none
  | blank, c :: cs =>
    if Text.isBlank c then some (1 + (cs.takeWhile Text.isBlank).length) else none
  | quoted, '"' :: cs =>
    if '"' ∈ cs then some (2 + (cs.takeWhile (· != '"')).length) else none
  | comment, '/' :: '/' :: cs => some (2 + (cs.takeWhile (· != '\n')).length)
  | mark m, cs => if m.spelling.isPrefixOf cs then some m.spelling.length else none
  | _, _ => none

/-- The token that a text taken by the rule becomes (`symbol_handler`, `number_handler`, `string_handler` and
`MK_DEFAULT_HANDLER`); blanks and comments become none (`skip_handler`). -/
def token? : Rule → List Char → Option Token
  | word, text => some ⟨.ofWord (String.ofList text), String.ofList text⟩
  | number, text => some ⟨.number, String.ofList text⟩
  | quoted, text => some ⟨.string, String.ofList (unescape (text.drop 1).dropLast)⟩
  | mark m, text => some ⟨.mark m, String.ofList text⟩
  | blank, _ | comment, _ => none

/-- The first rule that applies at the front of the text, and how many characters it takes (the search in
`tokenize`). -/
def first? (cs : List Char) : Option (Rule × Nat) :=
  all.findSome? fun rule => (rule.matchLength? cs).map (rule, ·)

/-! The length of a match. -/

/-- A list that has a member outside the class is longer than its first run inside the class. -/
theorem length_takeWhile_lt {p : Char → Bool} {cs : List Char} {c : Char} (h : c ∈ cs)
    (hc : p c = false) : (cs.takeWhile p).length < cs.length := by
  induction cs with
  | nil => simp at h
  | cons d cs ih =>
    by_cases hd : p d
    · rcases List.mem_cons.1 h with rfl | h
      · simp [hc] at hd
      · simpa [hd] using ih h
    · simp [hd]

theorem fractionLength_le (cs : List Char) : fractionLength cs ≤ cs.length := by
  unfold fractionLength
  split
  · next d cs =>
    split
    · have := (List.takeWhile_prefix Char.isDigit (l := cs)).length_le
      simp only [List.length_cons]
      omega
    · omega
  · omega

theorem matchLength?_pos {rule : Rule} {cs : List Char} {n : Nat}
    (h : rule.matchLength? cs = some n) : 0 < n := by
  unfold matchLength? at h
  split at h <;> (try split at h) <;> simp only [Option.some.injEq, reduceCtorEq] at h <;>
    (try omega)
  subst h
  exact List.length_pos_iff.2 (Mark.spelling_ne_nil _)

theorem matchLength?_le {rule : Rule} {cs : List Char} {n : Nat}
    (h : rule.matchLength? cs = some n) : n ≤ cs.length := by
  unfold matchLength? at h
  split at h
  · next c cs =>
    have := (List.takeWhile_prefix isNamePart (l := cs)).length_le
    split at h <;> simp only [Option.some.injEq, reduceCtorEq, List.length_cons] at h ⊢
    omega
  · next c cs =>
    have := congrArg List.length (List.takeWhile_append_dropWhile (p := Char.isDigit) (l := cs))
    have := fractionLength_le (cs.dropWhile Char.isDigit)
    split at h <;> simp only [Option.some.injEq, reduceCtorEq, List.length_cons,
      List.length_append] at *
    omega
  · next c cs =>
    have := (List.takeWhile_prefix Text.isBlank (l := cs)).length_le
    split at h <;> simp only [Option.some.injEq, reduceCtorEq, List.length_cons] at h ⊢
    omega
  · next cs =>
    split at h <;> simp only [Option.some.injEq, reduceCtorEq, List.length_cons] at h ⊢
    next hq =>
      have := length_takeWhile_lt (p := (· != '"')) hq (by simp)
      omega
  · next cs =>
    have := (List.takeWhile_prefix (· != '\n') (l := cs)).length_le
    simp only [Option.some.injEq, List.length_cons] at h ⊢
    omega
  · split at h <;> simp only [Option.some.injEq, reduceCtorEq] at h
    next hp => exact h ▸ (List.isPrefixOf_iff_prefix.1 hp).length_le
  · simp at h

theorem first?_eq_some {cs : List Char} {rule : Rule} {n : Nat} (h : first? cs = some (rule, n)) :
    rule ∈ all ∧ rule.matchLength? cs = some n := by
  obtain ⟨rule', hmem, hmap⟩ := List.exists_of_findSome?_eq_some h
  obtain ⟨n', hn', heq⟩ := Option.map_eq_some_iff.1 hmap
  simp only [Prod.mk.injEq] at heq
  obtain ⟨rfl, rfl⟩ := heq
  exact ⟨hmem, hn'⟩

/-- What the first rule that applies leaves over is shorter than the text. -/
theorem length_sub_lt {cs : List Char} {rule : Rule} {n : Nat} (h : first? cs = some (rule, n)) :
    cs.length - n < cs.length := by
  have := matchLength?_pos (first?_eq_some h).2
  have := matchLength?_le (first?_eq_some h).2
  omega

end Rule

end ScriptFront
