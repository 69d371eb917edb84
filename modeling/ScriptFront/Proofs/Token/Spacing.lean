import ScriptFront.Proofs.Token.Stuck

/-!
# Spacing between tokens

What stands between tokens without being one is blanks and comments (`Spacing`). A scan that meets it
goes on behind it as if it were not there (`Scan.ofText_append_spacing`). After a line break, where
nothing that was begun before goes on, any spacing can stand between two sources: their tokens follow
each other, and a fault of the second is the fault of both together (`tokenize_append_spacing`).
-/

namespace ScriptFront

/-- Blanks and comments, each comment with the line break that ends it. -/
inductive Spacing : List Char → Prop where
  | nil : Spacing []
  | blank {c : Char} {cs : List Char} (hc : Text.isBlank c = true) (hcs : Spacing cs) : Spacing (c :: cs)
  | comment {line cs : List Char} (hline : '\n' ∉ line) (hcs : Spacing cs) :
      Spacing ('/' :: '/' :: (line ++ '\n' :: cs))

/-- A line break with spacing behind it. -/
def Separates (w : List Char) : Prop := ∃ cs, w = '\n' :: cs ∧ Spacing cs

/-- A comment is taken up to the line break. -/
theorem Rule.first?_comment_append {line : List Char} (hline : '\n' ∉ line) (rest : List Char) :
    first? (('/' :: '/' :: line) ++ '\n' :: rest) = some (comment, ('/' :: '/' :: line).length) := by
  refine first?_of_append [word, number, blank, quoted] _ rfl ?_ ?_
  · apply matchLength?_comment_eq_some.2
    refine ⟨line ++ '\n' :: rest, rfl, ?_⟩
    rw [takeWhile_append_of_stop (bne_of_not_mem hline) (by simp), List.length_cons, List.length_cons]
    omega
  · intro other hother
    simp only [List.mem_cons, List.not_mem_nil, or_false] at hother
    rcases hother with rfl | rfl | rfl | rfl <;> rfl

namespace Scan

/-- A comment in front makes no difference from its line break on. -/
theorem ofText_comment_append {line : List Char} (hline : '\n' ∉ line) (rest : List Char) :
    (ofText (('/' :: '/' :: line) ++ '\n' :: rest)).tokens = (ofText rest).tokens ∧
      (ofText (('/' :: '/' :: line) ++ '\n' :: rest)).rest = (ofText rest).rest := by
  obtain ⟨htokens, hrest⟩ := ofText_append_of_first? (Rule.first?_comment_append hline rest)
  obtain ⟨htokens', hrest'⟩ := ofText_cons_of_isBlank (c := '\n') rest (by decide)
  exact ⟨htokens.trans htokens', hrest.trans hrest'⟩

/-- Spacing in front makes no difference. -/
theorem ofText_append_spacing {w : List Char} (hw : Spacing w) (rest : List Char) :
    (ofText (w ++ rest)).tokens = (ofText rest).tokens ∧
      (ofText (w ++ rest)).rest = (ofText rest).rest := by
  induction hw with
  | nil => exact ⟨rfl, rfl⟩
  | @blank c cs hc _ ih =>
    obtain ⟨htokens, hrest⟩ := ofText_cons_of_isBlank (cs ++ rest) hc
    exact ⟨htokens.trans ih.1, hrest.trans ih.2⟩
  | @comment line cs hline _ ih =>
    have hsplit : '/' :: '/' :: (line ++ '\n' :: cs) ++ rest =
        ('/' :: '/' :: line) ++ '\n' :: (cs ++ rest) := by simp
    obtain ⟨htokens, hrest⟩ := ofText_comment_append hline (cs ++ rest)
    rw [hsplit]
    exact ⟨htokens.trans ih.1, hrest.trans ih.2⟩

/-- A text that is scanned to its end is scanned in the same way before a line break and spacing, and what
stands behind is scanned as if it stood alone. -/
theorem ofText_append_separates {cs w : List Char} (hcs : (ofText cs).rest = []) (hw : Separates w)
    (rest : List Char) :
    (ofText (cs ++ w ++ rest)).tokens = (ofText cs).tokens ++ (ofText rest).tokens ∧
      (ofText (cs ++ w ++ rest)).rest = (ofText rest).rest := by
  obtain ⟨ds, rfl, hds⟩ := hw
  obtain ⟨htokens, hrest⟩ := ofText_append_line (ds ++ rest) hcs
  obtain ⟨htokens', hrest'⟩ := ofText_append_spacing hds rest
  rw [List.append_assoc, List.cons_append, htokens, htokens']
  exact ⟨rfl, hrest.trans hrest'⟩

end Scan

/-- If a source has tokens, then with a line break and any spacing between it and another source the
answer is that for the other source, with the tokens of the first in front of its tokens. -/
theorem tokenize_append_spacing {a w : String} {ta : List Token}
    (ha : tokenize a = .ok (ta ++ [.endOfInput])) (hw : Separates w.toList) (b : String) :
    tokenize (a ++ w ++ b) =
      match tokenize b with
      | .ok tb => .ok (ta ++ tb)
      | .error cause => .error cause := by
  obtain ⟨hrest, htokens⟩ := tokenize_eq_ok_iff.1 ha
  obtain ⟨rfl, -⟩ := List.append_inj' htokens rfl
  obtain ⟨htokens, hleft⟩ := Scan.ofText_append_separates hrest hw b.toList
  cases hb : tokenize b with
  | ok tb =>
    obtain ⟨hrest, rfl⟩ := tokenize_eq_ok_iff.1 hb
    apply tokenize_eq_ok_iff.2
    rw [String.toList_append, String.toList_append, hleft, htokens, List.append_assoc]
    exact ⟨hrest, rfl⟩
  | error cause =>
    obtain ⟨hne, rfl⟩ := tokenize_eq_error_iff.1 hb
    apply tokenize_eq_error_iff.2
    rw [String.toList_append, String.toList_append, hleft]
    exact ⟨hne, rfl⟩

/-- Between a number with a comment behind it and a fraction without its whole part: a line break, an em
space, and a comment with half a string in it. A quote that nothing closes is left over as it stands. -/
theorem tokenize_append_spacing_comment :
    tokenize ("1//2" ++ "\n\u2003//\"\n\t" ++ ".5") =
        .ok [⟨.number, "1"⟩, ⟨.mark .dot, "."⟩, ⟨.number, "5"⟩, .endOfInput] ∧
      tokenize ("1//2" ++ "\n\u2003//\"\n\t" ++ "x \"y") = .error (.unrecognised "\"y") := by
  have ha : tokenize "1//2" = .ok ([⟨.number, "1"⟩] ++ [.endOfInput]) := by with_unfolding_all rfl
  have hcomment : Spacing ('/' :: '/' :: (['"'] ++ '\n' :: ['\t'])) :=
    .comment (by decide) (.blank (by decide) .nil)
  have hw : Separates "\n\u2003//\"\n\t".toList := ⟨_, rfl, .blank (by decide) hcomment⟩
  have hb : tokenize ".5" = .ok [⟨.mark .dot, "."⟩, ⟨.number, "5"⟩, .endOfInput] := by
    with_unfolding_all rfl
  have hb' : tokenize "x \"y" = .error (.unrecognised "\"y") := by with_unfolding_all rfl
  rw [tokenize_append_spacing ha hw, tokenize_append_spacing ha hw, hb, hb']
  exact ⟨rfl, rfl⟩

end ScriptFront
