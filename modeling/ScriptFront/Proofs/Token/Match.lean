import Mathlib.Data.List.TakeWhile
import ScriptFront.Token.Scan

/-!
# Blanks end matches

No rule but that for comments looks past a blank for more, and that one stops at the end of the line.
So what a rule takes off a text it also takes off if a blank and anything else is put behind the text
(`Rule.first?_append_blank`). Blanks in front of a text make no difference to its tokens
(`Scan.ofText_dropBlanks`), and lines put behind a text are scanned as if they stood alone
(`Scan.ofText_append_line`).
-/

namespace ScriptFront

/-! ## Classes of characters -/

/-- The code points of the letters. -/
theorem toNat_of_isAlpha {c : Char} (h : c.isAlpha = true) :
    (65 ≤ c.toNat ∧ c.toNat ≤ 90) ∨ (97 ≤ c.toNat ∧ c.toNat ≤ 122) := by
  rcases Bool.or_eq_true_iff.1 h with h | h
  · exact .inl (of_decide_eq_true h)
  · obtain ⟨hlow, hhigh⟩ := Bool.and_eq_true_iff.1 h
    exact .inr ⟨of_decide_eq_true hlow, of_decide_eq_true hhigh⟩

/-- The code points of the digits. -/
theorem toNat_of_isDigit {c : Char} (h : c.isDigit = true) : 48 ≤ c.toNat ∧ c.toNat ≤ 57 := by
  obtain ⟨hlow, hhigh⟩ := Bool.and_eq_true_iff.1 h
  exact ⟨of_decide_eq_true hlow, of_decide_eq_true hhigh⟩

/-- The code points of the characters of names. -/
theorem toNat_of_isNamePart {c : Char} (h : isNamePart c = true) :
    (48 ≤ c.toNat ∧ c.toNat ≤ 57) ∨ (65 ≤ c.toNat ∧ c.toNat ≤ 90) ∨ c.toNat = 95 ∨
      (97 ≤ c.toNat ∧ c.toNat ≤ 122) := by
  simp only [isNamePart, Char.isAlphanum, Bool.or_eq_true, beq_iff_eq] at h
  rcases h with (h | h) | rfl
  · have hletter := toNat_of_isAlpha h
    omega
  · exact .inl (toNat_of_isDigit h)
  · exact .inr (.inr (.inl rfl))

theorem isNamePart_of_isBlank {c : Char} (h : Text.isBlank c = true) : isNamePart c = false := by
  obtain ⟨r, hr, hlo, hhi⟩ := Text.inRanges_iff.1 h
  by_cases hname : isNamePart c = true
  · have hrange := toNat_of_isNamePart hname
    simp only [Text.blankRanges, List.mem_cons, List.not_mem_nil, or_false] at hr
    rcases hr with rfl | rfl | rfl | rfl | rfl | rfl | rfl | rfl | rfl | rfl <;>
      simp only at hlo hhi <;> omega
  · simpa using hname

theorem isNameStart_of_isBlank {c : Char} (h : Text.isBlank c = true) : isNameStart c = false := by
  have hpart := isNamePart_of_isBlank h
  simp only [isNamePart, Char.isAlphanum, Bool.or_eq_false_iff] at hpart
  simp [isNameStart, hpart]

theorem isDigit_of_isBlank {c : Char} (h : Text.isBlank c = true) : c.isDigit = false := by
  have hpart := isNamePart_of_isBlank h
  simp only [isNamePart, Char.isAlphanum, Bool.or_eq_false_iff] at hpart
  exact hpart.1.2

theorem isNameStart_of_isDigit {c : Char} (h : c.isDigit = true) : isNameStart c = false := by
  have hdigit := toNat_of_isDigit h
  by_cases hstart : isNameStart c = true
  · simp only [isNameStart, Bool.or_eq_true, beq_iff_eq] at hstart
    rcases hstart with hstart | rfl
    · have hletter := toNat_of_isAlpha hstart
      omega
    · exact absurd h (by decide)
  · simpa using hstart

theorem Mark.isBlank_of_mem_spelling {m : Mark} : ∀ c ∈ m.spelling, Text.isBlank c = false := by
  have hall : m.spelling.all (fun c => !Text.isBlank c) = true := by cases m <;> rfl
  simpa using hall

/-! ## Runs of a class -/

section Runs

variable {p : Char → Bool} {c : Char} {cs rest : List Char}

theorem takeWhile_append_stop (hc : p c = false) :
    (cs ++ c :: rest).takeWhile p = cs.takeWhile p := by
  rw [List.takeWhile_append]
  split
  · next h =>
    rw [List.takeWhile_cons_of_neg (by simp [hc]), List.append_nil]
    exact ((List.takeWhile_prefix p).eq_of_length h).symm
  · rfl

theorem dropWhile_append_stop (hc : p c = false) :
    (cs ++ c :: rest).dropWhile p = cs.dropWhile p ++ c :: rest := by
  rw [List.dropWhile_append]
  split
  · next h => simp [List.isEmpty_iff.1 h, hc]
  · rfl

end Runs

namespace Rule

variable {rule : Rule} {cs rest : List Char} {c : Char} {n : Nat}

/-! ## What a rule takes -/

theorem fractionLength_of_ne (h : c ≠ '.') : fractionLength (c :: cs) = 0 := by
  unfold fractionLength
  split
  · next heq =>
    injection heq with hc
    exact absurd hc h
  · rfl

theorem fractionLength_append_blank (hc : Text.isBlank c = true) :
    fractionLength (cs ++ c :: rest) = fractionLength cs := by
  have hdigit := isDigit_of_isBlank hc
  cases cs with
  | nil =>
    refine fractionLength_of_ne ?_
    rintro rfl
    exact absurd hc (by decide)
  | cons d ds =>
    by_cases hd : d = '.'
    · subst hd
      cases ds with
      | nil => simp [fractionLength, hdigit]
      | cons e es => simp [fractionLength, takeWhile_append_stop hdigit]
    · rw [List.cons_append, fractionLength_of_ne hd, fractionLength_of_ne hd]

/-- A text without blanks begins a text if and only if it does so before the first blank. -/
theorem isPrefixOf_append_blank {text : List Char} (hc : Text.isBlank c = true)
    (htext : ∀ d ∈ text, Text.isBlank d = false) :
    text.isPrefixOf (cs ++ c :: rest) = text.isPrefixOf cs := by
  induction text generalizing cs with
  | nil => simp
  | cons d ds ih =>
    obtain ⟨hd, hds⟩ := List.forall_mem_cons.1 htext
    cases cs with
    | nil =>
      have hne : (d == c) = false := by
        rw [beq_eq_false_iff_ne]
        rintro rfl
        simp [hd] at hc
      simp [List.isPrefixOf, hne]
    | cons e es => simp [List.isPrefixOf, ih hds]

/-- Of the rules that stop at blanks, each takes the same with a blank and anything else behind. -/
theorem matchLength?_append_blank (hc : Text.isBlank c = true)
    (hrule : rule = word ∨ rule = number ∨ ∃ m, rule = mark m) :
    rule.matchLength? (cs ++ c :: rest) = rule.matchLength? cs := by
  rcases hrule with rfl | rfl | ⟨m, rfl⟩
  · cases cs with
    | nil => simp [matchLength?, isNameStart_of_isBlank hc]
    | cons d ds => simp [matchLength?, takeWhile_append_stop (isNamePart_of_isBlank hc)]
  · have hdigit := isDigit_of_isBlank hc
    cases cs with
    | nil => simp [matchLength?, hdigit]
    | cons d ds =>
      simp only [matchLength?, List.cons_append, takeWhile_append_stop hdigit,
        dropWhile_append_stop hdigit, fractionLength_append_blank hc]
  · simp only [matchLength?, isPrefixOf_append_blank hc m.isBlank_of_mem_spelling]

/-- Only the rule for strings applies at a quote. -/
theorem eq_quoted_of_matchLength? (h : rule.matchLength? ('"' :: cs) = some n) : rule = quoted := by
  cases rule with
  | quoted => rfl
  | mark m => cases m <;> simp [matchLength?, Mark.spelling, List.isPrefixOf] at h
  | word => simp [matchLength?, show isNameStart '"' = false from rfl] at h
  | number => simp [matchLength?, show '"'.isDigit = false from rfl] at h
  | blank => simp [matchLength?, show Text.isBlank '"' = false from rfl] at h
  | comment => simp [matchLength?] at h

theorem matchLength?_quoted_eq_some : quoted.matchLength? cs = some n ↔
    ∃ ds, cs = '"' :: ds ∧ '"' ∈ ds ∧ 2 + (ds.takeWhile (· != '"')).length = n := by
  constructor
  · intro h
    unfold matchLength? at h
    split at h
    case h_4 ds _ =>
      split at h
      · next hds => exact ⟨ds, rfl, hds, Option.some.inj h⟩
      · cases h
    all_goals contradiction
  · rintro ⟨ds, rfl, hds, rfl⟩
    simp [matchLength?, hds]

theorem matchLength?_comment_eq_some : comment.matchLength? cs = some n ↔
    ∃ ds, cs = '/' :: '/' :: ds ∧ 2 + (ds.takeWhile (· != '\n')).length = n := by
  constructor
  · intro h
    unfold matchLength? at h
    split at h
    case h_5 ds _ => exact ⟨ds, rfl, Option.some.inj h⟩
    all_goals contradiction
  · rintro ⟨ds, rfl, rfl⟩
    simp [matchLength?]

/-- What a rule takes, it takes with a blank and anything else behind; for a comment the blank has to
end the line, and blanks themselves go on. -/
theorem matchLength?_append_of_eq_some (hc : Text.isBlank c = true) (hblank : rule ≠ blank)
    (hcomment : rule = comment → c = '\n') (h : rule.matchLength? cs = some n) :
    rule.matchLength? (cs ++ c :: rest) = some n := by
  cases rule with
  | word => rw [matchLength?_append_blank hc (.inl rfl), h]
  | number => rw [matchLength?_append_blank hc (.inr (.inl rfl)), h]
  | mark m => rw [matchLength?_append_blank hc (.inr (.inr ⟨m, rfl⟩)), h]
  | blank => exact absurd rfl hblank
  | quoted =>
    obtain ⟨ds, rfl, hds, rfl⟩ := matchLength?_quoted_eq_some.1 h
    refine matchLength?_quoted_eq_some.2 ⟨ds ++ c :: rest, rfl, List.mem_append_left _ hds, ?_⟩
    have hlt := length_takeWhile_lt (p := (· != '"')) hds (by simp)
    rw [List.takeWhile_append, if_neg (by omega)]
  | comment =>
    obtain ⟨ds, rfl, rfl⟩ := matchLength?_comment_eq_some.1 h
    refine matchLength?_comment_eq_some.2 ⟨ds ++ c :: rest, rfl, ?_⟩
    rw [takeWhile_append_stop (by simp [hcomment rfl])]

/-- Where a rule does not apply, it does not with a blank and anything else behind, unless this closes
a string. -/
theorem matchLength?_append_of_eq_none (hc : Text.isBlank c = true) (hcs : cs ≠ [])
    (hquoted : rule = quoted → cs.head? ≠ some '"') (h : rule.matchLength? cs = none) :
    rule.matchLength? (cs ++ c :: rest) = none := by
  cases rule with
  | word => rw [matchLength?_append_blank hc (.inl rfl), h]
  | number => rw [matchLength?_append_blank hc (.inr (.inl rfl)), h]
  | mark m => rw [matchLength?_append_blank hc (.inr (.inr ⟨m, rfl⟩)), h]
  | blank =>
    cases cs with
    | nil => exact absurd rfl hcs
    | cons d ds =>
      simp only [matchLength?, List.cons_append] at h ⊢
      split at h
      · cases h
      · next hd => rw [if_neg hd]
  | quoted =>
    refine Option.eq_none_iff_forall_ne_some.2 fun n hn => ?_
    obtain ⟨ds, heq, -, -⟩ := matchLength?_quoted_eq_some.1 hn
    cases cs with
    | nil => exact hcs rfl
    | cons d es =>
      injection heq with hd
      exact hquoted rfl (by rw [hd]; rfl)
  | comment =>
    refine Option.eq_none_iff_forall_ne_some.2 fun n hn => ?_
    obtain ⟨ds, heq, -⟩ := matchLength?_comment_eq_some.1 hn
    match cs with
    | [] => exact hcs rfl
    | [d] =>
      injection heq with _ heq
      injection heq with heq
      rw [heq] at hc
      exact absurd hc (by decide)
    | d :: e :: es =>
      injection heq with hd heq
      injection heq with he _
      subst hd he
      cases h

/-- The first rule that applies comes after some that do not. -/
theorem first?_of_append (before after : List Rule)
    (hall : all = before ++ rule :: after) (hmatch : rule.matchLength? cs = some n)
    (hbefore : ∀ other ∈ before, other.matchLength? cs = none) : first? cs = some (rule, n) := by
  refine List.findSome?_eq_some_iff.2 ⟨before, rule, after, hall, ?_, fun other hother => ?_⟩
  · rw [hmatch, Option.map_some]
  · rw [hbefore other hother, Option.map_none]

theorem first?_of_isBlank (hc : Text.isBlank c = true) :
    first? (c :: cs) = some (blank, 1 + (cs.takeWhile Text.isBlank).length) := by
  refine first?_of_append [word, number] _ rfl ?_ ?_
  · rw [matchLength?, if_pos hc]
  · simp [matchLength?, isNameStart_of_isBlank hc, isDigit_of_isBlank hc]

/-- The first rule that applies takes the same with a blank and anything else behind. -/
theorem first?_append_blank (rest : List Char) (hc : Text.isBlank c = true) (hblank : rule ≠ blank)
    (hcomment : rule = comment → c = '\n') (h : first? cs = some (rule, n)) :
    first? (cs ++ c :: rest) = some (rule, n) := by
  obtain ⟨before, rule', after, hall, hrule, hbefore⟩ := List.findSome?_eq_some_iff.1 h
  obtain ⟨n', hmatch, heq⟩ := Option.map_eq_some_iff.1 hrule
  cases heq
  refine List.findSome?_eq_some_iff.2 ⟨before, rule, after, hall, ?_, fun other hother => ?_⟩
  · rw [matchLength?_append_of_eq_some hc hblank hcomment hmatch]
    rfl
  · have hnone := Option.map_eq_none_iff.1 (hbefore other hother)
    refine Option.map_eq_none_iff.2 (matchLength?_append_of_eq_none hc ?_ ?_ hnone)
    · rintro rfl
      have hpos := matchLength?_pos hmatch
      have hle := matchLength?_le hmatch
      exact absurd hpos (by simpa using hle)
    · -- at a quote only a whole string is taken, so the rule that applies is that for strings
      rintro rfl hquote
      obtain ⟨ds, rfl⟩ := List.head?_eq_some_iff.1 hquote
      obtain rfl := eq_quoted_of_matchLength? hmatch
      rw [hnone] at hmatch
      cases hmatch

end Rule

/-! ## Scanning on -/

namespace Scan

variable {rule : Rule} {cs rest : List Char} {c : Char}

/-- A text to which a rule applies: the rule's token comes first, and the scan goes on after it. -/
theorem ofText_of_first? {n : Nat} (h : Rule.first? cs = some (rule, n)) :
    (ofText cs).tokens = (rule.token? (cs.take n)).toList ++ (ofText (cs.drop n)).tokens ∧
      (ofText cs).rest = (ofText (cs.drop n)).rest := by
  rw [ofText]
  split
  · next heq => rw [h] at heq; cases heq
  · next rule' n' heq =>
    rw [h] at heq
    cases heq
    refine ⟨?_, rfl⟩
    simp only [tokens, List.filterMap_cons, Segment.token?]
    cases rule.token? (cs.take n) <;> rfl

theorem ofText_append_of_first? (h : Rule.first? (cs ++ rest) = some (rule, cs.length)) :
    (ofText (cs ++ rest)).tokens = (rule.token? cs).toList ++ (ofText rest).tokens ∧
      (ofText (cs ++ rest)).rest = (ofText rest).rest := by
  have hscan := ofText_of_first? h
  rwa [List.take_left, List.drop_left] at hscan

@[simp] theorem ofText_nil : ofText [] = ⟨[], []⟩ := by
  rw [ofText]
  rfl

/-- Blanks in front make no difference. -/
theorem ofText_dropBlanks (cs : List Char) :
    (ofText cs).tokens = (ofText (cs.dropWhile Text.isBlank)).tokens ∧
      (ofText cs).rest = (ofText (cs.dropWhile Text.isBlank)).rest := by
  cases cs with
  | nil => simp
  | cons c cs =>
    by_cases hc : Text.isBlank c = true
    · have hsplit : c :: cs = (c :: cs.takeWhile Text.isBlank) ++ cs.dropWhile Text.isBlank := by
        rw [List.cons_append, List.takeWhile_append_dropWhile]
      have hfirst : Rule.first? ((c :: cs.takeWhile Text.isBlank) ++ cs.dropWhile Text.isBlank) =
          some (.blank, (c :: cs.takeWhile Text.isBlank).length) := by
        rw [← hsplit, Rule.first?_of_isBlank hc, List.length_cons, Nat.add_comm]
      have hscan := ofText_append_of_first? hfirst
      rw [← hsplit] at hscan
      rw [List.dropWhile_cons_of_pos hc]
      exact hscan
    · rw [List.dropWhile_cons_of_neg hc]
      exact ⟨rfl, rfl⟩

/-- One blank in front makes no difference. -/
theorem ofText_cons_of_isBlank (cs : List Char) (hc : Text.isBlank c = true) :
    (ofText (c :: cs)).tokens = (ofText cs).tokens ∧ (ofText (c :: cs)).rest = (ofText cs).rest := by
  have hfront := ofText_dropBlanks (c :: cs)
  rw [List.dropWhile_cons_of_pos hc] at hfront
  have hback := ofText_dropBlanks cs
  exact ⟨hfront.1.trans hback.1.symm, hfront.2.trans hback.2.symm⟩

theorem ofText_append_of_isBlank (hcs : ∀ c ∈ cs, Text.isBlank c = true) (rest : List Char) :
    (ofText (cs ++ rest)).tokens = (ofText rest).tokens ∧
      (ofText (cs ++ rest)).rest = (ofText rest).rest := by
  induction cs with
  | nil => exact ⟨rfl, rfl⟩
  | cons c cs ih =>
    obtain ⟨hc, hcs⟩ := List.forall_mem_cons.1 hcs
    have hfront := ofText_cons_of_isBlank (cs ++ rest) hc
    exact ⟨hfront.1.trans (ih hcs).1, hfront.2.trans (ih hcs).2⟩

/-- What the rule for blanks takes is blank. -/
theorem isBlank_of_matchLength? {n : Nat} (h : Rule.blank.matchLength? cs = some n) :
    ∀ c ∈ cs.take n, Text.isBlank c = true := by
  cases cs with
  | nil => cases h
  | cons c cs =>
    rw [Rule.matchLength?] at h
    split at h
    · next hc =>
      obtain rfl := Option.some.inj h
      rw [Nat.add_comm, List.take_succ_cons,
        ← List.prefix_iff_eq_take.1 (List.takeWhile_prefix Text.isBlank)]
      exact List.forall_mem_cons.2 ⟨hc, fun d hd => List.mem_takeWhile_imp hd⟩
    · cases h

/-- One step of a scan is the same before a line break. -/
theorem ofText_step_append_line {n : Nat} (ds : List Char)
    (h : Rule.first? cs = some (rule, n)) :
    (ofText (cs ++ '\n' :: ds)).tokens =
        (rule.token? (cs.take n)).toList ++ (ofText (cs.drop n ++ '\n' :: ds)).tokens ∧
      (ofText (cs ++ '\n' :: ds)).rest = (ofText (cs.drop n ++ '\n' :: ds)).rest := by
  have hmatch := (Rule.first?_eq_some h).2
  by_cases hblank : rule = .blank
  · -- blanks run on into the line break, so the step itself may be longer
    subst hblank
    have hscan := ofText_append_of_isBlank (isBlank_of_matchLength? hmatch) (cs.drop n ++ '\n' :: ds)
    rwa [← List.append_assoc, List.take_append_drop] at hscan
  · have hle := Rule.matchLength?_le hmatch
    have hscan := ofText_of_first?
      (Rule.first?_append_blank ds (c := '\n') (by decide) hblank (fun _ => rfl) h)
    rwa [List.take_append_of_le_length hle, List.drop_append_of_le_length hle] at hscan

/-- A text that is scanned to its end is scanned in the same way before a line break, and what stands
on the lines after it is scanned as if it stood alone. -/
theorem ofText_append_line {cs : List Char} (ds : List Char) (h : (ofText cs).rest = []) :
    (ofText (cs ++ '\n' :: ds)).tokens = (ofText cs).tokens ++ (ofText ds).tokens ∧
      (ofText (cs ++ '\n' :: ds)).rest = (ofText ds).rest := by
  generalize hlength : cs.length = k
  induction k using Nat.strongRecOn generalizing cs with
  | ind k ih =>
    cases hfirst : Rule.first? cs with
    | none =>
      have hcs : cs = [] := by
        rw [ofText] at h
        split at h
        · exact h
        · next heq => rw [hfirst] at heq; cases heq
      subst hcs
      rw [ofText_nil]
      exact ofText_cons_of_isBlank ds (by decide)
    | some result =>
      obtain ⟨rule, n⟩ := result
      have hscan := ofText_of_first? hfirst
      have hlt := Rule.length_sub_lt hfirst
      have hrest := ih (cs.drop n).length (by rw [List.length_drop]; omega) (hscan.2.symm.trans h) rfl
      have hstep := ofText_step_append_line ds hfirst
      rw [hstep.1, hstep.2, hrest.1, hrest.2, hscan.1, List.append_assoc]
      exact ⟨rfl, rfl⟩

end Scan

end ScriptFront
