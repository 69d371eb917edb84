import ScriptFront.Proofs.Token.Image

/-!
# The longest text is taken

Each rule is about certain texts (`Rule.Accepts`), and off the front of a text it takes the longest of
these (`Rule.matchLength?_eq_some_iff`). Rules for words, numbers, blanks and strings have no first
character in common with any other; of the rest the order of the rules puts those with the longer texts
first (`Rule.all_pairwise_outruns`). So the first rule that applies is the one that takes most, and the
only one that takes so much (`Rule.first?_eq_some_iff`). A text that can be scanned to its end is cut up
in this way throughout (`tokenize_longest`).
-/

namespace ScriptFront

namespace Rule

/-- The texts that a rule is about. -/
inductive Accepts : Rule → List Char → Prop where
  | word {c : Char} {cs : List Char} (hc : isNameStart c = true) (hcs : ∀ d ∈ cs, isNamePart d = true) :
      Accepts word (c :: cs)
  | number {cs : List Char} (h : IsNumeral cs) : Accepts number cs
  | blank {cs : List Char} (hne : cs ≠ []) (hcs : ∀ c ∈ cs, Text.isBlank c = true) : Accepts blank cs
  | quoted {cs : List Char} (hcs : '"' ∉ cs) : Accepts quoted ('"' :: (cs ++ ['"']))
  | comment {cs : List Char} (hcs : '\n' ∉ cs) : Accepts comment ('/' :: '/' :: cs)
  | mark (m : Mark) : Accepts (mark m) m.spelling

variable {rule other : Rule} {cs text rest : List Char} {c : Char} {n : Nat}

/-! ## What one rule takes -/

/-- A character outside the class ends a run that lies in the class. -/
theorem takeWhile_append_of_stop {p : Char → Bool} (hcs : ∀ d ∈ cs, p d = true) (hc : p c = false) :
    (cs ++ c :: rest).takeWhile p = cs := by
  rw [takeWhile_append_stop hc, List.takeWhile_eq_self_iff.2 hcs]

theorem length_le_takeWhile_append {p : Char → Bool} (hcs : ∀ d ∈ cs, p d = true) (rest : List Char) :
    cs.length ≤ ((cs ++ rest).takeWhile p).length := by
  rw [List.takeWhile_append_of_pos hcs, List.length_append]
  omega

theorem bne_of_not_mem (h : c ∉ cs) : ∀ d ∈ cs, (d != c) = true := by
  intro d hd
  rw [bne_iff_ne]
  rintro rfl
  exact h hd

/-- All of the text from one quote to the next is taken by the rule for strings. -/
theorem matchLength?_quoted_append (hcs : '"' ∉ cs) :
    quoted.matchLength? ('"' :: (cs ++ '"' :: rest)) = some (2 + cs.length) := by
  apply matchLength?_quoted_eq_some.2
  refine ⟨_, rfl, by simp, ?_⟩
  rw [takeWhile_append_of_stop (bne_of_not_mem hcs) (by simp)]

/-- What a rule takes is one of its texts. -/
theorem accepts_take (h : rule.matchLength? cs = some n) : rule.Accepts (cs.take n) := by
  cases rule with
  | word =>
    obtain ⟨c, ds, htake, hc, hds⟩ := exists_take_word h
    rw [htake]
    exact .word hc hds
  | number => exact .number (isNumeral_take h)
  | blank =>
    have hpos := matchLength?_pos h
    have hle := matchLength?_le h
    apply Accepts.blank
    · intro hnil
      have hlength := congrArg List.length hnil
      rw [List.length_take, List.length_nil] at hlength
      omega
    · exact Scan.isBlank_of_matchLength? h
  | quoted =>
    obtain ⟨ds, rfl, hds, -⟩ := matchLength?_quoted_eq_some.1 h
    obtain ⟨inner, after, rfl, hinner⟩ := List.eq_append_cons_of_mem hds
    rw [matchLength?_quoted_append hinner, Option.some.injEq] at h
    have htake : ('"' :: (inner ++ '"' :: after)).take n = '"' :: (inner ++ ['"']) := by
      rw [← h, Nat.add_comm, List.take_succ_cons, List.take_length_add_append]
      rfl
    rw [htake]
    exact .quoted hinner
  | comment =>
    obtain ⟨ds, rfl, rfl⟩ := matchLength?_comment_eq_some.1 h
    rw [Nat.add_comm, List.take_succ_cons, List.take_succ_cons, take_length_takeWhile]
    apply Accepts.comment
    intro hmem
    simpa using List.mem_takeWhile_imp hmem
  | mark m =>
    rw [take_mark h]
    exact .mark m

/-- A rule applies before which one of its texts stands, and takes no less than that text. -/
theorem Accepts.exists_matchLength? (h : rule.Accepts text) (hfront : text <+: cs) :
    ∃ n, rule.matchLength? cs = some n ∧ text.length ≤ n := by
  obtain ⟨rest, rfl⟩ := hfront
  cases h with
  | word hc hcs =>
    have hle := length_le_takeWhile_append hcs rest
    refine ⟨_, by rw [List.cons_append, matchLength?, if_pos hc], ?_⟩
    rw [List.length_cons]
    omega
  | blank hne hcs =>
    obtain ⟨c, ds, rfl⟩ := List.exists_cons_of_ne_nil hne
    obtain ⟨hc, hds⟩ := List.forall_mem_cons.1 hcs
    have hle := length_le_takeWhile_append hds rest
    refine ⟨_, by rw [List.cons_append, matchLength?, if_pos hc], ?_⟩
    rw [List.length_cons]
    omega
  | number h =>
    cases h with
    | @whole ds hne hds =>
      obtain ⟨d, ds, rfl⟩ := List.exists_cons_of_ne_nil hne
      obtain ⟨hd, hds⟩ := List.forall_mem_cons.1 hds
      have hle := length_le_takeWhile_append hds rest
      refine ⟨_, by rw [List.cons_append, matchLength?, if_pos hd], ?_⟩
      rw [List.length_cons]
      omega
    | @fraction ds es hne hds hne' hes =>
      obtain ⟨d, ds, rfl⟩ := List.exists_cons_of_ne_nil hne
      obtain ⟨hd, hds⟩ := List.forall_mem_cons.1 hds
      obtain ⟨e, es, rfl⟩ := List.exists_cons_of_ne_nil hne'
      obtain ⟨he, hes⟩ := List.forall_mem_cons.1 hes
      have hpoint : '.'.isDigit = false := rfl
      have hle := length_le_takeWhile_append hes rest
      rw [List.append_assoc, List.cons_append, List.cons_append, List.cons_append]
      refine ⟨_, by rw [matchLength?, if_pos hd], ?_⟩
      rw [takeWhile_append_of_stop hds hpoint, dropWhile_append_stop hpoint,
        List.dropWhile_eq_nil_iff.2 hds, List.nil_append, fractionLength, if_pos he]
      simp only [List.length_append, List.length_cons]
      omega
  | @quoted ds hcs =>
    refine ⟨2 + ds.length, ?_, ?_⟩
    · rw [List.cons_append, List.append_assoc]
      exact matchLength?_quoted_append hcs
    · simp only [List.length_cons, List.length_append, List.length_nil]
      omega
  | @comment ds hcs =>
    have hle := length_le_takeWhile_append (bne_of_not_mem hcs) rest
    refine ⟨_, by rw [List.cons_append, List.cons_append, matchLength?], ?_⟩
    simp only [List.length_cons]
    omega
  | mark m =>
    have hfront : m.spelling.isPrefixOf (m.spelling ++ rest) = true :=
      List.isPrefixOf_iff_prefix.2 (List.prefix_append _ _)
    exact ⟨_, by rw [matchLength?, if_pos hfront], Nat.le_refl _⟩

/-- A rule takes the longest of its texts that stands at the front. -/
theorem matchLength?_eq_some_iff : rule.matchLength? cs = some n ↔
    n ≤ cs.length ∧ rule.Accepts (cs.take n) ∧
      ∀ text, text <+: cs → rule.Accepts text → text.length ≤ n := by
  constructor
  · intro h
    refine ⟨matchLength?_le h, accepts_take h, fun text hfront htext => ?_⟩
    obtain ⟨n', hn', hle⟩ := htext.exists_matchLength? hfront
    rw [h, Option.some.injEq] at hn'
    omega
  · rintro ⟨hle, haccepts, hlongest⟩
    obtain ⟨n', hn', hle'⟩ := haccepts.exists_matchLength? (List.take_prefix n cs)
    have hback := hlongest _ (List.take_prefix n' cs) (accepts_take hn')
    have hle'' := matchLength?_le hn'
    rw [List.length_take] at hback hle'
    obtain rfl : n' = n := by omega
    exact hn'

/-! ## Rules with a text in common -/

/-- The character begins some text of the rule. -/
def begins : Rule → Char → Bool
  | word, c => isNameStart c
  | number, c => c.isDigit
  | blank, c => Text.isBlank c
  | quoted, c => c == '"'
  | comment, c => c == '/'
  | mark m, c => m.spelling.head? == some c

theorem Accepts.exists_head (h : rule.Accepts text) :
    ∃ c cs, text = c :: cs ∧ rule.begins c = true := by
  cases h with
  | word hc _ => exact ⟨_, _, rfl, hc⟩
  | number h => exact h.exists_head
  | blank hne hcs =>
    obtain ⟨c, cs, rfl⟩ := List.exists_cons_of_ne_nil hne
    exact ⟨c, cs, rfl, hcs c List.mem_cons_self⟩
  | quoted | comment => exact ⟨_, _, rfl, rfl⟩
  | mark m =>
    obtain ⟨c, cs, hspelling⟩ := List.exists_cons_of_ne_nil m.spelling_ne_nil
    exact ⟨c, cs, hspelling, by simp [begins, hspelling]⟩

theorem Accepts.ne_nil (h : rule.Accepts text) : text ≠ [] := by
  obtain ⟨c, cs, rfl, -⟩ := h.exists_head
  exact List.cons_ne_nil c cs

/-- Of the rules for words, numbers, blanks and strings, the one that has texts with this first
character. -/
def opening? (c : Char) : Option Rule :=
  if isNameStart c then some word
  else if c.isDigit then some number
  else if Text.isBlank c then some blank
  else if c = '"' then some quoted
  else none

/-- These rules are known by the first character of a text, and no other rule has such a text. -/
theorem opening?_of_begins (h : rule.begins c = true) :
    opening? c = if rule ∈ [word, number, blank, quoted] then some rule else none := by
  cases rule with
  | word => exact if_pos h
  | number =>
    have hword := isNameStart_of_isDigit h
    simp only [opening?, hword]
    exact if_pos h
  | blank =>
    have hword := isNameStart_of_isBlank h
    have hnumber := isDigit_of_isBlank h
    simp only [opening?, hword, hnumber]
    exact if_pos h
  | quoted | comment =>
    simp only [begins, beq_iff_eq] at h
    subst h
    rfl
  | mark m =>
    simp only [begins, beq_iff_eq] at h
    cases m <;> cases h <;> rfl

theorem eq_of_begins (hrule : rule ∈ [word, number, blank, quoted]) (h : rule.begins c = true)
    (hother : other.begins c = true) : other = rule := by
  have hopening := opening?_of_begins h
  rw [if_pos hrule, opening?_of_begins hother] at hopening
  split at hopening
  · exact Option.some.inj hopening
  · cases hopening

/-- Where texts of both rules stand at the front of one text, that of the first rule is the longer. -/
def Outruns (rule other : Rule) : Prop :=
  ∀ text shorter, rule.Accepts text → other.Accepts shorter → shorter <+: text ∨ text <+: shorter →
    shorter.length < text.length

/-- Texts of which one begins the other have the first character in common. -/
theorem Accepts.exists_begins (h : rule.Accepts text) (h' : other.Accepts rest)
    (hfront : rest <+: text ∨ text <+: rest) : ∃ c, rule.begins c = true ∧ other.begins c = true := by
  obtain ⟨c, cs, rfl, hc⟩ := h.exists_head
  obtain ⟨d, ds, rfl, hd⟩ := h'.exists_head
  have hcd : c = d := by
    rcases hfront with hfront | hfront
    · exact (List.cons_prefix_cons.1 hfront).1.symm
    · exact (List.cons_prefix_cons.1 hfront).1
  exact ⟨c, hc, hcd ▸ hd⟩

theorem outruns_of_ne (hrule : rule ∈ [word, number, blank, quoted]) (hne : other ≠ rule) :
    rule.Outruns other := by
  intro text shorter htext hshorter hfront
  obtain ⟨c, hc, hd⟩ := htext.exists_begins hshorter hfront
  exact absurd (eq_of_begins hrule hc hd) hne

/-- A comment has two slashes where the mark for division has one. -/
theorem comment_outruns_mark (m : Mark) : comment.Outruns (mark m) := by
  intro text shorter htext hshorter hfront
  obtain ⟨c, hc, hd⟩ := htext.exists_begins hshorter hfront
  obtain rfl : c = '/' := by simpa [begins] using hc
  obtain rfl : m = .slash := by
    simp only [begins, beq_iff_eq] at hd
    cases m <;> first | rfl | cases hd
  cases htext
  cases hshorter
  simp [Mark.spelling]

/-- In the order of the marks no spelling begins one that comes later. -/
theorem marks_pairwise : marks.Pairwise fun m m' => ¬ m.spelling <+: m'.spelling := by
  decide

theorem mark_outruns_mark {m m' : Mark} (h : ¬ m.spelling <+: m'.spelling) :
    (mark m).Outruns (mark m') := by
  rintro _ _ ⟨⟩ ⟨⟩ hfront
  have hfront := hfront.resolve_right h
  apply Nat.lt_of_le_of_ne hfront.length_le
  intro hlength
  rw [hfront.eq_of_length hlength] at h
  exact h List.prefix_rfl

/-- Each rule comes before those whose texts it outruns. -/
theorem all_pairwise_outruns : all.Pairwise Outruns := by
  have hmarks : (marks.map mark).Pairwise Outruns :=
    List.pairwise_map.2 (marks_pairwise.imp mark_outruns_mark)
  have hfirst {rule : Rule} (hrule : rule ∈ [word, number, blank, quoted]) {others : List Rule}
      (hothers : rule ∉ others) : ∀ other ∈ others, rule.Outruns other := by
    intro other hother
    apply outruns_of_ne hrule
    rintro rfl
    exact hothers hother
  show (word :: number :: blank :: quoted :: comment :: marks.map mark).Pairwise Outruns
  simp only [List.pairwise_cons]
  refine ⟨hfirst (by simp) (by simp), hfirst (by simp) (by simp), hfirst (by simp) (by simp),
    hfirst (by simp) (by simp), ?_, hmarks⟩
  intro other hother
  obtain ⟨m, -, rfl⟩ := List.mem_map.1 hother
  exact comment_outruns_mark m

theorem mem_all (rule : Rule) : rule ∈ all := by
  cases rule with
  | mark m => cases m <;> decide
  | _ => decide

/-! ## The first rule that applies -/

/-- The text stands at the front of `cs` and is one of the rule's; no rule has a longer one there, and no
other rule has this one. -/
structure Longest (rule : Rule) (text cs : List Char) : Prop where
  front : text <+: cs
  accepts : rule.Accepts text
  longest : ∀ (other : Rule) longer, longer <+: cs → other.Accepts longer → longer.length ≤ text.length
  only : ∀ other : Rule, other.Accepts text → other = rule

/-- The first rule that applies takes the longest text, and is the only one to take so much. -/
theorem longest_of_first? (h : first? cs = some (rule, n)) : rule.Longest (cs.take n) cs := by
  obtain ⟨before, rule', after, hall, hrule, hbefore⟩ := List.findSome?_eq_some_iff.1 h
  obtain ⟨n', hmatch, heq⟩ := Option.map_eq_some_iff.1 hrule
  cases heq
  obtain ⟨hle, haccepts, hown⟩ := matchLength?_eq_some_iff.1 hmatch
  have hlength : (cs.take n).length = n := List.length_take_of_le hle
  -- a rule tried before does not apply at all, and one tried after is outrun
  have hother (other : Rule) (longer : List Char) (hfront : longer <+: cs) (hlonger : other.Accepts longer) :
      other = rule ∨ longer.length < (cs.take n).length := by
    have hmem := mem_all other
    rw [hall] at hmem
    rcases List.mem_append.1 hmem with hmem | hmem
    · obtain ⟨k, hk, -⟩ := hlonger.exists_matchLength? hfront
      have hnone := Option.map_eq_none_iff.1 (hbefore other hmem)
      rw [hk] at hnone
      cases hnone
    · rcases List.mem_cons.1 hmem with heq | hmem
      · exact .inl heq
      · right
        have hpairs := all_pairwise_outruns
        rw [hall] at hpairs
        have houtruns := (List.pairwise_cons.1 (List.pairwise_append.1 hpairs).2.1).1 other hmem
        apply houtruns _ _ haccepts hlonger
        exact List.prefix_or_prefix_of_prefix hfront (List.take_prefix n cs)
  constructor
  · exact List.take_prefix n cs
  · exact haccepts
  · intro other longer hfront hlonger
    rcases hother other longer hfront hlonger with rfl | hlt
    · rw [hlength]
      exact hown longer hfront hlonger
    · exact Nat.le_of_lt hlt
  · intro other hsame
    rcases hother other _ (List.take_prefix n cs) hsame with heq | hlt
    · exact heq
    · exact absurd hlt (Nat.lt_irrefl _)

/-- Where some rule has a text at the front, a rule applies. -/
theorem Accepts.exists_first? (h : rule.Accepts text) (hfront : text <+: cs) :
    ∃ rule n, first? cs = some (rule, n) := by
  obtain ⟨n, hmatch, -⟩ := h.exists_matchLength? hfront
  cases hfirst : first? cs with
  | some result => exact ⟨result.1, result.2, rfl⟩
  | none =>
    have hnone := List.findSome?_eq_none_iff.1 hfirst rule (mem_all rule)
    rw [hmatch] at hnone
    cases hnone

theorem first?_eq_some_iff :
    first? cs = some (rule, n) ↔ n ≤ cs.length ∧ rule.Longest (cs.take n) cs := by
  constructor
  · intro h
    exact ⟨matchLength?_le (first?_eq_some h).2, longest_of_first? h⟩
  · rintro ⟨hle, hlongest⟩
    obtain ⟨rule', n', hfirst⟩ := hlongest.accepts.exists_first? hlongest.front
    have hle' := matchLength?_le (first?_eq_some hfirst).2
    have hlongest' := longest_of_first? hfirst
    have hto := hlongest.longest _ _ hlongest'.front hlongest'.accepts
    have hback := hlongest'.longest _ _ hlongest.front hlongest.accepts
    rw [List.length_take, List.length_take] at hto hback
    obtain rfl : n' = n := by omega
    rw [hfirst, hlongest.only _ hlongest'.accepts]

/-- The rule of the longest text takes just this text. -/
theorem Longest.matchLength?_eq (h : rule.Longest text cs) :
    rule.matchLength? cs = some text.length := by
  have htake : cs.take text.length = text := (List.prefix_iff_eq_take.1 h.front).symm
  apply matchLength?_eq_some_iff.2
  refine ⟨h.front.length_le, ?_, h.longest rule⟩
  rw [htake]
  exact h.accepts

/-- Any other rule takes less than the longest text. -/
theorem Longest.lt_of_ne (h : rule.Longest text cs) (hother : other.matchLength? cs = some n)
    (hne : other ≠ rule) : n < text.length := by
  obtain ⟨hle, haccepts, -⟩ := matchLength?_eq_some_iff.1 hother
  have hlength : (cs.take n).length = n := List.length_take_of_le hle
  have hto := h.longest other _ (List.take_prefix n cs) haccepts
  rw [hlength] at hto
  apply Nat.lt_of_le_of_ne hto
  rintro rfl
  rw [← List.prefix_iff_eq_take.1 h.front] at haccepts
  exact hne (h.only other haccepts)

end Rule

/-! ## Segments -/

/-- What becomes of a segment: nothing of blanks and comments, the text it denotes of a string, and its
own text of anything else. -/
inductive Segment.Becomes : Segment → Option Token → Prop where
  | blank (text : List Char) : Becomes ⟨.blank, text⟩ none
  | comment (text : List Char) : Becomes ⟨.comment, text⟩ none
  | quoted (inner : List Char) :
      Becomes ⟨.quoted, '"' :: (inner ++ ['"'])⟩ (some ⟨.string, String.ofList (unescape inner)⟩)
  | word (text : List Char) :
      Becomes ⟨.word, text⟩ (some ⟨.ofWord (String.ofList text), String.ofList text⟩)
  | number (text : List Char) : Becomes ⟨.number, text⟩ (some ⟨.number, String.ofList text⟩)
  | mark (m : Mark) (text : List Char) : Becomes ⟨.mark m, text⟩ (some ⟨.mark m, String.ofList text⟩)

theorem Segment.becomes_token? {g : Segment} (h : g.rule.Accepts g.text) : g.Becomes g.token? := by
  obtain ⟨rule, text⟩ := g
  cases h with
  | word => exact .word _
  | number => exact .number _
  | blank => exact .blank _
  | comment => exact .comment _
  | mark m => exact .mark m _
  | quoted =>
    rw [Segment.token?, Rule.token?, List.drop_succ_cons, List.drop_zero, List.dropLast_concat]
    exact .quoted _

namespace Scan

theorem ofText_of_none {cs : List Char} (h : Rule.first? cs = none) : ofText cs = ⟨[], cs⟩ := by
  rw [ofText]
  split
  · rfl
  · next heq =>
    rw [h] at heq
    cases heq

/-- A text to which a rule applies is what the rule takes, and then what is left is scanned. -/
theorem ofText_of_some {cs : List Char} {rule : Rule} {n : Nat}
    (h : Rule.first? cs = some (rule, n)) :
    ofText cs = ⟨⟨rule, cs.take n⟩ :: (ofText (cs.drop n)).segments, (ofText (cs.drop n)).rest⟩ := by
  rw [ofText]
  split
  · next heq =>
    rw [h] at heq
    cases heq
  · next heq =>
    rw [h] at heq
    cases heq
    rfl

/-- Each segment is the longest text that a rule has in what is left from there on. -/
theorem longest_of_segments {cs : List Char} {before after : List Segment} {g : Segment}
    (h : (ofText cs).segments = before ++ g :: after) :
    g.rule.Longest g.text (g.text ++ after.flatMap Segment.text ++ (ofText cs).rest) := by
  induction cs using ofText.induct generalizing before with
  | case1 cs hnone =>
    rw [ofText_of_none hnone] at h
    simp at h
  | case2 cs rule n hfirst _ ih =>
    rw [ofText_of_some hfirst] at h ⊢
    cases before with
    | nil =>
      obtain ⟨rfl, rfl⟩ := List.cons_eq_cons.1 h
      rw [List.append_assoc, ofText_append, List.take_append_drop]
      exact Rule.longest_of_first? hfirst
    | cons first before => exact ih (List.cons_eq_cons.1 h).2

theorem accepts_of_mem {cs : List Char} {g : Segment} (h : g ∈ (ofText cs).segments) :
    g.rule.Accepts g.text := by
  obtain ⟨before, after, hsplit⟩ := List.append_of_mem h
  exact (longest_of_segments hsplit).accepts

end Scan

/-- A text has tokens exactly if nothing is left of it. -/
theorem tokenize_eq_ok_iff {source : String} {tokens : List Token} : tokenize source = .ok tokens ↔
    (Scan.ofText source.toList).rest = [] ∧
      tokens = (Scan.ofText source.toList).tokens ++ [.endOfInput] := by
  rw [tokenize, Scan.result]
  split
  · next hrest => simp [hrest, eq_comm]
  · next hrest => simp [hrest]

/-- A text has no tokens exactly if something is left of it. -/
theorem tokenize_eq_error_iff {source : String} {cause : Fault} : tokenize source = .error cause ↔
    (Scan.ofText source.toList).rest ≠ [] ∧
      cause = .unrecognised (String.ofList (Scan.ofText source.toList).rest) := by
  rw [tokenize, Scan.result]
  split
  · next hrest => simp [hrest]
  · next hrest => simp [hrest, eq_comm]

/-- A text with tokens is cut into segments, none of them empty, such that each is the longest text that
any rule has in what is left from there on, and is a text of no other rule; this rule takes just this
text there, and every other rule takes less if it applies at all. The tokens are those of the segments
that are neither blank nor a comment, in order, and the end token. -/
theorem tokenize_longest {source : String} {tokens : List Token} (h : tokenize source = .ok tokens) :
    ∃ segments, Scan.ofText source.toList = ⟨segments, []⟩ ∧
      segments.flatMap Segment.text = source.toList ∧
      (∀ g ∈ segments, g.text ≠ []) ∧
      (∀ before g after, segments = before ++ g :: after →
        g.rule.Longest g.text (g.text ++ after.flatMap Segment.text) ∧
        g.rule.matchLength? (g.text ++ after.flatMap Segment.text) = some g.text.length ∧
        ∀ (other : Rule) n, other.matchLength? (g.text ++ after.flatMap Segment.text) = some n →
          other ≠ g.rule → n < g.text.length) ∧
      (∀ g ∈ segments, g.Becomes g.token?) ∧
      tokens = segments.filterMap Segment.token? ++ [.endOfInput] := by
  rw [tokenize, Scan.result] at h
  split at h
  · next hrest =>
    cases h
    have htext := Scan.ofText_append source.toList
    rw [hrest, List.append_nil] at htext
    refine ⟨(Scan.ofText source.toList).segments, ?_, htext, ?_, ?_, ?_, rfl⟩
    · rw [← hrest]
    · intro g hg
      exact (Scan.accepts_of_mem hg).ne_nil
    · intro before g after hsplit
      have hlongest := Scan.longest_of_segments hsplit
      rw [hrest, List.append_nil] at hlongest
      exact ⟨hlongest, hlongest.matchLength?_eq, fun other n => hlongest.lt_of_ne⟩
    · intro g hg
      exact Segment.becomes_token? (Scan.accepts_of_mem hg)
  · cases h

/-- Without blanks between them: a comparison of two characters, a fraction before a range, a string with
an escape, and a comment that begins like the mark for division. -/
theorem tokenize_longest_joined :
    tokenize "x<=1.5..\"\\t\"//" = .ok [⟨.identifier, "x"⟩, ⟨.mark .lessEquals, "<="⟩,
        ⟨.number, "1.5"⟩, ⟨.mark .dotDot, ".."⟩, ⟨.string, "\t"⟩, .endOfInput] ∧
      ∃ segments, Scan.ofText "x<=1.5..\"\\t\"//".toList = ⟨segments, []⟩ ∧
        (∀ before g after, segments = before ++ g :: after →
          g.rule.Longest g.text (g.text ++ after.flatMap Segment.text)) ∧
        ∀ g ∈ segments, g.Becomes g.token? := by
  have htokens : tokenize "x<=1.5..\"\\t\"//" = .ok [⟨.identifier, "x"⟩, ⟨.mark .lessEquals, "<="⟩,
      ⟨.number, "1.5"⟩, ⟨.mark .dotDot, ".."⟩, ⟨.string, "\t"⟩, .endOfInput] := by
    with_unfolding_all rfl
  obtain ⟨segments, hscan, -, -, hlongest, hbecomes, -⟩ := tokenize_longest htokens
  refine ⟨htokens, segments, hscan, ?_, hbecomes⟩
  intro before g after hsplit
  exact (hlongest before g after hsplit).1

end ScriptFront
