import ScriptFront.Proofs.Token.Scanner

/-!
# Where a scan stops

No rule applies to a text that is `Rule.Stuck`, and to every other one a rule does
(`Rule.first?_eq_none_iff`). Such a text adds nothing to what a rule takes off the text in front of it,
unless that is a comment up to its end (`Rule.first?_append_stuck`). So a scan that stops has scanned
what lies before as if nothing followed, and a text that can be scanned to its end is followed by a stuck
one exactly where a scan of both stops (`tokenize_eq_unrecognised_iff`).
-/

namespace ScriptFront

namespace Rule

/-! ## Texts to which no rule applies -/

/-- The first characters of strings, comments and marks. -/
def openers : List Char :=
  ['"', '/', '[', ']', '{', '}', '(', ')', '=', '!', '<', '>', '.', ';', ':', '?', ',', '+', '-', '*',
   '%', '&', '|']

/-- The character begins no text of any rule. -/
def BeginsNothing (c : Char) : Prop :=
  isNamePart c = false ∧ Text.isBlank c = false ∧ c ∉ openers

/-- The text starts with a character that begins nothing, with a quote that no other quote follows, or
with the first half of `&&` or `||` only. -/
inductive Stuck : List Char → Prop where
  | character {c : Char} {cs : List Char} (h : BeginsNothing c) : Stuck (c :: cs)
  | quote {cs : List Char} (h : '"' ∉ cs) : Stuck ('"' :: cs)
  | ampersand {cs : List Char} (h : cs.head? ≠ some '&') : Stuck ('&' :: cs)
  | bar {cs : List Char} (h : cs.head? ≠ some '|') : Stuck ('|' :: cs)

variable {rule other : Rule} {cs text rest : List Char} {c : Char} {n : Nat}

theorem isNamePart_of_isNameStart (h : isNameStart c = true) : isNamePart c = true := by
  simp only [isNameStart, Bool.or_eq_true] at h
  simp only [isNamePart, Char.isAlphanum, Bool.or_eq_true]
  rcases h with h | h
  · exact .inl (.inl h)
  · exact .inr h

theorem isNamePart_of_isDigit (h : c.isDigit = true) : isNamePart c = true := by
  simp [isNamePart, Char.isAlphanum, h]

/-- A character of names begins a word or a number. -/
theorem isNameStart_or_isDigit (h : isNamePart c = true) : isNameStart c = true ∨ c.isDigit = true := by
  simp only [isNamePart, Char.isAlphanum, Bool.or_eq_true] at h
  simp only [isNameStart, Bool.or_eq_true]
  rcases h with (h | h) | h
  · exact .inl (.inl h)
  · exact .inr h
  · exact .inl (.inr h)

theorem not_beginsNothing (h : rule.begins c = true) : ¬ BeginsNothing c := by
  rintro ⟨hname, hblank, hopeners⟩
  cases rule with
  | word => simp [isNamePart_of_isNameStart h] at hname
  | number => simp [isNamePart_of_isDigit h] at hname
  | blank => exact absurd h (by simp [begins, hblank])
  | quoted | comment =>
    simp only [begins, beq_iff_eq] at h
    subst h
    exact hopeners (by simp [openers])
  | mark m =>
    simp only [begins, beq_iff_eq] at h
    cases m <;> cases h <;> exact hopeners (by simp [openers])

/-- The two marks of which a half begins no other mark. -/
theorem eq_of_begins_half (h : rule.begins c = true) :
    (c = '&' → rule = mark .and) ∧ (c = '|' → rule = mark .or) := by
  constructor
  all_goals
    rintro rfl
    cases rule with
    | mark m =>
      simp only [begins, beq_iff_eq] at h
      cases m <;> first | rfl | cases h
    | _ => cases h

theorem Stuck.not_accepts (h : Stuck cs) (hfront : text <+: cs) : ¬ rule.Accepts text := by
  intro haccepts
  obtain ⟨d, ds, rfl, hd⟩ := haccepts.exists_head
  cases h with
  | character hc =>
    obtain ⟨rfl, -⟩ := List.cons_prefix_cons.1 hfront
    exact not_beginsNothing hd hc
  | quote hquote =>
    obtain ⟨rfl, htail⟩ := List.cons_prefix_cons.1 hfront
    have hbegins : quoted.begins '"' = true := rfl
    obtain rfl := eq_of_begins (by simp) hbegins hd
    cases haccepts with
    | @quoted inner =>
      have hclosing : '"' ∈ inner ++ ['"'] := by simp
      exact hquote (htail.subset hclosing)
  | ampersand hsecond =>
    obtain ⟨rfl, htail⟩ := List.cons_prefix_cons.1 hfront
    obtain rfl := (eq_of_begins_half hd).1 rfl
    cases haccepts with
    | mark =>
      obtain ⟨after, rfl⟩ := htail
      exact hsecond rfl
  | bar hsecond =>
    obtain ⟨rfl, htail⟩ := List.cons_prefix_cons.1 hfront
    obtain rfl := (eq_of_begins_half hd).2 rfl
    cases haccepts with
    | mark =>
      obtain ⟨after, rfl⟩ := htail
      exact hsecond rfl

theorem Stuck.first?_eq_none (h : Stuck cs) : first? cs = none := by
  cases hfirst : first? cs with
  | none => rfl
  | some result =>
    obtain ⟨rule, n⟩ := result
    have hlongest := longest_of_first? hfirst
    exact absurd hlongest.accepts (h.not_accepts hlongest.front)

/-- Most characters that open a text are marks by themselves. -/
theorem exists_mark_of_mem_openers (h : c ∈ openers) :
    c = '"' ∨ c = '&' ∨ c = '|' ∨ ∃ m : Mark, m.spelling = [c] := by
  have hall : openers.all (fun c => c == '"' || c == '&' || c == '|' ||
      Mark.all.any fun m => m.spelling == [c]) = true := rfl
  have hc := List.all_eq_true.1 hall c h
  simp only [Bool.or_eq_true, beq_iff_eq, List.any_eq_true] at hc
  rcases hc with ((hc | hc) | hc) | ⟨m, -, hm⟩
  · exact .inl hc
  · exact .inr (.inl hc)
  · exact .inr (.inr (.inl hc))
  · exact .inr (.inr (.inr ⟨m, hm⟩))

theorem stuck_of_first?_eq_none (hcs : cs ≠ []) (h : first? cs = none) : Stuck cs := by
  have hnone (rule : Rule) (text : List Char) (hfront : text <+: cs) : ¬ rule.Accepts text := by
    intro haccepts
    obtain ⟨rule', n, hfirst⟩ := haccepts.exists_first? hfront
    rw [h] at hfirst
    cases hfirst
  obtain ⟨c, ds, rfl⟩ := List.exists_cons_of_ne_nil hcs
  have hsingle : [c] <+: c :: ds := ⟨ds, rfl⟩
  by_cases hopeners : c ∈ openers
  · rcases exists_mark_of_mem_openers hopeners with rfl | rfl | rfl | ⟨m, hm⟩
    · apply Stuck.quote
      intro hquote
      obtain ⟨inner, after, rfl, hinner⟩ := List.eq_append_cons_of_mem hquote
      exact hnone quoted _ ⟨after, by simp⟩ (.quoted hinner)
    · apply Stuck.ampersand
      intro hsecond
      obtain ⟨after, rfl⟩ := List.head?_eq_some_iff.1 hsecond
      exact hnone _ _ ⟨after, rfl⟩ (.mark .and)
    · apply Stuck.bar
      intro hsecond
      obtain ⟨after, rfl⟩ := List.head?_eq_some_iff.1 hsecond
      exact hnone _ _ ⟨after, rfl⟩ (.mark .or)
    · exact absurd (hm ▸ Accepts.mark m) (hnone _ _ hsingle)
  · apply Stuck.character
    refine ⟨?_, ?_, hopeners⟩
    · by_contra hname
      rw [Bool.not_eq_false] at hname
      rcases isNameStart_or_isDigit hname with hword | hdigit
      · exact hnone _ _ hsingle (.word hword (by simp))
      · exact hnone _ _ hsingle (.number (.whole (by simp) (by simpa using hdigit)))
    · by_contra hblank
      rw [Bool.not_eq_false] at hblank
      exact hnone _ _ hsingle (.blank (by simp) (by simpa using hblank))

/-- No rule applies to just the stuck texts. -/
theorem first?_eq_none_iff (hcs : cs ≠ []) : first? cs = none ↔ Stuck cs :=
  ⟨stuck_of_first?_eq_none hcs, Stuck.first?_eq_none⟩

/-! ## What a stuck text adds to the text in front of it -/

/-- The first character of a stuck text is neither in a name, a number or a blank, nor the second one of
a mark other than `&&` and `||`. -/
theorem Stuck.head (h : Stuck (c :: rest)) : isNamePart c = false ∧ Text.isBlank c = false ∧
    (c ∈ openers → c = '"' ∨ c = '&' ∨ c = '|') := by
  cases h with
  | character h => exact ⟨h.1, h.2.1, fun hmem => absurd hmem h.2.2⟩
  | quote => exact ⟨rfl, rfl, fun _ => .inl rfl⟩
  | ampersand => exact ⟨rfl, rfl, fun _ => .inr (.inl rfl)⟩
  | bar => exact ⟨rfl, rfl, fun _ => .inr (.inr rfl)⟩

end Rule

theorem IsNumeral.isDigit_or_point {cs : List Char} (h : IsNumeral cs) :
    ∀ c ∈ cs, c.isDigit = true ∨ c = '.' := by
  intro c hc
  cases h with
  | whole _ hds => exact .inl (hds c hc)
  | fraction _ hds _ hes =>
    rcases List.mem_append.1 hc with hc | hc
    · exact .inl (hds c hc)
    · rcases List.mem_cons.1 hc with rfl | hc
      · exact .inr rfl
      · exact .inl (hes c hc)

namespace Rule

variable {rule other : Rule} {cs text rest : List Char} {c : Char} {n : Nat}

/-- The second character of a mark opens a text too and is no quote; `&` and `|` stand second only after
themselves. -/
theorem second_of_spelling {m : Mark} {d e : Char} (h : m.spelling = d :: e :: rest) :
    rest = [] ∧ e ∈ openers ∧ e ≠ '"' ∧ (e = '&' ∨ e = '|' → d = e) := by
  cases m <;> cases h <;> simp [openers]

/-- No mark goes over from a text to which a rule applies into a stuck one: only `&&` and `||` could, and
to their first halves no rule applies. -/
theorem spelling_ne_append (m : Mark) (hcs : cs ≠ []) (hfirst : first? cs ≠ none)
    (hr : Stuck (c :: rest)) (more : List Char) : m.spelling ≠ cs ++ c :: more := by
  intro hspelling
  match cs, hcs with
  | [d], _ =>
    obtain ⟨-, hmem, hquote, hhalf⟩ := second_of_spelling hspelling
    rcases hr.head.2.2 hmem with rfl | rfl | rfl
    · exact hquote rfl
    · obtain rfl := hhalf (.inl rfl)
      exact hfirst (Stuck.ampersand (by simp)).first?_eq_none
    · obtain rfl := hhalf (.inr rfl)
      exact hfirst (Stuck.bar (by simp)).first?_eq_none
  | d :: e :: ds, _ =>
    obtain ⟨hnil, -⟩ := second_of_spelling hspelling
    simp at hnil

/-- No rule takes all of a text to which a rule applies and some of a stuck one behind it, unless the text
is a comment to its end. -/
theorem not_accepts_append (h : first? cs = some (rule, n)) (hcomment : rule = comment → n < cs.length)
    (hr : Stuck (c :: rest)) (more : List Char) : ¬ other.Accepts (cs ++ c :: more) := by
  obtain ⟨hle, hlongest⟩ := first?_eq_some_iff.1 h
  have hcs : cs ≠ [] := by
    rintro rfl
    cases h
  obtain ⟨hname, hblank, hopeners⟩ := hr.head
  have hc : c ∈ cs ++ c :: more := by simp
  intro haccepts
  generalize htext : cs ++ c :: more = text at haccepts hc
  cases haccepts with
  | word hstart hparts =>
    rcases List.mem_cons.1 hc with rfl | hc
    · simp [isNamePart_of_isNameStart hstart] at hname
    · simp [hparts c hc] at hname
  | number hnumeral =>
    rcases hnumeral.isDigit_or_point c hc with hdigit | rfl
    · simp [isNamePart_of_isDigit hdigit] at hname
    · exact absurd (hopeners (by simp [openers])) (by simp)
  | blank _ hblanks => simp [hblanks c hc] at hblank
  | mark m => exact spelling_ne_append m hcs (by simp [h]) hr more htext.symm
  | @quoted inner hinner =>
    -- the closing quote would lie in the stuck text, and the string would not be closed before
    obtain ⟨d, ds, rfl⟩ := List.exists_cons_of_ne_nil hcs
    obtain ⟨rfl, hinside⟩ := List.cons_eq_cons.1 htext
    have hquote : '"' ∉ ds := by
      have hfront : ds <+: inner ++ ['"'] := ⟨c :: more, hinside⟩
      rcases List.prefix_concat_iff.1 hfront with heq | hfront
      · have hlength := congrArg List.length hinside
        simp [heq] at hlength
      · exact fun hmem => hinner (hfront.subset hmem)
    rw [(Stuck.quote hquote).first?_eq_none] at h
    cases h
  | @comment line hline =>
    match cs, hcs with
    | [d], _ =>
      obtain ⟨-, hsecond⟩ := List.cons_eq_cons.1 htext
      obtain ⟨rfl, -⟩ := List.cons_eq_cons.1 hsecond
      exact absurd (hopeners (by simp [openers])) (by simp)
    | d :: e :: ds, _ =>
      obtain ⟨hd, hsecond⟩ := List.cons_eq_cons.1 htext
      obtain ⟨he, rfl⟩ := List.cons_eq_cons.1 hsecond
      subst hd he
      have hwhole : comment.Accepts ('/' :: '/' :: ds) :=
        .comment fun hmem => hline (List.mem_append_left _ hmem)
      have hlength := hlongest.longest _ _ List.prefix_rfl hwhole
      rw [List.length_take] at hlength
      have heq : n = ('/' :: '/' :: ds).length := by omega
      rw [heq, List.take_length] at hlongest
      exact absurd (hcomment (hlongest.only _ hwhole).symm) (by omega)

/-- What is taken off the front does not change with a stuck text behind. -/
theorem first?_append_stuck (h : first? cs = some (rule, n)) (hcomment : rule = comment → n < cs.length)
    (hr : Stuck rest) : first? (cs ++ rest) = some (rule, n) := by
  obtain ⟨hle, hlongest⟩ := first?_eq_some_iff.1 h
  apply first?_eq_some_iff.2
  rw [List.take_append_of_le_length hle, List.length_append]
  refine ⟨by omega, hlongest.front.trans (List.prefix_append cs rest), hlongest.accepts, ?_,
    hlongest.only⟩
  intro other longer hfront hlonger
  rcases List.prefix_or_prefix_of_prefix hfront (List.prefix_append cs rest) with hwithin | hbeyond
  · exact hlongest.longest other longer hwithin hlonger
  · obtain ⟨beyond, rfl⟩ := hbeyond
    cases beyond with
    | nil =>
      rw [List.append_nil] at hlonger ⊢
      exact hlongest.longest other cs List.prefix_rfl hlonger
    | cons c more =>
      obtain ⟨after, rfl⟩ := (List.prefix_append_right_inj cs).1 hfront
      exact absurd hlonger (not_accepts_append h hcomment hr more)

/-- What is taken off the front is taken without what lies behind as well. -/
theorem first?_left (rest : List Char) (h : first? (cs ++ rest) = some (rule, n)) (hn : n ≤ cs.length) :
    first? cs = some (rule, n) := by
  obtain ⟨-, hlongest⟩ := first?_eq_some_iff.1 h
  rw [List.take_append_of_le_length hn] at hlongest
  refine first?_eq_some_iff.2 ⟨hn, List.take_prefix n cs, hlongest.accepts, ?_, hlongest.only⟩
  intro other longer hfront hlonger
  exact hlongest.longest other longer (hfront.trans (List.prefix_append cs rest)) hlonger

/-- A comment goes on to the end of its line. -/
theorem eq_newline_of_longest (h : comment.Longest text (text ++ c :: rest)) : c = '\n' := by
  by_contra hc
  have haccepts := h.accepts
  have hlonger : comment.Accepts (text ++ [c]) := by
    cases haccepts with
    | comment hline =>
      apply Accepts.comment
      simpa [List.mem_append] using ⟨hline, Ne.symm hc⟩
  have hlength := h.longest _ _ ⟨rest, by simp⟩ hlonger
  rw [List.length_append, List.length_singleton] at hlength
  omega

end Rule

/-! ## Scans -/

namespace Scan

variable {cs rest : List Char}

/-- Where a scan stops, no rule applies. -/
theorem first?_rest (cs : List Char) : Rule.first? (ofText cs).rest = none := by
  induction cs using ofText.induct with
  | case1 cs hnone => rw [ofText_of_none hnone, hnone]
  | case2 cs rule n hfirst _ ih =>
    rw [ofText_of_some hfirst]
    exact ih

theorem stuck_rest (h : (ofText cs).rest ≠ []) : Rule.Stuck (ofText cs).rest :=
  (Rule.first?_eq_none_iff h).1 (first?_rest cs)

/-- A scan that stops does not stop at the end of a comment. -/
theorem rule_ne_comment_of_rest (h : (ofText cs).rest ≠ []) :
    ∀ g, (ofText cs).segments.getLast? = some g → g.rule ≠ .comment := by
  intro g hlast hcomment
  obtain ⟨before, hsplit⟩ := List.getLast?_eq_some_iff.1 hlast
  have hlongest := longest_of_segments hsplit
  have hstuck := stuck_rest h
  obtain ⟨c, rest, hrest⟩ := List.exists_cons_of_ne_nil h
  rw [hrest] at hlongest hstuck
  rw [hcomment, List.flatMap_nil, List.append_nil] at hlongest
  obtain rfl := Rule.eq_newline_of_longest hlongest
  exact absurd hstuck.head.2.1 (by decide)

/-- What was scanned before a scan stopped is scanned in the same way by itself. -/
theorem ofText_flatMap_segments (cs : List Char) :
    ofText ((ofText cs).segments.flatMap Segment.text) = ⟨(ofText cs).segments, []⟩ := by
  induction cs using ofText.induct with
  | case1 cs hnone =>
    rw [ofText_of_none hnone]
    exact ofText_nil
  | case2 cs rule n hfirst _ ih =>
    have hle := (Rule.first?_eq_some_iff.1 hfirst).1
    have hlength : (cs.take n).length = n := List.length_take_of_le hle
    rw [ofText_of_some hfirst, List.flatMap_cons]
    have hfront : Rule.first? (cs.take n ++ (ofText (cs.drop n)).segments.flatMap Segment.text) =
        some (rule, n) := by
      apply Rule.first?_left (ofText (cs.drop n)).rest
      · rw [List.append_assoc, ofText_append, List.take_append_drop, hfirst]
      · rw [List.length_append]
        omega
    rw [ofText_of_some hfront, List.take_left' hlength, List.drop_left' hlength, ih]

/-- A text that is scanned to its end, other than in a comment, is scanned in the same way before a stuck
one, and there the scan stops. -/
theorem ofText_append_stuck (hcs : (ofText cs).rest = [])
    (hlast : ∀ g, (ofText cs).segments.getLast? = some g → g.rule ≠ .comment) (hr : Rule.Stuck rest) :
    ofText (cs ++ rest) = ⟨(ofText cs).segments, rest⟩ := by
  induction cs using ofText.induct with
  | case1 cs hnone =>
    rw [ofText_of_none hnone] at hcs ⊢
    rw [show cs = [] from hcs, List.nil_append, ofText_of_none hr.first?_eq_none]
  | case2 cs rule n hfirst _ ih =>
    have hle := (Rule.first?_eq_some_iff.1 hfirst).1
    rw [ofText_of_some hfirst] at hcs hlast ⊢
    have hcomment : rule = .comment → n < cs.length := by
      intro hrule
      apply Nat.lt_of_le_of_ne hle
      rintro rfl
      rw [List.drop_length, ofText_nil] at hlast
      exact hlast _ rfl hrule
    have hrest := ih hcs fun g hg => hlast g (by rw [List.getLast?_cons, hg]; rfl)
    rw [ofText_of_some (Rule.first?_append_stuck hfirst hcomment hr),
      List.take_append_of_le_length hle, List.drop_append_of_le_length hle, hrest]

/-- A scan that stops before a part of the text has scanned what lies before in the same way. -/
theorem ofText_of_rest_append (h : (ofText (cs ++ rest)).rest = rest) :
    ofText cs = ⟨(ofText (cs ++ rest)).segments, []⟩ := by
  have htext := ofText_append (cs ++ rest)
  have hscan := ofText_flatMap_segments (cs ++ rest)
  rw [h, List.append_left_inj] at htext
  rwa [htext] at hscan

/-- A scan stops where a text that can be scanned to its end, other than in a comment, comes before a
stuck one, and nowhere else. -/
theorem rest_append_eq_iff (hrest : rest ≠ []) : (ofText (cs ++ rest)).rest = rest ↔
    (ofText cs).rest = [] ∧
      (∀ g, (ofText cs).segments.getLast? = some g → g.rule ≠ .comment) ∧ Rule.Stuck rest := by
  constructor
  · intro h
    have hne : (ofText (cs ++ rest)).rest ≠ [] := by rwa [h]
    rw [ofText_of_rest_append h]
    refine ⟨rfl, rule_ne_comment_of_rest hne, ?_⟩
    rw [← h]
    exact stuck_rest hne
  · rintro ⟨hcs, hlast, hstuck⟩
    rw [ofText_append_stuck hcs hlast hstuck]

end Scan

/-! ## Texts that cannot be scanned -/

/-- A text with a given part at its end is refused with this part left. -/
theorem tokenize_append_eq_error_iff {p r : String} : tokenize (p ++ r) = .error (.unrecognised r) ↔
    r.toList ≠ [] ∧ (Scan.ofText (p.toList ++ r.toList)).rest = r.toList := by
  rw [tokenize_eq_error_iff, String.toList_append, Fault.unrecognised.injEq]
  constructor
  · rintro ⟨hne, hr⟩
    have hrest := congrArg String.toList hr
    rw [String.toList_ofList] at hrest
    exact ⟨hrest ▸ hne, hrest.symm⟩
  · rintro ⟨hne, hrest⟩
    rw [hrest, String.ofList_toList]
    exact ⟨hne, rfl⟩

/-- The characters of which every text can be scanned: those of names, blanks, and those that are marks by
themselves. -/
def isPlain (c : Char) : Bool :=
  isNamePart c || Text.isBlank c ||
    ['(', ')', '[', ']', '{', '}', ';', ':', ',', '?', '.', '<', '>', '=', '!', '+', '*', '/', '%',
     '-'].contains c

/-- A stuck text does not start with one of these characters. -/
theorem Rule.Stuck.isPlain_eq_false {c : Char} {rest : List Char} (h : Stuck (c :: rest)) :
    isPlain c = false := by
  cases h with
  | character h =>
    obtain ⟨hname, hblank, hopeners⟩ := h
    simp only [openers, List.mem_cons, List.not_mem_nil, or_false, not_or] at hopeners
    simp [isPlain, hname, hblank, hopeners]
  | quote | ampersand | bar => rfl

/-- A text is refused, with what is left of it, exactly if it is a text with tokens that does not end in
a comment, followed by what is left and to which no rule applies. The tokens made before are those of the
text in front. A text of plain characters is never refused. -/
theorem tokenize_eq_unrecognised_iff :
    (∀ source r : String, tokenize source = .error (.unrecognised r) ↔
      ∃ p, source = p ++ r ∧ (∃ tokens, tokenize p = .ok tokens) ∧
        (∀ g, (Scan.ofText p.toList).segments.getLast? = some g → g.rule ≠ .comment) ∧
        Rule.Stuck r.toList) ∧
    (∀ p r : String, tokenize (p ++ r) = .error (.unrecognised r) →
      ∃ ts, tokenize p = .ok (ts ++ [.endOfInput]) ∧
        tokenizeRun (p ++ r) = ⟨.fault (.unrecognised r), ts.map Event.pushed⟩) ∧
    ∀ source : String, (∀ c ∈ source.toList, isPlain c = true) → ∃ tokens, tokenize source = .ok tokens := by
  refine ⟨fun source r => ⟨fun h => ?_, ?_⟩, fun p r h => ?_, fun source hplain => ?_⟩
  · obtain ⟨-, hr⟩ := tokenize_eq_error_iff.1 h
    have hsplit : source = String.ofList ((Scan.ofText source.toList).segments.flatMap Segment.text) ++ r := by
      rw [Fault.unrecognised.inj hr, ← String.ofList_append, Scan.ofText_append, String.ofList_toList]
    generalize String.ofList ((Scan.ofText source.toList).segments.flatMap Segment.text) = p at hsplit
    rw [hsplit] at h
    obtain ⟨hne, hrest⟩ := tokenize_append_eq_error_iff.1 h
    obtain ⟨hp, hlast, hstuck⟩ := (Scan.rest_append_eq_iff hne).1 hrest
    exact ⟨p, hsplit, ⟨_, tokenize_eq_ok_iff.2 ⟨hp, rfl⟩⟩, hlast, hstuck⟩
  · rintro ⟨p, rfl, ⟨tokens, htokens⟩, hlast, hstuck⟩
    have hne : r.toList ≠ [] := by
      intro hnil
      rw [hnil] at hstuck
      cases hstuck
    have hp := (tokenize_eq_ok_iff.1 htokens).1
    exact tokenize_append_eq_error_iff.2 ⟨hne, (Scan.rest_append_eq_iff hne).2 ⟨hp, hlast, hstuck⟩⟩
  · obtain ⟨hne, hrest⟩ := tokenize_append_eq_error_iff.1 h
    have hp := Scan.ofText_of_rest_append hrest
    refine ⟨(Scan.ofText p.toList).tokens, tokenize_eq_ok_iff.2 ⟨by rw [hp], rfl⟩, ?_⟩
    rw [tokenizeRun_of_error h, hp, String.toList_append]
    rfl
  · cases htokens : tokenize source with
    | ok tokens => exact ⟨tokens, rfl⟩
    | error cause =>
      obtain ⟨hne, -⟩ := tokenize_eq_error_iff.1 htokens
      obtain ⟨c, rest, hrest⟩ := List.exists_cons_of_ne_nil hne
      have hstuck := Scan.stuck_rest hne
      have htext := Scan.ofText_append source.toList
      rw [hrest] at hstuck htext
      have hc : isPlain c = true := hplain c (by rw [← htext]; simp)
      rw [hstuck.isPlain_eq_false] at hc
      cases hc

/-- A line with a comment, and half a mark on the next line; and marks that might begin longer ones at the
end of a text. -/
theorem tokenize_eq_unrecognised_half :
    tokenize ("a//b\n" ++ "&|&") = .error (.unrecognised "&|&") ∧
      (∃ ts, tokenize "a//b\n" = .ok (ts ++ [.endOfInput]) ∧
        tokenizeRun ("a//b\n" ++ "&|&") = ⟨.fault (.unrecognised "&|&"), ts.map Event.pushed⟩) ∧
      ∃ tokens, tokenize "1.x/-" = .ok tokens := by
  have hscan : Scan.ofText "a//b\n".toList =
      ⟨[⟨.word, ['a']⟩, ⟨.comment, ['/', '/', 'b']⟩, ⟨.blank, ['\n']⟩], []⟩ := by
    with_unfolding_all rfl
  have hp : tokenize "a//b\n" = .ok [⟨.identifier, "a"⟩, .endOfInput] := by
    with_unfolding_all rfl
  have herror : tokenize ("a//b\n" ++ "&|&") = .error (.unrecognised "&|&") := by
    apply (tokenize_eq_unrecognised_iff.1 _ _).2
    refine ⟨"a//b\n", rfl, ⟨_, hp⟩, ?_, .ampersand (by decide)⟩
    rw [hscan]
    rintro g ⟨⟩
    decide
  refine ⟨herror, tokenize_eq_unrecognised_iff.2.1 _ _ herror, tokenize_eq_unrecognised_iff.2.2 _ ?_⟩
  exact List.all_eq_true.1 rfl

end ScriptFront
