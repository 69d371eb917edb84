import ScriptFront.Proofs.Token.Match

/-!
# How tokens are spelled

A token is well formed if a source text can have it: a number has the form of one, a name is not
reserved, reserved words and marks have their own spelling, and a string may have any text. A well
formed token is spelled by its lexeme, a string in quotes and with its backslashes and quotes escaped.
Tokens that are spelled with blanks between them are scanned as what they are (`tokenize_render`).
-/

namespace ScriptFront

/-- Digits, perhaps with a point and more digits behind. -/
inductive IsNumeral : List Char → Prop where
  | whole {ds : List Char} (hne : ds ≠ []) (hds : ∀ d ∈ ds, d.isDigit = true) : IsNumeral ds
  | fraction {ds es : List Char} (hne : ds ≠ []) (hds : ∀ d ∈ ds, d.isDigit = true) (hne' : es ≠ [])
      (hes : ∀ e ∈ es, e.isDigit = true) : IsNumeral (ds ++ '.' :: es)

/-- Letters, digits and underscores, of which a digit is not the first, that are no reserved word. -/
structure IsName (text : String) : Prop where
  shape : ∃ c cs, text.toList = c :: cs ∧ isNameStart c = true ∧ ∀ d ∈ cs, isNamePart d = true
  free : ∀ w : Word, w.spelling ≠ text

/-- A numeral begins with a digit. -/
theorem IsNumeral.exists_head {cs : List Char} (h : IsNumeral cs) :
    ∃ d ds, cs = d :: ds ∧ d.isDigit = true := by
  cases h with
  | whole hne hds | fraction hne hds =>
    obtain ⟨d, ds, rfl⟩ := List.exists_cons_of_ne_nil hne
    exact ⟨d, _, rfl, hds d List.mem_cons_self⟩

/-- The token of a mark. -/
def Mark.token (m : Mark) : Token := ⟨.mark m, String.ofList m.spelling⟩

/-- The token of a reserved word. -/
def Word.token (w : Word) : Token := ⟨.word w, w.spelling⟩

/-- A text as it stands in a string literal: each backslash twice, each quote by its number. -/
def escape (cs : List Char) : List Char :=
  cs.flatMap fun c =>
    if c = '\\' then ['\\', '\\'] else if c = '"' then ['\\', 'x', '2', '2'] else [c]

namespace Token

/-- The tokens, other than the end token, that a source text can have. -/
inductive WellFormed : Token → Prop where
  | number {lexeme : String} (h : IsNumeral lexeme.toList) : WellFormed ⟨.number, lexeme⟩
  | identifier {name : String} (h : IsName name) : WellFormed ⟨.identifier, name⟩
  | string (text : String) : WellFormed ⟨.string, text⟩
  | word (w : Word) : WellFormed w.token
  | mark (m : Mark) : WellFormed m.token

/-- The characters that write a token. -/
def spelling (t : Token) : List Char :=
  if t.kind = .string then '"' :: (escape t.lexeme.toList ++ ['"']) else t.lexeme.toList

end Token

/-- A text that consists of the tokens with a blank between any two. -/
def render (ts : List Token) : String :=
  String.ofList ([' '].intercalate (ts.map Token.spelling))

/-! ## Strings -/

theorem unescape_cons_of_ne {c : Char} (cs : List Char) (h : c ≠ '\\') :
    unescape (c :: cs) = c :: unescape cs := by
  rw [unescape, if_neg h]

theorem unescape_of_read? {cs : List Char} {c : Char} {used : Nat}
    (h : Escape.read? cs = some (c, used)) :
    unescape ('\\' :: cs) = c :: unescape (cs.drop used) := by
  rw [unescape, if_pos rfl, h]

/-- A literal denotes the text that was escaped for it. -/
theorem unescape_escape (cs : List Char) : unescape (escape cs) = cs := by
  induction cs with
  | nil =>
    rw [escape, List.flatMap_nil, unescape]
  | cons c cs ih =>
    have hcons : escape (c :: cs) = (if c = '\\' then ['\\', '\\'] else
      if c = '"' then ['\\', 'x', '2', '2'] else [c]) ++ escape cs := List.flatMap_cons
    rw [hcons]
    split
    · next hc =>
      rw [List.cons_append, unescape_of_read? rfl, hc]
      exact congrArg _ ih
    · next hbackslash =>
      split
      · next hc =>
        -- two digits are read after the `x`, so digits that follow do not join them
        rw [List.cons_append, unescape_of_read? rfl, hc]
        exact congrArg _ ih
      · rw [List.singleton_append, unescape_cons_of_ne _ hbackslash, ih]

theorem quote_not_mem_escape (cs : List Char) : '"' ∉ escape cs := by
  intro h
  obtain ⟨c, -, hc⟩ := List.mem_flatMap.1 h
  split at hc
  · simp at hc
  · split at hc
    · simp at hc
    · next hne => exact hne (List.mem_singleton.1 hc).symm

/-! ## Words -/

theorem Kind.ofWord_spelling (w : Word) : ofWord w.spelling = .word w := by
  cases w <;> decide

theorem Kind.ofWord_of_free {text : String} (h : ∀ w : Word, w.spelling ≠ text) :
    ofWord text = .identifier := by
  have hnone : Word.ofSpelling? text = none := by
    refine List.find?_eq_none.2 fun w _ => ?_
    simpa using h w
  simp only [ofWord, hnone]

theorem Word.shape_spelling (w : Word) : ∃ c cs, w.spelling.toList = c :: cs ∧
    isNameStart c = true ∧ ∀ d ∈ cs, isNamePart d = true := by
  cases w <;> exact ⟨_, _, rfl, rfl, List.all_eq_true.1 rfl⟩

/-! ## The rule for each token -/

namespace Rule

variable {c : Char} {cs : List Char}

theorem first?_word (hc : isNameStart c = true) (hcs : ∀ d ∈ cs, isNamePart d = true) :
    first? (c :: cs) = some (word, (c :: cs).length) := by
  have hmatch : word.matchLength? (c :: cs) = some (c :: cs).length := by
    rw [matchLength?, if_pos hc, List.takeWhile_eq_self_iff.2 hcs, List.length_cons, Nat.add_comm]
  rw [first?, all, List.cons_append, List.findSome?_cons, hmatch]
  rfl

/-- A numeral begins with a digit, and the digits and the fraction after it make up the rest. -/
theorem matchLength?_number (hcs : IsNumeral cs) : number.matchLength? cs = some cs.length := by
  cases hcs with
  | @whole ds hne hds =>
    obtain ⟨d, ds, rfl⟩ := List.exists_cons_of_ne_nil hne
    obtain ⟨hd, hds⟩ := List.forall_mem_cons.1 hds
    rw [matchLength?, if_pos hd, List.takeWhile_eq_self_iff.2 hds, List.dropWhile_eq_nil_iff.2 hds,
      List.length_cons, Nat.add_comm 1]
    rfl
  | @fraction ds es hne hds hne' hes =>
    obtain ⟨d, ds, rfl⟩ := List.exists_cons_of_ne_nil hne
    obtain ⟨hd, hds⟩ := List.forall_mem_cons.1 hds
    obtain ⟨e, es, rfl⟩ := List.exists_cons_of_ne_nil hne'
    obtain ⟨he, hes⟩ := List.forall_mem_cons.1 hes
    have hpoint : '.'.isDigit = false := rfl
    rw [List.cons_append, matchLength?, if_pos hd, takeWhile_append_stop hpoint,
      dropWhile_append_stop hpoint, List.takeWhile_eq_self_iff.2 hds, List.dropWhile_eq_nil_iff.2 hds,
      List.nil_append, fractionLength, if_pos he, List.takeWhile_eq_self_iff.2 hes]
    simp only [List.length_cons, List.length_append]
    congr 1
    omega

theorem first?_number (hcs : IsNumeral cs) : first? cs = some (number, cs.length) := by
  refine first?_of_append [word] _ rfl (matchLength?_number hcs) ?_
  rw [List.forall_mem_singleton]
  obtain ⟨d, ds, rfl, hd⟩ := hcs.exists_head
  rw [matchLength?, isNameStart_of_isDigit hd]
  rfl

theorem first?_quoted (hcs : '"' ∉ cs) :
    first? ('"' :: (cs ++ ['"'])) = some (quoted, ('"' :: (cs ++ ['"'])).length) := by
  have hrun : (cs ++ ['"']).takeWhile (· != '"') = cs := by
    rw [takeWhile_append_stop (by simp), List.takeWhile_eq_self_iff]
    intro c hc
    have hne : c ≠ '"' := by
      rintro rfl
      exact hcs hc
    simpa using hne
  refine first?_of_append [word, number, blank] _ rfl ?_ ?_
  · refine matchLength?_quoted_eq_some.2 ⟨_, rfl, by simp, ?_⟩
    rw [hrun]
    simp only [List.length_cons, List.length_append, List.length_nil]
    omega
  · simp only [List.forall_mem_cons, List.not_mem_nil]
    exact ⟨rfl, rfl, rfl, nofun⟩

theorem first?_mark (m : Mark) : first? m.spelling = some (mark m, m.spelling.length) := by
  cases m <;> rfl

end Rule

namespace Token

variable {t : Token}

@[simp] theorem spelling_string (text : String) :
    spelling ⟨.string, text⟩ = '"' :: (escape text.toList ++ ['"']) := rfl

theorem spelling_of_ne {t : Token} (h : t.kind ≠ .string) : t.spelling = t.lexeme.toList :=
  if_neg h

/-- A rule takes a well formed token as it is spelled, and makes that token from it. -/
theorem WellFormed.exists_rule (h : t.WellFormed) :
    ∃ rule, Rule.first? t.spelling = some (rule, t.spelling.length) ∧
      rule.token? t.spelling = some t := by
  have word {text : String} {kind : Kind} (hkind : kind ≠ .string) (hword : Kind.ofWord text = kind)
      (hshape : ∃ c cs, text.toList = c :: cs ∧ isNameStart c = true ∧
        ∀ d ∈ cs, isNamePart d = true) :
      Rule.first? (spelling ⟨kind, text⟩) = some (.word, (spelling ⟨kind, text⟩).length) ∧
        Rule.word.token? (spelling ⟨kind, text⟩) = some ⟨kind, text⟩ := by
    obtain ⟨c, cs, heq, hc, hcs⟩ := hshape
    rw [spelling_of_ne hkind, Rule.token?, String.ofList_toList, hword, heq]
    exact ⟨Rule.first?_word hc hcs, rfl⟩
  cases h with
  | number h =>
    refine ⟨.number, Rule.first?_number h, ?_⟩
    rw [spelling_of_ne (by simp), Rule.token?, String.ofList_toList]
  | identifier h => exact ⟨.word, word (by simp) (Kind.ofWord_of_free h.free) h.shape⟩
  | word w => exact ⟨.word, word (by simp) (Kind.ofWord_spelling w) w.shape_spelling⟩
  | string text =>
    refine ⟨.quoted, Rule.first?_quoted (quote_not_mem_escape text.toList), ?_⟩
    simp only [spelling_string, Rule.token?, List.drop_succ_cons, List.drop_zero,
      List.dropLast_concat, unescape_escape, String.ofList_toList]
  | mark m =>
    have hspelling : m.token.spelling = m.spelling := String.toList_ofList
    rw [hspelling]
    exact ⟨.mark m, Rule.first?_mark m, rfl⟩

end Token

/-! ## Texts of spelled tokens -/

namespace Scan

/-- A well formed token with a blank behind it is scanned, and then the rest. -/
theorem ofText_spelling_append {t : Token} (ht : t.WellFormed) (rest : List Char) :
    (ofText (t.spelling ++ ' ' :: rest)).tokens = t :: (ofText rest).tokens ∧
      (ofText (t.spelling ++ ' ' :: rest)).rest = (ofText rest).rest := by
  obtain ⟨rule, hfirst, htoken⟩ := ht.exists_rule
  have hblank : rule ≠ .blank := by
    rintro rfl
    cases htoken
  have hcomment : rule ≠ .comment := by
    rintro rfl
    cases htoken
  have hfirst' := Rule.first?_append_blank rest (c := ' ') (by decide) hblank (absurd · hcomment) hfirst
  have hscan := ofText_append_of_first? hfirst'
  have hrest := ofText_cons_of_isBlank (c := ' ') rest (by decide)
  rw [htoken] at hscan
  exact ⟨hscan.1.trans (congrArg _ hrest.1), hscan.2.trans hrest.2⟩

/-- A text of well formed tokens has just these tokens. -/
theorem ofText_intercalate {ts : List Token} (hts : ∀ t ∈ ts, t.WellFormed) :
    (ofText ([' '].intercalate (ts.map Token.spelling))).tokens = ts ∧
      (ofText ([' '].intercalate (ts.map Token.spelling))).rest = [] := by
  induction ts with
  | nil =>
    rw [List.map_nil, List.intercalate_nil, ofText_nil]
    exact ⟨rfl, rfl⟩
  | cons t ts ih =>
    obtain ⟨ht, hts⟩ := List.forall_mem_cons.1 hts
    cases ts with
    | nil =>
      obtain ⟨rule, hfirst, htoken⟩ := ht.exists_rule
      rw [← List.append_nil t.spelling, List.length_append, List.length_nil, Nat.add_zero] at hfirst
      have hscan := ofText_append_of_first? hfirst
      rw [htoken, ofText_nil, List.append_nil] at hscan
      rw [List.map_singleton, List.intercalate_singleton]
      exact hscan
    | cons u us =>
      rw [List.map_cons, List.map_cons, List.intercalate_cons_cons, List.append_assoc,
        List.singleton_append, ← List.map_cons]
      have hscan := ofText_spelling_append ht ([' '].intercalate ((u :: us).map Token.spelling))
      obtain ⟨htokens, hrest⟩ := ih hts
      exact ⟨hscan.1.trans (congrArg _ htokens), hscan.2.trans hrest⟩

end Scan

/-- Tokens that are spelled with blanks between them are scanned as what they are. -/
theorem tokenize_render {ts : List Token} (hts : ∀ t ∈ ts, t.WellFormed) :
    tokenize (render ts) = .ok (ts ++ [.endOfInput]) := by
  obtain ⟨htokens, hrest⟩ := Scan.ofText_intercalate hts
  rw [tokenize, render, String.toList_ofList, Scan.result, if_pos hrest, htokens]

end ScriptFront
