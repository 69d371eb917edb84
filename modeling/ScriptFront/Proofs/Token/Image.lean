import ScriptFront.Proofs.Token.Spelling

/-!
# The tokens that texts have

Each rule makes well formed tokens only: what a rule takes off the front of a text has the form that the
kind of its token asks for (`Rule.wellFormed_of_token?`). So a text that can be scanned has well formed
tokens with one end token behind them, and since such tokens can be spelled, these are all the token lists
that texts have (`tokenize_image`).
-/

namespace ScriptFront

/-- The end token is the only one that no text is written for. -/
theorem Token.WellFormed.kind_ne_endOfInput {t : Token} (h : t.WellFormed) : t.kind ≠ .endOfInput := by
  cases h <;> nofun

theorem take_length_takeWhile (p : Char → Bool) (cs : List Char) :
    cs.take (cs.takeWhile p).length = cs.takeWhile p :=
  (List.prefix_iff_eq_take.1 (List.takeWhile_prefix p)).symm

/-- A text of the form of a name is a name or a reserved word. -/
theorem Token.wellFormed_ofWord {text : String} (hshape : ∃ c cs, text.toList = c :: cs ∧
    isNameStart c = true ∧ ∀ d ∈ cs, isNamePart d = true) :
    WellFormed ⟨Kind.ofWord text, text⟩ := by
  cases hword : Word.ofSpelling? text with
  | none =>
    have hfree : ∀ w : Word, w.spelling ≠ text := by
      intro w
      simpa using List.find?_eq_none.1 hword w w.mem_all
    rw [Kind.ofWord_of_free hfree]
    exact .identifier ⟨hshape, hfree⟩
  | some w =>
    have hspelling : w.spelling = text := by simpa using List.find?_some hword
    rw [← hspelling, Kind.ofWord_spelling]
    exact .word w

namespace Rule

variable {cs : List Char} {n : Nat} {t : Token}

/-- A fraction, where there is one, is a point and digits. -/
theorem take_fractionLength (cs : List Char) :
    cs.take (fractionLength cs) = [] ∨
      ∃ es, cs.take (fractionLength cs) = '.' :: es ∧ es ≠ [] ∧ ∀ e ∈ es, e.isDigit = true := by
  unfold fractionLength
  split
  · next d ds =>
    split
    · next hd =>
      right
      refine ⟨d :: ds.takeWhile Char.isDigit, ?_, List.cons_ne_nil d _, ?_⟩
      · rw [Nat.add_comm 2, List.take_succ_cons, List.take_succ_cons, take_length_takeWhile]
      · exact List.forall_mem_cons.2 ⟨hd, fun e => List.mem_takeWhile_imp⟩
    · exact .inl rfl
  · exact .inl rfl

/-- What the rule for numbers takes is a numeral. -/
theorem isNumeral_take (h : number.matchLength? cs = some n) : IsNumeral (cs.take n) := by
  cases cs with
  | nil => cases h
  | cons d ds =>
    rw [matchLength?] at h
    split at h
    · next hd =>
      cases h
      have hdigits : ∀ e ∈ d :: ds.takeWhile Char.isDigit, e.isDigit = true :=
        List.forall_mem_cons.2 ⟨hd, fun e => List.mem_takeWhile_imp⟩
      have htake (k : Nat) : (d :: ds).take (1 + (ds.takeWhile Char.isDigit).length + k) =
          (d :: ds.takeWhile Char.isDigit) ++ (ds.dropWhile Char.isDigit).take k := by
        rw [Nat.add_assoc, Nat.add_comm 1, List.take_succ_cons, List.cons_append,
          ← List.take_length_add_append, List.takeWhile_append_dropWhile]
      rw [htake]
      obtain hfraction | ⟨es, hfraction, hne, hes⟩ := take_fractionLength (ds.dropWhile Char.isDigit)
      · rw [hfraction, List.append_nil]
        exact .whole (List.cons_ne_nil d _) hdigits
      · rw [hfraction]
        exact .fraction (List.cons_ne_nil d _) hdigits hne hes
    · cases h

/-- What the rule for words takes has the form of a name. -/
theorem exists_take_word (h : word.matchLength? cs = some n) :
    ∃ c ds, cs.take n = c :: ds ∧ isNameStart c = true ∧ ∀ d ∈ ds, isNamePart d = true := by
  cases cs with
  | nil => cases h
  | cons c ds =>
    rw [matchLength?] at h
    split at h
    · next hc =>
      cases h
      refine ⟨c, ds.takeWhile isNamePart, ?_, hc, fun d => List.mem_takeWhile_imp⟩
      rw [Nat.add_comm 1, List.take_succ_cons, take_length_takeWhile]
    · cases h

/-- What the rule for a mark takes is its spelling. -/
theorem take_mark {m : Mark} (h : (mark m).matchLength? cs = some n) : cs.take n = m.spelling := by
  rw [matchLength?] at h
  split at h
  · next hspelling =>
    cases h
    exact (List.prefix_iff_eq_take.1 (List.isPrefixOf_iff_prefix.1 hspelling)).symm
  · cases h

/-- A rule makes a well formed token from what it takes off the front of a text. -/
theorem wellFormed_of_token? {rule : Rule} (h : rule.matchLength? cs = some n)
    (ht : rule.token? (cs.take n) = some t) : t.WellFormed := by
  cases rule with
  | word =>
    cases ht
    refine Token.wellFormed_ofWord ?_
    rw [String.toList_ofList]
    exact exists_take_word h
  | number =>
    cases ht
    refine .number ?_
    rw [String.toList_ofList]
    exact isNumeral_take h
  | quoted =>
    cases ht
    exact .string _
  | mark m =>
    cases ht
    rw [take_mark h]
    exact .mark m
  | blank | comment => cases ht

end Rule

/-- The tokens of a text are well formed. -/
theorem Scan.wellFormed_of_mem_tokens (cs : List Char) : ∀ t ∈ (ofText cs).tokens, t.WellFormed := by
  fun_induction ofText cs with
  | case1 cs h =>
    intro t ht
    cases ht
  | case2 cs rule n h _ tail ih =>
    intro t ht
    obtain ⟨segment, hsegment, ht⟩ := List.mem_filterMap.1 ht
    rcases List.mem_cons.1 hsegment with rfl | hsegment
    · exact Rule.wellFormed_of_token? (Rule.first?_eq_some h).2 ht
    · exact ih t (List.mem_filterMap.2 ⟨segment, hsegment, ht⟩)

theorem Scan.kind_ne_endOfInput {cs : List Char} :
    ∀ t ∈ (ofText cs).tokens, t.kind ≠ .endOfInput := fun t ht =>
  (wellFormed_of_mem_tokens cs t ht).kind_ne_endOfInput

/-- A text that can be scanned has well formed tokens, with one end token behind them and none among them;
and any well formed tokens are those of the text that spells them. -/
theorem tokenize_image :
    (∀ source tokens, tokenize source = .ok tokens →
      ∃ ts, tokens = ts ++ [.endOfInput] ∧ (∀ t ∈ ts, t.WellFormed) ∧
        ∀ t ∈ ts, t.kind ≠ .endOfInput) ∧
    ∀ ts : List Token, (∀ t ∈ ts, t.WellFormed) → tokenize (render ts) = .ok (ts ++ [.endOfInput]) := by
  refine ⟨fun source tokens h => ?_, fun ts hts => tokenize_render hts⟩
  rw [tokenize, Scan.result] at h
  split at h
  · cases h
    exact ⟨_, rfl, Scan.wellFormed_of_mem_tokens source.toList, Scan.kind_ne_endOfInput⟩
  · cases h

/-- A number takes no point that digits do not follow; a string that holds a quote before digits and ends
in a backslash is scanned as what it is. -/
theorem tokenize_image_point_and_quote :
    (∃ ts : List Token, [⟨.number, "1"⟩, ⟨.mark .dot, "."⟩, ⟨.identifier, "iffy"⟩, .endOfInput] =
        ts ++ [.endOfInput] ∧ (∀ t ∈ ts, t.WellFormed) ∧ ∀ t ∈ ts, t.kind ≠ .endOfInput) ∧
      tokenize (render [⟨.identifier, "iffy"⟩, ⟨.string, "\"22\\"⟩, ⟨.number, "1.5"⟩]) =
        .ok [⟨.identifier, "iffy"⟩, ⟨.string, "\"22\\"⟩, ⟨.number, "1.5"⟩, .endOfInput] := by
  constructor
  · exact tokenize_image.1 "1.iffy" _ (by with_unfolding_all rfl)
  · have hname : IsName "iffy" :=
      ⟨⟨_, _, rfl, rfl, List.all_eq_true.1 rfl⟩, fun w => by cases w <;> decide⟩
    have hnumber : IsNumeral (['1'] ++ '.' :: ['5']) :=
      .fraction (by decide) (List.all_eq_true.1 rfl) (by decide) (List.all_eq_true.1 rfl)
    refine tokenize_image.2 [_, _, _] ?_
    simp only [List.forall_mem_cons, List.not_mem_nil]
    exact ⟨.identifier hname, .string _, .number hnumber, nofun⟩

end ScriptFront
