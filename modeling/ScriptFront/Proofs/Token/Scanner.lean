import ScriptFront.Parse.Program
import ScriptFront.Proofs.Token.Longest

/-!
# The scanner cuts well

A cut in the middle of a character, beyond the end or with its ends the wrong way round has no answer
(`Text.slice?_isSome_iff`), so each turn of the scanner could go wrong (`Scanner.Turn.badCut`).

It never does. The cursor stands between the characters that are used up and those that are left
(`Scanner.Stands`), which the length of a match in bytes keeps so, as it is that of some of the characters
that are left. Each turn uses up a byte at least and the scanner ends with the tokens of the source
(`Scanner.loop_sound`), of which it has reported each one that it made (`tokenizeRun_of_ok`,
`tokenizeRun_of_error`).
-/

namespace ScriptFront

/-! ## Cuts -/

namespace Text

theorem byteLength_eq_zero_iff {cs : List Char} : byteLength cs = 0 ↔ cs = [] := by
  cases cs with
  | nil => simp
  | cons c cs =>
    have hpos := c.utf8Size_pos
    simp only [byteLength_cons, reduceCtorEq, iff_false]
    omega

theorem size_utf8Encode (cs : List Char) : cs.utf8Encode.size = byteLength cs := by
  induction cs with
  | nil => simp
  | cons c cs ih =>
    rw [List.utf8Encode_cons, ByteArray.size_append, ih, List.utf8Encode_singleton]
    simp

theorem byteLength_toList (source : String) : byteLength source.toList = source.utf8ByteSize := by
  rw [← size_utf8Encode, String.utf8Encode_toList, String.size_toByteArray]

theorem dropBytes?_eq_some_iff {n : Nat} {cs after : List Char} :
    dropBytes? n cs = some after ↔ ∃ before, cs = before ++ after ∧ byteLength before = n := by
  constructor
  · intro h
    fun_induction dropBytes? n cs with
    | case1 cs =>
      cases h
      exact ⟨[], rfl, rfl⟩
    | case2 => cases h
    | case3 n c cs hc ih =>
      obtain ⟨before, rfl, hbefore⟩ := ih h
      refine ⟨c :: before, rfl, ?_⟩
      rw [byteLength_cons]
      omega
    | case4 => cases h
  · rintro ⟨before, rfl, rfl⟩
    exact dropBytes?_byteLength_append before after

theorem takeBytes?_eq_some_iff {n : Nat} {cs front : List Char} :
    takeBytes? n cs = some front ↔ ∃ after, cs = front ++ after ∧ byteLength front = n := by
  constructor
  · intro h
    fun_induction takeBytes? n cs generalizing front with
    | case1 cs =>
      cases h
      exact ⟨cs, rfl, rfl⟩
    | case2 => cases h
    | case3 n c cs hc ih =>
      obtain ⟨front, hfront, rfl⟩ := Option.map_eq_some_iff.1 h
      obtain ⟨after, rfl, hlength⟩ := ih hfront
      refine ⟨after, rfl, ?_⟩
      rw [byteLength_cons]
      omega
    | case4 => cases h
  · rintro ⟨after, rfl, rfl⟩
    exact takeBytes?_byteLength_append front after

theorem slice?_eq_some_iff {start stop : Nat} {cs middle : List Char} :
    slice? start stop cs = some middle ↔ ∃ before after, cs = before ++ middle ++ after ∧
      byteLength before = start ∧ byteLength (before ++ middle) = stop := by
  constructor
  · intro h
    unfold slice? at h
    split at h
    · next hle =>
      obtain ⟨rest, hdrop, htake⟩ := Option.bind_eq_some_iff.1 h
      obtain ⟨before, rfl, hstart⟩ := dropBytes?_eq_some_iff.1 hdrop
      obtain ⟨after, rfl, hlength⟩ := takeBytes?_eq_some_iff.1 htake
      refine ⟨before, after, (List.append_assoc ..).symm, hstart, ?_⟩
      rw [byteLength_append]
      omega
    · cases h
  · rintro ⟨before, after, rfl, rfl, rfl⟩
    have hlength : byteLength (before ++ middle) - byteLength before = byteLength middle := by
      rw [byteLength_append]
      omega
    rw [slice?, if_pos (by rw [byteLength_append]; omega), hlength, List.append_assoc,
      dropBytes?_byteLength_append]
    exact takeBytes?_byteLength_append middle after

/-- The positions between characters are the valid ones of the text. -/
theorem isValid_iff {source : String} {n : Nat} : (String.Pos.Raw.mk n).IsValid source ↔
    ∃ before after, source.toList = before ++ after ∧ byteLength before = n := by
  rw [String.Pos.Raw.isValid_iff_exists_append]
  constructor
  · rintro ⟨before, after, rfl, hn⟩
    refine ⟨before.toList, after.toList, String.toList_append, ?_⟩
    rw [byteLength_toList]
    exact (congrArg String.Pos.Raw.byteIdx hn).symm
  · rintro ⟨before, after, heq, rfl⟩
    refine ⟨String.ofList before, String.ofList after, ?_, ?_⟩
    · rw [← String.ofList_append, ← heq, String.ofList_toList]
    · apply String.Pos.Raw.ext
      rw [String.byteIdx_rawEndPos, ← byteLength_toList, String.toList_ofList]

/-- A text can be cut exactly at two valid positions in their order. -/
theorem slice?_isSome_iff {start stop : Nat} {source : String} :
    (slice? start stop source.toList).isSome ↔ start ≤ stop ∧
      (String.Pos.Raw.mk start).IsValid source ∧ (String.Pos.Raw.mk stop).IsValid source := by
  rw [Option.isSome_iff_exists]
  simp only [isValid_iff]
  constructor
  · rintro ⟨middle, h⟩
    obtain ⟨before, after, heq, rfl, rfl⟩ := slice?_eq_some_iff.1 h
    refine ⟨by rw [byteLength_append]; omega, ⟨before, middle ++ after, ?_, rfl⟩, _, after, heq, rfl⟩
    rw [heq, List.append_assoc]
  · rintro ⟨hle, ⟨before, rest, heq, rfl⟩, ⟨front, after, heq', rfl⟩⟩
    rcases List.append_eq_append_iff.1 (heq.symm.trans heq') with ⟨middle, rfl, rfl⟩ | ⟨middle, rfl, rfl⟩
    · exact ⟨middle, slice?_eq_some_iff.2 ⟨before, after, heq', rfl, rfl⟩⟩
    · -- the second position is not before the first, so nothing lies between the two
      rw [byteLength_append] at hle
      have hmiddle : middle = [] := byteLength_eq_zero_iff.1 (by omega)
      subst hmiddle
      exact ⟨[], slice?_eq_some_iff.2 ⟨front, rest, by simpa using heq, by simp, by simp⟩⟩

end Text

open Text (byteLength slice?)

/-! ## The scanner -/

namespace Rule

theorem firstBytes?_eq (cs : List Char) :
    firstBytes? cs = (first? cs).map fun (rule, n) => (rule, byteLength (cs.take n)) := by
  rw [first?, List.map_findSome?, firstBytes?]
  congr 1
  funext rule
  simp [matchBytes?, Function.comp_def]

theorem byteLength_take_pos {rule : Rule} {cs : List Char} {n : Nat}
    (h : rule.matchLength? cs = some n) : 0 < byteLength (cs.take n) := by
  have hpos := matchLength?_pos h
  have hle := matchLength?_le h
  rw [Nat.pos_iff_ne_zero, ne_eq, Text.byteLength_eq_zero_iff, ← List.length_eq_zero_iff,
    List.length_take]
  omega

end Rule

/-- What the scanner of a text reports: its tokens, and at the end of the text the end token and how many
there are with it. -/
def Scan.events (s : Scan) : List Event :=
  s.tokens.map .pushed ++
    if s.rest = [] then [.pushed .endOfInput, .tokenized (s.tokens.length + 1)] else []

namespace Scanner

/-- The scanner that the loop over the source has come to after so many turns. -/
inductive Reaches (source : String) : Nat → Scanner → Prop where
  | start : Reaches source 0 (.ofText source)
  | again {k : Nat} {l l' : Scanner} (h : Reaches source k l) (hturn : l.turn = .again l') :
    Reaches source (k + 1) l'

theorem cursor_pass (l : Scanner) (token? : Option Token) (len : Nat) :
    (l.pass token? len).cursor = l.cursor.advance len := by
  cases token? <;> rfl

/-! ## Where the cursor stands -/

/-- After `k` turns the scanner stands in the source between `before` and `after`; the scan of `after` makes
the tokens that are missing, and the others have been reported. -/
structure Stands (source : String) (k : Nat) (before after : List Char) (l : Scanner) : Prop where
  split : source.toList = before ++ after
  text : l.cursor.text = before ++ after
  position : l.cursor.position = byteLength before
  turns : k ≤ byteLength before
  tokens : l.tokens.reverse ++ (Scan.ofText after).tokens = (Scan.ofText source.toList).tokens
  log : l.log = l.tokens.map .pushed
  rest : (Scan.ofText after).rest = (Scan.ofText source.toList).rest

namespace Stands

variable {source : String} {k n : Nat} {before after : List Char} {l : Scanner} {rule : Rule}

theorem start (source : String) : Stands source 0 [] source.toList (.ofText source) where
  split := rfl
  text := rfl
  position := rfl
  turns := Nat.le_refl 0
  tokens := rfl
  log := rfl
  rest := rfl

theorem remainder?_eq (h : Stands source k before after l) :
    l.cursor.remainder? = some (String.ofList after) := by
  rw [Text.Cursor.remainder?, h.text, h.position, Text.dropBytes?_byteLength_append]
  rfl

theorem taken?_eq (h : Stands source k before after l) (n : Nat) :
    l.cursor.taken? (byteLength (after.take n)) = some (String.ofList (after.take n)) := by
  have htake := Text.takeBytes?_byteLength_append (after.take n) (after.drop n)
  rw [List.take_append_drop] at htake
  rw [Text.Cursor.taken?, h.text, h.position, Text.dropBytes?_byteLength_append, Option.bind_some, htake]
  rfl

theorem atEnd_iff (h : Stands source k before after l) : l.cursor.atEnd = true ↔ after = [] := by
  rw [Text.Cursor.atEnd, h.text, h.position, decide_eq_true_iff, Text.byteLength_append,
    ← Text.byteLength_eq_zero_iff]
  omega

/-- The quotes around a string are one byte each. -/
theorem slice?_quoted {text : List Char} (h : Rule.quoted.Accepts text) :
    slice? 1 (byteLength text - 1) text = some (text.drop 1).dropLast := by
  cases h with
  | quoted _ =>
    have hquote : '"'.utf8Size = 1 := rfl
    refine Text.slice?_eq_some_iff.2 ⟨['"'], ['"'], by simp, hquote, ?_⟩
    simp only [List.drop_one, List.tail_cons, List.dropLast_concat, Text.byteLength_append,
      Text.byteLength_cons, Text.byteLength_nil, hquote]
    omega

theorem cut?_eq (h : Stands source k before after l) (hmatch : rule.matchLength? after = some n) :
    rule.cut? l.cursor (byteLength (after.take n)) = some (rule.token? (after.take n)) := by
  cases rule with
  | blank | comment => rfl
  | quoted =>
    have hslice := slice?_quoted (Rule.accepts_take hmatch)
    rw [Rule.cut?, h.taken?_eq, Option.bind_some, String.toList_ofList, hslice]
    rfl
  | word | number | mark =>
    rw [Rule.cut?, h.taken?_eq, Option.map_some, String.toList_ofList]

/-- Where no rule applies, the turn is the last one. -/
theorem turn_of_none (h : Stands source k before after l) (hfirst : Rule.first? after = none) :
    ∃ last, l.turn = .finished (tokenize source) last ∧ last.events = (Scan.ofText source.toList).events := by
  have htokens := h.tokens
  have hrest := h.rest
  rw [Scan.ofText_of_none hfirst] at htokens hrest
  have htokens : l.tokens.reverse = (Scan.ofText source.toList).tokens := by simpa [Scan.tokens] using htokens
  rw [tokenize, Scan.result, Scan.events, ← htokens, ← hrest, turn]
  -- no rule applies at the end of the source either, but there it is no fault
  by_cases hend : after = []
  · rw [if_pos (h.atEnd_iff.2 hend), if_pos hend, if_pos hend]
    refine ⟨(l.push .endOfInput).record (.tokenized (l.tokens.length + 1)), ?_, ?_⟩
    · simp [push, record]
    · simp [events, push, record, h.log]
  · rw [if_neg (mt h.atEnd_iff.1 hend), if_neg hend, if_neg hend, h.remainder?_eq]
    simp only [String.toList_ofList, Rule.firstBytes?_eq, hfirst, Option.map_none]
    exact ⟨l, rfl, by simp [events, h.log]⟩

theorem turn_of_some (h : Stands source k before after l) (hfirst : Rule.first? after = some (rule, n)) :
    l.turn = .again (l.pass (rule.token? (after.take n)) (byteLength (after.take n))) := by
  have hmatch := (Rule.first?_eq_some hfirst).2
  have hne : after ≠ [] := by
    rintro rfl
    exact absurd (Rule.byteLength_take_pos hmatch) (by simp)
  rw [turn, if_neg (mt h.atEnd_iff.1 hne), h.remainder?_eq]
  simp only [String.toList_ofList, Rule.firstBytes?_eq, hfirst, Option.map_some, h.cut?_eq hmatch]

theorem pass (h : Stands source k before after l) (hfirst : Rule.first? after = some (rule, n)) :
    Stands source (k + 1) (before ++ after.take n) (after.drop n)
      (l.pass (rule.token? (after.take n)) (byteLength (after.take n))) := by
  have hparts : before ++ after.take n ++ after.drop n = before ++ after := by
    rw [List.append_assoc, List.take_append_drop]
  have hpos := Rule.byteLength_take_pos (Rule.first?_eq_some hfirst).2
  have htokens := h.tokens
  have hrest := h.rest
  rw [Scan.ofText_of_some hfirst] at htokens hrest
  constructor
  · rw [hparts, h.split]
  · rw [hparts, cursor_pass]
    exact h.text
  · rw [Text.byteLength_append, ← h.position, cursor_pass]
    rfl
  · -- the turn has used up the bytes of the match, of which there is one at least
    have hturns := h.turns
    rw [Text.byteLength_append]
    omega
  · rw [← htokens, Scan.tokens, Scan.tokens, List.filterMap_cons, Segment.token?]
    cases rule.token? (after.take n) <;> simp [Scanner.pass, push, record]
  · have hlog := h.log
    cases rule.token? (after.take n) <;> simp [Scanner.pass, push, record, hlog]
  · exact hrest

/-- A turn uses up the bytes of the match, of which there is one at least. -/
theorem left_pass_lt (h : Stands source k before after l) (hfirst : Rule.first? after = some (rule, n)) :
    (l.pass (rule.token? (after.take n)) (byteLength (after.take n))).cursor.left < l.cursor.left := by
  have hpos := Rule.byteLength_take_pos (Rule.first?_eq_some hfirst).2
  have hlength := congrArg byteLength (List.take_append_drop n after)
  rw [Text.byteLength_append] at hlength
  rw [cursor_pass]
  show byteLength l.cursor.text - (l.cursor.position + _) < byteLength l.cursor.text - l.cursor.position
  rw [h.text, h.position, Text.byteLength_append]
  omega

end Stands

/-! ## The loop -/

theorem Reaches.stands {source : String} {k : Nat} {l : Scanner} (h : Reaches source k l) :
    ∃ before after, Stands source k before after l := by
  induction h with
  | start => exact ⟨_, _, .start source⟩
  | again _ hturn ih =>
    obtain ⟨before, after, hl⟩ := ih
    cases hfirst : Rule.first? after with
    | none =>
      obtain ⟨last, hlast, -⟩ := hl.turn_of_none hfirst
      rw [hlast] at hturn
      cases hturn
    | some found =>
      rw [hl.turn_of_some hfirst, Turn.again.injEq] at hturn
      exact ⟨_, _, hturn ▸ hl.pass hfirst⟩

/-- What is left gets shorter with each turn, so that the loop ends. -/
theorem Reaches.exists_finished {source : String} {k : Nat} {before after : List Char} {l : Scanner}
    (h : Reaches source k l) (hl : Stands source k before after l) :
    ∃ k' l' last, Reaches source k' l' ∧ l'.turn = .finished (tokenize source) last ∧
      l.loop = some (tokenize source, last) ∧ last.events = (Scan.ofText source.toList).events := by
  induction hn : after.length using Nat.strongRecOn generalizing k before after l with
  | ind m ih =>
    subst hn
    cases hfirst : Rule.first? after with
    | none =>
      obtain ⟨last, hturn, hevents⟩ := hl.turn_of_none hfirst
      exact ⟨k, l, last, h, hturn, by rw [loop, hturn], hevents⟩
    | some found =>
      have hlt := Rule.length_sub_lt hfirst
      rw [← List.length_drop] at hlt
      have hturn := hl.turn_of_some hfirst
      obtain ⟨k', l', last, hreaches, hfinished, hloop, hevents⟩ :=
        ih _ hlt (h.again hturn) (hl.pass hfirst) rfl
      refine ⟨k', l', last, hreaches, hfinished, ?_, hevents⟩
      rw [loop, hturn]
      exact (if_pos (hl.left_pass_lt hfirst)).trans hloop

/-- A rule whose match at the cursor is `len` bytes long can cut it out: the match has bytes, all of them in
the source, and ends between two characters; so do the quotes of a string inside it. -/
structure CutsWell (source : String) (l : Scanner) (rule : Rule) (len : Nat) : Prop where
  pos : 1 ≤ len
  le : l.cursor.position + len ≤ source.utf8ByteSize
  isValid : (String.Pos.Raw.mk (l.cursor.position + len)).IsValid source
  taken : ∃ text, l.cursor.taken? len = some text ∧ text.utf8ByteSize = len ∧
    (rule = .quoted → 1 ≤ len - 1 ∧ (String.Pos.Raw.mk 1).IsValid text ∧
      (String.Pos.Raw.mk (len - 1)).IsValid text)

/-- After `k` turns the cursor stands between two characters of the source, the next turn cuts nothing
badly, whatever rule applies, and before the end of the source there are more bytes than turns. -/
structure Sound (source : String) (k : Nat) (l : Scanner) : Prop where
  text : l.cursor.text = source.toList
  le : l.cursor.position ≤ source.utf8ByteSize
  isValid : (String.Pos.Raw.mk l.cursor.position).IsValid source
  turn : l.turn ≠ .badCut
  cuts : ∃ rest, l.cursor.remainder? = some rest ∧
    ∀ rule len, rule.matchBytes? rest.toList = some len → CutsWell source l rule len
  turns : l.cursor.atEnd = false → k < source.utf8ByteSize

namespace Stands

variable {source : String} {k n : Nat} {before after : List Char} {l : Scanner} {rule : Rule}

theorem byteLength_source (h : Stands source k before after l) :
    source.utf8ByteSize = byteLength before + byteLength after := by
  rw [← Text.byteLength_toList, h.split, Text.byteLength_append]

theorem cutsWell (h : Stands source k before after l) (hmatch : rule.matchLength? after = some n) :
    CutsWell source l rule (byteLength (after.take n)) := by
  have hparts : after = after.take n ++ after.drop n := (List.take_append_drop n after).symm
  have hlength := congrArg byteLength hparts
  rw [Text.byteLength_append] at hlength
  constructor
  · exact Rule.byteLength_take_pos hmatch
  · rw [h.position, h.byteLength_source]
    omega
  · refine Text.isValid_iff.2 ⟨before ++ after.take n, after.drop n, ?_, ?_⟩
    · rw [h.split, List.append_assoc, ← hparts]
    · rw [h.position, Text.byteLength_append]
  · refine ⟨_, h.taken?_eq n, ?_, ?_⟩
    · rw [← Text.byteLength_toList, String.toList_ofList]
    · rintro rfl
      rw [← Text.slice?_isSome_iff, String.toList_ofList, slice?_quoted (Rule.accepts_take hmatch)]
      rfl

theorem sound (h : Stands source k before after l) : Sound source k l := by
  have hsize := h.byteLength_source
  constructor
  · rw [h.text, h.split]
  · rw [h.position]
    omega
  · exact Text.isValid_iff.2 ⟨before, after, h.split, h.position.symm⟩
  · cases hfirst : Rule.first? after with
    | none =>
      obtain ⟨last, hlast, -⟩ := h.turn_of_none hfirst
      rw [hlast]
      simp
    | some found =>
      rw [h.turn_of_some hfirst]
      simp
  · refine ⟨_, h.remainder?_eq, fun rule len hlen => ?_⟩
    rw [String.toList_ofList] at hlen
    obtain ⟨n, hmatch, rfl⟩ := Option.map_eq_some_iff.1 hlen
    exact h.cutsWell hmatch
  · intro hend
    have hne : after ≠ [] := by
      rw [ne_eq, ← h.atEnd_iff, hend]
      simp
    have hpos : byteLength after ≠ 0 := mt Text.byteLength_eq_zero_iff.1 hne
    have hturns := h.turns
    omega

end Stands

/-- Whatever the source, at each turn of the loop the cursor stands between two characters of it and every
rule that applies cuts its match and what it needs of the match at such places; no turn makes a bad cut.
Each turn before the end uses up one of the bytes at least, so there are no more turns than bytes, and the
loop ends with the tokens of the source or its fault. -/
theorem loop_sound (source : String) :
    (∀ k l, Reaches source k l → Sound source k l) ∧
    ∃ k l last, Reaches source k l ∧ k ≤ source.utf8ByteSize ∧ l.turn = .finished (tokenize source) last ∧
      (ofText source).loop = some (tokenize source, last) := by
  constructor
  · intro k l h
    obtain ⟨before, after, hl⟩ := h.stands
    exact hl.sound
  · obtain ⟨k, l, last, h, hfinished, hloop, -⟩ := Reaches.start.exists_finished (.start source)
    obtain ⟨before, after, hl⟩ := h.stands
    refine ⟨k, l, last, h, ?_, hfinished, hloop⟩
    have hturns := hl.turns
    have hsize := hl.byteLength_source
    omega

/-- A string of four bytes and a blank of three are behind the cursor after two turns. -/
theorem loop_sound_wide :
    Reaches "\"é\"\u2003x" 2
        ⟨⟨"\"é\"\u2003x".toList, 7⟩, [⟨.string, "é"⟩], [.pushed ⟨.string, "é"⟩]⟩ ∧
      Sound "\"é\"\u2003x" 2
        ⟨⟨"\"é\"\u2003x".toList, 7⟩, [⟨.string, "é"⟩], [.pushed ⟨.string, "é"⟩]⟩ := by
  have hstring : Reaches "\"é\"\u2003x" 1
      ⟨⟨"\"é\"\u2003x".toList, 4⟩, [⟨.string, "é"⟩], [.pushed ⟨.string, "é"⟩]⟩ :=
    .again .start (by with_unfolding_all rfl)
  have hblank := hstring.again (by with_unfolding_all rfl)
  exact ⟨hblank, (loop_sound _).1 _ _ hblank⟩

end Scanner

/-! ## What is reported -/

/-- The tokens of a text are reported one by one, and then their number. -/
theorem tokenizeRun_of_ok {source : String} {tokens : List Token} (h : tokenize source = .ok tokens) :
    tokenizeRun source = ⟨.ok tokens, tokens.map .pushed ++ [.tokenized tokens.length]⟩ := by
  obtain ⟨-, -, last, -, -, hloop, hevents⟩ := Scanner.Reaches.start.exists_finished (.start source)
  obtain ⟨hrest, rfl⟩ := tokenize_eq_ok_iff.1 h
  rw [tokenizeRun, hloop, h]
  simp [hevents, Scan.events, hrest]

/-- The tokens before a fault are reported, and nothing else. -/
theorem tokenizeRun_of_error {source : String} {cause : Fault} (h : tokenize source = .error cause) :
    tokenizeRun source = ⟨.fault cause, (Scan.ofText source.toList).tokens.map .pushed⟩ := by
  obtain ⟨-, -, last, -, -, hloop, hevents⟩ := Scanner.Reaches.start.exists_finished (.start source)
  obtain ⟨hrest, -⟩ := tokenize_eq_error_iff.1 h
  rw [tokenizeRun, hloop, h]
  simp [hevents, Scan.events, hrest]

end ScriptFront
