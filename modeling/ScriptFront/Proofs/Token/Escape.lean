import ScriptFront.Proofs.Token.Spelling

/-!
# What escapes change

A text is read in turns, each of which gives one character, for an escape or for a character that stands
for itself (`unescape_cons`). So a text is changed exactly if an escape occurs in it, and then it gets
shorter: what stands in front of the first escape cannot use up its backslash.

What a turn reads does not depend on the text behind, unless it reads the beginning of an escape that is
cut off there (`Escape.CutOff`). Whether a text ends in this way can be told by going through it once from
left to right (`Escape.place`). Behind a text that does not, every text is read as if it stood alone, and
behind one that does, not every text is (`unescape_exact`).
-/

namespace ScriptFront.Escape

/-! ## Escapes in a text -/

/-- A digit, or one of the letters `a` to `f` in either case. -/
def IsHexDigit (c : Char) : Prop :=
  ('0' ≤ c ∧ c ≤ '9') ∨ ('a' ≤ c ∧ c ≤ 'f') ∨ ('A' ≤ c ∧ c ≤ 'F')

instance : DecidablePred IsHexDigit := fun c =>
  inferInstanceAs (Decidable (('0' ≤ c ∧ c ≤ '9') ∨ ('a' ≤ c ∧ c ≤ 'f') ∨ ('A' ≤ c ∧ c ≤ 'F')))

/-- The texts that make an escape, a number by its first digit. -/
inductive Written : List Char → Prop where
  | letter {c : Char} (hc : c ∈ ['n', 't', 'r', '0', '\\']) : Written ['\\', c]
  | number {d : Char} (hd : IsHexDigit d) : Written ['\\', 'x', d]

/-- An escape stands at the front of the text. -/
def Begins (cs : List Char) : Prop := ∃ e, Written e ∧ e <+: cs

/-- An escape stands somewhere in the text. -/
def Occurs (cs : List Char) : Prop := ∃ e, Written e ∧ e <:+: cs

/-- How many characters behind a backslash belong to the escape that it begins. A second digit does where
there is one. -/
inductive Takes : List Char → Nat → Prop where
  | letter {c : Char} {cs : List Char} (hc : c ∈ ['n', 't', 'r', '0', '\\']) : Takes (c :: cs) 1
  | oneDigit {d : Char} {cs : List Char} (hd : IsHexDigit d) (hcs : ∀ e ∈ cs.head?, ¬ IsHexDigit e) :
      Takes ('x' :: d :: cs) 2
  | twoDigits {d e : Char} {cs : List Char} (hd : IsHexDigit d) (he : IsHexDigit e) :
      Takes ('x' :: d :: e :: cs) 3

/-! ## Where a text ends -/

/-- Where a reader who comes from the left stands: in no escape, or in one of which the backslash has been
read, the `x` as well, or the first digit of its number as well. -/
inductive Place where
  | outside
  | backslash
  | mark
  | digit
deriving DecidableEq, Repr

namespace Place

/-- The place behind a character that belongs to no escape before it. -/
def behind (c : Char) : Place := if c = '\\' then backslash else outside

/-- The place behind one more character. -/
def next : Place → Char → Place
  | outside, c => behind c
  | backslash, c => if c = 'x' then mark else outside
  | mark, c => if IsHexDigit c then digit else behind c
  | digit, c => if IsHexDigit c then outside else behind c

end Place

/-- The place at the end of a text. -/
def place (cs : List Char) : Place := cs.foldl Place.next .outside

/-- The text ends in an escape that could go on: behind its backslash, its `x` or the first of its digits. -/
def EndsInside (cs : List Char) : Prop := place cs ≠ .outside

instance : DecidablePred EndsInside := fun cs => inferInstanceAs (Decidable (place cs ≠ .outside))

/-- The beginnings of an escape that could go on. -/
inductive CutOff : List Char → Prop where
  | backslash : CutOff ['\\']
  | mark : CutOff ['\\', 'x']
  | digit {d : Char} (hd : IsHexDigit d) : CutOff ['\\', 'x', d]

variable {c d : Char} {cs : List Char} {used : Nat}

theorem endsInside_of_cutOff (h : CutOff cs) : EndsInside cs := by
  cases h with
  | backslash => decide
  | mark => decide
  | @digit d hd =>
    have hplace : place ['\\', 'x', d] = .digit := if_pos hd
    rw [EndsInside, hplace]
    decide

/-! ## Reading one escape -/

theorem hexDigit?_isSome_iff : (hexDigit? c).isSome ↔ IsHexDigit c := by
  unfold hexDigit? IsHexDigit
  split
  · simp [*]
  · split
    · simp [*]
    · split <;> simp [*]

theorem isHexDigit_of_eq_some {n : Nat} (h : hexDigit? c = some n) : IsHexDigit c :=
  hexDigit?_isSome_iff.1 (Option.isSome_of_eq_some h)

theorem hexDigit?_eq_none_iff : hexDigit? c = none ↔ ¬ IsHexDigit c := by
  rw [← hexDigit?_isSome_iff, Option.not_isSome_iff_eq_none]

theorem isSome_hexPair?_cons (hd : IsHexDigit d) (cs : List Char) : (hexPair? (d :: cs)).isSome := by
  obtain ⟨x, hx⟩ := Option.isSome_iff_exists.1 (hexDigit?_isSome_iff.2 hd)
  cases cs with
  | nil => simp [hexPair?, hx]
  | cons e cs => cases he : hexDigit? e <;> simp [hexPair?, hx, he]

theorem read?_mark (cs : List Char) :
    read? ('x' :: cs) = (hexPair? cs).map fun (n, used) => (Char.ofNat n, used + 1) := rfl

theorem takes_of_hexPair? {n : Nat} (h : hexPair? cs = some (n, used)) :
    Takes ('x' :: cs) (used + 1) := by
  fun_cases hexPair? cs with
  | case1 d e ds x y he hd =>
    simp only [hexPair?, hd, he, Option.some.injEq, Prod.mk.injEq] at h
    rw [← h.2]
    exact .twoDigits (isHexDigit_of_eq_some hd) (isHexDigit_of_eq_some he)
  | case2 d e ds x he hd =>
    simp only [hexPair?, hd, he, Option.some.injEq, Prod.mk.injEq] at h
    rw [← h.2]
    refine .oneDigit (isHexDigit_of_eq_some hd) fun e' he' => ?_
    cases he'
    exact hexDigit?_eq_none_iff.1 he
  | case3 d e ds hd => simp [hexPair?, hd] at h
  | case4 d =>
    obtain ⟨x, hd, heq⟩ := Option.map_eq_some_iff.1 h
    cases heq
    exact .oneDigit (isHexDigit_of_eq_some hd) (by simp)
  | case5 => cases h

theorem takes_of_read? (h : read? cs = some (d, used)) : Takes cs used := by
  fun_cases read? cs with
  | case1 | case2 | case3 | case4 | case5 =>
    cases h
    exact .letter (by decide)
  | case6 cs =>
    obtain ⟨⟨n, used⟩, hpair, heq⟩ := Option.map_eq_some_iff.1 h
    cases heq
    exact takes_of_hexPair? hpair
  | case7 =>
    -- nothing else begins an escape
    unfold read? at h
    simp_all

theorem Takes.pos (h : Takes cs used) : 0 < used := by
  cases h <;> decide

theorem Takes.le_length (h : Takes cs used) : used ≤ cs.length := by
  cases h <;> simp

theorem begins_cons_iff : Begins (c :: cs) ↔ c = '\\' ∧ (read? cs).isSome := by
  constructor
  · rintro ⟨e, he, rest, heq⟩
    cases he with
    | letter hc =>
      cases heq
      simp only [List.mem_cons, List.not_mem_nil, or_false] at hc
      rcases hc with rfl | rfl | rfl | rfl | rfl <;> exact ⟨rfl, rfl⟩
    | number hd =>
      cases heq
      exact ⟨rfl, Option.isSome_map.trans (isSome_hexPair?_cons hd rest)⟩
  · rintro ⟨rfl, h⟩
    obtain ⟨⟨d, used⟩, hread⟩ := Option.isSome_iff_exists.1 h
    cases takes_of_read? hread with
    | letter hc => exact ⟨_, .letter hc, _, rfl⟩
    | oneDigit hd _ | twoDigits hd _ => exact ⟨_, .number hd, _, rfl⟩

theorem not_occurs_nil : ¬ Occurs [] := by
  rintro ⟨e, he, hinfix⟩
  cases List.infix_nil.1 hinfix
  cases he

theorem occurs_cons_iff : Occurs (c :: cs) ↔ Begins (c :: cs) ∨ Occurs cs := by
  simp only [Occurs, Begins, List.infix_cons_iff, and_or_left, exists_or]

theorem read?_cons_of_ne (hc : c ≠ 'x') (cs ds : List Char) : read? (c :: cs) = read? (c :: ds) := by
  unfold read?
  split <;> simp_all

/-- What is not cut off is read in the same way whatever follows. -/
theorem read?_append (h : ¬ CutOff ('\\' :: cs)) (b : List Char) : read? (cs ++ b) = read? cs := by
  rcases cs with _ | ⟨c, cs⟩
  · exact absurd .backslash h
  by_cases hc : c = 'x'
  · subst hc
    rw [List.cons_append, read?_mark, read?_mark]
    rcases cs with _ | ⟨d, _ | ⟨e, ds⟩⟩
    · exact absurd .mark h
    · have hd : hexDigit? d = none := hexDigit?_eq_none_iff.2 fun hd => h (.digit hd)
      cases b <;> simp [hexPair?, hd]
    · rfl
  · exact read?_cons_of_ne hc _ _

/-- Behind an escape that is not cut off a reader stands outside again. -/
theorem Takes.place_eq (h : Takes cs used) (hcut : ¬ CutOff ('\\' :: cs)) :
    place ('\\' :: cs) = place (cs.drop used) := by
  cases h with
  | @letter c cs hc =>
    have hne : c ≠ 'x' := by
      rintro rfl
      revert hc
      decide
    exact congrArg (cs.foldl Place.next) (if_neg hne)
  | @oneDigit d cs hd hcs =>
    cases cs with
    | nil => exact absurd (.digit hd) hcut
    | cons e cs =>
      have he : ¬ IsHexDigit e := hcs e rfl
      simp [place, Place.next, Place.behind, hd, he]
  | twoDigits hd he => simp [place, Place.next, Place.behind, hd, he]

/-- Where no escape begins, the backslash stands for itself. -/
theorem place_of_not_begins (h : ¬ Begins ('\\' :: cs)) (hcut : ¬ CutOff ('\\' :: cs)) :
    place ('\\' :: cs) = place cs := by
  rcases cs with _ | ⟨c, cs⟩
  · exact absurd .backslash hcut
  by_cases hc : c = 'x'
  · subst hc
    rcases cs with _ | ⟨d, ds⟩
    · exact absurd .mark hcut
    · have hd : ¬ IsHexDigit d := fun hd => h ⟨_, .number hd, ds, rfl⟩
      simp [place, Place.next, Place.behind, hd]
  · have hbackslash : c ≠ '\\' := by
      rintro rfl
      exact h ⟨_, .letter (by decide), cs, rfl⟩
    simp [place, Place.next, Place.behind, hc, hbackslash]

/-! ## One turn -/

/-- The character that the front of a text stands for, and the text behind. -/
def turn (c : Char) (cs : List Char) : Char × List Char :=
  if c = '\\' then
    match read? cs with
    | some (d, used) => (d, cs.drop used)
    | none => (c, cs)
  else (c, cs)

theorem turn_of_not_begins (h : ¬ Begins (c :: cs)) : turn c cs = (c, cs) := by
  rw [begins_cons_iff, not_and, Option.not_isSome_iff_eq_none] at h
  unfold turn
  split
  · next hc => rw [h hc]
  · rfl

theorem exists_turn_of_begins (h : Begins (c :: cs)) :
    c = '\\' ∧ ∃ used, Takes cs used ∧ (turn c cs).2 = cs.drop used := by
  obtain ⟨rfl, hread⟩ := begins_cons_iff.1 h
  obtain ⟨⟨d, used⟩, hread⟩ := Option.isSome_iff_exists.1 hread
  refine ⟨rfl, used, takes_of_read? hread, ?_⟩
  rw [turn, if_pos rfl, hread]

theorem length_turn_lt (h : Begins (c :: cs)) : (turn c cs).2.length < cs.length := by
  obtain ⟨-, used, htakes, hrest⟩ := exists_turn_of_begins h
  have hpos := htakes.pos
  have hle := htakes.le_length
  rw [hrest, List.length_drop]
  omega

theorem length_turn_le (c : Char) (cs : List Char) : (turn c cs).2.length ≤ cs.length := by
  by_cases h : Begins (c :: cs)
  · exact (length_turn_lt h).le
  · rw [turn_of_not_begins h]

/-- A turn that reads nothing cut off is the same whatever follows. -/
theorem turn_append (h : ¬ CutOff (c :: cs)) (b : List Char) :
    turn c (cs ++ b) = ((turn c cs).1, (turn c cs).2 ++ b) := by
  unfold turn
  split
  · next hc =>
    subst hc
    rw [read?_append h]
    cases hread : read? cs with
    | none => rfl
    | some e =>
      obtain ⟨d, used⟩ := e
      simp only [List.drop_append_of_le_length (takes_of_read? hread).le_length]
  · rfl

/-- A zero is the last character of an escape wherever that is cut off. -/
theorem turn_zero_of_cutOff (h : CutOff (c :: cs)) : (turn c (cs ++ ['0'])).2 = [] := by
  cases h with
  | backslash | mark => rfl
  | @digit d hd =>
    obtain ⟨x, hx⟩ := Option.isSome_iff_exists.1 (hexDigit?_isSome_iff.2 hd)
    have hread : read? ['x', d, '0'] = some (Char.ofNat (16 * x), 3) := by
      rw [read?_mark, hexPair?, hx]
      rfl
    rw [turn, if_pos rfl, List.cons_append, List.singleton_append, hread]
    rfl

/-- A turn that reads nothing cut off begins and ends outside. -/
theorem place_cons (h : ¬ CutOff (c :: cs)) : place (c :: cs) = place (turn c cs).2 := by
  by_cases hbegins : Begins (c :: cs)
  · obtain ⟨rfl, used, htakes, hrest⟩ := exists_turn_of_begins hbegins
    rw [hrest, htakes.place_eq h]
  · rw [turn_of_not_begins hbegins]
    by_cases hc : c = '\\'
    · subst hc
      exact place_of_not_begins hbegins h
    · exact congrArg (cs.foldl Place.next) (if_neg hc)

theorem endsInside_cons_iff : EndsInside (c :: cs) ↔ CutOff (c :: cs) ∨ EndsInside (turn c cs).2 := by
  by_cases h : CutOff (c :: cs)
  · exact iff_of_true (endsInside_of_cutOff h) (.inl h)
  · rw [EndsInside, place_cons h, or_iff_right h, EndsInside]

/-- What holds of the empty text, and of a text if of what a turn leaves of it, holds of every text. -/
theorem turn_induction {motive : List Char → Prop} (nil : motive [])
    (cons : ∀ c cs, motive (turn c cs).2 → motive (c :: cs)) (cs : List Char) : motive cs := by
  induction hn : cs.length using Nat.strong_induction_on generalizing cs with
  | _ n ih =>
    cases cs with
    | nil => exact nil
    | cons c cs =>
      have hlt : (turn c cs).2.length < n := hn ▸ Nat.lt_succ_of_le (length_turn_le c cs)
      exact cons c cs (ih _ hlt _ rfl)

end ScriptFront.Escape

namespace ScriptFront

open Escape (turn turn_induction Begins Occurs CutOff EndsInside)

/-! ## Whole texts -/

variable {a cs : List Char}

theorem unescape_nil : unescape [] = [] := by
  rw [unescape]

/-- Reading a text is a turn, and then reading what it leaves. -/
theorem unescape_cons (c : Char) (cs : List Char) :
    unescape (c :: cs) = (turn c cs).1 :: unescape (turn c cs).2 := by
  rw [unescape, turn]
  split
  · cases Escape.read? cs <;> rfl
  · rfl

theorem length_unescape_le (cs : List Char) : (unescape cs).length ≤ cs.length := by
  induction cs using turn_induction with
  | nil => rw [unescape_nil]
  | cons c cs ih =>
    have hturn := Escape.length_turn_le c cs
    rw [unescape_cons, List.length_cons, List.length_cons]
    omega

/-- A text with an escape in it gets shorter. -/
theorem length_unescape_lt (h : Occurs cs) : (unescape cs).length < cs.length := by
  -- up to the first escape each turn reads one character, so the induction can be on the text itself
  induction cs with
  | nil => exact absurd h Escape.not_occurs_nil
  | cons c cs ih =>
    rw [unescape_cons, List.length_cons, List.length_cons]
    by_cases hbegins : Begins (c :: cs)
    · have hturn := Escape.length_turn_lt hbegins
      have hle := length_unescape_le (turn c cs).2
      omega
    · rw [Escape.turn_of_not_begins hbegins]
      exact Nat.succ_lt_succ (ih ((Escape.occurs_cons_iff.1 h).resolve_left hbegins))

/-- A text without an escape stands for itself. -/
theorem unescape_of_not_occurs (h : ¬ Occurs cs) : unescape cs = cs := by
  induction cs with
  | nil => exact unescape_nil
  | cons c cs ih =>
    rw [Escape.occurs_cons_iff, not_or] at h
    rw [unescape_cons, Escape.turn_of_not_begins h.1, ih h.2]

/-- What stands behind a text that does not end inside an escape is read as if it stood alone. -/
theorem unescape_append (h : ¬ EndsInside a) (b : List Char) :
    unescape (a ++ b) = unescape a ++ unescape b := by
  induction a using turn_induction with
  | nil => rw [unescape_nil, List.nil_append, List.nil_append]
  | cons c cs ih =>
    rw [Escape.endsInside_cons_iff, not_or] at h
    rw [List.cons_append, unescape_cons, Escape.turn_append h.1, ih h.2, unescape_cons c cs,
      List.cons_append]

/-- A zero behind a text that ends inside an escape is not read as if it stood alone. -/
theorem unescape_append_zero (h : EndsInside a) :
    unescape (a ++ ['0']) ≠ unescape a ++ unescape ['0'] := by
  induction a using turn_induction with
  | nil => exact absurd rfl h
  | cons c cs ih =>
    by_cases hcut : CutOff (c :: cs)
    · -- two characters come of reading them apart, one of reading them together
      rw [List.cons_append, unescape_cons, Escape.turn_zero_of_cutOff hcut, unescape_nil, unescape_cons c cs,
        unescape_cons '0' []]
      intro heq
      simpa using congrArg List.length heq
    · have hrest := ih ((Escape.endsInside_cons_iff.1 h).resolve_left hcut)
      rw [List.cons_append, unescape_cons, Escape.turn_append hcut, unescape_cons c cs, List.cons_append]
      exact fun heq => hrest (List.cons.inj heq).2

/-- A text stands for itself exactly if no escape occurs in it, and otherwise for a shorter one. Every text
behind it is read as if it stood alone exactly if it does not end inside an escape. -/
theorem unescape_exact (raw a : List Char) :
    (unescape raw = raw ↔ ¬ Occurs raw) ∧
      (Occurs raw → (unescape raw).length < raw.length) ∧
      ((∀ b, unescape (a ++ b) = unescape a ++ unescape b) ↔ ¬ EndsInside a) := by
  refine ⟨⟨?_, unescape_of_not_occurs⟩, length_unescape_lt, ?_, unescape_append⟩
  · intro heq hoccurs
    have hlt := length_unescape_lt hoccurs
    rw [heq] at hlt
    exact Nat.lt_irrefl _ hlt
  · intro happend hends
    exact unescape_append_zero hends (happend ['0'])

/-- The second backslash belongs to the escape of the first. So no number is cut off behind the `x`, and a
further digit stands for itself. -/
theorem unescape_exact_two_backslashes :
    Occurs ['\\', '\\', 'x', '4'] ∧ (unescape ['\\', '\\', 'x', '4']).length < 4 ∧
      ¬ EndsInside ['\\', '\\', 'x', '4'] ∧
      unescape ['\\', '\\', 'x', '4', '1'] = unescape ['\\', '\\', 'x', '4'] ++ unescape ['1'] := by
  have hoccurs : Occurs ['\\', '\\', 'x', '4'] := ⟨_, .letter (by decide), [], ['x', '4'], rfl⟩
  have hends : ¬ EndsInside ['\\', '\\', 'x', '4'] := by decide
  obtain ⟨-, hlt, happend⟩ := unescape_exact ['\\', '\\', 'x', '4'] ['\\', '\\', 'x', '4']
  exact ⟨hoccurs, hlt hoccurs, hends, happend.2 hends ['1']⟩

end ScriptFront
