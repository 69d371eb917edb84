/-!
# Byte positions in a text

A place in a text is the number of bytes before it in UTF-8. Only some numbers are places between two
characters: a cut at any other number has no answer.
-/

namespace ScriptFront.Text

/-- The number of bytes of a list of characters. -/
def byteLength : List Char → Nat
  | [] => 0
  | c :: cs => c.utf8Size + byteLength cs

/-- What is left after `n` bytes, if a character ends there. -/
def dropBytes? : Nat → List Char → Option (List Char)
  | 0, cs => some cs
  | _ + 1, [] => none
  | n + 1, c :: cs => if c.utf8Size ≤ n + 1 then dropBytes? (n + 1 - c.utf8Size) cs else none
termination_by _ cs => cs.length

/-- The first `n` bytes, if a character ends there. -/
def takeBytes? : Nat → List Char → Option (List Char)
  | 0, _ => some []
  | _ + 1, [] => none
  | n + 1, c :: cs =>
    if c.utf8Size ≤ n + 1 then (takeBytes? (n + 1 - c.utf8Size) cs).map (c :: ·) else none
termination_by _ cs => cs.length

/-- The text from one byte position up to another, if both lie between characters, in this order. -/
def slice? (start stop : Nat) (cs : List Char) : Option (List Char) :=
  if start ≤ stop then (dropBytes? start cs).bind (takeBytes? (stop - start)) else none

@[simp] theorem byteLength_nil : byteLength [] = 0 := rfl

@[simp] theorem byteLength_cons (c : Char) (cs : List Char) :
    byteLength (c :: cs) = c.utf8Size + byteLength cs := rfl

@[simp] theorem byteLength_append (as bs : List Char) :
    byteLength (as ++ bs) = byteLength as + byteLength bs := by
  induction as with
  | nil => simp
  | cons a as ih => simp [ih, Nat.add_assoc]

theorem dropBytes?_zero (cs : List Char) : dropBytes? 0 cs = some cs := by
  cases cs <;> rw [dropBytes?]

theorem takeBytes?_zero (cs : List Char) : takeBytes? 0 cs = some [] := by
  cases cs <;> rw [takeBytes?]

/-- The bytes of a first part can be dropped, and the second part is left. -/
theorem dropBytes?_byteLength_append (as bs : List Char) :
    dropBytes? (byteLength as) (as ++ bs) = some bs := by
  induction as with
  | nil => exact dropBytes?_zero bs
  | cons a as ih =>
    have pos := a.utf8Size_pos
    obtain ⟨n, hn⟩ : ∃ n, byteLength (a :: as) = n + 1 :=
      ⟨byteLength (a :: as) - 1, by simp only [byteLength_cons]; omega⟩
    have hlen : n + 1 = a.utf8Size + byteLength as := by rw [← hn, byteLength_cons]
    rw [hn, List.cons_append, dropBytes?, if_pos (by omega),
      show n + 1 - a.utf8Size = byteLength as by omega, ih]

/-- The bytes of a first part can be taken, and they are that part. -/
theorem takeBytes?_byteLength_append (as bs : List Char) :
    takeBytes? (byteLength as) (as ++ bs) = some as := by
  induction as with
  | nil => exact takeBytes?_zero bs
  | cons a as ih =>
    have pos := a.utf8Size_pos
    obtain ⟨n, hn⟩ : ∃ n, byteLength (a :: as) = n + 1 :=
      ⟨byteLength (a :: as) - 1, by simp only [byteLength_cons]; omega⟩
    have hlen : n + 1 = a.utf8Size + byteLength as := by rw [← hn, byteLength_cons]
    rw [hn, List.cons_append, takeBytes?, if_pos (by omega),
      show n + 1 - a.utf8Size = byteLength as by omega, ih]
    rfl

end ScriptFront.Text
