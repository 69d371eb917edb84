import ScriptFront.Parse.Stream

/-!
# Passing tokens

`Stream.Passes s ts s'` says that `s'` is the place reached from `s` when the tokens `ts` have been
passed; events do not matter to it. A stream is `Stream.Closed` if the last of its tokens is an end
token. On a closed stream every token that is not an end token can be passed, which is all that the
reading of phrases asks of a stream.
-/

namespace ScriptFront.Stream

/-- The last of the tokens left is an end token. -/
def Closed (s : Stream) : Prop :=
  (s.rest.getLast (List.cons_ne_nil s.current s.ahead)).kind = .endOfInput

/-- The tokens `ts` lie between the places `s` and `s'`. -/
structure Passes (s : Stream) (ts : List Token) (s' : Stream) : Prop where
  rest : s.rest = ts ++ s'.rest
  index : s'.index = s.index + ts.length

theorem length_rest (s : Stream) : s.rest.length = s.remaining + 1 := by
  rw [s.remaining_eq]
  rfl

theorem current_of_rest {s : Stream} {t : Token} {ts : List Token} (h : s.rest = t :: ts) :
    s.current = t := by
  injection h

namespace Passes

variable {s s' s'' : Stream} {ts ts' : List Token}

theorem refl (s : Stream) : s.Passes [] s := ⟨rfl, rfl⟩

theorem trans (h : s.Passes ts s') (h' : s'.Passes ts' s'') : s.Passes (ts ++ ts') s'' where
  rest := by rw [h.rest, h'.rest, List.append_assoc]
  index := by rw [h'.index, h.index, List.length_append, Nat.add_assoc]

/-- An event does not move the place from which tokens are passed. -/
theorem of_record {event : Event} (h : (s.record event).Passes ts s') : s.Passes ts s' :=
  ⟨h.rest, h.index⟩

/-- What follows the passed tokens is what is left. -/
theorem rest_eq {us : List Token} (h : s.Passes ts s') (hs : s.rest = ts ++ us) : s'.rest = us :=
  List.append_cancel_left (h.rest.symm.trans hs)

theorem closed (h : s.Passes ts s') (hs : s.Closed) : s'.Closed := by
  have last : s.rest.getLast (List.cons_ne_nil _ _) = s'.rest.getLast (List.cons_ne_nil _ _) := by
    simp only [h.rest]
    exact List.getLast_append_of_ne_nil _ _
  unfold Closed
  rw [← last]
  exact hs

/-- Fewer tokens are left after some were passed. -/
theorem remaining_lt (h : s.Passes ts s') (hts : ts ≠ []) : s'.remaining < s.remaining := by
  have hlen := congrArg List.length h.rest
  have hpos := List.length_pos_iff.2 hts
  rw [List.length_append, length_rest, length_rest] at hlen
  omega

end Passes

/-- The stream is the place of its index in the tokens. -/
def IsIn (s : Stream) (tokens : List Token) : Prop := s.rest = tokens.drop s.index

namespace IsIn

variable {s s' : Stream} {tokens ts : List Token}

theorem of_passes (h : s.IsIn tokens) (hpass : s.Passes ts s') : s'.IsIn tokens := by
  unfold IsIn
  calc s'.rest = (ts ++ s'.rest).drop ts.length := List.drop_left.symm
    _ = (tokens.drop s.index).drop ts.length := by rw [← hpass.rest, h]
    _ = tokens.drop s'.index := by rw [List.drop_drop, hpass.index]

theorem getElem? (h : s.IsIn tokens) : tokens[s.index]? = some s.current := by
  rw [← List.head?_drop, ← h]
  rfl

end IsIn

/-- A token that others follow can be passed. -/
theorem passes_advance_of_rest {s : Stream} {t : Token} {us : List Token} (h : s.rest = t :: us)
    (hus : us ≠ []) : s.Passes [t] s.advance := by
  have hahead : s.ahead = us := by injection h
  obtain ⟨u, us', rfl⟩ := List.exists_cons_of_ne_nil hus
  refine ⟨?_, ?_⟩
  · rw [rest_advance hahead, h]
    rfl
  · unfold advance
    split
    · next h' => simp [hahead] at h'
    · rfl

/-- On a closed stream a token that is not an end token can be passed. -/
theorem passes_advance {s : Stream} (hs : s.Closed) (hk : s.current.kind ≠ .endOfInput) :
    s.Passes [s.current] s.advance := by
  cases hahead : s.ahead with
  | nil =>
    refine absurd ?_ hk
    have hs : (s.rest.getLast (List.cons_ne_nil _ _)).kind = .endOfInput := hs
    simpa [rest, hahead] using hs
  | cons u us =>
    have hrest : s.rest = s.current :: u :: us := by rw [rest, hahead]
    exact passes_advance_of_rest hrest (List.cons_ne_nil u us)

/-- The stream at the first of some tokens with an end token after them. -/
theorem ofTokens_append_end (ts : List Token) {t : Token} (ht : t.kind = .endOfInput) :
    ∃ s, ofTokens (ts ++ [t]) = .ok s ∧ s.rest = ts ++ [t] ∧ s.Closed := by
  cases ts with
  | nil =>
    refine ⟨⟨0, t, [], 0, 0, [], rfl⟩, ?_, rfl, ht⟩
    simp [ofTokens, ht]
  | cons u us =>
    have last : ((u :: (us ++ [t])).getLast (List.cons_ne_nil _ _)).kind = .endOfInput := by
      rw [show (u :: (us ++ [t])).getLast (List.cons_ne_nil _ _) = t from
        List.getLast_concat (l := u :: us)]
      exact ht
    exact ⟨⟨0, u, us ++ [t], (us ++ [t]).length, 0, [], rfl⟩, if_pos last, rfl, last⟩

/-- A stream made from tokens is at the first of them, and the last is an end token. -/
theorem of_ofTokens {tokens : List Token} {s : Stream} (h : ofTokens tokens = .ok s) :
    s.index = 0 ∧ s.rest = tokens ∧ s.Closed := by
  cases tokens with
  | nil => cases h
  | cons t ts =>
    rw [ofTokens] at h
    split at h
    · next hlast =>
      cases h
      exact ⟨rfl, rfl, hlast⟩
    · cases h

/-- At the first token no level of nesting is open. -/
theorem depth_of_ofTokens {tokens : List Token} {s : Stream} (h : ofTokens tokens = .ok s) :
    s.depth = 0 := by
  cases tokens with
  | nil => cases h
  | cons t ts =>
    rw [ofTokens] at h
    split at h
    · cases h
      rfl
    · cases h

theorem room_of_ofTokens {tokens : List Token} {s : Stream} (h : ofTokens tokens = .ok s) :
    s.room = maxNesting := by
  rw [room, depth_of_ofTokens h, Nat.sub_zero]

end ScriptFront.Stream
