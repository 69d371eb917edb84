import ScriptFront.Proofs.Program.Trace
import ScriptFront.Proofs.Progress

/-!
# The first end token

A run looks at no token behind the one where it ends, and an end token it never passes: the forms that pass
a token without a look at it are entered only for tokens of other kinds. So whatever stands behind an end
token makes no difference to what is read (`parse_after_end`).
-/

namespace ScriptFront

variable {α : Type} {s s' s₁ : Stream}

/-- Where a stream starts with the whole of another one, a run on it ends at the same token. -/
theorem Stream.Retraced.of_longer {ends : Stream → Stream → Prop} (h : s.Retraced s₁ ends)
    (hlonger : s.rest <+: s'.rest) : ∃ s₁', ends s' s₁' ∧ s₁'.current = s₁.current := by
  obtain ⟨ts, hpass, hagain⟩ := h
  have hstart : ts ++ [s₁.current] <+: s.rest := by
    rw [hpass.rest]
    exact ⟨s₁.ahead, by simp [rest]⟩
  have hstart := hstart.trans hlonger
  obtain ⟨s₁', hends, hpass'⟩ := hagain s' hstart
  rw [hpass'.rest, List.prefix_append_right_inj] at hstart
  exact ⟨s₁', hends, current_eq_of_starts (.refl s₁) hstart⟩

/-- A run that is local comes to the same on a stream with more tokens behind its last one. -/
theorem Parse.LocalAt.same {p : Parse α} (h : LocalAt p s) (hends : p s ≠ .endless)
    (hlonger : s.rest <+: s'.rest) :
    (∃ a s₁ s₁', p s = .done a s₁ ∧ p s' = .done a s₁' ∧ s₁'.current = s₁.current) ∨
      ∃ cause s₁ s₁', p s = .fault cause s₁ ∧ p s' = .fault cause s₁' := by
  cases hrun : p s with
  | done a s₁ =>
    obtain ⟨s₁', hrun', hcurrent⟩ := (h.done hrun).of_longer hlonger
    exact .inl ⟨a, s₁, s₁', rfl, hrun', hcurrent⟩
  | fault cause s₁ =>
    obtain ⟨s₁', hrun', -⟩ := (h.fault hrun).2.of_longer hlonger
    exact .inr ⟨cause, s₁, s₁', rfl, hrun'⟩
  | endless => exact absurd hrun hends

theorem Parse.statements_ne_endless (hs : s.Closed) : statements maxNesting [] s ≠ .endless := by
  have hstmt : (stmtWithin .standard maxNesting).Moves False :=
    stmtWithin_moves (fun _ hany => Tables.standardStatements_ne_any hany rfl) maxNesting
  have hloop : (statements maxNesting []).Keeps False :=
    ((onward_congruence False).loop_collect (fun _ => ⟨rfl, hstmt⟩) []).2
  exact hloop.ne_endless hs

/-- No end token is reported as passed. -/
theorem Stream.Steps.end_not_mem {tokens : List Token} (hs : ofTokens tokens = .ok s)
    (h : s.Steps Event.InStatement s') : ∀ i, .advanced i .endOfInput ∉ s'.events := by
  induction h with
  | refl =>
    rw [events_of_ofTokens hs]
    exact fun i => List.not_mem_nil
  | advance _ hk ih =>
    intro i hmem
    rw [events_advance, List.mem_append, List.mem_singleton] at hmem
    obtain hmem | hlast := hmem
    · exact ih i hmem
    · injection hlast with _ hkind
      exact hk hkind.symm
  | record _ he ih =>
    intro i hmem
    rw [events_record, List.mem_append, List.mem_singleton] at hmem
    obtain hmem | rfl := hmem
    · exact ih i hmem
    · cases he

/-- The reading of a program passes no end token. -/
theorem parseRun_end_not_mem (tokens : List Token) (i : Nat) :
    .advanced i .endOfInput ∉ (parseRun tokens).events := by
  cases hs : Stream.ofTokens tokens with
  | error cause => simp [parseRun, Run.ofTokens, hs]
  | ok s =>
    have htraced := Parse.statements_traced maxNesting (.of_ofTokens hs)
    rw [parseRun_of_ofTokens hs]
    cases hrun : Parse.statements maxNesting [] s with
    | done body s' =>
      show _ ∉ (s'.record (.parsed body.length)).events
      have hbefore := (htraced.done hrun).1.end_not_mem hs i
      simpa using hbefore
    | fault cause s' => exact (htraced.fault hrun).end_not_mem hs i
    | endless => exact List.not_mem_nil

section

variable {ts more : List Token} {t : Token}

/-- Tokens up to an end token make a stream, and with more tokens one that starts with it. -/
theorem Stream.exists_longer (ht : t.kind = .endOfInput) (hmore : Terminated (ts ++ t :: more)) :
    ∃ s s', ofTokens (ts ++ [t]) = .ok s ∧ ofTokens (ts ++ t :: more) = .ok s' ∧ s.Closed ∧
      s.rest <+: s'.rest := by
  obtain ⟨s, hs, hrest, hclosed⟩ := ofTokens_append_end ts ht
  obtain ⟨s', hs'⟩ := terminated_iff.1 hmore
  have hrest' := (of_ofTokens hs').2.1
  refine ⟨s, s', hs, hs', hclosed, ?_⟩
  rw [hrest, hrest']
  exact ⟨more, (List.append_cons ts t more).symm⟩

theorem parse_append_end (ht : t.kind = .endOfInput) (hmore : Terminated (ts ++ t :: more)) :
    parse (ts ++ t :: more) = parse (ts ++ [t]) := by
  obtain ⟨s, s', hs, hs', hclosed, hlonger⟩ := Stream.exists_longer ht hmore
  have hlocal := Parse.statements_local maxNesting [] s hclosed
  rw [parse_of_ofTokens hs, parse_of_ofTokens hs']
  obtain ⟨body, s₁, s₁', hrun, hrun', -⟩ | ⟨cause, s₁, s₁', hrun, hrun'⟩ :=
    hlocal.same (Parse.statements_ne_endless hclosed) hlonger
  · rw [hrun, hrun']
  · rw [hrun, hrun']

theorem parseType_append_end (ht : t.kind = .endOfInput) (hmore : Terminated (ts ++ t :: more)) :
    parseType (ts ++ t :: more) = parseType (ts ++ [t]) := by
  obtain ⟨s, s', hs, hs', hclosed, hlonger⟩ := Stream.exists_longer ht hmore
  have hlocal := Parse.typeWithin_local maxNesting .lowest s hclosed
  have hends : Parse.typeWithin .standard maxNesting .lowest s ≠ .endless :=
    (Parse.typeWithin_moves .standard maxNesting .lowest).keeps.ne_endless hclosed
  rw [parseType_of_ofTokens hs, parseType_of_ofTokens hs']
  obtain ⟨type, s₁, s₁', hrun, hrun', hcurrent⟩ | ⟨cause, s₁, s₁', hrun, hrun'⟩ :=
    hlocal.same hends hlonger
  · simp only [hrun, hrun', hcurrent]
  · rw [hrun, hrun']

end

/-- Nothing behind an end token matters, be it the first or not: with and without the tokens there, a program
is read in the same way, and so is a type. The reading of a program does not even pass an end token. -/
theorem parse_after_end :
    (∀ (before after : List Token) (t : Token), t.kind = .endOfInput → Terminated (before ++ t :: after) →
      parse (before ++ t :: after) = parse (before ++ [t]) ∧
        parseType (before ++ t :: after) = parseType (before ++ [t])) ∧
    ∀ tokens i, .advanced i .endOfInput ∉ (parseRun tokens).events := by
  constructor
  · intro before after t ht hend
    exact ⟨parse_append_end ht hend, parseType_append_end ht hend⟩
  · exact parseRun_end_not_mem

/-- A brace behind the first of two end tokens is no fault after `a;` and closes nothing after `{ a;`. -/
theorem parse_after_end_brace :
    parse [⟨.identifier, "a"⟩, ⟨.mark .semicolon, ";"⟩, ⟨.endOfInput, "stop"⟩, ⟨.mark .closeCurly, "\x7d"⟩,
        .endOfInput] = .ok ⟨[.expression (.symbol "a")]⟩ ∧
      parse [⟨.mark .openCurly, "\x7b"⟩, ⟨.identifier, "a"⟩, ⟨.mark .semicolon, ";"⟩, ⟨.endOfInput, "stop"⟩,
        ⟨.mark .closeCurly, "\x7d"⟩, .endOfInput] =
          .fault (.unexpected (.mark .closeCurly) .endOfInput "stop") := by
  constructor
  · apply (parse_after_end.1 [⟨.identifier, "a"⟩, ⟨.mark .semicolon, ";"⟩]
      [⟨.mark .closeCurly, "\x7d"⟩, .endOfInput] ⟨.endOfInput, "stop"⟩ rfl (by decide)).1.trans
    with_unfolding_all rfl
  · apply (parse_after_end.1 [⟨.mark .openCurly, "\x7b"⟩, ⟨.identifier, "a"⟩, ⟨.mark .semicolon, ";"⟩]
      [⟨.mark .closeCurly, "\x7d"⟩, .endOfInput] ⟨.endOfInput, "stop"⟩ rfl (by decide)).1.trans
    with_unfolding_all rfl

end ScriptFront
