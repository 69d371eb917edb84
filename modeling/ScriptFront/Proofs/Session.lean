import ScriptFront.Proofs.Progress
import ScriptFront.Session

/-!
# Sessions keep to their tokens

A session is a place in the tokens it was started with, a number of open levels and its tables. No
operation changes the tokens or goes back to an earlier one, and whatever is read, with success or not,
leaves as many levels open as it found (`Session.Onward`): the readers and the forms are balanced. Only `enter`
and `leave` change the number of levels, and `enter` not beyond the bound. This holds of one operation
(`Session.perform_onward`), and so of all operations after each other.
-/

namespace ScriptFront

namespace Session

variable {α : Type} {s s' : Session} {reply : Reply}

/-- From `s` to `s'` the tokens stay and some of them may be passed; as many levels are open. -/
structure Onward (s s' : Session) : Prop where
  passes : ∃ ts, s.stream.Passes ts s'.stream
  depth : s'.depth = s.depth

/-- What keeps to the stream and is balanced takes a session onward. -/
theorem run_onward {p q : Parse α} {toReply : α → Reply} (hp : p.Keeps True)
    (hbalanced : Parse.Balanced s.depth p q) (hs : s.stream.Closed)
    (h : s.run p toReply = some (reply, s')) : s.Onward s' := by
  have hrun := hp s.stream hs
  unfold run at h
  generalize hpass : p s.stream = o at hrun h
  cases hrun with
  | done hpassed =>
    cases h
    exact ⟨⟨_, hpassed⟩, hbalanced.depth_of_done hpass⟩
  | fault hpassed =>
    cases h
    exact ⟨⟨_, hpassed⟩, hbalanced.depth_of_fault hpass⟩
  | endless => cases h

/-! ## Operations -/

theorem withTables_onward {tables : Tables} (h : s.withTables tables = some (reply, s')) :
    s.Onward s' := by
  cases h
  exact ⟨⟨[], .refl _⟩, rfl⟩

/-- An operation that does not itself open or close a level goes on from where the session stands and
leaves the levels as they are, whatever the tables are and however it ends. -/
theorem perform_onward {op : Operation} (hs : s.stream.Closed) (henter : op ≠ .enter)
    (hleave : op ≠ .leave) (h : s.perform op = some (reply, s')) : s.Onward s' := by
  have hR := Parse.balanced_congruence s.depth
  have hexpr : ∀ b, (s.expr b).Moves True := Parse.readExpr_moves s.tables.expressions
  have htype : ∀ b, (s.type b).Moves True := Parse.readType_moves s.tables
  have hexpr' := Parse.readExpr_balanced s.tables.expressions s.depth
  have htype' := Parse.readType_balanced s.tables s.depth
  cases op with
  | current => exact run_onward .current hR.current hs h
  | kind => exact run_onward .kind hR.kind hs h
  | hasTokens =>
    rw [perform] at h
    exact run_onward .kind hR.kind hs h
  | advance => exact run_onward .advance hR.advance hs h
  | expect | expectFor => exact run_onward (.expectOr _ _) (.expectOr _ _) hs h
  | enter => exact absurd rfl henter
  | leave => exact absurd rfl hleave
  | addStart | addContinue | addStatement | addTypeStart | restoreTables => exact withTables_onward h
  | expr bound => exact run_onward (hexpr bound).keeps (hexpr' bound) hs h
  | type bound => exact run_onward (htype bound).keeps (htype' bound) hs h
  | startForm form =>
    exact run_onward (Parse.startForm_moves hexpr form).keeps (hR.startForm hexpr' form) hs h
  | continueForm form power left =>
    exact run_onward (Parse.continueForm_moves hexpr form power left).keeps
      (hR.continueForm hexpr' form power left) hs h
  | typeForm form =>
    exact run_onward (Parse.typeForm_moves htype hexpr form).keeps (hR.typeForm htype' hexpr' form) hs h
  | stmtForm form =>
    exact run_onward (Parse.readForm_moves (fun _ _ => trivial) form).keeps
      (Parse.readForm_balanced s.tables s.depth form) hs h

/-- A session over the tokens, with no more levels open than there may be. -/
structure Over (tokens : List Token) (s : Session) : Prop where
  isIn : s.stream.IsIn tokens
  closed : s.stream.Closed
  depth_le : s.depth ≤ maxNesting

theorem over_of_start {tokens : List Token} (h : start tokens = .ok s) : s.Over tokens := by
  unfold start at h
  cases hstream : Stream.ofTokens tokens with
  | error cause =>
    rw [hstream] at h
    cases h
  | ok stream =>
    rw [hstream] at h
    cases h
    obtain ⟨hindex, hrest, hclosed⟩ := Stream.of_ofTokens hstream
    refine ⟨?_, hclosed, ?_⟩
    · show stream.rest = tokens.drop stream.index
      rw [hindex, hrest, List.drop_zero]
    · show stream.depth ≤ maxNesting
      rw [Stream.depth_of_ofTokens hstream]
      exact Nat.zero_le _

/-- One operation: the session stays over its tokens, and its place does not go back. -/
theorem Over.perform {tokens : List Token} {op : Operation} (hs : s.Over tokens)
    (h : s.perform op = some (reply, s')) :
    s'.Over tokens ∧ s.stream.index ≤ s'.stream.index := by
  by_cases henter : op = .enter
  · subst henter
    by_cases hlt : s.depth < maxNesting
    · have hopen : Parse.enter s.stream = .done () s.stream.enter := if_pos hlt
      simp only [Session.perform, run, hopen] at h
      cases h
      exact ⟨⟨hs.isIn, hs.closed, hlt⟩, Nat.le_refl _⟩
    · have hfull : Parse.enter s.stream = .fault (.tooDeep maxNesting) s.stream := if_neg hlt
      simp only [Session.perform, run, hfull] at h
      cases h
      exact ⟨hs, Nat.le_refl _⟩
  by_cases hleave : op = .leave
  · subst hleave
    cases h
    exact ⟨⟨hs.isIn, hs.closed, Nat.le_trans (Nat.sub_le _ _) hs.depth_le⟩, Nat.le_refl _⟩
  obtain ⟨⟨ts, hpass⟩, hdepth⟩ := perform_onward hs.closed henter hleave h
  refine ⟨⟨hs.isIn.of_passes hpass, hpass.closed hs.closed, hdepth ▸ hs.depth_le⟩, ?_⟩
  rw [hpass.index]
  exact Nat.le_add_right _ _

/-- The session after the operations, if each of them ends. -/
def after (s : Session) : List Operation → Option Session
  | [] => some s
  | op :: ops => (s.perform op).bind fun result => result.2.after ops

theorem Over.after {tokens : List Token} {ops : List Operation} (hs : s.Over tokens)
    (h : s.after ops = some s') : s'.Over tokens := by
  induction ops generalizing s with
  | nil =>
    cases h
    exact hs
  | cons op ops ih =>
    obtain ⟨⟨reply, s₁⟩, hperform, h⟩ := Option.bind_eq_some_iff.1 h
    exact ih (hs.perform hperform).1 h

/-- After any operations on a session over some tokens, an operation that ends, with or without a fault,
leaves the session in the same tokens, at a token not before the one it was at, with no more levels open
than there may be, and with as many open as before unless the operation was to open or to close one. -/
theorem perform_stays_over {tokens : List Token} {s₀ : Session} {ops : List Operation} {op : Operation}
    (hstart : start tokens = .ok s₀) (hops : s₀.after ops = some s)
    (h : s.perform op = some (reply, s')) :
    s'.stream.rest = tokens.drop s'.stream.index ∧
      tokens[s'.stream.index]? = some s'.stream.current ∧
      s.stream.index ≤ s'.stream.index ∧
      s'.depth ≤ maxNesting ∧
      (op ≠ .enter → op ≠ .leave → s'.depth = s.depth) := by
  have hover := (over_of_start hstart).after hops
  obtain ⟨hover', hindex⟩ := hover.perform h
  refine ⟨hover'.isIn, hover'.isIn.getElem?, hindex, hover'.depth_le, fun henter hleave => ?_⟩
  exact (perform_onward hover.closed henter hleave h).depth

/-- A parenthesis that nothing follows, read while a level is open: the fault leaves that level open, and
the session at the end token. -/
theorem perform_stays_over_unclosed :
    ∃ s₀ s s', start [⟨.mark .openParen, "("⟩, .endOfInput] = .ok s₀ ∧ s₀.after [.enter] = some s ∧
      s.perform (.expr .lowest) =
        some (.fault (.cannotStart .expression .endOfInput "EOF"), s') ∧
      s'.stream.current = .endOfInput ∧ s.depth = 1 ∧ s'.depth = s.depth := by
  have hstart : start [⟨.mark .openParen, "("⟩, .endOfInput] =
      .ok ⟨⟨0, ⟨.mark .openParen, "("⟩, [.endOfInput], 1, 0, [], rfl⟩, .standard⟩ := rfl
  have hops : after ⟨⟨0, ⟨.mark .openParen, "("⟩, [.endOfInput], 1, 0, [], rfl⟩, .standard⟩ [.enter] =
      some ⟨⟨0, ⟨.mark .openParen, "("⟩, [.endOfInput], 1, 1, [], rfl⟩, .standard⟩ := rfl
  have hperform : perform ⟨⟨0, ⟨.mark .openParen, "("⟩, [.endOfInput], 1, 1, [], rfl⟩, .standard⟩
      (.expr .lowest) = some (.fault (.cannotStart .expression .endOfInput "EOF"),
        ⟨⟨1, .endOfInput, [], 0, 1, [.advanced 0 (.mark .openParen)], rfl⟩, .standard⟩) := by
    with_unfolding_all rfl
  have hkept := perform_stays_over hstart hops hperform
  exact ⟨_, _, _, hstart, hops, hperform, rfl, rfl, hkept.2.2.2.2 nofun nofun⟩

end Session

end ScriptFront
