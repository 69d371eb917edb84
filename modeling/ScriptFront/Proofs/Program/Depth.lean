import ScriptFront.Proofs.Program.Exact
import ScriptFront.Proofs.Progress

/-!
# Nesting only refuses

How deep a phrase stands decides nothing but whether it is refused for standing too deep. A reader that
starts at a greater depth comes to the same value at the same place, or to the same fault, or it runs out of
levels of nesting (`Outcome.SameUpToNesting`). A block opens one level and its statements are otherwise
those of a program, though the two are read by loops that stop at different tokens; so a program can be put
into braces and taken out of them (`Parse.nesting_only_refuses`).
-/

namespace ScriptFront

variable {α : Type}

namespace Outcome

/-- What came of a run: its value with the place where it ends, or its fault. -/
def ending : Outcome α → Answer (α × Nat)
  | .done value s => .ok (value, s.index)
  | .fault cause _ => .fault cause
  | .endless => .endless

/-- The same came of both runs, unless the first ran out of levels of nesting. -/
def SameUpToNesting (o o' : Outcome α) : Prop :=
  o.ending = o'.ending ∨ o.ending = .fault (.tooDeep maxNesting)

end Outcome

/-- Places of one stream with the same tokens left are the same place. -/
theorem Stream.Alike.index_eq {s s₁ s₂ : Stream} {ts us : List Token} (h : s₁.Alike s₂)
    (hpass₁ : s.Passes ts s₁) (hpass₂ : s.Passes us s₂) : s₁.index = s₂.index := by
  have hremaining := h.remaining_eq
  have hlength₁ := congrArg List.length hpass₁.rest
  have hlength₂ := congrArg List.length hpass₂.rest
  rw [List.length_append, length_rest, length_rest] at hlength₁ hlength₂
  rw [hpass₁.index, hpass₂.index]
  omega

namespace Parse

/-- Readers that go the same way, and only ever onward, come to the same from one place, however many
levels are open there. -/
theorem Agree.sameUpToNesting {cut : Prop} {p q : Parse α} {s : Stream} (h : p.Agree cut Eq q)
    (hp : p.Keeps True) (hq : q.Keeps True) (hs : s.Closed) (d d' : Nat) :
    (p (s.atDepth d')).SameUpToNesting (q (s.atDepth d)) := by
  have hagree := h (s.atDepth d') (s.atDepth d) rfl
  have hp := hp (s.atDepth d') hs
  have hq := hq (s.atDepth d) hs
  generalize p (s.atDepth d') = o, q (s.atDepth d) = o' at hagree hp hq
  cases hagree with
  | done hvalue halike =>
    subst hvalue
    cases hp with
    | done hpass₁ =>
      cases hq with
      | done hpass₂ =>
        have hpass₁ : s.Passes _ _ := ⟨hpass₁.rest, hpass₁.index⟩
        left
        simp only [Outcome.ending, halike.index_eq hpass₁ ⟨hpass₂.rest, hpass₂.index⟩]
  | fault cause => exact .inl rfl
  | endless => exact .inl rfl
  | tooDeep => exact .inr rfl

end Parse

/-! ## Blocks and programs -/

section

variable {n : Nat} {ts : List Token} {opening closing ending : Token} {p : Program}

/-- Between the braces of a block stand the tokens of a program, with one level less to open. -/
theorem derivesStmt_block_iff {body : List Stmt} (ho : opening.kind = .mark .openCurly)
    (hc : closing.kind = .mark .closeCurly) :
    DerivesStmt (n + 1) (opening :: (ts ++ [closing])) (.block body) ↔ DerivesProgram n ts ⟨body⟩ := by
  constructor
  · intro h
    generalize htokens : opening :: (ts ++ [closing]) = us at h
    cases h with
    | block _ _ hitems =>
      injection htokens with _ htokens
      obtain ⟨hts, -⟩ := List.append_inj' htokens rfl
      exact ⟨_, hitems, hts, rfl⟩
  · rintro ⟨items, hitems, rfl, hbody⟩
    obtain rfl : body = items.map Prod.snd := hbody
    exact .block ho hc hitems

/-- A program is read in braces, unless that takes one level of nesting too many. -/
theorem parse_braced_of_parse (hts : ∀ t ∈ ts, t.kind ≠ .endOfInput) (ho : opening.kind = .mark .openCurly)
    (hc : closing.kind = .mark .closeCurly) (hending : ending.kind = .endOfInput)
    (h : parse (ts ++ [ending]) = .ok p) :
    parse (opening :: (ts ++ [closing, ending])) = .ok ⟨[.block p.body]⟩ ∨
      parse (opening :: (ts ++ [closing, ending])) = .fault (.tooDeep maxNesting) := by
  have hprogram := derivesProgram_of_parse hts hending h
  have hblock := derivesProgram_singleton_iff.2 ((derivesStmt_block_iff ho hc).2 hprogram)
  rw [List.append_cons]
  exact (parse_of_derivesProgram hending (Nat.le_succ _) hblock).imp_right And.right

/-- What is read in braces is read without them. -/
theorem parse_of_parse_braced (hts : ∀ t ∈ ts, t.kind ≠ .endOfInput) (ho : opening.kind = .mark .openCurly)
    (hc : closing.kind = .mark .closeCurly) (hending : ending.kind = .endOfInput)
    (h : parse (opening :: (ts ++ [closing, ending])) = .ok ⟨[.block p.body]⟩) :
    parse (ts ++ [ending]) = .ok p := by
  have hbraced : ∀ t ∈ opening :: (ts ++ [closing]), t.kind ≠ .endOfInput := by
    simpa [or_imp, forall_and, ho, hc] using hts
  rw [List.append_cons] at h
  have hblock : DerivesStmt (255 + 1) (opening :: (ts ++ [closing])) (.block p.body) :=
    (parse_eq_ok_singleton_iff hbraced hending).1 h
  exact parse_of_derivesProgram_of_le hending (by decide) ((derivesStmt_block_iff ho hc).1 hblock)

end

namespace Parse

/-- Depth matters only in that readers refuse to go too deep. A reader that starts at a greater depth comes
to what it comes to at a smaller one, or is refused for its depth. So a program is read also as the body
of a block, unless it is too deep for it, and the body of a block is read as a program. -/
theorem nesting_only_refuses (t : Tables) :
    (∀ (s : Stream) (d d' : Nat), s.Closed → d ≤ d' →
      (∀ b, (readExpr t.expressions b (s.atDepth d')).SameUpToNesting
        (readExpr t.expressions b (s.atDepth d))) ∧
      (∀ b, (readType t b (s.atDepth d')).SameUpToNesting (readType t b (s.atDepth d))) ∧
      (readStmt t (s.atDepth d')).SameUpToNesting (readStmt t (s.atDepth d))) ∧
    (∀ (ts : List Token) (opening closing ending : Token), (∀ t ∈ ts, t.kind ≠ .endOfInput) →
      opening.kind = .mark .openCurly → closing.kind = .mark .closeCurly → ending.kind = .endOfInput →
      (∀ p, parse (ts ++ [ending]) = .ok p →
        parse (opening :: (ts ++ [closing, ending])) = .ok ⟨[.block p.body]⟩ ∨
          parse (opening :: (ts ++ [closing, ending])) = .fault (.tooDeep maxNesting)) ∧
      (∀ p, parse (opening :: (ts ++ [closing, ending])) = .ok ⟨[.block p.body]⟩ →
        parse (ts ++ [ending]) = .ok p)) := by
  constructor
  · intro s d d' hs hd
    have hroom : maxNesting - d' ≤ maxNesting - d := by omega
    refine ⟨fun b => ?_, fun b => ?_, ?_⟩
    · rw [readExpr_eq, readExpr_eq]
      apply (exprWithin_agree t.expressions hroom id b).sameUpToNesting _ _ hs
      · exact (exprWithin_moves t.expressions _ b).keeps
      · exact (exprWithin_moves t.expressions _ b).keeps
    · rw [readType_eq, readType_eq]
      apply (typeWithin_agree t hroom id b).sameUpToNesting _ _ hs
      · exact (typeWithin_moves t _ b).keeps
      · exact (typeWithin_moves t _ b).keeps
    · rw [readStmt_eq, readStmt_eq]
      apply (stmtWithin_agree t hroom id).sameUpToNesting _ _ hs
      · exact (stmtWithin_moves (fun _ _ => trivial) _).keeps
      · exact (stmtWithin_moves (fun _ _ => trivial) _).keeps
  · intro ts opening closing ending hts ho hc hending
    constructor
    · intro p
      exact parse_braced_of_parse hts ho hc hending
    · intro p
      exact parse_of_parse_braced hts ho hc hending

/-- At depth 255 `-a` is refused for its operand or read as at depth zero, and the block in `{ { a; } }` is
read alone. -/
theorem nesting_only_refuses_block :
    Outcome.SameUpToNesting
      (readExpr .standard .lowest
        ⟨0, ⟨.mark .dash, "-"⟩, [⟨.identifier, "a"⟩, .endOfInput], 2, 255, [], rfl⟩)
      (readExpr .standard .lowest
        ⟨0, ⟨.mark .dash, "-"⟩, [⟨.identifier, "a"⟩, .endOfInput], 2, 0, [], rfl⟩) ∧
    parse [⟨.mark .openCurly, "\x7b"⟩, ⟨.identifier, "a"⟩, ⟨.mark .semicolon, ";"⟩,
        ⟨.mark .closeCurly, "\x7d"⟩, .endOfInput] = .ok ⟨[.block [.expression (.symbol "a")]]⟩ := by
  obtain ⟨hdepth, hblock⟩ := nesting_only_refuses .standard
  constructor
  · exact (hdepth ⟨0, ⟨.mark .dash, "-"⟩, [⟨.identifier, "a"⟩, .endOfInput], 2, 0, [], rfl⟩ 0 255 rfl
      (by decide)).1 .lowest
  · apply (hblock [⟨.mark .openCurly, "\x7b"⟩, ⟨.identifier, "a"⟩, ⟨.mark .semicolon, ";"⟩,
      ⟨.mark .closeCurly, "\x7d"⟩] ⟨.mark .openCurly, "\x7b"⟩ ⟨.mark .closeCurly, "\x7d"⟩ .endOfInput
      (by decide) rfl rfl rfl).2
    with_unfolding_all rfl

end Parse

end ScriptFront
