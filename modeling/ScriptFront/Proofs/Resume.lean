import ScriptFront.Proofs.Session

/-!
# Reading on at a looser bound

A phrase that is read at some bound begins with the phrase that is read at a tighter one: up to where the
tighter reading stops, both do the same. So the looser reading is the tighter one, taken up again at the
looser bound with the value it came to (`Parse.climb_eq_bind_extend`). This asks nothing of the grammar or
its forms, since a round of the tighter loop that is not its last is a round of the looser one
(`Parse.loop_eq_bind_loop`). A session that reads at the looser bound therefore replies as it would after
stopping at the tighter one and going on from there (`Session.climb_factors`).
-/

namespace ScriptFront

variable {α β : Type}

namespace Parse

/-- What follows a run depends on nothing but its outcome. -/
theorem bind_congr {p q : Parse α} {s s' : Stream} (h : p s = q s') (f : α → Parse β) :
    (p >>= f) s = (q >>= f) s' := by
  cases hp : p s with
  | done a s₁ => rw [bind_done hp, bind_done (h.symm.trans hp)]
  | fault cause s₁ => rw [bind_fault hp, bind_fault (h.symm.trans hp)]
  | endless => rw [bind_endless hp, bind_endless (h.symm.trans hp)]

/-- A round that does not end, or asks for another without having read a token. -/
theorem loop_endless {round : α → Parse (Round α)} {a : α} {s : Stream}
    (h : round a s = .endless ∨
      ∃ b s', round a s = .done (.again b) s' ∧ ¬ s'.remaining < s.remaining) :
    loop round a s = .endless := by
  rcases h with h | ⟨b, s', h, hlt⟩
  · rw [loop, h]
  · rw [loop, h]
    exact if_neg hlt

/-- A loop is one that may be over sooner but is otherwise the same, and then the loop itself, taken up
from there. -/
theorem loop_eq_bind_loop {round early : α → Parse (Round α)}
    (h : ∀ a s, early a s = .done (.over a) s ∨
      (early a s = round a s ∧ ∀ b s', round a s ≠ .done (.over b) s')) (a : α) :
    loop round a = (loop early a >>= loop round) := by
  funext s
  generalize hn : s.remaining = n
  induction n using Nat.strongRecOn generalizing a s with
  | ind n ih =>
    rcases h a s with hover | ⟨hsame, hgoes⟩
    · rw [bind_done (loop_over hover)]
    · cases hround : round a s with
      | done r s₁ =>
        have hearly := hsame.trans hround
        rcases r with b | b
        · by_cases hlt : s₁.remaining < s.remaining
          · rw [loop_again hround hlt, bind_congr (loop_again hearly hlt)]
            exact ih _ (hn ▸ hlt) b s₁ rfl
          · rw [loop_endless (.inr ⟨b, s₁, hround, hlt⟩),
              bind_endless (loop_endless (.inr ⟨b, s₁, hearly, hlt⟩))]
        · exact absurd hround (hgoes b s₁)
      | fault cause s₁ => rw [loop_fault hround, bind_fault (loop_fault (hsame.trans hround))]
      | endless =>
        rw [loop_endless (.inl hround), bind_endless (loop_endless (.inl (hsame.trans hround)))]

section Climb

variable {σ τ : Type} {b₁ b₂ : Power}

/-- A token that binds more tightly than the tighter bound continues a phrase at both in the same way. -/
theorem extend_eq_bind_extend (phrase : Phrase) (g : Grammar σ τ) (more : τ → Power → α → Parse α)
    (hb : b₁ ≤ b₂) (left : α) :
    extend phrase g more b₁ left = (extend phrase g more b₂ left >>= extend phrase g more b₁) := by
  refine loop_eq_bind_loop (fun left s => ?_) left
  simp only [current_bind]
  by_cases htight : g.power s.current.kind ≤ b₂
  · rw [if_pos htight]
    exact .inl rfl
  · have hloose : ¬ g.power s.current.kind ≤ b₁ := fun h => htight (Nat.le_trans h hb)
    rw [if_neg htight, if_neg hloose]
    refine .inr ⟨rfl, fun b s' => ?_⟩
    cases g.continues s.current.kind with
    | none => exact fail_ne_done
    | some form =>
      intro h
      obtain ⟨_, s₁, -, h⟩ := bind_eq_done.1 h
      obtain ⟨left', s₂, -, h⟩ := bind_eq_done.1 h
      cases (pure_eq_done.1 h).1

/-- A phrase read at a bound is the phrase read at a tighter one, continued at the looser. -/
theorem climb_eq_bind_extend (phrase : Phrase) (g : Grammar σ τ) (start : σ → Parse α)
    (more : τ → Power → α → Parse α) (hb : b₁ ≤ b₂) :
    climb phrase g start more b₁ = (climb phrase g start more b₂ >>= extend phrase g more b₁) := by
  funext s
  unfold climb
  cases hfirst : operand phrase g start s with
  | done left s₁ =>
    rw [bind_done hfirst, extend_eq_bind_extend phrase g more hb]
    exact bind_congr (bind_done hfirst).symm _
  | fault cause s₁ => rw [bind_fault hfirst, bind_fault (bind_fault hfirst)]
  | endless => rw [bind_endless hfirst, bind_endless (bind_endless hfirst)]

end Climb

end Parse

namespace Session

variable {s s₁ s₂ : Session} {toReply : α → Reply} {reply reply₁ reply₂ : Reply}

/-- What a session replies to a reading, and where it then stands. -/
theorem run_eq_some_iff {p : Parse α} : s.run p toReply = some (reply, s₁) ↔
    (∃ a stream, p s.stream = .done a stream ∧ toReply a = reply ∧ { s with stream } = s₁) ∨
      ∃ cause stream, p s.stream = .fault cause stream ∧ .fault cause = reply ∧
        { s with stream } = s₁ := by
  unfold run
  constructor
  · intro h
    cases hp : p s.stream with
    | done a stream =>
      rw [hp] at h
      cases h
      exact .inl ⟨a, stream, rfl, rfl, rfl⟩
    | fault cause stream =>
      rw [hp] at h
      cases h
      exact .inr ⟨cause, stream, rfl, rfl, rfl⟩
    | endless =>
      rw [hp] at h
      cases h
  · rintro (⟨a, stream, hp, rfl, rfl⟩ | ⟨cause, stream, hp, rfl, rfl⟩)
    · rw [hp]
    · rw [hp]

theorem run_isSome {p : Parse α} (h : p s.stream ≠ .endless) : (s.run p toReply).isSome := by
  unfold run
  split
  · rfl
  · rfl
  · next hp => exact absurd hp h

/-- To read the whole is to read the part and to go on from its value. The part and the whole have an end
on a stream that has one, and the whole passes the tokens of the part before any others. -/
structure Factors (s : Session) (toReply : α → Reply) (whole part : Parse α)
    (resume : Session → α → Parse α) : Prop where
  fault : ∀ cause s₁, s.run part toReply = some (.fault cause, s₁) →
    s.run whole toReply = some (.fault cause, s₁)
  value : ∀ left s₁, s.run part toReply = some (toReply left, s₁) →
    s.run whole toReply = s₁.run (resume s₁ left) toReply
  ends : s.stream.Closed → (s.run part toReply).isSome ∧ (s.run whole toReply).isSome
  onward : s.stream.Closed → ∀ reply₁ s₁ reply₂ s₂, s.run part toReply = some (reply₁, s₁) →
    s.run whole toReply = some (reply₂, s₂) → s.Onward s₁ ∧ s₁.Onward s₂

/-- What is read after the part depends on the tables and the open levels, which the part leaves. -/
theorem factors_of_bind {whole part part' : Parse α} {resume : Session → α → Parse α}
    {resume' : α → Parse α} (hbind : whole = (part >>= resume s))
    (hresume : ∀ stream, resume { s with stream } = resume s)
    (hinjective : ∀ a b, toReply a = toReply b → a = b) (hvalue : ∀ a cause, toReply a ≠ .fault cause)
    (hpart : ∀ stuck, part.Keeps stuck) (hmore : ∀ stuck left, (resume s left).Keeps stuck)
    (hpart' : Parse.Balanced s.depth part part')
    (hmore' : ∀ left, Parse.Balanced s.depth (resume s left) (resume' left)) :
    s.Factors toReply whole part resume := by
  have hfault (cause) (s₁) (h : s.run part toReply = some (.fault cause, s₁)) :
      s.run whole toReply = some (.fault cause, s₁) := by
    rcases run_eq_some_iff.1 h with ⟨a, stream, -, hreply, -⟩ | ⟨cause', stream, hrun, hreply, rfl⟩
    · exact absurd hreply (hvalue a cause)
    · apply run_eq_some_iff.2
      rw [hbind]
      exact .inr ⟨cause', stream, Parse.bind_fault hrun, hreply, rfl⟩
  have hdone (left) (s₁) (h : s.run part toReply = some (toReply left, s₁)) :
      s.run whole toReply = s₁.run (resume s₁ left) toReply := by
    rcases run_eq_some_iff.1 h with ⟨a, stream, hrun, hreply, rfl⟩ | ⟨cause, stream, -, hreply, -⟩
    · obtain rfl := hinjective a left hreply
      rw [hresume, run, hbind, Parse.bind_done hrun]
      rfl
    · exact absurd hreply.symm (hvalue left cause)
  refine ⟨hfault, hdone, fun hs => ⟨?_, ?_⟩, fun hs reply₁ s₁ reply₂ s₂ h₁ h₂ => ?_⟩
  · exact run_isSome ((hpart False).ne_endless hs)
  · rw [hbind]
    exact run_isSome (((hpart False).bind (hmore False)).ne_endless hs)
  · have honward := run_onward (hpart True) hpart' hs h₁
    obtain ⟨ts, hpass⟩ := honward.passes
    refine ⟨honward, ?_⟩
    rcases run_eq_some_iff.1 h₁ with ⟨left, stream, -, rfl, hs₁⟩ | ⟨cause, stream, -, rfl, -⟩
    · have hmore' : Parse.Balanced s₁.depth (resume s left) (resume' left) := honward.depth ▸ hmore' left
      rw [hdone left s₁ h₁, ← hs₁, hresume] at h₂
      rw [← hs₁] at hpass hmore' ⊢
      exact run_onward (hmore True left) hmore' (hpass.closed hs) h₂
    · rw [hfault cause s₁ h₁] at h₂
      cases h₂
      exact ⟨⟨[], .refl _⟩, rfl⟩

/-- In a session in any state and with any tables, an expression or a type that is read at a bound is the
one that is read at a tighter bound, with the loop taken up from its value at the looser bound: the reply,
the place in the tokens, the open levels and the events are the same. A fault of the tighter reading is
the fault of the looser one, and the looser reading passes what the tighter one passes. -/
theorem climb_factors {b₁ b₂ : Power} (hb : b₁ ≤ b₂) (s : Session) :
    s.Factors .expr
      (Parse.climb .expression s.tables.expressions (Parse.startForm s.expr) (Parse.continueForm s.expr) b₁)
      (Parse.climb .expression s.tables.expressions (Parse.startForm s.expr) (Parse.continueForm s.expr) b₂)
      (fun s₁ => Parse.extend .expression s₁.tables.expressions (Parse.continueForm s₁.expr) b₁) ∧
    s.Factors .type
      (Parse.climb .typeRef s.tables.types (Parse.typeForm s.type s.expr) (fun form _ _ => nomatch form) b₁)
      (Parse.climb .typeRef s.tables.types (Parse.typeForm s.type s.expr) (fun form _ _ => nomatch form) b₂)
      (fun s₁ => Parse.extend .typeRef s₁.tables.types (fun form _ _ => nomatch form) b₁) := by
  have hexpr (stuck) (b) : (s.expr b).Moves stuck := Parse.readExpr_moves s.tables.expressions b
  have htype (stuck) (b) : (s.type b).Moves stuck := Parse.readType_moves s.tables b
  have hR := Parse.balanced_congruence s.depth
  have hexpr' := Parse.readExpr_balanced s.tables.expressions s.depth
  have htype' := Parse.readType_balanced s.tables s.depth
  constructor
  · have hmore (stuck) := Parse.continueForm_moves (hexpr stuck)
    have hmore' := hR.continueForm hexpr'
    apply factors_of_bind (Parse.climb_eq_bind_extend _ _ _ _ hb)
    · exact fun _ => rfl
    · exact fun _ _ h => Reply.expr.inj h
    · exact fun _ _ => Reply.noConfusion
    · intro stuck
      exact (Parse.climb_moves .expression b₂ (Parse.startForm_moves (hexpr stuck)) (hmore stuck)).keeps
    · intro stuck left
      exact Parse.extend_keeps .expression b₁ left (hmore stuck)
    · exact hR.climb .expression (Parse.balanced_covers _ _) b₂ (hR.startForm hexpr') hmore'
    · exact fun left => hR.extend .expression (Parse.balanced_covers _ _) b₁ left hmore'
  · have hmore' (form : Empty) (power : Power) (left : TypeRef) : Parse.Balanced s.depth
        (nomatch form : Parse TypeRef) (nomatch form) := nomatch form
    apply factors_of_bind (Parse.climb_eq_bind_extend _ _ _ _ hb)
    · exact fun _ => rfl
    · exact fun _ _ h => Reply.type.inj h
    · exact fun _ _ => Reply.noConfusion
    · intro stuck
      exact (Parse.climb_moves .typeRef b₂ (Parse.typeForm_moves (htype stuck) (hexpr stuck))
        fun form => nomatch form).keeps
    · intro stuck left
      exact Parse.extend_keeps .typeRef b₁ left fun form => nomatch form
    · exact hR.climb .typeRef (Parse.balanced_covers _ _) b₂ (hR.typeForm htype' hexpr') hmore'
    · exact fun left => hR.extend .typeRef (Parse.balanced_covers _ _) b₁ left hmore'

/-- `a * b ? c`, where the question mark has been made a loose operator and a level is open: what is read
above sums stops at the question mark, and from there it becomes the whole. -/
theorem climb_factors_added :
    ∃ s s₁ : Session, s.tables = Tables.standard.addContinue (.mark .question) .comma .binary ∧ s.depth = 1 ∧
      s.stream.rest = [⟨.identifier, "a"⟩, ⟨.mark .star, "*"⟩, ⟨.identifier, "b"⟩, ⟨.mark .question, "?"⟩,
        ⟨.identifier, "c"⟩, .endOfInput] ∧
      s.run (Parse.climb .expression s.tables.expressions (Parse.startForm s.expr)
        (Parse.continueForm s.expr) .additive) .expr =
          some (.expr (.binary ⟨.mark .star, "*"⟩ (.symbol "a") (.symbol "b")), s₁) ∧
      s₁.stream.rest = [⟨.mark .question, "?"⟩, ⟨.identifier, "c"⟩, .endOfInput] ∧
      s.run (Parse.climb .expression s.tables.expressions (Parse.startForm s.expr)
        (Parse.continueForm s.expr) .lowest) .expr =
          s₁.run (Parse.extend .expression s₁.tables.expressions (Parse.continueForm s₁.expr) .lowest
            (.binary ⟨.mark .star, "*"⟩ (.symbol "a") (.symbol "b"))) .expr := by
  let s : Session := ⟨⟨0, ⟨.identifier, "a"⟩, [⟨.mark .star, "*"⟩, ⟨.identifier, "b"⟩,
    ⟨.mark .question, "?"⟩, ⟨.identifier, "c"⟩, .endOfInput], 5, 1, [], rfl⟩,
    Tables.standard.addContinue (.mark .question) .comma .binary⟩
  let s₁ : Session := ⟨⟨3, ⟨.mark .question, "?"⟩, [⟨.identifier, "c"⟩, .endOfInput], 2, 1,
    [.advanced 2 .identifier, .advanced 1 (.mark .star),
      .continued .expression (.mark .star) .multiplicative, .advanced 0 .identifier], rfl⟩, s.tables⟩
  have hpart : s.run (Parse.climb .expression s.tables.expressions (Parse.startForm s.expr)
      (Parse.continueForm s.expr) .additive) .expr =
        some (.expr (.binary ⟨.mark .star, "*"⟩ (.symbol "a") (.symbol "b")), s₁) := by
    with_unfolding_all rfl
  exact ⟨s, s₁, rfl, rfl, rfl, hpart, rfl, (climb_factors (by decide) s).1.value _ s₁ hpart⟩

end Session

end ScriptFront
