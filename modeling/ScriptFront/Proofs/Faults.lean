import ScriptFront.Proofs.Local
import ScriptFront.Proofs.Session
import ScriptFront.Proofs.Token.Stuck

/-!
# Which faults there can be

A run over tokens stops only with some of the faults. It does not complain of the source text or of a
missing end token, which are seen before it starts, and it calls a number unreadable only if one of its
tokens is (`Fault.Arises`). Nor does it ever meet a token that should continue a phrase and cannot: in a
grammar that is `Grammar.Complete` each token that binds at all has a form to continue with. The grammars
of the language are complete, and every entry that can be added keeps them so, because a power is never
given without a form.

`Parse.Safe T p` says that over tokens in `T` the parser `p` stops with no other faults. Each way of
putting parsers together keeps it, so it holds of all readers over complete tables; the numbers of a
source text can all be read, which leaves none of the faults above to a source text.
-/

namespace ScriptFront

/-- The faults that a run over tokens in `T` can stop with. -/
def Fault.Arises (T : Token → Prop) : Fault → Prop
  | unrecognised _ | unterminated | cannotContinue _ _ _ => False
  | unreadableNumber lexeme => T ⟨.number, lexeme⟩ ∧ Double.read? lexeme = none
  | _ => True

variable {T : Token → Prop}

theorem Token.arises_of_toExpr {t : Token} {cause : Fault} (ht : T t) (h : t.toExpr = .error cause) :
    cause.Arises T := by
  unfold toExpr at h
  split at h
  · next hk =>
    split at h
    · cases h
    · next hread =>
      cases h
      refine ⟨?_, hread⟩
      rw [← hk]
      exact ht
  · cases h
  · cases h
  · cases h
    trivial

theorem Fault.Plain.arises {cause : Fault} (h : cause.Plain) : cause.Arises T := by
  cases cause <;> trivial

/-! ## Complete grammars -/

namespace Grammar

variable {σ τ : Type} {g : Grammar σ τ}

/-- Each token that binds more tightly than nothing at all has a form to continue with. -/
def Complete (g : Grammar σ τ) : Prop := ∀ k, .lowest < g.power k → (g.continues k).isSome

theorem Complete.addStart (h : g.Complete) (kind : Kind) (form : σ) : (g.addStart kind form).Complete :=
  h

theorem Complete.addContinue (h : g.Complete) (kind : Kind) (power : Power) (form : τ) :
    (g.addContinue kind power form).Complete := by
  intro k hk
  by_cases hkind : k = kind
  · simp [Grammar.addContinue, hkind]
  · simp only [Grammar.addContinue, if_neg hkind] at hk ⊢
    exact h k hk

/-- Whatever entries are put over those of a complete grammar, power and form come together. -/
theorem Complete.restore (h : g.Complete) (base : Grammar σ τ) : (base.restore g).Complete := by
  intro k hk
  simp only [Grammar.restore] at hk ⊢
  cases hbase : base.continues k with
  | some form => rfl
  | none =>
    rw [hbase] at hk
    exact h k hk

/-- A token that binds more tightly than some bound can continue a phrase. -/
theorem Complete.exists_form (h : g.Complete) {k : Kind} {bound : Power} (hk : ¬ g.power k ≤ bound) :
    ∃ form, g.continues k = some form := by
  apply Option.isSome_iff_exists.1
  apply h
  rw [Power.le_iff] at hk
  rw [Power.lt_iff]
  show 0 < (g.power k).rank
  omega

end Grammar

theorem ExprGrammar.standard_complete : ExprGrammar.standard.Complete := by
  intro k hk
  cases k with
  | mark m =>
    simp only [standard] at hk ⊢
    cases hm : operator m with
    | none => simp [hm, Power.lt_iff] at hk
    | some entry => rfl
  | _ => exact absurd hk (Nat.lt_irrefl 0)

theorem TypeGrammar.standard_complete : TypeGrammar.standard.Complete := by
  intro k hk
  exact absurd hk (Nat.lt_irrefl 0)

/-- Both grammars are complete. -/
structure Tables.Complete (t : Tables) : Prop where
  expressions : t.expressions.Complete
  types : t.types.Complete

theorem Tables.standard_complete : Tables.standard.Complete :=
  ⟨ExprGrammar.standard_complete, TypeGrammar.standard_complete⟩

/-! ## Runs over tokens -/

/-- Each of the tokens that are left is in `T`. -/
def Stream.All (T : Token → Prop) (s : Stream) : Prop := ∀ t ∈ s.rest, T t

theorem Stream.All.current {s : Stream} (h : s.All T) : T s.current := h _ List.mem_cons_self

theorem Stream.All.advance {s : Stream} (h : s.All T) : s.advance.All T := by
  obtain ⟨ts, hpass⟩ := s.exists_passes_advance
  intro t ht
  apply h
  rw [hpass.rest]
  exact List.mem_append_right ts ht

variable {α β : Type}

/-- The outcome leaves only tokens in `T`, or is a fault that can arise over such tokens. -/
inductive Outcome.Safe (T : Token → Prop) : Outcome α → Prop where
  | done {a : α} {s : Stream} (hs : s.All T) : Safe T (.done a s)
  | fault {cause : Fault} {s : Stream} (h : cause.Arises T) : Safe T (.fault cause s)
  | endless : Safe T .endless

namespace Parse

/-- Over tokens in `T` the runs stop only with faults that can arise over such tokens. -/
def Safe (T : Token → Prop) (p : Parse α) : Prop := ∀ s, s.All T → (p s).Safe T

namespace Safe

variable {p : Parse α} {f : α → Parse β}

theorem bind (h : p.Safe T) (h' : ∀ a, (f a).Safe T) : (p >>= f).Safe T := by
  intro s hs
  have hrun := h s hs
  generalize hp : p s = o at hrun
  cases hrun with
  | done hs' =>
    rw [bind_done hp]
    exact h' _ _ hs'
  | fault hcause =>
    rw [bind_fault hp]
    exact .fault hcause
  | endless =>
    rw [bind_endless hp]
    exact .endless

theorem pure (a : α) : (Pure.pure a : Parse α).Safe T := fun _ hs => .done hs

theorem fail {cause : Fault} (h : cause.Arises T) : (Parse.fail cause : Parse α).Safe T :=
  fun _ _ => .fault h

theorem never : (Parse.never : Parse α).Safe T := fun _ _ => .endless

theorem current : Safe T current := fun _ hs => .done hs

theorem kind : Safe T kind := fun _ hs => .done hs

theorem record (event : Event) : Safe T (record event) := fun _ hs => .done hs

theorem advance : Safe T advance := fun _ hs => .done hs.advance

theorem expectOr {k : Kind} {cause : Token → Fault} (h : ∀ t, (cause t).Arises T) :
    Safe T (expectOr k cause) := by
  intro s hs
  unfold Parse.expectOr
  split
  · exact .done hs.advance
  · exact .fault (h s.current)

theorem enter : Safe T enter := by
  intro s hs
  unfold Parse.enter
  split
  · exact .done hs
  · exact .fault trivial

theorem expect (k : Kind) : Safe T (expect k) := expectOr fun _ => trivial

theorem expectFor (k : Kind) (reason : String) : Safe T (expectFor k reason) :=
  expectOr fun _ => trivial

theorem loop {round : α → Parse (Round α)} (h : ∀ a, (round a).Safe T) (a : α) :
    (loop round a).Safe T := by
  intro s hs
  generalize hn : s.remaining = n
  induction n using Nat.strongRecOn generalizing a s with
  | ind n ih =>
    have hrun := h a s hs
    rw [Parse.loop]
    generalize round a s = o at hrun
    cases hrun with
    | @done r s₁ hs₁ =>
      rcases r with b | b
      · dsimp only
        split
        · next hlt => exact ih _ (hn ▸ hlt) b _ hs₁ rfl
        · exact .endless
      · exact .done hs₁
    | fault hcause => exact .fault hcause
    | endless => exact .endless

end Safe

/-- A literal is a fault only if its token is a number that cannot be read, or none of the tokens that are
expressions. -/
theorem Safe.literal : Safe T literal := by
  intro s hs
  rw [Parse.literal, advance_bind]
  cases he : s.current.toExpr with
  | ok e => exact .done hs.advance
  | error cause => exact .fault (Token.arises_of_toExpr hs.current he)

/-- To be safe is kept by whatever parsers are put together from. -/
theorem safe_congruence (T : Token → Prop) : Congruence (Diagonal fun _ p => p.Safe T) where
  mono _ h := h
  pure _ := ⟨rfl, .pure _⟩
  fail h := ⟨rfl, .fail h.arises⟩
  bind h h' := ⟨by rw [h.1, funext fun a => (h' a).1], h.2.bind fun a => (h' a).2⟩
  bind_moves h h' := ⟨by rw [h.1, funext fun a => (h' a).1], h.2.bind fun a => (h' a).2⟩
  current := ⟨rfl, .current⟩
  advance := ⟨rfl, .advance⟩
  record event := ⟨rfl, .record event⟩
  expectOr _ h := ⟨rfl, .expectOr fun t => (h t).arises⟩
  literal := ⟨rfl, .literal⟩
  loop h a := ⟨by rw [funext fun a => (h a).1], .loop (fun a => (h a).2) a⟩

/-- In a complete grammar no token binds and continues nothing. -/
theorem safe_covers {σ τ : Type} {g : Grammar σ τ} (hg : g.Complete) :
    Covers (Diagonal fun _ p => p.Safe T) g := by
  intro α least phrase k lexeme bound hpower hnone
  obtain ⟨form, hform⟩ := hg.exists_form hpower
  rw [hnone] at hform
  cases hform

theorem safe_coversTables {t : Tables} (ht : t.Complete) :
    CoversTables (Diagonal fun _ p => p.Safe T) t :=
  ⟨safe_covers ht.expressions, safe_covers ht.types, fun _ => ⟨rfl, .never⟩⟩

variable {t : Tables}

theorem readExpr_safe {g : ExprGrammar} (hg : g.Complete) (bound : Power) : (readExpr g bound).Safe T := by
  intro s hs
  rw [readExpr_eq]
  exact ((safe_congruence T).exprWithin (safe_covers hg) (.refl _) bound).2 s hs

theorem readType_safe (ht : t.Complete) (bound : Power) : (readType t bound).Safe T := by
  intro s hs
  rw [readType_eq]
  exact ((safe_congruence T).typeWithin (safe_covers ht.expressions) (safe_covers ht.types) (.refl _)
    bound).2 s hs

theorem readStmt_safe (ht : t.Complete) : (readStmt t).Safe T := by
  intro s hs
  rw [readStmt_eq]
  exact ((safe_congruence T).stmtWithin (safe_coversTables ht) (.refl _)).2 s hs

theorem readForm_safe (ht : t.Complete) (form : StmtForm) : (readForm t form).Safe T := by
  intro s hs
  rw [readForm_eq]
  exact ((safe_congruence T).formWithin (safe_coversTables ht) (.refl _) form).2 s hs

theorem wholeType_safe (ht : t.Complete) : (wholeType t).Safe T :=
  (readType_safe ht .lowest).bind fun _ => (Safe.expect _).bind fun _ => .pure _

theorem program_safe (ht : t.Complete) : (program t).Safe T :=
  ((safe_congruence T).untilEnd ⟨rfl, readStmt_safe ht⟩).2

theorem Safe.arises {p : Parse α} {s s' : Stream} {cause : Fault} (h : p.Safe T) (hs : s.All T)
    (hfault : p s = .fault cause s') : cause.Arises T := by
  have hrun := h s hs
  rw [hfault] at hrun
  cases hrun with
  | fault hcause => exact hcause

end Parse

/-! ## Sessions -/

/-- A fault in the reply is one that can arise over tokens. -/
def Reply.Safe : Reply → Prop
  | .fault cause => cause.Arises fun _ => True
  | _ => True

namespace Session

variable {s s' : Session} {reply : Reply}

/-- What a reading replies is safe, and it leaves the tables as they are. -/
theorem run_complete {p : Parse α} {toReply : α → Reply} (hs : s.tables.Complete)
    (hp : p.Safe fun _ => True) (h : s.run p toReply = some (reply, s'))
    (hreply : ∀ a, (toReply a).Safe) : reply.Safe ∧ s'.tables.Complete := by
  have hrun := hp s.stream fun _ _ => trivial
  unfold run at h
  generalize p s.stream = o at hrun h
  cases hrun with
  | done =>
    cases h
    exact ⟨hreply _, hs⟩
  | fault hcause =>
    cases h
    exact ⟨hcause, hs⟩
  | endless => cases h

/-- One operation on complete tables: no reply says that a token cannot continue a phrase, and the
tables stay complete whatever is added to them. -/
theorem perform_complete {op : Operation} (hs : s.tables.Complete)
    (h : s.perform op = some (reply, s')) : reply.Safe ∧ s'.tables.Complete := by
  have hR := Parse.safe_congruence fun _ => True
  have hexpr : ∀ b, (s.expr b).Safe fun _ => True := Parse.readExpr_safe hs.expressions
  have htype : ∀ b, (s.type b).Safe fun _ => True := Parse.readType_safe hs
  cases op with
  | current => exact run_complete hs .current h fun _ => trivial
  | kind => exact run_complete hs .kind h fun _ => trivial
  | hasTokens =>
    rw [perform] at h
    exact run_complete hs .kind h fun _ => trivial
  | advance => exact run_complete hs .advance h fun _ => trivial
  | expect k => exact run_complete hs (.expect k) h fun _ => trivial
  | expectFor k reason => exact run_complete hs (.expectFor k reason) h fun _ => trivial
  | enter => exact run_complete hs .enter h fun _ => trivial
  | leave =>
    cases h
    exact ⟨trivial, hs⟩
  | addStart kind form =>
    cases h
    exact ⟨trivial, hs.expressions.addStart kind form, hs.types⟩
  | addContinue kind power form =>
    cases h
    exact ⟨trivial, hs.expressions.addContinue kind power form, hs.types⟩
  | addStatement =>
    cases h
    exact ⟨trivial, hs.expressions, hs.types⟩
  | addTypeStart kind form =>
    cases h
    exact ⟨trivial, hs.expressions, hs.types.addStart kind form⟩
  | restoreTables =>
    cases h
    exact ⟨trivial, hs.expressions.restore _, hs.types.restore _⟩
  | expr bound => exact run_complete hs (hexpr bound) h fun _ => trivial
  | type bound => exact run_complete hs (htype bound) h fun _ => trivial
  | startForm form =>
    exact run_complete hs (hR.startForm (fun b => ⟨rfl, hexpr b⟩) form).2 h fun _ => trivial
  | continueForm form power left =>
    exact run_complete hs (hR.continueForm (fun b => ⟨rfl, hexpr b⟩) form power left).2 h fun _ => trivial
  | typeForm form =>
    exact run_complete hs (hR.typeForm (fun b => ⟨rfl, htype b⟩) (fun b => ⟨rfl, hexpr b⟩) form).2 h
      fun _ => trivial
  | stmtForm form => exact run_complete hs (Parse.readForm_safe hs form) h fun _ => trivial

theorem complete_of_start {tokens : List Token} (h : start tokens = .ok s) : s.tables.Complete := by
  unfold start at h
  cases hstream : Stream.ofTokens tokens with
  | error cause =>
    rw [hstream] at h
    cases h
  | ok stream =>
    rw [hstream] at h
    cases h
    exact Tables.standard_complete

theorem complete_after {ops : List Operation} (hs : s.tables.Complete) (h : s.after ops = some s') :
    s'.tables.Complete := by
  induction ops generalizing s with
  | nil =>
    cases h
    exact hs
  | cons op ops ih =>
    obtain ⟨⟨reply, s₁⟩, hperform, h⟩ := Option.bind_eq_some_iff.1 h
    exact ih (perform_complete hs hperform).2 h

end Session

/-! ## Source texts -/

/-- A numeral is read as a number without a sign. -/
theorem IsNumeral.exists_read? {lexeme : String} (h : IsNumeral lexeme.toList) :
    ∃ d : Decimal, Double.read? lexeme = some (.ofDecimal false d) := by
  obtain ⟨c, cs, htext, hc⟩ := h.exists_head
  have hdecimal : ∃ d, Decimal.read? lexeme.toList = some d := by
    generalize lexeme.toList = cs at h
    cases h with
    | whole hne hds => exact ⟨_, Double.decimal_read?_whole hne hds⟩
    | fraction hne hds _ hes => exact ⟨_, Double.decimal_read?_fraction hne hds hes⟩
  obtain ⟨d, hd⟩ := hdecimal
  exact ⟨d, Double.read?_of_digit htext hc hd⟩

theorem Token.WellFormed.readable {t : Token} (h : t.WellFormed) : t.Readable := by
  intro hk
  cases h with
  | number h =>
    obtain ⟨d, hd⟩ := h.exists_read?
    exact Option.isSome_of_eq_some hd
  | _ => cases hk

/-- The tokens of a source text close with an end token, and each number among them can be read. -/
theorem readable_of_tokenize {source : String} {tokens : List Token} (h : tokenize source = .ok tokens) :
    Terminated tokens ∧ ∀ t ∈ tokens, t.Readable := by
  obtain ⟨-, rfl⟩ := tokenize_eq_ok_iff.1 h
  constructor
  · simp [Terminated, Token.endOfInput]
  · have hend : Token.endOfInput.Readable := by
      intro hk
      cases hk
    rw [List.forall_mem_append, List.forall_mem_singleton]
    exact ⟨fun t ht => (Scan.wellFormed_of_mem_tokens _ t ht).readable, hend⟩

/-- A run over tokens with an end token stops with a fault that can arise over such tokens. -/
theorem arises_of_parse {tokens : List Token} {cause : Fault} (hend : Terminated tokens)
    (htokens : ∀ t ∈ tokens, T t) (h : parse tokens = .fault cause) : cause.Arises T := by
  obtain ⟨s, hs⟩ := Stream.terminated_iff.1 hend
  obtain ⟨-, hrest, -⟩ := Stream.of_ofTokens hs
  obtain ⟨s', hrun⟩ := statements_fault_of_parse hs h
  have hR := Parse.safe_congruence T
  have hstmt := hR.stmtWithin (Parse.safe_coversTables Tables.standard_complete) (.refl maxNesting)
  have hsafe : (Parse.statements maxNesting []).Safe T := (hR.loop_collect (fun _ => hstmt) []).2
  apply hsafe.arises _ hrun
  rw [Stream.All, hrest]
  exact htokens

/-- A source text is refused for what is left of it by the scan, or with a fault that can arise over
tokens whose numbers can be read. -/
theorem parseSource_fault_cases {source : String} {cause : Fault} (h : parseSource source = .fault cause) :
    tokenize source = .error cause ∨ cause.Arises Token.Readable := by
  rw [parseSource] at h
  cases htokens : tokenize source with
  | ok tokens =>
    rw [htokens] at h
    obtain ⟨hend, hreadable⟩ := readable_of_tokenize htokens
    exact .inr (arises_of_parse hend hreadable h)
  | error cause' =>
    rw [htokens] at h
    cases h
    exact .inl rfl

theorem parseSource_of_tokenize_error {source : String} {cause : Fault}
    (h : tokenize source = .error cause) : parseSource source = .fault cause := by
  rw [parseSource, h]

theorem arises_of_parseSource {source : String} {cause : Fault} (h : parseSource source = .fault cause)
    (hcause : ∀ r, cause ≠ .unrecognised r) : cause.Arises Token.Readable := by
  rcases parseSource_fault_cases h with herror | harises
  · exact absurd (tokenize_eq_error_iff.1 herror).2 (hcause _)
  · exact harises

/-- A number that can be read is not one that cannot. -/
theorem Fault.not_arises_unreadableNumber (lexeme : String) :
    ¬ (unreadableNumber lexeme).Arises Token.Readable := by
  rintro ⟨hreadable, hnone⟩
  have hsome : (Double.read? lexeme).isSome := hreadable rfl
  rw [hnone] at hsome
  cases hsome

/-- A source text stops the reading with a rest that cannot be scanned exactly if it has no tokens, and
never with a missing end token, with a number that is none or with a token that cannot continue a phrase.
No operation of any session stops with the latter either, whatever entries have been added to its tables:
in both grammars each token that binds has a form to continue with. -/
theorem fault_causes :
    (∀ source : String,
      (∀ r, parseSource source = .fault (.unrecognised r) ↔ tokenize source = .error (.unrecognised r)) ∧
      (∀ cause, tokenize source = .error cause → ∃ r, cause = .unrecognised r) ∧
      parseSource source ≠ .fault .unterminated ∧
      (∀ lexeme, parseSource source ≠ .fault (.unreadableNumber lexeme)) ∧
      ∀ phrase kind lexeme, parseSource source ≠ .fault (.cannotContinue phrase kind lexeme)) ∧
    ∀ tokens s₀ ops s, Session.start tokens = .ok s₀ → s₀.after ops = some s →
      (∀ k, .lowest < s.tables.expressions.power k → (s.tables.expressions.continues k).isSome) ∧
      (∀ k, .lowest < s.tables.types.power k → (s.tables.types.continues k).isSome) ∧
      ∀ phrase kind lexeme,
        (∀ op s', s.perform op ≠ some (.fault (.cannotContinue phrase kind lexeme), s')) ∧
        (∀ s', Parse.program s.tables s.stream ≠ .fault (.cannotContinue phrase kind lexeme) s') ∧
        ∀ s', Parse.wholeType s.tables s.stream ≠ .fault (.cannotContinue phrase kind lexeme) s' := by
  constructor
  · intro source
    refine ⟨fun r => ⟨fun h => ?_, parseSource_of_tokenize_error⟩, fun cause h => ?_, fun h => ?_,
      fun lexeme h => ?_, fun phrase kind lexeme h => ?_⟩
    · exact (parseSource_fault_cases h).resolve_right id
    · exact ⟨_, (tokenize_eq_error_iff.1 h).2⟩
    · exact arises_of_parseSource h nofun
    · exact Fault.not_arises_unreadableNumber lexeme (arises_of_parseSource h nofun)
    · exact arises_of_parseSource h nofun
  · intro tokens s₀ ops s hstart hops
    have hcomplete := Session.complete_after (Session.complete_of_start hstart) hops
    have hall : s.stream.All fun _ => True := fun _ _ => trivial
    refine ⟨hcomplete.expressions, hcomplete.types, fun phrase kind lexeme => ⟨?_, ?_, ?_⟩⟩
    · intro op s' h
      exact (Session.perform_complete hcomplete h).1
    · intro s' h
      exact (Parse.program_safe hcomplete).arises hall h
    · intro s' h
      exact (Parse.wholeType_safe hcomplete).arises hall h

/-- Where the end token has been made an operator, a name before it is continued with it; the fault is
that no operand follows. -/
theorem fault_causes_added :
    ∃ s₀ s, Session.start [⟨.identifier, "a"⟩, .endOfInput] = .ok s₀ ∧
      s₀.after [.addContinue .endOfInput .call .assign, .restoreTables] = some s ∧
      .lowest < s.tables.expressions.power .endOfInput ∧
      (s.perform (.expr .lowest)).map Prod.fst =
        some (.fault (.cannotStart .expression .endOfInput "EOF")) ∧
      ∀ s', s.perform (.expr .lowest) ≠
        some (.fault (.cannotContinue .expression .endOfInput "EOF"), s') := by
  have hstart : Session.start [⟨.identifier, "a"⟩, .endOfInput] =
      .ok ⟨⟨0, ⟨.identifier, "a"⟩, [.endOfInput], 1, 0, [], rfl⟩, .standard⟩ := rfl
  have hops : Session.after ⟨⟨0, ⟨.identifier, "a"⟩, [.endOfInput], 1, 0, [], rfl⟩, .standard⟩
      [.addContinue .endOfInput .call .assign, .restoreTables] = some _ := rfl
  have hcauses := (fault_causes.2 _ _ _ _ hstart hops).2.2
  refine ⟨_, _, hstart, hops, by decide, ?_, (hcauses _ _ _).1 _⟩
  with_unfolding_all rfl

end ScriptFront
