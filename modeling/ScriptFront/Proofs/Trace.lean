import ScriptFront.Proofs.Program.TypeRef
import ScriptFront.Proofs.Program.Nodes

/-!
# What a run reports

A run goes from one place of its tokens to another by single steps: it passes a token that is not an end
token, or it reports an event (`Stream.Steps`). Whatever each step keeps, the run keeps, be its end a value
or a fault. So the tokens that are reported as passed are the tokens that were passed, each once and in their
order (`Stream.Follows`).

`Parse.Traced E p s Q` says of the run of `p` from `s` that it goes by steps with events in `E`, and that `Q`
holds of the value and the place it comes to. What the readers report is then found by going through their
forms once.
-/

namespace ScriptFront

/-! ## Events -/

namespace Event

/-- The index and the kind of a token that was passed. -/
def advance? : Event → Option (Nat × Kind)
  | advanced index kind => some (index, kind)
  | _ => none

/-- The kind of a token for which a statement form was found. -/
def statement? : Event → Option Kind
  | statement kind => some kind
  | _ => none

/-- A phrase went on. -/
def isContinued : Event → Bool
  | continued _ _ _ => true
  | _ => false

/-- An expression went on. -/
def InPhrase : Event → Prop
  | continued .expression _ _ => True
  | _ => False

/-- An expression went on, or a statement form was found. -/
def InStatement : Event → Prop
  | statement _ => True
  | event => event.InPhrase

theorem InPhrase.inStatement {event : Event} (h : event.InPhrase) : event.InStatement := by
  cases event with
  | statement => trivial
  | _ => exact h

/-- A token was made, or all of them. -/
def InScan : Event → Prop
  | pushed _ | tokenized _ => True
  | _ => False

/-- The kinds for which a statement form was found, each with the number of tokens passed before, if so many
had been passed at first. -/
def dispatches (passed : Nat) : List Event → List (Nat × Kind)
  | [] => []
  | advanced _ _ :: events => dispatches (passed + 1) events
  | statement kind :: events => (passed, kind) :: dispatches passed events
  | _ :: events => dispatches passed events

theorem dispatches_append (passed : Nat) (events events' : List Event) :
    dispatches passed (events ++ events') =
      dispatches passed events ++ dispatches (passed + (events.filterMap advance?).length) events' := by
  induction events generalizing passed with
  | nil => rfl
  | cons event events ih =>
    cases event with
    | advanced index kind =>
      simp only [List.cons_append, dispatches, ih, List.filterMap_cons, advance?, List.length_cons]
      rw [Nat.add_right_comm, Nat.add_assoc]
    | _ => simp [dispatches, ih, List.filterMap_cons, advance?]

theorem map_snd_dispatches (passed : Nat) (events : List Event) :
    (dispatches passed events).map Prod.snd = events.filterMap statement? := by
  induction events generalizing passed with
  | nil => rfl
  | cons event events ih => cases event <;> simp [dispatches, List.filterMap_cons, statement?, ih]

end Event

namespace Stream

/-! ## Steps -/

/-- From `s` the place `s'` is reached by passing tokens and reporting events in `E`. -/
inductive Steps (E : Event → Prop) (s : Stream) : Stream → Prop where
  | refl : Steps E s s
  | advance {s' : Stream} (h : Steps E s s') (hk : s'.current.kind ≠ .endOfInput) : Steps E s s'.advance
  | record {s' : Stream} {event : Event} (h : Steps E s s') (he : E event) : Steps E s (s'.record event)

namespace Steps

variable {E E' : Event → Prop} {s s' s'' : Stream}

theorem trans (h : Steps E s s') (h' : Steps E s' s'') : Steps E s s'' := by
  induction h' with
  | refl => exact h
  | advance _ hk ih => exact ih.advance hk
  | record _ he ih => exact ih.record he

theorem mono (h : Steps E s s') (hE : ∀ event, E event → E' event) : Steps E' s s' := by
  induction h with
  | refl => exact .refl
  | advance _ hk ih => exact ih.advance hk
  | record _ he ih => exact ih.record (hE _ he)

theorem closed (h : Steps E s s') (hs : s.Closed) : s'.Closed := by
  induction h with
  | refl => exact hs
  | advance _ hk ih => exact (passes_advance ih hk).closed ih
  | record _ _ ih => exact ih

end Steps

/-! ## Measures of the events so far -/

@[simp] theorem events_advance (s : Stream) :
    s.advance.events = s.events ++ [.advanced s.index s.current.kind] := by
  simp [events]

@[simp] theorem events_record (s : Stream) (event : Event) :
    (s.record event).events = s.events ++ [event] := by
  simp [events, record]

/-- The tokens reported as passed, with their indices. -/
def advances (s : Stream) : List (Nat × Kind) := s.events.filterMap Event.advance?

/-- How often a phrase went on. -/
def continuations (s : Stream) : Nat := s.events.countP Event.isContinued

/-- The kinds for which a statement form was found, each with the number of tokens passed before. -/
def dispatches (s : Stream) : List (Nat × Kind) := Event.dispatches 0 s.events

theorem index_le_advance (s : Stream) : s.index ≤ s.advance.index := by
  unfold advance
  split
  · exact Nat.le_refl _
  · exact Nat.le_succ _

@[simp] theorem continuations_advance (s : Stream) : s.advance.continuations = s.continuations := by
  simp [continuations, Event.isContinued]

@[simp] theorem continuations_continued (s : Stream) (phrase : Phrase) (kind : Kind) (power : Power) :
    (s.record (.continued phrase kind power)).continuations = s.continuations + 1 := by
  simp [continuations, Event.isContinued]

@[simp] theorem continuations_statement (s : Stream) (kind : Kind) :
    (s.record (.statement kind)).continuations = s.continuations := by
  simp [continuations, Event.isContinued]

@[simp] theorem dispatches_advance (s : Stream) : s.advance.dispatches = s.dispatches := by
  simp [dispatches, Event.dispatches_append, Event.dispatches]

theorem dispatches_statement (s : Stream) (kind : Kind) :
    (s.record (.statement kind)).dispatches = s.dispatches ++ [(s.advances.length, kind)] := by
  simp [dispatches, Event.dispatches_append, Event.dispatches, advances]

/-- No statement form is found while a phrase is read. -/
theorem Steps.dispatches_eq {s s' : Stream} (h : Steps Event.InPhrase s s') :
    s'.dispatches = s.dispatches := by
  induction h with
  | refl => rfl
  | advance _ _ ih => rw [dispatches_advance, ih]
  | @record _ event _ he ih =>
    rw [← ih]
    cases event with
    | continued => simp [dispatches, Event.dispatches_append, Event.dispatches]
    | _ => cases he

/-- Besides the tokens passed, the events on the way are in `E`. -/
theorem Steps.forall_events {E : Event → Prop} {s s' : Stream} (h : Steps E s s') :
    ∀ event ∈ s'.events, event ∈ s.events ∨ event.advance?.isSome ∨ E event := by
  induction h with
  | refl => exact fun event h => .inl h
  | advance _ _ ih =>
    rw [events_advance, List.forall_mem_append, List.forall_mem_singleton]
    exact ⟨ih, .inr (.inl rfl)⟩
  | record _ he ih =>
    rw [events_record, List.forall_mem_append, List.forall_mem_singleton]
    exact ⟨ih, .inr (.inr he)⟩

end Stream

/-- The tokens with their indices and kinds, as they are reported when they are passed. -/
def passing (ts : List Token) : List (Nat × Kind) := ts.zipIdx.map fun place => (place.2, place.1.kind)

theorem passing_concat (ts : List Token) (t : Token) :
    passing (ts ++ [t]) = passing ts ++ [(ts.length, t.kind)] := by
  simp [passing, List.zipIdx_append]

theorem length_passing (ts : List Token) : (passing ts).length = ts.length := by
  simp [passing]

namespace Stream

variable {s s' : Stream} {tokens : List Token}

/-- The stream is a place in the tokens, and those before it have been reported as passed, each once. -/
structure Follows (s : Stream) (tokens : List Token) : Prop where
  isIn : s.IsIn tokens
  closed : s.Closed
  advances : s.advances = passing (tokens.take s.index)

namespace Follows

theorem of_ofTokens (h : ofTokens tokens = .ok s) : s.Follows tokens := by
  cases tokens with
  | nil => cases h
  | cons t ts =>
    rw [ofTokens] at h
    split at h
    · next hlast =>
      cases h
      exact ⟨rfl, hlast, rfl⟩
    · cases h

theorem index_lt (h : s.Follows tokens) : s.index < tokens.length := by
  have hget := h.isIn.getElem?
  exact (List.getElem?_eq_some_iff.1 hget).1

/-- As many tokens have been reported as lie behind. -/
theorem length_advances (h : s.Follows tokens) : s.advances.length = s.index := by
  rw [h.advances, length_passing, List.length_take, Nat.min_eq_left (Nat.le_of_lt h.index_lt)]

theorem advance (h : s.Follows tokens) (hk : s.current.kind ≠ .endOfInput) : s.advance.Follows tokens := by
  have hpass := passes_advance h.closed hk
  refine ⟨h.isIn.of_passes hpass, hpass.closed h.closed, ?_⟩
  have hindex : s.advance.index = s.index + 1 := hpass.index
  have htake : tokens.take s.advance.index = tokens.take s.index ++ [s.current] := by
    rw [hindex, List.take_add_one, h.isIn.getElem?]
    rfl
  have hlength : (tokens.take s.index).length = s.index := by
    rw [List.length_take, Nat.min_eq_left (Nat.le_of_lt h.index_lt)]
  rw [htake, passing_concat, ← h.advances, hlength]
  simp [Stream.advances, Event.advance?]

/-- Other events do not matter. -/
theorem record (h : s.Follows tokens) {event : Event} (he : event.advance? = none) :
    (s.record event).Follows tokens := by
  refine ⟨h.isIn, h.closed, ?_⟩
  have hadvances : (s.record event).advances = s.advances := by simp [Stream.advances, he]
  rw [hadvances, h.advances]
  rfl

theorem steps (h : s.Follows tokens) (hsteps : s.Steps Event.InStatement s') : s'.Follows tokens := by
  induction hsteps with
  | refl => exact h
  | advance _ hk ih => exact ih.advance hk
  | @record _ event _ he ih => exact ih.record (by cases event <;> first | rfl | cases he)

end Follows

end Stream

/-! ## Runs by steps -/

namespace Parse

variable {α β : Type} {E : Event → Prop} {s : Stream}

/-- The value of a round, whether it is the last or not. -/
def Round.value : Round α → α
  | .again a => a
  | .over a => a

/-- The run of `p` from `s` goes by steps, and `Q` holds of what it comes to. -/
structure Traced (E : Event → Prop) (p : Parse α) (s : Stream) (Q : α → Stream → Prop) : Prop where
  done : ∀ {a s'}, p s = .done a s' → s.Steps E s' ∧ Q a s'
  fault : ∀ {cause s'}, p s = .fault cause s' → s.Steps E s'

namespace Traced

variable {p : Parse α} {f : α → Parse β} {P Q : α → Stream → Prop} {R : β → Stream → Prop}

theorem pure {a : α} (h : Q a s) : Traced E (Pure.pure a) s Q where
  done heq := by
    obtain ⟨rfl, rfl⟩ := pure_eq_done.1 heq
    exact ⟨.refl, h⟩
  fault heq := nomatch heq

theorem fail {cause : Fault} : Traced E (fail cause) s Q where
  done heq := nomatch heq
  fault heq := by
    cases heq
    exact .refl

theorem never : Traced E never s Q where
  done heq := nomatch heq
  fault heq := nomatch heq

/-- What else is known of the values of the run. -/
theorem imp (h : Traced E p s P) (himp : ∀ {a s'}, p s = .done a s' → s.Steps E s' → P a s' → Q a s') :
    Traced E p s Q where
  done heq := ⟨(h.done heq).1, himp heq (h.done heq).1 (h.done heq).2⟩
  fault heq := h.fault heq

theorem mono {E' : Event → Prop} (h : Traced E p s Q) (hE : ∀ event, E event → E' event) :
    Traced E' p s Q where
  done heq := ⟨(h.done heq).1.mono hE, (h.done heq).2⟩
  fault heq := (h.fault heq).mono hE

theorem bind (hs : s.Closed) (h : Traced E p s P)
    (h' : ∀ {a s₁}, s₁.Closed → P a s₁ → Traced E (f a) s₁ R) : Traced E (p >>= f) s R where
  done heq := by
    obtain ⟨a, s₁, hp, hf⟩ := bind_eq_done.1 heq
    obtain ⟨hsteps, hP⟩ := h.done hp
    obtain ⟨hsteps', hR⟩ := (h' (hsteps.closed hs) hP).done hf
    exact ⟨hsteps.trans hsteps', hR⟩
  fault heq := by
    obtain hp | ⟨a, s₁, hp, hf⟩ := bind_eq_fault.1 heq
    · exact h.fault hp
    · obtain ⟨hsteps, hP⟩ := h.done hp
      exact hsteps.trans ((h' (hsteps.closed hs) hP).fault hf)

theorem of_eq {q : Parse α} (heq : p s = q s) (h : Traced E q s Q) : Traced E p s Q where
  done hp := h.done (heq.symm.trans hp)
  fault hp := h.fault (heq.symm.trans hp)

theorem current_bind {f : Token → Parse β} (h : Traced E (f s.current) s R) :
    Traced E (current >>= f) s R := ⟨h.done, h.fault⟩

theorem kind_bind {f : Kind → Parse β} (h : Traced E (f s.current.kind) s R) :
    Traced E (kind >>= f) s R := ⟨h.done, h.fault⟩

theorem advance (hk : s.current.kind ≠ .endOfInput) :
    Traced E advance s fun t s' => t = s.current ∧ s' = s.advance where
  done heq := by
    cases heq
    exact ⟨.advance .refl hk, rfl, rfl⟩
  fault heq := nomatch heq

theorem record_bind {event : Event} {f : Unit → Parse β} (he : E event)
    (h : Traced E (f ()) (s.record event) R) : Traced E (record event >>= f) s R where
  done heq := by
    obtain ⟨hsteps, hR⟩ := h.done heq
    exact ⟨(Stream.Steps.record .refl he).trans hsteps, hR⟩
  fault heq := (Stream.Steps.record .refl he).trans (h.fault heq)

theorem expectOr {k : Kind} {cause : Token → Fault} (hk : k ≠ .endOfInput) :
    Traced E (expectOr k cause) s fun _ s' => s.current.kind = k ∧ s' = s.advance where
  done heq := by
    obtain ⟨hkind, -, rfl⟩ := expectOr_eq_done.1 heq
    exact ⟨.advance .refl (hkind ▸ hk), hkind, rfl⟩
  fault heq := by
    unfold Parse.expectOr at heq
    split at heq
    · cases heq
    · cases heq
      exact .refl

theorem ite {c : Prop} [Decidable c] {q : Parse α} (h : c → Traced E p s Q) (h' : ¬ c → Traced E q s Q) :
    Traced E (if c then p else q) s Q := by
  split
  · next hc => exact h hc
  · next hc => exact h' hc

/-- What every round keeps holds of what the loop comes to. -/
theorem loop {round : α → Parse (Round α)}
    (h : ∀ a s, s.Closed → Q a s → Traced E (round a) s fun r s' => Q r.value s')
    {a : α} (hs : s.Closed) (hQ : Q a s) : Traced E (loop round a) s Q := by
  generalize hn : s.remaining = n
  induction n using Nat.strongRecOn generalizing a s with
  | ind n ih =>
    constructor
    · intro b s' heq
      obtain hr | ⟨b', s₁, hr, hlt, heq⟩ := loop_eq_done.1 heq
      · exact (h a s hs hQ).done hr
      · obtain ⟨hsteps, hQ'⟩ := (h a s hs hQ).done hr
        obtain ⟨hsteps', hR⟩ := (ih _ (hn ▸ hlt) (hsteps.closed hs) hQ' rfl).done heq
        exact ⟨hsteps.trans hsteps', hR⟩
    · intro cause s' heq
      obtain hr | ⟨b', s₁, hr, hlt, heq⟩ := loop_eq_fault.1 heq
      · exact (h a s hs hQ).fault hr
      · obtain ⟨hsteps, hQ'⟩ := (h a s hs hQ).done hr
        exact hsteps.trans ((ih _ (hn ▸ hlt) (hsteps.closed hs) hQ' rfl).fault heq)

end Traced

/-- What every item of a sequence keeps holds of what the loop over the sequence comes to. -/
theorem loop_collect_traced {stop : Kind → Prop} [DecidablePred stop] {item : List α → Parse α}
    {Q : List α → Stream → Prop}
    (h : ∀ items s, s.Closed → Q items s → Traced E (item items) s fun a s' => Q (a :: items) s')
    {items : List α} (hs : s.Closed) (hQ : Q items s) : Traced E (loop (collect stop item) items) s Q := by
  refine .loop (fun items s hs hQ => ?_) hs hQ
  refine .kind_bind (.ite (fun _ => .pure hQ) fun _ => ?_)
  exact .bind hs (h items s hs hQ) fun _ hQ => .pure hQ

theorem untilBrace_traced {item : List α → Parse α} {Q : List α → Stream → Prop}
    (h : ∀ items s, s.Closed → Q items s → Traced E (item items) s fun a s' => Q (a :: items) s')
    (hs : s.Closed) (hQ : Q [] s) :
    Traced E (untilBrace item) s fun items s' => ∃ s₁, Q items.reverse s₁ ∧ s' = s₁.advance := by
  rw [untilBrace_eq]
  refine .bind hs (loop_collect_traced h hs hQ) fun hs₁ hQ => .bind hs₁ (.expectOr (by simp)) ?_
  rintro _ _ - ⟨-, rfl⟩
  exact .pure ⟨_, by simpa using hQ, rfl⟩

end Parse

/-! ## Expressions and types -/

namespace Expr

/-- The nodes that are made when a phrase goes on. -/
def isContinuation : Expr → Bool
  | binary _ _ _ | assign _ _ _ | construct _ _ => true
  | _ => false

/-- How many such nodes there are in an expression. -/
def continuations (e : Expr) : Nat := e.nodes.countP isContinuation

/-- How many such nodes there are in the expressions. -/
def continuationsAll (es : List Expr) : Nat := (nodesAll es).countP isContinuation

variable {op : Token} {a b : Expr}

@[simp] theorem continuations_unary : (unary op a).continuations = a.continuations := by
  simp [continuations, nodes, isContinuation]

@[simp] theorem continuations_binary :
    (binary op a b).continuations = a.continuations + b.continuations + 1 := by
  simp [continuations, nodes, List.countP_cons, isContinuation]

@[simp] theorem continuations_assign :
    (assign op a b).continuations = a.continuations + b.continuations + 1 := by
  simp [continuations, nodes, List.countP_cons, isContinuation]

@[simp] theorem continuations_construct {name : String} {es : List Expr} :
    (construct name es).continuations = continuationsAll es + 1 := by
  simp [continuations, continuationsAll, nodes, List.countP_cons, isContinuation]

@[simp] theorem continuations_group {es : List Expr} :
    (group es).continuations = continuationsAll es := by
  simp [continuations, continuationsAll, nodes, isContinuation]

@[simp] theorem continuations_symbol {name : String} : (symbol name).continuations = 0 := rfl

@[simp] theorem continuationsAll_cons {es : List Expr} :
    continuationsAll (a :: es) = a.continuations + continuationsAll es := by
  simp [continuations, continuationsAll, nodesAll]

theorem continuationsAll_append (es es' : List Expr) :
    continuationsAll (es ++ es') = continuationsAll es + continuationsAll es' := by
  induction es with
  | nil => simp [continuationsAll, nodesAll]
  | cons e es ih => simp [ih, Nat.add_assoc]

@[simp] theorem continuationsAll_reverse (es : List Expr) :
    continuationsAll es.reverse = continuationsAll es := by
  induction es with
  | nil => rfl
  | cons e es ih =>
    rw [List.reverse_cons, continuationsAll_append, ih, continuationsAll_cons, continuationsAll_cons]
    simp [continuationsAll, nodesAll, Nat.add_comm]

/-- A token that is an expression by itself does not make one go on. -/
theorem continuations_of_toExpr {t : Token} {e : Expr} (h : t.toExpr = .ok e) : e.continuations = 0 := by
  unfold Token.toExpr at h
  split at h
  · split at h
    · cases h
      rfl
    · cases h
  · cases h
    rfl
  · cases h
    rfl
  · cases h

/-- Neither does the size of a group. -/
theorem continuations_of_statedSize {e : Expr} {size : UInt64} (h : e.statedSize = .ok size) :
    e.continuations = 0 := by
  obtain ⟨v, n, hv, -⟩ := statedSize_eq_ok_iff.1 h
  cases hv <;> rfl

end Expr

namespace Parse

/-- The reader of expressions reports each node with which a phrase goes on. -/
def Counts (expr : Power → Parse Expr) : Prop :=
  ∀ b s, s.Closed → Traced Event.InPhrase (expr b) s fun e s' =>
    s'.continuations = s.continuations + e.continuations

section

variable {expr : Power → Parse Expr} {s : Stream}

theorem exprList_traced (h : Counts expr) (closing : Mark) (hs : s.Closed) :
    Traced Event.InPhrase (exprList expr closing) s fun es s' =>
      s'.continuations = s.continuations + Expr.continuationsAll es := by
  have hround : ∀ items s₁, s₁.Closed →
      s₁.continuations = s.continuations + Expr.continuationsAll items →
        Traced Event.InPhrase (exprItem expr closing items) s₁ fun r s' =>
          s'.continuations = s.continuations + Expr.continuationsAll r.value := by
    intro items s₁ hs₁ hitems
    refine .kind_bind (.ite (fun _ => .pure hitems) fun _ => .bind hs₁ (h .comma s₁ hs₁) ?_)
    intro item s₂ hs₂ hitem
    have hmore : s₂.continuations = s.continuations + Expr.continuationsAll (item :: items) := by
      rw [Expr.continuationsAll_cons]
      omega
    refine .kind_bind (.ite (fun hcomma => ?_) fun _ => .pure hmore)
    refine .bind hs₂ (.advance (by simp [hcomma])) ?_
    rintro _ _ - ⟨-, rfl⟩
    exact .pure ((Stream.continuations_advance s₂).trans hmore)
  refine .bind hs (.loop hround hs rfl) fun hs₁ hitems => .bind hs₁ (.expectOr (by simp)) ?_
  rintro _ _ - ⟨-, rfl⟩
  exact .pure (by simpa using hitems)

theorem startForm_traced (h : Counts expr) (hs : s.Closed) {form : StartForm}
    (hform : ExprGrammar.opening s.current.kind = some form) :
    Traced Event.InPhrase (startForm expr form) s fun e s' =>
      s'.continuations = s.continuations + e.continuations := by
  have hk : s.current.kind ≠ .endOfInput := by
    intro hk
    simp [ExprGrammar.opening, hk] at hform
  cases form with
  | literal =>
    refine .bind hs (.advance hk) ?_
    rintro t _ - ⟨-, rfl⟩
    cases he : t.toExpr with
    | ok e => exact .pure (by simp [Expr.continuations_of_toExpr he])
    | error cause => exact .fail
  | unary =>
    refine .bind hs (.advance hk) ?_
    rintro operator _ hs₁ ⟨-, rfl⟩
    refine .bind hs₁ (h .unary _ hs₁) fun _ he => ?_
    exact .pure (by simpa using he)
  | parenthesised =>
    refine .bind hs (.advance hk) ?_
    rintro _ _ hs₁ ⟨-, rfl⟩
    refine .bind hs₁ (h .lowest _ hs₁) fun hs₂ he => .bind hs₂ (.expectOr (by simp)) ?_
    rintro _ _ - ⟨-, rfl⟩
    exact .pure (by simpa using he)
  | group =>
    refine .bind hs (.expectOr (by simp)) ?_
    rintro _ _ hs₁ ⟨-, rfl⟩
    refine .bind hs₁ (exprList_traced h .closeBracket hs₁) fun _ hes => ?_
    exact .pure (by simpa using hes)

/-- A form that continues a phrase, once that has been reported. -/
theorem continueForm_traced (h : Counts expr) (hs : s.Closed) (hk : s.current.kind ≠ .endOfInput)
    (form : ContinueForm) (power : Power) (left : Expr) :
    Traced Event.InPhrase (continueForm expr form power left) s fun e s' =>
      s'.continuations + left.continuations + 1 = s.continuations + e.continuations := by
  cases form with
  | binary | member =>
    refine .bind hs (.advance hk) ?_
    rintro operator _ hs₁ ⟨-, rfl⟩
    refine .bind hs₁ (h power _ hs₁) fun _ he => .pure ?_
    rw [Stream.continuations_advance] at he
    rw [Expr.continuations_binary]
    omega
  | assign =>
    refine .bind hs (.advance hk) ?_
    rintro operator _ hs₁ ⟨-, rfl⟩
    refine .bind hs₁ (h .comma _ hs₁) fun _ he => .pure ?_
    rw [Stream.continuations_advance] at he
    rw [Expr.continuations_assign]
    omega
  | construct =>
    cases left with
    | symbol name =>
      refine .bind hs (.expectOr (by simp)) ?_
      rintro _ _ hs₁ ⟨-, rfl⟩
      refine .bind hs₁ (exprList_traced h .closeParen hs₁) fun _ hes => .pure ?_
      rw [Stream.continuations_advance] at hes
      rw [Expr.continuations_construct, Expr.continuations_symbol]
      omega
    | _ => exact .fail

end

/-- An expression is reported by the nodes with which it goes on, each once. -/
theorem exprWithin_traced (n : Nat) : Counts (exprWithin ExprGrammar.standard n) := by
  induction n with
  | zero => exact fun b s hs => .fail
  | succ n ih =>
    intro b s hs
    have hoperand : Traced Event.InPhrase
        (operand .expression ExprGrammar.standard (startForm (exprWithin .standard n))) s fun e s' =>
          s'.continuations = s.continuations + e.continuations := by
      refine .current_bind ?_
      cases hform : ExprGrammar.standard.starts s.current.kind with
      | none => exact .fail
      | some form => exact startForm_traced ih hs hform
    refine .bind hs hoperand fun hs₁ hleft => .loop (fun left s₂ hs₂ hleft => ?_) hs₁ hleft
    refine .current_bind (.ite (fun _ => .pure hleft) fun _ => ?_)
    cases hform : ExprGrammar.standard.continues s₂.current.kind with
    | none => exact .fail
    | some form =>
      have hk : s₂.current.kind ≠ .endOfInput := by
        intro hk
        rw [hk] at hform
        cases hform
      refine .record_bind trivial ?_
      refine .bind hs₂ (continueForm_traced ih (s := s₂.record _) hs₂ hk form _ left) fun _ he => .pure ?_
      rw [Stream.continuations_continued] at he
      rw [Round.value]
      omega

/-- In what is read of a group, only the size can report that it goes on. -/
theorem groupParts_traced (n : Nat)
    (htype : ∀ b {s : Stream}, s.Closed → Traced Event.InPhrase (typeWithin .standard n b) s
      fun _ s' => s'.continuations = s.continuations) {s : Stream} (hs : s.Closed) :
    Traced Event.InPhrase (groupParts (typeWithin .standard n) (exprWithin .standard n)) s
      fun parts s' => s'.continuations = s.continuations + parts.2.continuations := by
  refine .bind hs (.expectOr (by simp)) ?_
  rintro _ _ hs₁ ⟨-, rfl⟩
  refine .bind hs₁ (.expectOr (by simp)) ?_
  rintro _ _ hs₂ ⟨-, rfl⟩
  refine .bind hs₂ (htype .lowest hs₂) fun hs₃ helement => .bind hs₃ (.expectOr (by simp)) ?_
  rintro _ _ hs₄ ⟨-, rfl⟩
  refine .bind hs₄ (exprWithin_traced n .relational _ hs₄) fun hs₅ he => ?_
  refine .bind hs₅ (.expectOr (by simp)) ?_
  rintro _ _ - ⟨-, rfl⟩
  exact .pure (by simpa [helement] using he)

/-- A type is read without a report, for its size goes on with nothing. -/
theorem typeWithin_traced (n : Nat) (b : Power) {s : Stream} (hs : s.Closed) :
    Traced Event.InPhrase (typeWithin .standard n b) s fun _ s' => s'.continuations = s.continuations := by
  induction n generalizing b s with
  | zero => exact .fail
  | succ n ih =>
    refine .of_eq (typeWithin_succ n b s) (.current_bind ?_)
    cases hform : TypeGrammar.standard.starts s.current.kind with
    | none => exact .fail
    | some form =>
      cases form with
      | named =>
        refine .bind hs (.expectOr (by simp)) ?_
        rintro _ _ - ⟨-, rfl⟩
        exact .pure (by simp)
      | group =>
        refine .bind hs (groupParts_traced n ih hs) fun {parts _} _ he => ?_
        cases hsize : parts.2.statedSize with
        | ok size =>
          rw [Expr.continuations_of_statedSize hsize] at he
          exact .pure he
        | error cause => exact .fail

end Parse

end ScriptFront
