import ScriptFront.Proofs.Token.Image
import ScriptFront.Proofs.Token.Stuck
import ScriptFront.Proofs.Trace

/-!
# What is reported of a program

The events of a run that reads a program account for all that it passes and makes (`Accounts`): for every
token, passed once and in its turn; for every node with which a phrase goes on; for every statement that has a
form of its own, where its first token stands; and at last for the statements of the program.

A statement is reported before anything in it and after all that stands before it, so the places of
statements, in the order of their reports, increase (`Placed`). Where the run fails, the tokens up to the one at
which it stops have been passed and nothing tells of a program (`parseRun_events`).
-/

namespace ScriptFront

/-! ## Statements and their places -/

namespace Stmt

/-- The kind of the token that opens a statement in a form of its own. -/
def opening? : Stmt → Option Kind
  | block _ => some (.mark .openCurly)
  | declaration _ constant _ => some (.word (if constant then .const else .var))
  | object _ _ => some (.word .obj)
  | expression _ => none

/-- How many nodes with which a phrase goes on there are in the statements. -/
def continuationsAll (body : List Stmt) : Nat :=
  ((nodesAll body).flatMap fun stmt => Expr.nodesAll stmt.values).countP Expr.isContinuation

theorem nodesAll_append (body body' : List Stmt) :
    nodesAll (body ++ body') = nodesAll body ++ nodesAll body' := by
  induction body with
  | nil => rfl
  | cons stmt body ih => rw [List.cons_append, nodesAll, ih, nodesAll, List.append_assoc]

@[simp] theorem nodesAll_singleton (stmt : Stmt) : nodesAll [stmt] = stmt.nodes := by
  simp [nodesAll]

theorem continuationsAll_append (body body' : List Stmt) :
    continuationsAll (body ++ body') = continuationsAll body + continuationsAll body' := by
  simp [continuationsAll, nodesAll_append]

theorem continuationsAll_block (body : List Stmt) : continuationsAll [block body] = continuationsAll body := by
  simp [continuationsAll, nodes, values, Expr.nodesAll]

theorem continuationsAll_of_nodes {stmt : Stmt} (h : stmt.nodes = [stmt]) :
    continuationsAll [stmt] = Expr.continuationsAll stmt.values := by
  simp [continuationsAll, h, Expr.continuationsAll]

end Stmt

/-- The form of a statement is found by the kind of its first token. -/
theorem DerivesStmt.opening?_eq {n : Nat} {t : Token} {ts : List Token} {stmt : Stmt}
    (h : DerivesStmt n (t :: ts) stmt) :
    stmt.opening? = if (Tables.standardStatements t.kind).isSome then some t.kind else none := by
  generalize hts : t :: ts = us at h
  cases h with
  | block ho =>
    cases hts
    rw [ho]
    rfl
  | @declaration _ _ _ _ _ _ constant _ ho =>
    cases hts
    rw [ho]
    cases constant <;> rfl
  | object ho =>
    cases hts
    rw [ho]
    rfl
  | expression h =>
    obtain ⟨u, us, rfl, hu⟩ := h.exists_head
    cases hts
    rw [Tables.standardStatements_of_opening hu]
    rfl

/-- From the place on the tokens write the statement. -/
def WrittenAt (tokens : List Token) (place : Nat × Stmt) : Prop :=
  ∃ n ts, ts <+: tokens.drop place.1 ∧ DerivesStmt n ts place.2

/-- The statements are written from these places on, one place after the other between two indices. -/
structure Placed (tokens : List Token) (first last : Nat) (places : List (Nat × Stmt)) : Prop where
  written : ∀ place ∈ places, WrittenAt tokens place
  ordered : places.Pairwise fun place place' => place.1 < place'.1
  within : ∀ place ∈ places, first ≤ place.1 ∧ place.1 < last
  le : first ≤ last

namespace Placed

variable {tokens : List Token} {i j k : Nat} {places places' : List (Nat × Stmt)}

theorem nil (h : i ≤ j) : Placed tokens i j [] := ⟨nofun, .nil, nofun, h⟩

theorem append (h : Placed tokens i j places) (h' : Placed tokens j k places') :
    Placed tokens i k (places ++ places') where
  written := List.forall_mem_append.2 ⟨h.written, h'.written⟩
  ordered := by
    refine List.pairwise_append.2 ⟨h.ordered, h'.ordered, fun place hplace place' hplace' => ?_⟩
    exact Nat.lt_of_lt_of_le (h.within place hplace).2 (h'.within place' hplace').1
  within := by
    have hle := h.le
    have hle' := h'.le
    refine List.forall_mem_append.2 ⟨fun place hplace => ?_, fun place hplace => ?_⟩
    · have := h.within place hplace
      omega
    · have := h'.within place hplace
      omega
  le := Nat.le_trans h.le h'.le

theorem cons {stmt : Stmt} (hstmt : WrittenAt tokens (i, stmt)) (h : Placed tokens (i + 1) j places) :
    Placed tokens i j ((i, stmt) :: places) := by
  have hhead : Placed tokens i (i + 1) [(i, stmt)] :=
    ⟨List.forall_mem_singleton.2 hstmt, List.pairwise_singleton _ _, by simp, Nat.le_succ i⟩
  exact hhead.append h

theorem mono (h : Placed tokens i j places) (hk : j ≤ k) : Placed tokens i k places where
  written := h.written
  ordered := h.ordered
  within place hplace := ⟨(h.within place hplace).1, Nat.lt_of_lt_of_le (h.within place hplace).2 hk⟩
  le := Nat.le_trans h.le hk

end Placed

/-! ## Reading statements -/

/-- The report that the form of a statement was found at its place, if it has a form of its own. -/
def dispatch? (place : Nat × Stmt) : Option (Nat × Kind) := place.2.opening?.map fun kind => (place.1, kind)

theorem map_snd_dispatch? (places : List (Nat × Stmt)) :
    (places.filterMap dispatch?).map Prod.snd = (places.map Prod.snd).filterMap Stmt.opening? := by
  rw [List.map_filterMap, List.filterMap_map]
  congr 1
  funext place
  simp [dispatch?, Function.comp_def]

/-- From `s` to `s'` the statements and all in them are reported, where they are written. -/
structure Reported (tokens : List Token) (s : Stream) (body : List Stmt) (s' : Stream) : Prop where
  continuations : s'.continuations = s.continuations + Stmt.continuationsAll body
  placed : ∃ places, places.map Prod.snd = Stmt.nodesAll body ∧
    s'.dispatches = s.dispatches ++ places.filterMap dispatch? ∧ Placed tokens s.index s'.index places

namespace Reported

variable {tokens : List Token} {s s' s'' : Stream} {body body' : List Stmt}

theorem nil (s : Stream) : Reported tokens s [] s :=
  ⟨rfl, [], rfl, (List.append_nil _).symm, .nil (Nat.le_refl _)⟩

theorem append (h : Reported tokens s body s') (h' : Reported tokens s' body' s'') :
    Reported tokens s (body ++ body') s'' := by
  obtain ⟨hcount, places, hnodes, hdispatches, hplaced⟩ := h
  obtain ⟨hcount', places', hnodes', hdispatches', hplaced'⟩ := h'
  refine ⟨?_, places ++ places', ?_, ?_, hplaced.append hplaced'⟩
  · rw [Stmt.continuationsAll_append]
    omega
  · rw [List.map_append, hnodes, hnodes', Stmt.nodesAll_append]
  · rw [List.filterMap_append, hdispatches', hdispatches, List.append_assoc]

end Reported

/-- What is reported of the form of the statement at a place, before the statement is read. -/
def Stream.ownForm (s : Stream) : List (Nat × Kind) :=
  if (Tables.standardStatements s.current.kind).isSome then [(s.index, s.current.kind)] else []

/-- From `s` to `s'` the statement is reported and all in it, if it is written there. -/
structure Opened (tokens : List Token) (s : Stream) (stmt : Stmt) (s' : Stream) : Prop where
  continuations : s'.continuations = s.continuations + Stmt.continuationsAll [stmt]
  placed : s.index < s'.index → ∃ inner, stmt.nodes = stmt :: inner.map Prod.snd ∧
    s'.dispatches = s.dispatches ++ (s.ownForm ++ inner.filterMap dispatch?) ∧
    Placed tokens (s.index + 1) s'.index inner

theorem Opened.reported {tokens ts : List Token} {n : Nat} {s s' : Stream} {stmt : Stmt}
    (h : Opened tokens s stmt s') (hs : s.IsIn tokens) (hpass : s.Passes ts s')
    (hstmt : DerivesStmt n ts stmt) : Reported tokens s [stmt] s' := by
  obtain ⟨t, us, rfl, -⟩ := hstmt.exists_head
  have hlt : s.index < s'.index := by
    rw [hpass.index, List.length_cons]
    omega
  have hwritten : WrittenAt tokens (s.index, stmt) :=
    ⟨n, t :: us, by rw [← hs, hpass.rest]; exact List.prefix_append _ _, hstmt⟩
  have hown : s.ownForm = (dispatch? (s.index, stmt)).toList := by
    have ht : s.current = t := Stream.current_of_rest hpass.rest
    rw [dispatch?, hstmt.opening?_eq, Stream.ownForm, ht]
    split <;> rfl
  obtain ⟨inner, hnodes, hdispatches, hinner⟩ := h.placed hlt
  refine ⟨h.continuations, (s.index, stmt) :: inner, ?_, ?_, .cons hwritten hinner⟩
  · rw [List.map_cons, ← hnodes, Stmt.nodesAll_singleton]
  · rw [hdispatches, hown, List.filterMap_cons]
    cases dispatch? (s.index, stmt) <;> rfl

/-- A block is reported before the statements in it, and these begin behind its brace. -/
theorem Reported.opened {tokens : List Token} {s s' : Stream} {body : List Stmt} {event : Event}
    (h : Reported tokens (s.record event).advance body s') (hs : s.Closed)
    (hk : s.current.kind ≠ .endOfInput) (hcount : (s.record event).continuations = s.continuations)
    (hown : (s.record event).dispatches = s.dispatches ++ s.ownForm) :
    Opened tokens s (.block body) s'.advance := by
  have hindex : (s.record event).advance.index = s.index + 1 :=
    (Stream.passes_advance (s := s.record event) hs hk).index
  obtain ⟨hbody, places, hnodes, hdispatches, hplaced⟩ := h
  rw [hindex] at hplaced
  refine ⟨?_, fun _ => ⟨places, ?_, ?_, hplaced.mono (Stream.index_le_advance s')⟩⟩
  · rw [Stmt.continuationsAll_block, Stream.continuations_advance, hbody, Stream.continuations_advance, hcount]
  · rw [hnodes, Stmt.nodes]
  · rw [Stream.dispatches_advance, hdispatches, Stream.dispatches_advance, hown, List.append_assoc]

namespace Parse

variable {tokens : List Token} {n : Nat} {s : Stream}

/-- The statement has no others in it, and what its value goes on with is reported. -/
structure Alone (s : Stream) (stmt : Stmt) (s' : Stream) : Prop where
  nodes : stmt.nodes = [stmt]
  continuations : s'.continuations = s.continuations + Expr.continuationsAll stmt.values

theorem Alone.opened {stmt : Stmt} {s' : Stream} (h : Alone s stmt s')
    (hdispatches : s'.dispatches = s.dispatches ++ s.ownForm) : Opened tokens s stmt s' where
  continuations := by rw [Stmt.continuationsAll_of_nodes h.nodes, h.continuations]
  placed hlt := ⟨[], h.nodes, by simpa using hdispatches, .nil hlt⟩

theorem declaredType_traced (hs : s.Closed) :
    Traced Event.InPhrase (declaredType (typeWithin .standard n)) s fun _ s' =>
      s'.continuations = s.continuations := by
  refine .kind_bind (.ite (fun hcolon => ?_) fun _ => .pure rfl)
  refine .bind hs (.advance (by simp [hcolon])) ?_
  rintro _ _ hs₁ ⟨-, rfl⟩
  refine .bind hs₁ (typeWithin_traced n .lowest hs₁) fun _ htype => .pure ?_
  rw [htype, Stream.continuations_advance]

theorem declaredValue_traced (hs : s.Closed) :
    Traced Event.InPhrase (declaredValue (exprWithin .standard n)) s fun value? s' =>
      s'.continuations = s.continuations + Expr.continuationsAll value?.toList := by
  refine .kind_bind (.ite (fun _ => .pure rfl) fun _ => .bind hs (.expectOr (by simp)) ?_)
  rintro _ _ hs₁ ⟨-, rfl⟩
  refine .bind hs₁ (exprWithin_traced n .assignment _ hs₁) fun _ hvalue => .pure ?_
  rw [hvalue, Stream.continuations_advance, Option.toList_some, Expr.continuationsAll_cons]
  rfl

theorem declaration_traced (hs : s.Closed) (hk : s.current.kind ≠ .endOfInput) :
    Traced Event.InPhrase (declaration (typeWithin .standard n) (exprWithin .standard n)) s (Alone s) := by
  refine .bind hs (.advance hk) ?_
  rintro opening _ hs₁ ⟨-, rfl⟩
  refine .bind hs₁ (.expectOr (by simp)) ?_
  rintro name _ hs₂ ⟨-, rfl⟩
  refine .bind hs₂ (declaredType_traced hs₂) fun hs₃ htype => ?_
  refine .bind hs₃ (declaredValue_traced hs₃) fun hs₄ hvalue => .bind hs₄ (.expectOr (by simp)) ?_
  rintro _ _ - ⟨-, rfl⟩
  split
  · next binding hparts =>
    obtain ⟨-, hvalues, -⟩ := Binding.ofParts_eq_ok_iff.1 hparts
    refine .pure ⟨rfl, ?_⟩
    rw [Stream.continuations_advance, hvalue, htype, Stream.continuations_advance,
      Stream.continuations_advance, hvalues]
    rfl
  · exact .fail

theorem property_traced (object : String) (before : List Property) (hs : s.Closed) :
    Traced Event.InPhrase (property (typeWithin .standard n) object before) s fun _ s' =>
      s'.continuations = s.continuations := by
  refine .bind hs (.expectOr (by simp)) ?_
  rintro name _ hs₁ ⟨-, rfl⟩
  refine .bind hs₁ (.expectOr (by simp)) ?_
  rintro _ _ hs₂ ⟨-, rfl⟩
  refine .bind hs₂ (typeWithin_traced n .lowest hs₂) fun hs₃ htype => .bind hs₃ (.expectOr (by simp)) ?_
  rintro _ _ - ⟨-, rfl⟩
  refine .ite (fun _ => .fail) fun _ => .pure ?_
  rw [Stream.continuations_advance, htype, Stream.continuations_advance, Stream.continuations_advance]

theorem objectType_traced (hs : s.Closed) :
    Traced Event.InPhrase (objectType (typeWithin .standard n)) s (Alone s) := by
  refine .bind hs (.expectOr (by simp)) ?_
  rintro _ _ hs₁ ⟨-, rfl⟩
  refine .bind hs₁ (.expectOr (by simp)) ?_
  rintro name _ hs₂ ⟨-, rfl⟩
  refine .bind hs₂ (.expectOr (by simp)) ?_
  rintro _ _ hs₃ ⟨-, rfl⟩
  have hproperty : ∀ before s₁, s₁.Closed → s₁.continuations = s.continuations →
      Traced Event.InPhrase (property (typeWithin .standard n) name.lexeme before) s₁ fun _ s' =>
        s'.continuations = s.continuations :=
    fun before s₁ hs₁ hcount => (property_traced _ before hs₁).imp fun _ _ hq => hq.trans hcount
  refine .bind hs₃ (untilBrace_traced hproperty hs₃ (by simp)) ?_
  rintro properties _ - ⟨s₁, hcount, rfl⟩
  exact .pure ⟨rfl, (Stream.continuations_advance s₁).trans hcount⟩

theorem expressionStmt_traced (hs : s.Closed) :
    Traced Event.InPhrase (expressionStmt (exprWithin .standard n)) s (Alone s) := by
  refine .bind hs (exprWithin_traced n .lowest s hs) fun hs₁ he => .bind hs₁ (.expectOr (by simp)) ?_
  rintro _ _ - ⟨-, rfl⟩
  refine .pure ⟨rfl, ?_⟩
  rw [Stream.continuations_advance, he, Stmt.values, Expr.continuationsAll_cons]
  rfl

/-- The parser reads statements and reports them. -/
def Reports (tokens : List Token) (stmt : Parse Stmt) : Prop :=
  ∀ s, s.Follows tokens → Traced Event.InStatement stmt s fun stmt s' => Reported tokens s [stmt] s'

/-- Statements after each other are reported in this order. -/
theorem item_traced {stmt : Parse Stmt} (h : Reports tokens stmt) (items : List Stmt) {s₁ : Stream}
    (hs₁ : s₁.Follows tokens ∧ Reported tokens s items.reverse s₁) :
    Traced Event.InStatement stmt s₁ fun stmt s' =>
      s'.Follows tokens ∧ Reported tokens s (stmt :: items).reverse s' := by
  obtain ⟨hfollows, hitems⟩ := hs₁
  refine (h s₁ hfollows).imp fun _ hsteps hstmt => ⟨hfollows.steps hsteps, ?_⟩
  rw [List.reverse_cons]
  exact hitems.append hstmt

theorem block_traced {stmt : Parse Stmt} (h : Reports tokens stmt) (hs : s.Follows tokens) :
    Traced Event.InStatement (block stmt) s fun stmt s' =>
      ∃ body s₁, stmt = .block body ∧ Reported tokens s.advance body s₁ ∧ s' = s₁.advance := by
  refine .bind hs.closed (.expectOr (by simp)) ?_
  rintro _ _ hs₁ ⟨hk, rfl⟩
  have hfollows : s.advance.Follows tokens := hs.advance (by rw [hk]; simp)
  refine .bind hs₁ (untilBrace_traced (fun items s₁ _ hQ => item_traced h items hQ) hs₁
    ⟨hfollows, .nil _⟩) ?_
  rintro body _ - ⟨s₁, ⟨-, hbody⟩, rfl⟩
  rw [List.reverse_reverse] at hbody
  exact .pure ⟨body, s₁, rfl, hbody, rfl⟩

/-- Of the statements only blocks lead back to statements. -/
theorem stmtWithin_traced_of_block
    (hblock : ∀ s, s.Follows tokens → Traced Event.InStatement (blockWithin .standard n) s fun stmt s' =>
      ∃ body s₁, stmt = .block body ∧ Reported tokens s.advance body s₁ ∧ s' = s₁.advance) :
    Reports tokens (stmtWithin .standard n) := by
  intro s hs
  -- What is reported depends on the kind of the first token; which statement it is, the grammar tells later.
  have hopened : Traced Event.InStatement (stmtWithin .standard n) s (Opened tokens s) := by
    rw [stmtWithin_eq]
    refine .kind_bind ?_
    cases hform : Tables.standardStatements s.current.kind with
    | none =>
      have hown : s.ownForm = [] := by simp [Stream.ownForm, hform]
      simp only [show Tables.standard.statements s.current.kind = none from hform]
      refine ((expressionStmt_traced hs.closed).imp fun _ hsteps h => h.opened ?_).mono
        fun _ => Event.InPhrase.inStatement
      rw [hsteps.dispatches_eq, hown, List.append_nil]
    | some form =>
      have hk : s.current.kind ≠ .endOfInput := by
        intro hk
        rw [hk] at hform
        cases hform
      have hown : (s.record (.statement s.current.kind)).dispatches = s.dispatches ++ s.ownForm := by
        rw [Stream.dispatches_statement, hs.length_advances, Stream.ownForm, hform]
        rfl
      simp only [show Tables.standard.statements s.current.kind = some form from hform]
      refine .record_bind trivial ?_
      -- The report of the form comes first; a form without statements in it reports no other.
      have halone : ∀ {p : Parse Stmt}, Traced Event.InPhrase p (s.record (.statement s.current.kind))
          (Alone (s.record (.statement s.current.kind))) →
            Traced Event.InStatement p (s.record (.statement s.current.kind)) (Opened tokens s) := by
        intro p h
        refine (h.imp fun _ hsteps h => ?_).mono fun _ => Event.InPhrase.inStatement
        have hstmt : Alone s _ _ := ⟨h.nodes, by rw [h.continuations, Stream.continuations_statement]⟩
        exact hstmt.opened (hsteps.dispatches_eq.trans hown)
      cases form with
      | any => exact .never
      | declaration => exact halone (declaration_traced hs.closed hk)
      | object => exact halone (objectType_traced hs.closed)
      | block =>
        refine (hblock _ (hs.record rfl)).imp ?_
        rintro _ _ - - ⟨body, s₁, rfl, hbody, rfl⟩
        exact hbody.opened hs.closed hk (Stream.continuations_statement _ _) hown
  refine hopened.imp fun heq _ h => ?_
  obtain ⟨ts, hpass, hstmt⟩ := stmtWithin_sound n s _ _ hs.closed heq
  exact h.reported hs.isIn hpass hstmt

/-- A statement is reported where it is written, and so is all in it. -/
theorem stmtWithin_traced (n : Nat) : Reports tokens (stmtWithin .standard n) := by
  induction n with
  | zero => exact stmtWithin_traced_of_block fun s _ => .fail
  | succ n ih => exact stmtWithin_traced_of_block fun s hs => block_traced ih hs

theorem statements_traced (n : Nat) (hs : s.Follows tokens) :
    Traced Event.InStatement (statements n []) s fun body s' =>
      s'.Follows tokens ∧ Reported tokens s body.reverse s' :=
  loop_collect_traced (fun items _ _ hQ => item_traced (stmtWithin_traced n) items hQ) hs.closed ⟨hs, .nil s⟩

end Parse

/-! ## Reading a program -/

/-- The events account for the tokens before an end token and for the program that they write. -/
structure Accounts (ts : List Token) (p : Program) (events : List Event) : Prop where
  /-- Every token is passed once, in its turn, and the end token never. -/
  advances : events.filterMap Event.advance? = passing ts
  /-- A phrase goes on once for every node that is made when one does. -/
  continuations : events.countP Event.isContinued = p.exprs.countP Expr.isContinuation
  phrases : ∀ phrase kind power, .continued phrase kind power ∈ events → phrase = .expression
  /-- A form is found once for every statement that has one of its own, at every depth. -/
  statements : events.filterMap Event.statement? = p.stmts.filterMap Stmt.opening?
  /-- It is found at the first token of the statement, one after the other. -/
  places : ∃ places, places.map Prod.snd = p.stmts ∧
    Event.dispatches 0 events = places.filterMap dispatch? ∧ Placed (ts ++ [.endOfInput]) 0 ts.length places
  /-- The last event, and no other, tells of the program. -/
  parsed : ∃ before, events = before ++ [.parsed p.body.length] ∧ ∀ n, .parsed n ∉ before

/-- What the scanner reports does not matter. -/
theorem Accounts.prepend {ts : List Token} {p : Program} {before events : List Event}
    (h : Accounts ts p events) (hbefore : ∀ event ∈ before, event.InScan) :
    Accounts ts p (before ++ events) := by
  have hadvances : before.filterMap Event.advance? = [] := by
    refine List.filterMap_eq_nil_iff.2 fun event hevent => ?_
    cases event <;> first | rfl | cases hbefore _ hevent
  have hstatements : before.filterMap Event.statement? = [] := by
    refine List.filterMap_eq_nil_iff.2 fun event hevent => ?_
    cases event <;> first | rfl | cases hbefore _ hevent
  have hcontinued : before.countP Event.isContinued = 0 := by
    refine List.countP_eq_zero.2 fun event hevent => ?_
    cases event <;> first | exact Bool.false_ne_true | cases hbefore _ hevent
  have hdispatches : Event.dispatches 0 before = [] := by
    rw [← List.map_eq_nil_iff, Event.map_snd_dispatches, hstatements]
  obtain ⟨places, hnodes, hplaces, hplaced⟩ := h.places
  obtain ⟨before', hevents, hparsed⟩ := h.parsed
  constructor
  case advances => rw [List.filterMap_append, hadvances, List.nil_append, h.advances]
  case continuations => rw [List.countP_append, hcontinued, Nat.zero_add, h.continuations]
  case phrases =>
    intro phrase kind power hmem
    obtain hmem | hmem := List.mem_append.1 hmem
    · cases hbefore _ hmem
    · exact h.phrases phrase kind power hmem
  case statements => rw [List.filterMap_append, hstatements, List.nil_append, h.statements]
  case places =>
    refine ⟨places, hnodes, ?_, hplaced⟩
    rw [Event.dispatches_append, hdispatches, hadvances, List.nil_append]
    exact hplaces
  case parsed =>
    refine ⟨before ++ before', by rw [hevents, List.append_assoc], fun n hmem => ?_⟩
    obtain hmem | hmem := List.mem_append.1 hmem
    · cases hbefore _ hmem
    · exact hparsed n hmem

theorem inScan_of_mem_tokenizeRun {source : String} {tokens : List Token} (h : tokenize source = .ok tokens) :
    ∀ event ∈ (tokenizeRun source).events, event.InScan := by
  rw [tokenizeRun_of_ok h, List.forall_mem_append, List.forall_mem_map, List.forall_mem_singleton]
  exact ⟨fun _ _ => trivial, trivial⟩

theorem events_andThen_of_tokenize {α : Type} {source : String} {tokens : List Token} {run : List Token → Run α}
    (h : tokenize source = .ok tokens) :
    ((tokenizeRun source).andThen run).events = (tokenizeRun source).events ++ (run tokens).events := by
  rw [tokenizeRun_of_ok h, Run.andThen]

section

variable {tokens ts : List Token} {s s' : Stream} {p : Program}

theorem Stream.events_of_ofTokens (hs : ofTokens tokens = .ok s) : s.events = [] := by
  cases tokens with
  | nil => cases hs
  | cons t ts =>
    rw [ofTokens] at hs
    split at hs
    · cases hs
      rfl
    · cases hs

theorem Stream.Steps.event_cases (hs : ofTokens tokens = .ok s) (h : s.Steps Event.InStatement s') :
    ∀ event ∈ s'.events, event.advance?.isSome ∨ event.InStatement := by
  intro event hmem
  obtain hmem | hcases := h.forall_events event hmem
  · rw [events_of_ofTokens hs] at hmem
    cases hmem
  · exact hcases

/-- On the way through the statements nothing tells of a program. -/
theorem Stream.Steps.parsed_not_mem (hs : ofTokens tokens = .ok s) (h : s.Steps Event.InStatement s') :
    ∀ n, .parsed n ∉ s'.events := by
  intro n hmem
  obtain hadvance | hstatement := h.event_cases hs _ hmem
  · cases hadvance
  · cases hstatement

/-- What goes on is an expression. -/
theorem Stream.Steps.phrase_of_mem (hs : ofTokens tokens = .ok s) (h : s.Steps Event.InStatement s') :
    ∀ phrase kind power, .continued phrase kind power ∈ s'.events → phrase = .expression := by
  intro phrase kind power hmem
  obtain hadvance | hphrase := h.event_cases hs _ hmem
  · cases hadvance
  · cases phrase with
    | expression => rfl
    | typeRef => cases hphrase

/-- The events of the run that reads a program account for its tokens and the program. -/
theorem accounts_of_parse (hts : ∀ t ∈ ts, t.kind ≠ .endOfInput)
    (h : parse (ts ++ [.endOfInput]) = .ok p) : Accounts ts p (parseRun (ts ++ [.endOfInput])).events := by
  obtain ⟨s, hs, hrest, hclosed⟩ := Stream.ofTokens_append_end ts (t := .endOfInput) rfl
  obtain ⟨body, s', hrun, rfl⟩ := statements_done_of_parse hs h
  have hevents : (parseRun (ts ++ [.endOfInput])).events = s'.events ++ [.parsed body.length] := by
    rw [parseRun_of_ofTokens hs, hrun]
    exact Stream.events_record s' _
  have hfollows : s.Follows (ts ++ [.endOfInput]) := .of_ofTokens hs
  obtain ⟨hsteps, hend, hcount, places, hnodes, hdispatches, hplaced⟩ :=
    (Parse.statements_traced maxNesting hfollows).done hrun
  -- The statements end at the only end token.
  obtain ⟨us, hpass, hstop, -⟩ := Parse.statements_sound hclosed hrun
  obtain rfl : us = ts := eq_of_append_end hts hstop (hrest.symm.trans hpass.rest)
  have hfirst : s.index = 0 := (Stream.of_ofTokens hs).1
  have hlast : s'.index = us.length := by rw [hpass.index, hfirst, Nat.zero_add]
  have hempty := Stream.events_of_ofTokens hs
  have hplaces : Event.dispatches 0 s'.events = places.filterMap dispatch? := by
    rw [show s.dispatches = [] by rw [Stream.dispatches, hempty]; rfl] at hdispatches
    exact hdispatches
  rw [hfirst, hlast] at hplaced
  rw [hevents]
  constructor
  case advances =>
    have hadvances := hend.advances
    rw [hlast, List.take_left] at hadvances
    rw [List.filterMap_append]
    exact (List.append_nil _).trans hadvances
  case continuations =>
    rw [show s.continuations = 0 by rw [Stream.continuations, hempty]; rfl, Nat.zero_add] at hcount
    rw [List.countP_append]
    exact hcount
  case phrases =>
    intro phrase kind power hmem
    obtain hmem | hmem := List.mem_append.1 hmem
    · exact hsteps.phrase_of_mem hs phrase kind power hmem
    · cases List.mem_singleton.1 hmem
  case statements =>
    rw [List.filterMap_append, ← Event.map_snd_dispatches 0 s'.events, hplaces, map_snd_dispatch?, hnodes]
    exact List.append_nil _
  case places =>
    refine ⟨places, hnodes, ?_, hplaced⟩
    rw [Event.dispatches_append, hplaces]
    exact List.append_nil _
  case parsed =>
    exact ⟨s'.events, by rw [List.length_reverse], hsteps.parsed_not_mem hs⟩

end

/-- Where a source text is read, the events account for its tokens and its program. Where tokens cannot be
read, those before the one at which reading stops have been passed, each once, and there is no event that
tells of a program. -/
theorem parseRun_events :
    (∀ source p, parseSource source = .ok p →
      ∃ ts, tokenize source = .ok (ts ++ [.endOfInput]) ∧ (∀ t ∈ ts, t.kind ≠ .endOfInput) ∧
        Accounts ts p ((tokenizeRun source).andThen parseRun).events) ∧
    ∀ tokens cause, Terminated tokens → parse tokens = .fault cause →
      ∃ i, stopIndex? tokens = some i ∧
        (parseRun tokens).events.filterMap Event.advance? = passing (tokens.take i) ∧
        ∀ n, .parsed n ∉ (parseRun tokens).events := by
  constructor
  · intro source p h
    rw [parseSource] at h
    cases htokens : tokenize source with
    | error cause =>
      rw [htokens] at h
      cases h
    | ok tokens =>
      rw [htokens] at h
      obtain ⟨-, rfl⟩ := tokenize_eq_ok_iff.1 htokens
      refine ⟨_, rfl, Scan.kind_ne_endOfInput, ?_⟩
      rw [events_andThen_of_tokenize htokens]
      exact (accounts_of_parse Scan.kind_ne_endOfInput h).prepend (inScan_of_mem_tokenizeRun htokens)
  · intro tokens cause hend h
    obtain ⟨s, hs⟩ := Stream.terminated_iff.1 hend
    obtain ⟨s', hrun⟩ := statements_fault_of_parse hs h
    have hsteps := (Parse.statements_traced maxNesting (.of_ofTokens hs)).fault hrun
    have hfollows : s'.Follows tokens := (Stream.Follows.of_ofTokens hs).steps hsteps
    rw [parseRun_of_ofTokens hs, hrun]
    exact ⟨s'.index, (parse_of_statements_fault hs hrun).2, hfollows.advances, hsteps.parsed_not_mem hs⟩

/-- A block with a declaration and a type in it, and an assignment that lacks its value. -/
theorem parseRun_events_nested :
    (∃ ts, tokenize "\x7b var q = p(a + b); obj r \x7b x : int; \x7d \x7d -q = c;" = .ok (ts ++ [.endOfInput]) ∧
      (∀ t ∈ ts, t.kind ≠ .endOfInput) ∧
      Accounts ts
        ⟨[.block [.declaration "q" false (.inferred (.construct "p"
            [.binary Mark.plus.token (.symbol "a") (.symbol "b")])), .object "r" [⟨"x", .named "int"⟩]],
          .expression (.assign Mark.assign.token (.unary Mark.dash.token (.symbol "q")) (.symbol "c"))]⟩
        ((tokenizeRun "\x7b var q = p(a + b); obj r \x7b x : int; \x7d \x7d -q = c;").andThen parseRun).events) ∧
    ∃ i, stopIndex? [⟨.identifier, "q"⟩, Mark.assign.token, ⟨.word .var, "var"⟩, .endOfInput] = some i ∧
      (parseRun [⟨.identifier, "q"⟩, Mark.assign.token, ⟨.word .var, "var"⟩, .endOfInput]).events.filterMap
          Event.advance? =
        passing ([⟨.identifier, "q"⟩, Mark.assign.token, ⟨.word .var, "var"⟩, .endOfInput].take i) ∧
      ∀ n, .parsed n ∉
        (parseRun [⟨.identifier, "q"⟩, Mark.assign.token, ⟨.word .var, "var"⟩, .endOfInput]).events := by
  constructor
  · exact parseRun_events.1 _ _ (by with_unfolding_all rfl)
  · exact parseRun_events.2 _ (.cannotStart .expression (.word .var) "var") (by decide)
      (by with_unfolding_all rfl)

end ScriptFront
