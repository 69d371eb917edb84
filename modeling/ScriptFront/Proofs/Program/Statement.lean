import ScriptFront.Proofs.Program.TypeRef
import ScriptFront.Proofs.Sequence

/-!
# Statements are read as the grammar writes them

Reading a statement succeeds on exactly the tokens that write one, with the statement they write, and
looks at no token beyond its last. Blocks and objects are sequences between braces; the statements of a
block are read by induction on the levels of nesting, and derived by induction on their derivation.
-/

namespace ScriptFront

/-- A property in its place: no property before it has its name. -/
def DerivesPropertyAfter (n : Nat) (before : List Property) (ts : List Token) (p : Property) : Prop :=
  DerivesProperty n ts p ∧ ∀ q ∈ before, q.name ≠ p.name

/-- The properties of an object come in their places if no two have the same name. -/
theorem sequence_property_iff {n : Nat} {before : List Property}
    {items : List (List Token × Property)} :
    Sequence (DerivesPropertyAfter n) before items ↔
      (∀ item ∈ items, DerivesProperty n item.1 item.2) ∧
        (items.map fun item => item.2.name).Nodup ∧
        ∀ item ∈ items, ∀ q ∈ before, q.name ≠ item.2.name := by
  induction items generalizing before with
  | nil => simp [Sequence]
  | cons item items ih =>
    rw [Sequence, ih, DerivesPropertyAfter]
    simp only [List.forall_mem_cons, List.map_cons, List.nodup_cons, List.mem_map, not_exists,
      not_and]
    constructor
    · rintro ⟨⟨hitem, hbefore⟩, hitems, hnodup, hafter⟩
      refine ⟨⟨hitem, hitems⟩, ⟨fun other hother => ?_, hnodup⟩, hbefore, fun other hother => ?_⟩
      · exact fun heq => (hafter other hother).1 heq.symm
      · exact (hafter other hother).2
    · rintro ⟨⟨hitem, hitems⟩, ⟨hnew, hnodup⟩, hbefore, hafter⟩
      refine ⟨⟨hitem, hbefore⟩, hitems, hnodup, fun other hother => ⟨?_, hafter other hother⟩⟩
      exact fun heq => hnew other hother heq.symm

/-- What the parts of a declaration tell is a binding with just these parts; a constant has a value. -/
theorem Binding.ofParts_eq_ok_iff {name : String} {constant : Bool} {type : Option TypeRef}
    {value : Option Expr} {binding : Binding} :
    ofParts name constant type value = .ok binding ↔
      type = binding.type? ∧ value = binding.value? ∧ (constant = true → value.isSome) := by
  cases type <;> cases value <;> cases constant <;> cases binding <;>
    simp [ofParts, type?, value?]

/-- No token leads back to the tables. -/
theorem Tables.standardStatements_ne_any {k : Kind} {form : StmtForm}
    (h : standardStatements k = some form) : form ≠ .any := by
  rintro rfl
  unfold standardStatements at h
  split at h <;> cases h

namespace Parse

variable {n : Nat} {s s' : Stream} {ts us : List Token} {stmt : Stmt}

/-- A statement that starts in a form of its own. -/
theorem stmtWithin_of_form {form : StmtForm}
    (h : Tables.standardStatements s.current.kind = some form) :
    stmtWithin .standard n s =
      formWithin .standard n form (s.record (.statement s.current.kind)) := by
  rw [stmtWithin_eq, dispatch, kind_bind]
  simp only [show Tables.standard.statements s.current.kind = some form from h, record_bind]
  cases form with
  | any => exact absurd rfl (Tables.standardStatements_ne_any h)
  | _ => rfl

/-- A statement that starts in no form of its own. -/
theorem stmtWithin_of_none (h : Tables.standardStatements s.current.kind = none) :
    stmtWithin .standard n s = expressionStmt (exprWithin .standard n) s := by
  rw [stmtWithin_eq, dispatch, kind_bind]
  simp only [show Tables.standard.statements s.current.kind = none from h]
  rfl

/-! ## What the grammar derives is read -/

theorem formWithin_reads {t : Token} {form : StmtForm} (hs : s.rest = t :: us)
    (hform : Tables.standardStatements t.kind = some form)
    (h : ∀ s', s'.rest = t :: us → (formWithin .standard n form).Reads s' ts stmt) :
    (stmtWithin .standard n).Reads s ts stmt := by
  rw [← Stream.current_of_rest hs] at hform
  obtain ⟨s', hrun, hpass⟩ := h (s.record (.statement s.current.kind)) hs
  exact ⟨s', by rw [stmtWithin_of_form hform, hrun], hpass.of_record⟩

theorem declaredType_reads {type : Option TypeRef} {k : Token} {rest : List Token}
    (h : DerivesAnnotation n ts type) (hs : s.rest = ts ++ k :: rest) (hk : k.kind ≠ .mark .colon) :
    (declaredType (typeWithin .standard n)).Reads s ts type := by
  refine Reads.kind_bind ?_
  cases h with
  | none =>
    rw [if_neg (by rwa [Stream.current_of_rest hs])]
    exact .pure _ s
  | some hcolon h =>
    rw [if_pos (by rw [Stream.current_of_rest hs, hcolon])]
    exact Reads.advance_bind hs (by simp) fun s' hs' => (h.reads hs').bind_pure _

theorem declaredValue_reads {value : Option Expr} {k : Token} {rest : List Token}
    (h : DerivesInitializer n ts value) (hs : s.rest = ts ++ k :: rest)
    (hk : k.kind = .mark .semicolon) :
    (declaredValue (exprWithin .standard n)).Reads s ts value := by
  refine Reads.kind_bind ?_
  cases h with
  | none =>
    rw [if_pos (by rw [Stream.current_of_rest hs, hk])]
    exact .pure _ s
  | some hassign h =>
    rw [if_neg (by rw [Stream.current_of_rest hs, hassign]; decide)]
    refine Reads.expectOr_bind hs (by simp) hassign fun s' hs' => Reads.bind_pure _ ?_
    exact h.reads rfl hs' (by rw [hk]; decide)

/-- Whether or not a declaration has a value, no colon stands in front of it. -/
theorem exists_head_of_initializer {value : Option Expr} {semicolon : Token} (rest : List Token)
    (h : DerivesInitializer n us value) (hsemicolon : semicolon.kind = .mark .semicolon) :
    ∃ k rest', us ++ semicolon :: rest = k :: rest' ∧ k.kind ≠ .mark .colon := by
  cases h with
  | none => exact ⟨_, _, rfl, by rw [hsemicolon]; decide⟩
  | some hassign _ => exact ⟨_, _, rfl, by rw [hassign]; decide⟩

theorem declaration_reads {opening name semicolon k : Token} {constant : Bool} {binding : Binding}
    {rest : List Token} (ho : opening.kind = .word (if constant then .const else .var))
    (hname : name.kind = .identifier) (htype : DerivesAnnotation n ts binding.type?)
    (hvalue : DerivesInitializer n us binding.value?)
    (hsemicolon : semicolon.kind = .mark .semicolon)
    (hconstant : constant = true → binding.value?.isSome)
    (hs : s.rest = opening :: name :: (ts ++ (us ++ semicolon :: k :: rest))) :
    (declaration (typeWithin .standard n) (exprWithin .standard n)).Reads s
      (opening :: name :: (ts ++ (us ++ [semicolon])))
      (.declaration name.lexeme constant binding) := by
  have hopening : (opening.kind == .word .const) = constant := by
    rw [ho]
    cases constant <;> decide
  refine Reads.advance_bind hs (by simp) fun s₁ hs₁ => ?_
  refine Reads.expectOr_bind hs₁ (by simp) hname fun s₂ hs₂ => ?_
  obtain ⟨k', rest', heq, hk'⟩ := exists_head_of_initializer (k :: rest) hvalue hsemicolon
  refine (declaredType_reads htype (by rw [hs₂, heq]) hk').bind fun s₃ hpass => ?_
  have hs₃ := hpass.rest_eq hs₂
  refine (declaredValue_reads hvalue hs₃ hsemicolon).bind fun s₄ hpass => ?_
  refine Reads.expectOr_bind (hpass.rest_eq hs₃) (by simp) hsemicolon fun s₅ _ => ?_
  simp only [hopening, Binding.ofParts_eq_ok_iff.2 ⟨rfl, rfl, hconstant⟩]
  exact .pure _ s₅

theorem property_reads {object : String} {before : List Property} {p : Property} {k : Token}
    {rest : List Token} (h : DerivesPropertyAfter n before ts p) (hs : s.rest = ts ++ k :: rest) :
    (property (typeWithin .standard n) object before).Reads s ts p := by
  obtain ⟨⟨hname, hcolon, htype, hsemicolon⟩, hbefore⟩ := h
  simp only [List.cons_append, List.append_assoc, List.nil_append] at hs
  refine Reads.expectOr_bind hs (by simp) hname fun s₁ hs₁ => ?_
  refine Reads.expectOr_bind hs₁ (by simp) hcolon fun s₂ hs₂ => ?_
  refine (htype.reads hs₂).bind fun s₃ hpass => ?_
  refine Reads.expectOr_bind (hpass.rest_eq hs₂) (by simp) hsemicolon fun s₄ _ => ?_
  rw [if_neg (by simpa using hbefore)]
  exact .pure _ s₄

theorem expressionStmt_reads {semicolon k : Token} {rest : List Token} {e : Expr}
    (h : Derives n .assignment ts e) (hsemicolon : semicolon.kind = .mark .semicolon)
    (hs : s.rest = ts ++ semicolon :: k :: rest) :
    (expressionStmt (exprWithin .standard n)).Reads s (ts ++ [semicolon]) (.expression e) := by
  refine (h.reads (b := .lowest) rfl hs (by rw [hsemicolon]; decide)).bind fun s₁ hpass => ?_
  exact Reads.expectOr_bind (hpass.rest_eq hs) (by simp) hsemicolon fun s₂ _ => .pure _ s₂

/-- A sequence in braces is read to its closing brace. -/
theorem untilBrace_reads {α : Type} {item : List α → Parse α}
    {R : List α → List Token → α → Prop} {items : List (List Token × α)} {closing k : Token}
    {rest : List Token}
    (hitem : ∀ before ts a s k rest, R before ts a → s.rest = ts ++ k :: rest →
      (item before).Reads s ts a)
    (hhead : ∀ before ts a, R before ts a → ∃ t ts', ts = t :: ts' ∧
      ¬ (t.kind = .endOfInput ∨ t.kind = .mark .closeCurly))
    (hseq : Sequence R [] items) (hc : closing.kind = .mark .closeCurly)
    (hs : s.rest = items.flatMap Prod.fst ++ closing :: k :: rest) :
    (untilBrace item).Reads s (items.flatMap Prod.fst ++ [closing]) (items.map Prod.snd) := by
  rw [untilBrace_eq]
  refine (loop_collect_reads hitem hhead hseq hs (.inr hc)).bind fun s₁ hpass => ?_
  refine Reads.expectOr_bind (hpass.rest_eq hs) (by simp) hc fun s₂ _ => ?_
  rw [List.append_nil, List.reverse_reverse]
  exact .pure _ s₂

end Parse

/-- A statement begins with a token that ends no sequence of statements. -/
theorem DerivesStmt.exists_head {n : Nat} {ts : List Token} {stmt : Stmt}
    (h : DerivesStmt n ts stmt) :
    ∃ t us, ts = t :: us ∧ ¬ (t.kind = .endOfInput ∨ t.kind = .mark .closeCurly) := by
  cases h with
  | block ho => exact ⟨_, _, rfl, by rw [ho]; decide⟩
  | @declaration _ _ _ _ _ _ constant _ ho =>
    exact ⟨_, _, rfl, by rw [ho]; cases constant <;> decide⟩
  | object hobj => exact ⟨_, _, rfl, by rw [hobj]; decide⟩
  | expression h =>
    obtain ⟨t, us, rfl, ht⟩ := h.exists_head
    refine ⟨t, _, rfl, ?_⟩
    rintro (hk | hk) <;> rw [hk] at ht <;> cases ht

/-- A token that starts an expression starts no other statement. -/
theorem Tables.standardStatements_of_opening {k : Kind} (h : (ExprGrammar.opening k).isSome) :
    standardStatements k = none := by
  cases k with
  | mark m => cases m <;> first | rfl | cases h
  | word w => cases h
  | _ => rfl

/-- A statement of the grammar is read, whatever follows it. -/
theorem DerivesStmt.reads {n : Nat} {ts : List Token} {stmt : Stmt} (h : DerivesStmt n ts stmt) :
    ∀ {s : Stream} {k : Token} {rest : List Token}, s.rest = ts ++ k :: rest →
      (Parse.stmtWithin .standard n).Reads s ts stmt := by
  induction h with
  | @block n _ _ items ho hc hitems ih =>
    intro s k rest hs
    simp only [List.cons_append, List.append_assoc, List.nil_append] at hs
    refine Parse.formWithin_reads hs (by rw [ho]; rfl) fun s₁ hs₁ => ?_
    refine Parse.Reads.expectOr_bind hs₁ (by simp) ho fun s₂ hs₂ => Parse.Reads.bind_pure _ ?_
    have hseq : Sequence (fun _ ts stmt => DerivesStmt n ts stmt ∧ ∀ s k rest,
        s.rest = ts ++ k :: rest → (Parse.stmtWithin .standard n).Reads s ts stmt) [] items :=
      sequence_iff_forall.2 fun item hitem => ⟨hitems item hitem, fun _ _ _ => ih item hitem⟩
    refine Parse.untilBrace_reads ?_ ?_ hseq hc hs₂
    · exact fun before ts stmt s k rest hstmt => hstmt.2 s k rest
    · exact fun before ts stmt hstmt => hstmt.1.exists_head
  | @declaration _ _ _ opening _ _ _ _ ho hname htype hvalue hsemicolon hconstant =>
    intro s k rest hs
    simp only [List.cons_append, List.append_assoc, List.nil_append] at hs
    have hform : Tables.standardStatements opening.kind = some StmtForm.declaration := by
      rw [ho]
      split <;> rfl
    refine Parse.formWithin_reads hs hform fun s₁ hs₁ => ?_
    exact Parse.declaration_reads ho hname htype hvalue hsemicolon hconstant hs₁
  | object hobj hname ho hc hitems hdistinct =>
    intro s k rest hs
    simp only [List.cons_append, List.append_assoc, List.nil_append] at hs
    refine Parse.formWithin_reads hs (by rw [hobj]; rfl) fun s₁ hs₁ => ?_
    refine Parse.Reads.expectOr_bind hs₁ (by simp) hobj fun s₂ hs₂ => ?_
    refine Parse.Reads.expectOr_bind hs₂ (by simp) hname fun s₃ hs₃ => ?_
    refine Parse.Reads.expectOr_bind hs₃ (by simp) ho fun s₄ hs₄ => Parse.Reads.bind_pure _ ?_
    have hseq : Sequence (DerivesPropertyAfter _) [] _ :=
      sequence_property_iff.2 ⟨hitems, hdistinct, by simp⟩
    refine Parse.untilBrace_reads ?_ ?_ hseq hc hs₄
    · exact fun before ts p s k rest hp hs => Parse.property_reads hp hs
    · rintro before _ _ ⟨⟨hname, -, -, -⟩, -⟩
      exact ⟨_, _, rfl, by rw [hname]; decide⟩
  | expression h hsemicolon =>
    intro s k rest hs
    rw [List.append_assoc] at hs
    obtain ⟨s', hrun, hpass⟩ := Parse.expressionStmt_reads h hsemicolon hs
    obtain ⟨t, us, rfl, ht⟩ := h.exists_head
    have hnone := Tables.standardStatements_of_opening ht
    rw [← Stream.current_of_rest hs] at hnone
    exact ⟨s', by rw [Parse.stmtWithin_of_none hnone, hrun], hpass⟩

/-! ## What is read, the grammar derives -/

namespace Parse

variable {n : Nat} {s s' : Stream} {stmt : Stmt}

theorem declaredType_sound {type : Option TypeRef} (hs : s.Closed)
    (h : declaredType (typeWithin .standard n) s = .done type s') :
    ∃ ts, s.Passes ts s' ∧ DerivesAnnotation n ts type := by
  rw [declaredType, kind_bind] at h
  split at h
  · next hcolon =>
    rw [advance_bind] at h
    obtain ⟨type, s₁, htype, h⟩ := bind_eq_done.1 h
    obtain ⟨rfl, rfl⟩ := pure_eq_done.1 h
    have hpass := s.passes_advance hs (by simp [hcolon])
    obtain ⟨ts, hpass', hts⟩ := typeWithin_sound (hpass.closed hs) htype
    exact ⟨_, hpass.trans hpass', .some hcolon hts⟩
  · obtain ⟨rfl, rfl⟩ := pure_eq_done.1 h
    exact ⟨[], .refl s, .none⟩

theorem declaredValue_sound {value : Option Expr} (hs : s.Closed)
    (h : declaredValue (exprWithin .standard n) s = .done value s') :
    ∃ ts, s.Passes ts s' ∧ DerivesInitializer n ts value := by
  rw [declaredValue, kind_bind] at h
  split at h
  · obtain ⟨rfl, rfl⟩ := pure_eq_done.1 h
    exact ⟨[], .refl s, .none⟩
  · obtain ⟨assign, s₁, hassign, h⟩ := bind_eq_done.1 h
    obtain ⟨value, s₂, hvalue, h⟩ := bind_eq_done.1 h
    obtain ⟨rfl, rfl⟩ := pure_eq_done.1 h
    obtain ⟨hassign, hpass⟩ := passes_of_expectOr hs (by simp) hassign
    obtain ⟨ts, hpass', hts, -⟩ := (exprWithin_sound n).1 rfl (hpass.closed hs) hvalue
    exact ⟨_, hpass.trans hpass', .some hassign hts⟩

theorem declaration_sound (hs : s.Closed)
    (hform : Tables.standardStatements s.current.kind = some .declaration)
    (h : declaration (typeWithin .standard n) (exprWithin .standard n) s = .done stmt s') :
    ∃ ts, s.Passes ts s' ∧ DerivesStmt n ts stmt := by
  have hopening : s.current.kind =
      .word (if (s.current.kind == .word .const) = true then .const else .var) := by
    unfold Tables.standardStatements at hform
    split at hform <;> simp_all
  rw [declaration, advance_bind] at h
  obtain ⟨name, s₂, hname, h⟩ := bind_eq_done.1 h
  obtain ⟨type, s₃, htype, h⟩ := bind_eq_done.1 h
  obtain ⟨value, s₄, hvalue, h⟩ := bind_eq_done.1 h
  obtain ⟨semicolon, s₅, hsemicolon, h⟩ := bind_eq_done.1 h
  have hpass₁ := s.passes_advance hs (by rw [hopening]; simp)
  have hs₁ := hpass₁.closed hs
  obtain ⟨hname, hpass₂⟩ := passes_of_expectOr hs₁ (by simp) hname
  have hs₂ := hpass₂.closed hs₁
  obtain ⟨ts, hpass₃, hts⟩ := declaredType_sound hs₂ htype
  have hs₃ := hpass₃.closed hs₂
  obtain ⟨us, hpass₄, hus⟩ := declaredValue_sound hs₃ hvalue
  obtain ⟨hsemicolon, hpass₅⟩ := passes_of_expectOr (hpass₄.closed hs₃) (by simp) hsemicolon
  cases hparts : Binding.ofParts name.lexeme (s.current.kind == .word .const) type value with
  | error cause => simp [hparts] at h
  | ok binding =>
    simp only [hparts] at h
    obtain ⟨rfl, rfl⟩ := pure_eq_done.1 h
    obtain ⟨rfl, rfl, hconstant⟩ := Binding.ofParts_eq_ok_iff.1 hparts
    have hpass := hpass₁.trans (hpass₂.trans (hpass₃.trans (hpass₄.trans hpass₅)))
    exact ⟨_, hpass, .declaration hopening hname hts hus hsemicolon hconstant⟩

theorem property_sound {object : String} {before : List Property} {p : Property} (hs : s.Closed)
    (h : property (typeWithin .standard n) object before s = .done p s') :
    ∃ ts, s.Passes ts s' ∧ DerivesPropertyAfter n before ts p := by
  obtain ⟨name, s₁, hname, h⟩ := bind_eq_done.1 h
  obtain ⟨colon, s₂, hcolon, h⟩ := bind_eq_done.1 h
  obtain ⟨type, s₃, htype, h⟩ := bind_eq_done.1 h
  obtain ⟨semicolon, s₄, hsemicolon, h⟩ := bind_eq_done.1 h
  obtain ⟨hname, hpass₁⟩ := passes_of_expectOr hs (by simp) hname
  have hs₁ := hpass₁.closed hs
  obtain ⟨hcolon, hpass₂⟩ := passes_of_expectOr hs₁ (by simp) hcolon
  have hs₂ := hpass₂.closed hs₁
  obtain ⟨ts, hpass₃, hts⟩ := typeWithin_sound hs₂ htype
  obtain ⟨hsemicolon, hpass₄⟩ := passes_of_expectOr (hpass₃.closed hs₂) (by simp) hsemicolon
  split at h
  · cases h
  · next hnew =>
    obtain ⟨rfl, rfl⟩ := pure_eq_done.1 h
    have hpass := hpass₁.trans (hpass₂.trans (hpass₃.trans hpass₄))
    exact ⟨_, hpass, .mk hname hcolon hts hsemicolon, by simpa using hnew⟩

/-- What is read in braces is a sequence and the closing brace. -/
theorem untilBrace_sound {α : Type} {item : List α → Parse α} {R : List α → List Token → α → Prop}
    {r : List α}
    (hitem : ∀ before s a s', s.Closed → item before s = .done a s' →
      ∃ ts, s.Passes ts s' ∧ R before ts a)
    (hs : s.Closed) (h : untilBrace item s = .done r s') :
    ∃ items closing, s.Passes (items.flatMap Prod.fst ++ [closing]) s' ∧ Sequence R [] items ∧
      closing.kind = .mark .closeCurly ∧ r = items.map Prod.snd := by
  rw [untilBrace_eq] at h
  obtain ⟨read, s₁, hread, h⟩ := bind_eq_done.1 h
  obtain ⟨closing, s₂, hclosing, h⟩ := bind_eq_done.1 h
  obtain ⟨rfl, rfl⟩ := pure_eq_done.1 h
  have hstep := fun before s a s' hs (_ : ¬ (s.current.kind = .endOfInput ∨
    s.current.kind = .mark .closeCurly)) ha => hitem before s a s' hs ha
  obtain ⟨items, hpass, hseq, rfl, -⟩ := loop_collect_sound hstep hs hread
  obtain ⟨hclosing, hpass'⟩ := passes_of_expectOr (hpass.closed hs) (by simp) hclosing
  exact ⟨items, closing, hpass.trans hpass', hseq, hclosing, by simp⟩

theorem objectType_sound (hs : s.Closed)
    (h : objectType (typeWithin .standard n) s = .done stmt s') :
    ∃ ts, s.Passes ts s' ∧ DerivesStmt n ts stmt := by
  unfold objectType at h
  obtain ⟨obj, s₁, hobj, h⟩ := bind_eq_done.1 h
  obtain ⟨name, s₂, hname, h⟩ := bind_eq_done.1 h
  obtain ⟨opening, s₃, ho, h⟩ := bind_eq_done.1 h
  obtain ⟨properties, s₄, hproperties, h⟩ := bind_eq_done.1 h
  obtain ⟨rfl, rfl⟩ := pure_eq_done.1 h
  obtain ⟨hobj, hpass₁⟩ := passes_of_expectOr hs (by simp) hobj
  have hs₁ := hpass₁.closed hs
  obtain ⟨hname, hpass₂⟩ := passes_of_expectOr hs₁ (by simp) hname
  have hs₂ := hpass₂.closed hs₁
  obtain ⟨ho, hpass₃⟩ := passes_of_expectOr hs₂ (by simp) ho
  have hitem : ∀ before s p s', s.Closed →
      property (typeWithin .standard n) name.lexeme before s = .done p s' →
        ∃ ts, s.Passes ts s' ∧ DerivesPropertyAfter n before ts p :=
    fun before s p s' hs hp => property_sound hs hp
  obtain ⟨items, closing, hpass₄, hseq, hc, rfl⟩ :=
    untilBrace_sound hitem (hpass₃.closed hs₂) hproperties
  obtain ⟨hitems, hdistinct, -⟩ := sequence_property_iff.1 hseq
  have hpass := hpass₁.trans (hpass₂.trans (hpass₃.trans hpass₄))
  exact ⟨_, hpass, .object hobj hname ho hc hitems hdistinct⟩

theorem expressionStmt_sound (hs : s.Closed)
    (h : expressionStmt (exprWithin .standard n) s = .done stmt s') :
    ∃ ts, s.Passes ts s' ∧ DerivesStmt n ts stmt := by
  obtain ⟨e, s₁, he, h⟩ := bind_eq_done.1 h
  obtain ⟨semicolon, s₂, hsemicolon, h⟩ := bind_eq_done.1 h
  obtain ⟨rfl, rfl⟩ := pure_eq_done.1 h
  obtain ⟨ts, hpass, hts, -⟩ := (exprWithin_sound n).1 rfl hs he
  obtain ⟨hsemicolon, hpass'⟩ := passes_of_expectOr (hpass.closed hs) (by simp) hsemicolon
  exact ⟨_, hpass.trans hpass', .expression hts hsemicolon⟩

theorem block_sound {stmt : Stmt} {item : Parse Stmt} (hs : s.Closed)
    (hitem : ∀ s stmt s', s.Closed → item s = .done stmt s' →
      ∃ ts, s.Passes ts s' ∧ DerivesStmt n ts stmt)
    (h : block item s = .done stmt s') : ∃ ts, s.Passes ts s' ∧ DerivesStmt (n + 1) ts stmt := by
  unfold block at h
  obtain ⟨opening, s₁, ho, h⟩ := bind_eq_done.1 h
  obtain ⟨stmts, s₂, hstmts, h⟩ := bind_eq_done.1 h
  obtain ⟨rfl, rfl⟩ := pure_eq_done.1 h
  obtain ⟨ho, hpass₁⟩ := passes_of_expectOr hs (by simp) ho
  obtain ⟨items, closing, hpass₂, hseq, hc, rfl⟩ :=
    untilBrace_sound (fun _ => hitem) (hpass₁.closed hs) hstmts
  exact ⟨_, hpass₁.trans hpass₂, .block ho hc (sequence_iff_forall.1 hseq)⟩

/-- Of the statements only blocks lead back to statements. -/
theorem stmtWithin_sound_of_block (hs : s.Closed)
    (hblock : ∀ s stmt s', s.Closed → blockWithin .standard n s = .done stmt s' →
      ∃ ts, s.Passes ts s' ∧ DerivesStmt n ts stmt)
    (h : stmtWithin .standard n s = .done stmt s') :
    ∃ ts, s.Passes ts s' ∧ DerivesStmt n ts stmt := by
  cases hform : Tables.standardStatements s.current.kind with
  | none =>
    rw [stmtWithin_of_none hform] at h
    exact expressionStmt_sound hs h
  | some form =>
    rw [stmtWithin_of_form hform] at h
    have hs' : (s.record (.statement s.current.kind)).Closed := hs
    have hread : ∃ ts, (s.record (.statement s.current.kind)).Passes ts s' ∧
        DerivesStmt n ts stmt := by
      cases form with
      | any => exact absurd rfl (Tables.standardStatements_ne_any hform)
      | declaration => exact declaration_sound hs' hform h
      | object => exact objectType_sound hs' h
      | block => exact hblock _ stmt s' hs' h
    obtain ⟨ts, hpass, hts⟩ := hread
    exact ⟨ts, hpass.of_record, hts⟩

/-- Whatever is read as a statement, the grammar derives. -/
theorem stmtWithin_sound (n : Nat) : ∀ s stmt s', s.Closed →
    stmtWithin .standard n s = .done stmt s' → ∃ ts, s.Passes ts s' ∧ DerivesStmt n ts stmt := by
  induction n with
  | zero =>
    intro s stmt s' hs h
    exact stmtWithin_sound_of_block hs (fun _ _ _ _ h => nomatch h) h
  | succ n ih =>
    intro s stmt s' hs h
    exact stmtWithin_sound_of_block hs (fun s stmt s' hs h => block_sound hs ih h) h

end Parse

end ScriptFront
