import ScriptFront.Proofs.Agree
import ScriptFront.Proofs.Program.Statement

/-!
# Programs are read as the grammar writes them

The statements of a program are a sequence up to the end token, so tokens before an end token are read
as a program exactly when the grammar derives that program from them (`parse_eq_ok_iff`). A program that
needs more levels of nesting than there are is refused for that and for nothing else
(`parse_of_derivesProgram`).
-/

namespace ScriptFront

/-- If the first list has no end token, then an end token that closes it is the first one. -/
theorem eq_of_append_end {ts us rest : List Token} {ending k : Token}
    (hts : ∀ t ∈ ts, t.kind ≠ .endOfInput) (hk : k.kind = .endOfInput)
    (h : ts ++ [ending] = us ++ k :: rest) : us = ts := by
  induction ts generalizing us with
  | nil =>
    have hlength := congrArg List.length h
    simp only [List.nil_append, List.length_append, List.length_cons, List.length_nil] at hlength
    exact List.length_eq_zero_iff.1 (by omega)
  | cons t ts ih =>
    obtain ⟨ht, hts⟩ := List.forall_mem_cons.1 hts
    cases us with
    | nil =>
      injection h with hhead _
      exact absurd (hhead ▸ hk) ht
    | cons u us =>
      injection h with hhead htail
      rw [hhead, ih hts htail]

namespace Parse

variable {n : Nat} {s s' : Stream} {p : Program} {ts us : List Token}

/-- Reads statements up to an end token, after those read before, the latest first. -/
def statements (n : Nat) (before : List Stmt) : Parse (List Stmt) :=
  loop (collect (· = .endOfInput) fun _ => stmtWithin .standard n) before

/-- What is read as statements is a program of the grammar, up to an end token. -/
theorem statements_sound {body : List Stmt} (hs : s.Closed)
    (h : statements n [] s = .done body s') :
    ∃ ts, s.Passes ts s' ∧ s'.current.kind = .endOfInput ∧ DerivesProgram n ts ⟨body.reverse⟩ := by
  have hstmt := fun (_ : List Stmt) s stmt s' hs (_ : ¬ s.current.kind = .endOfInput) h =>
    stmtWithin_sound n s stmt s' hs h
  obtain ⟨items, hpass, hseq, rfl, hstop⟩ := loop_collect_sound hstmt hs h
  have hbody : DerivesProgram n (items.flatMap Prod.fst)
      ⟨((items.map Prod.snd).reverse ++ []).reverse⟩ :=
    ⟨items, sequence_iff_forall.1 hseq, rfl, by simp⟩
  exact ⟨_, hpass, hstop, hbody⟩

/-- The statements of a program are read, whatever follows them, and reading goes on from there. -/
theorem statements_eq (before : List Stmt) (h : DerivesProgram n ts p) (hs : s.rest = ts ++ us)
    (hus : us ≠ []) :
    ∃ s', statements n before s = statements n (p.body.reverse ++ before) s' ∧ s.Passes ts s' := by
  obtain ⟨items, hitems, rfl, hp⟩ := h
  have hseq : Sequence (fun _ => DerivesStmt n) before items := sequence_iff_forall.2 hitems
  rw [hp]
  refine loop_collect_eq (fun _ ts stmt s k rest hstmt hs => hstmt.reads hs) ?_ hseq hs hus
  intro _ ts stmt hstmt
  obtain ⟨t, us, rfl, ht⟩ := hstmt.exists_head
  exact ⟨t, us, rfl, fun hend => ht (.inl hend)⟩

/-- Before an end token there is no statement. -/
theorem statements_end (before : List Stmt) (hs : s.current.kind = .endOfInput) :
    statements n before s = .done before s := by
  apply loop_over
  rw [collect, kind_bind, if_pos hs]
  rfl

/-- The statements of a program are read up to an end token. -/
theorem statements_reads {rest : List Token} {k : Token} (h : DerivesProgram n ts p)
    (hs : s.rest = ts ++ k :: rest) (hk : k.kind = .endOfInput) :
    (statements n []).Reads s ts p.body.reverse := by
  obtain ⟨s', heq, hpass⟩ := statements_eq [] h hs (List.cons_ne_nil k rest)
  have hend : s'.current.kind = .endOfInput := by
    rw [Stream.current_of_rest (hpass.rest_eq hs), hk]
  rw [List.append_nil, statements_end _ hend] at heq
  exact ⟨s', heq, hpass⟩

/-- With fewer levels of nesting the same statements are read, unless the levels run out. -/
theorem statements_agree {m : Nat} (hnm : n ≤ m) :
    Agree (n < m) Eq (statements n []) (statements m []) :=
  loop_collect_agree (fun _ _ _ => stmtWithin_agree .standard hnm id)
    (fun stmt _ _ hbodies => congrArg (stmt :: ·) hbodies) rfl

end Parse

/-- A program is read by reading its statements, and then it is reported how many there are. -/
theorem parseRun_of_ofTokens {tokens : List Token} {s : Stream} (hs : Stream.ofTokens tokens = .ok s) :
    parseRun tokens =
      match Parse.statements maxNesting [] s with
      | .done body s' => ⟨.ok ⟨body.reverse⟩, (s'.record (.parsed body.length)).events⟩
      | .fault cause s' => ⟨.fault cause, s'.events⟩
      | .endless => ⟨.endless, []⟩ := by
  have hprogram : Parse.program .standard s = (do
      let body ← Parse.statements maxNesting []
      Parse.record (.parsed body.length)
      return ⟨body.reverse⟩ : Parse Program) s := by
    rw [Parse.program_eq, Stream.room_of_ofTokens hs]
    rfl
  simp only [parseRun, Run.ofTokens, hs, hprogram]
  cases h : Parse.statements maxNesting [] s with
  | done body s' => rw [Parse.bind_done h, Parse.record_bind]; rfl
  | fault cause s' => rw [Parse.bind_fault h]; rfl
  | endless => rw [Parse.bind_endless h]; rfl

/-- The answer for a list of tokens is the program of its statements. -/
theorem parse_of_ofTokens {tokens : List Token} {s : Stream} (hs : Stream.ofTokens tokens = .ok s) :
    parse tokens =
      match Parse.statements maxNesting [] s with
      | .done body _ => .ok ⟨body.reverse⟩
      | .fault cause _ => .fault cause
      | .endless => .endless := by
  rw [parse, parseRun_of_ofTokens hs]
  cases Parse.statements maxNesting [] s <;> rfl

theorem statements_done_of_parse {tokens : List Token} {s : Stream} {p : Program}
    (hs : Stream.ofTokens tokens = .ok s) (h : parse tokens = .ok p) :
    ∃ body s', Parse.statements maxNesting [] s = .done body s' ∧ p = ⟨body.reverse⟩ := by
  rw [parse_of_ofTokens hs] at h
  split at h
  · next body s' hrun =>
    cases h
    exact ⟨body, s', hrun, rfl⟩
  · cases h
  · cases h

section

variable {n : Nat} {ts : List Token} {ending : Token} {p : Program}

theorem derivesProgram_of_parse (hts : ∀ t ∈ ts, t.kind ≠ .endOfInput)
    (hending : ending.kind = .endOfInput) (h : parse (ts ++ [ending]) = .ok p) :
    DerivesProgram maxNesting ts p := by
  obtain ⟨s, hs, hrest, hclosed⟩ := Stream.ofTokens_append_end ts hending
  obtain ⟨body, s', hrun, rfl⟩ := statements_done_of_parse hs h
  obtain ⟨us, hpass, hstop, hderives⟩ := Parse.statements_sound hclosed hrun
  obtain rfl : us = ts := eq_of_append_end hts hstop (hrest.symm.trans hpass.rest)
  exact hderives

/-- A program of the grammar is read, unless it takes more levels of nesting than there are. -/
theorem parse_of_derivesProgram (hending : ending.kind = .endOfInput) (hn : maxNesting ≤ n)
    (h : DerivesProgram n ts p) :
    parse (ts ++ [ending]) = .ok p ∨
      maxNesting < n ∧ parse (ts ++ [ending]) = .fault (.tooDeep maxNesting) := by
  obtain ⟨s, hs, hrest, -⟩ := Stream.ofTokens_append_end ts hending
  obtain ⟨s', hrun, -⟩ := Parse.statements_reads h hrest hending
  have hagree := Parse.statements_agree hn s s rfl
  rw [hrun] at hagree
  rw [parse_of_ofTokens hs]
  generalize Parse.statements maxNesting [] s = o at hagree
  cases hagree with
  | done hbody =>
    subst hbody
    exact .inl (by simp only [List.reverse_reverse])
  | tooDeep hlt => exact .inr ⟨hlt, rfl⟩

/-- A program that takes no more levels of nesting than there are is read. -/
theorem parse_of_derivesProgram_of_le (hending : ending.kind = .endOfInput) (hn : n ≤ maxNesting)
    (h : DerivesProgram n ts p) : parse (ts ++ [ending]) = .ok p := by
  obtain ⟨s, hs, hrest, -⟩ := Stream.ofTokens_append_end ts hending
  obtain ⟨s', hrun, -⟩ := Parse.statements_reads h hrest hending
  have hagree := Parse.statements_agree hn s s rfl
  rw [hrun] at hagree
  rw [parse_of_ofTokens hs]
  generalize Parse.statements maxNesting [] s = o at hagree
  cases hagree with
  | done hbody =>
    subst hbody
    simp only [List.reverse_reverse]

theorem parse_eq_ok_singleton_iff {stmt : Stmt} (hts : ∀ t ∈ ts, t.kind ≠ .endOfInput)
    (hending : ending.kind = .endOfInput) :
    parse (ts ++ [ending]) = .ok ⟨[stmt]⟩ ↔ DerivesStmt maxNesting ts stmt := by
  rw [← derivesProgram_singleton_iff]
  constructor
  · exact derivesProgram_of_parse hts hending
  · exact parse_of_derivesProgram_of_le hending (Nat.le_refl _)

/-- An expression of the grammar is read as the only statement before the semicolon that ends it. -/
theorem parse_of_derives {e : Expr} {semicolon : Token} (h : Derives maxNesting .assignment ts e)
    (hsemicolon : semicolon.kind = .mark .semicolon) (hending : ending.kind = .endOfInput) :
    parse (ts ++ [semicolon, ending]) = .ok ⟨[.expression e]⟩ := by
  have hstmt : DerivesStmt maxNesting (ts ++ [semicolon]) (.expression e) := .expression h hsemicolon
  rw [List.append_cons]
  exact parse_of_derivesProgram_of_le hending (Nat.le_refl _) (derivesProgram_singleton_iff.2 hstmt)

end

/-- Tokens before an end token are read as a program exactly when the grammar derives that program from
them within the levels of nesting there are, and each of their numbers can be read. -/
theorem parse_eq_ok_iff {ts : List Token} (hts : ∀ t ∈ ts, t.kind ≠ .endOfInput) {ending : Token}
    (hending : ending.kind = .endOfInput) {p : Program} :
    parse (ts ++ [ending]) = .ok p ↔
      DerivesProgram maxNesting ts p ∧ ∀ t ∈ ts, t.Readable := by
  constructor
  · intro h
    have hderives := derivesProgram_of_parse hts hending h
    exact ⟨hderives, hderives.readable⟩
  · rintro ⟨hderives, -⟩
    obtain h | ⟨hlt, -⟩ := parse_of_derivesProgram hending (Nat.le_refl _) hderives
    · exact h
    · exact absurd hlt (Nat.lt_irrefl _)

/-- `{ const v : grp<int, 2> = a; }` is read as a block with one declaration. -/
theorem parse_block_of_constant :
    parse ([⟨.mark .openCurly, "\x7b"⟩, ⟨.word .const, "const"⟩, ⟨.identifier, "v"⟩,
        ⟨.mark .colon, ":"⟩, ⟨.word .grp, "grp"⟩, ⟨.mark .less, "<"⟩, ⟨.identifier, "int"⟩,
        ⟨.mark .comma, ","⟩, ⟨.number, "2"⟩, ⟨.mark .greater, ">"⟩, ⟨.mark .assign, "="⟩,
        ⟨.identifier, "a"⟩, ⟨.mark .semicolon, ";"⟩, ⟨.mark .closeCurly, "\x7d"⟩] ++
        [Token.endOfInput]) =
      .ok ⟨[.block [.declaration "v" true (.annotated (.group (.named "int") 2) (.symbol "a"))]]⟩ := by
  have atom {n : Nat} (x : String) : Derives (n + 1) .atom [⟨.identifier, x⟩] (.symbol x) :=
    .symbol rfl
  have two : Derives 254 .atom [⟨.number, "2"⟩] (.number ⟨false, 2 ^ 62, by decide⟩) :=
    .number rfl (by decide +kernel)
  have size : StatesSize (.number ⟨false, 2 ^ 62, by decide⟩) 2 :=
    ⟨_, 2, .number _, ⟨by decide, nofun, by decide +kernel⟩, by decide, by decide⟩
  have int : DerivesType 254 [⟨.identifier, "int"⟩] (.named "int") := .named rfl
  have group : DerivesType 255
      (⟨.word .grp, "grp"⟩ :: ⟨.mark .less, "<"⟩ :: ([⟨.identifier, "int"⟩] ++
        ⟨.mark .comma, ","⟩ :: ([⟨.number, "2"⟩] ++ [⟨.mark .greater, ">"⟩])))
      (.group (.named "int") 2) :=
    .group rfl rfl int rfl (two.loosen (by decide)) rfl size
  have type : DerivesAnnotation 255 (⟨.mark .colon, ":"⟩ :: _) (some (.group (.named "int") 2)) :=
    .some rfl group
  have value : DerivesInitializer 255 (⟨.mark .assign, "="⟩ :: [⟨.identifier, "a"⟩])
      (some (.symbol "a")) := .some rfl ((atom "a").loosen (by decide))
  have stmt : DerivesStmt 255
      (⟨.word .const, "const"⟩ :: ⟨.identifier, "v"⟩ :: (_ ++ (_ ++ [⟨.mark .semicolon, ";"⟩])))
      (.declaration "v" true (.annotated (.group (.named "int") 2) (.symbol "a"))) :=
    .declaration rfl rfl type value rfl fun _ => rfl
  have block : DerivesStmt 256 (⟨.mark .openCurly, "\x7b"⟩ :: ([(_, _)].flatMap Prod.fst ++
      [⟨.mark .closeCurly, "\x7d"⟩])) (.block ([(_, _)].map Prod.snd)) :=
    .block rfl rfl (List.forall_mem_singleton.2 stmt)
  have program : DerivesProgram maxNesting _ ⟨[_]⟩ :=
    ⟨[(_, _)], List.forall_mem_singleton.2 block, rfl, rfl⟩
  exact (parse_eq_ok_iff (by decide) rfl).2 ⟨program, program.readable⟩

end ScriptFront
