import ScriptFront.Proofs.Program.Exact
import ScriptFront.Proofs.Token.Image

/-!
# Sources one after the other

Lines put behind a source that is read as a program are read as they are read alone, and their
statements follow its own (`parseSource_append_line`). The scan of the first source stops at the line
break, each of its statements ends with its last token, and what lies behind a statement has no
influence on the next one.
-/

namespace ScriptFront

/-- Behind the tokens of a program, tokens are read as they are alone, and the statements follow. -/
theorem parse_append {ts us : List Token} {ending : Token} {p : Program}
    (h : DerivesProgram maxNesting ts p) (hending : ending.kind = .endOfInput) :
    parse (ts ++ (us ++ [ending])) =
      match parse (us ++ [ending]) with
      | .ok q => .ok ⟨p.body ++ q.body⟩
      | .fault cause => .fault cause
      | .endless => .endless := by
  obtain ⟨s, hs, hrest, -⟩ := Stream.ofTokens_append_end (ts ++ us) hending
  obtain ⟨s₁, hs₁, hrest₁, -⟩ := Stream.ofTokens_append_end us hending
  rw [List.append_assoc] at hs hrest
  obtain ⟨s₂, heq, hpass⟩ := Parse.statements_eq [] h hrest (by simp)
  have halike : s₂.Alike s₁ := (hpass.rest_eq hrest).trans hrest₁.symm
  -- from there on the two runs differ in the statements that the first has read before
  have hstmt : Parse.Agree False Eq (Parse.stmtWithin .standard maxNesting)
      (Parse.stmtWithin .standard maxNesting) :=
    Parse.stmtWithin_agree .standard (Nat.le_refl _) (Nat.lt_irrefl _)
  have hagree : Parse.Agree False (fun body body' => body = body' ++ p.body.reverse)
      (Parse.statements maxNesting p.body.reverse) (Parse.statements maxNesting []) := by
    refine Parse.loop_collect_agree (fun _ _ _ => hstmt) (fun stmt body body' hbody => ?_) rfl
    rw [hbody, List.cons_append]
  have hagree := hagree s₂ s₁ halike
  rw [List.append_nil] at heq
  rw [parse_of_ofTokens hs, parse_of_ofTokens hs₁, heq]
  generalize Parse.statements maxNesting p.body.reverse s₂ = o,
    Parse.statements maxNesting [] s₁ = o' at hagree
  cases hagree with
  | done hbody =>
    subst hbody
    simp only [List.reverse_append, List.reverse_reverse]
  | fault => rfl
  | endless => rfl
  | tooDeep hcut => exact hcut.elim

/-- The answer for a source text, by what is left of it where its scan stops. -/
theorem parseSource_eq (source : String) :
    parseSource source =
      if (Scan.ofText source.toList).rest = [] then
        parse ((Scan.ofText source.toList).tokens ++ [.endOfInput])
      else .fault (.unrecognised (String.ofList (Scan.ofText source.toList).rest)) := by
  rw [parseSource, tokenize, Scan.result]
  by_cases h : (Scan.ofText source.toList).rest = []
  · rw [if_pos h, if_pos h]
  · rw [if_neg h, if_neg h]

/-- If a source is read as a program, then with another source on the lines behind it the answer is that
for the other source, with the statements of the program in front of its statements. -/
theorem parseSource_append_line {a : String} {p : Program} (h : parseSource a = .ok p) (b : String) :
    parseSource (a ++ "\n" ++ b) =
      match parseSource b with
      | .ok q => .ok ⟨p.body ++ q.body⟩
      | .fault cause => .fault cause
      | .endless => .endless := by
  rw [parseSource_eq] at h
  split at h
  · next hrest =>
    have hending : Token.endOfInput.kind = .endOfInput := rfl
    have hderives := derivesProgram_of_parse Scan.kind_ne_endOfInput hending h
    have htext : (a ++ "\n" ++ b).toList = a.toList ++ '\n' :: b.toList := by
      rw [String.toList_append, String.toList_append, List.append_assoc]
      rfl
    obtain ⟨htokens, hleft⟩ := Scan.ofText_append_line b.toList hrest
    rw [parseSource_eq, parseSource_eq, htext, htokens, hleft, List.append_assoc,
      parse_append hderives hending]
    split <;> rfl
  · cases h

/-- A comment does not reach over the line break, and a fault behind it stays what it is. -/
theorem parseSource_append_line_comment :
    parseSource ("a; // b" ++ "\n" ++ "a;") =
        .ok ⟨[.expression (.symbol "a"), .expression (.symbol "a")]⟩ ∧
      parseSource ("a; // b" ++ "\n" ++ "c=#;") = .fault (.unrecognised "#;") := by
  have hparse : parse [⟨.identifier, "a"⟩, ⟨.mark .semicolon, ";"⟩, .endOfInput] =
      .ok ⟨[.expression (.symbol "a")]⟩ := by with_unfolding_all rfl
  have hcomment : tokenize "a; // b" =
      .ok [⟨.identifier, "a"⟩, ⟨.mark .semicolon, ";"⟩, .endOfInput] := by with_unfolding_all rfl
  have hplain : tokenize "a;" =
      .ok [⟨.identifier, "a"⟩, ⟨.mark .semicolon, ";"⟩, .endOfInput] := by with_unfolding_all rfl
  have hfault : tokenize "c=#;" = .error (.unrecognised "#;") := by with_unfolding_all rfl
  have hfirst : parseSource "a; // b" = .ok ⟨[.expression (.symbol "a")]⟩ := by
    simp only [parseSource, hcomment, hparse]
  rw [parseSource_append_line hfirst, parseSource_append_line hfirst]
  simp only [parseSource, hplain, hparse, hfault]
  exact ⟨rfl, trivial⟩

end ScriptFront
