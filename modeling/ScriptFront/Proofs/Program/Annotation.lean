import ScriptFront.Proofs.Program.Exact

/-!
# The places of a type

A type is written on its own, after the colon of a declaration or after the colon of a property. Each place
has a reader of its own and ends its type with another token, yet all take the same tokens for the same
type (`parseType_eq_ok_iff_places`). Each is compared with the grammar: there the tokens around the type can be
taken off, and what stands between them cannot be anything but the type, since the tree has no room
for another statement, another property or a value.
-/

namespace ScriptFront

section

variable {n : Nat} {ts : List Token} {type : TypeRef} {colon semicolon : Token}

/-- A declaration without a value is written by its type, between the colon and the semicolon. -/
theorem derivesStmt_typed_iff {var name : Token} (hvar : var.kind = .word .var)
    (hname : name.kind = .identifier) (hcolon : colon.kind = .mark .colon)
    (hsemicolon : semicolon.kind = .mark .semicolon) :
    DerivesStmt n (var :: name :: colon :: (ts ++ [semicolon])) (.declaration name.lexeme false (.typed type)) ↔
      DerivesType n ts type := by
  constructor
  · intro h
    generalize htokens : var :: name :: colon :: (ts ++ [semicolon]) = us at h
    generalize hstmt : Stmt.declaration name.lexeme false (.typed type) = stmt at h
    cases h with
    | declaration _ _ htype hvalue =>
      injection hstmt with _ _ hbinding
      subst hbinding
      cases hvalue
      cases htype with
      | some _ htype =>
        simp only [List.cons_append, List.cons.injEq] at htokens
        obtain ⟨-, -, -, htokens⟩ := htokens
        obtain ⟨rfl, -⟩ := List.append_inj' htokens rfl
        exact htype
    | _ => cases hstmt
  · intro h
    have hannotation : DerivesAnnotation n (colon :: ts) (Binding.typed type).type? := .some hcolon h
    exact .declaration hvar hname hannotation .none hsemicolon nofun

/-- A property is written by its type, between the colon and the semicolon. -/
theorem derivesProperty_iff {name : Token} (hname : name.kind = .identifier)
    (hcolon : colon.kind = .mark .colon) (hsemicolon : semicolon.kind = .mark .semicolon) :
    DerivesProperty n (name :: colon :: (ts ++ [semicolon])) ⟨name.lexeme, type⟩ ↔ DerivesType n ts type := by
  constructor
  · intro h
    generalize htokens : name :: colon :: (ts ++ [semicolon]) = us at h
    generalize hproperty : Property.mk name.lexeme type = property at h
    cases h with
    | mk _ _ htype =>
      injection hproperty with _ htypes
      subst htypes
      simp only [List.cons.injEq] at htokens
      obtain ⟨-, -, htokens⟩ := htokens
      obtain ⟨rfl, -⟩ := List.append_inj' htokens rfl
      exact htype
  · intro h
    exact .mk hname hcolon h hsemicolon

/-- An object type with one property is written by the property, between the braces. -/
theorem derivesStmt_object_iff {obj name opening closing : Token} {property : Property}
    (hobj : obj.kind = .word .obj) (hname : name.kind = .identifier) (ho : opening.kind = .mark .openCurly)
    (hc : closing.kind = .mark .closeCurly) :
    DerivesStmt n (obj :: name :: opening :: (ts ++ [closing])) (.object name.lexeme [property]) ↔
      DerivesProperty n ts property := by
  constructor
  · intro h
    generalize htokens : obj :: name :: opening :: (ts ++ [closing]) = us at h
    generalize hstmt : Stmt.object name.lexeme [property] = stmt at h
    cases h with
    | object _ _ _ _ hitems =>
      injection hstmt with _ hproperties
      obtain ⟨item, rfl, rfl⟩ := List.map_eq_singleton_iff.1 hproperties.symm
      simp only [List.cons.injEq] at htokens
      obtain ⟨-, -, -, htokens⟩ := htokens
      obtain ⟨rfl, -⟩ := List.append_inj' htokens rfl
      rw [List.flatMap_singleton]
      exact hitems item List.mem_cons_self
    | _ => cases hstmt
  · intro h
    have hobject : DerivesStmt n
        (obj :: name :: opening :: ([(ts, property)].flatMap Prod.fst ++ [closing]))
        (.object name.lexeme ([(ts, property)].map Prod.snd)) :=
      .object hobj hname ho hc (List.forall_mem_singleton.2 h) (by simp)
    rwa [List.flatMap_singleton] at hobject

end

/-- Tokens before an end token are read as a type exactly when the grammar derives that type from them. -/
theorem parseType_eq_ok_iff_derivesType {ts : List Token} {ending : Token} {type : TypeRef}
    (hts : ∀ t ∈ ts, t.kind ≠ .endOfInput) (hending : ending.kind = .endOfInput) :
    parseType (ts ++ [ending]) = .ok type ↔ DerivesType maxNesting ts type := by
  obtain ⟨s, hs, hrest, hclosed⟩ := Stream.ofTokens_append_end ts hending
  rw [parseType_of_ofTokens hs]
  constructor
  · intro h
    split at h
    · next type' s₁ hrun =>
      split at h
      · next hstop =>
        cases h
        obtain ⟨us, hpass, hderives⟩ := Parse.typeWithin_sound hclosed hrun
        obtain rfl : us = ts := eq_of_append_end hts hstop (hrest.symm.trans hpass.rest)
        exact hderives
      · cases h
    · cases h
    · cases h
  · intro h
    obtain ⟨s₁, hrun, hpass⟩ := h.reads (b := .lowest) hrest
    have hstop : s₁.current.kind = .endOfInput := by
      rw [Stream.current_of_rest (hpass.rest_eq hrest), hending]
    rw [hrun]
    exact if_pos hstop

/-- The three places of a type take the same types: tokens are a type on their own exactly if they are the
type of the declaration that they stand in, and exactly if they are the type of the property that they
stand in. -/
theorem parseType_eq_ok_iff_places {ts : List Token} (hts : ∀ t ∈ ts, t.kind ≠ .endOfInput)
    {var name obj object property colon semicolon opening closing ending : Token}
    (hvar : var.kind = .word .var) (hname : name.kind = .identifier) (hobj : obj.kind = .word .obj)
    (hobject : object.kind = .identifier) (hproperty : property.kind = .identifier)
    (hcolon : colon.kind = .mark .colon) (hsemicolon : semicolon.kind = .mark .semicolon)
    (ho : opening.kind = .mark .openCurly) (hc : closing.kind = .mark .closeCurly)
    (hending : ending.kind = .endOfInput) (type : TypeRef) :
    (parseType (ts ++ [ending]) = .ok type ↔
      parse (var :: name :: colon :: (ts ++ [semicolon, ending])) =
        .ok ⟨[.declaration name.lexeme false (.typed type)]⟩) ∧
    (parseType (ts ++ [ending]) = .ok type ↔
      parse (obj :: object :: opening :: property :: colon :: (ts ++ [semicolon, closing, ending])) =
        .ok ⟨[.object object.lexeme [⟨property.lexeme, type⟩]]⟩) := by
  rw [parseType_eq_ok_iff_derivesType hts hending]
  constructor
  · have hfree : ∀ t ∈ var :: name :: colon :: (ts ++ [semicolon]), t.kind ≠ .endOfInput := by
      simpa [or_imp, forall_and, hvar, hname, hcolon, hsemicolon] using hts
    have htokens : var :: name :: colon :: (ts ++ [semicolon, ending]) =
        var :: name :: colon :: (ts ++ [semicolon]) ++ [ending] := by simp
    rw [htokens, parse_eq_ok_singleton_iff hfree hending]
    exact (derivesStmt_typed_iff hvar hname hcolon hsemicolon).symm
  · have hfree : ∀ t ∈ obj :: object :: opening ::
        (property :: colon :: (ts ++ [semicolon]) ++ [closing]), t.kind ≠ .endOfInput := by
      simpa [or_imp, forall_and, hobj, hobject, ho, hproperty, hcolon, hsemicolon, hc] using hts
    have htokens : obj :: object :: opening :: property :: colon :: (ts ++ [semicolon, closing, ending]) =
        obj :: object :: opening :: (property :: colon :: (ts ++ [semicolon]) ++ [closing]) ++ [ending] := by
      simp
    rw [htokens, parse_eq_ok_singleton_iff hfree hending, derivesStmt_object_iff hobj hobject ho hc]
    exact (derivesProperty_iff hproperty hcolon hsemicolon).symm

/-- `grp<grp<int, 2>, 2>` is a type on its own, of a variable and of a property. -/
theorem parseType_eq_ok_iff_places_group :
    ∃ ts, ts = [⟨.word .grp, "grp"⟩, ⟨.mark .less, "<"⟩, ⟨.word .grp, "grp"⟩, ⟨.mark .less, "<"⟩,
        ⟨.identifier, "int"⟩, ⟨.mark .comma, ","⟩, ⟨.number, "2"⟩, ⟨.mark .greater, ">"⟩,
        ⟨.mark .comma, ","⟩, ⟨.number, "2"⟩, ⟨.mark .greater, ">"⟩] ∧
      parseType (ts ++ [.endOfInput]) = .ok (.group (.group (.named "int") 2) 2) ∧
      parse (⟨.word .var, "var"⟩ :: ⟨.identifier, "x"⟩ :: ⟨.mark .colon, ":"⟩ ::
          (ts ++ [⟨.mark .semicolon, ";"⟩, .endOfInput])) =
        .ok ⟨[.declaration "x" false (.typed (.group (.group (.named "int") 2) 2))]⟩ ∧
      parse (⟨.word .obj, "obj"⟩ :: ⟨.identifier, "P"⟩ :: ⟨.mark .openCurly, "\x7b"⟩ ::
          ⟨.identifier, "a"⟩ :: ⟨.mark .colon, ":"⟩ ::
          (ts ++ [⟨.mark .semicolon, ";"⟩, ⟨.mark .closeCurly, "\x7d"⟩, .endOfInput])) =
        .ok ⟨[.object "P" [⟨"a", .group (.group (.named "int") 2) 2⟩]]⟩ := by
  have two {n : Nat} : Derives (n + 1) .atom [⟨.number, "2"⟩] (.number ⟨false, 2 ^ 62, by decide⟩) :=
    .number rfl (by decide +kernel)
  have size : StatesSize (.number ⟨false, 2 ^ 62, by decide⟩) 2 :=
    ⟨_, 2, .number _, ⟨by decide, nofun, by decide +kernel⟩, by decide, by decide⟩
  have group {n : Nat} {ts : List Token} {element : TypeRef} (h : DerivesType (n + 1) ts element) :
      DerivesType (n + 2) (⟨.word .grp, "grp"⟩ :: ⟨.mark .less, "<"⟩ :: (ts ++
        ⟨.mark .comma, ","⟩ :: ([⟨.number, "2"⟩] ++ [⟨.mark .greater, ">"⟩]))) (.group element 2) :=
    .group rfl rfl h rfl (two.loosen (by decide)) rfl size
  have int : DerivesType 254 [⟨.identifier, "int"⟩] (.named "int") := .named rfl
  have htype := (@parseType_eq_ok_iff_derivesType _ .endOfInput _ (by decide) rfl).2 (group (group int))
  have hplaces {ts : List Token} (hts : ∀ t ∈ ts, t.kind ≠ .endOfInput) :=
    @parseType_eq_ok_iff_places ts hts ⟨.word .var, "var"⟩ ⟨.identifier, "x"⟩ ⟨.word .obj, "obj"⟩
      ⟨.identifier, "P"⟩ ⟨.identifier, "a"⟩ ⟨.mark .colon, ":"⟩ ⟨.mark .semicolon, ";"⟩
      ⟨.mark .openCurly, "\x7b"⟩ ⟨.mark .closeCurly, "\x7d"⟩ .endOfInput rfl rfl rfl rfl rfl rfl rfl rfl rfl rfl
      (.group (.group (.named "int") 2) 2)
  refine ⟨_, rfl, htype, ?_, ?_⟩
  · exact (hplaces (by decide)).1.1 htype
  · exact (hplaces (by decide)).2.1 htype

end ScriptFront
