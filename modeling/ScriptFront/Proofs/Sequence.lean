import ScriptFront.Parse.Program
import ScriptFront.Proofs.Run

/-!
# Items one after the other

The statements of a program or a block and the properties of an object are read by loops of one shape:
look at the token in front, be done if it ends the sequence, and otherwise read one more item
(`Parse.collect`). If the items read are those of a relation `R` between tokens and values, the loop
reads the sequences of `R` (`Parse.loop_collect_sound`, `Parse.loop_collect_reads`). Since an item may
depend on the ones before it, `R` is given those, the latest first.
-/

namespace ScriptFront

variable {α : Type}

/-- Each item is related to its tokens, given the items before it. -/
def Sequence (R : List α → List Token → α → Prop) : List α → List (List Token × α) → Prop
  | _, [] => True
  | before, item :: items => R before item.1 item.2 ∧ Sequence R (item.2 :: before) items

/-- A sequence in which no item depends on the ones before it. -/
theorem sequence_iff_forall {R : List Token → α → Prop} {before : List α}
    {items : List (List Token × α)} :
    Sequence (fun _ => R) before items ↔ ∀ item ∈ items, R item.1 item.2 := by
  induction items generalizing before with
  | nil => simp [Sequence]
  | cons item items ih => rw [Sequence, ih, List.forall_mem_cons]

namespace Parse

variable {s s' : Stream} {stop : Kind → Prop} [DecidablePred stop] {item : List α → Parse α}
  {R : List α → List Token → α → Prop} {before : List α}

/-- One round of reading a sequence up to a token that stops it. -/
def collect (stop : Kind → Prop) [DecidablePred stop] (item : List α → Parse α) (items : List α) :
    Parse (Round (List α)) := do
  if stop (← kind) then
    return .over items
  let next ← item items
  return .again (next :: items)

theorem untilBrace_eq (item : List α → Parse α) :
    untilBrace item = (do
      let items ← loop (collect (fun k => k = .endOfInput ∨ k = .mark .closeCurly) item) []
      let _ ← expect (.mark .closeCurly)
      return items.reverse) := rfl

theorem untilEnd_eq (stmt : Parse Stmt) :
    untilEnd stmt = (do
      let body ← loop (collect (· = .endOfInput) fun _ => stmt) []
      record (.parsed body.length)
      return ⟨body.reverse⟩) := rfl

/-- What one round does: nothing at a token that stops the sequence, and otherwise it reads an item. -/
theorem collect_cases {r : Round (List α)} (h : collect stop item before s = .done r s') :
    (stop s.current.kind ∧ r = .over before ∧ s' = s) ∨
    (¬ stop s.current.kind ∧ ∃ a, item before s = .done a s' ∧ r = .again (a :: before)) := by
  rw [collect, kind_bind] at h
  split at h
  · next hstop =>
    obtain ⟨rfl, rfl⟩ := pure_eq_done.1 h
    exact .inl ⟨hstop, rfl, rfl⟩
  · next hstop =>
    obtain ⟨a, s₁, ha, h⟩ := bind_eq_done.1 h
    obtain ⟨rfl, rfl⟩ := pure_eq_done.1 h
    exact .inr ⟨hstop, a, ha, rfl⟩

/-- What is read is a sequence, and the token after it stops it. -/
theorem loop_collect_sound
    (hitem : ∀ before s a s', s.Closed → ¬ stop s.current.kind → item before s = .done a s' →
      ∃ ts, s.Passes ts s' ∧ R before ts a)
    {r : List α} (hs : s.Closed) (h : loop (collect stop item) before s = .done r s') :
    ∃ items, s.Passes (items.flatMap Prod.fst) s' ∧ Sequence R before items ∧
      r = (items.map Prod.snd).reverse ++ before ∧ stop s'.current.kind := by
  revert hs
  refine loop_induct (fun before s hr => ?_) (fun before s before' s₁ hr ih => ?_) h
  · intro _
    obtain ⟨hstop, heq, rfl⟩ | ⟨-, a, -, heq⟩ := collect_cases hr
    · cases heq
      exact ⟨[], .refl s', trivial, rfl, hstop⟩
    · cases heq
  · intro hs
    obtain ⟨-, heq, -⟩ | ⟨hstop, a, ha, heq⟩ := collect_cases hr
    · cases heq
    · cases heq
      obtain ⟨ts, hpass, hR⟩ := hitem before s a s₁ hs hstop ha
      obtain ⟨items, hpass', hseq, rfl, hstop'⟩ := ih (hpass.closed hs)
      exact ⟨(ts, a) :: items, by simpa using hpass.trans hpass', ⟨hR, hseq⟩, by simp, hstop'⟩

/-- A sequence is read item by item, whatever follows it, and the loop goes on from there. -/
theorem loop_collect_eq {items : List (List Token × α)} {us : List Token}
    (hitem : ∀ before ts a s k rest, R before ts a → s.rest = ts ++ k :: rest →
      (item before).Reads s ts a)
    (hhead : ∀ before ts a, R before ts a → ∃ t ts', ts = t :: ts' ∧ ¬ stop t.kind)
    (hseq : Sequence R before items) (hs : s.rest = items.flatMap Prod.fst ++ us) (hus : us ≠ []) :
    ∃ s', loop (collect stop item) before s =
        loop (collect stop item) ((items.map Prod.snd).reverse ++ before) s' ∧
      s.Passes (items.flatMap Prod.fst) s' := by
  induction items generalizing s before with
  | nil => exact ⟨s, rfl, .refl s⟩
  | cons head items ih =>
    obtain ⟨ts, a⟩ := head
    obtain ⟨hR, hseq⟩ := hseq
    obtain ⟨t, ts', rfl, hstop⟩ := hhead before ts a hR
    have hs : s.rest = t :: (ts' ++ (items.flatMap Prod.fst ++ us)) := by simp [hs]
    have hne : items.flatMap Prod.fst ++ us ≠ [] := by simp [hus]
    obtain ⟨k, rest, hk⟩ := List.exists_cons_of_ne_nil hne
    obtain ⟨s₁, ha, hpass⟩ := hitem before (t :: ts') a s k rest hR (by rw [hs, hk]; rfl)
    have hround : collect stop item before s = .done (.again (a :: before)) s₁ := by
      rw [collect, kind_bind, if_neg (by rwa [Stream.current_of_rest hs]), bind_done ha]
      rfl
    obtain ⟨s₂, heq, hpass'⟩ := ih hseq (hpass.rest_eq hs)
    refine ⟨s₂, ?_, ?_⟩
    · rw [loop_again hround (hpass.remaining_lt (List.cons_ne_nil t ts')), heq]
      simp
    · simpa using hpass.trans hpass'

/-- A sequence is read up to a token that stops it. -/
theorem loop_collect_reads {items : List (List Token × α)} {k : Token} {rest : List Token}
    (hitem : ∀ before ts a s k rest, R before ts a → s.rest = ts ++ k :: rest →
      (item before).Reads s ts a)
    (hhead : ∀ before ts a, R before ts a → ∃ t ts', ts = t :: ts' ∧ ¬ stop t.kind)
    (hseq : Sequence R before items) (hs : s.rest = items.flatMap Prod.fst ++ k :: rest)
    (hk : stop k.kind) :
    (loop (collect stop item) before).Reads s (items.flatMap Prod.fst)
      ((items.map Prod.snd).reverse ++ before) := by
  obtain ⟨s', heq, hpass⟩ := loop_collect_eq hitem hhead hseq hs (List.cons_ne_nil k rest)
  refine ⟨s', ?_, hpass⟩
  rw [heq]
  apply loop_over
  rw [collect, kind_bind, if_pos (by rwa [Stream.current_of_rest (hpass.rest_eq hs)])]
  rfl

end Parse

end ScriptFront
