import ImplicitGlobals.Proofs.Setting.Statements

/-!
# Sources in a setting

A source is its statements, one after the other, and then the gap behind the last one. All of
them go into the one node of the source.
-/

namespace ImplicitGlobals.Grammar

variable {S : Setting} {s : Ending} {p : Entry}

/-- Where no words follow, a rule ends as it does by itself. -/
theorem Setting.Follows.whole {α β : Type} {φ : α → β} {r : Rule α} {r' : Rule β}
    (h : S.Follows .loose p φ r r') (none : S.behind = []) : S.Follows s p φ r r' where
  onward := h.onward
  twin := fun c c' twin live entry => (h.twin c c' twin live entry).imp fun _ _ next =>
    next.imp fun _ _ ends settled => (ends settled).whole none

/-- The last statement may end behind the last word. -/
theorem sourceTurn_follows : S.Follows .final .any id sourceTurn sourceTurn := by
  refine atEnd_follows.choose (.pure rfl) ?_
  exact (bind_pure_comp (fun _ => true) statement).symm ▸ statement_follows.map fun _ => rfl

/-- At most `n` statements, up to the end. -/
def statements (n : Nat) : Rule Unit := rounds (fun _ => do
  if ← sourceTurn then return .again ()
  return .done ()) n ()

theorem statements_follows (none : S.behind = []) (n m : Nat) :
    S.Follows .firm .any id (statements n) (statements m) := by
  refine rounds_follows (φ := id) (by decide) (fun _ => ?_) n m ()
  refine (sourceTurn_follows.loosen.whole none).bind fun b => ?_
  cases b <;> exact .pure rfl

theorem statements_onward (n : Nat) (c : Cursor) : Yields (statements n) c fun _ d => Onward c d :=
  (statements_follows (S := .alone) rfl n n).onward c

/-- The cursor before the first statement of a source. -/
def Cursor.opening (budget : Budget) (words : List Word) : Cursor :=
  (Cursor.start budget words).openNode .sourceFile 0

/-- A source is read statement by statement. -/
theorem source_yields (budget : Budget) (words : List Word) :
    Yields source (.start budget words) fun _ c => ∃ n e,
      (statements n).run (.opening budget words) = .ok ((), e) ∧
      c.parts.toList = [.node .sourceFile e.skipGap.placeGap.parts.toList] ∧
      c.passed = e.passed ∧ c.complaints = e.complaints ∧ c.lastPlace = e.lastPlace ∧
      c.refused = e.refused := by
  let Q (d : Cursor) : Prop := ∃ n e,
    (statements n).run (.opening budget words) = .ok ((), e) ∧ d = e.skipGap.placeGap
  have body : Yields (do repeatWhile sourceTurn; skipAndPlaceGap) (.opening budget words)
      fun _ d => Q d := by
    refine Yields.bind
      (P := fun _ e => (repeatWhile sourceTurn).run (.opening budget words) = .ok ((), e))
      (fun _ _ run => run) fun _ e run => ?_
    exact (skipAndPlaceGap_yields e).imp fun _ _ settled => ⟨_, e, run, settled⟩
  refine (node_yields (c := .start budget words) body).bind fun _ d closed => .modify ?_
  obtain ⟨_, o, os, ⟨n, e, run, rfl⟩, top, rfl⟩ := closed
  have opened : e.opened = [⟨.sourceFile, 0⟩] := (statements_onward n _ _ e run).opened
  obtain ⟨rfl, -⟩ := List.cons.inj (top.symm.trans opened)
  refine ⟨n, e, run, ?_, rfl, rfl, rfl, rfl⟩
  have placed : e.gap.skipped.settled = .placed := by cases e.gap <;> rfl
  rw [Cursor.toList_parts_placeGap, Cursor.toList_parts_closeNode]
  simp [Cursor.closeNode, Cursor.placeGap, Cursor.skipGap, placed, Gap.due]

/-! ### Statement after statement -/

/-- A statement is read if the end is not reached. -/
theorem sourceTurn_yields (c : Cursor) : Yields sourceTurn c fun more d =>
    more = !(c.rest.isEmpty || c.refused.isSome) ∧ (more = false → d = c.skipGap) := by
  have ended : Yields atEnd c fun b d =>
      d = c.skipGap ∧ b = (c.rest.isEmpty || c.refused.isSome) := by
    intro b d run
    cases run
    exact ⟨rfl, rfl⟩
  refine ended.bind fun b d asked => ?_
  rw [← asked.2]
  refine .ite (fun stops => .pure ⟨by rw [stops]; rfl, fun _ => asked.1⟩) fun goes => ?_
  refine Yields.bind (P := fun _ _ => True) (fun _ _ _ => trivial) fun _ _ _ => .pure ⟨?_, nofun⟩
  rw [eq_false_of_ne_true goes]
  rfl

/-- The statements of a source are none, or one and then those behind it. -/
theorem statements_cases {n : Nat} {c e : Cursor} (run : (statements n).run c = .ok ((), e)) :
    sourceTurn.run c = .ok (false, e) ∨
      ∃ m d, n = m + 1 ∧ sourceTurn.run c = .ok (true, d) ∧ (statements m).run d = .ok ((), e) := by
  cases n with
  | zero => cases run
  | succ m =>
    obtain ⟨_, d, round, rest⟩ := run_bind_eq_ok run
    obtain ⟨more, d', turn, next⟩ := run_bind_eq_ok round
    cases more with
    | false =>
      cases next
      cases rest
      exact .inl turn
    | true =>
      cases next
      exact .inr ⟨m, d, rfl, turn, rest⟩

/-- Where no words are left, no statement is read. -/
theorem eq_skipGap_of_statements {n : Nat} {c e : Cursor} (none : c.rest = [])
    (run : (statements n).run c = .ok ((), e)) : e = c.skipGap := by
  rcases statements_cases run with turn | ⟨_, d, -, turn, -⟩
  · exact (sourceTurn_yields c false e turn).2 rfl
  · have more := (sourceTurn_yields c true d turn).1
    simp [none] at more

/-- Where the statements of one source end, those of the next one begin: until then the run over
both did what the run over the first did, and nothing was looked at behind it. -/
theorem exists_seam (behind : S.behind ≠ []) {n m : Nat} {c c' e e' : Cursor} (twin : S.Twin c c')
    (here : Sealed c.rest ∨ c.rest = [] ∧ c.gap = .ahead) (run : (statements n).run c = .ok ((), e))
    (tidy : e.Tidy) (run' : (statements m).run c' = .ok ((), e')) :
    ∃ k d d', S.Twin d d' ∧ Onward c d ∧ d.rest = [] ∧ d.gap = .ahead ∧ e = d.skipGap ∧
      (statements k).run d' = .ok ((), e') := by
  induction n generalizing m c c' with
  | zero => cases run
  | succ n ih =>
    rcases here with ends | ⟨none, ahead⟩
    · rcases statements_cases run with turn | ⟨_, d, eq, turn, rest⟩
      · -- a semicolon is still to come
        obtain ⟨stops, stays⟩ := sourceTurn_yields c false e turn
        have kept : c.refused = none := by
          rw [stays rfl] at tidy
          exact tidy.refused
        simp [kept, ends.ne_nil] at stops
      · obtain rfl := Nat.succ.inj eq
        have clean : S.Settled d := .inr ((statements_onward _ d _ e rest).tidy tidy)
        have next := sourceTurn_follows.twin c c' twin (.inr ends) trivial true d turn
        rcases statements_cases run' with turn' | ⟨_, d', -, turn', rest'⟩
        · cases (next false e' turn' clean).2.2
        · obtain ⟨twin', here', -⟩ := next true d' turn' clean
          obtain ⟨k, f, f', twins, onward, seam⟩ :=
            ih twin' (here'.imp (·.resolve_left behind) id) rest rest'
          have first := (sourceTurn_follows (S := S)).onward c true d turn
          exact ⟨k, f, f', twins, first.trans onward, seam⟩
    · exact ⟨m, c, c', twin, .refl c, none, ahead, eq_skipGap_of_statements none run, run'⟩

/-- What is put into the parts at a twin. -/
theorem Setting.Twin.expandAll {c c' : Cursor} {β : Type} (h : S.Twin c c') (g : Slot → List β) :
    Tree.expandAll g c'.parts.toList =
      Tree.expandAll g S.parts ++ Tree.expandAll (fun a => g (a.shift S.words)) c.parts.toList := by
  rw [h.parts, Tree.expandAll_append, Tree.expandAll_map]

theorem Setting.Twin.tidy {c c' : Cursor} (h : S.Twin c c') (tidy : c.Tidy) : c'.Tidy where
  complaints := by rw [h.complaints, tidy.complaints, List.map_nil]
  lastPlace := by rw [h.lastPlace, tidy.lastPlace, Option.map_none]
  refused := h.refused.trans tidy.refused

/-- The words are the same, but the first one may begin a line in one list only. -/
def Abreast (ws vs : List Word) : Prop :=
  vs = ws ∨ ∃ w more fresh, ws = w :: more ∧ vs = { w with freshLine := fresh } :: more

/-- A gap with nothing in it adds nothing. -/
theorem expandAll_settled {β : Type} {g : Slot → List β} (gaps : ∀ i, g (.gap i) = [])
    (c : Cursor) :
    Tree.expandAll g c.skipGap.placeGap.parts.toList = Tree.expandAll g c.parts.toList := by
  have due (gap : Gap) (i : Nat) : Tree.expandAll g (gap.due i).toList = [] := by
    unfold Gap.due
    split <;> simp [Tree.expandAll, Tree.expand, gaps]
  rw [Cursor.toList_parts_placeGap, Tree.expandAll_append, due, List.append_nil]
  rfl

/-- At a seam nothing is open, held or spent: the words behind it are read as they are by
themselves. -/
theorem Setting.Twin.atRest {ws₁ ws₂ vs : List Word} {d d' : Cursor}
    (seam : Setting.Twin ⟨0, [], vs⟩ d d')
    (abreast : Abreast ws₂ vs) (onward : Onward (.opening {} ws₁) d) (none : d.rest = [])
    (ahead : d.gap = .ahead) (tidy : d.Tidy) :
    Setting.Twin ⟨d.passed, d'.parts.toList, []⟩ (.opening {} ws₂) d' where
  rest := by
    have rest : d'.rest = vs := by
      rcases seam.rest with same | ⟨-, w, ws, _, some, -⟩
      · rw [same, none, List.nil_append]
      · cases none.symm.trans some
    rw [rest]
    rcases abreast with same | ⟨w, more, fresh, first, second⟩
    · exact .inl (same.trans (List.append_nil _).symm)
    · exact .inr ⟨rfl, w, more, fresh, first, second.trans (by rw [List.append_nil])⟩
  passed := by
    rw [seam.passed]
    exact Nat.add_comm ..
  gap := seam.gap.trans ahead
  openers := by
    rw [seam.openers, onward.openers]
    rfl
  budget := seam.budget.trans (onward.unbounded rfl)
  depth := .inl rfl
  refused := (seam.tidy tidy).refused
  lastPlace := (seam.tidy tidy).lastPlace
  complaints := (seam.tidy tidy).complaints
  parts := (List.append_nil _).symm
  opened := by
    rw [seam.opened, onward.opened]
    rfl

section

variable {ws₁ ws₂ vs : List Word} {n₁ n₂ n : Nat} {e₁ e₂ e : Cursor}

/-- Words of which all statements are read without complaint, and behind a semicolon others of
which that is true: over both lists, the statements are those of the first and then those of the
second one. -/
theorem statements_append (ends : ws₁ = [] ∨ Sealed ws₁) (abreast : Abreast ws₂ vs)
    (run₁ : (statements n₁).run (.opening {} ws₁) = .ok ((), e₁)) (tidy₁ : e₁.Tidy)
    (run₂ : (statements n₂).run (.opening {} ws₂) = .ok ((), e₂)) (tidy₂ : e₂.Tidy)
    (run : (statements n).run (.opening {} (ws₁ ++ vs)) = .ok ((), e)) :
    e.Tidy ∧ ∀ {β : Type} (g : Slot → List β), (∀ i, g (.gap i) = []) →
      Tree.expandAll g e.parts.toList = Tree.expandAll g e₁.parts.toList ++
        Tree.expandAll (fun a => g (a.shift e₁.passed)) e₂.parts.toList := by
  let S : Setting := ⟨0, [], vs⟩
  have begun : S.Twin (.opening {} ws₁) (.opening {} (ws₁ ++ vs)) :=
    ⟨.inl rfl, rfl, rfl, rfl, rfl, .inr rfl, rfl, rfl, rfl, rfl, rfl⟩
  have zero {β : Type} (g : Slot → List β) : (fun a : Slot => g (a.shift 0)) = g := by
    funext a
    cases a <;> rfl
  -- With nothing behind it the whole run is the first one, else it is cut at the seam.
  by_cases behind : vs = []
  · obtain rfl : ws₂ = [] := by
      rcases abreast with same | ⟨_, _, _, -, same⟩
      · exact same.symm.trans behind
      · cases behind.symm.trans same
    obtain rfl := eq_skipGap_of_statements rfl run₂
    obtain ⟨twin, -⟩ := (statements_follows behind n₁ n).twin _ _ begun (.inl behind) trivial
      () e₁ run₁ () e run (.inl behind)
    refine ⟨twin.tidy tidy₁, fun g _ => ?_⟩
    rw [twin.expandAll, zero]
    simp [S, Cursor.opening, Cursor.start, Cursor.openNode, Cursor.skipGap, Tree.expandAll]
  · have here : Sealed (Cursor.opening {} ws₁).rest ∨ (Cursor.opening {} ws₁).rest = [] ∧
        (Cursor.opening {} ws₁).gap = .ahead := ends.symm.imp id fun none => ⟨none, rfl⟩
    obtain ⟨k, d, d', seam, onward, none, ahead, rfl, run'⟩ :=
      exists_seam (S := S) behind begun here run₁ tidy₁ run
    -- The second half of the run is the run on `ws₂` alone, behind the parts already made.
    let T : Setting := ⟨d.passed, d'.parts.toList, []⟩
    have again : T.Twin (.opening {} ws₂) d' :=
      seam.atRest abreast onward none ahead ⟨tidy₁.complaints, tidy₁.lastPlace, tidy₁.refused⟩
    obtain ⟨twin, -⟩ := (statements_follows rfl n₂ k).twin _ _ again (.inl rfl) trivial
      () e₂ run₂ () e run' (.inl rfl)
    refine ⟨twin.tidy tidy₂, fun g _ => ?_⟩
    rw [twin.expandAll]
    show Tree.expandAll g d'.parts.toList ++ _ = _
    rw [seam.expandAll, zero]
    rfl

end

end ImplicitGlobals.Grammar
