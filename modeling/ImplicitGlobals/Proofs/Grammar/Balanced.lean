import ImplicitGlobals.Grammar.Balanced
import ImplicitGlobals.Proofs.Grammar.Building

/-!
# Balanced runs come back

A run holds the brackets that it has opened. All of them lie behind the floor and
in front of the cursor, since nothing is found missing within a run, so the one
that is reported in the end may be reported.
-/

namespace ImplicitGlobals.Grammar

variable {c d : Cursor}

/-! ### Boundaries -/

theorem nextIs_tests (kind : TokenKind) : Tests 1 (nextIs kind) := ⟨_, nextIs_asks kind⟩

/-- What is made of the kind of the next word. -/
theorem next_tests {f : Option TokenKind → Bool} : Tests 1 (do return f (← kindAt 1)) :=
  Tests.bind (n := 0) ⟨_, kindAt_asks 1⟩ fun k => .pure (f k)

/-- Whether a statement begins here is looked up. -/
theorem atStatementStart_tests : Tests 3 atStatementStart := by
  refine Tests.bind (m := 1) (n := 2) ⟨_, current_asks⟩ fun k => ?_
  refine (Tests.ite (m := 0) (n := 2) (.pure false) ?_).weaken (by decide)
  refine Tests.bind (m := 1) (n := 1) ⟨_, currentText_asks⟩ fun text => ?_
  have answer (b : Bool) : Tests 1 (Pure.pure b) := (Tests.pure b).weaken (Nat.zero_le 1)
  cases Keyword.ofWord? text with
  | none => exact answer false
  | some k =>
    cases k with
    | kwAbstract => exact ⟨_, nthIsWord_asks 1 "class"⟩
    | kwGlobal => exact nextIs_tests .braceOpen
    | kwExport => exact answer true
    | kwVar | kwLet | kwConst | kwFunction | kwModule | kwImport => exact next_tests
    | kwDeclare | kwInterface | kwEnum | kwType | kwNamespace | kwClass => exact nextIs_tests .ident
    | kwDefault | kwFrom | kwAs | kwExtends | kwImplements | kwRequire => exact answer false

theorem expectSemicolon_later : Later ⟨3, some 3, some 2, 3⟩ expectSemicolon := by
  have ends : Asks 1 (atEnd <||> currentIs .braceClose <||> onFreshLine) _ :=
    atEnd_asks.or ((currentIs_asks .braceClose).or onFreshLine_asks)
  have done : Later .free (pure () : Rule Unit) := .ofSafe (.pure ())
  apply Later.weaken
  · apply (Later.ofSafe (eat_safe .semicolon)).branch done
    exact (Later.ofSafe ends.safe).branch done errorNoSemicolon_later
  · decide

/-! ### Runs -/

namespace Held

theorem alike {stack : List Opener} (h : Held stack c) (same : Alike c d) : Held stack d :=
  h.keep same.floor (Nat.le_of_eq same.passed.symm)

/-- An opener that was just read is held as well. -/
theorem push {stack : List Opener} (h : Held stack c) (sound : c.Sound) (kind : TokenKind)
    (read : Advanced c d) : Held (⟨kind, c.passed⟩ :: stack) d := by
  have kept : Held stack d := h.keep read.floor (Nat.le_of_lt read.lt)
  intro o mem
  rcases List.mem_cons.1 mem with rfl | mem
  · rw [read.floor]
    exact ⟨sound.floor, read.lt⟩
  · exact kept o mem

end Held

/-- A round of a run. -/
abbrev Run.Round (c : Cursor) : Turn Run → Cursor → Prop :=
  Grammar.Round (fun r d => Held r.stack d) (fun r d => Held r.stack d) c

/-- The round that reads the current word and leaves the brackets as they are, or drops some. -/
theorem bumpRound_walks {kind : TokenKind} {stack below : List Opener} {consumed : Bool}
    (current : kindIn c.rest 0 = some kind) (held : Held stack c) (sub : below.Sublist stack) :
    Walks (.reads 2) (do bump; return .again ⟨below, consumed⟩) c (Run.Round c) := by
  apply Walks.weaken
  · apply (bump_walks current).bind
    intro _ d _ read
    exact .pure ⟨read.lt, (held.sublist sub).keep read.floor (Nat.le_of_lt read.lt)⟩
  · decide

/-- An opening bracket is read and held. -/
theorem openBracket_walks {kind : TokenKind} {stack : List Opener}
    (current : kindIn c.rest 0 = some kind) (held : Held stack c) :
    Walks (.reads 3) (openBracket kind stack) c (Run.Round c) := by
  refine .ofSound fun sound => ?_
  apply Walks.weaken
  · apply (mark_walks c).bind
    rintro _ d _ ⟨rfl, looked⟩
    apply (bump_walks (looked.rest ▸ current)).bind
    intro _ e _ read
    have whole := looked.toAlike.advanced read
    exact .pure ⟨whole.lt, held.push sound kind whole⟩
  · decide

/-- The current word does not fit: it is complained of and read. -/
theorem strayRound_walks {kind : DiagnosticKind} {r : Run} (left : c.rest ≠ [])
    (stray : kind.isMissing = false) (held : Held r.stack c) :
    Walks ⟨5, some 3, some 0, 5⟩ (do errorAndBump kind (← currentText); return .again r) c
      (Run.Round c) := by
  apply Walks.weaken
  · apply currentText_asks.walksOn
    intro d looked
    apply (errorAndBump_walks kind _ d).bind
    intro _ e _ post
    have read : c.passed < e.passed := looked.passed ▸ post.2 (looked.rest ▸ left)
    exact .pure ⟨read, held.keep ((post.1 stray).trans looked.toAlike.floor) (Nat.le_of_lt read)⟩
  · decide

/-- Garbage is complained of and read as an error. -/
theorem garbageRound_walks {r : Run} (left : c.rest ≠ []) (held : Held r.stack c) :
    Walks ⟨5, some 3, some 0, 5⟩ (do error .invalidCharacter; bumpAsError; return .again r) c
      (Run.Round c) := by
  apply Walks.weaken
  · apply (error_walks .invalidCharacter c).bind
    intro _ d _ complained
    apply (bumpAsError_walks d).bind
    intro _ e _ post
    have read : c.passed < e.passed := complained.passed ▸ post.2 (complained.rest ▸ left)
    exact .pure ⟨read, held.keep (post.1.trans (complained.floor rfl)) (Nat.le_of_lt read)⟩
  · decide

/-- A closing bracket is read, or complained of as stray. -/
theorem closeBracket_walks {kind : TokenKind} {r : Run} (current : kindIn c.rest 0 = some kind)
    (held : Held r.stack c) : Walks ⟨5, some 3, some 0, 5⟩ (closeBracket kind r) c (Run.Round c) := by
  have top : Held (dropAngles r.stack) c := held.sublist (List.dropWhile_sublist _)
  unfold closeBracket
  cases open? : dropAngles r.stack with
  | nil => exact Walks.weaken (.pure (.nil c)) (by decide)
  | cons o below =>
    rw [open?] at top
    apply Walks.weaken
    · apply Walks.ite
      · exact fun _ => bumpRound_walks current top (List.sublist_cons_self o below)
      · exact fun _ => strayRound_walks (r := ⟨o :: below, true⟩) (ne_nil_of_kindIn current) rfl top
    · decide

/-- Where a run may end is only looked up. -/
theorem runEnds_tests (stop : KindSet) (mode : RunMode) (consumed : Bool) (kind : Option TokenKind) :
    Tests 3 (runEnds stop mode consumed kind) := by
  have boundary : Tests 3 (pure (mode.boundary && consumed) <&&> atStatementStart) := by
    obtain ⟨v, asks⟩ := atStatementStart_tests
    exact ⟨_, (Asks.pure _).and asks⟩
  exact (Tests.ite (.pure true) (.ite (.pure true) boundary)).weaken (by decide)

/-- One word of a run, whatever its kind. -/
theorem runWord_walks {kind : TokenKind} (mode : RunMode) {r : Run}
    (current : kindIn c.rest 0 = some kind) (held : Held r.stack c) :
    Walks ⟨5, some 3, some 0, 5⟩ (runWord mode r (some kind)) c (Run.Round c) := by
  have same : Walks ⟨5, some 3, some 0, 5⟩ (do bump; return .again ⟨r.stack, true⟩) c (Run.Round c) :=
    (bumpRound_walks current held (List.Sublist.refl _)).weaken (by decide)
  cases kind with
  | parenOpen | bracketOpen | braceOpen =>
    exact (openBracket_walks current held).weaken (by decide)
  | parenClose | bracketClose | braceClose =>
    exact closeBracket_walks current held
  | garbage => exact garbageRound_walks (ne_nil_of_kindIn current) held
  | angleOpen =>
    exact Walks.weaken (.ite (fun _ => openBracket_walks current held) fun _ => same) (by decide)
  | angleClose =>
    refine (bumpRound_walks current held ?_).weaken (by decide)
    split
    · exact List.tail_sublist _
    · exact List.Sublist.refl _
  | _ => exact same

/-- One turn of a run holds the brackets it opened. -/
theorem runTurn_walks (stop : KindSet) (mode : RunMode) (r : Run) (held : Held r.stack c) :
    Walks ⟨9, some 7, some 0, 9⟩ (runTurn stop mode r) c (Run.Round c) := by
  have ends (kind : Option TokenKind) :
      Tests 3 (pure r.stack.isEmpty <&&> runEnds stop mode r.consumed kind) := by
    obtain ⟨v, asks⟩ := runEnds_tests stop mode r.consumed kind
    exact ⟨_, (Asks.pure _).and asks⟩
  apply Walks.weaken
  · apply (atEnd_asks.walks c).branch
    · exact fun d _ asked => .pure (held.alike asked.2.toAlike)
    intro d _ asked
    apply current_asks.walksOn
    intro e looked
    apply ((ends (kindIn d.rest 0)).walks e).branch
    · exact fun f _ looked' =>
        .pure (held.alike ((asked.2.toAlike.trans looked.toAlike).trans looked'.toAlike))
    intro f _ looked'
    have same : Alike c f := (asked.2.toAlike.trans looked.toAlike).trans looked'.toAlike
    obtain ⟨w, ws, rest, -⟩ := exists_of_not_atEnd asked.1
    have here : kindIn c.rest 0 = some w.kind := by
      rw [rest]
      rfl
    rw [asked.2.rest, here]
    apply (runWord_walks mode (same.rest ▸ here) (held.alike same)).imp
    exact fun _ _ _ => Round.alike same
  · decide

theorem isUnclosed_unclosedKind (kind : TokenKind) : (unclosedKind kind).isUnclosed = true := by
  unfold unclosedKind
  split <;> rfl

/-- What is reported as open is held. -/
theorem reportOpen_safe {stack : List Opener} (held : Held stack c) :
    Walks (.looks 1) (reportOpen stack) c fun _ _ => True := by
  have report {kind : DiagnosticKind} {o : Opener} (isUnclosed : kind.isUnclosed) (mem : o ∈ stack) :
      Walks (.looks 1) (errorUnclosed kind "opened here" o.word) c fun _ _ => True :=
    (errorUnclosed_walks isUnclosed (held o mem).1 (held o mem).2).back
  unfold reportOpen
  split
  · next found => exact report (isUnclosed_unclosedKind _) (List.mem_of_find?_eq_some found)
  · exact report rfl List.mem_cons_self
  · exact Walks.weaken (.pure trivial) (by decide)

/-- A run gets on wherever it is entered. -/
theorem balanced_safe (stop : KindSet) (mode : RunMode) :
    Safe ⟨9, some 8, some 8, 9⟩ (balanced stop mode) := by
  intro c
  apply Walks.weaken
  · have run := loop_walks (I := fun r d => Held r.stack d) (E := fun r d => Held r.stack d) (s := {})
      (.nil c) fun r d held => runTurn_walks stop mode r held
    apply run.bind
    intro r d _ held
    apply (reportOpen_safe held).bind
    exact fun _ _ _ _ => .pure trivial
  · decide

/-! ### Parts built from runs -/

/-- A run, or a complaint that it had no word. -/
theorem balancedOr_safe (stop : KindSet) (mode : RunMode) (kind : DiagnosticKind) :
    Safe ⟨9, some 9, some 9, 9⟩ (do if !(← balanced stop mode) then error kind) := by
  apply Safe.weaken
  · apply (balanced_safe stop mode).bind
    exact fun _ => .ite (error_safe kind) (.pure ())
  · decide

/-- A name is read, or its absence is complained of. -/
theorem nameRule_walks (c : Cursor) : Walks ⟨3, some 2, some 0, 3⟩ nameRule c fun _ d =>
    Gains (·.isNode .name) c d := by
  apply Walks.weaken
  · apply (currentIs_walks .ident c).branch
    · intro d toD asked
      have here : kindIn d.rest 0 = some .ident := asked.2.1.rest ▸ eq_of_beq asked.1.symm
      exact (name_walks asked.2.2 here).imp fun _ e _ post => post.1.before toD
    · intro d _ _
      exact (error_walks .expectedName d).imp fun _ e _ complained clean => absurd clean complained.noted
  · decide

/-- A name is read or complained of. -/
theorem nameRule_safe : Safe ⟨3, some 2, some 0, 3⟩ nameRule := fun c => (nameRule_walks c).back

/-- A type is read or complained of. -/
theorem typeExpr_safe (stop : KindSet) : Safe ⟨9, some 9, some 9, 9⟩ (typeExpr stop) :=
  node_safe (by decide) (balancedOr_safe stop .type .expectedType)

/-- A word that announces what comes behind it. -/
theorem announced_safe {kind : TokenKind} {k : Cost} {node : NodeKind} {body : Rule Unit}
    (any : node.holdsAny) (h : Safe k body) :
    SafeAt kind ((Cost.looks 1).seq ((Cost.reads 2).seq k)) (do
      assertAt kind
      Grammar.node node do
        bump
        body) := by
  intro c current
  refine (assertAt_walks current).bind fun _ d _ looked => ?_
  exact (node_reads any fun e alike => (bump_reads (alike.rest ▸ looked.rest ▸ current)).bind fun _ => h).back

theorem typeAscription_safe (stop : KindSet) :
    SafeAt .colon ⟨3, none, some 9, 11⟩ (typeAscription stop) := by
  intro c current
  apply Walks.weaken
  · exact announced_safe (by decide) (typeExpr_safe stop) c current
  · decide

theorem initializer_safe (stop : KindSet) :
    SafeAt .equals ⟨3, none, some 9, 11⟩ (initializer stop) := by
  intro c current
  apply Walks.weaken
  · exact announced_safe (by decide) (balancedOr_safe stop .expression .expectedExpression) c current
  · decide

theorem bodyTurn_turns (n : Nat) : Turns n ⟨14, some 12, some 12, 14⟩ bodyTurn := by
  intro c _
  apply Walks.weaken
  · apply (balanced_safe .empty .body c).bind
    intro _ d walk _
    apply current_asks.walksOn
    intro e looked
    apply atEnd_asks.walksOn
    intro f looked'
    apply Walks.ite
    · exact fun _ => .pure nofun
    intro going
    have left : f.rest ≠ [] := by
      intro none
      rw [looked'.rest] at none
      simp [none] at going
    have whole := (walk.trans looked.walk).trans looked'.walk
    apply currentText_asks.walksOn
    intro g looked''
    apply (errorAndBump_further .mismatchedDelimiter _ looked''.walk left).bind
    exact fun _ _ _ read => .pure fun _ => Nat.lt_of_le_of_lt whole.frame.passed_le read
  · decide

/-- Braces around a body, or a complaint that there are none. -/
theorem bracedBody_safe {kind : NodeKind} (any : kind.holdsAny) :
    Safe ⟨5, some 2, some 26, 27⟩ (bracedBody kind) := by
  intro c
  apply Walks.weaken
  · apply (currentIs_asks .braceOpen).walksOn
    intro d looked
    apply Walks.ite
    · exact fun _ => ((errorWith_safe _ _).bind fun _ => .pure ()) d
    · intro brace
      have here : kindIn d.rest 0 = some .braceOpen := looked.rest ▸ by simpa using brace
      exact (delimitedNode_reads any here rfl (bodyTurn_turns _)).back
  · decide

end ImplicitGlobals.Grammar
