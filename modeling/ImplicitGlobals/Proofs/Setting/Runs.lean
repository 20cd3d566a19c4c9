import ImplicitGlobals.Grammar.Balanced
import ImplicitGlobals.Proofs.Setting.Steps

/-!
# Balanced runs in a setting

The brackets of a run are shifted with the words. A run that stops at semicolons reads one only
in brackets, so where it comes to the end of the words it complains of those; any other run
may end there.
-/

namespace ImplicitGlobals

/-- Where a run that stops at the set may end. -/
def KindSet.ending (stop : KindSet) : Grammar.Ending :=
  if stop.holds .semicolon = true then .firm else .loose

namespace Grammar

variable {S : Setting} {s : Ending} {p : Entry} {stop : KindSet} {mode : RunMode} {c : Cursor}

/-! ### Rounds -/

/-- The run behind `n` more words. -/
def Run.shift (n : Nat) (r : Run) : Run := { r with stack := r.stack.map (Opener.shift n) }

/-- Dropping angles keeps the places of the others. -/
theorem dropAngles_shift (n : Nat) (stack : List Opener) :
    dropAngles (stack.map (Opener.shift n)) = (dropAngles stack).map (Opener.shift n) :=
  List.dropWhile_map ..

/-- Whether a run ends is told alike. -/
theorem runEnds_follows (consumed : Bool) (kind : Option TokenKind) :
    S.Follows .firm .any id (runEnds stop mode consumed kind)
      (runEnds stop mode consumed kind) := by
  refine .ite (fun _ => .pure rfl) fun _ => .ite (fun _ => .pure rfl) fun _ => ?_
  rw [and_eq_branch, pure_bind]
  exact .ite (fun _ => atStatementStart_follows) fun _ => .pure rfl

/-- A word that is passed, and the brackets that are open behind it. -/
theorem bumpRound_follows (r : Run) : S.Follows s .goesOn (Turn.map (Run.shift S.words))
    (do bump; return .again r) (do bump; return .again (r.shift S.words)) :=
  bump_follows.bind fun _ => .pure rfl

/-- An opening bracket is remembered at the place that corresponds. -/
theorem openBracket_follows (kind : TokenKind) (stack : List Opener) :
    S.Follows s .goesOn (Turn.map (Run.shift S.words)) (openBracket kind stack)
      (openBracket kind (stack.map (Opener.shift S.words))) := by
  refine mark_follows.bindTo (q := .goesOn) (fun c here => (mark_yields c).imp fun _ d post => ?_)
    fun i => bumpRound_follows ⟨⟨kind, i⟩ :: stack, true⟩
  obtain ⟨-, _, _, _, rfl⟩ := post
  exact here

/-- A word that is complained of and read. -/
theorem strayRound_follows {kind : DiagnosticKind} {text : String} (r : Run) :
    S.Follows s p (Turn.map (Run.shift S.words)) (do errorAndBump kind text; return .again r)
      (do errorAndBump kind text; return .again (r.shift S.words)) :=
  (errorAndBump_follows kind text).bind fun _ => .pure rfl

/-- A closing bracket takes the same one off in both places. -/
theorem closeBracket_follows (kind : TokenKind) (r : Run) :
    S.Follows s .goesOn (Turn.map (Run.shift S.words)) (closeBracket kind r)
      (closeBracket kind (r.shift S.words)) := by
  have dropped : dropAngles (r.shift S.words).stack = _ := dropAngles_shift S.words r.stack
  unfold closeBracket
  rw [dropped]
  cases dropAngles r.stack with
  | nil => exact .pure rfl
  | cons top below =>
    refine .ite (fun _ => bumpRound_follows ⟨below, true⟩) fun _ => ?_
    exact currentText_follows.bind fun text => strayRound_follows ⟨top :: below, true⟩

/-- Garbage is complained of alike. -/
theorem garbageRound_follows (r : Run) : S.Follows s p (Turn.map (Run.shift S.words))
    (do error .invalidCharacter; bumpAsError; return .again r)
    (do error .invalidCharacter; bumpAsError; return .again (r.shift S.words)) :=
  .behindError fun _ => bumpAsError_follows.bindLoose fun _ => .pure rfl

/-- What a run does at a word that is no semicolon. -/
theorem runWord_follows (mode : RunMode) (r : Run) (kind : Option TokenKind) :
    S.Follows s .goesOn (Turn.map (Run.shift S.words)) (runWord mode r kind)
      (runWord mode (r.shift S.words) kind) := by
  have same : S.Follows s .goesOn (Turn.map (Run.shift S.words))
    (do bump; return .again ⟨r.stack, true⟩)
    (do bump; return .again ⟨(r.shift S.words).stack, true⟩) := bumpRound_follows ⟨r.stack, true⟩
  cases kind with
  | none => exact same
  | some kind =>
    cases kind with
    | parenOpen | bracketOpen | braceOpen => exact openBracket_follows _ r.stack
    | parenClose | bracketClose | braceClose => exact closeBracket_follows _ r
    | garbage => exact garbageRound_follows ⟨r.stack, true⟩
    | angleOpen => exact .ite (fun _ => openBracket_follows _ r.stack) fun _ => same
    | angleClose =>
      refine bump_follows.bind fun _ => .pure ?_
      have top : (r.shift S.words).stack.head?.any (·.kind == .angleOpen) =
          r.stack.head?.any (·.kind == .angleOpen) := by
        cases stack : r.stack <;> simp [Run.shift, stack, Opener.shift]
      rw [top]
      split <;> simp [Turn.map, Run.shift, List.map_tail]
    | _ => exact same

/-! ### Whole runs -/

/-- What is left to do behind the last round of a run. -/
def Run.finish (r : Run) : Rule Bool := do
  reportOpen r.stack
  return r.consumed

/-- What is reported as open is the same bracket. -/
theorem reportOpen_follows (stack : List Opener) :
    S.Follows .firm .any id (reportOpen stack) (reportOpen (stack.map (Opener.shift S.words))) := by
  have found : (stack.map (Opener.shift S.words)).find? (·.kind != .angleOpen) =
      (stack.find? (·.kind != .angleOpen)).map (Opener.shift S.words) := List.find?_map ..
  unfold reportOpen
  rw [found]
  cases stack.find? (·.kind != .angleOpen) with
  | some o => exact errorUnclosed_follows ..
  | none =>
    cases stack with
    | nil => exact .pure rfl
    | cons o _ => exact errorUnclosed_follows ..

theorem finish_follows (r : Run) : S.Follows .firm .any id r.finish (r.shift S.words).finish :=
  (reportOpen_follows r.stack).bind fun _ => .pure rfl

/-- A bracket that is open at the end of the words stays open. -/
theorem rounds_spoilt {r : Run} (opened : r.stack ≠ []) (n : Nat) (none : c.rest = []) :
    Yields (rounds (runTurn stop mode) n r >>= Run.finish) c fun _ d => ¬d.Tidy := by
  cases n with
  | zero => exact (Yields.throw _).bind fun _ _ => id
  | succ n =>
    refine Yields.bind (P := fun x _ => x = r) ?_ fun x d eq => ?_
    · refine Yields.bind (P := fun t _ => t = .done r) ?_ fun t d eq => eq ▸ .pure rfl
      refine (atEnd_answers c).bind fun ends d asked => .ite (fun _ => .pure rfl) fun going => ?_
      simp [asked.1, none] at going
    · subst eq
      have spoils : Yields (reportOpen x.stack) d fun _ e => ¬e.Tidy := by
        unfold reportOpen
        split
        · exact complain_spoils _ d
        · exact complain_spoils _ d
        · exact absurd ‹_› opened
      exact spoils.bind fun _ _ untidy => .pure untidy

/-- Whether a run ends is asked without a step. -/
theorem stops_yields (r : Run) (kind : Option TokenKind) (c : Cursor) :
    Yields (pure r.stack.isEmpty <&&> runEnds stop mode r.consumed kind) c fun _ d => Same c d := by
  rw [and_eq_branch, pure_bind]
  exact .ite (fun _ => (runEnds_yields stop mode r.consumed kind c).imp fun _ _ post => post.2)
    fun _ => .pure (.refl c)

theorem stops_follows (r : Run) (kind : Option TokenKind) : S.Follows .firm p id
    (pure r.stack.isEmpty <&&> runEnds stop mode r.consumed kind)
      (pure (r.shift S.words).stack.isEmpty <&&>
        runEnds stop mode (r.shift S.words).consumed kind) := by
  have same : (r.shift S.words).stack.isEmpty = r.stack.isEmpty := List.isEmpty_map
  rw [and_eq_branch, and_eq_branch, pure_bind, pure_bind, same]
  exact .ite (fun _ => (runEnds_follows r.consumed kind).anywhere) fun _ => .pure rfl

/-- One round of a run, and what comes of it. A semicolon is passed in brackets only, or where
the run may come to the end of the words. -/
theorem runTurn_follows {next next' : Turn Run → Rule Bool} (reach : stop.ending = s) (r : Run)
    (done : ∀ r, S.Follows s .any id (next (.done r)) (next' (.done (r.shift S.words))))
    (again : ∀ r, S.Follows s .any id (next (.again r)) (next' (.again (r.shift S.words))))
    (spoils : ∀ (r : Run) (c : Cursor), r.stack ≠ [] → c.rest = [] →
      Yields (next (.again r)) c fun _ d => ¬d.Tidy) :
    S.Follows s .any id (runTurn stop mode r >>= next)
      (runTurn stop mode (r.shift S.words) >>= next') := by
  simp only [runTurn, bind_assoc]
  refine atEnd_follows.bind fun ends => ?_
  cases ends with
  | true => exact done r
  | false =>
  simp only [id, Bool.false_eq_true, if_false, bind_assoc]
  refine current_follows.ask current_answers fun kind => ?_
  -- A semicolon that ends the run is the only word at which it may not go on.
  by_cases quits : kind = some .semicolon ∧ r.stack = [] ∧ stop.holds .semicolon = true
  · obtain ⟨rfl, none, stops⟩ := quits
    obtain ⟨stack, consumed⟩ := r
    obtain rfl : stack = [] := none
    simp only [runEnds, Option.any_some, stops, Bool.true_or, if_true]
    exact (done ⟨[], consumed⟩).anywhere
  refine (stops_follows r kind).bindTo (q := fun ws _ => kindIn ws 0 = kind) (fun c here =>
    (stops_yields r kind c).imp fun _ d same => ?_) fun stops => ?_
  · obtain ⟨_, _, _, rfl⟩ := same
    exact here.2
  cases stops with
  | true => exact (done r).anywhere
  | false =>
  simp only [id, Bool.false_eq_true, if_false]
  by_cases semi : kind = some .semicolon
  · subst semi
    simp only [runWord, bind_assoc, pure_bind]
    have read : S.Follows .loose (fun ws _ => kindIn ws 0 = some .semicolon) id bump bump :=
      bump_final.loosen
    -- It is read as a part of the run: outside of brackets, or inside one that stays open.
    by_cases opened : r.stack = []
    · obtain rfl : s = .loose := by
        rw [← reach, KindSet.ending, if_neg fun stops => quits ⟨rfl, opened, stops⟩]
      exact read.bindLoose fun _ => again ⟨r.stack, true⟩
    · exact read.bindStrict (fun _ => again ⟨r.stack, true⟩) fun _ c => spoils _ c opened
  · refine ((runWord_follows mode r kind).given fun ws _ here => ?_).bind fun t => ?_
    · exact (clear_zero ws).succ (here ▸ semi)
    · cases t with
      | again r => exact again r
      | done r => exact done r

/-- Two runs go round together, whatever bounds they have. -/
theorem rounds_run_follows (reach : stop.ending = s) (n m : Nat) (r : Run) :
    S.Follows s .any id (rounds (runTurn stop mode) n r >>= Run.finish)
      (rounds (runTurn stop mode) m (r.shift S.words) >>= Run.finish) := by
  induction n generalizing m r with
  | zero => exact Setting.Follows.bind (.throw _) fun r => (finish_follows r).weaken
  | succ n ih =>
    have more (m : Nat) : S.Follows s .any id (rounds (runTurn stop mode) (n + 1) r >>= Run.finish)
        (rounds (runTurn stop mode) (m + 1) (r.shift S.words) >>= Run.finish) := by
      simp only [rounds, bind_assoc]
      exact runTurn_follows reach r (fun r => (finish_follows r).weaken) (ih m) fun _ _ opened =>
        rounds_spoilt opened n
    cases m with
    | zero => exact (more 0).outOfBound _
    | succ m => exact more m

theorem balanced_eq : balanced stop mode =
    (do rounds (runTurn stop mode) ((← get).total + 1) {} >>= Run.finish) := by
  unfold balanced loop
  rw [bind_assoc]
  rfl

/-- A run that stops at semicolons ends within the statement. -/
theorem balanced_follows (reach : stop.ending = s) :
    S.Follows s p id (balanced stop mode) (balanced stop mode) := by
  rw [balanced_eq]
  exact .bounded fun n m => (rounds_run_follows reach n m {}).anywhere

/-! ### Parts built from runs -/

/-- A name is read alike. -/
theorem nameRule_follows : S.Follows s p id nameRule nameRule :=
  (currentIs_follows .ident).branch (currentIs_answers .ident)
    (node_follows (by decide) (bump_follows.given fun _ _ h => goesOn_of_found (by decide) h.2))
    (error_follows _)

/-- A run that has to have a word. -/
theorem balancedOr_follows {kind : DiagnosticKind} (reach : stop.ending = s) :
    S.Follows s p id (do if !(← balanced stop mode) then error kind)
      (do if !(← balanced stop mode) then error kind) := by
  have inner : s ≠ .final := by
    rw [← reach, KindSet.ending]
    split <;> decide
  exact (balanced_follows reach).bindSame inner fun _ =>
    .ite (fun _ => error_follows kind) fun _ => .pure rfl

/-- A type is read alike, up to where its stop tokens let it end. -/
theorem typeExpr_follows (reach : stop.ending = s) :
    S.Follows s p id (typeExpr stop) (typeExpr stop) :=
  node_follows (by decide) (balancedOr_follows reach)

/-- So is one behind a colon. -/
theorem typeAscription_follows (reach : stop.ending = s) :
    S.Follows s .any id (typeAscription stop) (typeAscription stop) := by
  refine assertAt_follows ?_
  refine node_follows (by decide) ?_
  refine (bump_follows.given fun _ _ => Entry.goesOn_of_current (by decide)).bind fun _ => ?_
  exact typeExpr_follows reach

/-- And a value. -/
theorem initializer_follows (reach : stop.ending = s) :
    S.Follows s .any id (initializer stop) (initializer stop) := by
  refine assertAt_follows ?_
  refine node_follows (by decide) ?_
  refine (bump_follows.given fun _ _ => Entry.goesOn_of_current (by decide)).bind fun _ => ?_
  exact balancedOr_follows reach

/-- What stands between braces is read alike. -/
theorem bodyTurn_follows : S.Follows .loose .any id bodyTurn bodyTurn := by
  refine (balanced_follows (by decide)).bindLoose fun _ => current_follows.bind fun kind =>
    atEnd_follows.bind fun ends => .ite (fun _ => .pure rfl) fun _ =>
      currentText_follows.bind fun text => ?_
  exact (errorAndBump_follows (s := .firm) _ _).bind fun _ => .pure rfl

/-- A body between its braces. -/
theorem bracedBody_follows {kind : NodeKind} (inner : kind ≠ .sourceFile) :
    S.Follows s p id (bracedBody kind) (bracedBody kind) := by
  refine (currentIs_follows .braceOpen).ask (currentIs_answers .braceOpen) fun found => ?_
  cases found with
  | false => exact (errorWith_follows (s := .firm) _ _).bind fun _ => .pure rfl
  | true =>
    exact node_follows inner <| (delimited_follows (by decide) (by decide) bodyTurn_follows).given
      fun _ _ h => eq_of_beq h.2

end Grammar

end ImplicitGlobals
