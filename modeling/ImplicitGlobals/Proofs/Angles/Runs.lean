import ImplicitGlobals.Proofs.Acceptance.Runs
import ImplicitGlobals.Proofs.Angles.Matching
import ImplicitGlobals.Proofs.Boundary.Recovery

/-!
# Types without complaint

A run adds the words that it reads, each as it is, and the gaps before them. A run over a type that
ends without complaint has closed every angle outside of brackets, unless it ends at a closing
bracket: that drops what is open, and nobody complains.
-/

namespace ImplicitGlobals.Grammar

variable {c d e : Cursor} {ws : List Word} {mode : RunMode} {r : Run} {kind : TokenKind}

/-! ### Words that are read as they are -/

/-- The parts are the words, numbered from `first` on and each as it is, and gaps. -/
structure Spelt (first : Nat) (ws : List Word) (parts : List (Tree Slot)) : Prop where
  leaves : ∀ t ∈ parts, ∃ s, t = .leaf s
  numbers : Tree.wordsOf parts = List.range' first ws.length
  kinds : kindsOf parts = ws.map fun w => .leaf (.token w.kind)

/-- Between the cursors the words were read as they are. -/
structure Copies (c d : Cursor) (ws : List Word) : Prop where
  rest : c.rest = ws ++ d.rest
  passed : d.passed = c.passed + ws.length
  opened : d.opened = c.opened
  parts : ∃ ps, d.parts.toList = c.parts.toList ++ ps ∧ Spelt c.passed ws ps

/-- Nothing was read. -/
theorem Copies.refl (c : Cursor) : Copies c c [] :=
  ⟨rfl, rfl, rfl, [], by simp, nofun, rfl, rfl⟩

theorem Copies.same (reads : Copies c d ws) (same : Same d e) : Copies c e ws := by
  obtain ⟨_, _, _, rfl⟩ := same
  exact ⟨reads.rest, reads.passed, reads.opened, reads.parts⟩

/-- One word more was read as it is. -/
theorem Copies.took (reads : Copies c d ws) {w : Word} (took : Took (.token w.kind) w d e) :
    Copies c e (ws ++ [w]) := by
  obtain ⟨ps, parts, leaves, numbers, kinds⟩ := reads.parts
  obtain ⟨gap, added⟩ := took.parts
  refine ⟨by rw [reads.rest, took.rest]; simp, by rw [took.passed, reads.passed]; simp; omega,
    took.opened.trans reads.opened,
    ps ++ ((gap.due d.passed).toList ++ [.leaf (.word d.passed (.token w.kind))]), ?_, ?_, ?_, ?_⟩
  · rw [added, parts]
    simp only [List.append_assoc]
  · intro t mem
    simp only [List.mem_append, List.mem_singleton] at mem
    rcases mem with old | due | rfl
    · exact leaves t old
    · exact ⟨_, Gap.eq_of_mem_due due⟩
    · exact ⟨_, rfl⟩
  · have one : Tree.wordsOf [.leaf (.word d.passed (.token w.kind))] = [d.passed] := rfl
    rw [Tree.wordsOf_append, Tree.wordsOf_append, numbers, wordsOf_due, one, List.nil_append,
      List.length_append, List.length_singleton, List.range'_1_concat, reads.passed]
  · rw [kindsOf_append, kindsOf_append, kinds, kindsOf_due, List.map_append]
    rfl

/-! ### Runs -/

/-- The angles of a type, given what is behind it: outside of brackets they match, or a bracket
closes behind the type. -/
def AnglesRead (kinds : List TokenKind) (behind : List Word) : Prop :=
  WellNested false kinds ∧ (AnglesMatch kinds ∨ ∃ w ∈ behind.head?, w.kind.isCloser = true)

/-- What a run that began at `c` has read, and how that fits its stack. -/
def RunReads (mode : RunMode) (c : Cursor) (r : Run) (d : Cursor) : Prop :=
  ∃ ws, Copies c d ws ∧
    (mode.angles = true → Tracks (r.stack.map (·.kind)) (ws.map (·.kind)))

/-- What a run that began at `c` and is done has read. -/
def RunDone (mode : RunMode) (c : Cursor) (r : Run) (d : Cursor) : Prop :=
  ∃ ws, Copies c d ws ∧
    (mode.angles = true → r.stack = [] → AnglesRead (ws.map (·.kind)) d.rest)

/-- A round of a run. -/
abbrev RunRound (mode : RunMode) (c : Cursor) : Turn Run → Cursor → Prop
  | .again r, d => RunReads mode c r d
  | .done r, d => RunDone mode c r d

theorem RunReads.same (reads : RunReads mode c r d) (same : Same d e) : RunReads mode c r e :=
  have ⟨ws, reads, tracks⟩ := reads
  ⟨ws, reads.same same, tracks⟩

/-- Where a run ends with no open bracket, all angles outside of brackets are closed. -/
theorem RunReads.done (reads : RunReads mode c r d) : RunDone mode c r d := by
  obtain ⟨ws, reads, tracks⟩ := reads
  refine ⟨ws, reads, fun angles none => ?_⟩
  replace tracks := tracks angles
  rw [none] at tracks
  exact ⟨tracks.closed.1, .inl tracks.closed.2⟩

/-- The round that reads a word of the kind and goes on with the stack that this leaves. -/
theorem bumpRound_reads {stack : List Opener} (here : At kind d.rest)
    (kept : d.Tidy → RunReads mode c r d)
    (step : mode.angles = true → ∀ kinds, Tracks (r.stack.map (·.kind)) kinds →
      Tracks (stack.map (·.kind)) (kinds ++ [kind])) :
    Accepts (do bump; return .again ⟨stack, true⟩) d (RunRound mode c) := by
  refine Yields.bind (bump_yields d) fun _ e ⟨w, took⟩ => .pure fun tidy => ?_
  have began := took.tidy tidy
  obtain ⟨ws, reads, tracks⟩ := kept began
  have is : w.kind = kind := by simpa [At, kindIn, took.rest] using here
  refine ⟨began, ws ++ [w], reads.took took, fun angles => ?_⟩
  rw [List.map_append, List.map_singleton, is]
  exact step angles _ (tracks angles)

/-- An opening bracket is tracked from when it is read. -/
theorem openBracket_reads (here : At kind d.rest) (kept : d.Tidy → RunReads mode c r d)
    (step : mode.angles = true → ∀ kinds, Tracks (r.stack.map (·.kind)) kinds →
      Tracks (kind :: r.stack.map (·.kind)) (kinds ++ [kind])) :
    Accepts (openBracket kind r.stack) d (RunRound mode c) := by
  refine .look (mark_yields d) fun i e _ same => ?_
  exact bumpRound_reads (same.at here) (fun tidy => (kept (same.tidy tidy)).same same) step

theorem map_dropAngles (stack : List Opener) :
    (dropAngles stack).map (·.kind) = dropped (stack.map (·.kind)) := by
  rw [dropped, List.dropWhile_map]
  rfl

/-- A closing bracket ends what it closes, with the angles inside it. -/
theorem closeBracket_reads (here : At kind d.rest) (closer : kind.isCloser = true)
    (kept : d.Tidy → RunReads mode c r d) :
    Accepts (closeBracket kind r) d (RunRound mode c) := by
  have closes : kind.opener? false = some (openerOf kind) := by
    cases kind <;> first | rfl | cases closer
  have open? := map_dropAngles r.stack
  unfold closeBracket
  cases top : dropAngles r.stack with
  | nil =>
    -- All brackets that the run opened are closed, so this one closes a bracket around the run.
    refine .pure fun tidy => ?_
    obtain ⟨ws, reads, tracks⟩ := kept tidy
    refine ⟨ws, reads, fun angles _ => ⟨?_, .inr ?_⟩⟩
    · rw [top] at open?
      have free : brackets (r.stack.map (·.kind)) = [] := by
        refine List.filter_eq_nil_iff.2 fun k mem => ?_
        have all := List.dropWhile_eq_nil_iff.1 open?.symm k mem
        simpa using all
      exact (tracks angles).nested.trans (congrArg some free)
    · obtain ⟨w, ws, rest, is⟩ := exists_of_kindIn here
      exact ⟨w, by simp [rest], is ▸ closer⟩
  | cons o below =>
    rw [top, List.map_cons] at open?
    refine .ite (fun fits => bumpRound_reads here kept fun angles kinds tracks => ?_) fun _ => ?_
    · exact tracks.closeBracket closes (open?.symm.trans (by rw [fits]))
    · refine .ask currentText_answers fun e _ => ?_
      exact (errorAndBump_accepts _ _ e fun _ _ => False).bind fun _ _ post =>
        (Keeps.pure _).spoilt fun tidy => (post tidy).2

/-- One word of a run is tracked. -/
theorem runWord_reads (here : At kind d.rest) (kept : d.Tidy → RunReads mode c r d)
    (going : r.stack = [] → mode.angles = true → kind ≠ .angleClose) :
    Accepts (runWord mode r (some kind)) d (RunRound mode c) := by
  have plain (opens : kind.opens true = false) (closes : kind.opener? true = none) :
      Accepts (do bump; return .again ⟨r.stack, true⟩) d (RunRound mode c) :=
    bumpRound_reads here kept fun _ kinds tracks => tracks.plain opens closes
  cases kind with
  | parenOpen | bracketOpen | braceOpen =>
    exact openBracket_reads here kept fun _ kinds tracks => tracks.openBracket rfl
  | parenClose | bracketClose | braceClose => exact closeBracket_reads here rfl kept
  | garbage =>
    refine (error_accepts _ fun _ _ => False).bind fun _ e post => ?_
    exact (bumpAsError_keeps.bind fun _ => .pure _).spoilt fun tidy => (post tidy).2
  | angleOpen =>
    refine .ite (fun _ => openBracket_reads here kept fun _ kinds tracks => tracks.openAngle)
      fun other => bumpRound_reads here kept fun angles => absurd angles other
  | angleClose =>
    refine bumpRound_reads here kept fun angles kinds tracks => ?_
    cases stack : r.stack with
    | nil => exact absurd rfl (going stack angles)
    | cons o below =>
      rw [stack, List.map_cons] at tracks
      by_cases angle : o.kind = .angleOpen
      · rw [angle] at tracks
        simpa [angles, angle] using tracks.closeAngle
      · simpa [angles, angle] using tracks.strayAngle (List.cons_ne_nil _ _) (by simpa using angle)
  | _ => exact plain rfl rfl

/-- Where the stack is empty, a round of a type goes on only at a word that is no `>`. -/
theorem runEnds_goesOn (stop : KindSet) (mode : RunMode) (consumed : Bool) (kind : Option TokenKind)
    (d : Cursor) : Yields (runEnds stop mode consumed kind) d fun b e =>
      (b = false → mode.angles = true → kind ≠ some .angleClose) ∧ Same d e := by
  refine .ite (fun _ => .pure ⟨nofun, .refl d⟩) fun _ =>
    .ite (fun _ => .pure ⟨nofun, .refl d⟩) fun other => ?_
  rw [and_eq_branch, pure_bind]
  have same (b : Bool) (e : Cursor) (same : Same d e) :
      (b = false → mode.angles = true → kind ≠ some .angleClose) ∧ Same d e :=
    ⟨fun _ angles is => other (by simp [angles, is]), same⟩
  exact .ite (fun _ => (atStatementStart_yields d).imp fun b e post => same b e post.1)
    fun _ => .pure (same false d (.refl d))

/-- One turn of a run is tracked. -/
theorem runTurn_reads (stop : KindSet) (mode : RunMode) (r : Run) (kept : d.Tidy → RunReads mode c r d) :
    Accepts (runTurn stop mode r) d (RunRound mode c) := by
  refine .ask atEnd_answers fun d₁ same₁ => .ite (fun _ => .pure fun tidy => ?_) fun going => ?_
  · exact ((kept (same₁.tidy tidy)).same same₁).done
  refine .ask current_answers fun d₂ same₂ => ?_
  have ends : Yields (pure r.stack.isEmpty <&&> runEnds stop mode r.consumed (kindIn d₁.rest 0)) d₂
      fun b e => (b = false → r.stack = [] → mode.angles = true → kindIn d₁.rest 0 ≠ some .angleClose) ∧
        Same d₂ e := by
    rw [and_eq_branch, pure_bind]
    refine .ite (fun _ => ?_) fun held => .pure ⟨fun _ none => absurd (by simp [none]) held, .refl d₂⟩
    exact (runEnds_goesOn _ _ _ _ d₂).imp fun b e post => ⟨fun on _ => post.1 on, post.2⟩
  refine .look ends fun b d₃ on same₃ => ?_
  have same := (same₁.trans same₂).trans same₃
  have kept (tidy : d₃.Tidy) := (kept (same.tidy tidy)).same same
  refine .ite (fun _ => .pure fun tidy => (kept tidy).done) fun goes => ?_
  have some : ∃ w ws, d.rest = w :: ws := by
    cases rest : d.rest with
    | nil => simp [rest] at going
    | cons w ws => exact ⟨w, ws, rfl⟩
  obtain ⟨w, ws, rest⟩ := some
  have here : At w.kind d.rest := by simp [At, kindIn, rest]
  have current : kindIn d₁.rest 0 = Option.some w.kind := same₁.at here
  rw [current] at on ⊢
  exact runWord_reads (same.at here) kept fun none angles is =>
    on (Bool.eq_false_iff.2 goes) none angles (congrArg _ is)

/-- A run reads words, and over a type it closes the angles or ends at a closing bracket. -/
theorem balanced_reads (stop : KindSet) (mode : RunMode) (c : Cursor) :
    Accepts (balanced stop mode) c fun _ d => ∃ ws, Copies c d ws ∧
      (mode.angles = true → AnglesRead (ws.map (·.kind)) d.rest) := by
  have run : Accepts (loop {} (runTurn stop mode)) c (RunDone mode c) :=
    Accepts.loop (I := RunReads mode c) (fun _ => ⟨[], .refl c, fun _ => .nil⟩) fun r d inv =>
      (runTurn_reads stop mode r fun tidy => (inv tidy).2).imp fun t _ _ _ post => by
        cases t <;> exact post
  refine run.bind fun r d post => (reportOpen_accepts r.stack d).bind fun _ e closed =>
    .pure fun tidy => ?_
  obtain ⟨between, none, rfl⟩ := closed tidy
  obtain ⟨ws, reads, angles⟩ := (post between).2
  exact ⟨ws, reads, fun wanted => angles wanted none⟩

end ImplicitGlobals.Grammar
