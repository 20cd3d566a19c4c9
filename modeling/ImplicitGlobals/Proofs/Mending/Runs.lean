import ImplicitGlobals.Proofs.Grammar.Balanced
import ImplicitGlobals.Proofs.Mending.Drifting

/-!
# Two runs over balanced words

A run that the semicolon ends is ended by it in front of the word as well, as long as no bracket is
open. Where only angles are open, a closing bracket behind the semicolon shows that they were none: there
the run over the type ends at the word, while the other one reads the semicolon as a part of the type.
And a run may end one word early, where the word makes the one before it the beginning of a statement.
-/

namespace ImplicitGlobals.Grammar

namespace Mending

variable {m : Mending} {α β : Type} {u : Word} {us vs : List Word} {c c' d d' e e' : Cursor} {p : List Word → Prop}
  {mode : RunMode} {r : Run}

/-! ### Where statements begin -/

/-- Where a statement begins is a question about the words. -/
theorem atStatementStart_answers : Answers atStatementStart fun ws _ => beginsStatement ws := by
  refine Answers.bind (u := fun kind ws _ => if kind ≠ some .ident then false else beginsAs ws (keywordOf ws))
    current_answers fun kind => .ite (.pure false) ?_
  refine Answers.bind (u := fun text ws _ => beginsAs ws (Keyword.ofWord? text)) currentText_answers fun text => ?_
  cases Keyword.ofWord? text with
  | none => exact .pure false
  | some k =>
    cases k with
    | kwAbstract => exact nthIsWord_answers 1 "class"
    | kwGlobal => exact nextIs_answers .braceOpen
    | kwExport => exact .pure true
    | kwVar | kwLet | kwConst | kwFunction | kwModule | kwImport => exact (kindAt_answers 1).bind fun _ => .pure _
    | kwDeclare | kwInterface | kwEnum | kwType | kwNamespace | kwClass => exact nextIs_answers .ident
    | kwDefault | kwFrom | kwAs | kwExtends | kwImplements | kwRequire => exact .pure false

/-- It shows in the first two words. -/
theorem beginsStatement_near : Near 1 beginsStatement := fun us xs ys far => by
  have first : kindIn (us ++ xs) 0 = kindIn (us ++ ys) 0 := near_kindIn 0 us xs ys (by omega)
  have next : kindIn (us ++ xs) 1 = kindIn (us ++ ys) 1 := near_kindIn 1 us xs ys far
  have class? : spells (us ++ xs) 1 "class" = spells (us ++ ys) 1 "class" := near_spells 1 "class" us xs ys far
  have keyword : keywordOf (us ++ xs) = keywordOf (us ++ ys) :=
    congrArg (fun w : Option Word => Keyword.ofWord? ((w.map Word.text).getD "")) (near_getElem? 0 us xs ys (by omega))
  unfold beginsStatement
  rw [first, keyword]
  cases keywordOf (us ++ ys) with
  | none => rfl
  | some k => cases k <;> simp only [beginsAs, next, class?]

/-- In front of a semicolon only `export` begins a statement. -/
theorem eq_export_of_semicolon {ws : List Word} {k : Option Keyword}
    (h : beginsAs (u :: semicolon :: ws) k = true) : k = some .kwExport := by
  have binding : KindSet.bindingStart.holds .semicolon = false := by decide
  cases k with
  | none => cases h
  | some k => cases k <;> simp_all [beginsAs, kindIn, spells, semicolon, Word.isWord, importGoesOn]

/-- What begins a statement in front of a semicolon begins one in front of every word. -/
theorem beginsStatement_of_semicolon {ws : List Word} (xs : List Word)
    (h : beginsStatement (u :: semicolon :: ws) = true) : beginsStatement (u :: xs) = true := by
  have ident (vs : List Word) : kindIn (u :: vs) 0 = some .ident := (ident_of_beginsStatement h :)
  have keyword : beginsAs (u :: semicolon :: ws) (keywordOf (u :: xs)) = true := by
    rwa [beginsStatement, if_neg (not_not.2 (ident _))] at h
  rw [beginsStatement, if_neg (not_not.2 (ident xs)), eq_export_of_semicolon keyword]
  rfl

/-- Where the semicolon makes a difference, a statement begins one word before the word. -/
theorem begins_of_differs (differs : beginsStatement (u :: us ++ m.ahead) ≠ beginsStatement (u :: us ++ m.ahead')) :
    us = [] ∧ beginsStatement (u :: m.ahead) = true := by
  have near : (u :: us).length ≤ 1 := beginsStatement_near.length_le differs
  obtain rfl : us = [] := List.length_eq_zero_iff.1 (by simpa using near)
  refine ⟨rfl, ?_⟩
  by_contra none
  refine differs ((eq_false_of_ne_true none).trans (eq_false_of_ne_true fun other => ?_).symm)
  exact none (beginsStatement_of_semicolon m.ahead other)

/-! ### Rounds that both make -/

/-- Both runs read the same word. -/
theorem Twin.bump (twin : m.Twin (u :: us) c c') :
    Yields bump c fun _ d => Yields bump c' fun _ d' => m.Twin us d d' :=
  (bump_one c).imp fun _ _ ⟨_, _, took⟩ => (bump_one c').imp fun _ _ ⟨_, _, took'⟩ => twin.took took took'

/-- Both runs read it as an error. -/
theorem Twin.bumpAsError (twin : m.Twin (u :: us) c c') :
    Yields bumpAsError c fun _ d => Yields Grammar.bumpAsError c' fun _ d' => m.Twin us d d' := by
  refine ((peek_answers 0 c).both (peek_answers 0 c')).bindBoth fun x y d d' posts => ?_
  obtain ⟨⟨rfl, same⟩, rfl, same'⟩ := posts
  rw [twin.rest, twin.rest']
  exact nodes_build fun _ _ left right => Yields.imp ((twin.same same same').stays left right).bump fun _ _ post =>
    post.imp fun _ _ twin _ _ left right => twin.stays left right

/-- Both runs complain of it and read it. -/
theorem Twin.strayWord (twin : m.Twin (u :: us) c c') (kind : DiagnosticKind) (detail : Option String) :
    Yields (do Grammar.complain (.here kind detail); Grammar.bumpAsError) c fun _ d =>
      Yields (do Grammar.complain (.here kind detail); Grammar.bumpAsError) c' fun _ d' => m.Twin us d d' :=
  (twin.complain (List.cons_ne_nil u us) fun _ _ => rfl).bindBoth (R := fun _ _ d d' => m.Twin (u :: us) d d')
    fun _ _ _ _ twin => twin.bumpAsError

/-! ### The stack -/

/-- Without angles there are none on the stack. -/
def Bare (mode : RunMode) (stack : List Opener) : Prop := mode.angles = false → ∀ o ∈ stack, o.kind ≠ .angleOpen

/-- A bracket that is no angle keeps the stack bare. -/
theorem Bare.push {stack : List Opener} (h : Bare mode stack) {kind : TokenKind} (i : Nat)
    (other : mode.angles = false → kind ≠ .angleOpen) : Bare mode (⟨kind, i⟩ :: stack) := fun plain o mem => by
  rcases List.mem_cons.1 mem with rfl | mem
  · exact other plain
  · exact h plain o mem

/-- Fewer brackets keep it bare. -/
theorem Bare.mono {stack stack' : List Opener} (h : Bare mode stack) (sub : ∀ o ∈ stack', o ∈ stack) : Bare mode stack' :=
  fun plain o mem => h plain o (sub o mem)

/-- Without angles a stack that is dropped to nothing was empty. -/
theorem Bare.eq_nil {stack : List Opener} (h : Bare mode stack) (dropped : dropAngles stack = [])
    (plain : mode.angles = false) : stack = [] := by
  cases stack with
  | nil => rfl
  | cons o os =>
    have angle := List.dropWhile_eq_nil_iff.1 dropped o List.mem_cons_self
    exact absurd (eq_of_beq angle) (h plain o List.mem_cons_self)

/-- The state with which a round ends. -/
def stateOf : Turn Run → Run
  | .again r | .done r => r

/-- The rounds end alike, and side by side. -/
def Alongside (m : Mending) (mode : RunMode) (t t' : Turn Run) (d d' : Cursor) : Prop :=
  t = t' ∧ Bare mode (stateOf t).stack ∧ ∃ us, m.Twin us d d'

section

variable (bare : Bare mode r.stack) (twin : m.Twin (u :: us) c c')
include bare twin

/-- An opening bracket goes onto both stacks. -/
theorem openBracket_twins {kind : TokenKind} (other : mode.angles = false → kind ≠ .angleOpen) :
    Yields (openBracket kind r.stack) c fun t d => Yields (openBracket kind r.stack) c' fun t' d' =>
      Alongside m mode t t' d d' := by
  refine ((mark_yields c).both (mark_yields c')).bindBoth fun _ _ d d' posts => ?_
  obtain ⟨⟨rfl, same⟩, rfl, same'⟩ := posts
  rw [twin.passed]
  exact (twin.same same same').bump.bindBoth (R := fun _ _ d d' => m.Twin us d d') fun _ _ _ _ twin =>
    .pure (.pure ⟨rfl, bare.push _ other, us, twin⟩)

/-- A word is read, and the rounds go on. -/
theorem bumpRound_twins {stack : List Opener} (kept : ∀ o ∈ stack, o ∈ r.stack) :
    Yields (do bump; return .again ⟨stack, true⟩) c fun t d =>
      Yields (do bump; return .again ⟨stack, true⟩) c' fun t' d' => Alongside m mode t t' d d' :=
  twin.bump.bindBoth (R := fun _ _ d d' => m.Twin us d d') fun _ _ _ _ twin =>
    .pure (.pure ⟨rfl, bare.mono kept, us, twin⟩)

/-- A closing bracket takes the same one from both. -/
theorem closeBracket_twins (kind : TokenKind) : Yields (closeBracket kind r) c fun t d =>
    Yields (closeBracket kind r) c' fun t' d' => Alongside m mode t t' d d' := by
  unfold closeBracket
  cases dropped : dropAngles r.stack with
  | nil => exact .pure (.pure ⟨rfl, bare.mono nofun, _, twin⟩)
  | cons top below =>
    have kept (o : Opener) (mem : o ∈ top :: below) : o ∈ r.stack := (List.dropWhile_sublist _).mem (dropped ▸ mem)
    by_cases closes : top.kind = openerOf kind
    · simp only [closes, if_true]
      exact bumpRound_twins bare twin fun o mem => kept o (List.mem_cons_of_mem _ mem)
    · simp only [closes, if_false]
      refine ((currentText_answers c).both (currentText_answers c')).bindBoth fun x y d d' posts => ?_
      obtain ⟨⟨rfl, same⟩, rfl, same'⟩ := posts
      rw [twin.rest, twin.rest']
      exact ((twin.same same same').strayWord .mismatchedDelimiter (some _)).bindBoth (R := fun _ _ d d' => m.Twin us d d')
        fun _ _ _ _ twin => .pure (.pure ⟨rfl, bare.mono kept, us, twin⟩)

/-- A word of a run is treated alike. -/
theorem runWord_twins (kind : Option TokenKind) : Yields (runWord mode r kind) c fun t d =>
    Yields (runWord mode r kind) c' fun t' d' => Alongside m mode t t' d d' := by
  have all (o : Opener) : o ∈ r.stack → o ∈ r.stack := id
  cases kind with
  | none => exact bumpRound_twins bare twin all
  | some kind =>
    cases kind with
    | parenOpen | bracketOpen | braceOpen => exact openBracket_twins bare twin nofun
    | parenClose | bracketClose | braceClose => exact closeBracket_twins bare twin _
    | garbage =>
      rw [runWord, ← bind_assoc]
      exact (twin.strayWord .invalidCharacter none).bindBoth (R := fun _ _ d d' => m.Twin us d d') fun _ _ _ _ twin =>
        .pure (.pure ⟨rfl, bare, us, twin⟩)
    | angleOpen =>
      rw [runWord]
      by_cases angles : mode.angles = true
      · simp only [angles, if_true]
        exact openBracket_twins bare twin fun plain => absurd angles (by simp [plain])
      · simp only [angles]
        exact bumpRound_twins bare twin all
    | angleClose =>
      rw [runWord]
      refine bumpRound_twins bare twin fun o mem => ?_
      split at mem
      · exact List.mem_of_mem_tail mem
      · exact mem
    | _ => exact bumpRound_twins bare twin all

end

/-! ### Where runs end -/

/-- Whether a run ends at the words. -/
def stops (stop : KindSet) (mode : RunMode) (r : Run) (ws : List Word) : Bool :=
  r.stack.isEmpty && ((kindIn ws 0).any (fun k => stop.holds k || KindSet.closers.holds k) ||
    (mode.angles && kindIn ws 0 == some .angleClose) || (mode.boundary && r.consumed && beginsStatement ws))

variable {stop : KindSet}

/-- Whether a run ends is a question about the words. -/
theorem runEnds_answers (consumed : Bool) (kind : Option TokenKind) :
    Answers (runEnds stop mode consumed kind) fun ws _ =>
      kind.any (fun k => stop.holds k || KindSet.closers.holds k) || (mode.angles && kind == some .angleClose) ||
        (mode.boundary && consumed && beginsStatement ws) := by
  unfold runEnds
  by_cases closes : kind.any (fun k => stop.holds k || KindSet.closers.holds k) = true
  · simp only [closes, if_true, Bool.true_or]
    exact .pure true
  · by_cases angle : (mode.angles && kind == some .angleClose) = true
    · simp only [closes, angle, Bool.or_true, Bool.true_or, if_true]
      exact .pure true
    · simp only [closes, angle, Bool.false_or]
      exact (Answers.pure _).and atStatementStart_answers

/-- A round ends the run, or does what the word asks for. -/
theorem runTurn_steps (rest : c.rest ≠ []) (free : c.refused = none) : Yields (runTurn stop mode r) c fun t d =>
    (stops stop mode r c.rest = true ∧ t = .done r ∧ Same c d) ∨
    (stops stop mode r c.rest = false ∧ ∃ e, Same c e ∧ (runWord mode r (kindIn c.rest 0)).run e = .ok (t, d)) := by
  refine (atEnd_answers c).bind fun ends d post => ?_
  obtain ⟨rfl, same⟩ := post
  simp only [free, List.isEmpty_eq_false_iff.2 rest, Option.isSome_none, Bool.or_self]
  refine .ite (fun none => absurd none (by simp)) fun _ => ?_
  refine (current_answers d).bind fun kind e post => ?_
  obtain ⟨rfl, same'⟩ := post
  have both := same.trans same'
  obtain ⟨_, _, _, rfl⟩ := same
  refine (((Answers.pure r.stack.isEmpty).and (runEnds_answers r.consumed _)) e).bind fun done f post => ?_
  obtain ⟨rfl, same''⟩ := post
  have whole := both.trans same''
  obtain ⟨_, _, _, rfl⟩ := same'
  refine .ite (fun done => .pure (.inl ⟨done, rfl, whole⟩)) fun more => ?_
  intro t g run
  exact .inr ⟨eq_false_of_ne_true more, f, whole, run⟩

/-! ### One run alone -/

/-- A word that is passed says nothing. -/
theorem bumpRound_rests (r : Run) : m.Rests (do bump; return Turn.again r) := Rests.bump.bind fun _ => .pure _

theorem openBracket_rests (kind : TokenKind) (stack : List Opener) : m.Rests (openBracket kind stack) :=
  (Rests.look fun c => (mark_yields c).imp fun _ _ post => post.2).bind fun _ => bumpRound_rests _

theorem closeBracket_rests (kind : TokenKind) : m.Rests (closeBracket kind r) := by
  unfold closeBracket
  cases dropAngles r.stack with
  | nil => exact .pure _
  | cons top below =>
    exact .ite (bumpRound_rests _) <| (Rests.answers currentText_answers).bind fun _ =>
      (Rests.errorAndBump rfl _).bind fun _ => .pure _

theorem runWord_rests (kind : Option TokenKind) : m.Rests (runWord mode r kind) := by
  cases kind with
  | none => exact bumpRound_rests _
  | some kind =>
    cases kind with
    | parenOpen | bracketOpen | braceOpen => exact openBracket_rests _ _
    | parenClose | bracketClose | braceClose => exact closeBracket_rests _
    | garbage => exact (Rests.error rfl).bind fun _ => Rests.bumpAsError.bind fun _ => .pure _
    | angleOpen => exact .ite (openBracket_rests _ _) (bumpRound_rests _)
    | angleClose => exact bumpRound_rests _
    | _ => exact bumpRound_rests _

/-- A turn does not say that a semicolon is missing. -/
theorem runTurn_rests : m.Rests (runTurn stop mode r) := by
  refine (Rests.answers atEnd_answers).bind fun _ => ?_
  refine .ite (.pure _) ?_
  refine (Rests.answers current_answers).bind fun _ => ?_
  refine (Rests.answers ((Answers.pure _).and (runEnds_answers _ _))).bind fun _ => ?_
  exact .ite (.pure _) (runWord_rests _)

theorem reportOpen_rests (stack : List Opener) : m.Rests (reportOpen stack) := by
  unfold reportOpen
  split
  · exact .unclosed (isUnclosed_unclosedKind _) _ _
  · exact .unclosed rfl _ _
  · exact .pure ()

/-- A run does not either. -/
theorem balanced_rests (stop : KindSet) (mode : RunMode) : m.Rests (balanced stop mode) :=
  (Rests.loop (fun _ => runTurn_rests) _).bind fun _ => (reportOpen_rests _).bind fun _ => .pure _

/-! ### At the word -/

/-- A closing bracket that closes nothing ends the run. -/
theorem runWord_ends {kind : TokenKind} (closes : kind.isCloser = true) (dropped : dropAngles r.stack = []) :
    runWord mode r (some kind) = pure (.done ⟨[], r.consumed⟩) := by
  cases kind <;> first | exact absurd closes (by decide) | simp only [runWord, closeBracket, dropped]

/-- A closing bracket with one open is read or complained of. -/
theorem closeBracket_judges (kind : TokenKind) (dropped : dropAngles r.stack ≠ []) : m.Judges (closeBracket kind r) := by
  unfold closeBracket
  cases stack : dropAngles r.stack with
  | nil => exact absurd stack dropped
  | cons top below =>
    refine .ite (fun _ => Judges.bump.bind fun _ => (Rests.pure (m := m) _).left) fun _ => ?_
    exact .look (fun c => (currentText_answers c).imp fun _ _ post => post.2) fun _ =>
      (Judges.errorAndBump _).bind fun _ => (Rests.pure (m := m) _).left

/-- Any other word is read, or complained of. -/
theorem runWord_judges {kind : Option TokenKind} (other : ∀ k ∈ kind, k.isCloser = true → dropAngles r.stack ≠ []) :
    m.Judges (runWord mode r kind) := by
  have reads (r : Run) : m.Judges (do bump; return Turn.again r) := Judges.bump.bind fun _ => (Rests.pure (m := m) _).left
  have opens (kind : TokenKind) : m.Judges (openBracket kind r.stack) :=
    .look (fun c => (mark_yields c).imp fun _ _ post => post.2) fun _ => reads _
  cases kind with
  | none => exact reads _
  | some kind =>
    cases kind with
    | parenOpen | bracketOpen | braceOpen => exact opens _
    | parenClose | bracketClose | braceClose => exact closeBracket_judges _ (other _ rfl rfl)
    | garbage => exact (Judges.error _).bind fun _ => (Rests.bumpAsError.bind fun _ => Rests.pure (m := m) _).left
    | angleOpen => exact .ite (fun _ => opens _) fun _ => reads _
    | angleClose => exact reads _
    | _ => exact reads _

/-! ### Runs that part -/

/-- The first run has ended, early or at the word. Where the semicolon would have ended it as well, it went into
a type. -/
def Parted (m : Mending) (stop : KindSet) (mode : RunMode) (consumed : Bool) (d d' : Cursor) : Prop :=
  consumed = true ∧ mode.boundary = true ∧ m.Off d ∨
    m.Before [] d ∧ (stop.holds .semicolon = true → mode.angles = true ∧ m.Swallows d d')

/-- Where the runs have parted the second one may go on. -/
theorem Parted.notes {consumed : Bool} (h : Parted m stop mode consumed d d') (right : Notes d' e') :
    Parted m stop mode consumed d e' :=
  h.imp id (.imp id fun swallows ends => ⟨(swallows ends).1, (swallows ends).2.notes (.refl d) right⟩)

/-- How the rounds of two runs come out. -/
def Rounds (m : Mending) (stop : KindSet) (mode : RunMode) (t t' : Turn Run) (d d' : Cursor) : Prop :=
  Alongside m mode t t' d d' ∨ d.Judged m.place ∨
    ∃ s, t = .done s ∧ s.stack = [] ∧ Parted m stop mode s.consumed d d'

/-- Where one run ends and the other goes on, a statement begins one word before the word. -/
theorem begins_of_stops (differs : stops stop mode r (u :: us ++ m.ahead) ≠ stops stop mode r (u :: us ++ m.ahead')) :
    us = [] ∧ r.stack = [] ∧ r.consumed = true ∧ mode.boundary = true ∧ beginsStatement (u :: m.ahead) = true ∧
      stops stop mode r (u :: us ++ m.ahead) = true := by
  have either {a b x y z : Bool} (h : (a && (b || (x && y))) ≠ (a && (b || (x && z)))) :
      a = true ∧ x = true ∧ y ≠ z := by
    revert h
    cases a <;> cases b <;> cases x <;> simp
  obtain ⟨empty, started, begins⟩ := either differs
  obtain ⟨boundary, consumed⟩ := Bool.and_eq_true_iff.1 started
  obtain ⟨rfl, starts⟩ := begins_of_differs begins
  refine ⟨rfl, List.isEmpty_iff.1 empty, consumed, boundary, starts, ?_⟩
  have whole : [u] ++ m.ahead = u :: m.ahead := rfl
  simp only [stops, whole, empty, boundary, consumed, starts, Bool.true_and, Bool.or_true]

/-- A turn before the word in question. -/
theorem runTurn_between (bare : Bare mode r.stack) (twin : m.Twin (u :: us) c c') :
    Yields (runTurn stop mode r) c fun t d => Yields (runTurn stop mode r) c' fun t' d' => Rounds m stop mode t t' d d' := by
  refine Yields.imp (runTurn_steps (by simp [twin.rest]) twin.refused) fun t d post => ?_
  refine Yields.imp (runTurn_steps (by simp [twin.rest']) twin.refused') fun t' d' post' => ?_
  rw [twin.rest] at post
  rw [twin.rest'] at post'
  by_cases alike : stops stop mode r (u :: us ++ m.ahead) = stops stop mode r (u :: us ++ m.ahead')
  · rw [← alike] at post'
    rcases post with ⟨ends, rfl, same⟩ | ⟨more, e, same, run⟩
    · obtain ⟨-, rfl, same'⟩ := post'.resolve_right fun other => Bool.false_ne_true (other.1.symm.trans ends)
      exact .inl ⟨rfl, bare, _, twin.same same same'⟩
    · obtain ⟨-, e', same', run'⟩ := post'.resolve_left fun other => Bool.false_ne_true (more.symm.trans other.1)
      exact .inl (runWord_twins bare (twin.same same same') _ t d run t' d' run')
  · obtain ⟨rfl, empty, consumed, boundary, begins, ends⟩ := begins_of_stops alike
    obtain ⟨-, rfl, same⟩ := post.resolve_right fun other => Bool.false_ne_true (other.1.symm.trans ends)
    exact .inr (.inr ⟨r, rfl, empty, .inl ⟨consumed, boundary, u, twin.toBefore.same same, begins⟩⟩)

/-- What the second run does at the semicolon. -/
theorem runTurn_semicolon (twin : m.Twin [] c c') : Yields (runTurn stop mode r) c' fun t d =>
    r.stack = [] ∧ stop.holds .semicolon = true ∧ t = .done r ∧ Same c' d ∨
    (r.stack = [] → stop.holds .semicolon = false) ∧ ∃ w label, Took label w c' d := by
  refine Yields.imp (runTurn_steps (by simp [twin.rest', ahead']) twin.refused') fun t d post => ?_
  have stray : beginsStatement m.ahead' = false := rfl
  have closes : KindSet.closers.holds .semicolon = false := by decide
  have angle : (TokenKind.semicolon == .angleClose) = false := by decide
  have here : stops stop mode r c'.rest = (r.stack.isEmpty && stop.holds .semicolon) := by
    rw [twin.rest', List.nil_append, stops, stray]
    simp [ahead', semicolon, kindIn, closes, angle]
  rw [here] at post
  rcases post with ⟨ends, rfl, same⟩ | ⟨more, e, same, run⟩
  · obtain ⟨empty, holds⟩ := Bool.and_eq_true_iff.1 ends
    exact .inl ⟨List.isEmpty_iff.1 empty, holds, rfl, same⟩
  · refine .inr ⟨fun empty => by simpa [empty] using more, ?_⟩
    rw [twin.rest'] at run
    obtain ⟨_, f, read, last⟩ := run_bind_eq_ok run
    obtain ⟨w, label, took⟩ := bump_one e _ f read
    cases last
    exact ⟨w, label, took.ofSame same⟩

/-- What the first run does at the word. -/
theorem runTurn_word (before : m.Before [] c) : Yields (runTurn stop mode r) c fun t d => d.Judged m.place ∨
    Same c d ∧ t = .done ⟨[], r.consumed⟩ ∧ (r.stack = [] ∨ dropAngles r.stack = [] ∧ beginsStatement m.ahead = false) := by
  refine Yields.imp (runTurn_steps (by simp [before.rest, ahead]) before.refused) fun t d post => ?_
  rw [before.rest] at post
  rcases post with ⟨ends, rfl, same⟩ | ⟨more, e, same, run⟩
  · have empty : r.stack = [] := List.isEmpty_iff.1 (Bool.and_eq_true_iff.1 ends).1
    exact .inr ⟨same, by rw [← empty], .inl empty⟩
  · by_cases closes : m.word.kind.isCloser = true ∧ dropAngles r.stack = []
    · obtain ⟨closes, dropped⟩ := closes
      have here : kindIn ([] ++ m.ahead) 0 = some m.word.kind := rfl
      rw [here, runWord_ends closes dropped] at run
      cases run
      refine .inr ⟨same, rfl, .inr ⟨dropped, ?_⟩⟩
      by_contra begins
      have ident := ident_of_beginsStatement (eq_true_of_ne_false begins)
      have kind : m.word.kind = .ident := Option.some.inj ident
      simp [kind, TokenKind.isCloser] at closes
    · have judges : m.Judges (runWord mode r (kindIn ([] ++ m.ahead) 0)) := runWord_judges fun k here closer dropped => by
        obtain rfl : m.word.kind = k := Option.some.inj here
        exact closes ⟨closer, dropped⟩
      exact .inl (judges e (before.same same) t d run)

/-- A turn at the word, where the second run has its semicolon. -/
theorem runTurn_at (bare : Bare mode r.stack) (twin : m.Twin [] c c') :
    Yields (runTurn stop mode r) c fun t d => Yields (runTurn stop mode r) c' fun t' d' => Rounds m stop mode t t' d d' := by
  refine Yields.imp (runTurn_word twin.toBefore) fun t d post => Yields.imp (runTurn_semicolon twin) fun t' d' post' => ?_
  rcases post with judged | ⟨same, rfl, left⟩
  · exact .inr (.inl judged)
  rcases post' with ⟨empty, holds, rfl, same'⟩ | ⟨goes, w, label, took⟩
  · have whole : r = ⟨[], r.consumed⟩ := by rw [← empty]
    exact .inl ⟨by rw [← whole], bare.mono nofun, [], twin.same same same'⟩
  · refine .inr (.inr ⟨_, rfl, rfl, .inr ⟨twin.toBefore.same same, fun holds => ?_⟩⟩)
    have some : r.stack ≠ [] := fun empty => by simp [goes empty] at holds
    obtain ⟨dropped, stray⟩ := left.resolve_left some
    refine ⟨?_, stray, ?_, c.complaints, twin.complaints, ?_, ?_⟩
    · by_contra plain
      exact some (bare.eq_nil dropped (eq_false_of_ne_true plain))
    · rw [took.passed, twin.passed, ← twin.place]
      simp
    · obtain ⟨_, _, _, rfl⟩ := same
      exact ⟨Nat.le_of_eq twin.place.symm, [], rfl, nofun⟩
    · refine ⟨?_, [], by rw [took.complaints, twin.complaints']; rfl, nofun⟩
      rw [took.passed, twin.passed, ← twin.place]
      simp

/-- How two runs come out that are entered by twins, of the answers and the cursors behind them. -/
def RunsOut (m : Mending) (stop : KindSet) (mode : RunMode) (x y : Run) (d d' : Cursor) : Prop :=
  (x = y ∧ ∃ us, m.Twin us d d') ∨ d.Judged m.place ∨ x.stack = [] ∧ Parted m stop mode x.consumed d d'

/-- The rounds of both runs, by induction on those of the first. -/
theorem rounds_part (n n' : Nat) (bare : Bare mode r.stack) (twin : m.Twin us c c') :
    Yields (rounds (runTurn stop mode) n r) c fun x d => Yields (rounds (runTurn stop mode) n' r) c' fun y d' =>
      RunsOut m stop mode x y d d' := by
  induction n generalizing n' r us c c' with
  | zero => exact .throw _
  | succ n ih =>
    cases n' with
    | zero => exact fun _ _ _ => .throw _
    | succ n' =>
      have turn : Yields (runTurn stop mode r) c fun t d => Yields (runTurn stop mode r) c' fun t' d' =>
          Rounds m stop mode t t' d d' := by
        cases us with
        | nil => exact runTurn_at bare twin
        | cons u us => exact runTurn_between bare twin
      have left (t : Turn Run) : Trails Notes (Mends.goOn (runTurn stop mode) n t) := by
        cases t with
        | again s => exact (Rests.rounds (m := m) (fun _ => runTurn_rests) n s).left
        | done s => exact (Rests.pure (m := m) s).left
      have right (t : Turn Run) : Trails Notes (Mends.goOn (runTurn stop mode) n' t) := by
        cases t with
        | again s => exact (Rests.rounds (m := m) (fun _ => runTurn_rests) n' s).left
        | done s => exact (Rests.pure (m := m) s).left
      refine turn.bindBoth (f := Mends.goOn (runTurn stop mode) n) (g := Mends.goOn (runTurn stop mode) n') ?_
      intro t t' d d' out
      rcases out with ⟨rfl, bare, us, twin⟩ | judged | ⟨s, rfl, empty, parted⟩
      · cases t with
        | again s => exact ih n' bare twin
        | done s => exact .pure (.pure (.inl ⟨rfl, us, twin⟩))
      · exact (left t d).imp fun _ _ noted _ _ _ => .inr (.inl (noted.judged judged))
      · exact .pure ((right t' d').imp fun _ _ noted => .inr (.inr ⟨empty, parted.notes noted⟩))

/-- What is reported at the end of a run is the same. -/
theorem reportOpen_mends (stack : List Opener) : m.Mends p never (reportOpen stack) (reportOpen stack) := by
  unfold reportOpen
  split
  · exact .errorUnclosed (isUnclosed_unclosedKind _) _ _
  · exact .errorUnclosed rfl _ _
  · exact .pure ()

/-- A whole run comes out alike, or the runs have parted at its end. -/
theorem balanced_mends (stop : KindSet) (mode : RunMode) :
    m.Mends p (fun x _ d d' => Parted m stop mode x d d') (balanced stop mode) (balanced stop mode) where
  left := noting.balanced (p := Anywhere) stop mode
  right := noting.balanced (p := Anywhere) stop mode
  shifts i old old' := (shifting i old old').balanced (p := Anywhere) stop mode
  goes us c c' twin _ := by
    have out : Yields (loop {} (runTurn stop mode)) c fun x d => Yields (loop {} (runTurn stop mode)) c' fun y d' =>
        RunsOut m stop mode x y d d' := .get <| Yields.imp (rounds_part _ _ nofun twin) fun _ _ post => .get post
    have report (x : Run) : m.Rests (do reportOpen x.stack; return x.consumed) :=
      (reportOpen_rests x.stack).bind fun _ => .pure x.consumed
    refine out.bindBoth fun x y d d' post => ?_
    rcases post with ⟨rfl, us, twin⟩ | judged | ⟨empty, parted⟩
    · exact ((reportOpen_mends (p := Anywhere) x.stack).onward fun _ => .pure x.consumed).goes us d d' twin trivial
    · exact Goes.judged (((report x).left d).imp fun _ _ noted => noted.judged judged)
    · rw [empty]
      exact .pure (((report y).left d').imp fun _ _ noted => .inr (.inr (parted.notes noted)))

/-- At the word a run reads it or complains of it, or it is empty. -/
theorem balanced_word (before : m.Before [] c) : Yields (balanced stop mode) c fun x d =>
    d.Judged m.place ∨ x = false ∧ m.Before [] d := by
  have ends (r : Run) : m.Rests (do reportOpen r.stack; return r.consumed) :=
    (reportOpen_rests r.stack).bind fun _ => .pure r.consumed
  have out : Yields (loop {} (runTurn stop mode)) c fun r d => d.Judged m.place ∨ r = {} ∧ m.Before [] d := by
    refine .get ((runTurn_word before).bind (f := Mends.goOn (runTurn stop mode) c.total) fun t d post => ?_)
    rcases post with judged | ⟨same, rfl, -⟩
    · cases t with
      | again r =>
        exact ((Rests.rounds (m := m) (fun _ => runTurn_rests) c.total r).left d).imp fun _ _ noted =>
          .inl (noted.judged judged)
      | done r => exact .pure (.inl judged)
    · exact .pure (.inr ⟨rfl, before.same same⟩)
  refine out.bind fun r d post => ?_
  rcases post with judged | ⟨rfl, before⟩
  · exact ((ends r).left d).imp fun _ _ noted => .inl (noted.judged judged)
  · exact .pure (.inr ⟨rfl, before⟩)

end Mending

end ImplicitGlobals.Grammar
