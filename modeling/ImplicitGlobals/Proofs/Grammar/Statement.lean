import ImplicitGlobals.Grammar.Statement
import ImplicitGlobals.Proofs.Grammar.Module

/-!
# Statements come back

A statement reads a word whatever stands there: a declaration reads its keyword,
modifiers are words themselves, and recovery skips the first word it meets. Only a
spent budget lets it stand still, and then the loops around it end.
-/

namespace ImplicitGlobals.Grammar

variable {c d o : Cursor} {n : Nat} {inner : Rule Unit}

theorem Chosen.alike {b : Bool} {e : Cursor} (same : Alike c d) (h : Chosen o d b e) : Chosen o c b e := by
  refine ⟨h.1, ?_⟩
  have end' := h.2
  cases b with
  | true => exact same.passed ▸ end'
  | false => exact same.trans end'

/-! ### Declarations -/

/-- A declaration that a test lets begin. -/
theorem onlyIf_chosen {p : List Word → Prop} {k : Cost} {r : Checkpoint → Rule Unit} {m : Nat}
    {test : Rule Bool} {v : List Word → Option Limit → Bool} (asks : Asks m test v) (h : Wraps p k r)
    (back : Walk o c) (sound : o.Sound) (entry : v c.rest c.refused = true → p c.rest) :
    Runs ((Cost.looks m).seq ((k.seq .free).alt .free)) (onlyIf test (r o.parts.size)) c (Chosen o c) := by
  apply (asks.runs c).branch
  · rintro d ⟨found, looked⟩
    exact h.chosen (back.trans looked.walk) sound looked.toAlike (looked.rest ▸ entry found.symm)
  · rintro d ⟨-, looked⟩
    exact .pure ⟨back.trans looked.walk, looked.toAlike⟩

/-- What follows a keyword is looked up. -/
theorem bindingFollows_tests : Tests 1 bindingFollows := next_tests

/-- What is known where a declaration is chosen: the keyword, if it is one, and how many
words there are. -/
structure Facing (n : Nat) (k : Option Keyword) (ws : List Word) : Prop where
  ident : kindIn ws 0 = some .ident
  announces : ∀ j, k = some j → Announces j ws
  few : ws.length ≤ n

/-- The cost of a declaration. -/
def Cost.declaration : Cost := ⟨7, some 2, some 55, 104⟩

/-- Each first keyword has its declaration, or none. -/
theorem declarationOf_chooses (h : Statements n .statement inner) (isDefault : Bool) (k : Option Keyword) :
    Chooses (Facing n k) .declaration fun point => declarationOf inner point isDefault k := by
  intro o c back sound facing
  have other : Runs .declaration (Pure.pure false) c (Chosen o c) :=
    Runs.weaken (.pure ⟨back, .refl c⟩) (by decide)
  cases k with
  | none => exact other
  | some k =>
    have keyword := facing.announces k rfl
    cases k with
    | kwConst =>
      have bindings (d : Cursor) (toD : Walk o d) (same : Alike c d) :
          Runs ⟨3, some 1, some 21, 24⟩ (onlyIf bindingFollows (variableStatement o.parts.size)) d
            (Chosen o c) := by
        obtain ⟨v, asks⟩ := bindingFollows_tests
        have ident : kindIn d.rest 0 = some .ident := same.rest ▸ facing.ident
        exact ((onlyIf_chosen asks variableStatement_wraps toD sound fun _ => ident).imp
          fun _ _ => Chosen.alike same).weaken (by decide)
      apply Runs.weaken
      -- One more word tells `const enum` from `const`.
      · apply ((nthIsKeyword_asks 1 .kwEnum).runs c).branch
        · rintro d ⟨found, looked⟩
          refine enumDeclaration_wraps.chosen (back.trans looked.walk) sound looked.toAlike ?_
          exact .inr ⟨looked.rest ▸ keyword, looked.rest ▸ found.symm⟩
        · rintro d ⟨-, looked⟩
          exact bindings d (back.trans looked.walk) looked.toAlike
      · decide
    | kwVar | kwLet =>
      obtain ⟨v, asks⟩ := bindingFollows_tests
      exact (onlyIf_chosen asks variableStatement_wraps back sound fun _ => facing.ident).weaken (by decide)
    | kwFunction =>
      exact (onlyIf_chosen (.pure true) (functionDeclaration_wraps isDefault) back sound
        fun _ => keyword).weaken (by decide)
    | kwClass =>
      exact (onlyIf_chosen (.pure true) (classDeclaration_wraps isDefault) back sound
        fun _ => keyword).weaken (by decide)
    | kwInterface =>
      exact (onlyIf_chosen (nextIs_asks .ident) interfaceDeclaration_wraps back sound
        fun _ => keyword).weaken (by decide)
    | kwType =>
      exact (onlyIf_chosen (nextIs_asks .ident) typeAlias_wraps back sound
        fun _ => keyword).weaken (by decide)
    | kwEnum =>
      exact (onlyIf_chosen (nextIs_asks .ident) enumDeclaration_wraps back sound
        fun _ => .inl keyword).weaken (by decide)
    | kwNamespace =>
      exact (onlyIf_chosen (nextIs_asks .ident) (moduleDeclaration_wraps h) back sound
        fun _ => ⟨facing.ident, facing.few⟩).weaken (by decide)
    | kwModule =>
      apply Runs.weaken
      · apply (kindAt_asks 1).runsOn
        intro d looked
        have known : Few n (fun ws => kindIn ws 0 = some .ident) d.rest :=
          looked.rest ▸ ⟨facing.ident, facing.few⟩
        exact (onlyIf_chosen (.pure _) (moduleDeclaration_wraps h) (back.trans looked.walk) sound
          fun _ => known).imp fun _ _ => Chosen.alike looked.toAlike
      · decide
    | kwGlobal =>
      exact (onlyIf_chosen (nextIs_asks .braceOpen) (globalDeclaration_wraps h) back sound
        fun brace => ⟨⟨keyword, eq_of_beq brace⟩, facing.few⟩).weaken (by decide)
    | kwImport =>
      exact (onlyIf_chosen (.pure !isDefault) importStatement_wraps back sound
        fun _ => keyword).weaken (by decide)
    | _ => exact other

/-- A declaration is chosen by its first word, or nothing is read. -/
theorem declaration_chooses (h : Statements n .statement inner) (isDefault : Bool) :
    Chooses (fun ws => ws.length ≤ n) ⟨9, some 4, some 55, 104⟩
      fun point => declaration inner point isDefault := by
  intro o c back sound few
  apply Runs.weaken
  · apply current_asks.runsOn
    intro d looked
    apply Runs.ite
    · exact fun _ => .pure ⟨back.trans looked.walk, looked.toAlike⟩
    intro ident
    apply currentText_asks.runsOn
    intro e looked'
    have same : Alike c e := looked.toAlike.trans looked'.toAlike
    have here : kindIn c.rest 0 = some .ident := Decidable.not_not.1 ident
    have facing : Facing n (Keyword.ofWord? ((d.rest[0]?.map (·.text)).getD "")) e.rest := by
      rw [same.rest, looked.rest]
      refine ⟨here, fun k spelt => ?_, few⟩
      exact announces_of_ofWord? here spelt
    exact (declarationOf_chooses h isDefault _ o e (back.trans (looked.walk.trans looked'.walk)) sound
      facing).imp fun _ _ => Chosen.alike same
  · decide

/-! ### Recovery -/

/-- A complaint at the start of a statement reads nothing. -/
theorem complainOfStart_walks (hasModifiers : Bool) (c : Cursor) :
    Walks ⟨4, some 4, none, 4⟩ (complainOfStart hasModifiers) c fun _ d =>
      d.rest = c.rest ∧ d.passed = c.passed ∧ d.refused = c.refused := by
  have done {a e : Cursor} {anchors : Bool} (same : Alike c a) (h : Complained anchors a e) :
      e.rest = c.rest ∧ e.passed = c.passed ∧ e.refused = c.refused :=
    ⟨h.rest.trans same.rest, h.passed.trans same.passed, h.refused.trans same.refused⟩
  apply Walks.weaken
  · apply ((currentIs_asks .garbage).walks c).branch
    · exact fun d _ asked => (error_walks _ d).imp fun _ _ _ => done asked.2.toAlike
    intro d _ asked
    apply Walks.ite
    · exact fun _ => (error_walks _ d).imp fun _ _ _ => done asked.2.toAlike
    intro _
    apply ((currentIn_asks .closers).walks d).branch
    · intro e _ asked'
      apply currentText_asks.walksOn
      intro f looked
      have same := (asked.2.toAlike.trans asked'.2.toAlike).trans looked.toAlike
      exact (errorWith_walks _ _ f).imp fun _ _ _ => done same
    · intro e _ asked'
      apply currentText_asks.walksOn
      intro f looked
      have same := (asked.2.toAlike.trans asked'.2.toAlike).trans looked.toAlike
      exact (errorWith_walks _ _ f).imp fun _ _ _ => done same
  · decide

/-- Whether a recovery ends is looked up. -/
theorem skippingEnds_tests (inBlock : Bool) (kind : Option TokenKind) :
    Tests 3 (skippingEnds inBlock kind) := by
  obtain ⟨v, asks⟩ := atStatementStart_tests
  exact ⟨_, (Asks.pure (kind == some .braceClose && inBlock)).or asks⟩

/-- Skipping that began at `c`: as long as it has not started all is as it was. -/
def Skips (c : Cursor) (s : Skipping) (d : Cursor) : Prop :=
  (s.started = false ∧ Alike c d) ∨ c.passed < d.passed

/-- One turn of a recovery gets on, or ends it. -/
theorem skipTurn_walks (inBlock : Bool) (s : Skipping) (skips : Skips c s d) :
    Walks ⟨6, some 4, some 0, 6⟩ (skipTurn inBlock s) d (Round (Skips c) (fun _ => Proceeds c) d) := by
  have moved (e : Cursor) (h : d.passed < e.passed) : c.passed < e.passed := by
    rcases skips with ⟨-, same⟩ | read
    · exact same.passed ▸ h
    · exact Nat.lt_trans read h
  have stopped {e : Cursor} (same : Alike d e) (h : c.passed < d.passed) : Proceeds c e :=
    fun _ _ => same.passed ▸ h
  apply Walks.weaken
  · apply (atEnd_asks.walks d).branch
    · intro e _ asked
      refine .pure ?_
      rcases skips with ⟨-, same⟩ | read
      · intro some lasts
        simp [same.rest, same.refused, some, lasts] at asked
      · exact stopped asked.2.toAlike read
    intro e _ asked
    obtain ⟨w, ws, rest, -⟩ := exists_of_not_atEnd asked.1
    apply current_asks.walksOn
    intro f looked
    have ends : Asks 3 (pure (s.started && s.depth == 0) <&&> skippingEnds inBlock (kindIn e.rest 0)) _ :=
      (Asks.pure (s.started && s.depth == 0)).and (skippingEnds_tests inBlock _).choose_spec
    apply (ends.walks f).branch
    · intro g _ asked'
      have started := (Bool.and_eq_true_iff.1 (Bool.and_eq_true_iff.1 asked'.1.symm).1).1
      have read : c.passed < d.passed := skips.resolve_left fun h => by simp [h.1] at started
      exact .pure (stopped ((asked.2.toAlike.trans looked.toAlike).trans asked'.2.toAlike) read)
    intro g _ asked'
    have same := (asked.2.toAlike.trans looked.toAlike).trans asked'.2.toAlike
    have here : kindIn g.rest 0 = some w.kind := by
      rw [same.rest, rest]
      rfl
    apply (bump_walks here).bind
    intro _ i _ read
    have further : d.passed < i.passed := same.passed ▸ read.lt
    apply Walks.ite
    · exact fun _ => .pure fun _ _ => moved i further
    · exact fun _ => .pure ⟨further, .inr (moved i further)⟩
  · decide

/-- A recovery gets on: its first word is always skipped. -/
theorem skipping_walks (c : Cursor) :
    Walks ⟨6, some 4, some 4, 6⟩ (do let _ ← loop {} (skipTurn (← inBlock))) c fun _ d =>
      Proceeds c d := by
  apply Walks.weaken
  · apply (inBlock_walks c).bind
    intro b d _ same
    rw [same]
    have start : Skips c {} c := .inl ⟨rfl, .refl c⟩
    apply (loop_walks start fun s d skips => skipTurn_walks b s skips).bind
    exact fun _ _ _ proceeds => .pure proceeds
  · decide

/-- Recovery skips what it complains of. -/
theorem recover_runs (hasModifiers : Bool) (back : Walk o c) (sound : o.Sound) :
    Runs ⟨10, some 8, some 4, 10⟩ (recover o.parts.size hasModifiers) c fun _ d =>
      Walk o d ∧ c.passed ≤ d.passed ∧ Proceeds c d := by
  apply Runs.weaken
  · apply Runs.bind (complainOfStart_walks hasModifiers c)
    rintro _ d ⟨toD, rest, passed, refused⟩
    have skipped : Walks ⟨6, some 4, some 4, 6⟩ (do let _ ← loop {} (skipTurn (← inBlock)))
        (d.openNode .error o.parts.size) fun _ f => c.passed ≤ f.passed ∧ Proceeds c f := by
      refine (skipping_walks _).imp fun _ f walk proceeds => ?_
      refine ⟨passed ▸ walk.frame.passed_le, fun some lasts => ?_⟩
      rw [← passed]
      exact proceeds (rest ▸ some) (refused ▸ lasts)
    apply (nodeAt_runs (back.trans toD) sound (fun _ _ _ => rfl) skipped).imp
    rintro _ f ⟨whole, -, e, rfl, le, proceeds⟩
    exact ⟨whole, le, proceeds⟩
  · decide

/-! ### Statements -/

/-- Modifiers read on the way from `c`: none, or a word at least. -/
def Modified (c : Cursor) (m : Modifiers) (d : Cursor) : Prop :=
  (m = {} ∧ Alike c d) ∨ c.passed < d.passed

theorem Modified.alike {m : Modifiers} {e : Cursor} (h : Modified c m d) (same : Alike d e) :
    Modified c m e :=
  h.imp (fun unread => ⟨unread.1, unread.2.trans same⟩) fun read => same.passed ▸ read

/-- A modifier is read and noted, or none is left. -/
theorem modifierTurn_walks (m : Modifiers) (start : Modified c m d) :
    Walks ⟨7, some 6, some 0, 7⟩ (modifierTurn m) d (Round (Modified c) (Modified c) d) := by
  have takes {e : Cursor} {k : Keyword} (m' : Modifiers) (same : Alike d e)
      (found : Announces k e.rest) :
      Walks (.reads 1) (do takeKeyword k; return .again m') e (Round (Modified c) (Modified c) d) := by
    refine Walks.weaken ((takeKeyword_walks found).bind fun _ f _ read => .pure ?_) (by decide)
    have further : d.passed < f.passed := same.passed ▸ read.lt
    refine ⟨further, .inr ?_⟩
    rcases start with ⟨-, same'⟩ | before
    · exact same'.passed ▸ further
    · exact Nat.lt_trans before further
  apply Walks.weaken
  · apply ((atKeyword_asks .kwExport).walks d).branch
    · exact fun e _ asked => takes _ asked.2.toAlike (asked.2.rest ▸ asked.1.symm)
    intro e _ asked
    have isDefault := (atKeyword_asks .kwDefault).and (Asks.pure m.any)
    apply (isDefault.walks e).branch
    · intro f _ asked'
      have found := (Bool.and_eq_true_iff.1 asked'.1.symm).1
      exact takes _ (asked.2.toAlike.trans asked'.2.toAlike) (asked'.2.rest ▸ found)
    intro f _ asked'
    have isDeclare := (atKeyword_asks .kwDeclare).and (nextIs_asks .ident)
    apply (isDeclare.walks f).branch
    · intro g _ asked''
      have found := (Bool.and_eq_true_iff.1 asked''.1.symm).1
      exact takes _ ((asked.2.toAlike.trans asked'.2.toAlike).trans asked''.2.toAlike)
        (asked''.2.rest ▸ found)
    intro g _ asked''
    have isAbstract := (atKeyword_asks .kwAbstract).and (nthIsKeyword_asks 1 .kwClass)
    have same := (asked.2.toAlike.trans asked'.2.toAlike).trans asked''.2.toAlike
    apply (isAbstract.walks g).branch
    · intro i _ last
      have found := (Bool.and_eq_true_iff.1 last.1.symm).1
      exact takes _ (same.trans last.2.toAlike) (last.2.rest ▸ found)
    · exact fun i _ last => .pure (start.alike (same.trans last.2.toAlike))
  · decide

/-- Modifiers are read as long as there are any. -/
theorem modifiers_walks (c : Cursor) : Walks ⟨7, some 6, some 6, 7⟩ modifiers c (Modified c) := by
  have start : Modified c {} c := .inl ⟨rfl, .refl c⟩
  exact (loop_walks start fun m d modified => modifierTurn_walks m modified).weaken (by decide)

/-- An expression is entered behind `export default`. -/
theorem exportDefault_runs (back : Walk o c) (sound : o.Sound) (begun : 0 < c.passed) :
    Runs ⟨12, some 12, some 12, 12⟩ (exportDefault o.parts.size) c fun _ d =>
      Walk o d ∧ c.passed ≤ d.passed := by
  have tail : Walks ⟨12, some 12, some 12, 12⟩ expressionTail (c.openNode .exportAssignment o.parts.size)
      fun _ e => c.passed ≤ e.passed :=
    (expressionTail_later (c.openNode .exportAssignment o.parts.size) begun).imp fun _ e walk _ => walk.frame.passed_le
  refine (nodeAt_runs back sound (fun _ _ _ => rfl) tail).imp fun _ d post => ?_
  obtain ⟨whole, -, e, rfl, le⟩ := post
  exact ⟨whole, le⟩

/-- What comes behind the modifiers. -/
theorem modified_runs {m : Modifiers} (h : Statements n .statement inner) (few : c.rest.length ≤ n)
    (back : Walk o c) (toD : Walk c d) (sound : o.Sound) (modifiers : Modified c m d) :
    Runs ⟨16, some 16, some 67, 104⟩ (modified inner o.parts.size m) d fun _ e =>
      Walk o e ∧ Proceeds c e := by
  have fewer : d.rest.length ≤ n := Nat.le_trans toD.frame.length_rest_le few
  apply Runs.weaken
  · apply (declaration_chooses h m.isDefault o d (back.trans toD) sound fewer).branch
    · rintro e ⟨whole, read⟩
      exact .pure ⟨whole, fun _ _ => Nat.lt_of_le_of_lt toD.frame.passed_le read⟩
    rintro e ⟨whole, alike⟩
    replace modifiers : Modified c m e := modifiers.alike alike
    apply Runs.ite
    · intro isDefault
      have read : c.passed < e.passed := modifiers.resolve_left fun h => by simp [h.1] at isDefault
      exact (exportDefault_runs whole sound (Nat.zero_lt_of_lt read)).imp fun _ _ post =>
        ⟨post.1, fun _ _ => Nat.lt_of_lt_of_le read post.2⟩
    · intro _
      refine (recover_runs m.any whole sound).imp fun _ f post => ⟨post.1, fun some lasts => ?_⟩
      rcases modifiers with ⟨-, same⟩ | read
      · exact same.passed ▸ post.2.2 (same.rest ▸ some) (same.refused ▸ lasts)
      · exact Nat.lt_of_lt_of_le read post.2.1
  · decide

/-- A statement gets on wherever it is entered, at a bounded cost. -/
theorem statementAt_walks (h : Statements n .statement inner) (few : c.rest.length ≤ n)
    (sound : c.Sound) :
    Walks ⟨33, some 33, some 67, 104⟩ (statementAt inner c.parts.size) c fun _ d => Proceeds c d := by
  apply Runs.weaken
  · apply Runs.branch ((currentIs_asks .semicolon).walks c)
    · rintro d ⟨toD, asked⟩
      have here : kindIn d.rest 0 = some .semicolon := asked.2.rest ▸ eq_of_beq asked.1.symm
      have semicolon : Reads (.reads 2) (node .emptyStatement bump) d :=
        node_reads (by decide) fun e alike => bump_reads (alike.rest ▸ here)
      refine Runs.imp (semicolon.bind fun _ => .pure ()) fun _ e post => ⟨toD.trans post.1, fun _ _ => ?_⟩
      exact Nat.lt_of_le_of_lt toD.frame.passed_le post.2
    rintro d ⟨toD, asked⟩
    have further (e : Cursor) (walk : Walk c e) (same : Alike c e) :
        Runs ⟨25, some 25, some 67, 104⟩ (do modified inner c.parts.size (← modifiers)) e fun _ f =>
          Walk c f ∧ Proceeds c f := by
      apply Runs.weaken
      · apply Runs.bind (modifiers_walks e)
        rintro m f ⟨toF, modifiers⟩
        refine modified_runs h few (.refl c) (walk.trans toF) sound ?_
        exact modifiers.imp (fun unread => ⟨unread.1, same.trans unread.2⟩) fun read => same.passed ▸ read
      · decide
    have form : Runs ⟨8, some 7, some 32, 32⟩ (atKeyword .kwExport <&&> exportForm c.parts.size) d
        (Chosen c c) := by
      rw [and_eq_branch]
      apply Runs.weaken
      · apply ((atKeyword_asks .kwExport).runs d).branch
        · rintro e ⟨found, looked⟩
          have keyword : Announces .kwExport e.rest := looked.rest ▸ found.symm
          exact (exportForm_chooses c e (toD.trans looked.walk) sound keyword).imp
            fun _ _ => Chosen.alike (asked.2.toAlike.trans looked.toAlike)
        · rintro e ⟨-, looked⟩
          exact .pure ⟨toD.trans looked.walk, asked.2.toAlike.trans looked.toAlike⟩
      · decide
    apply form.branch
    · rintro e ⟨walk, read⟩
      exact .pure ⟨walk, fun _ _ => read⟩
    · rintro e ⟨walk, same⟩
      exact further e walk same
  · decide

/-- A statement is no deeper nested than there are words. -/
theorem statementWithin_statements (n : Nat) : Statements n .statement (statementWithin n) := by
  induction n with
  | zero => exact fun c few => absurd few (Nat.not_lt_zero _)
  | succ n ih =>
    intro c few
    apply Walks.weaken
    · apply (checkpoint_walks c).bind
      rintro point d toD ⟨rfl, looked⟩
      apply Walks.ofSound
      intro sound
      have within : d.rest.length ≤ n := looked.rest ▸ Nat.le_of_lt_succ few
      apply (statementAt_walks ih within sound).imp
      intro _ e _ proceeds some lasts
      exact looked.passed ▸ proceeds (looked.rest ▸ some) (looked.refused ▸ lasts)
    · decide

/-- Statements to any depth do. -/
theorem statement_walks (c : Cursor) : Walks .statement statement c fun _ d => Proceeds c d :=
  .ofSound fun sound => .get (statementWithin_statements (c.total + 1) c (Nat.lt_succ_of_le sound.rounds))

/-! ### Sources -/

/-- Where a source ends: behind its last word, or where the budget is spent. -/
def Ended (c : Cursor) : Prop := c.rest = [] ∨ c.refused ≠ none

/-- The statements of a source get on, and end at its end. -/
theorem sourceTurn_walks (c : Cursor) :
    Walks ⟨33, some 33, some 67, 104⟩ sourceTurn c fun b d =>
      if b = true then c.passed < d.passed else Ended d := by
  apply Walks.weaken
  · apply (atEnd_asks.walks c).branch
    · intro d _ asked
      refine .pure ?_
      have spent := Bool.or_eq_true_iff.1 asked.1.symm
      rw [← asked.2.rest, ← asked.2.refused] at spent
      exact spent.imp List.isEmpty_iff.1 Option.isSome_iff_ne_none.1
    · intro d _ asked
      obtain ⟨w, ws, rest, lasts⟩ := exists_of_not_atEnd asked.1
      apply (statement_walks d).bind
      intro _ e _ proceeds
      have read : d.passed < e.passed :=
        proceeds (by rw [asked.2.rest, rest]; exact List.cons_ne_nil w ws) (asked.2.refused.trans lasts)
      exact .pure (asked.2.passed ▸ read)
  · decide

/-- The last gap is placed without a look. -/
theorem skipAndPlaceGap_walks (c : Cursor) :
    Walks .free skipAndPlaceGap c fun _ d => Alike c d ∧ d.gap = .placed := by
  intro _ sound _
  have walk : Walk c c.skipGap.placeGap := (Walk.skipGap c).trans (.placeGap _)
  refine ⟨(), _, rfl, walk.sound sound, Cost.covers_free c, walk, ⟨rfl, rfl, rfl, rfl, rfl, rfl⟩, ?_⟩
  cases h : c.gap <;> simp [Cursor.placeGap, Cursor.skipGap, Gap.skipped, Gap.settled, h]

theorem Cursor.sound_start (budget : Budget) (words : List Word) : (start budget words).Sound :=
  ⟨Nat.le_refl _, fun _ h => absurd h (by simp [start]), Nat.le_refl _, fun h => absurd rfl h⟩

/-- The cursor at the end of a source: every gap is in its place, and all that was read
is one tree. -/
structure Complete (c : Cursor) : Prop where
  ended : Ended c
  gap : c.gap = .placed
  tree : ∃ children, c.parts.toList = [.node .sourceFile children]

/-- The whole source is read from its start, complete. -/
theorem sourceFile_walks (budget : Budget) (words : List Word) :
    Walks ⟨33, some 33, some 100, 104⟩ sourceFile (.start budget words) fun _ d => Complete d := by
  have statements (c : Cursor) : Walks ⟨33, some 33, some 100, 104⟩ (do
      repeatWhile sourceTurn
      skipAndPlaceGap) c fun _ d => Ended d ∧ d.gap = .placed := by
    apply Walks.weaken
    · apply (repeatWhile_ends (fun d _ => sourceTurn_walks d) (Nat.lt_succ_self _)).bind
      intro _ d _ ended
      apply (skipAndPlaceGap_walks d).imp
      rintro _ e - ⟨alike, placed⟩
      exact ⟨by rwa [Ended, alike.rest, alike.refused], placed⟩
    · decide
  apply (node_walks (by decide) fun d _ => statements d).imp
  rintro _ d - ⟨-, e, rfl, ended, placed⟩
  refine ⟨ended, placed, e.parts.toList, ?_⟩
  rw [Cursor.toList_parts_closeNode]
  simp [Cursor.start, Cursor.placeGap, Gap.due]

/-- Every source is read to its end, whatever it holds and whatever the budget is. -/
theorem source_run (budget : Budget) (words : List Word) :
    ∃ c, source.run (.start budget words) = .ok ((), c) ∧ Walk (.start budget words) c ∧ Complete c := by
  obtain ⟨_, d, run, -, -, walk, complete⟩ :=
    sourceFile_walks budget words (by decide) (Cursor.sound_start budget words)
      (show 33 ≤ lookLimit by decide)
  refine ⟨d.placeGap, ?_, walk.trans (.placeGap d), complete.ended, ?_, ?_⟩
  · rw [source, StateT.run_bind, run]
    rfl
  · simp [Cursor.placeGap, complete.gap, Gap.settled]
  · simpa [Gap.due, complete.gap] using complete.tree

end ImplicitGlobals.Grammar
