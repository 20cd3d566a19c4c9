import ImplicitGlobals.Proofs.Mending.Runs

/-!
# Two runs over the parts of declarations

The parts that are built from runs of balanced words. A type that has swallowed the semicolon holds it in
its node. Elsewhere a run that the semicolon ends leaves the two runs side by side, if the first one does
not end early.

Patterns, parameters, type parameters and the members of an enum. Where a test looks one word ahead and
finds the word there, the first run reads up to it.
-/

namespace ImplicitGlobals.Grammar

namespace Mending

variable {m : Mending} {α β : Type} {u : Word} {us : List Word} {c c' d d' e e' : Cursor} {p : List Word → Prop}
  {stop : KindSet} {mode : RunMode} {early : Bool}

/-! ### Parts built from runs -/

/-- What else can happen over a run of a type or an expression: the first run has ended early, or at the word
if the semicolon does not end it. -/
def parts (m : Mending) (stop : KindSet) : α → α → Cursor → Cursor → Prop := fun _ _ d _ =>
  m.Off d ∨ stop.holds .semicolon = false ∧ m.Before [] d

/-- A parted run stays parted while nothing is read. -/
theorem steady_parts : Steady (parts m stop) := fun _ _ _ _ parted left _ =>
  parted.imp (·.stays left) (.imp id (·.stays left))

/-- A run that must not be empty. -/
def runOr (stop : KindSet) (mode : RunMode) (kind : DiagnosticKind) : Rule Unit := do
  if !(← balanced stop mode) then error kind

section

variable {kind : DiagnosticKind} (closed : kind.isUnclosed = false)
include closed

/-- A run complains of its absence, never of a semicolon. -/
theorem runOr_rests : m.Rests (runOr stop mode kind) :=
  (balanced_rests stop mode).bind fun _ => .ite (.error closed) (.pure ())

/-- Where nothing was read before the word, that is complained of there. -/
theorem runOr_mends :
    m.Mends p (fun _ _ d d' => Parted m stop mode true d d') (runOr stop mode kind) (runOr stop mode kind) :=
  (balanced_mends stop mode).bind (fun _ => .ite (fun _ => (Mends.error closed).only) fun _ => .pure ())
    fun consumed other d d' parted => by
      have right (consumed : Bool) : Trails Notes (if (!consumed) = true then error kind else pure ()) :=
        (Rests.ite (m := m) (.error closed) (.pure ())).left
      cases consumed with
      | true => exact .pure ((right other d').imp fun _ _ noted => .inr (.inr (parted.notes noted)))
      | false =>
        rcases parted with ⟨consumed, -⟩ | ⟨before, -⟩
        · cases consumed
        · exact .judged (Judges.error kind d before)

/-- Without angles nothing goes astray. -/
theorem runOr_parts (plain : mode.angles = false) :
    m.Mends p (parts m stop) (runOr stop mode kind) (runOr stop mode kind) := by
  refine (runOr_mends closed).imp fun _ _ _ _ parted => ?_
  refine parted.imp (·.2.2) fun left => ?_
  exact ⟨eq_false_of_ne_true fun holds => Bool.false_ne_true (plain.symm.trans (left.2 holds).1), left.1⟩

/-- In front of the word the run reads it or complains of it. -/
theorem runOr_judges : m.Judges (runOr stop mode kind) := fun c before =>
  (balanced_word before).bind fun consumed d post => by
    rcases post with judged | ⟨rfl, before⟩
    · exact ((Rests.ite (m := m) (.error closed) (.pure ())).left d).imp fun _ _ noted => noted.judged judged
    · exact Judges.error kind d before

end

/-- A type is closed around what it has swallowed. -/
theorem typeExpr_mends (stop : KindSet) : m.Mends p (parts m stop) (typeExpr stop) (typeExpr stop) where
  left := noting.typeExpr (p := Anywhere) stop
  right := noting.typeExpr (p := Anywhere) stop
  shifts i old old' := (shifting i old old').typeExpr (p := Anywhere) stop
  goes us c c' twin _ := by
    have run : m.Mends Anywhere _ (runOr stop .type .expectedType) (runOr stop .type .expectedType) := runOr_mends rfl
    refine nodes_close (R := m.Outcome (parts m stop) () ()) run.right fun d d' left right => ?_
    refine Yields.imp (run.goes us d d' (twin.stays left right) trivial) fun _ e post => ?_
    refine post.imp fun _ e' post f f' left right closed => ?_
    rcases post with ⟨-, us, twin⟩ | settled | ⟨-, -, off⟩ | ⟨before, swallows⟩
    · exact .inl ⟨rfl, us, twin.stays left right⟩
    · exact .inr (.inl (settled.stays left right))
    · exact .inr (.inr (.inl (off.stays left)))
    by_cases holds : stop.holds .semicolon = true
    · have swallows := (swallows holds).2
      obtain ⟨ts, has, words⟩ := closed
      refine .inr (.inl (.inr (.inl ⟨swallows.stays left right, ts, has, ?_⟩)))
      have behind := swallows.behind
      have before : c'.passed ≤ m.place := twin.passed ▸ twin.passed_le
      rw [words, List.mem_range'_1]
      omega
    · exact .inr (.inr (.inr ⟨eq_false_of_ne_true holds, before.stays left⟩))

/-- A type does not ask for semicolons. -/
theorem typeExpr_rests (stop : KindSet) : m.Rests (typeExpr stop) := .node (runOr_rests rfl)

/-- A part that its first word announces, and a run behind it. -/
theorem announced_mends {kind : TokenKind} {k : NodeKind} (run : Rule Unit) (other : kind ≠ .semicolon)
    (h : m.Mends Anywhere (parts m stop) run run) :
    m.Mends p (parts m stop) (do assertAt kind; node k (do bump; run)) (do assertAt kind; node k (do bump; run)) :=
  .assertAt kind other (.node (Mends.bump.onward fun _ => h) steady_parts)

/-- The part is announced by a word, so it reads that word or is not there. -/
theorem announced_judges {kind : TokenKind} {k : NodeKind} (run : Rule Unit) (notes : Trails Notes run) :
    m.Judges (do assertAt kind; node k (do bump; run)) := .assertAt (.node (Judges.bump.bind fun _ => notes))

theorem announced_rests {kind : TokenKind} {k : NodeKind} (run : Rule Unit) (h : m.Rests run) :
    m.Rests (do assertAt kind; node k (do bump; run)) :=
  (Rests.look fun c => (current_answers c).bind fun _ _ post => .ite (fun _ => .throw _) fun _ => .pure post.2).bind
    fun _ => .node (Rests.bump.bind fun _ => h)

/-- The colon is no semicolon, so both runs read it; then the type may part them. -/
theorem typeAscription_mends (stop : KindSet) : m.Mends p (parts m stop) (typeAscription stop) (typeAscription stop) :=
  announced_mends _ nofun (typeExpr_mends stop)

theorem typeAscription_judges (stop : KindSet) : m.Judges (typeAscription stop) :=
  announced_judges _ (typeExpr_rests (m := m) stop).left

/-- The same for the initializer behind its `=`. -/
theorem initializer_mends (stop : KindSet) : m.Mends p (parts m stop) (initializer stop) (initializer stop) :=
  announced_mends (runOr stop .expression .expectedExpression) nofun (runOr_parts rfl rfl)

theorem initializer_judges (stop : KindSet) : m.Judges (initializer stop) :=
  announced_judges (runOr stop .expression .expectedExpression) (runOr_rests (m := m) rfl).left

/-- Where the semicolon ends the run, the first run may only have ended early. -/
theorem Mends.ended {r r' : Rule Unit} (h : m.Mends p (parts m stop) r r') (ends : stop.holds .semicolon = true) :
    m.Mends p (m.off true ()) r r' := h.imp fun _ _ _ _ parted =>
  ⟨rfl, rfl, parted.resolve_right fun other => Bool.false_ne_true (other.1.symm.trans ends)⟩

/-- Inside delimiters a parted run is one that goes on alone. -/
theorem Drifts.parted {r r' : Rule Unit} (h : m.Mends Anywhere (parts m stop) r r') (rests : m.Rests r) :
    m.Drifts true r r' where
  toMends := h.imp fun _ _ _ _ parted => parted.elim (fun off => .inr ⟨rfl, off⟩) fun left => .inl left.2
  rests := rests.rests

/-- Where a type stands inside delimiters the first run goes on alone. -/
theorem typeExpr_drifts (stop : KindSet) : m.Drifts true (typeExpr stop) (typeExpr stop) :=
  .parted (typeExpr_mends stop) (typeExpr_rests stop)

theorem typeAscription_drifts (stop : KindSet) : m.Drifts true (typeAscription stop) (typeAscription stop) :=
  .parted (typeAscription_mends stop) (announced_rests _ (typeExpr_rests stop))

/-- So does an initializer. -/
theorem initializer_drifts (stop : KindSet) : m.Drifts true (initializer stop) (initializer stop) :=
  .parted (initializer_mends stop) (announced_rests (runOr stop .expression .expectedExpression) (runOr_rests rfl))

/-! ### Bodies -/

/-- A run that may end early only between delimiters. -/
theorem balanced_drifts (stop : KindSet) (mode : RunMode) (only : mode.boundary = true → early = true) :
    m.Drifts early (balanced stop mode) (balanced stop mode) where
  toMends := (balanced_mends stop mode).imp fun _ _ _ _ parted =>
    parted.elim (fun off => .inr ⟨only off.2.1, off.2.2⟩) fun left => .inl left.1
  rests := (balanced_rests stop mode).rests

/-- A round inside braces: only a stray closer is complained of. -/
theorem bodyTurn_drifts : m.Drifts false bodyTurn bodyTurn := by
  refine (balanced_drifts .empty .body nofun).bind fun _ => ?_
  refine .ask current_answers (near_kindIn 0) fun _ => ?_
  refine .ask atEnd_answers atEnd_near fun _ => ?_
  refine .ite (.pure false) ?_
  refine .ask currentText_answers ((near_getElem? 0).map fun w : Option Word => (w.map (·.text)).getD "") fun _ => ?_
  exact (Drifts.errorAndBump rfl _).answer true

theorem bodyMarks_closable : Closable ⟨.braceOpen, .braceClose, .unclosedBrace, "body opened here", true⟩ :=
  ⟨nofun, nofun, rfl⟩

/-- At the word a body begins with it, or is said to be missing. -/
theorem bracedBody_judges (kind : NodeKind) : m.Judges (bracedBody kind) := by
  refine .look (fun c => (currentIs_answers .braceOpen c).imp fun _ _ post => post.2) fun _ => ?_
  refine .ite (fun _ => (Judges.errorWith _ _).bind fun _ => (Rests.pure (m := m) ()).left) fun _ => ?_
  exact .node (bodyTurn_drifts.delimited_judges bodyMarks_closable)

/-- A body does not ask for semicolons. -/
theorem bracedBody_rests (kind : NodeKind) : m.Rests (bracedBody kind) :=
  (Rests.answers (currentIs_answers .braceOpen)).bind fun _ =>
    .ite ((Rests.errorWith rfl _).bind fun _ => .pure ()) (.node (bodyTurn_drifts.delimited bodyMarks_closable).toRests)

/-- In a body no run ends early, and behind its closer all is settled. -/
theorem bracedBody_mends (kind : NodeKind) : m.Mends p never (bracedBody kind) (bracedBody kind) := by
  have words : m.Mends Anywhere never
      (delimited ⟨.braceOpen, .braceClose, .unclosedBrace, "body opened here", true⟩ bodyTurn)
      (delimited ⟨.braceOpen, .braceClose, .unclosedBrace, "body opened here", true⟩ bodyTurn) :=
    (bodyTurn_drifts.delimited_off bodyMarks_closable).imp fun _ _ _ _ off => absurd off.2.1 nofun
  refine .askHere (currentIs_answers .braceOpen) (currentIs_near .braceOpen) (fun _ => ?_) fun _ => ?_
  · refine .ite (fun _ => (Mends.errorWith rfl _).onward fun _ => .pure ()) fun _ => ?_
    exact .node (words.given fun _ _ => trivial) steady_never
  · refine .ite (fun _ => (Judges.errorWith _ _).bind fun _ => (Rests.pure (m := m) ()).left) fun _ => ?_
    exact .node (bodyTurn_drifts.delimited_judges bodyMarks_closable)

/-! ### One word ahead -/

/-- Where a test that looks one word ahead is answered differently in front of the word, `split` says how the
first run goes on. -/
theorem Drifts.askNext {t : Rule α} {v : List Word → Option Limit → α} {f g : α → Rule β} (answers : Answers t v)
    (near : Near 1 (v · none)) (next : ∀ x, m.Drifts early (f x) (g x))
    (split : ∀ u c, m.Before [u] c → v (u :: m.ahead) none ≠ v (u :: m.ahead') none →
      Yields (f (v (u :: m.ahead) none)) c fun _ d => d.Judged m.place ∨ m.Adrift early d) :
    m.Drifts early (t >>= f) (t >>= g) where
  toMends := .ask answers (fun x => (next x).toMends.given fun _ _ => trivial) fun us c c' twin _ differs => by
    match us, near.length_le differs with
    | [], _ => exact .alone ((next _).toRests.adrift (.inl twin.toBefore)) fun _ _ _ _ => id
    | [u], _ => exact .alone (split u c twin.toBefore differs) fun _ _ _ _ => id
  rests := ((Rests.answers answers).bind fun x => (next x).toRests).rests

/-- A word in between is taken. -/
theorem Before.bump (before : m.Before (u :: us) c) : Yields bump c fun _ d => m.Before us d :=
  (bump_one c).imp fun _ _ ⟨_, _, took⟩ => before.took took

/-- A test that finds something in front of the word finds nothing in front of the semicolon. -/
theorem eq_true_of_differs {a b : Bool} (plain : b = false) (differs : a ≠ b) : a = true := by
  subst plain
  exact eq_true_of_ne_false differs

/-! ### Items -/

/-- An item is chosen by the current word; a stray word is complained of. -/
theorem itemTurn_drifts {closer : TokenKind} {starts : Rule Bool} {v : List Word → Option Limit → Bool}
    (answers : Answers starts v) (near : Near 0 (v · none)) {what : String} {item item' : Rule Unit}
    (h : m.Drifts early item item') :
    m.Drifts early (itemTurn closer starts what item) (itemTurn closer starts what item') := by
  refine .choose (endsAt_answers closer) (endsAt_near closer) (.pure false) ?_
  refine .ask answers near fun _ => ?_
  exact .ite ((Drifts.errorAndBump rfl _).answer true) (h.bind fun _ => .eat .comma nofun)

/-! ### Bindings -/

/-- Two words ahead tell whether a property key stands there. -/
theorem propertyKey_drifts (kind : TokenKind) : m.Drifts early (propertyKey kind) (propertyKey kind) := by
  have reads (b : Bool) : m.Drifts early (do if b then (do bump; bump)) (do if b then (do bump; bump)) :=
    .ite (Drifts.bump.bind fun _ => .bump) (.pure ())
  refine .ite (.pure ()) (.ask current_answers (near_kindIn 0) fun kind => ?_)
  refine .askNext ((Answers.pure _).and (nextIs_answers .colon)) ?_ reads fun u c before differs => ?_
  · exact .and (fun _ _ _ _ => rfl) ((near_kindIn 1).map (· == some .colon))
  · rw [eq_true_of_differs (Bool.and_false _) differs]
    exact before.bump.bind fun _ _ before => (Judges.bump _ before).imp fun _ _ => .inl

/-- A round over a pattern, for any nested pattern that drifts. -/
theorem patternTurn_drifts {inner inner' : Rule Unit} (h : m.Drifts true inner inner') (openKind : TokenKind)
    {closeKind : TokenKind} :
    m.Drifts true (patternTurn inner openKind closeKind) (patternTurn inner' openKind closeKind) := by
  have target : m.Drifts true
      (do inner; optional .equals (initializer .listItemEnd); eat .comma)
      (do inner'; optional .equals (initializer .listItemEnd); eat .comma) :=
    h.bind fun _ => (Drifts.optional _ (initializer_drifts _)).bind fun _ => .eat .comma nofun
  refine .choose (endsAt_answers closeKind) (endsAt_near closeKind) (.pure false) ?_
  refine (Drifts.eat .comma nofun).bind fun _ => .ite (.pure true) ?_
  refine (Drifts.eat .dotDotDot nofun).bind fun _ => (propertyKey_drifts openKind).bind fun _ => ?_
  exact .ask (currentIn_answers _) (currentIn_near _) fun _ => .ite ((Drifts.errorAndBump rfl _).answer true) target

theorem bracePattern_closable : Closable bracePattern := ⟨nofun, nofun, rfl⟩

theorem bracketPattern_closable : Closable bracketPattern := ⟨nofun, nofun, rfl⟩

theorem pattern_closable (braces : Bool) : Closable (if braces = true then bracePattern else bracketPattern) := by
  cases braces
  · exact bracketPattern_closable
  · exact bracePattern_closable

/-- A level is entered in front of the word. -/
theorem Before.descend (before : m.Before us c) : Yields descend c fun b d => b = true ∧ m.Before us d :=
  (descend_yields c).imp fun b d post => by
    cases b with
    | true => exact ⟨rfl, before.same post⟩
    | false => exact absurd (congrArg Budget.nesting before.free) post.1

/-- Levels are counted alike, as neither run is bounded. -/
theorem Mends.descend : m.Mends p never descend descend where
  left := noting.descend (p := Anywhere)
  right := noting.descend (p := Anywhere)
  shifts _ _ _ := .descend
  goes us c c' twin _ := by
    refine Yields.imp ((descend_yields c).both (descend_yields c')) fun b d post => post.imp fun b' d' posts => ?_
    obtain ⟨post, post'⟩ := posts
    cases b with
    | false => exact absurd (congrArg Budget.nesting twin.free) post.1
    | true =>
      cases b' with
      | false => exact absurd (congrArg Budget.nesting twin.free') post'.1
      | true => exact .inl ⟨rfl, us, twin.same post post'⟩

theorem Rests.descend : m.Rests descend where
  left := noting.descend (p := Anywhere)
  rests _ _ before := before.descend.imp fun _ _ post => post.2.nears

theorem Rests.ascend : m.Rests ascend := .look ascend_yields

theorem Mends.ascend : m.Mends p never ascend ascend := .quiet ascend_yields ascend_yields

section

variable {inner inner' : Rule Unit}

/-- The pattern node of a run that drifts inside: at its closer the question is settled, or the first run is
off. -/
theorem patternNode_off (h : m.Drifts true inner inner') {d : Delimiters} (plain : Closable d) :
    m.Mends p (m.off true ()) (patternNode inner d) (patternNode inner' d) :=
  .node ((patternTurn_drifts h _).delimited_off plain) steady_off

/-- At the word a pattern reads its opener. -/
theorem patternNode_judges (h : m.Drifts true inner inner) {d : Delimiters} (plain : Closable d) :
    m.Judges (patternNode inner d) := .node ((patternTurn_drifts h _).delimited_judges plain)

/-- In a pattern nothing asks for semicolons. -/
theorem patternNode_rests (h : m.Drifts true inner inner) {d : Delimiters} (plain : Closable d) :
    m.Rests (patternNode inner d) := .node (Drifts.delimited plain (patternTurn_drifts h _)).toRests

/-- Entering the level first changes nothing. -/
theorem bindingPattern_off (h : m.Drifts true inner inner') (h' : m.Drifts true inner inner) :
    m.Mends p (m.off true ()) (bindingPattern inner) (bindingPattern inner') := by
  refine Mends.descend.onward fun _ => .ite (fun _ => .pure ()) fun _ => ?_
  refine .askHere (currentIs_answers .braceOpen) (currentIs_near .braceOpen) (fun braces => ?_) fun _ => ?_
  · exact (patternNode_off h (pattern_closable braces)).idle (fun _ => Mends.ascend.only) fun c off =>
      (ascend_yields c).imp fun _ _ same => ⟨rfl, off.same same⟩
  · exact (patternNode_judges h' (pattern_closable _)).bind fun _ => noting.ascend (p := Anywhere)

theorem bindingPattern_rests (h : m.Drifts true inner inner) : m.Rests (bindingPattern inner) := by
  refine Rests.descend.bind fun _ => ?_
  refine .ite (.pure ()) ?_
  refine (Rests.answers (currentIs_answers .braceOpen)).bind fun braces => ?_
  refine (patternNode_rests h (pattern_closable braces)).bind fun _ => ?_
  exact .ascend

theorem bindingPattern_judges (h : m.Drifts true inner inner) : m.Judges (bindingPattern inner) := fun _ before =>
  before.descend.bind fun _ d post => by
    obtain ⟨rfl, before⟩ := post
    have pattern : m.Judges (do patternNode inner (if ← currentIs .braceOpen then bracePattern else bracketPattern); ascend) :=
      .look (fun c => (currentIs_answers .braceOpen c).imp fun _ _ post => post.2) fun braces =>
        (patternNode_judges h (pattern_closable braces)).bind fun _ => noting.ascend (p := Anywhere)
    exact pattern d before

end

/-- Where a rule for targets may be entered, so may one that nests them once more. -/
theorem targets_rests {n : Nat} (h : m.Drifts true (bindingWithin n) (bindingWithin n)) :
    m.Rests (bindingWithin (n + 1)) :=
  (Rests.answers current_answers).bind fun _ => .ite (bindingPattern_rests h) .nameRule

/-- The current word tells whether the target is a pattern or a name. -/
theorem targets_judges {n : Nat} (h : m.Drifts true (bindingWithin n) (bindingWithin n)) :
    m.Judges (bindingWithin (n + 1)) := by
  refine .look (fun c => (current_answers c).imp fun _ _ post => post.2) fun _ => ?_
  refine .ite (fun _ => bindingPattern_judges h) fun _ => ?_
  exact .nameRule

/-- The first run may have ended early within the target. -/
theorem targets_off {k n : Nat} (h : m.Drifts true (bindingWithin k) (bindingWithin n))
    (h' : m.Drifts true (bindingWithin k) (bindingWithin k)) :
    m.Mends p (m.off true ()) (bindingWithin (k + 1)) (bindingWithin (n + 1)) := by
  refine .askHere current_answers (near_kindIn 0) (fun _ => ?_) fun _ => ?_
  · refine .ite (fun _ => bindingPattern_off h h') fun _ => ?_
    exact Mends.nameRule.only
  · refine .ite (fun _ => bindingPattern_judges h') fun _ => ?_
    exact .nameRule

/-- Inside delimiters a run that is off is adrift. -/
theorem Drifts.ofOff {r r' : Rule Unit} (h : m.Mends Anywhere (m.off early ()) r r') (rests : m.Rests r) :
    m.Drifts early r r' where
  toMends := h.imp fun _ _ _ _ off => .inr off.2
  rests := rests.rests

/-- By induction on the fuel of both runs. -/
theorem bindingWithin_drifts (k n : Nat) : m.Drifts true (bindingWithin k) (bindingWithin n) := by
  induction k generalizing n with
  | zero => exact .throwLeft _ (noting.bindingWithin (p := Anywhere) n n)
  | succ k ih =>
    have rests := targets_rests (ih k)
    cases n with
    | zero => exact .ofOff (.throwRight _ rests.left) rests
    | succ n => exact .ofOff (targets_off (ih n) (ih k)) rests

/-- Both runs have fuel for all words, so the bound does not show. -/
theorem binding_off : m.Mends p (m.off true ()) binding binding :=
  .bounded (f := fun n => bindingWithin (n + 1)) (g := fun n => bindingWithin (n + 1)) fun k n =>
    targets_off (bindingWithin_drifts k n) (bindingWithin_drifts k k)

theorem binding_judges : m.Judges binding := fun c before =>
  .get (targets_judges (bindingWithin_drifts c.total c.total) c before)

theorem binding_drifts : m.Drifts true binding binding :=
  .bounded (f := fun n => bindingWithin (n + 1)) (g := fun n => bindingWithin (n + 1)) fun k n =>
    bindingWithin_drifts (k + 1) (n + 1)

/-! ### Parameters -/

/-- A binding, then a type and a default, which may part the runs. -/
theorem parameter_drifts : m.Drifts true parameter parameter := by
  refine .node ?_
  refine (Drifts.eat .dotDotDot nofun).bind fun _ => ?_
  refine binding_drifts.bind fun _ => ?_
  refine (Drifts.eat .question nofun).bind fun _ => ?_
  refine (Drifts.optional .colon (typeAscription_drifts _)).bind fun _ => ?_
  exact .optional .equals (initializer_drifts _)

theorem parameterTurn_drifts : m.Drifts true parameterTurn parameterTurn :=
  itemTurn_drifts ((currentIn_answers _).or (currentIs_answers .dotDotDot))
    (.or (currentIn_near _) (currentIs_near .dotDotDot)) parameter_drifts

theorem parameterMarks_closable : Closable parameterMarks := ⟨nofun, nofun, rfl⟩

/-- A list of parameters: at its parenthesis the question is settled. -/
theorem parameters_off : m.Mends p (m.off true ()) parameters parameters :=
  .assertAt .parenOpen nofun (.node (parameterTurn_drifts.delimited_off parameterMarks_closable) steady_off)

theorem parameters_judges : m.Judges parameters :=
  .assertAt (.node (parameterTurn_drifts.delimited_judges parameterMarks_closable))

/-! ### Type parameters -/

/-- A modifier is told from a name by the word behind it. -/
theorem typeParameterModifier_drifts : m.Drifts early typeParameterModifier typeParameterModifier := by
  refine .askNext (((atWord_answers "in").or ((atWord_answers "out").or (atWord_answers "const"))).and
    (nextIs_answers .ident)) ?_ (fun _ => .ite (Drifts.bump.answer true) (.pure false)) fun u c before differs => ?_
  · exact .and (.mono (.or (near_spells 0 _) (.or (near_spells 0 _) (near_spells 0 _))) (Nat.zero_le 1))
      ((near_kindIn 1).map (· == some .ident))
  · rw [eq_true_of_differs (Bool.and_false _) differs]
    exact before.bump.bind fun _ _ before => .pure (.inr (.inl before))

/-- The word `extends` and the type that bounds a parameter. -/
theorem constraint_drifts : m.Drifts true constraint constraint :=
  (Drifts.takeKeyword _).bind fun _ => typeExpr_drifts _

/-- A name with its constraint and its default, of which the last two may part the runs. -/
theorem typeParameter_drifts : m.Drifts true typeParameter typeParameter := by
  refine .node ?_
  refine typeParameterModifier_drifts.repeatWhile.bind fun _ => ?_
  refine Drifts.nameRule.bind fun _ => ?_
  refine (Drifts.choose (atKeyword_answers _) (near_spells 0 _) constraint_drifts (.pure ())).bind fun _ => ?_
  refine (Drifts.eat .equals nofun).bind fun _ => ?_
  exact .ite (typeExpr_drifts _) (.pure ())

theorem typeParameterTurn_drifts : m.Drifts true typeParameterTurn typeParameterTurn := by
  refine .choose (endsAt_answers .angleClose) (endsAt_near .angleClose) (.pure false) ?_
  refine typeParameter_drifts.bind fun _ => ?_
  exact .eat .comma nofun

theorem typeParameterMarks_closable : Closable typeParameterMarks := ⟨nofun, nofun, rfl⟩

/-- A list of type parameters, up to its closing angle. -/
theorem typeParameters_off : m.Mends p (m.off true ()) typeParameters typeParameters :=
  .assertAt .angleOpen nofun (.node (typeParameterTurn_drifts.delimited_off typeParameterMarks_closable) steady_off)

theorem typeParameters_judges : m.Judges typeParameters :=
  .assertAt (.node (typeParameterTurn_drifts.delimited_judges typeParameterMarks_closable))

/-! ### Enum bodies -/

/-- What is expected is read or complained of, and it is no semicolon. -/
theorem Rests.expect {kind : TokenKind} {what : String} : m.Rests (expect kind what) :=
  (Rests.eat kind).bind fun _ => .ite (.pure true) ((Rests.errorWith rfl _).bind fun _ => .pure false)

/-- A computed name in brackets. -/
theorem computedName_drifts : m.Drifts true computedName computedName := by
  refine Drifts.bump.bind fun _ => ?_
  refine (balanced_drifts .listItemEnd .expression fun _ => rfl).bind fun _ => ?_
  refine (Drifts.of (.expect .bracketClose nofun _) .expect).bind fun _ => ?_
  exact .pure ()

theorem enumMemberName_drifts : m.Drifts true enumMemberName enumMemberName :=
  .ask current_answers (near_kindIn 0) fun kind => by
    split
    · exact .nameRule
    · exact .node .bump
    · exact .node .bump
    · exact computedName_drifts

/-- A member with its initializer, which may part the runs. -/
theorem enumMember_drifts : m.Drifts true enumMember enumMember := by
  refine .node ?_
  refine enumMemberName_drifts.bind fun _ => ?_
  exact .optional .equals (initializer_drifts _)

theorem enumTurn_drifts : m.Drifts true enumTurn enumTurn :=
  itemTurn_drifts (currentIn_answers _) (currentIn_near _) enumMember_drifts

theorem enumMarks_closable : Closable enumMarks := ⟨nofun, nofun, rfl⟩

/-- An enum body, or the complaint that none is there. -/
theorem enumBody_off : m.Mends p (m.off true ()) enumBody enumBody :=
  .branch (currentIs_answers .braceOpen) (currentIs_near .braceOpen) rfl
    (.node (enumTurn_drifts.delimited_off enumMarks_closable) steady_off) (Mends.errorWith rfl _).only
    (.node (enumTurn_drifts.delimited_judges enumMarks_closable))

end Mending

end ImplicitGlobals.Grammar
