import ImplicitGlobals.Grammar.Declaration
import ImplicitGlobals.Proofs.Acceptance.Logic

/-!
# Runs and declarations without complaint

A run that ends without complaint has closed every bracket that it opened, for it complains of
what stays open. Then each rule for a declaration adds a node that has the parts its kind
needs.
-/

namespace ImplicitGlobals.Grammar

variable {c d e : Cursor}

/-! ### Runs -/

/-- The open brackets of a run, without the angles. -/
def bracketsOf (stack : List Opener) : List TokenKind :=
  (stack.map (·.kind)).filter (· != .angleOpen)

/-- Angles are no brackets that are kept. -/
theorem bracketsOf_dropAngles (stack : List Opener) :
    bracketsOf (dropAngles stack) = bracketsOf stack := by
  induction stack with
  | nil => rfl
  | cons o below ih =>
    unfold dropAngles
    by_cases angle : o.kind = .angleOpen
    · rw [List.dropWhile_cons_of_pos (by simpa using angle)]
      simpa [bracketsOf, angle, dropAngles] using ih
    · rw [List.dropWhile_cons_of_neg (by simpa using angle)]

theorem bracketsOf_tail {stack : List Opener}
    (angle : stack.head?.any (·.kind == .angleOpen) = true) :
    bracketsOf stack.tail = bracketsOf stack := by
  cases stack with
  | nil => cases angle
  | cons o below =>
    have : o.kind = .angleOpen := by simpa using angle
    simp [bracketsOf, this]

/-- The kinds of parts of which one at least is a word. -/
def someWord : Language Kind := {ks | ks.any (·.isLeaf) = true}

/-- What a run has added so far. -/
def Run.content (consumed : Bool) : Language Kind := if consumed = true then someWord else ⊤

/-- A leaf behind some words is still at least one word. -/
theorem mul_leaf_le (L : Language Kind) (label : LeafKind) : L * {[.leaf label]} ≤ someWord := by
  intro ks mem
  obtain ⟨as, -, bs, rfl, rfl⟩ := Language.mem_mul.1 mem
  simp [someWord, Kind.isLeaf]

/-- What a run that began at `c` has read: all brackets but the open ones are closed. -/
def RunKept (c : Cursor) (r : Run) (d : Cursor) : Prop :=
  Fills c d (bracketsOf r.stack) (Run.content r.consumed)

/-- A round of a run, whether it goes on or not. -/
abbrev RunKept.Round (c : Cursor) : Turn Run → Cursor → Prop
  | .again r, d => RunKept c r d
  | .done r, d => RunKept c r d

theorem RunKept.same {r : Run} (h : RunKept c r d) (same : Same d e) : RunKept c r e := by
  simpa [RunKept] using Fills.trans h (.same same)

theorem Same.at {kind : TokenKind} (same : Same c d) (h : At kind c.rest) : At kind d.rest := by
  obtain ⟨_, _, _, rfl⟩ := same
  exact h

/-- The round that reads a word of the kind and goes on with the stack that this leaves. -/
theorem bumpRound_accepts {kind : TokenKind} {r : Run} {stack : List Opener}
    (here : At kind d.rest) (clean : kind ≠ .garbage) (kept : d.Tidy → RunKept c r d)
    (step : nestStep false (bracketsOf r.stack) kind = some (bracketsOf stack)) :
    Accepts (do bump; return .again ⟨stack, true⟩) d (RunKept.Round c) := by
  refine Yields.bind (bump_yields d) fun _ e ⟨w, took⟩ => .pure fun tidy => ?_
  have began := took.tidy tidy
  have is : w.kind = kind := by simpa [At, kindIn, took.rest] using here
  refine ⟨began, ?_⟩
  exact (Fills.took (kept began) took (is ▸ step) (by simpa [is] using clean)).mono
      (mul_leaf_le _ _)

/-- Angles are put on the stack as well, but they are no brackets of the source. -/
theorem openBracket_accepts {kind : TokenKind} {r : Run} (here : At kind d.rest)
    (opens : kind.opens true = true) (kept : d.Tidy → RunKept c r d) :
    Accepts (openBracket kind r.stack) d (RunKept.Round c) := by
  refine .look (mark_yields d) fun i d' _ same => ?_
  have step : nestStep false (bracketsOf r.stack) kind =
      some (bracketsOf (⟨kind, i⟩ :: r.stack)) := by
    cases kind <;> first | rfl | cases opens
  refine bumpRound_accepts (same.at here) ?_ (fun tidy => (kept (same.tidy tidy)).same same) step
  rintro rfl
  cases opens

/-- The current word does not fit, and is complained of. -/
theorem strayRound_accepts {kind : DiagnosticKind} {r : Run} :
    Accepts (do errorAndBump kind (← currentText); return .again r) d (RunKept.Round c) := by
  refine .ask currentText_answers fun d' _ => ?_
  exact (errorAndBump_accepts _ _ d' fun _ _ => False).bind fun _ _ post =>
    (Keeps.pure _).spoilt fun tidy => (post tidy).2

/-- A closing bracket takes its opening one off, or is complained of. -/
theorem closeBracket_accepts {kind : TokenKind} {r : Run} (here : At kind d.rest)
    (closes : kind.isCloser = true) (kept : d.Tidy → RunKept c r d) :
    Accepts (closeBracket kind r) d (RunKept.Round c) := by
  have dropped := bracketsOf_dropAngles r.stack
  unfold closeBracket
  cases open? : dropAngles r.stack with
  | nil =>
    rw [open?] at dropped
    exact .pure fun tidy => by simpa [RunKept, ← dropped] using kept tidy
  | cons o below =>
    rw [open?] at dropped
    have outer : o.kind ≠ .angleOpen := by
      have first := List.head?_dropWhile_not (fun o : Opener => o.kind == .angleOpen) r.stack
      rw [← dropAngles, open?] at first
      simpa using first
    refine .ite (fun fits => bumpRound_accepts here (by rintro rfl; cases closes) kept ?_)
      fun _ => strayRound_accepts
    have top : bracketsOf r.stack = openerOf kind :: bracketsOf below := by
      rw [← dropped, ← fits]
      simp [bracketsOf, outer]
    rw [top]
    cases kind <;> first | rfl | cases closes

/-- One word of a run keeps the brackets in order. -/
theorem runWord_accepts {kind : TokenKind} (mode : RunMode) {r : Run} (here : At kind d.rest)
    (kept : d.Tidy → RunKept c r d) : Accepts (runWord mode r (some kind)) d (RunKept.Round c) := by
  have same (plain : Plain kind) :
      Accepts (do bump; return .again ⟨r.stack, true⟩) d (RunKept.Round c) :=
    bumpRound_accepts here plain.2 kept (nestStep_append plain.1 (bracketsOf r.stack))
  cases kind with
  | parenOpen | bracketOpen | braceOpen => exact openBracket_accepts here rfl kept
  | parenClose | bracketClose | braceClose => exact closeBracket_accepts here rfl kept
  | garbage =>
    refine (error_accepts _ fun _ _ => False).bind fun _ e post => ?_
    exact (bumpAsError_keeps.bind fun _ => .pure _).spoilt fun tidy => (post tidy).2
  | angleOpen =>
    exact .ite (fun _ => openBracket_accepts here rfl kept) fun _ => same (by decide)
  | angleClose =>
    refine bumpRound_accepts here nofun kept ?_
    split
    · next closes => rw [bracketsOf_tail (Bool.and_eq_true_iff.1 closes).2]; rfl
    · rfl
  | _ => exact same (by decide)

/-- One turn of a run does. -/
theorem runTurn_accepts (stop : KindSet) (mode : RunMode) (r : Run)
    (kept : d.Tidy → RunKept c r d) :
    Accepts (runTurn stop mode r) d (RunKept.Round c) := by
  refine .ask atEnd_answers fun d₁ same₁ => .ite (fun _ => .pure fun tidy => ?_) fun going => ?_
  · exact (kept (same₁.tidy tidy)).same same₁
  refine .ask current_answers fun d₂ same₂ => ?_
  have ends : Yields (pure r.stack.isEmpty <&&> runEnds stop mode r.consumed (kindIn d₁.rest 0)) d₂
      fun _ e => True ∧ Same d₂ e := by
    rw [and_eq_branch, pure_bind]
    exact .ite (fun _ => runEnds_yields _ _ _ _ d₂) fun _ => .pure ⟨trivial, .refl d₂⟩
  refine .look ends fun b d₃ _ same₃ => ?_
  have same := (same₁.trans same₂).trans same₃
  have kept (tidy : d₃.Tidy) := (kept (same.tidy tidy)).same same
  refine .ite (fun _ => .pure kept) fun _ => ?_
  have some : ∃ w ws, d.rest = w :: ws := by
    cases rest : d.rest with
    | nil => simp [rest] at going
    | cons w ws => exact ⟨w, ws, rfl⟩
  obtain ⟨w, ws, rest⟩ := some
  have here : At w.kind d.rest := by simp [At, kindIn, rest]
  have current : kindIn d₁.rest 0 = Option.some w.kind := same₁.at here
  rw [current]
  exact runWord_accepts mode (same.at here) kept

/-- What is still open is complained of. -/
theorem reportOpen_accepts (stack : List Opener) (d : Cursor) :
    Accepts (reportOpen stack) d fun _ e => stack = [] ∧ e = d := by
  unfold reportOpen
  split
  · exact complain_accepts _ _
  · exact complain_accepts _ _
  · exact .pure fun _ => ⟨rfl, rfl⟩

/-- A run adds a word if it says so. -/
theorem balanced_forms (stop : KindSet) (mode : RunMode) :
    Forms Anywhere (balanced stop mode) Run.content := by
  intro c _
  have start : RunKept c {} c := (Fills.refl c).mono le_top
  have run : Accepts (loop {} (runTurn stop mode)) c (RunKept c) :=
    Accepts.loop (I := RunKept c) (fun _ => start) fun r d inv =>
      (runTurn_accepts stop mode r fun tidy => (inv tidy).2).imp fun t _ _ _ post => by
        cases t <;> exact post
  refine run.bind fun r d post => (reportOpen_accepts r.stack d).bind fun _ e closed =>
      .pure fun tidy => ?_
  obtain ⟨between, none, rfl⟩ := closed tidy
  have kept := (post between).2
  rw [RunKept, none] at kept
  exact kept

/-! ### Parts built from runs -/

/-- A name forms one name. -/
theorem nameRule_forms : Forms Anywhere nameRule fun _ => {[.node .name]} :=
  .branch (currentIs_answers .ident)
    ((node_forms (bump_forms (by decide)) fun _ _ => rfl).given fun _ found => eq_of_beq found.2)
    (.error _ _)

/-- A run that has to have a word. -/
theorem balancedOr_forms (stop : KindSet) (mode : RunMode) (kind : DiagnosticKind) :
    Forms Anywhere (do if !(← balanced stop mode) then error kind) fun _ => someWord := by
  refine (balanced_forms stop mode).bind (M := fun b _ => if b = true then 1 else 0)
      (fun b => ?_) fun b _ => ?_
  · cases b with
    | true => exact .pure ()
    | false => exact .error _ _
  · cases b <;> simp [Run.content]

/-- A type forms one type. -/
theorem typeExpr_forms (stop : KindSet) : Forms Anywhere (typeExpr stop) fun _ =>
    {[.node .typeExpr]} :=
  node_forms (balancedOr_forms stop .type .expectedType) fun _ mem => mem

theorem assertAt_yields (kind : TokenKind) (c : Cursor) :
    Yields (assertAt kind) c fun _ d => At kind c.rest ∧ Same c d := by
  refine (current_answers c).bind fun k d asked => ?_
  obtain ⟨rfl, same⟩ := asked
  exact .ite (fun _ => .throw _) fun here => .pure ⟨Classical.not_not.1 here, same⟩

/-- A rule that breaks a promise where it is not entered at a word of the kind. -/
theorem assertAt_forms {kind : TokenKind} {r : Rule Unit} {L : Language Kind}
    (h : Forms (At kind) r fun _ => L) : Forms Anywhere (do assertAt kind; r) fun _ => L := by
  intro c _
  refine .look (assertAt_yields kind c) fun _ d here same => ?_
  refine (h d fun _ => same.at here).imp fun _ e _ _ fills => ?_
  simpa using (Fills.same same).trans fills

/-- A type behind a colon. -/
theorem typeAscription_forms (stop : KindSet) :
    Forms Anywhere (typeAscription stop) fun _ => {[.node .typeAscription]} :=
  assertAt_forms (node_forms ((bump_forms (by decide)).seq fun _ => typeExpr_forms stop)
      fun _ _ => rfl)

/-- A value behind an equals sign. -/
theorem initializer_forms (stop : KindSet) :
    Forms Anywhere (initializer stop) fun _ => {[.node .initializer]} :=
  assertAt_forms (node_forms
    ((bump_forms (by decide)).seq fun _ => balancedOr_forms stop .expression .expectedExpression)
        fun _ _ => rfl)

/-- Between braces anything may stand. -/
theorem bodyTurn_forms : Forms Anywhere bodyTurn fun _ => ⊤ := by
  refine (balanced_forms .empty .body).bind (M := fun _ _ => ⊤) (fun _ => ?_) fun _ _ => le_top
  refine .ask current_answers fun kind => .ask atEnd_answers fun ends => ?_
  split
  · exact (Forms.pure false).mono fun _ => le_top
  · exact .ask currentText_answers fun text =>
      .spoilt (fun c => errorAndBump_accepts _ _ c _) fun _ => .pure true

/-- Braces around a run, of which a node of the kind needs nothing. -/
theorem bracedBody_forms {kind : NodeKind} (free : ∀ ks, kind.complete ks = true) :
    Forms Anywhere (bracedBody kind) fun _ => {[.node kind]} := by
  refine .ask (currentIs_answers .braceOpen) fun found => ?_
  cases found with
  | false => exact .spoilt (fun _ => errorWith_accepts _ _ _) fun _ => .pure ()
  | true =>
    refine node_forms (.given (delimited_forms (by decide) bodyTurn_forms) ?_) fun ks _ => free ks
    exact fun ws asked => eq_of_beq asked.2

end ImplicitGlobals.Grammar
