import ImplicitGlobals.Proofs.Mending.Modules

/-!
# Two runs over lists of statements

Behind a statement the first run stands at the word, has ended early, or has said that a semicolon is
missing. In the first two cases the next statement reads the word or complains of it. In the third case the
second run begins a statement at the word, so it will not say there that a semicolon is missing.

A declaration is chosen by its keyword and the word behind that. So the word can matter to the choice one
word behind it at most, and then the declaration that is chosen reads on to the word. Where a statement
begins at the word, it is read without a complaint.
-/

namespace ImplicitGlobals.Grammar

namespace Mending

variable {m : Mending} {r r' inner inner' : Rule Unit} {test : Rule Bool} {v : List Word → Option Limit → Bool}
  {c d d' : Cursor} {u : Word} {us : List Word} {p : List Word → Prop}

/-- One statement of a list, or its end. -/
def statementTurn (test : Rule Bool) (r : Rule Unit) : Rule Bool := do
  if ← test then return false
  r
  return true

/-- What a rule for statements does that the first run enters at the word, or where it has ended early. -/
structure Starts (m : Mending) (r : Rule Unit) : Prop where
  judges : m.Judges r
  reads : beginsStatement m.ahead = true → m.Reads r
  ends : ∀ c, m.Off c → Yields r c fun _ d => d.Judged m.place

/-- How two runs come out of statements. -/
structure Stating (m : Mending) (r r' : Rule Unit) : Prop extends m.Mends Anywhere m.after r r' where
  starts : m.Starts r
  starts' : m.onward.Starts r'

/-- A test that finds the end of a list, before the word only if the list ends there. -/
structure Ending (m : Mending) (test : Rule Bool) (v : List Word → Option Limit → Bool) : Prop where
  answers : Answers test v
  near : Near 0 (v · none)
  plain : v m.ahead' none = false
  ident : ∀ ws, kindIn ws 0 = some .ident → v ws none = false
  other : m.word.kind ≠ .braceClose → v m.ahead none = false

/-- How runs come out of a round: the list ends at the word for the first one, or a statement lies behind both. -/
def round (m : Mending) (v : List Word → Option Limit → Bool) : Bool → Bool → Cursor → Cursor → Prop := fun x y d d' =>
  (x = false ∧ v m.ahead none = true ∧ m.Before [] d) ∨ x = true ∧ y = true ∧ m.after () () d d'

/-- The first run stands at the word, where the list ends. -/
def ended {α : Type} (m : Mending) (v : List Word → Option Limit → Bool) : α → α → Cursor → Cursor → Prop :=
  fun _ _ d _ => v m.ahead none = true ∧ m.Before [] d

/-- One turn of a run of statements. -/
theorem statementTurn_mends (ending : m.Ending test v) (h : m.Stating r r') :
    m.Mends p (m.round v) (statementTurn test r) (statementTurn test r') := by
  have reads : m.Mends Anywhere (m.round v) (do r; return true) (do r'; return true) :=
    h.toMends.bind (fun _ => .pure true) fun _ _ _ _ after => .pure (.pure (.inr (.inr (.inr ⟨rfl, rfl, after⟩))))
  refine .ask ending.answers (fun b => ?_) fun us c c' twin _ differs => ?_
  · cases b with
    | true => exact .pure false
    | false => exact reads.given fun _ _ => trivial
  · obtain rfl := ending.near.eq_nil differs
    have ends : v ([] ++ m.ahead) none = true := eq_true_of_differs ending.plain differs
    rw [ends]
    exact .alone (P := fun x d => x = false ∧ m.Before [] d) (.pure ⟨rfl, twin.toBefore⟩) fun _ _ _ _ post =>
      .inr (.inl ⟨post.1, ends, post.2⟩)

/-- A round of the loop over a list of statements. -/
def statementStep (test : Rule Bool) (r : Rule Unit) (_ : Unit) : Rule (Turn Unit) := do
  if ← statementTurn test r then return .again ()
  return .done ()

theorem statementStep_notes (notes : Trails Notes (statementTurn test r)) (s : Unit) :
    Trails Notes (statementStep test r s) :=
  notes_trail.bind notes fun b => by
    cases b
    · exact notes_trail.answers (.pure _)
    · exact notes_trail.answers (.pure _)

/-- A run that is adrift settles the question with the next statement, unless the list ends at the word. -/
theorem statementTurn_adrift (ending : m.Ending test v) (h : m.Starts r) (adrift : m.Adrift true c) :
    Yields (statementTurn test r) c fun b d =>
      b = true ∧ d.Judged m.place ∨ b = false ∧ v m.ahead none = true ∧ m.Before [] d := by
  rcases adrift with before | ⟨-, off⟩
  · refine (before.tests ending.answers).bind fun b d post => ?_
    obtain ⟨rfl, before⟩ := post
    refine .ite (fun ends => .pure (.inr ⟨rfl, ends, before⟩)) fun _ => ?_
    exact (h.judges d before).bind fun _ _ judged => .pure (.inl ⟨rfl, judged⟩)
  · refine (ending.answers c).bind fun b d post => ?_
    obtain ⟨rfl, same⟩ := post
    obtain ⟨u, before, begins⟩ := id off
    rw [before.rest, before.refused]
    have goesOn : v ([u] ++ m.ahead) none = false := ending.ident _ (ident_of_beginsStatement begins)
    rw [goesOn]
    exact (h.ends d (off.same same)).bind fun _ _ judged => .pure (.inl ⟨rfl, judged⟩)

/-- Rounds that are entered adrift settle the question or end there. -/
theorem rounds_adrift (ending : m.Ending test v) (h : m.Starts r) (notes : Trails Notes (statementTurn test r))
    (adrift : m.Adrift true c) (n : Nat) :
    Yields (rounds (statementStep test r) n ()) c fun _ d => d.Judged m.place ∨ v m.ahead none = true ∧ m.Before [] d := by
  cases n with
  | zero => exact .throw _
  | succ n =>
    have step : Yields (statementStep test r ()) c fun t d =>
        t = .again () ∧ d.Judged m.place ∨ t = .done () ∧ v m.ahead none = true ∧ m.Before [] d :=
      (statementTurn_adrift ending h adrift).bind fun b d post => by
        rcases post with ⟨rfl, judged⟩ | ⟨rfl, ends⟩
        · exact .pure (.inl ⟨rfl, judged⟩)
        · exact .pure (.inr ⟨rfl, ends⟩)
    refine step.bind (f := Mends.goOn (statementStep test r) n) fun t d post => ?_
    rcases post with ⟨rfl, judged⟩ | ⟨rfl, ends⟩
    · exact (notes_rounds (statementStep_notes notes) n () d).imp fun _ _ noted => .inl (noted.judged judged)
    · exact .pure (.inr ends)

/-- A semicolon was missing, and the second run has put it behind the statement: so it begins one at the word. -/
theorem statementTurn_fresh (ending : m.Ending test v) (h : m.Stating r r') (heals : m.Heals d d') :
    Yields (statementTurn test r') d' fun b e => b = true ∧ e.Judged (m.place + 1) ∧
      (beginsStatement m.ahead = true → e.Silent (m.place + 1)) := by
  refine (heals.fresh.tests ending.answers).bind fun b e post => ?_
  obtain ⟨found, before⟩ := post
  obtain rfl : b = false := found.trans (ending.other heals.other)
  have judged : Yields r' e fun _ e' =>
      e'.Judged (m.place + 1) ∧ (beginsStatement m.ahead = true → e'.Silent (m.place + 1)) := by
    intro x e' run
    exact ⟨h.starts'.judges e before x e' run, fun begins => h.starts'.reads begins e before x e' run⟩
  exact judged.bind fun _ _ post => .pure ⟨rfl, post⟩

/-- Rounds that are entered where a semicolon was put in read on alike. -/
theorem rounds_heal (ending : m.Ending test v) (h : m.Stating r r') (heals : m.Heals d d') (n n' : Nat) :
    Yields (rounds (statementStep test r) n ()) d fun x e => Yields (rounds (statementStep test r') n' ()) d' fun y e' =>
      m.Settled x y e e' := by
  have turn : m.Mends Anywhere (m.round v) (statementTurn test r) (statementTurn test r') := statementTurn_mends ending h
  obtain ⟨old, enclosing, before, onto, onto', shifted⟩ := heals.said
  have step (i : Nat) (old old' : List Complaint) (s s' : Unit) : (shifting i old old').Rel Anywhere (.turn .same)
      (statementStep test r s) (statementStep test r' s') :=
    (shifting i old old').choose (turn.shifts i old old')
      ((shifting i old old').pure (x := Turn.again ()) (y := .again ()) rfl)
      ((shifting i old old').pure (x := Turn.done ()) (y := .done ()) rfl)
  -- The rounds behind the semicolon agree up to the one complaint.
  have shifts : KeepsShift m.place (.noSemicolon m.place enclosing :: old) old .same
      (rounds (statementStep test r) n ()) (rounds (statementStep test r') n' ()) :=
    (shifting _ _ _).rounds (I := .same) (fun s s' _ => step _ _ _ s s') n n' () () rfl
  have starts : Yields (rounds (statementStep test r') n' ()) d' fun _ e' => e'.Judged (m.place + 1) ∧
      (beginsStatement m.ahead = true → e'.Silent (m.place + 1)) := by
    -- The first round behind the semicolon settles what may still be said at that place.
    cases n' with
    | zero => exact .throw _
    | succ n' =>
      have first : Yields (statementStep test r' ()) d' fun t e' => t = .again () ∧ e'.Judged (m.place + 1) ∧
          (beginsStatement m.ahead = true → e'.Silent (m.place + 1)) :=
        (statementTurn_fresh ending h heals).bind fun b e post => by
          obtain ⟨rfl, post⟩ := post
          exact .pure ⟨rfl, post⟩
      refine first.bind (f := Mends.goOn (statementStep test r') n') fun t e post => ?_
      obtain ⟨rfl, judged, silent⟩ := post
      exact (notes_rounds (statementStep_notes turn.right) n' () e).imp fun _ _ noted =>
        ⟨noted.judged judged, fun begins => noted.silent (silent begins)⟩
  intro x e run y e' run'
  obtain ⟨same, shifted⟩ := shifts d d' shifted x e run y e' run'
  obtain ⟨judged, silent⟩ := starts y e' run'
  have noted := notes_rounds (statementStep_notes turn.left) n () d x e run
  have noted' := notes_rounds (statementStep_notes turn.right) n' () d' y e' run'
  exact .inr (.inr ⟨old, enclosing, before, noted.onto onto, noted'.onto onto', judged,
    fun begins => ⟨same, silent begins, shifted⟩⟩)

/-- The same, of a round of the loop. -/
def roundStep (m : Mending) (v : List Word → Option Limit → Bool) : Turn Unit → Turn Unit → Cursor → Cursor → Prop :=
  fun t t' d d' => (t = .done () ∧ v m.ahead none = true ∧ m.Before [] d) ∨ t = .again () ∧ t' = .again () ∧ m.after () () d d'

/-- Over a list of statements all is settled, unless the list ends at the word. -/
theorem statements_mends (ending : m.Ending test v) (h : m.Stating r r') :
    m.Mends p (m.ended v) (repeatWhile (statementTurn test r)) (repeatWhile (statementTurn test r')) := by
  have turn : m.Mends Anywhere (m.round v) (statementTurn test r) (statementTurn test r') := statementTurn_mends ending h
  have step (s : Unit) : m.Mends Anywhere (m.roundStep v) (statementStep test r s) (statementStep test r' s) := by
    refine turn.bind (fun b => .ite (fun _ => .pure _) fun _ => .pure _) fun x y d d' other => ?_
    rcases other with ⟨rfl, ends⟩ | ⟨rfl, rfl, after⟩
    · exact .alone (P := fun t e => t = .done () ∧ v m.ahead none = true ∧ m.Before [] e) (.pure ⟨rfl, ends⟩)
        fun _ _ _ _ ends => .inr (.inl ends)
    · exact .pure (.pure (.inr (.inr (.inr ⟨rfl, rfl, after⟩))))
  have goesOn (t t' : Turn Unit) (d d' : Cursor) (other : m.roundStep v t t' d d') (n n' : Nat) :
      m.Goes (m.ended v) (Mends.goOn (statementStep test r) n t) (Mends.goOn (statementStep test r') n' t') d d' := by
    rcases other with ⟨rfl, ends⟩ | ⟨rfl, rfl, adrift | heals⟩
    · exact .alone (P := fun _ e => v m.ahead none = true ∧ m.Before [] e) (.pure ends) fun _ _ _ _ => .inr
    · exact .alone (rounds_adrift ending h.starts turn.left adrift n) fun _ _ _ _ => id
    · exact Yields.imp (rounds_heal ending h heals n n') fun _ _ post => post.imp fun _ _ settled => .inr (.inl settled)
  exact .loop step goesOn ()

/-! ### Blocks -/

/-- The ends of a block. -/
theorem braceEnding : m.Ending (atEnd <||> currentIs .braceClose) fun ws l =>
    (ws.isEmpty || l.isSome) || kindIn ws 0 == some .braceClose where
  answers := endsAt_answers .braceClose
  near := endsAt_near .braceClose
  plain := rfl
  ident ws ident := by
    cases ws with
    | nil => cases ident
    | cons w ws => simp [ident]
  other other := by simpa [ahead, kindIn] using other

theorem blockMarks_closable : Closable blockMarks := ⟨nofun, nofun, rfl⟩

section

variable (h : m.Stating r r')
include h

/-- A block comes out alike: its statements do, and its braces are no semicolons. -/
theorem block_mends : m.Mends p never (node .moduleBlock (delimited blockMarks (blockTurn r)))
    (node .moduleBlock (delimited blockMarks (blockTurn r'))) := by
  have inner : m.Mends Anywhere (m.adrift false) (repeatWhile (blockTurn r)) (repeatWhile (blockTurn r')) :=
    (statements_mends braceEnding h).imp fun _ _ _ _ ends => .inl ends.2
  have round : m.Mends Anywhere (m.round _) (blockTurn r) (blockTurn r') := statementTurn_mends braceEnding h
  exact .node ((Mends.delimited blockMarks_closable round inner).imp fun _ _ _ _ off => absurd off.2.1 Bool.false_ne_true)
    steady_never

/-- So it does behind its opening brace. -/
theorem moduleBlock_mends : m.Mends p never (moduleBlock r) (moduleBlock r') := by
  refine .assertAt .braceOpen nofun ?_
  refine Mends.descend.onward fun _ => ?_
  refine .ite (fun _ => .pure ()) fun _ => ?_
  refine (block_mends h).onward fun _ => ?_
  exact .ascend

theorem moduleBlock_judges : m.Judges (moduleBlock r) := by
  have round : m.Mends Anywhere (m.round _) (blockTurn r) (blockTurn r') := statementTurn_mends braceEnding h
  have block : m.Judges (node .moduleBlock (delimited blockMarks (blockTurn r))) :=
    .node (.delimited blockMarks_closable round.left)
  refine .assertAt fun c before => before.descend.bind fun b d post => ?_
  obtain ⟨rfl, before⟩ := post
  exact (block.bind fun _ => (Rests.ascend (m := m)).left) d before

/-- The global scope comes out as a declaration does. -/
theorem globalDeclaration_declares (point point' : Checkpoint) :
    m.Declares True (globalDeclaration point r) (globalDeclaration point' r') :=
  .of (takeKeyword_heads _) (moduleBlock_mends h).only (fun _ => moduleBlock_judges h) point point'

/-- So does a module. -/
theorem moduleDeclaration_declares (point point' : Checkpoint) :
    m.Declares True (moduleDeclaration point r) (moduleDeclaration point' r') := by
  have body : m.Mends Anywhere m.after (do if ← currentIs .braceOpen then moduleBlock r else expectSemicolon)
      (do if ← currentIs .braceOpen then moduleBlock r' else expectSemicolon) :=
    .branch (currentIs_answers .braceOpen) (currentIs_near .braceOpen) rfl (moduleBlock_mends h).only expectSemicolon_mends
      (moduleBlock_judges h)
  exact .of bumpKeyword_heads (moduleName_mends.onward fun _ => body) (fun _ => moduleName_judges.bind fun _ => body.left)
    point point'

end

/-! ### The choice of a declaration -/

/-- The declarations. -/
inductive DeclarationForm where
  | bindings
  | functions (anonymous : Bool)
  | classes (anonymous : Bool)
  | interfaces
  | aliases
  | enums
  | modules
  | globals
  | imports

namespace DeclarationForm

/-- The rule of a declaration. -/
def rule (inner : Rule Unit) (point : Checkpoint) : DeclarationForm → Rule Unit
  | bindings => variableStatement point
  | functions anonymous => functionDeclaration point anonymous
  | classes anonymous => classDeclaration point anonymous
  | interfaces => interfaceDeclaration point
  | aliases => Grammar.typeAlias point
  | enums => enumDeclaration point
  | modules => moduleDeclaration point inner
  | globals => globalDeclaration point inner
  | imports => importStatement point

/-- Whether the declaration may stand without a name. -/
def Anonymous : DeclarationForm → Prop
  | functions anonymous | classes anonymous => anonymous = true
  | _ => False

/-- The declaration that a keyword announces, judged by the words from it on. -/
def announced (isDefault : Bool) (ws : List Word) : Option Keyword → Option DeclarationForm
  | some .kwConst =>
    if spells ws 1 Keyword.kwEnum.word then some enums
    else if (kindIn ws 1).any KindSet.bindingStart.holds then some bindings else none
  | some .kwVar | some .kwLet => if (kindIn ws 1).any KindSet.bindingStart.holds then some bindings else none
  | some .kwFunction => some (functions isDefault)
  | some .kwClass => some (classes isDefault)
  | some .kwInterface => if kindIn ws 1 == some .ident then some interfaces else none
  | some .kwType => if kindIn ws 1 == some .ident then some aliases else none
  | some .kwEnum => if kindIn ws 1 == some .ident then some enums else none
  | some .kwNamespace => if kindIn ws 1 == some .ident then some modules else none
  | some .kwModule => if kindIn ws 1 == some .ident || kindIn ws 1 == some .stringLiteral then some modules else none
  | some .kwGlobal => if kindIn ws 1 == some .braceOpen then some globals else none
  | some .kwImport => if !isDefault then some imports else none
  | _ => none

/-- The declaration that is read at the words. -/
def at? (isDefault : Bool) (ws : List Word) : Option DeclarationForm :=
  if kindIn ws 0 ≠ some .ident then none else announced isDefault ws (keywordOf ws)

end DeclarationForm

open DeclarationForm

/-- So does every form of a declaration. -/
theorem rule_declares (h : m.Stating r r') (f : DeclarationForm) (point point' : Checkpoint) :
    m.Declares (¬f.Anonymous) (f.rule r point) (f.rule r' point') := by
  have always {named : Prop} {r r' : Rule Unit} (h : m.Declares True r r') : m.Declares named r r' :=
    { h with decides := fun _ => h.decides trivial }
  cases f with
  | bindings => exact always (variableStatement_declares point point')
  | functions anonymous =>
    have declares := functionDeclaration_declares (m := m) point point' anonymous
    exact { declares with decides := fun name => declares.decides (eq_false_of_ne_true name) }
  | classes anonymous =>
    have declares := classDeclaration_declares (m := m) point point' anonymous
    exact { declares with decides := fun name => declares.decides (eq_false_of_ne_true name) }
  | interfaces => exact always (interfaceDeclaration_declares point point')
  | aliases => exact always (typeAlias_declares point point')
  | enums => exact always (enumDeclaration_declares point point')
  | modules => exact always (moduleDeclaration_declares h point point')
  | globals => exact always (globalDeclaration_declares h point point')
  | imports => exact always (importStatement_declares point point')

/-- What a choice reads, or that it reads nothing. -/
def Chosen (inner : Rule Unit) (point : Checkpoint) (c : Cursor) (form : Option DeclarationForm) (x : Bool) (d : Cursor) : Prop :=
  ∃ e, Same c e ∧ match form with
    | some f => x = true ∧ (f.rule inner point).run e = .ok ((), d)
    | none => x = false ∧ d = e

theorem Chosen.same {point : Checkpoint} {form : Option DeclarationForm} {x : Bool} {e : Cursor} (same : Same c d)
    (h : Chosen inner point d form x e) : Chosen inner point c form x e :=
  h.imp fun _ post => ⟨same.trans post.1, post.2⟩

theorem onlyIf_steps {test : Rule Bool} {v : List Word → Bool} (answers : Answers test fun ws _ => v ws)
    (inner : Rule Unit) (f : DeclarationForm) (point : Checkpoint) (c : Cursor) :
    Yields (onlyIf test (f.rule inner point)) c
      (Chosen inner point c (if v c.rest = true then some f else none)) := by
  refine (answers c).bind fun b d post => ?_
  obtain ⟨rfl, same⟩ := post
  by_cases found : v c.rest = true
  · rw [if_pos found, if_pos found]
    exact Yields.bind (P := fun _ e => (f.rule inner point).run d = .ok ((), e)) (fun _ _ run => run) fun _ e run =>
      .pure ⟨d, same, rfl, run⟩
  · rw [if_neg found, if_neg found]
    exact .pure ⟨d, same, rfl, rfl⟩

/-- Behind `const` an enum may follow. -/
theorem const_steps (inner : Rule Unit) (point : Checkpoint) (isDefault : Bool) (c : Cursor) :
    Yields (declarationOf inner point isDefault (some .kwConst)) c
      (Chosen inner point c (announced isDefault c.rest (some .kwConst))) := by
  have enum : announced isDefault c.rest (some .kwConst) = if spells c.rest 1 Keyword.kwEnum.word = true then some enums
      else if (kindIn c.rest 1).any KindSet.bindingStart.holds = true then some bindings else none := rfl
  refine (nthIsKeyword_answers 1 .kwEnum c).bind fun b d post => ?_
  obtain ⟨rfl, same⟩ := post
  rw [enum]
  by_cases found : spells c.rest 1 Keyword.kwEnum.word = true
  · rw [if_pos found, if_pos found]
    exact Yields.bind (P := fun _ e => (enumDeclaration point).run d = .ok ((), e)) (fun _ _ run => run) fun _ e run =>
      .pure ⟨d, same, rfl, run⟩
  · rw [if_neg found, if_neg found, ← same.stays.rest]
    exact (onlyIf_steps ((kindAt_answers 1).bind fun _ => .pure _) inner bindings point d).imp fun _ _ => Chosen.same same

/-- Which form is read is decided by the words ahead. -/
theorem declarationOf_steps (inner : Rule Unit) (point : Checkpoint) (isDefault : Bool) (k : Option Keyword) (c : Cursor) :
    Yields (declarationOf inner point isDefault k) c (Chosen inner point c (announced isDefault c.rest k)) := by
  have none : Yields (pure false) c (Chosen inner point c .none) := .pure ⟨c, .refl c, rfl, rfl⟩
  cases k with
  | none => exact none
  | some k =>
    cases k with
    | kwConst => exact const_steps inner point isDefault c
    | kwVar | kwLet => exact onlyIf_steps ((kindAt_answers 1).bind fun _ => .pure _) inner bindings point c
    | kwFunction => exact onlyIf_steps (.pure true) inner (functions isDefault) point c
    | kwClass => exact onlyIf_steps (.pure true) inner (classes isDefault) point c
    | kwInterface => exact onlyIf_steps (nextIs_answers .ident) inner interfaces point c
    | kwType => exact onlyIf_steps (nextIs_answers .ident) inner aliases point c
    | kwEnum => exact onlyIf_steps (nextIs_answers .ident) inner enums point c
    | kwNamespace => exact onlyIf_steps (nextIs_answers .ident) inner modules point c
    | kwModule =>
      refine (kindAt_answers 1 c).bind fun next d post => ?_
      obtain ⟨rfl, same⟩ := post
      exact (onlyIf_steps (.pure _) inner modules point d).imp fun _ _ => Chosen.same same
    | kwGlobal => exact onlyIf_steps (nextIs_answers .braceOpen) inner globals point c
    | kwImport => exact onlyIf_steps (.pure !isDefault) inner imports point c
    | _ => exact none

/-- Which declaration is read, and that nothing is read of another one. -/
theorem declaration_steps (inner : Rule Unit) (point : Checkpoint) (isDefault : Bool) (c : Cursor) :
    Yields (declaration inner point isDefault) c (Chosen inner point c (at? isDefault c.rest)) := by
  refine (current_answers c).bind fun kind d post => ?_
  obtain ⟨rfl, same⟩ := post
  refine .ite (fun other => .pure ⟨d, same, ?_⟩) fun ident => ?_
  · rw [at?, if_pos other]
    exact ⟨rfl, rfl⟩
  · refine (currentText_answers d).bind fun text e post => ?_
    obtain ⟨rfl, same'⟩ := post
    rw [at?, if_neg ident, ← (same.trans same').stays.rest, same'.stays.rest]
    refine (declarationOf_steps inner point isDefault _ e).imp fun _ _ post => ?_
    rw [same'.stays.rest] at post
    exact post.same (same.trans same')

/-- The choice is made by two words. -/
theorem at?_near (isDefault : Bool) : Near 1 (at? isDefault) := fun us xs ys far => by
  have first : kindIn (us ++ xs) 0 = kindIn (us ++ ys) 0 := near_kindIn 0 us xs ys (by omega)
  have next : kindIn (us ++ xs) 1 = kindIn (us ++ ys) 1 := near_kindIn 1 us xs ys far
  have spelled (text : String) : spells (us ++ xs) 1 text = spells (us ++ ys) 1 text := near_spells 1 text us xs ys far
  have keyword : keywordOf (us ++ xs) = keywordOf (us ++ ys) :=
    congrArg (fun w : Option Word => Keyword.ofWord? ((w.map Word.text).getD "")) (near_getElem? 0 us xs ys (by omega))
  have same (k : Option Keyword) : announced isDefault (us ++ xs) k = announced isDefault (us ++ ys) k := by
    cases k with
    | none => rfl
    | some k => cases k <;> simp only [announced, next, spelled]
  rw [at?, at?, first, keyword, same]

/-- In front of the semicolon nothing is chosen but what is chosen without a look at the word behind. -/
theorem announced_differs {isDefault : Bool} (k : Option Keyword)
    (differs : announced isDefault (u :: m.ahead) k ≠ announced isDefault (u :: m.ahead') k) :
    ∃ f, announced isDefault (u :: m.ahead) k = some f ∧ ¬f.Anonymous := by
  have next : kindIn (u :: m.ahead') 1 = some .semicolon := rfl
  have spelled (text : String) : spells (u :: m.ahead') 1 text = false := rfl
  have binding : KindSet.bindingStart.holds .semicolon = false := by decide
  have chosen {b : Bool} {f : DeclarationForm} (named : ¬f.Anonymous)
      (differs : (if b = true then some f else none) ≠ none) :
      ∃ g, (if b = true then some f else none) = some g ∧ ¬g.Anonymous := by
    cases b with
    | true => exact ⟨f, rfl, named⟩
    | false => exact absurd rfl differs
  cases k with
  | none => exact absurd rfl differs
  | some k =>
    cases k with
    | kwConst =>
      simp only [announced, next, spelled, Option.any_some, binding, Bool.false_eq_true, if_false] at differs ⊢
      split
      · exact ⟨enums, rfl, id⟩
      · rw [if_neg ‹_›] at differs
        exact chosen id differs
    | kwFunction | kwClass | kwImport => exact absurd rfl differs
    | kwVar | kwLet =>
      simp only [announced, next, Option.any_some, binding, Bool.false_eq_true, if_false] at differs ⊢
      exact chosen id differs
    | kwInterface | kwType | kwEnum | kwNamespace | kwGlobal =>
      simp only [announced, next] at differs ⊢
      exact chosen id (differs ·)
    | kwModule =>
      simp only [announced, next] at differs ⊢
      exact chosen id (differs ·)
    | _ => exact absurd rfl differs

/-- Where the semicolon changes the form, there was one that needs a name. -/
theorem at?_differs {isDefault : Bool} (differs : at? isDefault (u :: m.ahead) ≠ at? isDefault (u :: m.ahead')) :
    ∃ f, at? isDefault (u :: m.ahead) = some f ∧ ¬f.Anonymous := by
  have first : kindIn (u :: m.ahead') 0 = kindIn (u :: m.ahead) 0 := rfl
  have keyword : keywordOf (u :: m.ahead') = keywordOf (u :: m.ahead) := rfl
  rw [at?, at?, first, keyword] at differs
  rw [at?]
  split at differs
  · exact absurd rfl differs
  · rw [if_neg ‹_›]
    exact announced_differs _ differs

/-! ### Modifiers -/

/-- The modifiers behind one more of them, if one comes next. -/
def modifierAt? (s : Modifiers) (ws : List Word) : Option Modifiers :=
  if spells ws 0 Keyword.kwExport.word then some { s with any := true }
  else if spells ws 0 Keyword.kwDefault.word && s.any then some ⟨true, true⟩
  else if spells ws 0 Keyword.kwDeclare.word && kindIn ws 1 == some .ident then some { s with any := true }
  else if spells ws 0 Keyword.kwAbstract.word && spells ws 1 Keyword.kwClass.word then some { s with any := true }
  else none

/-- A modifier is read exactly if the words ahead say so. -/
theorem modifierTurn_steps (s : Modifiers) (c : Cursor) : Yields (modifierTurn s) c fun t d =>
    match modifierAt? s c.rest with
    | some s' => t = .again s' ∧ ∃ label w, Took label w c d
    | none => t = .done s ∧ Same c d := by
  have reads {k : Keyword} {s' : Modifiers} {d : Cursor} (same : Same c d) (is : modifierAt? s c.rest = some s') :
      Yields (do takeKeyword k; return Turn.again s') d fun t e =>
        match modifierAt? s c.rest with
        | some s' => t = .again s' ∧ ∃ label w, Took label w c e
        | none => t = .done s ∧ Same c e := by
    rw [is]
    exact (takeAs_yields _ d).bind fun _ e took => .pure ⟨rfl, _, took.imp fun _ took => took.ofSame same⟩
  -- The four tests in order, each with the ones before it failed.
  refine (atKeyword_answers .kwExport c).bind fun b d post => ?_
  obtain ⟨rfl, same⟩ := post
  refine .ite (fun found => reads same (if_pos found)) fun noExport => ?_
  refine ((atKeyword_answers .kwDefault).and (.pure s.any) d).bind fun b d' post => ?_
  obtain ⟨rfl, same'⟩ := post
  rw [same.stays.rest]
  replace same := same.trans same'
  refine .ite (fun found => reads same ((if_neg noExport).trans (if_pos found))) fun noDefault => ?_
  refine ((atKeyword_answers .kwDeclare).and (nextIs_answers .ident) d').bind fun b e post => ?_
  obtain ⟨rfl, same'⟩ := post
  rw [same.stays.rest]
  replace same := same.trans same'
  refine .ite (fun found => ?_) fun noDeclare => ?_
  · exact reads same ((if_neg noExport).trans ((if_neg noDefault).trans (if_pos found)))
  refine ((atKeyword_answers .kwAbstract).and (nthIsKeyword_answers 1 .kwClass) e).bind fun b f post => ?_
  obtain ⟨rfl, same'⟩ := post
  rw [same.stays.rest]
  replace same := same.trans same'
  refine .ite (fun found => ?_) fun noAbstract => .pure ?_
  · exact reads same ((if_neg noExport).trans ((if_neg noDefault).trans ((if_neg noDeclare).trans (if_pos found))))
  · have none : modifierAt? s c.rest = none :=
      (if_neg noExport).trans ((if_neg noDefault).trans ((if_neg noDeclare).trans (if_neg noAbstract)))
    rw [none]
    exact ⟨rfl, same⟩

theorem modifierAt?_near (s : Modifiers) : Near 1 (modifierAt? s) := fun us xs ys far => by
  have next : kindIn (us ++ xs) 1 = kindIn (us ++ ys) 1 := near_kindIn 1 us xs ys far
  have first (text : String) : spells (us ++ xs) 0 text = spells (us ++ ys) 0 text := near_spells 0 text us xs ys (by omega)
  have spelled (text : String) : spells (us ++ xs) 1 text = spells (us ++ ys) 1 text := near_spells 1 text us xs ys far
  simp only [modifierAt?, next, first, spelled]

/-- In front of the semicolon no word is a modifier that is none in front of the word. -/
theorem modifierAt?_differs {s : Modifiers} (differs : modifierAt? s (us ++ m.ahead) ≠ modifierAt? s (us ++ m.ahead')) :
    (us = [] ∨ ∃ u, us = [u]) ∧ ∃ s', modifierAt? s (us ++ m.ahead) = some s' := by
  match us, (modifierAt?_near s).length_le differs with
  | [], _ => exact ⟨.inl rfl, Option.ne_none_iff_exists'.1 differs⟩
  | [u], _ =>
    refine ⟨.inr ⟨u, rfl⟩, Option.ne_none_iff_exists'.1 fun none => differs ?_⟩
    have next : kindIn (u :: m.ahead') 1 = some .semicolon := rfl
    have spelled (text : String) : spells (u :: m.ahead') 1 text = false := rfl
    have noDeclare :
        (spells (u :: m.ahead) 0 Keyword.kwDeclare.word && kindIn (u :: m.ahead') 1 == some .ident) ≠ true := by
      simp [next]
    have noAbstract : (spells (u :: m.ahead) 0 Keyword.kwAbstract.word &&
        spells (u :: m.ahead') 1 Keyword.kwClass.word) ≠ true := by
      simp [spelled]
    rw [none]
    rw [modifierAt?] at none ⊢
    split at none
    · cases none
    split at none
    · cases none
    · next noExport noDefault =>
      exact ((if_neg noExport).trans ((if_neg noDefault).trans ((if_neg noDeclare).trans (if_neg noAbstract)))).symm

/-- Where a statement begins a modifier comes next, or a declaration that has to have a name. -/
theorem reads_of_begins {ws : List Word} (begins : beginsStatement ws = true) :
    (∃ s, modifierAt? {} ws = some s) ∨ ∃ f, at? false ws = some f ∧ ¬f.Anonymous := by
  have ident := ident_of_beginsStatement begins
  rw [beginsStatement, if_neg (not_not_intro ident)] at begins
  rw [at?, if_neg (not_not_intro ident)]
  cases spelt : keywordOf ws with
  | none => rw [spelt] at begins; cases begins
  | some k =>
    have keyword : spells ws 0 k.word = true := announces_of_ofWord? ident spelt
    rw [spelt] at begins
    have chosen {b : Bool} {f : DeclarationForm} (yes : b = true) (named : ¬f.Anonymous) :
        ∃ g, (if b = true then some f else none) = some g ∧ ¬g.Anonymous := ⟨f, if_pos yes, named⟩
    have either {b : Bool} {s : Modifiers} {o : Option Modifiers} (h : ∃ s, o = some s) :
        ∃ t, (if b = true then some s else o) = some t := by
      cases b with
      | true => exact ⟨s, rfl⟩
      | false => exact h
    -- One case per keyword a declaration can begin with, and every other contradicts the test.
    cases k with
    | kwExport => exact .inl ⟨_, if_pos keyword⟩
    | kwDeclare =>
      have found : (spells ws 0 Keyword.kwDeclare.word && kindIn ws 1 == some .ident) = true :=
        Bool.and_eq_true_iff.2 ⟨keyword, begins⟩
      rw [modifierAt?, if_pos found]
      exact .inl (either (either ⟨_, rfl⟩))
    | kwAbstract =>
      have found : (spells ws 0 Keyword.kwAbstract.word && spells ws 1 Keyword.kwClass.word) = true :=
        Bool.and_eq_true_iff.2 ⟨keyword, begins⟩
      rw [modifierAt?, if_pos found]
      exact .inl (either (either (either ⟨_, rfl⟩)))
    | kwVar | kwLet => exact .inr (chosen begins id)
    | kwConst =>
      rw [announced]
      split
      · exact .inr ⟨enums, rfl, id⟩
      · exact .inr (chosen begins id)
    | kwFunction | kwClass => exact .inr ⟨_, rfl, Bool.noConfusion⟩
    | kwInterface | kwType | kwEnum | kwNamespace | kwModule | kwGlobal => exact .inr (chosen begins id)
    | kwImport => exact .inr ⟨_, rfl, id⟩
    | _ => cases begins

end Mending

end ImplicitGlobals.Grammar
