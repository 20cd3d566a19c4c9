import ImplicitGlobals.Proofs.Mending.Blocks

/-!
# Two runs over statements

A statement is read alike by both runs as far as it lies before the word. By induction on how deep blocks
are nested two runs come out of every statement as twins, or it is settled whether a semicolon is missing
in front of the word, or that is still open behind it. At the end of the source nothing is open any more.
-/

namespace ImplicitGlobals.Grammar

namespace Mending

open DeclarationForm

variable {m : Mending} {r r' inner inner' : Rule Unit} {c c' d d' : Cursor} {u : Word} {us : List Word}
  {p : List Word → Prop}

/-! ### Modifiers -/

/-- A modifier takes no note back. -/
theorem modifierTurn_notes (s : Modifiers) : Trails Notes (modifierTurn s) := fun c =>
  (modifierTurn_steps s c).imp fun t d post => by
    cases is : modifierAt? s c.rest with
    | none =>
      rw [is] at post
      exact notes_trail.ofSame post.2
    | some s' =>
      rw [is] at post
      obtain ⟨-, _, _, took⟩ := post
      exact .took took

/-- The modifiers go on at the word. -/
def modifierRound (m : Mending) : Turn Modifiers → Turn Modifiers → Cursor → Cursor → Prop :=
  fun t _ d _ => (∃ s, t = .again s) ∧ m.Before [] d

/-- A modifier is read alike by both runs, or the first one is at the word. -/
theorem modifierTurn_mends (s : Modifiers) : m.Mends p m.modifierRound (modifierTurn s) (modifierTurn s) where
  left := modifierTurn_notes s
  right := modifierTurn_notes s
  shifts i old old' c c' rel := by
    refine Yields.imp ((modifierTurn_steps s c).both (modifierTurn_steps s c')) fun t d post => ?_
    refine post.imp fun t' d' posts => ?_
    rw [rel.rest] at posts
    cases is : modifierAt? s c.rest with
    | none =>
      rw [is] at posts
      obtain ⟨⟨rfl, same⟩, rfl, same'⟩ := posts
      exact ⟨rfl, rel.same same same'⟩
    | some s' =>
      rw [is] at posts
      obtain ⟨⟨rfl, _, _, took⟩, rfl, _, _, took'⟩ := posts
      exact ⟨rfl, rel.took took took'⟩
  goes us c c' twin _ := by
    refine Yields.imp ((modifierTurn_steps s c).both (modifierTurn_steps s c')) fun t d post => ?_
    refine post.imp fun t' d' posts => ?_
    rw [twin.rest, twin.rest'] at posts
    -- Both texts read the same modifier, or the cut is near enough for the semicolon to decide.
    by_cases alike : modifierAt? s (us ++ m.ahead) = modifierAt? s (us ++ m.ahead')
    · rw [← alike] at posts
      cases is : modifierAt? s (us ++ m.ahead) with
      | none =>
        rw [is] at posts
        obtain ⟨⟨rfl, same⟩, rfl, same'⟩ := posts
        exact .inl ⟨rfl, us, twin.same same same'⟩
      | some s' =>
        rw [is] at posts
        obtain ⟨⟨rfl, _, _, took⟩, rfl, _, _, took'⟩ := posts
        cases us with
        | nil => exact .inr (.inl (.inl (twin.toBefore.judged_took took)))
        | cons u us => exact .inl ⟨rfl, us, twin.took took took'⟩
    · obtain ⟨short, s', is⟩ := modifierAt?_differs alike
      rw [is] at posts
      obtain ⟨⟨rfl, _, _, took⟩, -⟩ := posts
      rcases short with rfl | ⟨u, rfl⟩
      · exact .inr (.inl (.inl (twin.toBefore.judged_took took)))
      · exact .inr (.inr ⟨⟨s', rfl⟩, twin.toBefore.took took⟩)

/-- At the word the modifiers read it, or there are no more. -/
theorem modifierRounds_word (before : m.Before [] c) (n : Nat) (s : Modifiers) :
    Yields (rounds modifierTurn n s) c fun t d => d.Silent m.place ∨ t = s ∧ modifierAt? s m.ahead = none ∧ m.Before [] d := by
  cases n with
  | zero => exact .throw _
  | succ n =>
    refine (modifierTurn_steps s c).bind (f := Mends.goOn modifierTurn n) fun t d post => ?_
    rw [before.rest] at post
    cases is : modifierAt? s ([] ++ m.ahead) with
    | none =>
      rw [is] at post
      obtain ⟨rfl, same⟩ := post
      exact .pure (.inr ⟨rfl, is, before.same same⟩)
    | some s' =>
      rw [is] at post
      obtain ⟨rfl, _, _, took⟩ := post
      exact (notes_rounds modifierTurn_notes n s' d).imp fun _ _ noted => .inl (noted.silent (before.silent_took took))

/-- So are all the modifiers. -/
theorem modifiers_mends : m.Mends p (fun _ _ d _ => m.Before [] d) modifiers modifiers := by
  refine .loop modifierTurn_mends (fun t t' d d' other n n' => ?_) {}
  obtain ⟨⟨s, rfl⟩, before⟩ := other
  exact .alone (modifierRounds_word before n s) fun _ _ _ _ post => post.imp judged_of_silent fun post => post.2.2

/-- Entered at the word, either a modifier is read or none is there. -/
theorem modifiers_word (before : m.Before [] c) : Yields modifiers c fun s d =>
    d.Silent m.place ∨ s = {} ∧ modifierAt? {} m.ahead = none ∧ m.Before [] d := .get (modifierRounds_word before _ _)

/-- One word before the word the modifiers come to it, or there are none. -/
theorem modifiers_next (before : m.Before [u] c) : Yields modifiers c fun s d =>
    d.Judged m.place ∨ m.Before [] d ∨ s = {} ∧ modifierAt? {} (u :: m.ahead) = none ∧ m.Before [u] d := by
  refine .get ((modifierTurn_steps {} c).bind (f := Mends.goOn modifierTurn c.total) fun t d post => ?_)
  rw [before.rest] at post
  cases is : modifierAt? {} ([u] ++ m.ahead) with
  | none =>
    rw [is] at post
    obtain ⟨rfl, same⟩ := post
    exact .pure (.inr (.inr ⟨rfl, is, before.same same⟩))
  | some s' =>
    rw [is] at post
    obtain ⟨rfl, _, _, took⟩ := post
    exact (modifierRounds_word (before.took took) _ s').imp fun _ _ post =>
      post.imp judged_of_silent fun post => .inl post.2.2

/-! ### Declarations -/

section

variable (h : m.Stating r r')
include h

/-- At the word a declaration reads it, or there is none. -/
theorem declaration_word (before : m.Before [] c) (point : Checkpoint) (isDefault : Bool) :
    Yields (declaration r point isDefault) c fun x d =>
      d.Silent m.place ∨ x = false ∧ at? isDefault m.ahead = none ∧ m.Before [] d := by
  refine (declaration_steps r point isDefault c).imp fun x d post => ?_
  obtain ⟨e, same, read⟩ := post
  rw [before.rest] at read
  cases form : at? isDefault ([] ++ m.ahead) with
  | none =>
    rw [form] at read
    obtain ⟨rfl, rfl⟩ := read
    exact .inr ⟨rfl, form, before.same same⟩
  | some f =>
    rw [form] at read
    exact .inl ((rule_declares h f point point).reads e (before.same same) () d read.2)

/-- One word before the word a declaration that has to have a name comes to it. -/
theorem declaration_next (before : m.Before [u] c) (point : Checkpoint) {isDefault : Bool} {f : DeclarationForm}
    (form : at? isDefault (u :: m.ahead) = some f) (named : ¬f.Anonymous) :
    Yields (declaration r point isDefault) c fun x d => x = true ∧ d.Judged m.place := by
  refine (declaration_steps r point isDefault c).imp fun x d post => ?_
  obtain ⟨e, same, read⟩ := post
  rw [before.rest, show [u] ++ m.ahead = u :: m.ahead from rfl, form] at read
  obtain ⟨rfl, run⟩ := read
  exact ⟨rfl, (rule_declares h f point point).decides named u e (before.same same) () d run⟩

end

/-- A declaration lies behind both runs. -/
def declared (m : Mending) : Bool → Bool → Cursor → Cursor → Prop := fun x y d d' => x = true ∧ y = true ∧ m.after () () d d'

section

variable {k n : Nat} (h : m.Stating (statementWithin k) (statementWithin n))
include h

/-- What a declaration comes to, form by form of its first words. -/
theorem declaration_mends (point point' : Checkpoint) (isDefault : Bool) :
    m.Mends p m.declared (declaration (statementWithin k) point isDefault) (declaration (statementWithin n) point' isDefault) where
  left := show noting.Rel Anywhere .same (declaration (statementWithin k) point isDefault) (declaration _ point isDefault) from
    noting.declaration (noting.statementWithin k k) trivial isDefault
  right := show noting.Rel Anywhere .same (declaration (statementWithin n) point' isDefault) (declaration _ point' isDefault) from
    noting.declaration (noting.statementWithin n n) trivial isDefault
  shifts i old old' := show (shifting i old old').Rel Anywhere .same _ _ from
    (shifting i old old').declaration ((shifting i old old').statementWithin k n) trivial isDefault
  goes us c c' twin _ := by
    have steps := (declaration_steps (statementWithin k) point isDefault c).both
      (declaration_steps (statementWithin n) point' isDefault c')
    refine Yields.imp steps fun x d post => post.imp fun y d' posts => ?_
    obtain ⟨⟨e, same, read⟩, e', same', read'⟩ := posts
    rw [twin.rest] at read
    rw [twin.rest'] at read'
    have twin := twin.same same same'
    -- Without a difference in the form both run the same rule; else the word in question is near and named.
    by_cases alike : at? isDefault (us ++ m.ahead) = at? isDefault (us ++ m.ahead')
    · rw [← alike] at read'
      cases form : at? isDefault (us ++ m.ahead) with
      | none =>
        rw [form] at read read'
        obtain ⟨rfl, rfl⟩ := read
        obtain ⟨rfl, rfl⟩ := read'
        exact .inl ⟨rfl, us, twin⟩
      | some f =>
        rw [form] at read read'
        obtain ⟨rfl, run⟩ := read
        obtain ⟨rfl, run'⟩ := read'
        rcases (rule_declares h f point point').goes us e e' twin trivial () d run () d' run' with both | settled | after
        · exact .inl ⟨rfl, both.2⟩
        · exact .inr (.inl settled.answer)
        · exact .inr (.inr ⟨rfl, rfl, after⟩)
    · refine .inr (.inl (.inl ?_))
      match us, (at?_near isDefault).length_le alike with
      | [], _ =>
        obtain ⟨f, form⟩ := Option.ne_none_iff_exists'.1 (show at? isDefault ([] ++ m.ahead) ≠ none from alike)
        rw [form] at read
        exact (rule_declares h f point point).reads.judges e twin.toBefore () d read.2
      | [u], _ =>
        obtain ⟨f, form, named⟩ := at?_differs alike
        rw [show [u] ++ m.ahead = u :: m.ahead from rfl, form] at read
        exact (rule_declares h f point point).decides named u e twin.toBefore () d read.2

end

/-! ### Recovery -/

/-- A word that begins no statement is complained of. -/
theorem complainOfStart_judges (hasModifiers : Bool) : m.Judges (complainOfStart hasModifiers) := by
  refine .either (currentIs_answers .garbage) (.error _) (.ite (fun _ => .error _) fun _ => ?_)
  refine .either (currentIn_answers _) ?_ ?_
  · exact .look (fun c => (currentText_answers c).imp fun _ _ post => post.2) fun _ => .errorWith _ _
  · exact .look (fun c => (currentText_answers c).imp fun _ _ post => post.2) fun _ => .errorWith _ _

/-- What it is called shows in the word itself. -/
theorem currentText_near : Near 0 fun ws : List Word => (ws[0]?.map Word.text).getD "" :=
  (near_getElem? 0).map fun w : Option Word => (w.map (·.text)).getD ""

/-- The complaint is the same in both runs. -/
theorem complainOfStart_mends (hasModifiers : Bool) :
    m.Mends p never (complainOfStart hasModifiers) (complainOfStart hasModifiers) := by
  have names {q : List Word → Prop} {kind : DiagnosticKind} (closed : kind.isUnclosed = false) (f : String → String) :
      m.Mends q never (do errorWith kind (f (← currentText))) (do errorWith kind (f (← currentText))) :=
    .askHere currentText_answers currentText_near (fun _ => .errorWith closed _) fun _ => .errorWith _ _
  have judges {kind : DiagnosticKind} (f : String → String) : m.Judges (do errorWith kind (f (← currentText))) :=
    .look (fun c => (currentText_answers c).imp fun _ _ post => post.2) fun _ => .errorWith _ _
  have plain : KindSet.closers.holds .semicolon = false := by decide
  refine .branch (currentIs_answers .garbage) (currentIs_near .garbage) rfl (.error rfl) ?_ (.error _)
  refine .ite (fun _ => .error rfl) fun _ => ?_
  exact .branch (currentIn_answers _) (currentIn_near _) plain (names rfl id) (names rfl _) (judges id)

/-- Both runs are in the same block. -/
theorem inBlock_mends : m.Mends p never inBlock inBlock where
  left := show noting.Rel Anywhere .same inBlock inBlock from noting.inBlock
  right := show noting.Rel Anywhere .same inBlock inBlock from noting.inBlock
  shifts i old old' := show (shifting i old old').Rel Anywhere .same inBlock inBlock from (shifting i old old').inBlock
  goes us c c' twin _ := by
    refine .get (.pure (.get (.pure (.inl ⟨?_, us, twin⟩))))
    rw [twin.openers]

/-- Skipping has come to its end, and the first run is adrift. -/
def skipped (m : Mending) : Turn Skipping → Turn Skipping → Cursor → Cursor → Prop :=
  fun t _ d _ => (∃ s, t = .done s) ∧ m.Adrift true d

/-- Whether a recovery ends, as a question about the words. -/
theorem skippingEnds_answers (block : Bool) (kind : Option TokenKind) (s : Skipping) :
    Answers (pure (s.started && s.depth == 0) <&&> skippingEnds block kind) fun ws _ =>
      (s.started && s.depth == 0) && ((kind == some .braceClose && block) || beginsStatement ws) :=
  (Answers.pure _).and ((Answers.pure _).or atStatementStart_answers)

/-- What a round of skipping does with a word behind its tests. -/
def skipWord (kind : Option TokenKind) (s : Skipping) : Rule (Turn Skipping) := do
  let depth := depthAfter s.depth kind
  bump
  if depth == 0 && kind == some .semicolon then return .done ⟨depth, true⟩
  return .again ⟨depth, true⟩

/-- A word is passed over in both runs. -/
theorem skipWord_mends (kind : Option TokenKind) (s : Skipping) : m.Mends p never (skipWord kind s) (skipWord kind s) :=
  Mends.bump.onward fun _ => .ite (fun _ => .pure _) fun _ => .pure _

/-- Passing over the word in question settles the question. -/
theorem skipWord_judges (kind : Option TokenKind) (s : Skipping) : m.Judges (skipWord kind s) :=
  Judges.bump.bind fun _ => (Rests.ite (m := m) (.pure _) (.pure _)).left

/-- One turn of a recovery: both runs pass a word, or the first one is at the word. -/
theorem skipTurn_mends (block : Bool) (s : Skipping) : m.Mends p m.skipped (skipTurn block s) (skipTurn block s) := by
  have next (kind : Option TokenKind) (b : Bool) : m.Mends Anywhere m.skipped
      (if b = true then return .done s else skipWord kind s) (if b = true then return .done s else skipWord kind s) :=
    .ite (fun _ => .pure _) fun _ => (skipWord_mends kind s).only
  -- what the first run does where it has parted from the other one
  have parted {us : List Word} {c : Cursor} (kind : Option TokenKind) (b : Bool) (before : m.Before us c)
      (short : us = [] ∨ b = true ∧ ∃ u, us = [u] ∧ beginsStatement (u :: m.ahead) = true) :
      Yields (if b = true then return .done s else skipWord kind s) c fun t d =>
        d.Judged m.place ∨ (∃ s, t = .done s) ∧ m.Adrift true d := by
    refine .ite (fun ends => .pure (.inr ⟨⟨s, rfl⟩, ?_⟩)) fun goesOn => ?_
    · rcases short with rfl | ⟨-, u, rfl, begins⟩
      · exact .inl before
      · exact .inr ⟨rfl, u, before, begins⟩
    · obtain rfl := short.resolve_right fun ends => goesOn ends.1
      exact (skipWord_judges kind s c before).imp fun _ _ => .inl
  have behind (kind : Option TokenKind) : m.Mends (fun ws => kindIn ws 0 = kind) m.skipped
      (do
        if ← pure (s.started && s.depth == 0) <&&> skippingEnds block kind then return .done s
        skipWord kind s)
      (do
        if ← pure (s.started && s.depth == 0) <&&> skippingEnds block kind then return .done s
        skipWord kind s) := by
    refine .ask (skippingEnds_answers block kind s) (fun b => (next kind b).given fun _ _ => trivial) ?_
    intro us c c' twin _ differs
    have either {a b x y : Bool} (differs : (a && (b || x)) ≠ (a && (b || y))) : a = true ∧ x ≠ y := by
      revert differs
      cases a <;> cases b <;> simp
    refine .alone (parted kind _ twin.toBefore ?_) fun _ _ _ _ => id
    cases us with
    | nil => exact .inl rfl
    | cons u us =>
      obtain ⟨outside, differs⟩ := either differs
      obtain ⟨rfl, begins⟩ := begins_of_differs differs
      exact .inr ⟨by simp only [outside, show [u] ++ m.ahead = u :: m.ahead from rfl, begins, Bool.or_true, Bool.true_and],
        u, rfl, begins⟩
  refine .ask atEnd_answers (fun b => .ite (fun _ => .pure _) fun _ => ?_) fun us c c' _ _ differs => absurd ?_ differs
  · refine .ask current_answers (fun kind => (behind kind).given fun _ both => both.2) fun us c c' twin _ differs => ?_
    obtain rfl := (near_kindIn 0).eq_nil differs
    exact .alone ((twin.toBefore.tests (skippingEnds_answers block _ s)).bind fun b d post => parted _ b post.2 (.inl rfl))
      fun _ _ _ _ => id
  · cases us <;> rfl

/-- The error node of what is skipped. -/
theorem skipping_mends (point point' : Checkpoint) : m.Mends p m.after
    (nodeAt point .error do let _ ← loop {} (skipTurn (← inBlock)))
    (nodeAt point' .error do let _ ← loop {} (skipTurn (← inBlock))) := by
  have skips (block : Bool) : m.Mends Anywhere (fun _ _ d _ => m.Adrift true d)
      (loop {} (skipTurn block)) (loop {} (skipTurn block)) := by
    refine .loop (skipTurn_mends block) (fun t t' d d' other n n' => ?_) {}
    obtain ⟨⟨s, rfl⟩, adrift⟩ := other
    exact .alone (P := fun _ d => m.Adrift true d) (.pure adrift) fun _ _ _ _ => .inr
  refine .nodeAt (inBlock_mends.onward fun block => ?_) steady_after point point'
  exact (skips block).bind (fun _ => .pure ()) fun _ _ _ _ adrift => .pure (.pure (.inr (.inr (.inl adrift))))

/-- Behind a recovery no semicolon is missing: the one put in is skipped or stops it. -/
theorem recover_mends (point point' : Checkpoint) (hasModifiers : Bool) :
    m.Mends p m.after (recover point hasModifiers) (recover point' hasModifiers) :=
  (complainOfStart_mends hasModifiers).onward fun _ => skipping_mends point point'

/-- A recovery begins with a complaint. -/
theorem recover_judges (point : Checkpoint) (hasModifiers : Bool) : m.Judges (recover point hasModifiers) :=
  (complainOfStart_judges hasModifiers).bind fun _ => (skipping_mends (m := m) point point).notes

/-! ### Statements -/

/-- An expression is asked for. -/
theorem exportDefault_judges (point : Checkpoint) : m.Judges (exportDefault point) := by
  have run : m.Judges (runOr .statementEnd .expression .expectedExpression) := runOr_judges rfl
  have tail : m.Judges expressionTail :=
    (Judges.node run).bind fun _ => (expectSemicolon_mends (m := m)).notes
  exact tail.nodeAt point

section

variable {k n : Nat} (h : m.Stating (statementWithin k) (statementWithin n))
include h

/-- Behind the modifiers a declaration, an expression or a recovery comes out alike. -/
theorem modified_mends (point point' : Checkpoint) (s : Modifiers) :
    m.Mends p m.after (modified (statementWithin k) point s) (modified (statementWithin n) point' s) := by
  have last : m.Mends Anywhere m.after (if s.isDefault then exportDefault point else recover point s.any)
      (if s.isDefault then exportDefault point' else recover point' s.any) :=
    .ite (fun _ => exportDefault_mends point point') fun _ => recover_mends point point' s.any
  refine (declaration_mends h point point' s.isDefault).bind (fun found => .ite (fun _ => .pure ()) fun _ => last) ?_
  rintro _ _ d d' ⟨rfl, rfl, after⟩
  exact .pure (.pure (.inr (.inr after)))

/-- Entered at the word, the question is settled. -/
theorem modified_judges (point : Checkpoint) (s : Modifiers) : m.Judges (modified (statementWithin k) point s) := by
  have last : m.Mends Anywhere m.after (if s.isDefault then exportDefault point else recover point s.any)
      (if s.isDefault then exportDefault point else recover point s.any) :=
    .ite (fun _ => exportDefault_mends point point) fun _ => recover_mends point point s.any
  refine fun c before => (declaration_word h before point s.isDefault).bind fun found d post => ?_
  rcases post with silent | ⟨rfl, -, before⟩
  · cases found with
    | true => exact .pure (judged_of_silent silent)
    | false => exact (last.notes d).imp fun _ _ noted => noted.judged (judged_of_silent silent)
  · exact Judges.ite (fun _ => exportDefault_judges point) (fun _ => recover_judges point s.any) d before

/-- The modifiers and what follows them. -/
theorem modifiers_modified_mends (point point' : Checkpoint) :
    m.Mends p m.after (modifiers >>= modified (statementWithin k) point) (modifiers >>= modified (statementWithin n) point') :=
  modifiers_mends.bind (fun s => modified_mends h point point' s)
    fun s _ _ _ before => .judged (modified_judges h point s _ before)

/-- So it is if the modifiers are still to be read. -/
theorem modifiers_modified_judges (point : Checkpoint) : m.Judges (modifiers >>= modified (statementWithin k) point) :=
  fun c before => (modifiers_word before).bind fun s d post => by
    rcases post with silent | ⟨rfl, -, before⟩
    · exact ((modified_mends h point point s).notes d).imp fun _ _ noted => noted.judged (judged_of_silent silent)
    · exact modified_judges h point {} d before

/-- What comes behind an export that is no modifier, or instead of one. -/
def afterExport (inner : Rule Unit) (point : Checkpoint) (exported : Bool) : Rule Unit :=
  if exported = true then return else modifiers >>= modified inner point

/-- A statement behind the question whether it is an export. -/
theorem afterExport_mends (point point' : Checkpoint) (exported : Bool) :
    m.Mends p m.after (afterExport (statementWithin k) point exported) (afterExport (statementWithin n) point' exported) :=
  .ite (fun _ => .pure ()) fun _ => modifiers_modified_mends h point point'

omit h in
/-- An export that is no modifier, where the word is read. -/
theorem exports_word (before : m.Before [] c) (point : Checkpoint) :
    Yields (atKeyword .kwExport <&&> exportForm point) c fun x d => d.Silent m.place ∨ x = false ∧ m.Before [] d := by
  rw [and_eq_branch]
  refine (before.tests (atKeyword_answers .kwExport)).bind fun b d post => ?_
  exact .ite (fun _ => exportForm_word post.2 point) fun _ => .pure (.inr ⟨rfl, post.2⟩)

omit h in
/-- Entered at an `export` before the word, it is no form of its own, or the question is settled. -/
theorem exports_next (before : m.Before [u] c) (point : Checkpoint) :
    Yields (atKeyword .kwExport <&&> exportForm point) c fun x d => d.Judged m.place ∨ x = false ∧ m.Before [u] d := by
  rw [and_eq_branch]
  refine (before.tests (atKeyword_answers .kwExport)).bind fun b d post => ?_
  exact .ite (fun _ => exportForm_next post.2 point) fun _ => .pure (.inr ⟨rfl, post.2⟩)

omit h in
/-- The forms of an export come out as declarations do, or the first run is at the word. -/
theorem exports_mends (point point' : Checkpoint) :
    m.Mends p (fun x y d d' => m.declared x y d d' ∨ x = false ∧ m.Before [] d)
      (atKeyword .kwExport <&&> exportForm point) (atKeyword .kwExport <&&> exportForm point') := by
  rw [and_eq_branch, and_eq_branch]
  refine .ask (atKeyword_answers .kwExport) (fun b => ?_) fun us c c' twin _ differs => ?_
  · refine .ite (fun _ => ?_) fun _ => .pure false
    exact (exportForm_mends point point').imp fun _ _ _ _ => .inl
  · obtain rfl := (near_spells 0 _).eq_nil differs
    have found : spells ([] ++ m.ahead) 0 Keyword.kwExport.word = true := eq_true_of_differs rfl differs
    rw [found]
    exact .alone (exportForm_word twin.toBefore point) fun _ _ _ _ post => post.imp judged_of_silent .inr

/-- Behind an `export` a statement is asked for. -/
theorem export_judges (point : Checkpoint) :
    m.Judges ((atKeyword .kwExport <&&> exportForm point) >>= afterExport (statementWithin k) point) :=
  fun c before => (exports_word before point).bind fun x d post => by
    rcases post with silent | ⟨rfl, before⟩
    · exact ((afterExport_mends h point point x).notes d).imp fun _ _ noted => noted.judged (judged_of_silent silent)
    · exact modifiers_modified_judges h point d before

/-- A whole statement comes out alike, or is adrift behind itself. -/
theorem statementAt_mends (point point' : Checkpoint) :
    m.Mends p m.after (statementAt (statementWithin k) point) (statementAt (statementWithin n) point') := by
  have empty : m.Mends Anywhere m.after (node .emptyStatement bump) (node .emptyStatement bump) :=
    .node Mends.bump.only steady_after
  have rest : m.Mends Anywhere m.after ((atKeyword .kwExport <&&> exportForm point) >>= afterExport (statementWithin k) point)
      ((atKeyword .kwExport <&&> exportForm point') >>= afterExport (statementWithin n) point') := by
    refine (exports_mends point point').bind (afterExport_mends h point point') ?_
    rintro _ y d d' (⟨rfl, rfl, after⟩ | ⟨rfl, before⟩)
    · exact .pure (.pure (.inr (.inr after)))
    · exact .judged (modifiers_modified_judges h point d before)
  refine .ask (currentIs_answers .semicolon) (fun b => ?_) fun us c c' twin _ differs => ?_
  · exact (Mends.ite (fun _ => empty.quit) fun _ => rest).given fun _ _ => trivial
  obtain rfl := (currentIs_near .semicolon).eq_nil differs
  have other : (kindIn ([] ++ m.ahead) 0 == some .semicolon) = false := by
    by_contra found
    exact differs (eq_true_of_ne_false found)
  rw [other]
  exact .judged (export_judges h point c twin.toBefore)

/-- Where a statement begins at the word it is read in silence. -/
theorem modified_reads (before : m.Before [] c) (begins : beginsStatement m.ahead = true)
    (unmodified : modifierAt? {} m.ahead = none) (point : Checkpoint) :
    Yields (modified (statementWithin k) point {}) c fun _ d => d.Silent m.place := by
  refine (declaration_word h before point false).bind fun found d post => ?_
  have silent : d.Silent m.place := post.resolve_right fun none => by
    rcases reads_of_begins begins with ⟨s, modifier⟩ | ⟨f, form, -⟩
    · exact Option.some_ne_none s (modifier.symm.trans unmodified)
    · exact Option.some_ne_none f (form.symm.trans none.2.1)
  cases found with
  | true => exact .pure silent
  | false => exact ((recover_mends (m := m) point point false).notes d).imp fun _ _ noted => noted.silent silent

/-- Where a statement begins at the word, it is read. -/
theorem modifiers_modified_reads (before : m.Before [] c) (begins : beginsStatement m.ahead = true) (point : Checkpoint) :
    Yields (modifiers >>= modified (statementWithin k) point) c fun _ d => d.Silent m.place :=
  (modifiers_word before).bind fun s d post => by
    rcases post with silent | ⟨rfl, unmodified, before⟩
    · exact ((modified_mends h point point s).notes d).imp fun _ _ noted => noted.silent silent
    · exact modified_reads h before begins unmodified point

/-- Where a run has ended early, what begins there reads up to the word. -/
theorem modifiers_modified_next (before : m.Before [u] c) (begins : beginsStatement (u :: m.ahead) = true) (point : Checkpoint) :
    Yields (modifiers >>= modified (statementWithin k) point) c fun _ d => d.Judged m.place :=
  (modifiers_next before).bind fun s d post => by
    rcases post with judged | before | ⟨rfl, unmodified, before⟩
    · exact ((modified_mends h point point s).notes d).imp fun _ _ noted => noted.judged judged
    · exact modified_judges h point s d before
    · rcases reads_of_begins begins with ⟨s, modifier⟩ | ⟨f, form, named⟩
      · exact absurd (modifier.symm.trans unmodified) (Option.some_ne_none s)
      · refine (declaration_next h before point form named).bind fun found e post => ?_
        obtain ⟨rfl, judged⟩ := post
        exact .pure judged

omit h in
/-- An identifier is no semicolon. -/
theorem not_semicolon {ws : List Word} (ident : kindIn ws 0 = some .ident) : (kindIn ws 0 == some .semicolon) = false := by
  rw [ident]
  rfl

/-- A statement that the first run begins at the word, or where it has ended early. -/
theorem statementAt_starts (point : Checkpoint) : m.Starts (statementAt (statementWithin k) point) where
  judges := by
    refine .look (fun c => (currentIs_answers .semicolon c).imp fun _ _ post => post.2) fun _ => ?_
    refine .ite (fun _ => ?_) fun _ => ?_
    · exact (Judges.node .bump).bind fun _ => (Rests.pure (m := m) ()).left
    · exact export_judges h point
  reads begins c before := by
    refine (before.tests (currentIs_answers .semicolon)).bind fun b d post => ?_
    obtain ⟨rfl, before⟩ := post
    have other := not_semicolon (ident_of_beginsStatement begins)
    refine .ite (fun found => absurd found (ne_true_of_eq_false other)) fun _ => ?_
    refine (exports_word before point).bind fun x e post => ?_
    rcases post with silent | ⟨rfl, before⟩
    · exact ((afterExport_mends h point point x).notes e).imp fun _ _ noted => noted.silent silent
    · exact modifiers_modified_reads h before begins point
  ends c off := by
    obtain ⟨u, before, begins⟩ := off
    refine (before.tests (currentIs_answers .semicolon)).bind fun b d post => ?_
    obtain ⟨rfl, before⟩ := post
    have ident : kindIn ([u] ++ m.ahead) 0 = some .ident := ident_of_beginsStatement begins
    refine .ite (fun found => absurd found (ne_true_of_eq_false (not_semicolon ident))) fun _ => ?_
    refine (exports_next before point).bind fun x e post => ?_
    rcases post with judged | ⟨rfl, before⟩
    · exact ((afterExport_mends h point point x).notes e).imp fun _ _ noted => noted.judged judged
    · exact modifiers_modified_next h before begins point

end

/-! ### Blocks in blocks -/

/-- A checkpoint only looks and builds. -/
theorem checkpoint_stays (c : Cursor) : Yields checkpoint c fun _ d => Stays c d := by
  intro x d run
  cases run
  exact (Same.stays ⟨_, _, _, rfl⟩).trans (.placeGap _)

/-- One level more: what a statement begins with. -/
theorem starts_succ {k n : Nat} (h : m.Stating (statementWithin k) (statementWithin n)) :
    m.Starts (statementWithin (k + 1)) where
  judges c before := (checkpoint_stays c).bind fun point d stays =>
    (statementAt_starts h point).judges d (before.stays stays)
  reads begins c before := (checkpoint_stays c).bind fun point d stays =>
    (statementAt_starts h point).reads begins d (before.stays stays)
  ends c off := (checkpoint_stays c).bind fun point d stays => (statementAt_starts h point).ends d (off.stays stays)

/-- One level more: how a statement comes out. -/
theorem mends_succ {k n : Nat} (h : m.Stating (statementWithin k) (statementWithin n)) :
    m.Mends Anywhere m.after (statementWithin (k + 1)) (statementWithin (n + 1)) where
  left := show noting.Rel Anywhere .same (statementWithin (k + 1)) (statementWithin (k + 1)) from noting.statementWithin _ _
  right := show noting.Rel Anywhere .same (statementWithin (n + 1)) (statementWithin (n + 1)) from noting.statementWithin _ _
  shifts i old old' := show (shifting i old old').Rel Anywhere .same _ _ from (shifting i old old').statementWithin _ _
  goes us c c' twin _ := Yields.bindBoth (R := fun _ _ d d' => Stays c d ∧ Stays c' d')
    ((checkpoint_stays c).both (checkpoint_stays c')) fun point point' d d' stays =>
      (statementAt_mends (p := Anywhere) h point point').goes us d d' (twin.stays stays.1 stays.2) trivial

/-- All levels, by induction: the blocks are those of the level below. -/
theorem statementWithin_same (n : Nat) : ∀ m : Mending, m.Stating (statementWithin n) (statementWithin n) := by
  induction n with
  | zero =>
    have none (m : Mending) : m.Starts (statementWithin 0) := ⟨.throw _, fun _ _ _ => .throw _, fun _ _ => .throw _⟩
    exact fun m => ⟨.throwLeft _ fun _ => .throw _, none m, none m.onward⟩
  | succ n ih => exact fun m => ⟨mends_succ (ih m), starts_succ (ih m), starts_succ (ih m.onward)⟩

/-- The bounds on the depth of blocks do not count. -/
theorem statementWithin_stating (k n : Nat) : m.Stating (statementWithin k) (statementWithin n) := by
  refine ⟨?_, (statementWithin_same k m).starts, (statementWithin_same n m).starts'⟩
  induction k generalizing n with
  | zero => exact .throwLeft _ (statementWithin_same n m).right
  | succ k ih =>
    cases n with
    | zero => exact .throwRight _ (statementWithin_same (k + 1) m).left
    | succ n => exact mends_succ ⟨ih n, (statementWithin_same k m).starts, (statementWithin_same n m).starts'⟩

/-- How statements come out in both runs. -/
theorem statement_stating : m.Stating statement statement where
  toMends := .bounded (f := fun n => statementWithin (n + 1)) (g := fun n => statementWithin (n + 1))
    fun k n => (statementWithin_stating (k + 1) (n + 1)).toMends
  starts :=
    have starts (n : Nat) : m.Starts (statementWithin n) := (statementWithin_same n m).starts
    ⟨fun c before => .get ((starts _).judges c before), fun begins c before => .get ((starts _).reads begins c before),
      fun c off => .get ((starts _).ends c off)⟩
  starts' :=
    have starts (n : Nat) : m.onward.Starts (statementWithin n) := (statementWithin_same n m).starts'
    ⟨fun c before => .get ((starts _).judges c before), fun begins c before => .get ((starts _).reads begins c before),
      fun c off => .get ((starts _).ends c off)⟩

/-! ### Sources -/

/-- The end of the words ends a run of statements. -/
theorem endEnding : m.Ending atEnd fun ws l => ws.isEmpty || l.isSome where
  answers := atEnd_answers
  near := atEnd_near
  plain := rfl
  ident ws ident := by
    cases ws with
    | nil => cases ident
    | cons w ws => rfl
  other _ := rfl

/-- Placing the gap reads nothing. -/
theorem placeGap_mends : m.Mends p never placeGap placeGap where
  left := show noting.Rel Anywhere .same placeGap placeGap from noting.placeGap
  right := show noting.Rel Anywhere .same placeGap placeGap from noting.placeGap
  shifts i old old' := show (shifting i old old').Rel Anywhere .same _ _ from (shifting i old old').placeGap
  goes us c c' twin _ := .modify (.modify (.inl ⟨rfl, us, twin.stays (.placeGap c) (.placeGap c')⟩))

/-- Up to the end of the source all is settled. -/
theorem source_mends : m.Mends p never source source := by
  have turns : m.Mends Anywhere never (repeatWhile sourceTurn) (repeatWhile sourceTurn) :=
    (statements_mends endEnding statement_stating).imp fun _ _ _ _ ends => Bool.false_ne_true ends.1
  have skips (c : Cursor) : Yields skipGap c fun _ d => Same c d := .modify ⟨_, _, _, rfl⟩
  have settles : m.Mends Anywhere never skipAndPlaceGap skipAndPlaceGap :=
    (Mends.quiet skips skips).onward fun _ => placeGap_mends
  have file : m.Mends Anywhere never sourceFile sourceFile := .node (turns.onward fun _ => settles) steady_never
  exact (file.given fun _ _ => trivial).onward fun _ => placeGap_mends

end Mending

end ImplicitGlobals.Grammar
