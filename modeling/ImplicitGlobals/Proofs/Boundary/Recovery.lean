import ImplicitGlobals.Proofs.Grammar.Statement
import ImplicitGlobals.Proofs.Grammar.Yields
import ImplicitGlobals.Syntax.Parse
import Mathlib.Data.List.Induction
import Mathlib.Data.List.Infix

/-!
# Recovery in a block

What begins no statement is skipped word by word, with a count of the brackets it opens. The
count never falls below zero, so closers that match nothing are forgotten, and it is zero as
soon as every bracket is closed again. In a block a closing brace at count zero belongs to the
block, and skipping leaves it there. Only the word at which skipping begins is never left: a
closing brace right behind modifiers goes into the error node.
-/

namespace ImplicitGlobals

/-- Every bracket that the kinds open is closed behind it: no end of them opens more than it
closes. -/
def Settled (kinds : List TokenKind) : Prop :=
  ∀ tail, tail <:+ kinds → tail.countP KindSet.openers.holds ≤ tail.countP KindSet.closers.holds

instance (kinds : List TokenKind) : Decidable (Settled kinds) :=
  decidable_of_iff (∀ tail ∈ kinds.tails, tail.countP KindSet.openers.holds ≤
    tail.countP KindSet.closers.holds) (by simp [Settled, List.mem_tails])

/-- The number of the word in a slot. -/
def Slot.word? : Slot → Option Nat
  | gap _ => none
  | word i _ => some i

/-- The words that the trees hold, by their numbers. -/
def Tree.wordsOf (parts : List (Tree Slot)) : List Nat := (leavesOf parts).filterMap Slot.word?

@[simp] theorem Tree.wordsOf_append (first more : List (Tree Slot)) :
    wordsOf (first ++ more) = wordsOf first ++ wordsOf more := by
  simp [wordsOf]

@[simp] theorem Tree.wordsOf_node (kind : NodeKind) (children : List (Tree Slot)) :
    wordsOf [node kind children] = wordsOf children := by
  simp [wordsOf, leavesOf, leaves]

namespace Grammar

variable {c d o : Cursor}

/-! ### The count of brackets -/

/-- The bracket depth behind words of the kinds. -/
def depthBehind (kinds : List TokenKind) : Nat := kinds.foldl (fun n k => depthAfter n (some k)) 0

theorem depthBehind_append (kinds : List TokenKind) (kind : TokenKind) :
    depthBehind (kinds ++ [kind]) = depthAfter (depthBehind kinds) (some kind) := by
  simp [depthBehind]

theorem not_closes_of_opens {kind : TokenKind} (opens : KindSet.openers.holds kind = true) :
    KindSet.closers.holds kind = false := by
  revert opens
  cases kind <;> decide

/-- The depth counts what some end of the words opens and does not close. -/
theorem exists_depthBehind (kinds : List TokenKind) :
    ∃ tail, tail <:+ kinds ∧ depthBehind kinds + tail.countP KindSet.closers.holds ≤
      tail.countP KindSet.openers.holds := by
  -- The tail begins where the depth was last zero.
  induction kinds using List.reverseRecOn with
  | nil => exact ⟨[], List.suffix_rfl, Nat.le_refl _⟩
  | append_singleton kinds kind ih =>
    obtain ⟨tail, isTail, count⟩ := ih
    have longer : tail ++ [kind] <:+ kinds ++ [kind] := List.suffix_append_self_iff.2 isTail
    rw [depthBehind_append]
    cases opens : KindSet.openers.holds kind with
    | true =>
      refine ⟨_, longer, ?_⟩
      simp only [depthAfter, Option.any_some, opens, not_closes_of_opens opens, List.countP_append,
        List.countP_singleton, Bool.false_eq_true, if_true, if_false]
      omega
    | false =>
      cases closes : KindSet.closers.holds kind with
      | true =>
        cases depth : depthBehind kinds with
        | zero => exact ⟨[], List.nil_suffix, by simp [depthAfter, opens, closes]⟩
        | succ n =>
          refine ⟨_, longer, ?_⟩
          simp only [depthAfter, Option.any_some, opens, closes, List.countP_append,
            List.countP_singleton, Bool.false_eq_true, if_true, if_false]
          omega
      | false =>
        refine ⟨_, longer, ?_⟩
        simp only [depthAfter, Option.any_some, opens, closes, List.countP_append,
          List.countP_singleton, Bool.false_eq_true, if_false]
        omega

/-- Where every bracket is closed again, the depth is zero. -/
theorem depthBehind_of_settled {kinds : List TokenKind} (settled : Settled kinds) :
    depthBehind kinds = 0 := by
  obtain ⟨tail, isTail, count⟩ := exists_depthBehind kinds
  have := settled tail isTail
  omega

/-! ### The words of a walk -/

theorem range'_meet {a b n : Nat} (first : a ≤ b) (rest : b ≤ n) :
    List.range' a (b - a) ++ List.range' b (n - b) = List.range' a (n - a) := by
  obtain ⟨i, rfl⟩ := Nat.exists_eq_add_of_le first
  obtain ⟨j, rfl⟩ := Nat.exists_eq_add_of_le rest
  rw [Nat.add_sub_cancel_left, Nat.add_sub_cancel_left, List.range'_append_1, Nat.add_assoc,
    Nat.add_sub_cancel_left]

theorem wordsOf_due (gap : Gap) (i : Nat) : Tree.wordsOf (gap.due i).toList = [] := by
  unfold Gap.due
  split <;> simp [Tree.wordsOf, Tree.leavesOf, Tree.leaves, Slot.word?]

/-- The parts that a walk adds hold the words that it reads. -/
theorem Walk.wordsOf (walk : Walk c d) : ∃ parts, d.parts.toList = c.parts.toList ++ parts ∧
    Tree.wordsOf parts = List.range' c.passed (d.passed - c.passed) := by
  have word (i : Nat) (label : LeafKind) : Tree.wordsOf [.leaf (.word i label)] = [i] := rfl
  induction walk with
  | refl | count | skipGap | note =>
    exact ⟨[], (List.append_nil _).symm, by simp [Tree.wordsOf, Tree.leavesOf, Cursor.skipGap, Cursor.note]⟩
  | placeGap c => exact ⟨_, Cursor.toList_parts_placeGap c, by simp [wordsOf_due, Cursor.placeGap]⟩
  | @read c _ _ label =>
    refine ⟨_, (Cursor.toList_parts_read c label).trans (List.append_assoc ..), ?_⟩
    have one : (c.read label).passed - c.passed = 1 := Nat.add_sub_cancel_left _ _
    rw [Tree.wordsOf_append, wordsOf_due, word, one]
    rfl
  | @trans c d e first rest f g =>
    obtain ⟨us, usParts, usWords⟩ := f
    obtain ⟨vs, vsParts, vsWords⟩ := g
    refine ⟨us ++ vs, by rw [vsParts, usParts, List.append_assoc], ?_⟩
    rw [Tree.wordsOf_append, usWords, vsWords]
    exact range'_meet first.frame.passed_le rest.frame.passed_le
  -- The parts that the node takes in were added by the walk before it and by its body.
  | @node c d e kind before body _ f g =>
    obtain ⟨us, usParts, usWords⟩ := f
    obtain ⟨vs, vsParts, vsWords⟩ := g
    refine ⟨_, before.frame.parts_node body.frame, ?_⟩
    have all : e.parts.toList = c.parts.toList ++ (us ++ vs) := by
      rw [vsParts, ← List.append_assoc, ← usParts]
      rfl
    rw [all, ← Array.length_toList, List.drop_left, Tree.wordsOf_node, Tree.wordsOf_append, usWords,
      vsWords]
    exact range'_meet before.frame.passed_le body.frame.passed_le
  | @within c d _ _ label kind _ _ _ body f =>
    obtain ⟨vs, vsParts, vsWords⟩ := f
    have read : ((c.pushOpener kind).read label).parts.toList = c.parts.toList ++
        (c.gap.due c.passed).toList ++ [.leaf (.word c.passed label)] := Cursor.toList_parts_read _ label
    have further : c.passed + 1 ≤ d.passed := body.frame.passed_le
    refine ⟨(c.gap.due c.passed).toList ++ [.leaf (.word c.passed label)] ++ vs, ?_, ?_⟩
    · rw [Cursor.popOpener, vsParts, read]
      simp
    · have count : d.passed - c.passed = (d.passed - (c.passed + 1)) + 1 := by omega
      rw [Tree.wordsOf_append, Tree.wordsOf_append, wordsOf_due, word, vsWords]
      show _ = List.range' c.passed (d.passed - c.passed)
      rw [count, List.range'_succ]
      rfl

/-! ### Skipping -/

/-- Of the words `us` that come first behind word `start`, those up to the cursor are skipped. -/
def Skipped (start : Nat) (us behind : List Word) (s : Skipping) (d : Cursor) : Prop :=
  ∃ done left, us = done ++ left ∧ d.rest = left ++ behind ∧ d.passed = start + done.length ∧
    s.depth = depthBehind (done.map (·.kind)) ∧ s.started = !done.isEmpty

/-- Skipping left the last words of `us` and all that is behind. -/
def Leaves (start : Nat) (us behind : List Word) (d : Cursor) : Prop :=
  ∃ left, left <:+ us ∧ d.rest = left ++ behind ∧ d.passed + left.length = start + us.length

theorem Skipped.leaves {start : Nat} {us behind : List Word} {s : Skipping}
    (h : Skipped start us behind s d) : Leaves start us behind d := by
  obtain ⟨done, left, rfl, rest, passed, -, -⟩ := h
  exact ⟨left, List.suffix_append done left, rest, by rw [passed, List.length_append]; omega⟩

/-- In a block skipping ends before a closing brace, if it may end at all. -/
theorem skippingEnds_yields (mayEnd block : Bool) (kind : Option TokenKind) (c : Cursor) :
    Yields (pure mayEnd <&&> skippingEnds block kind) c fun b d => Same c d ∧
      (mayEnd = true → kind = some .braceClose → block = true → b = true) := by
  rw [and_eq_branch, pure_bind]
  refine .ite (fun _ => ?_) fun never => .pure ⟨.refl c, fun may => absurd may never⟩
  refine Yields.bind (P := fun b d => Same c d ∧ (kind = some .braceClose → block = true → b = true))
    (.pure ⟨.refl c, fun closer inner => by simp [closer, inner]⟩) fun b d found => ?_
  cases b with
  | true => exact .pure ⟨found.1, fun _ _ _ => rfl⟩
  | false =>
    exact (atStatementStart_yields d).imp fun _ _ post =>
      ⟨found.1.trans post.1, fun _ closer inner => absurd (found.2 closer inner) Bool.noConfusion⟩

theorem skipTurn_yields {start : Nat} {us vs : List Word} {w : Word} (closer : w.kind = .braceClose)
    (settled : Settled (us.map (·.kind))) (some : us ≠ []) (s : Skipping) (d : Cursor)
    (skipped : Skipped start us (w :: vs) s d) :
    Yields (skipTurn true s) d fun
      | .again s', e => Skipped start us (w :: vs) s' e
      | .done _, e => Leaves start us (w :: vs) e := by
  obtain ⟨done, left, split, rest, passed, depth, started⟩ := skipped
  have stays {e : Cursor} (same : Same d e) : Leaves start us (w :: vs) e := by
    obtain ⟨_, _, _, rfl⟩ := same
    exact Skipped.leaves (s := s) ⟨done, left, split, rest, passed, depth, started⟩
  refine (atEnd_answers d).bind fun ended e asked => ?_
  refine .ite (fun _ => .pure (stays asked.2)) fun _ => ?_
  refine (current_answers e).bind fun kind f looked => ?_
  refine (skippingEnds_yields (s.started && s.depth == 0) true kind f).bind fun ends g tested => ?_
  have same : Same d g := (asked.2.trans looked.2).trans tested.1
  refine .ite (fun _ => .pure (stays same)) fun going => ?_
  have kind : kind = kindIn d.rest 0 := by
    rw [looked.1]
    obtain ⟨_, _, _, rfl⟩ := asked.2
    rfl
  -- at the closer all of `us` is skipped, so the depth is zero and skipping ends
  obtain ⟨u, left, rfl⟩ : ∃ u more, left = u :: more := by
    cases left with
    | cons u more => exact ⟨u, more, rfl⟩
    | nil =>
      rw [List.append_nil] at split
      subst split
      refine absurd (tested.2 ?_ ?_ rfl) going
      · simp [started, some, depth, depthBehind_of_settled settled]
      · simp [kind, rest, kindIn, closer]
  refine (bump_yields g).bind fun _ i took => ?_
  obtain ⟨v, took⟩ := took
  replace took := took.ofSame same
  obtain ⟨rfl, behind⟩ : u = v ∧ left ++ w :: vs = i.rest := by
    simpa [rest] using took.rest
  have skipped : Skipped start us (w :: vs) ⟨depthAfter s.depth (kindIn d.rest 0), true⟩ i := by
    refine ⟨done ++ [u], left, by simp [split], behind.symm, ?_, ?_, by simp⟩
    · rw [took.passed, passed, List.length_append, List.length_singleton, Nat.add_assoc]
    · rw [List.map_append, List.map_singleton, depthBehind_append, ← depth, rest]
      rfl
  subst kind
  exact .ite (fun _ => .pure skipped.leaves) fun _ => .pure skipped

/-- In a block skipping leaves a closing brace in front of which every bracket is closed again. -/
theorem skipping_leaves {us vs : List Word} {w : Word} (closer : w.kind = .braceClose)
    (settled : Settled (us.map (·.kind))) (some : us ≠ [])
    (block : c.openers.head?.any (·.kind == .braceOpen)) (rest : c.rest = us ++ w :: vs) :
    Yields (do let _ ← loop {} (skipTurn (← inBlock))) c fun _ d => Leaves c.passed us (w :: vs) d := by
  have inside : Yields inBlock c fun b d => b = true ∧ d = c := by
    intro b d run
    cases run
    exact ⟨block, rfl⟩
  refine inside.bind fun b d post => ?_
  obtain ⟨rfl, rfl⟩ := post
  have start : Skipped d.passed us (w :: vs) {} d := ⟨[], us, rfl, rest, rfl, rfl, rfl⟩
  refine (loop_yields (Q := fun _ => Leaves d.passed us (w :: vs)) start fun s e skipped => ?_).bind
    fun _ _ post => .pure post
  exact (skipTurn_yields closer settled some s e skipped).imp fun t _ post => by
    cases t <;> exact post

/-- Recovery puts all that it reads behind `o` into one error node. -/
theorem recover_builds (hasModifiers : Bool) (back : Walk o c) (sound : o.Sound) {Q : Cursor → Prop}
    (skips : ∀ d, d.rest = c.rest → d.passed = c.passed → d.openers = c.openers →
      Yields (do let _ ← loop {} (skipTurn (← inBlock))) d fun _ e => Q e) :
    Runs ⟨10, some 8, some 4, 10⟩ (recover o.parts.size hasModifiers) c fun _ d =>
      Walk o d ∧ Proceeds c d ∧ (∃ children, d.parts.toList = o.parts.toList ++ [.node .error children] ∧
        Tree.wordsOf children = List.range' o.passed (d.passed - o.passed)) ∧
      ∃ e, Alike e d ∧ Q e := by
  apply Runs.weaken
  · apply Runs.bind (complainOfStart_walks hasModifiers c)
    rintro _ d ⟨toD, rest, passed, refused⟩
    have skipped : Walks ⟨6, some 4, some 4, 6⟩ (do let _ ← loop {} (skipTurn (← inBlock)))
        (d.openNode .error o.parts.size) fun _ f =>
          Walk (d.openNode .error o.parts.size) f ∧ Proceeds c f ∧ Q f := by
      intro peak sound need
      obtain ⟨x, f, run, soundF, covers, walk, proceeds⟩ := skipping_walks _ peak sound need
      have post := skips (d.openNode .error o.parts.size) rest passed toD.frame.openers x f run
      refine ⟨x, f, run, soundF, covers, walk, walk, fun some lasts => ?_, post⟩
      rw [← passed]
      exact proceeds (rest ▸ some) (refused ▸ lasts)
    apply (nodeAt_runs (back.trans toD) sound (fun _ _ _ => rfl) skipped).imp
    rintro _ f ⟨whole, -, e, rfl, walk, proceeds, post⟩
    have built := (back.trans toD).frame.parts_node walk.frame
    refine ⟨whole, proceeds, ⟨_, built, ?_⟩, e, alike_closeNode .., post⟩
    obtain ⟨parts, added, words⟩ := whole.wordsOf
    rw [built] at added
    rw [← words, ← List.append_cancel_left added, Tree.wordsOf_node]
  · decide

/-! ### The end of a block -/

/-- What is left of a block behind one of its statements. -/
def blockRest (inner : Rule Unit) : Rule Bool := do
  repeatWhile (blockTurn inner)
  popOpener
  eat .braceClose

theorem delimited_block (inner : Rule Unit) : delimited blockMarks (blockTurn inner) = (do
    let opener ← mark
    pushOpener .braceOpen
    bump
    if !(← blockRest inner) && !(blockMarks.excused && (← isRefused)) then
      errorUnclosed blockMarks.unclosed blockMarks.note opener) := by
  simp only [delimited, inside, blockRest, blockMarks, bind_assoc]

/-- At a closing brace no further statement is read. -/
theorem blockTurn_closes (inner : Rule Unit) (closer : kindIn c.rest 0 = some .braceClose) :
    Runs (.looks 1) (blockTurn inner) c fun going d => Walk c d ∧ going = false ∧ Same c d := by
  intro peak sound need
  have ends : Asks 1 (atEnd <||> currentIs .braceClose) _ := atEnd_asks.or (currentIs_asks .braceClose)
  have same := atEnd_answers.or (currentIs_answers .braceClose) c
  obtain ⟨b, d, run, soundD, covers, walk, found, -⟩ := ends.walks c peak sound need
  have found : b = true := by simpa [closer] using found
  refine ⟨false, d, ?_, soundD, covers, walk, rfl, (same b d run).2⟩
  rw [blockTurn, StateT.run_bind, run, found]
  rfl

theorem repeatWhile_blockTurn_closes (inner : Rule Unit) (closer : kindIn c.rest 0 = some .braceClose) :
    Walks ⟨1, some 1, none, 1⟩ (repeatWhile (blockTurn inner)) c fun _ d => Same c d := by
  have once : Walks ((Cost.looks 1).seq .free)
      (do if ← blockTurn inner then return Turn.again () else return Turn.done ()) c
      (Round (fun _ d => d = c) (fun _ d => Same c d) c) := by
    refine Walks.bind (blockTurn_closes inner closer) fun going d _ post => ?_
    obtain ⟨rfl, same⟩ := post
    exact .pure same
  apply Walks.weaken
  · refine loop_walks (k := (Cost.looks 1).seq .free) (I := fun _ d => d = c) rfl fun _ d start => ?_
    rw [start]
    exact once
  · decide

theorem popOpener_runs (c : Cursor) : Runs .free popOpener c fun _ d => d = c.popOpener :=
  fun _ sound _ => ⟨(), c.popOpener, rfl, { sound with }, .inl ⟨rfl, 0, rfl, Nat.le_refl _⟩, rfl⟩

/-- At a closing brace the block ends and takes it. -/
theorem blockRest_closes (inner : Rule Unit) (closer : kindIn c.rest 0 = some .braceClose) :
    Runs ⟨4, some 2, some 0, 4⟩ (blockRest inner) c fun closed d => closed = true ∧
      d.rest = c.rest.tail ∧ ∃ gap : Gap, d.parts.toList = c.parts.toList ++
        (gap.due c.passed).toList ++ [.leaf (.word c.passed (.token .braceClose))] := by
  apply Runs.weaken
  · apply Runs.bind (repeatWhile_blockTurn_closes inner closer)
    rintro _ d ⟨-, gap, looks, depth, rfl⟩
    apply (popOpener_runs _).bind
    rintro _ d rfl peak sound need
    obtain ⟨b, e, run, soundE, covers, -, found, -⟩ := eat_walks .braceClose _ peak sound need
    have found : b = true := found.trans (by simp [Cursor.popOpener, closer])
    have eaten := eat_yields .braceClose _ b e run
    rw [Eaten, if_pos found] at eaten
    obtain ⟨w, -, took⟩ := eaten
    refine ⟨b, e, run, soundE, covers, found, ?_, took.parts⟩
    exact (congrArg List.tail took.rest).symm
  · decide

/-! ### Recovery in a block -/

/-- In a block recovery leaves a closing brace in front of which every bracket is closed again,
unless it begins there. What it skips is one error node, and if it comes to the closing brace,
the block takes that for its own. At the closing brace itself recovery begins with taking it. -/
theorem recover_in_block (hasModifiers : Bool) (inner : Rule Unit) {us vs : List Word} {w : Word}
    (back : Walk o c) (sound : o.Sound) (looks : 10 ≤ c.looks)
    (block : c.openers.head?.any (·.kind == .braceOpen)) (rest : c.rest = us ++ w :: vs)
    (closer : w.kind = .braceClose) (settled : Settled (us.map (·.kind))) :
    ∃ d children, (recover o.parts.size hasModifiers).run c = .ok ((), d) ∧
      d.parts.toList = o.parts.toList ++ [.node .error children] ∧
      (us ≠ [] → c.passed + us.length ∉ Tree.wordsOf children ∧
        ∃ left, left <:+ us ∧ d.rest = left ++ w :: vs ∧
          (left = [] → ∃ e gap, (blockRest inner).run d = .ok (true, e) ∧ e.rest = vs ∧
            e.parts.toList = d.parts.toList ++ (Gap.due gap d.passed).toList ++
              [.leaf (.word (c.passed + us.length) (.token .braceClose))])) ∧
      (us = [] → c.refused = none → c.passed ∈ Tree.wordsOf children) := by
  have soundC := back.sound sound
  by_cases some : us = []
  -- The brace is the first word, which a recovery always takes.
  · subst some
    have run := recover_builds hasModifiers back sound (Q := fun _ => True)
      (fun _ _ _ _ _ _ _ => trivial) (by decide) soundC looks
    obtain ⟨_, d, run, -, -, whole, proceeds, ⟨children, parts, words⟩, -⟩ := run
    refine ⟨d, children, run, parts, fun none => absurd rfl none, fun _ lasts => ?_⟩
    have read := proceeds (by simp [rest]) lasts
    have before := back.frame.passed_le
    rw [words, List.mem_range'_1]
    omega
  -- Words stand before the brace: the loop stops there at the latest, and leaves it to the block.
  · have skips (e : Cursor) (ahead : e.rest = c.rest) (at' : e.passed = c.passed)
        (around : e.openers = c.openers) : Yields (do let _ ← loop {} (skipTurn (← inBlock))) e
          fun _ f => Leaves c.passed us (w :: vs) f :=
      at' ▸ skipping_leaves closer settled some (around ▸ block) (ahead.trans rest)
    have run := recover_builds hasModifiers back sound skips (by decide) soundC looks
    obtain ⟨_, d, run, soundD, covers, whole, -, ⟨children, parts, words⟩, e, alike, leaves⟩ := run
    obtain ⟨left, isTail, behind, count⟩ := leaves
    rw [← alike.rest] at behind
    rw [← alike.passed] at count
    refine ⟨d, children, run, parts, fun _ => ⟨?_, left, isTail, behind, ?_⟩, fun none => absurd none some⟩
    · rw [words, List.mem_range'_1]
      have := whole.frame.passed_le
      omega
    · rintro rfl
      have first : 0 < us.length := List.length_pos_iff.2 some
      have here : d.passed = c.passed + us.length := count
      obtain ⟨t, tail, left⟩ := covers.renewed (by omega)
      have tail : t = 4 := (Option.some.inj tail).symm
      have enough : 4 ≤ d.looks := by simp only [lookLimit] at left; omega
      have current : kindIn d.rest 0 = Option.some .braceClose := by simp [behind, kindIn, closer]
      obtain ⟨_, e, run', -, -, rfl, rest', gap, parts'⟩ :=
        blockRest_closes inner current (by decide) soundD enough
      exact ⟨e, gap, run', by rw [rest', behind]; rfl, here ▸ parts'⟩

/-- In `namespace N \x7b (a) \x7d` recovery skips `(a)`, and the block takes its closing brace. -/
theorem recover_in_block_parens : ∃ c d e : Cursor, ∃ gap,
    c.rest.map (·.text) = ["(", "a", ")", "\x7d"] ∧ (recover 0 false).run c = .ok ((), d) ∧
    (blockRest (pure ())).run d = .ok (true, e) ∧
    e.parts.toList = d.parts.toList ++ (Gap.due gap d.passed).toList ++
      [.leaf (.word 6 (.token .braceClose))] := by
  let us : List Word := [⟨.parenOpen, "(", false⟩, ⟨.ident, "a", false⟩, ⟨.parenClose, ")", false⟩]
  let w : Word := ⟨.braceClose, "\x7d", false⟩
  let c : Cursor := { rest := us ++ [w], passed := 3, openers := [⟨.braceOpen, 2⟩] }
  have sound : c.Sound := ⟨Nat.le_refl _, nofun, Nat.zero_le _, fun noted => absurd rfl noted⟩
  have rest : c.rest = us ++ w :: [] := rfl
  obtain ⟨d, children, run, -, stops, -⟩ :=
    recover_in_block false (pure ()) (.refl c) sound (by decide) rfl rest rfl (by decide)
  obtain ⟨-, left, -, behind, closes⟩ := stops (List.cons_ne_nil _ _)
  have all : ((recover 0 false).run c).toOption.map (·.2.rest) = some [w] := by decide +kernel
  have none : left = [] := by
    rw [show (recover 0 false).run c = .ok ((), d) from run] at all
    simpa [Except.toOption, behind] using all
  obtain ⟨e, gap, taken, -, parts⟩ := closes none
  exact ⟨c, d, e, gap, rfl, run, taken, parts⟩

/-- Behind modifiers recovery takes the closing brace of the block, which is then missing. -/
theorem recover_takes_closer :
    ((parse "namespace N \x7b export \x7d").toOption.map fun p =>
      ((p.tree.descendants .error).map fun t => (t.leaves.map (·.kind)).filter (!·.isTrivia),
        (p.tree.descendants .moduleBlock).map (SyntaxTree.hasLeaf · (.token .braceClose)),
        p.diagnostics.map (·.kind))) =
      some ([[LeafKind.keyword .kwExport, .token .braceClose]], [false],
        [.expectedDeclaration, .unclosedBrace]) := by
  decide +kernel

end Grammar

end ImplicitGlobals
