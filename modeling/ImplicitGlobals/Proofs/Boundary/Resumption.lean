import ImplicitGlobals.Proofs.Boundary.Recovery
import ImplicitGlobals.Proofs.Grammar.Lockstep
import ImplicitGlobals.Proofs.Setting.Sources
import ImplicitGlobals.Proofs.Syntax.Nesting

/-!
# Going on behind what is no statement

Words that begin no statement are skipped up to the semicolon behind them, in one error node and
with one complaint, of the first of them. Brackets in between hide whatever stands in them. What
follows is read as it is by itself: nobody asks what was complained of before, unless it is
complained again.
-/

namespace ImplicitGlobals

namespace Grammar

variable {c c' d e : Cursor}

/-! ### Runs that go on -/

/-- The same place in a run without bounds, behind other complaints. -/
def Resumes (ks : List Complaint) (place : Option Nat) (c c' : Cursor) : Prop :=
  c.budget = {} ∧ ∃ total looks depth,
    c' = { c with total, looks, depth, complaints := ks, lastPlace := place }

/-- A run that complains of nothing does not depend on what was complained of before. -/
theorem resumes_lockstep (ks : List Complaint) (place : Option Nat) :
    Lockstep (fun _ => True) Advances .same (fun _ => False) (Resumes ks place) where
  trail := advances_trail
  tidy := Advances.tidy
  openers := Advances.openers
  lost _ := id
  agree := by rintro c _ ⟨-, _, _, _, rfl⟩; exact .refl c.rest
  gap := by rintro _ _ ⟨-, _, _, _, rfl⟩; rfl
  refused := by rintro _ _ ⟨-, _, _, _, rfl⟩; rfl
  opened := by rintro _ _ _ _ _ _ ⟨-, _, _, _, rfl⟩ ⟨-, _, _, _, rfl⟩ top; exact ⟨_, rfl, top⟩
  size := by rintro _ _ ⟨-, _, _, _, rfl⟩; rfl
  block := by rintro _ _ ⟨-, _, _, _, rfl⟩; rfl
  unbounded := by rintro _ _ ⟨free, _, _, _, rfl⟩; exact ⟨free, free⟩
  count := by rintro _ _ ⟨free, _, _, _, rfl⟩ _ _ _ _ _; exact ⟨free, _, _, _, rfl⟩
  read := by rintro _ _ _ _ ⟨free, _, _, _, rfl⟩ _ _; exact .inr ⟨free, _, _, _, rfl⟩
  placeGap := by rintro _ _ ⟨free, _, _, _, rfl⟩; exact ⟨free, _, _, _, rfl⟩
  openNode := by rintro _ _ ⟨free, _, _, _, rfl⟩ _ _ _ rfl _; exact ⟨free, _, _, _, rfl⟩
  lost_closeNode _ _ := id
  closeNode _ _ := by rintro ⟨free, _, _, _, rfl⟩ _ rfl _ _; exact ⟨free, _, _, _, rfl⟩
  pushOpener := by rintro _ _ ⟨free, _, _, _, rfl⟩ _; exact ⟨free, _, _, _, rfl⟩
  lost_popOpener := id
  popOpener _ := by rintro ⟨free, _, _, _, rfl⟩ _; exact ⟨free, _, _, _, rfl⟩

theorem GrammarRelation.statements (L : GrammarRelation) (m n : Nat) :
    L.Rel Anywhere .same (statements m) (statements n) := by
  have statement : L.Rel Anywhere .same statement statement :=
    L.bounded (f := fun n => Grammar.statementWithin (n + 1))
      (g := fun n => Grammar.statementWithin (n + 1)) fun _ _ => L.statementWithin _ _
  have turn : L.Rel Anywhere .same sourceTurn sourceTurn :=
    L.choose L.atEnd (L.pure rfl) (L.answer statement true)
  have round : L.Rel Anywhere (.turn .same)
      (do if ← sourceTurn then return Turn.again () else return Turn.done ())
      (do if ← sourceTurn then return Turn.again () else return Turn.done ()) :=
    L.choose turn (L.pure rfl) (L.pure rfl)
  exact L.rounds (fun _ _ _ => round) m n () () rfl

/-- Behind other complaints the same statements are read, if nothing is complained of in them. -/
theorem statements_resumed {ks : List Complaint} {place : Option Nat} {m n : Nat}
    (resumes : Resumes ks place c c') (run : (statements m).run c = .ok ((), d)) (tidy : d.Tidy)
    (run' : (statements n).run c' = .ok ((), e)) : Resumes ks place d e := by
  have whole := (resumes_lockstep ks place).whole.statements m n
  have keeps := (whole.2 c c' trivial resumes () d run tidy).resolve_left id
  exact (keeps () e run').2

/-- Every source is read to its end from wherever its parser may stand. -/
theorem statements_run (sound : c.Sound) (looks : 33 ≤ c.looks) :
    ∃ n d, (statements n).run c = .ok ((), d) := by
  have walks := repeatWhile_ends (c := c) (fun d _ => sourceTurn_walks d) (Nat.lt_succ_self _)
  obtain ⟨_, d, run, -⟩ := walks (by decide) sound looks
  exact ⟨_, d, run⟩

/-! ### What is no statement -/

/-- Words with all brackets closed again, and no semicolon and no keyword outside of brackets. -/
structure Junk (ws : List Word) : Prop where
  filled : ws ≠ []
  clean : ∀ w ∈ ws, w.kind ≠ .garbage
  nested : WellNested false (ws.map (·.kind))
  outside : ∀ done w left, ws = done ++ w :: left → nest false [] (done.map (·.kind)) = some [] →
    w.kind ≠ .semicolon ∧ (w.kind = .ident → Keyword.ofWord? w.text = none)

/-- The depth is the number of brackets that are open. -/
theorem depthBehind_of_nest {kinds stack : List TokenKind} (h : nest false [] kinds = some stack) :
    depthBehind kinds = stack.length := by
  induction kinds using List.reverseRecOn generalizing stack with
  | nil =>
    obtain rfl := Option.some.inj h
    rfl
  | append_singleton kinds kind ih =>
    rw [nest_append_kinds] at h
    obtain ⟨before, first, last⟩ := Option.bind_eq_some_iff.1 h
    have last : nestStep false before kind = some stack := by simpa [nest] using last
    rw [depthBehind_append, ih first]
    cases opens : kind.opens false with
    | true =>
      rw [nestStep_of_opens _ opens] at last
      obtain rfl := Option.some.inj last
      have opener : KindSet.openers.holds kind = true := by cases kind <;> first | rfl | cases opens
      simp [depthAfter, opener]
    | false =>
      have opener : KindSet.openers.holds kind = false := by cases kind <;> first | rfl | cases opens
      cases closes : kind.opener? false with
      | none =>
        rw [nestStep_of_plain _ opens closes] at last
        obtain rfl := Option.some.inj last
        have closer : KindSet.closers.holds kind = false := by cases kind <;> first | rfl | cases closes
        simp [depthAfter, opener, closer]
      | some o =>
        obtain rfl := eq_cons_of_nestStep closes last
        have closer : KindSet.closers.holds kind = true := by cases kind <;> first | rfl | cases closes
        simp [depthAfter, opener, closer]

namespace Junk

variable {ws done left : List Word} {w : Word} (junk : Junk ws)
include junk

/-- The brackets that are open in front of a word. -/
theorem exists_nest (split : ws = done ++ left) :
    ∃ stack, nest false [] (done.map (·.kind)) = some stack ∧
      nest false stack (left.map (·.kind)) = some [] := by
  have nested := junk.nested
  rw [WellNested, split, List.map_append, nest_append_kinds] at nested
  exact Option.bind_eq_some_iff.1 nested

/-- At depth zero no bracket is open. -/
theorem plain (split : ws = done ++ w :: left) (depth : depthBehind (done.map (·.kind)) = 0) :
    w.kind ≠ .semicolon ∧ (w.kind = .ident → Keyword.ofWord? w.text = none) := by
  obtain ⟨stack, open', -⟩ := junk.exists_nest split
  obtain rfl := List.length_eq_zero_iff.1 ((depthBehind_of_nest open').symm.trans depth)
  exact junk.outside done w left split open'

theorem depth : depthBehind (ws.map (·.kind)) = 0 := depthBehind_of_nest junk.nested

/-- The first word begins and ends nothing. -/
theorem first : ∃ u left, ws = u :: left ∧ u.kind ≠ .semicolon ∧
    (u.kind = .ident → Keyword.ofWord? u.text = none) := by
  obtain ⟨u, left, rfl⟩ := List.exists_cons_of_ne_nil junk.filled
  exact ⟨u, left, rfl, junk.outside [] u left rfl rfl⟩

/-- It closes nothing, either. -/
theorem opens (split : ws = w :: left) : KindSet.closers.holds w.kind = false := by
  have nested := junk.nested
  rw [WellNested, split, List.map_cons, nest_cons] at nested
  obtain ⟨stack, step, -⟩ := Option.bind_eq_some_iff.1 nested
  cases closes : w.kind.opener? false with
  | none => cases kind : w.kind <;> first | rfl | (rw [kind] at closes; cases closes)
  | some o => cases eq_cons_of_nestStep closes step

end Junk

/-! ### Skipping to the semicolon -/

/-- Reading without a complaint leaves all else as it was. -/
structure Calm (c d : Cursor) : Prop where
  openers : d.openers = c.openers
  opened : d.opened = c.opened
  complaints : d.complaints = c.complaints
  lastPlace : d.lastPlace = c.lastPlace
  total : d.total = c.total
  parts : c.parts.toList <+: d.parts.toList
  unbounded : c.budget = {} → d.budget = {} ∧ d.refused = c.refused

namespace Calm

theorem refl (c : Cursor) : Calm c c := ⟨rfl, rfl, rfl, rfl, rfl, List.prefix_rfl, fun free => ⟨free, rfl⟩⟩

theorem trans (h : Calm c d) (g : Calm d e) : Calm c e where
  openers := g.openers.trans h.openers
  opened := g.opened.trans h.opened
  complaints := g.complaints.trans h.complaints
  lastPlace := g.lastPlace.trans h.lastPlace
  total := g.total.trans h.total
  parts := h.parts.trans g.parts
  unbounded free := by
    obtain ⟨free, kept⟩ := h.unbounded free
    obtain ⟨free, kept'⟩ := g.unbounded free
    exact ⟨free, kept'.trans kept⟩

theorem ofSame (same : Same c d) : Calm c d := by
  obtain ⟨_, _, _, rfl⟩ := same
  exact ⟨rfl, rfl, rfl, rfl, rfl, List.prefix_rfl, fun free => ⟨free, rfl⟩⟩

theorem ofTook {label : LeafKind} {w : Word} (took : Took label w c d) : Calm c d where
  openers := took.openers
  opened := took.opened
  complaints := took.complaints
  lastPlace := took.lastPlace
  total := took.total
  parts := by
    obtain ⟨gap, parts⟩ := took.parts
    exact ⟨_, ((List.append_assoc ..).symm.trans parts.symm)⟩
  unbounded := took.unbounded

end Calm

/-- At a plain word outside of all blocks skipping does not end. -/
theorem skippingEnds_never (mayEnd : Bool) (kind : Option TokenKind)
    (plain : mayEnd = true → AtPlain c.rest) :
    Yields (pure mayEnd <&&> skippingEnds false kind) c fun b d => b = false ∧ Same c d := by
  rw [and_eq_branch, pure_bind]
  refine .ite (fun may => ?_) fun _ => .pure ⟨rfl, .refl c⟩
  refine Yields.bind (P := fun b d => b = false ∧ d = c) (.pure ⟨Bool.and_false _, rfl⟩) fun b d asked => ?_
  obtain ⟨rfl, rfl⟩ := asked
  exact (atStatementStart_yields d).imp fun _ _ post => ⟨post.2 (plain may), post.1⟩

/-- A word is skipped. Behind a semicolon outside of brackets skipping is done. -/
theorem skipTurn_passes {left : List Word} {u : Word} (s : Skipping) (kept : c.refused = none)
    (rest : c.rest = u :: left) (plain : (s.started && s.depth == 0) = true → AtPlain c.rest) :
    Yields (skipTurn false s) c fun t d => ∃ label, Took label u c d ∧ d.gap = .ahead ∧
      t = if depthAfter s.depth (some u.kind) == 0 && some u.kind == some .semicolon
        then .done ⟨depthAfter s.depth (some u.kind), true⟩
        else .again ⟨depthAfter s.depth (some u.kind), true⟩ := by
  refine (atEnd_answers c).bind fun ended d asked => ?_
  refine .ite (fun yes => absurd yes (by simp [asked.1, rest, kept])) fun _ => ?_
  refine (current_answers d).bind fun kind e looked => ?_
  have same := asked.2.trans looked.2
  obtain rfl : kind = some u.kind := by
    obtain ⟨_, _, _, rfl⟩ := asked.2
    rw [looked.1, rest]
    rfl
  have here : e.rest = c.rest := by
    obtain ⟨_, _, _, rfl⟩ := same
    rfl
  refine (skippingEnds_never _ _ fun may => here.symm ▸ plain may).bind fun b f tested => ?_
  obtain ⟨rfl, same'⟩ := tested
  rw [if_neg Bool.false_ne_true]
  have both : Yields bump f fun _ g => (∃ w, Took (.token w.kind) w f g) ∧ g.gap = .ahead :=
    fun x g run => ⟨bump_yields f x g run, bump_ahead f x g run⟩
  refine both.bind fun _ g read => ?_
  obtain ⟨⟨w, took⟩, ahead⟩ := read
  have took := took.ofSame (same.trans same')
  obtain ⟨rfl, -⟩ := List.cons.inj (rest.symm.trans took.rest)
  split
  · exact .pure ⟨_, took, ahead, rfl⟩
  · exact .pure ⟨_, took, ahead, rfl⟩

/-- Where skipping stands in front of the semicolon, or of a word before it. -/
def OnTheWay (c : Cursor) (us vs : List Word) (s : Skipping) (d : Cursor) : Prop :=
  ∃ done u left, us = done ++ u :: left ∧ d.rest = u :: left ++ vs ∧ d.passed = c.passed + done.length ∧
    s.depth = depthBehind (done.map (·.kind)) ∧ Calm c d

/-- What is no statement is skipped together with the semicolon behind it. -/
theorem loop_skips {ws vs : List Word} {semicolon : Word} (junk : Junk ws) (ends : semicolon.kind = .semicolon)
    (free : c.budget = {}) (kept : c.refused = none) (rest : c.rest = ws ++ semicolon :: vs) :
    Yields (loop {} (skipTurn false)) c fun _ d =>
      Calm c d ∧ d.rest = vs ∧ d.gap = .ahead ∧ d.passed = c.passed + ws.length + 1 := by
  have start : OnTheWay c (ws ++ [semicolon]) vs {} c := by
    obtain ⟨u, left, split⟩ := List.exists_cons_of_ne_nil junk.filled
    exact ⟨[], u, left ++ [semicolon], by simp [split], by simp [rest, split], rfl, rfl, .refl c⟩
  refine loop_yields start fun s d inv => ?_
  obtain ⟨done, u, left, split, ahead, passed, depth, calm⟩ := inv
  have kept : d.refused = none := (calm.unbounded free).2.trans kept
  rcases List.eq_nil_or_concat left with rfl | ⟨between, last, rfl⟩
  · -- at the semicolon
    obtain ⟨rfl, same⟩ := List.append_inj' split rfl
    obtain ⟨rfl, -⟩ := List.cons.inj same
    have plain : AtPlain d.rest := by
      intro w head ident
      obtain rfl : semicolon = w := by simpa [ahead] using head
      simp [ends] at ident
    refine (skipTurn_passes s kept ahead fun _ => plain).imp fun t e post => ?_
    obtain ⟨label, took, gap, rfl⟩ := post
    have zero : depthAfter s.depth (some semicolon.kind) = 0 := by
      rw [depth, junk.depth, ends]
      rfl
    rw [zero, ends]
    exact ⟨calm.trans (.ofTook took), (List.cons.inj (ahead.symm.trans took.rest)).2.symm, gap,
      took.passed.trans (congrArg (· + 1) passed)⟩
  · -- at a word before it
    rw [List.concat_eq_append] at split ahead
    obtain ⟨whole, same⟩ := List.append_inj' (split.trans (List.append_assoc done (u :: between) [last]).symm) rfl
    obtain ⟨rfl, -⟩ := List.cons.inj same
    have outside (zero : s.depth = 0) := junk.plain whole (depth.symm.trans zero)
    refine (skipTurn_passes s kept ahead fun may => ?_).imp fun t e post => ?_
    · intro w head ident
      obtain rfl : u = w := by simpa [ahead] using head
      exact (outside (eq_of_beq (Bool.and_eq_true_iff.1 may).2)).2 ident
    obtain ⟨label, took, gap, rfl⟩ := post
    -- Only at depth zero could the word end the statement, and a plain word there is no semicolon.
    have inside : ¬(depthAfter s.depth (some u.kind) == 0 && some u.kind == some .semicolon) = true := by
      intro both
      obtain ⟨zero, kind⟩ := Bool.and_eq_true_iff.1 both
      have kind : u.kind = .semicolon := Option.some.inj (eq_of_beq kind)
      rw [kind] at zero
      exact (outside (eq_of_beq zero)).1 kind
    rw [if_neg inside]
    obtain ⟨v, more, next⟩ := List.exists_cons_of_ne_nil (List.append_ne_nil_of_right_ne_nil between
      (List.cons_ne_nil semicolon []))
    refine ⟨done ++ [u], v, more, by simp [whole, ← next], ?_, ?_, ?_, calm.trans (.ofTook took)⟩
    · rw [← next]
      exact (List.cons.inj (ahead.symm.trans took.rest)).2.symm
    · rw [took.passed, passed, List.length_append, List.length_singleton, Nat.add_assoc]
    · rw [List.map_append, List.map_singleton, depthBehind_append, ← depth]

/-! ### The statement that is none -/

/-- A word that is no keyword spells none. -/
theorem AtPlain.spells {ws : List Word} (plain : AtPlain ws) (k : Keyword) : spells ws 0 k.word = false := by
  refine eq_false_of_ne_true fun spelt => ?_
  obtain ⟨w, left, rfl, kind, text⟩ := exists_of_spells spelt
  have none := plain w rfl kind
  rw [text, Keyword.ofWord?_word] at none
  cases none

theorem Same.atPlain (same : Same c d) (plain : AtPlain c.rest) : AtPlain d.rest := by
  obtain ⟨_, _, _, rfl⟩ := same
  exact plain

/-- A test that finds nothing in the words. -/
theorem Answers.fails {t : Rule Bool} {v : List Word → Bool} (h : Answers t fun ws _ => v ws)
    (never : v c.rest = false) (same : Same c d) : Yields t d fun b e => b = false ∧ Same c e :=
  (h d).imp fun b e asked => by
    refine ⟨?_, same.trans asked.2⟩
    obtain ⟨_, _, _, rfl⟩ := same
    exact asked.1.trans never

/-- Where no keyword comes next there are no modifiers. -/
theorem modifiers_yields (plain : AtPlain c.rest) : Yields modifiers c fun m d => m = {} ∧ Same c d := by
  refine loop_yields (I := fun m d => m = {} ∧ Same c d) ⟨rfl, .refl c⟩ fun m d inv => ?_
  obtain ⟨rfl, same⟩ := inv
  refine ((atKeyword_answers .kwExport).fails (plain.spells _) same).bind fun b d found => ?_
  obtain ⟨rfl, same⟩ := found
  refine ((default_answers false).fails (by simp) same).bind fun b d found => ?_
  obtain ⟨rfl, same⟩ := found
  refine (declares_answers.fails (by simp [plain.spells .kwDeclare]) same).bind fun b d found => ?_
  obtain ⟨rfl, same⟩ := found
  refine (abstract_answers.fails (by simp [plain.spells .kwAbstract]) same).bind fun b d found => ?_
  obtain ⟨rfl, same⟩ := found
  exact .pure ⟨rfl, same⟩

/-- No keyword announces a declaration. -/
theorem declaration_yields (inner : Rule Unit) (point : Checkpoint) (isDefault : Bool) (plain : AtPlain c.rest) :
    Yields (declaration inner point isDefault) c fun b d => b = false ∧ Same c d := by
  refine (current_answers c).bind fun kind d asked => ?_
  obtain ⟨rfl, same⟩ := asked
  refine .ite (fun _ => .pure ⟨rfl, same⟩) fun ident => ?_
  refine (currentText_answers d).bind fun text e asked => ?_
  obtain ⟨rfl, same'⟩ := asked
  obtain ⟨w, left, rest, kind⟩ := exists_of_kindIn (Classical.not_not.1 ident)
  have none : Keyword.ofWord? ((d.rest[0]?.map (·.text)).getD "") = none := by
    obtain ⟨_, _, _, rfl⟩ := same
    simpa [rest] using plain w (by simp [rest]) kind
  rw [none]
  exact .pure ⟨rfl, same.trans same'⟩

/-- A first word that is neither garbage nor a closer is complained of as what it is. -/
theorem complainOfStart_yields {u : Word} {left : List Word} (rest : c.rest = u :: left)
    (clean : u.kind ≠ .garbage) (opens : KindSet.closers.holds u.kind = false) (fresh : c.lastPlace = none) :
    Yields (complainOfStart false) c fun _ d => ∃ e text, Same c e ∧
      d = e.note (.here .expectedDeclaration (some text) c.passed (c.openers.head?.map Opener.word)) := by
  have first : kindIn c.rest 0 = some u.kind := by rw [rest]; rfl
  have current (kind : TokenKind) (other : u.kind ≠ kind) : (kindIn c.rest 0 == some kind) = false := by
    simpa [first] using other
  refine ((currentIs_answers .garbage).fails (current _ clean) (.refl c)).bind fun b d found => ?_
  obtain ⟨rfl, same⟩ := found
  refine ((currentIn_answers .closers).fails (by simp [first, opens]) same).bind fun b d found => ?_
  obtain ⟨rfl, same⟩ := found
  refine (currentText_answers d).bind fun text d looked => ?_
  have same := same.trans looked.2
  refine (mark_yields d).bind fun i e marked => .modify ⟨e, "found `" ++ text ++ "`", same.trans marked.2, ?_⟩
  obtain ⟨rfl, _, _, _, rfl⟩ := marked
  obtain ⟨_, _, _, rfl⟩ := same
  exact if_neg (by simp [fresh])

/-- The cursor stands behind so many words that are all in one error node. -/
structure Skimmed (c : Cursor) (count : Nat) (vs : List Word) (d : Cursor) : Prop where
  rest : d.rest = vs
  gap : d.gap = .ahead
  passed : d.passed = c.passed + count
  total : d.total = c.total
  openers : d.openers = c.openers
  opened : d.opened = c.opened
  budget : d.budget = {}
  refused : d.refused = none
  complaints : d.complaints = c.complaints
  parts : ∃ children, d.parts.toList = c.parts.toList ++ [.node .error children]

section

variable {ws vs : List Word} {semicolon : Word} (junk : Junk ws) (ends : semicolon.kind = .semicolon)
  (top : c.openers = []) (free : c.budget = {}) (kept : c.refused = none)
  (rest : c.rest = ws ++ semicolon :: vs)
include junk ends top free kept rest

/-- Outside of all blocks recovery skips what is no statement and the semicolon behind it. -/
theorem error_skims : Yields (nodeAt c.parts.size .error (do let _ ← loop {} (skipTurn (← inBlock)))) c
    fun _ d => Skimmed c (ws.length + 1) vs d := by
  have outside : Yields inBlock (c.openNode .error c.parts.size) fun b d =>
      b = false ∧ d = c.openNode .error c.parts.size :=
    .get (.pure ⟨congrArg (fun os => os.head?.any fun o : Opener => o.kind == .braceOpen) top, rfl⟩)
  have body : Yields (do let _ ← loop {} (skipTurn (← inBlock))) (c.openNode .error c.parts.size)
      fun _ d => Calm (c.openNode .error c.parts.size) d ∧ d.rest = vs ∧ d.gap = .ahead ∧
        d.passed = c.passed + ws.length + 1 := by
    refine outside.bind fun b d found => ?_
    obtain ⟨rfl, rfl⟩ := found
    exact (loop_skips (c := c.openNode .error c.parts.size) junk ends free kept rest).bind fun _ _ post => .pure post
  refine (nodeAt_yields body).imp fun _ d closed => ?_
  obtain ⟨f, n, ns, ⟨calm, rest, gap, passed⟩, top, rfl⟩ := closed
  obtain ⟨rfl, rfl⟩ := List.cons.inj (top.symm.trans calm.opened)
  obtain ⟨free, same⟩ := calm.unbounded free
  obtain ⟨children, parts⟩ := calm.parts
  refine ⟨rest, gap, passed, calm.total, calm.openers, congrArg List.tail calm.opened, free,
    same.trans kept, calm.complaints, children, ?_⟩
  have parts : f.parts.toList = c.parts.toList ++ children := parts.symm
  rw [Cursor.toList_parts_closeNode, parts, ← Array.length_toList, List.take_left, List.drop_left]

/-- It complains of the first word alone. -/
theorem recover_skims (fresh : c.lastPlace = none) :
    Yields (recover c.parts.size false) c fun _ d => ∃ text e, Same c e ∧ Skimmed (e.note
      (.here .expectedDeclaration (some text) c.passed (c.openers.head?.map Opener.word))) (ws.length + 1) vs d := by
  obtain ⟨u, left, split⟩ := List.exists_cons_of_ne_nil junk.filled
  have first : c.rest = u :: (left ++ semicolon :: vs) := by rw [rest, split]; rfl
  have clean : u.kind ≠ .garbage := junk.clean u (by simp [split])
  refine (complainOfStart_yields first clean (junk.opens split) fresh).bind fun _ d complained => ?_
  obtain ⟨e, text, ⟨gap, looks, depth, rfl⟩, rfl⟩ := complained
  let e : Cursor := { c with gap, looks, depth }
  exact (error_skims (c := e.note _) junk ends top free kept rest).imp fun _ d skims =>
    ⟨text, e, ⟨gap, looks, depth, rfl⟩, skims⟩

theorem statementAt_skims (inner : Rule Unit) (fresh : c.lastPlace = none) :
    Yields (statementAt inner c.parts.size) c fun _ d => ∃ text e, Same c e ∧ Skimmed (e.note
      (.here .expectedDeclaration (some text) c.passed (c.openers.head?.map Opener.word))) (ws.length + 1) vs d := by
  obtain ⟨u, left, split, goesOn, unknown⟩ := junk.first
  have plain : AtPlain c.rest := by
    intro w head
    obtain rfl : u = w := by simpa [rest, split] using head
    exact unknown
  have goesOn : (kindIn c.rest 0 == some .semicolon) = false := by simpa [rest, split, kindIn] using goesOn
  refine ((currentIs_answers .semicolon).fails goesOn (.refl c)).bind fun b d found => ?_
  obtain ⟨rfl, same⟩ := found
  rw [and_eq_branch, bind_assoc]
  refine ((atKeyword_answers .kwExport).fails (plain.spells _) same).bind fun b d found => ?_
  obtain ⟨rfl, same⟩ := found
  refine (modifiers_yields (same.atPlain plain)).bind fun m e read => ?_
  obtain ⟨rfl, same'⟩ := read
  have same := same.trans same'
  refine (declaration_yields inner _ _ (same.atPlain plain)).bind fun b f found => ?_
  obtain ⟨rfl, same'⟩ := found
  obtain ⟨gap, looks, depth, rfl⟩ := same.trans same'
  let e : Cursor := { c with gap, looks, depth }
  refine (recover_skims (c := e) junk ends top free kept rest fresh).imp fun _ d skims => ?_
  obtain ⟨text, f, same, skims⟩ := skims
  exact ⟨text, f, .trans ⟨gap, looks, depth, rfl⟩ same, skims⟩

/-- At the top of a source what is no statement is skipped as if it were one. -/
theorem sourceTurn_skims (fresh : c.lastPlace = none) :
    Yields sourceTurn c fun more d => more = true ∧ ∃ text e f, Same c e ∧ Same e.placeGap f ∧ Skimmed (f.note
      (.here .expectedDeclaration (some text) c.passed (c.openers.head?.map Opener.word))) (ws.length + 1) vs d := by
  refine (atEnd_answers c).bind fun ended d asked => ?_
  refine .ite (fun yes => absurd yes (by simp [asked.1, rest, kept])) fun _ => ?_
  have statement : Yields statement d fun _ e => ∃ text e' f, Same c e' ∧ Same e'.placeGap f ∧ Skimmed (f.note
      (.here .expectedDeclaration (some text) c.passed (c.openers.head?.map Opener.word))) (ws.length + 1) vs e := by
    refine .get ?_
    have placed : Yields checkpoint d fun point e => ∃ f, Same c f ∧ e = f.placeGap ∧ point = e.parts.size := by
      intro point e run
      cases run
      exact ⟨_, asked.2.trans ⟨_, _, _, rfl⟩, rfl, rfl⟩
    refine placed.bind fun point e begun => ?_
    obtain ⟨f, ⟨gap, looks, depth, rfl⟩, rfl, rfl⟩ := begun
    let f : Cursor := { c with gap, looks, depth }
    refine (statementAt_skims (c := f.placeGap) junk ends top free kept rest _ fresh).imp fun _ d skims => ?_
    obtain ⟨text, e, same, skims⟩ := skims
    exact ⟨text, f, e, ⟨gap, looks, depth, rfl⟩, same, skims⟩
  exact statement.bind fun _ _ skims => .pure ⟨rfl, skims⟩

end

/-! ### The statements behind it -/

/-- Where nothing is open or spent and nothing was complained of, words are read as by themselves. -/
theorem Abreast.twin {ws vs : List Word} (abreast : Abreast ws vs) (rest : c.rest = vs) (gap : c.gap = .ahead)
    (openers : c.openers = []) (opened : c.opened = [⟨.sourceFile, 0⟩]) (budget : c.budget = {}) (tidy : c.Tidy) :
    Setting.Twin ⟨c.passed, c.parts.toList, []⟩ (.opening {} ws) c where
  rest := by
    rw [rest]
    rcases abreast with rfl | ⟨w, more, fresh, rfl, rfl⟩
    · exact .inl (List.append_nil _).symm
    · exact .inr ⟨rfl, w, more, fresh, rfl, by rw [List.append_nil]⟩
  passed := (Nat.zero_add _).symm
  gap := gap
  openers := openers
  budget := budget
  depth := .inl rfl
  refused := tidy.refused
  lastPlace := tidy.lastPlace
  complaints := tidy.complaints
  parts := (List.append_nil _).symm
  opened := opened

/-- Behind what is no statement and its semicolon, words of which all statements are read without
complaint: they are read as they are by themselves. -/
theorem statements_resume {ws vs ws₂ : List Word} {semicolon : Word} {n n₂ : Nat} {e₂ : Cursor} (junk : Junk ws)
    (ends : semicolon.kind = .semicolon) (abreast : Abreast ws₂ vs)
    (run₂ : (statements n₂).run (.opening {} ws₂) = .ok ((), e₂)) (tidy₂ : e₂.Tidy)
    (run : (statements n).run (.opening {} (ws ++ semicolon :: vs)) = .ok ((), e)) :
    e.refused = none ∧ (∃ text, e.complaints = [.here .expectedDeclaration (some text) 0 none]) ∧
      ∃ children, ∀ {β : Type} (g : Slot → List β), (∀ i, g (.gap i) = []) →
        Tree.expandAll g e.parts.toList = .node .error (Tree.expandAll g children) ::
          Tree.expandAll (fun a => g (a.shift (ws.length + 1))) e₂.parts.toList := by
  have skims := sourceTurn_skims (c := .opening {} (ws ++ semicolon :: vs)) junk ends rfl rfl rfl rfl rfl
  rcases statements_cases run with turn | ⟨m, d, rfl, turn, rest⟩
  · cases (skims false e turn).1
  obtain ⟨-, text, _, _, ⟨gap, _, _, rfl⟩, ⟨_, _, _, rfl⟩, skimmed⟩ := skims true d turn
  let o : Cursor := { d with looks := lookLimit, complaints := [], lastPlace := none }
  have opened : o.opened = [⟨.sourceFile, 0⟩] := skimmed.opened
  have passed : d.passed = ws.length + 1 := skimmed.passed.trans (Nat.zero_add _)
  -- Behind the error node the run stands as one that has just begun, complaints apart.
  have sound : o.Sound := by
    refine ⟨?_, fun n mem => ?_, Nat.zero_le _, fun noted => absurd rfl noted⟩
    · have total : d.total = (ws ++ semicolon :: vs).length := skimmed.total
      show d.rest.length ≤ d.total
      rw [skimmed.rest, total, List.length_append, List.length_cons]
      omega
    · rw [opened] at mem
      cases mem
      exact Nat.zero_le _
  obtain ⟨k, f, run'⟩ := statements_run sound (show 33 ≤ lookLimit by decide)
  have twin := abreast.twin (c := o) skimmed.rest skimmed.gap skimmed.openers opened skimmed.budget
    ⟨rfl, rfl, skimmed.refused⟩
  obtain ⟨twin, -⟩ :=
    (statements_follows rfl n₂ k).twin _ _ twin (.inl rfl) trivial () e₂ run₂ () f run' (.inl rfl)
  have resumes : Resumes d.complaints d.lastPlace o d := ⟨skimmed.budget, d.total, d.looks, d.depth, rfl⟩
  have tidy := twin.tidy tidy₂
  obtain ⟨-, _, _, _, rfl⟩ := statements_resumed resumes run' tidy rest
  obtain ⟨children, parts⟩ := skimmed.parts
  refine ⟨tidy.refused, ⟨text, skimmed.complaints⟩, children, fun g gaps => ?_⟩
  -- The junk left one error node, and no more.
  have before : Tree.expandAll g d.parts.toList = [.node .error (Tree.expandAll g children)] := by
    have due : Tree.expandAll g (gap.due 0).toList = [] := by
      cases gap <;> simp [Gap.due, Tree.expandAll, Tree.expand, gaps]
    rw [parts, Tree.expandAll_append]
    show Tree.expandAll g (Cursor.placeGap _).parts.toList ++ _ = _
    rw [Cursor.toList_parts_placeGap]
    simp [due, Cursor.opening, Cursor.start, Cursor.openNode, Tree.expandAll, Tree.expand]
  show Tree.expandAll g f.parts.toList = _
  rw [twin.expandAll, ← passed]
  exact congrArg (· ++ _) before

end Grammar

end ImplicitGlobals
