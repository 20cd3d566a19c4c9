import ImplicitGlobals.Proofs.Budget.Logic

/-!
# The steps of a rule within a budget and without one

Looking and complaining cost nothing. A word is paid for as it is read, and a level of nesting
before its node is begun: where the payment fails, the run without a budget reads the word or
begins the node all the same, and then it has spent more than was allowed.
-/

namespace ImplicitGlobals.Grammar

variable {α β : Type} {b : Budget} {l : Limit} {c d e o : Cursor} {kind : NodeKind}
  {body : Rule Unit}

/-! ### Looking -/

/-- Gaps cost nothing, so they are skipped alike. -/
theorem skipGap_steady : Steady skipGap :=
  .modify (fun _ => .ofParts rfl rfl rfl rfl rfl rfl) fun _ => rfl

/-- A look moves over trivia only. -/
theorem look_steady : Steady look := by
  intro c x d run
  cases enough : c.looks with
  | zero => simp [look, skipGap, Cursor.skipGap, enough] at run; cases run
  | succ n =>
    have some : 0 < c.looks := by omega
    rw [look_run some] at run
    cases run
    exact ⟨.ofParts rfl rfl rfl rfl rfl rfl, look_run (c := c.free) some⟩

/-- To look further ahead is still only to look. -/
theorem peek_steady (n : Nat) : Steady (peek n) := by
  refine look_steady.bind fun _ => ?_
  refine .get (fun _ => rfl) fun c => ?_
  exact .pure c.rest[n]?

theorem kindAt_steady (n : Nat) : Steady (kindAt n) := (peek_steady n).map (Option.map Word.kind)

/-- A test for the current word reads nothing. -/
theorem currentIs_steady (kind : TokenKind) : Steady (currentIs kind) :=
  (kindAt_steady 0).map (· == some kind)

/-- The mark of an opener is the place of the next word. -/
theorem mark_metered : Metered b mark := by
  refine .ofSteady ?_
  refine look_steady.bind fun _ => ?_
  refine .get (fun _ => rfl) fun c => ?_
  exact .pure c.passed

/-- Lookahead costs nothing, but it is bounded, and bounded alike. -/
theorem kindAt_metered (n : Nat) : Metered b (kindAt n) := .ofSteady (kindAt_steady n)

theorem current_metered : Metered b current := kindAt_metered 0

theorem currentIs_metered (kind : TokenKind) : Metered b (currentIs kind) :=
  .ofSteady (currentIs_steady kind)

theorem currentIn_metered (set : KindSet) : Metered b (currentIn set) :=
  current_metered.map fun k : Option TokenKind => k.any set.holds

theorem currentText_metered : Metered b currentText :=
  .ofSteady <| (peek_steady 0).map fun w : Option Word => (w.map Word.text).getD ""

theorem nthIs_metered (n : Nat) (kind : TokenKind) : Metered b (nthIs n kind) :=
  (kindAt_metered n).map (· == some kind)

theorem nextIs_metered (kind : TokenKind) : Metered b (nextIs kind) := nthIs_metered 1 kind

theorem nthIsWord_metered (n : Nat) (text : String) : Metered b (nthIsWord n text) :=
  .ofSteady <| (peek_steady n).map fun w : Option Word => w.any fun v : Word => v.isWord text

theorem atWord_metered (text : String) : Metered b (atWord text) := nthIsWord_metered 0 text

theorem nthIsKeyword_metered (n : Nat) (k : Keyword) : Metered b (nthIsKeyword n k) :=
  nthIsWord_metered n k.word

theorem atKeyword_metered (k : Keyword) : Metered b (atKeyword k) := nthIsKeyword_metered 0 k

/-- At the end the budget may be overdrawn, so that the rest is left alone. -/
theorem atEnd_metered : Metered b atEnd := by
  refine .ofSteady ?_
  refine skipGap_steady.bind fun _ => ?_
  refine .get (fun _ => rfl) fun c => ?_
  exact .pure (c.rest.isEmpty || c.refused.isSome)

theorem onFreshLine_metered : Metered b onFreshLine := by
  refine .ofSteady ?_
  refine skipGap_steady.bind fun _ => ?_
  refine .get (fun _ => rfl) fun c => ?_
  exact .pure (c.rest.head?.any (·.freshLine))

/-- Whether the budget is overdrawn is the one thing that differs, and only from there on. -/
theorem isRefused_metered : Metered b isRefused := by
  refine .ofSteady ?_
  refine .get (fun _ => rfl) fun c => ?_
  exact .pure c.refused.isSome

theorem inBlock_metered : Metered b inBlock := by
  refine .ofSteady ?_
  refine .get (fun _ => rfl) fun c => ?_
  exact .pure (c.openers.head?.any (·.kind == .braceOpen))

/-! ### Gaps -/

/-- A gap becomes one leaf or none. -/
theorem Gap.due_leaves (g : Gap) (i : Nat) :
    ∃ slots : List Slot, (g.due i).toList = slots.map .leaf := by
  unfold Gap.due
  split
  · exact ⟨[.gap i], rfl⟩
  · exact ⟨[], rfl⟩

/-- Placing a gap leaves what the budget is spent on. -/
theorem placeGap_kept (c : Cursor) : Kept c c.placeGap :=
  have ⟨slots, due⟩ := c.gap.due_leaves c.passed
  .ofLeaves rfl rfl rfl rfl rfl ⟨slots, by rw [Cursor.toList_parts_placeGap, due]⟩

theorem placeGap_steady : Steady placeGap := .modify placeGap_kept fun _ => rfl

/-- The gap behind the last word of a node goes to the node around it. -/
theorem skipAndPlaceGap_metered : Metered b skipAndPlaceGap := by
  refine .ofSteady ?_
  refine skipGap_steady.bind fun _ => ?_
  exact placeGap_steady

/-- A checkpoint is where a later node may begin. -/
theorem checkpoint_metered : Metered b checkpoint := by
  refine .ofSteady ?_
  refine (skipGap_steady.bind fun _ => placeGap_steady).bind fun _ => ?_
  refine .get (fun _ => rfl) fun c => ?_
  exact .pure c.parts.size

/-! ### Reading -/

/-- A paid word brings the run closer to its end, or overdraws the budget. -/
theorem paid_progress (c : Cursor) : Progress c c.paid := by
  unfold Cursor.paid
  split
  · exact .refl c
  · exact ⟨rfl, fun l spent => by simp [spent], Nat.le_refl _, fun h => ⟨h, Nat.le_refl _⟩⟩
  · exact ⟨rfl, fun _ => id, Nat.le_refl _, fun h => ⟨h, Nat.le_refl _⟩⟩

/-- A word that is read is a leaf. -/
theorem read_reach (label : LeafKind) (h : c.Stacked) :
    (c.read label).Stacked ∧ (c.read label).reach = c.reach := by
  obtain ⟨slots, due⟩ := c.gap.due_leaves c.passed
  refine h.leaves rfl ⟨slots ++ [.word c.passed label], ?_⟩
  rw [Cursor.toList_parts_read, due]
  simp

/-- A word that is read is one word less to read. -/
theorem read_progress (c : Cursor) (label : LeafKind) : Progress c (c.read label) where
  opened := rfl
  refused := fun _ => id
  passed := Nat.le_succ _
  reach := fun stacked =>
    have ⟨still, same⟩ := read_reach label stacked
    ⟨still, Nat.le_of_eq same.symm⟩

/-- A word that is paid for. -/
theorem Solvent.read (h : Solvent b c) (label : LeafKind) {budget : Budget}
    (words : budget.words = b.words.map (· - (c.passed + 1))) (nesting : budget.nesting = b.nesting)
    (paid : ∀ n ∈ b.words, c.passed + 1 ≤ n) :
    Solvent b (Cursor.read { c with budget } label) where
  refused := h.refused
  words := words
  nesting := nesting
  depth := h.depth
  stacked := (read_reach label (c := { c with budget }) h.stacked).1
  covered := fun l n mem => by
    cases l with
    | words => exact paid n mem
    | nesting =>
      refine Nat.le_trans (Nat.le_of_eq ?_) (h.covered .nesting n mem)
      exact (read_reach label (c := { c with budget }) h.stacked).2

/-- The word that cannot be paid for is the first one beyond the budget. -/
theorem payAndRead_metered (label : LeafKind) :
    Metered b (do payWord; modify (·.read label)) := by
  have steps (c : Cursor) : Yields (do payWord; modify (·.read label)) c
      fun _ d => d = c.paid.read label :=
    (payWord_steps c).bind fun _ d paid => .modify (congrArg (Cursor.read · label) paid)
  refine ⟨fun c => (steps c).imp fun _ d eq => ?_, fun c solvent => (steps c).imp fun _ d eq => ?_⟩
  · exact eq ▸ (paid_progress c).trans (read_progress _ label)
  subst eq
  have words := solvent.words
  unfold Cursor.paid
  cases bound : b.words with
  | none =>
    rw [bound] at words
    rw [words]
    refine .inl ⟨solvent.read label ?_ solvent.nesting ?_, rfl⟩
    · rw [words, bound]
      rfl
    · simp [bound]
  | some n =>
    rw [bound, Option.map_some] at words
    have afforded : c.passed ≤ n := solvent.covered .words n bound
    -- With nothing left the budget is spent here; without one the word is read beyond it.
    cases left : n - c.passed with
    | zero =>
      rw [words, left]
      refine .inr ⟨.words, by simp [Cursor.read, Cursor.placeGap, solvent.refused], ?_⟩
      refine (steps c.free).imp fun _ d eq => ?_
      subst eq
      refine ⟨(read_reach label (c := c.free) solvent.stacked).1, n, bound, ?_⟩
      show n < c.passed + 1
      omega
    | succ k =>
      rw [words, left]
      refine .inl ⟨solvent.read label ?_ solvent.nesting ?_, rfl⟩
      · rw [bound, Option.map_some]
        show some k = _
        congr 1
        omega
      · intro m mem
        cases bound.symm.trans mem
        omega

/-- Reading a word is what the budget of words is spent on. -/
theorem takeAs_metered (label : LeafKind) : Metered b (takeAs label) :=
  (Metered.ofSteady (peek_steady 0)).bind fun _ =>
    .ite ((Metered.throw _).bind fun _ => payAndRead_metered label) (payAndRead_metered label)

theorem bump_metered : Metered b bump := current_metered.bind fun _ => takeAs_metered _

theorem takeKeyword_metered (k : Keyword) : Metered b (takeKeyword k) := takeAs_metered _

theorem bumpKeyword_metered : Metered b bumpKeyword :=
  currentText_metered.bind fun _ => takeAs_metered _

/-- Nothing is spent where the word is another one. -/
theorem eat_metered (kind : TokenKind) : Metered b (eat kind) :=
  (currentIs_metered kind).branch (bump_metered.bind fun _ => .pure true) (.pure false)

theorem eatKeyword_metered (k : Keyword) : Metered b (eatKeyword k) :=
  (atKeyword_metered k).branch ((takeKeyword_metered k).bind fun _ => .pure true) (.pure false)

/-! ### Nodes -/

/-- The node `n` is begun. -/
structure Opens (n : Opened) (c o : Cursor) : Prop where
  opened : o.opened = n :: c.opened
  refused : o.refused = c.refused
  passed : o.passed = c.passed
  budget : o.budget = c.budget
  depth : o.depth = c.depth
  reach : c.Stacked → o.Stacked ∧ o.reach = max c.reach (levels o.opened)

/-- The node `n` is closed. -/
structure Closes (n : Opened) (e d : Cursor) : Prop where
  opened : e.opened = n :: d.opened
  refused : d.refused = e.refused
  passed : d.passed = e.passed
  budget : d.budget = e.budget
  depth : d.depth = e.depth
  reach : e.Stacked → d.Stacked ∧ d.reach = e.reach

/-- What was kept in between does not matter to what is opened. -/
theorem Opens.ofKept {n : Opened} (kept : Kept c d) (h : Opens n d o) : Opens n c o where
  opened := by rw [h.opened, kept.opened]
  refused := h.refused.trans kept.refused
  passed := h.passed.trans kept.passed
  budget := h.budget.trans kept.budget
  depth := h.depth.trans kept.depth
  reach := fun stacked => by
    obtain ⟨still, same⟩ := kept.reach stacked
    exact same ▸ h.reach still

/-- A rule that begins a node of the kind, within a budget and without one. -/
def Starts (kind : NodeKind) (start : Rule Unit) : Prop :=
  ∀ c, Yields start c fun _ o =>
    (∃ first, Opens ⟨kind, first⟩ c o) ∧ start.run c.free = .ok ((), o.free)

/-- A node within the one that is open is one level more at most. -/
theorem startNode_starts (kind : NodeKind) : Starts kind (startNode kind) := by
  intro c x o run
  cases run
  refine ⟨⟨_, .ofKept (placeGap_kept c) ⟨rfl, rfl, rfl, rfl, rfl, fun stacked => ?_⟩⟩, rfl⟩
  exact stacked.openNode (Nat.le_refl _) stacked.innermost (.inr rfl)

/-- A node that takes in parts from a checkpoint on opens no level that was not there. -/
theorem startNodeAt_starts (flat : kind.level = 0) (point : Checkpoint) :
    Starts kind (startNodeAt point kind) := by
  refine fun c => .get (.ite (fun _ => (Yields.throw _).bind fun _ _ none => none) fun valid => ?_)
  intro x o run
  cases run
  have among : point ≤ c.parts.size := Nat.le_of_not_lt fun beyond => by
    simp [beyond] at valid
  have inner : ∀ n ∈ c.opened.head?, n.first ≤ point := fun n first =>
    Nat.le_of_not_lt fun behind => by simp [Option.mem_def.1 first, behind] at valid
  refine ⟨⟨point, rfl, rfl, rfl, rfl, rfl, fun stacked => ?_⟩, ?_⟩
  · exact stacked.openNode among inner (.inl flat)
  · exact startNodeAt_run (c := c.free) among inner

/-- A node is finished alike with a budget and without. -/
theorem finishNode_closes (e : Cursor) : Yields finishNode e fun _ d =>
    (∃ n, Closes n e d) ∧ finishNode.run e.free = .ok ((), d.free) := by
  refine (finishNode_yields e).imp fun _ d closed => ?_
  obtain ⟨n, ns, opened, rfl⟩ := closed
  refine ⟨⟨n, ?_, rfl, rfl, rfl, rfl, fun stacked => stacked.closeNode opened⟩,
    finishNode_run (c := e.free) opened⟩
  simp [Cursor.closeNode, opened]

/-- A node from its beginning to its end. -/
theorem Progress.around {n m : Opened} (opens : Opens n c o) (inner : Progress o e)
    (closes : Closes m e d) : Progress c d where
  opened := by
    have whole := closes.opened.symm.trans (inner.opened.trans opens.opened)
    exact (List.cons.inj whole).2
  refused := fun l spent => by
    rw [closes.refused]
    exact inner.refused l (opens.refused.trans spent)
  passed := by
    rw [closes.passed, ← opens.passed]
    exact inner.passed
  reach := fun stacked => by
    obtain ⟨began, deep⟩ := opens.reach stacked
    obtain ⟨still, deeper⟩ := inner.reach began
    obtain ⟨ends, same⟩ := closes.reach still
    exact ⟨ends, by omega⟩

/-- An overdrawn run stays so behind the beginning of a node. -/
theorem Overdrawn.opens {n : Opened} (h : Overdrawn b l c) (opens : Opens n c o) :
    Overdrawn b l o :=
  have ⟨began, deep⟩ := opens.reach h.stacked
  h.ahead (Nat.le_of_eq opens.passed.symm) ⟨began, by omega⟩

/-- It stays so at the end of a node too. -/
theorem Overdrawn.closes {n : Opened} (h : Overdrawn b l e) (closes : Closes n e d) :
    Overdrawn b l d :=
  have ⟨ends, same⟩ := closes.reach h.stacked
  h.ahead (Nat.le_of_eq closes.passed.symm) ⟨ends, Nat.le_of_eq same.symm⟩

/-- Finishing a node beyond the budget finishes what is open and changes nothing else. -/
theorem finishNode_beyond (l : Limit) (_ : Unit) (e : Cursor) (h : Overdrawn b l e) :
    Yields finishNode e fun _ d => Overdrawn b l d :=
  (finishNode_closes e).imp fun _ _ ⟨⟨_, closes⟩, _⟩ => h.closes closes

/-- A node makes progress if what is in it does. -/
theorem starts_progress {start : Rule Unit} (starts : Starts kind start)
    (h : ∀ c, Yields body c fun _ d => Progress c d) (c : Cursor) :
    Yields (do start; body; finishNode) c fun _ d => Progress c d := by
  refine (starts c).bind fun _ o ⟨⟨_, opens⟩, _⟩ => ?_
  refine (h o).bind fun _ e inner => ?_
  refine (finishNode_closes e).imp fun _ _ ⟨⟨_, closes⟩, _⟩ => ?_
  exact .around opens inner closes

/-- The nodes that are begun have to lie within the budget. -/
theorem Paid.opens {n : Opened} (h : Paid b c) (opens : Opens n c o)
    (within : ∀ m ∈ b.nesting, levels o.opened ≤ m) : Paid b o where
  refused := opens.refused.trans h.refused
  words := by rw [opens.budget, opens.passed, h.words]
  nesting := by rw [opens.budget, h.nesting]
  stacked := (opens.reach h.stacked).1
  covered := fun l m mem => by
    have before := h.covered l m mem
    cases l with
    | words => exact Nat.le_trans (Nat.le_of_eq opens.passed) before
    | nesting =>
      have deep := (opens.reach h.stacked).2
      exact Nat.le_trans (Nat.le_of_eq deep) (Nat.max_le.2 ⟨before, within m mem⟩)

/-- What was paid for in a node is paid for behind it. -/
theorem Paid.closes {n : Opened} (h : Paid b e) (closes : Closes n e d) : Paid b d where
  refused := closes.refused.trans h.refused
  words := by rw [closes.budget, closes.passed, h.words]
  nesting := by rw [closes.budget, h.nesting]
  stacked := (closes.reach h.stacked).1
  covered := fun l m mem => by
    have before := h.covered l m mem
    cases l with
    | words => exact Nat.le_trans (Nat.le_of_eq closes.passed) before
    | nesting => exact Nat.le_trans (Nat.le_of_eq (closes.reach h.stacked).2) before

/-- What is open around a node is open behind it. -/
theorem Closes.levels {n m : Opened} (closes : Closes m e d) (opens : Opens n c o)
    (inner : Progress o e) : levels e.opened = n.kind.level + levels d.opened := by
  have whole := closes.opened.symm.trans (inner.opened.trans opens.opened)
  rw [closes.opened, Grammar.levels, (List.cons.inj whole).1]

/-- A node of a kind that is no level costs nothing. -/
theorem enclosed_metered {start : Rule Unit} (starts : Starts kind start) (flat : kind.level = 0)
    (h : Metered b body) : Metered b (do start; body; finishNode) where
  progress := starts_progress starts h.progress
  agrees := fun c solvent => (starts c).bind fun _ o ⟨⟨first, opens⟩, start⟩ => by
    have same : levels o.opened = levels c.opened := by
      rw [opens.opened, levels, flat, Nat.zero_add]
    have began : Solvent b o := by
      refine ⟨solvent.toPaid.opens opens fun m mem => ?_, ?_⟩
      · rw [same]
        exact Nat.le_trans solvent.stacked.levels_le (solvent.covered .nesting m mem)
      · rw [opens.depth, same, solvent.depth]
    intro x d run
    obtain ⟨_, e, inner, finish⟩ := run_bind_eq_ok run
    obtain ⟨⟨n, closes⟩, finish'⟩ := finishNode_closes e x d finish
    have around := closes.levels opens (h.progress o _ e inner)
    refine .behind start ((h.agrees o began _ e inner).bind (fun solvent => .inl ⟨?_, finish'⟩)
      (fun l => closes.refused.trans) finishNode_beyond)
    refine ⟨solvent.toPaid.closes closes, ?_⟩
    rw [closes.depth, solvent.depth, around, flat, Nat.zero_add]

/-- A node that is no level spends what is in it. -/
theorem node_metered (flat : kind.level = 0) (h : Metered b body) : Metered b (node kind body) :=
  enclosed_metered (startNode_starts kind) flat h

/-- The same for a node that begins at a checkpoint. -/
theorem nodeAt_metered (flat : kind.level = 0) (point : Checkpoint) (h : Metered b body) :
    Metered b (nodeAt point kind body) :=
  enclosed_metered (startNodeAt_starts flat point) flat h

/-! ### Levels -/

/-- Going a level down spends one of the levels. -/
theorem descend_progress (c : Cursor) : Yields descend c fun _ d => Progress c d := by
  refine (descend_steps c).imp fun _ d post => ?_
  split at post <;> obtain ⟨-, rfl⟩ := post
  · exact ⟨rfl, fun l spent => by simp [spent], Nat.le_refl _, fun h => ⟨h, Nat.le_refl _⟩⟩
  · exact ⟨rfl, fun _ => id, Nat.le_refl _, fun h => ⟨h, Nat.le_refl _⟩⟩

/-- Coming up again gives it back. -/
theorem ascend_progress (c : Cursor) : Yields ascend c fun _ d => Progress c d :=
  .modify ⟨rfl, fun _ => id, Nat.le_refl _, fun h => ⟨h, Nat.le_refl _⟩⟩

section

variable {t : Rule α} {inside : α → Rule Unit}

/-- A level from where it is entered. -/
theorem level_beyond (level : kind.level = 1) (asks : Steady t) (h : ∀ x, Metered b (inside x))
    {n : Nat} (bound : b.nesting = some n) (stacked : c.Stacked) (deep : n ≤ levels c.opened) :
    Yields (do let x ← t; node kind (inside x); ascend) c fun _ d => Overdrawn b .nesting d := by
  refine (asks c).bind fun x d ⟨kept, _⟩ => ?_
  have stays := (kept.reach stacked).1
  refine Yields.bind (P := fun _ f => Overdrawn b .nesting f) ?_ fun _ f late =>
    (ascend_progress f).imp fun _ _ => late.onward
  refine (startNode_starts kind d).bind fun _ o ⟨⟨first, opens⟩, _⟩ => ?_
  have began : Overdrawn b .nesting o := by
    obtain ⟨begun, reach⟩ := opens.reach stays
    refine ⟨begun, n, bound, ?_⟩
    show n < o.reach
    rw [opens.opened, kept.opened, levels, level] at reach
    omega
  exact ((h x).progress o).bind fun _ e inner => finishNode_beyond _ () e (began.onward inner)

/-- A level of nesting is paid for before it is entered. -/
theorem level_metered (level : kind.level = 1) (asks : Steady t)
    (h : ∀ x, Metered b (inside x)) :
    Metered b (descend >>= fun deeper => if (!deeper) = true then pure () else
      (do let x ← t; node kind (inside x); ascend)) := by
  refine ⟨Progress.bind descend_progress fun deeper c =>
      .ite (fun _ => .pure (.refl c)) fun _ => ?_,
    fun c solvent => (descend_steps c).bind fun deeper d steps => ?_⟩
  · refine Progress.bind (fun c => (asks c).imp fun _ _ post => post.1.progress) (fun x => ?_) c
    exact Progress.bind (starts_progress (startNode_starts kind) (h x).progress)
      fun _ => ascend_progress
  split at steps
  next spent =>
    obtain ⟨rfl, rfl⟩ := steps
    refine .pure (.inr ⟨.nesting, by simp [solvent.refused], ?_⟩)
    obtain ⟨n, bound, deep⟩ : ∃ n, b.nesting = some n ∧ n ≤ c.depth := by
      simpa [solvent.nesting, Option.any_eq_true] using spent
    refine (descend_steps c.free).bind fun deeper' d' steps' => ?_
    obtain ⟨rfl, rfl⟩ : deeper' = true ∧ _ := steps'
    exact level_beyond level asks h bound solvent.stacked (solvent.depth ▸ deep)
  next free =>
    obtain ⟨rfl, rfl⟩ := steps
    intro y d run
    have entered : descend.run c.free =
        .ok (true, Cursor.free { c with depth := c.depth + 1, looks := lookLimit }) := rfl
    refine .behind entered ?_
    obtain ⟨x, f, asked, run⟩ := run_bind_eq_ok run
    obtain ⟨kept, asked'⟩ := asks _ x f asked
    refine Agrees.behind asked' ?_
    -- the level is left behind the node, so both ends are looked at together
    have text : (do node kind (inside x); ascend) =
        (do startNode kind; inside x; (do finishNode; ascend)) := by
      simp only [node, bind_assoc]
    rw [text] at run ⊢
    obtain ⟨_, o, start, run⟩ := run_bind_eq_ok run
    obtain ⟨⟨first, opens⟩, start'⟩ := startNode_starts kind f _ o start
    obtain ⟨_, e, inner, run⟩ := run_bind_eq_ok run
    obtain ⟨_, g, finish, leave⟩ := run_bind_eq_ok run
    obtain ⟨⟨n, closes⟩, finish'⟩ := finishNode_closes e _ g finish
    have deep : levels o.opened = levels c.opened + 1 := by
      rw [opens.opened, levels, level, Nat.add_comm, kept.opened]
    have entry : Paid b { c with depth := c.depth + 1, looks := lookLimit } :=
      { solvent.toPaid with }
    have began : Solvent b o := by
      refine ⟨(entry.kept kept).opens opens fun m bound => ?_, ?_⟩
      · have room : ¬m ≤ c.depth := by simpa [solvent.nesting, Option.mem_def.1 bound] using free
        rw [deep, ← solvent.depth]
        omega
      · rw [opens.depth, kept.depth, deep, ← solvent.depth]
    have around := closes.levels opens ((h x).progress o _ e inner)
    refine .behind start' (((h x).agrees o began _ e inner).bind (fun solvent => ?_)
      (fun l spent => ?_) fun l _ e' late => ?_)
    · refine .behind finish' ?_
      have paid := solvent.toPaid.closes closes
      cases leave
      refine .inl ⟨⟨{ paid with }, ?_⟩, rfl⟩
      show g.depth - 1 = levels g.opened
      rw [closes.depth, solvent.depth, around, level]
      omega
    · cases leave
      exact closes.refused.trans spent
    · exact (finishNode_beyond l () e' late).bind fun _ g' late =>
        (ascend_progress g').imp fun _ _ => late.onward

end

/-! ### Choices and complaints -/

/-- The part is looked for before anything is spent on it. -/
theorem optional_metered (kind : TokenKind) (h : Metered b body) :
    Metered b (optional kind body) := .whenever (currentIs_metered kind) h

/-- A promise that is kept without a budget is kept within one. -/
theorem assertAt_metered (kind : TokenKind) : Metered b (assertAt kind) :=
  current_metered.bind fun _ => .ite (.throw _) (.pure ())

theorem assertAtKeyword_metered (k : Keyword) : Metered b (assertAtKeyword k) :=
  (atKeyword_metered k).bind fun _ => .ite (.throw _) (.pure ())

/-- A complaint is made once for each word, and nothing is spent on it. -/
theorem complain_metered (k : Nat → Option Nat → Complaint) : Metered b (complain k) := by
  refine mark_metered.bind fun i => .ofSteady (.modify (fun c => ?_) fun c => ?_)
  · split
    · exact .refl c
    · exact .ofParts rfl rfl rfl rfl rfl rfl
  · show (if c.lastPlace = some i then _ else _) =
      Cursor.free (if c.lastPlace = some i then _ else _)
    split <;> rfl

theorem error_metered (kind : DiagnosticKind) : Metered b (error kind) := complain_metered _

theorem errorWith_metered (kind : DiagnosticKind) (detail : String) :
    Metered b (errorWith kind detail) := complain_metered _

theorem errorNoSemicolon_metered : Metered b errorNoSemicolon := complain_metered _

/-- What was opened and not closed is remembered by its place. -/
theorem errorUnclosed_metered (kind : DiagnosticKind) (note : String) (opener : Nat) :
    Metered b (errorUnclosed kind note opener) := complain_metered _

/-- A word in an error node is paid for like any other. -/
theorem bumpAsError_metered : Metered b bumpAsError :=
  (Metered.ofSteady (peek_steady 0)).bind fun _ =>
    .ite (node_metered (by decide) bump_metered) (.pure ())

theorem errorAndBump_metered (kind : DiagnosticKind) (detail : String) :
    Metered b (errorAndBump kind detail) :=
  (errorWith_metered kind detail).bind fun _ => bumpAsError_metered

/-- The word is paid for if it is there. -/
theorem expect_metered (kind : TokenKind) (what : String) : Metered b (expect kind what) :=
  (eat_metered kind).branch (.pure true) ((errorWith_metered _ _).bind fun _ => .pure false)

/-! ### Delimiters -/

theorem pushOpener_metered (kind : TokenKind) : Metered b (pushOpener kind) :=
  mark_metered.bind fun _ =>
    .ofSteady (.modify (fun _ => .ofParts rfl rfl rfl rfl rfl rfl) fun _ => rfl)

theorem popOpener_metered : Metered b popOpener :=
  .ofSteady (.modify (fun _ => .ofParts rfl rfl rfl rfl rfl rfl) fun _ => rfl)

/-- The opener is paid for, and it is remembered until what is inside has been read. -/
theorem inside_metered (kind : TokenKind) (h : Metered b body) : Metered b (inside kind body) := by
  refine (pushOpener_metered kind).bind fun _ => ?_
  refine bump_metered.bind fun _ => ?_
  refine h.bind fun _ => ?_
  exact popOpener_metered

/-- A list between delimiters: opener, rounds, closer. -/
theorem delimited_metered (m : Delimiters) {turn : Rule Bool} (h : Metered b turn) :
    Metered b (delimited m turn) := by
  refine mark_metered.bind fun _ => ?_
  refine (inside_metered m.opener h.repeatWhile).bind fun _ => ?_
  refine (eat_metered m.closer).bind fun _ => ?_
  refine isRefused_metered.bind fun _ => ?_
  exact .ite (errorUnclosed_metered ..) (.pure ())

/-- One item of a list, or a stray word. -/
theorem itemTurn_metered (closer : TokenKind) {starts : Rule Bool} (what : String)
    {item : Rule Unit} (begins : Metered b starts) (h : Metered b item) :
    Metered b (itemTurn closer starts what item) := by
  refine (atEnd_metered.or (currentIs_metered closer)).branch (.pure false) ?_
  refine begins.bind fun _ => ?_
  exact .ite ((errorAndBump_metered _ _).bind fun _ => .pure true) (h.bind fun _ => eat_metered .comma)

/-! ### The boundaries of statements -/

/-- The beginning of a statement is seen in a few words ahead. -/
theorem atStatementStart_metered : Metered b atStatementStart := by
  refine current_metered.bind fun _ => .ite (.pure false) (currentText_metered.bind fun text => ?_)
  have next (f : Option TokenKind → Bool) : Metered b (kindAt 1 >>= fun k => pure (f k)) :=
    (kindAt_metered 1).bind fun k => .pure (f k)
  cases Keyword.ofWord? text with
  | none => exact .pure false
  | some k =>
    cases k with
    | kwAbstract => exact nthIsWord_metered 1 "class"
    | kwGlobal => exact nextIs_metered .braceOpen
    | kwVar | kwLet | kwConst | kwFunction | kwModule | kwImport => exact next _
    | kwDeclare | kwInterface | kwEnum | kwType | kwNamespace | kwClass =>
        exact nextIs_metered .ident
    | kwExport | kwDefault | kwFrom | kwAs | kwExtends | kwImplements | kwRequire => exact .pure _

/-- Nothing is spent where a semicolon may be left out. -/
theorem expectSemicolon_metered : Metered b expectSemicolon :=
  (eat_metered .semicolon).branch (.pure ()) <|
    (atEnd_metered.or ((currentIs_metered .braceClose).or onFreshLine_metered)).branch (.pure ())
      errorNoSemicolon_metered

end ImplicitGlobals.Grammar
