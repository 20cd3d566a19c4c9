import ImplicitGlobals.Proofs.Budget.Reach
import ImplicitGlobals.Proofs.Setting.Steps

/-!
# Rules within a budget and without one

Two runs of one rule: one pays from a budget, the other one has none. Until the budget is spent
they do the same. From then on they may part, as the first one sees the end of the source
everywhere, but the first one stays refused, and the second one has read more words, or nested
deeper, than the budget allows. `Metered` says this of a rule; it is kept by all ways in which
rules are put together, so a statement about a rule follows its text.
-/

namespace ImplicitGlobals

/-- The bound on what the limit counts. -/
def Budget.bound (b : Budget) : Limit → Option Nat
  | .words => b.words
  | .nesting => b.nesting

namespace Grammar

variable {α β : Type} {b : Budget} {l : Limit} {c d e : Cursor} {r : Rule α}

namespace Cursor

/-- The cursor with no bounds left to keep. -/
def free (c : Cursor) : Cursor := { c with budget := {} }

/-- How much was spent of what the limit counts. -/
def spent (c : Cursor) : Limit → Nat
  | .words => c.passed
  | .nesting => c.reach

end Cursor

/-! ### What every rule keeps -/

/-- What a rule leaves behind within any budget: nothing that was spent comes back. -/
structure Progress (c d : Cursor) : Prop where
  opened : d.opened = c.opened
  refused : ∀ l, c.refused = some l → d.refused = some l
  passed : c.passed ≤ d.passed
  reach : c.Stacked → d.Stacked ∧ c.reach ≤ d.reach

namespace Progress

theorem refl (c : Cursor) : Progress c c :=
  ⟨rfl, fun _ => id, Nat.le_refl _, fun h => ⟨h, Nat.le_refl _⟩⟩

/-- What is spent and refused adds up. -/
theorem trans (h : Progress c d) (g : Progress d e) : Progress c e where
  opened := g.opened.trans h.opened
  refused := fun l spent => g.refused l (h.refused l spent)
  passed := Nat.le_trans h.passed g.passed
  reach := fun stacked =>
    have first := h.reach stacked
    have rest := g.reach first.1
    ⟨rest.1, Nat.le_trans first.2 rest.2⟩

/-- Progress of one rule and then of the next. -/
theorem bind {f : α → Rule β} (h : ∀ c, Yields r c fun _ d => Progress c d)
    (next : ∀ x c, Yields (f x) c fun _ d => Progress c d) (c : Cursor) :
    Yields (r >>= f) c fun _ d => Progress c d := by
  refine (h c).bind fun x d first => ?_
  refine (next x d).imp fun _ _ rest => ?_
  exact first.trans rest

end Progress

/-- A step that costs nothing. -/
structure Kept (c d : Cursor) : Prop where
  opened : d.opened = c.opened
  refused : d.refused = c.refused
  passed : d.passed = c.passed
  budget : d.budget = c.budget
  depth : d.depth = c.depth
  reach : c.Stacked → d.Stacked ∧ d.reach = c.reach

namespace Kept

theorem refl (c : Cursor) : Kept c c := ⟨rfl, rfl, rfl, rfl, rfl, fun h => ⟨h, rfl⟩⟩

theorem trans (h : Kept c d) (g : Kept d e) : Kept c e where
  opened := g.opened.trans h.opened
  refused := g.refused.trans h.refused
  passed := g.passed.trans h.passed
  budget := g.budget.trans h.budget
  depth := g.depth.trans h.depth
  reach := fun stacked =>
    have first := h.reach stacked
    have rest := g.reach first.1
    ⟨rest.1, rest.2.trans first.2⟩

theorem progress (h : Kept c d) : Progress c d where
  opened := h.opened
  refused := fun _ spent => h.refused.trans spent
  passed := Nat.le_of_eq h.passed.symm
  reach := fun stacked => ⟨(h.reach stacked).1, Nat.le_of_eq (h.reach stacked).2.symm⟩

/-- A step that only adds leaves. -/
theorem ofLeaves (opened : d.opened = c.opened) (refused : d.refused = c.refused)
    (passed : d.passed = c.passed) (budget : d.budget = c.budget) (depth : d.depth = c.depth)
    (more : ∃ slots : List Slot, d.parts.toList = c.parts.toList ++ slots.map .leaf) : Kept c d :=
  ⟨opened, refused, passed, budget, depth, fun stacked => stacked.leaves opened more⟩

/-- A step that does nothing to the tree. -/
theorem ofParts (opened : d.opened = c.opened) (refused : d.refused = c.refused)
    (passed : d.passed = c.passed) (budget : d.budget = c.budget) (depth : d.depth = c.depth)
    (parts : d.parts = c.parts) : Kept c d :=
  .ofLeaves opened refused passed budget depth ⟨[], by simp [parts]⟩

end Kept

/-! ### What the budget has to do with it -/

/-- The cursor has paid for all that was spent, and its budget holds what is left. -/
structure Paid (b : Budget) (c : Cursor) : Prop where
  refused : c.refused = none
  words : c.budget.words = b.words.map (· - c.passed)
  nesting : c.budget.nesting = b.nesting
  stacked : c.Stacked
  covered : ∀ l, ∀ n ∈ b.bound l, c.spent l ≤ n

/-- All is paid, and the levels that are entered are those that are open. -/
structure Solvent (b : Budget) (c : Cursor) : Prop extends Paid b c where
  depth : c.depth = levels c.opened

/-- More was spent than the budget allows. -/
structure Overdrawn (b : Budget) (l : Limit) (c : Cursor) : Prop where
  stacked : c.Stacked
  beyond : ∃ n ∈ b.bound l, n < c.spent l

/-- What is paid for stays paid while nothing is read. -/
theorem Paid.kept (h : Paid b c) (kept : Kept c d) : Paid b d where
  refused := kept.refused.trans h.refused
  words := by rw [kept.budget, kept.passed, h.words]
  nesting := by rw [kept.budget, h.nesting]
  stacked := (kept.reach h.stacked).1
  covered := fun l n mem => by
    have before := h.covered l n mem
    cases l with
    | words => exact Nat.le_trans (Nat.le_of_eq kept.passed) before
    | nesting => exact Nat.le_trans (Nat.le_of_eq (kept.reach h.stacked).2) before

theorem Solvent.kept (h : Solvent b c) (kept : Kept c d) : Solvent b d where
  toPaid := h.toPaid.kept kept
  depth := by rw [kept.depth, kept.opened, h.depth]

/-- What was spent once is spent further on. -/
theorem Overdrawn.ahead (h : Overdrawn b l c) (passed : c.passed ≤ d.passed)
    (reach : d.Stacked ∧ c.reach ≤ d.reach) : Overdrawn b l d where
  stacked := reach.1
  beyond := by
    obtain ⟨n, mem, less⟩ := h.beyond
    refine ⟨n, mem, Nat.lt_of_lt_of_le less ?_⟩
    cases l with
    | words => exact passed
    | nesting => exact reach.2

/-- A budget that is overdrawn stays so. -/
theorem Overdrawn.onward (h : Overdrawn b l c) (progress : Progress c d) : Overdrawn b l d :=
  h.ahead progress.passed (progress.reach h.stacked)

/-! ### Steady rules -/

/-- A rule of which the budget is no concern. -/
def Steady (r : Rule α) : Prop :=
  ∀ c, Yields r c fun x d => Kept c d ∧ r.run c.free = .ok (x, d.free)

namespace Steady

theorem pure (x : α) : Steady (Pure.pure x) := fun c => .pure ⟨.refl c, rfl⟩

/-- Steady rules one behind the other. -/
theorem bind {f : α → Rule β} (h : Steady r) (next : ∀ x, Steady (f x)) : Steady (r >>= f) := by
  refine fun c => (h c).bind fun x d first => (next x d).imp fun y e rest => ?_
  refine ⟨first.1.trans rest.1, ?_⟩
  rw [StateT.run_bind, first.2]
  exact rest.2

theorem map (f : α → β) (h : Steady r) : Steady (f <$> r) := by
  rw [← bind_pure_comp]
  exact h.bind fun x => .pure (f x)

/-- A rule that goes on from the cursor, if it does not ask for the budget. -/
theorem get {f : Cursor → Rule α} (same : ∀ c, f c.free = f c) (h : ∀ c, Steady (f c)) :
    Steady (MonadState.get >>= f) := fun c => .get <| (h c c).imp fun x d post => by
  refine ⟨post.1, ?_⟩
  rw [StateT.run_bind, StateT.run_get]
  show (f c.free).run c.free = _
  rw [same]
  exact post.2

/-- A change of the cursor that leaves the budget alone. -/
theorem modify {f : Cursor → Cursor} (kept : ∀ c, Kept c (f c))
    (free : ∀ c, f c.free = (f c).free) : Steady (modify f) :=
  fun c => .modify ⟨kept c, congrArg (fun d => Except.ok (PUnit.unit, d)) (free c)⟩

theorem throw (breach : Breach) : Steady (MonadExcept.throw breach : Rule α) :=
  fun _ => .throw breach

end Steady

/-! ### Metered rules -/

/-- How a run within the budget ends, and what the run without one does: the same, or it spends
more than the budget allows. -/
def Agrees (b : Budget) (r : Rule α) (c : Cursor) (x : α) (d : Cursor) : Prop :=
  Solvent b d ∧ r.run c.free = .ok (x, d.free) ∨
    ∃ l, d.refused = some l ∧ Yields r c.free fun _ d' => Overdrawn b l d'

namespace Agrees

variable {f : α → Rule β} {x : α} {y : β}

/-- What comes behind a step that both runs do. -/
theorem behind (run : r.run c.free = .ok (x, e.free)) (h : Agrees b (f x) e y d) :
    Agrees b (r >>= f) c y d := by
  have same : (r >>= f).run c.free = (f x).run e.free := by rw [StateT.run_bind, run]; rfl
  rcases h with ⟨solvent, rest⟩ | ⟨l, refused, beyond⟩
  · exact .inl ⟨solvent, same.trans rest⟩
  · exact .inr ⟨l, refused, fun z e' run' => beyond z e' (same.symm.trans run')⟩

/-- What comes behind a rule: the runs go on together, or what was refused stays refused and
what was overdrawn stays overdrawn. -/
theorem bind (h : Agrees b r c x e) (next : Solvent b e → Agrees b (f x) e y d)
    (refused : ∀ l, e.refused = some l → d.refused = some l)
    (beyond : ∀ l x' e', Overdrawn b l e' → Yields (f x') e' fun _ d' => Overdrawn b l d') :
    Agrees b (r >>= f) c y d := by
  rcases h with ⟨solvent, run⟩ | ⟨l, spent, late⟩
  · exact behind run (next solvent)
  · exact .inr ⟨l, refused l spent, late.bind fun x' e' => beyond l x' e'⟩

end Agrees

/-- Until the budget is spent the rule does the same as without one; then it stays refused, and
without the budget more is spent. -/
structure Metered (b : Budget) (r : Rule α) : Prop where
  progress : ∀ c, Yields r c fun _ d => Progress c d
  agrees : ∀ c, Solvent b c → Yields r c fun x d => Agrees b r c x d

namespace Metered

variable {f : α → Rule β}

/-- A steady rule is metered: it pays for nothing. -/
theorem ofSteady (h : Steady r) : Metered b r where
  progress := fun c => (h c).imp fun _ _ post => post.1.progress
  agrees := fun c solvent => (h c).imp fun _ _ post => .inl ⟨solvent.kept post.1, post.2⟩

theorem pure (x : α) : Metered b (Pure.pure x) := .ofSteady (.pure x)

theorem throw (breach : Breach) : Metered b (MonadExcept.throw breach : Rule α) :=
  .ofSteady (.throw breach)

/-- Metered rules one behind the other. Where the budget is spent in the first one, the second only has to
get on. -/
theorem bind (h : Metered b r) (next : ∀ x, Metered b (f x)) : Metered b (r >>= f) where
  progress := Progress.bind h.progress fun x => (next x).progress
  agrees := fun c solvent => (h.agrees c solvent).bind fun x e first y d run =>
    first.bind (fun solvent => (next x).agrees e solvent y d run)
      ((next x).progress e y d run).refused
      fun _ x' e' late => ((next x').progress e').imp fun _ _ => late.onward

theorem map (f : α → β) (h : Metered b r) : Metered b (f <$> r) := by
  rw [← bind_pure_comp]
  exact h.bind fun x => .pure (f x)

/-- A choice by the same condition. -/
theorem ite {p : Prop} [Decidable p] {s : Rule α} (yes : Metered b r) (no : Metered b s) :
    Metered b (if p then r else s) := by
  split
  · exact yes
  · exact no

/-- A rule that goes one way or the other. -/
theorem branch {t : Rule Bool} {s : Rule α} (h : Metered b t) (yes : Metered b r)
    (no : Metered b s) : Metered b (t >>= fun z => if z = true then r else s) :=
  h.bind fun _ => yes.ite no

variable {s t : Rule Bool}

/-- Both tests, the second behind the first. -/
theorem and (h : Metered b s) (g : Metered b t) : Metered b (s <&&> t) :=
  and_eq_branch s t ▸ h.branch g (.pure false)

theorem or (h : Metered b s) (g : Metered b t) : Metered b (s <||> t) :=
  h.bind fun x => by
    cases x with
    | false => exact g
    | true => exact .pure true

theorem not (h : Metered b t) : Metered b ((!·) <$> t) := h.map _

/-- A body behind its test. -/
theorem whenever {body : Rule Unit} (h : Metered b t) (g : Metered b body) :
    Metered b (Grammar.whenever t body) := h.branch g (.pure ())

/-- What the words are bounded by is no matter of the budget. -/
theorem bounded {f : Nat → Rule α} (h : ∀ n, Metered b (f n)) :
    Metered b (do f ((← MonadState.get).total + 1)) where
  progress := fun c => .get ((h _).progress c)
  agrees := fun c => (h (c.total + 1)).agrees c

/-- Rounds, by induction on those left. -/
theorem rounds {σ : Type} {step : σ → Rule (Turn σ)} (turn : ∀ x, Metered b (step x)) (n : Nat)
    (x : σ) : Metered b (Grammar.rounds step n x) := by
  induction n generalizing x with
  | zero => exact .throw _
  | succ n ih =>
    refine (turn x).bind fun t => ?_
    cases t with
    | again y => exact ih y
    | done y => exact .pure y

/-- A loop of metered turns. -/
theorem loop {σ : Type} {step : σ → Rule (Turn σ)} (turn : ∀ x, Metered b (step x)) (x : σ) :
    Metered b (Grammar.loop x step) :=
  .bounded fun n => .rounds turn n x

/-- A repetition of metered turns. -/
theorem repeatWhile {turn : Rule Bool} (h : Metered b turn) :
    Metered b (Grammar.repeatWhile turn) :=
  .loop (fun _ => h.branch (.pure _) (.pure _)) ()

end Metered

end Grammar

end ImplicitGlobals
