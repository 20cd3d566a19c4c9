import ImplicitGlobals.Proofs.Grammar.Cost

/-!
# Rules that come back

A small logic for the rules of the grammar. `Runs k r c Q` says that `r`, begun at
`c`, comes back at the cost `k` and ends in `Q`; `Walks k r c Q` that it does so
along a walk from `c`. There is one proof rule for each way in which rules are put
together, so a statement about a rule follows its text. A test only looks; what it
answers depends on the words ahead and on whether the budget is spent, and on
nothing else.
-/

namespace ImplicitGlobals.Grammar

variable {α β : Type} {c d : Cursor}

/-- From `c` the rule comes back, takes at most `k`, and ends in `Q`. -/
def Runs (k : Cost) (r : Rule α) (c : Cursor) (Q : α → Cursor → Prop) : Prop :=
  k.peak ≤ lookLimit → c.Sound → k.need ≤ c.looks →
    ∃ a d, r.run c = .ok (a, d) ∧ d.Sound ∧ k.Covers c d ∧ Q a d

/-- From `c` the rule comes back along a walk. -/
def Walks (k : Cost) (r : Rule α) (c : Cursor) (Q : α → Cursor → Prop) : Prop :=
  Runs k r c fun a d => Walk c d ∧ Q a d

/-- From `c` the rule comes back along a walk on which a word is read. -/
def Reads (k : Cost) (r : Rule α) (c : Cursor) : Prop := Walks k r c fun _ d => c.passed < d.passed

/-- The rule comes back along a walk wherever it is entered. -/
def Safe (k : Cost) (r : Rule α) : Prop := ∀ c, Walks k r c fun _ _ => True

/-- The rule comes back along a walk wherever it is entered behind a word. -/
def Later (k : Cost) (r : Rule α) : Prop := ∀ c, 0 < c.passed → Walks k r c fun _ _ => True

/-- Both, and the second only after the first. -/
theorem and_eq_branch (s t : Rule Bool) :
    (s <&&> t) = s >>= fun x => if x = true then t else pure false := by
  unfold andM
  congr
  funext x
  cases x <;> rfl

/-- What may come first, or not, and what comes behind it. -/
theorem whenever_then (t : Rule Bool) (first : Rule Unit) (r : Rule α) :
    (do whenever t first; r) = (do if ← t then (do first; r) else r) := by
  unfold whenever
  rw [bind_assoc]
  refine bind_congr fun found => ?_
  cases found <;> simp

namespace Runs

variable {k a b : Cost} {r : Rule α} {Q : α → Cursor → Prop}

/-- A value comes back for no look at all. -/
theorem pure {x : α} (h : Q x c) : Runs .free (Pure.pure x) c Q :=
  fun _ sound _ => ⟨x, c, rfl, sound, Cost.covers_free c, h⟩

/-- What is known of the end may be said less exactly. -/
theorem imp {P : α → Cursor → Prop} (h : Runs k r c P) (imp : ∀ x d, P x d → Q x d) :
    Runs k r c Q := by
  intro peak sound need
  obtain ⟨x, d, run, sound', covers, post⟩ := h peak sound need
  exact ⟨x, d, run, sound', covers, imp x d post⟩

/-- A rule may be said to cost more. -/
theorem weaken (h : Runs a r c Q) (cost : a.within b = true) : Runs b r c Q := by
  intro peak sound need
  have le := cost
  simp only [Cost.within, Bool.and_eq_true, decide_eq_true_eq] at le
  obtain ⟨x, d, run, sound', covers, post⟩ := h (by omega) sound (by omega)
  exact ⟨x, d, run, sound', covers.weaken cost, post⟩

/-- Costs add up in sequence. -/
theorem bind {P : α → Cursor → Prop} {Q : β → Cursor → Prop} {f : α → Rule β}
    (h : Runs a r c P) (next : ∀ x d, P x d → Runs b (f x) d Q) :
    Runs (a.seq b) (r >>= f) c Q := by
  intro peak sound need
  have parts : a.peak ≤ lookLimit ∧ b.peak ≤ lookLimit ∧ a.need ≤ c.looks := by
    simp only [Cost.seq] at peak need
    omega
  obtain ⟨x, d, run, sound', covers, post⟩ := h parts.1 sound parts.2.2
  obtain ⟨y, e, run', sound'', covers', post'⟩ :=
    next x d post parts.2.1 sound' (covers.need_le need peak)
  refine ⟨y, e, ?_, sound'', covers.seq covers', post'⟩
  rw [StateT.run_bind, run]
  exact run'

/-- What is made of the answer of a rule costs nothing. -/
theorem map {P : α → Cursor → Prop} {Q : β → Cursor → Prop} {f : α → β} (h : Runs k r c P)
    (made : ∀ x d, P x d → Q (f x) d) : Runs k (f <$> r) c Q := by
  intro peak sound need
  obtain ⟨x, d, run, sound', covers, post⟩ := h peak sound need
  refine ⟨f x, d, ?_, sound', covers, made x d post⟩
  rw [StateT.run_map, run]
  rfl

/-- Of a choice either branch is paid for. -/
theorem ite {p : Prop} [Decidable p] {x y : Rule α} (yes : p → Runs a x c Q)
    (no : ¬p → Runs b y c Q) : Runs (a.alt b) (if p then x else y) c Q := by
  intro peak sound need
  have parts : a.peak ≤ lookLimit ∧ b.peak ≤ lookLimit ∧ a.need ≤ c.looks ∧ b.need ≤ c.looks := by
    simp only [Cost.alt] at peak need
    omega
  split
  · next h =>
    obtain ⟨z, d, run, sound', covers, post⟩ := yes h parts.1 sound parts.2.2.1
    exact ⟨z, d, run, sound', covers.alt_left, post⟩
  · next h =>
    obtain ⟨z, d, run, sound', covers, post⟩ := no h parts.2.1 sound parts.2.2.2
    exact ⟨z, d, run, sound', covers.alt_right, post⟩

/-- A rule that goes one way or the other, as a first one tells. -/
theorem branch {m : Cost} {P : Bool → Cursor → Prop} {t : Rule Bool} {x y : Rule α}
    (h : Runs a t c P) (yes : ∀ d, P true d → Runs b x d Q) (no : ∀ d, P false d → Runs m y d Q) :
    Runs (a.seq (b.alt m)) (t >>= fun z => if z = true then x else y) c Q :=
  h.bind fun _ d post => .ite (fun e => yes d (e ▸ post)) fun e => no d (eq_false_of_ne_true e ▸ post)

/-- A rule may count on a sound cursor. -/
theorem ofSound (h : c.Sound → Runs k r c Q) : Runs k r c Q :=
  fun peak sound need => h sound peak sound need

end Runs

namespace Walks

variable {k a b : Cost} {r : Rule α} {Q : α → Cursor → Prop}

/-- A value comes back where the rule stands. -/
theorem pure {x : α} (h : Q x c) : Walks .free (Pure.pure x) c Q := Runs.pure ⟨.refl c, h⟩

/-- What is known of the end may use the walk. -/
theorem imp {P : α → Cursor → Prop} (h : Walks k r c P) (imp : ∀ x d, Walk c d → P x d → Q x d) :
    Walks k r c Q :=
  Runs.imp h fun x d post => ⟨post.1, imp x d post.1 post.2⟩

/-- A walk may be said to cost more. -/
theorem weaken (h : Walks a r c Q) (cost : a.within b = true) : Walks b r c Q :=
  Runs.weaken h cost

/-- Walks one behind the other, with the sum of their costs. -/
theorem bind {P : α → Cursor → Prop} {Q : β → Cursor → Prop} {f : α → Rule β}
    (h : Walks a r c P) (next : ∀ x d, Walk c d → P x d → Walks b (f x) d Q) :
    Walks (a.seq b) (r >>= f) c Q :=
  Runs.bind h fun x d post => Runs.imp (next x d post.1 post.2)
    fun _ _ post' => ⟨post.1.trans post'.1, post'.2⟩

/-- A walk with its answer put through a function. -/
theorem map {P : α → Cursor → Prop} {Q : β → Cursor → Prop} {f : α → β} (h : Walks k r c P)
    (made : ∀ x d, Walk c d → P x d → Q (f x) d) : Walks k (f <$> r) c Q :=
  Runs.map h fun x d post => ⟨post.1, made x d post.1 post.2⟩

/-- A choice between two walks. -/
theorem ite {p : Prop} [Decidable p] {x y : Rule α} (yes : p → Walks a x c Q)
    (no : ¬p → Walks b y c Q) : Walks (a.alt b) (if p then x else y) c Q :=
  Runs.ite yes no

/-- A walk by its first answer: each branch knows what the test found. -/
theorem branch {m : Cost} {P : Bool → Cursor → Prop} {t : Rule Bool} {x y : Rule α}
    (h : Walks a t c P) (yes : ∀ d, Walk c d → P true d → Walks b x d Q)
    (no : ∀ d, Walk c d → P false d → Walks m y d Q) :
    Walks (a.seq (b.alt m)) (t >>= fun z => if z = true then x else y) c Q :=
  h.bind fun _ d walk post =>
    .ite (fun e => yes d walk (e ▸ post)) fun e => no d walk (eq_false_of_ne_true e ▸ post)

/-- That the cursor is sound may be assumed. -/
theorem ofSound (h : c.Sound → Walks k r c Q) : Walks k r c Q := Runs.ofSound h

/-- A rule that goes on from the cursor itself. -/
theorem get {f : Cursor → Rule α} (h : Walks k (f c) c Q) : Walks k (MonadState.get >>= f) c Q :=
  fun peak sound need => h peak sound need

/-- That the rule comes back, and no more. -/
theorem back (h : Walks k r c Q) : Walks k r c fun _ _ => True := h.imp fun _ _ _ _ => trivial

end Walks

namespace Reads

variable {a b : Cost} {r : Rule α} {f : α → Rule β}

/-- A reading may be said to cost more. -/
theorem weaken (h : Reads a r c) (cost : a.within b = true) : Reads b r c := Walks.weaken h cost

/-- What comes behind a word that is read, knowing that it is. -/
theorem onward (h : Reads a r c)
    (next : ∀ x d, Walk c d → c.passed < d.passed → Walks b (f x) d fun _ _ => True) :
    Reads (a.seq b) (r >>= f) c :=
  Walks.bind h fun x d toD read => (next x d toD read).imp fun _ _ walk _ =>
    Nat.lt_of_lt_of_le read walk.frame.passed_le

/-- What comes behind a word that is read. -/
theorem bind (h : Reads a r c) (next : ∀ x, Safe b (f x)) : Reads (a.seq b) (r >>= f) c :=
  h.onward fun x d _ _ => next x d

/-- What may count on a word before it. -/
theorem later (h : Reads a r c) (next : ∀ x, Later b (f x)) : Reads (a.seq b) (r >>= f) c :=
  h.onward fun x d _ read => next x d (Nat.zero_lt_of_lt read)

/-- A turn that reads a word on the way from `c` and goes on. -/
theorem goesOn {r : Rule Unit} (h : Reads a r d) (walk : Walk c d) :
    Walks (a.seq .free) (do r; return true) d fun b e => b = true → c.passed < e.passed :=
  Walks.bind h fun _ _ _ read => .pure fun _ => Nat.lt_of_le_of_lt walk.frame.passed_le read

end Reads

namespace Safe

variable {a b : Cost} {r : Rule α}

/-- A constant is safe. -/
theorem pure (x : α) : Safe .free (Pure.pure x) := fun _ => .pure trivial

/-- Safe rules one behind the other. -/
theorem bind {f : α → Rule β} (h : Safe a r) (next : ∀ x, Safe b (f x)) :
    Safe (a.seq b) (r >>= f) :=
  fun c => (h c).bind fun x d _ _ => next x d

/-- A safe rule may be said to cost more. -/
theorem weaken (h : Safe a r) (cost : a.within b = true) : Safe b r :=
  fun c => (h c).weaken cost

/-- A choice of safe rules. -/
theorem ite {p : Prop} [Decidable p] {x y : Rule α} (yes : Safe a x) (no : Safe b y) :
    Safe (a.alt b) (if p then x else y) :=
  fun c => .ite (fun _ => yes c) fun _ => no c

/-- A branch by a safe test. -/
theorem branch {m : Cost} {t : Rule Bool} {x y : Rule α} (h : Safe a t) (yes : Safe b x)
    (no : Safe m y) : Safe (a.seq (b.alt m)) (t >>= fun z => if z = true then x else y) :=
  h.bind fun _ => yes.ite no

/-- A safe rule with its answer put through a function. -/
theorem map (f : α → β) (h : Safe a r) : Safe a (f <$> r) :=
  fun c => (h c).map fun _ _ _ _ => trivial

/-- Both tests, the second only behind the first. -/
theorem and {s t : Rule Bool} (h : Safe a s) (g : Safe b t) :
    Safe (a.seq (b.alt .free)) (s <&&> t) :=
  and_eq_branch s t ▸ h.branch g (.pure false)

end Safe

namespace Later

variable {a b : Cost} {r : Rule α}

/-- What is safe anywhere is safe behind a word. -/
theorem ofSafe (h : Safe a r) : Later a r := fun c _ => h c

theorem weaken (h : Later a r) (cost : a.within b = true) : Later b r :=
  fun c begun => (h c begun).weaken cost

/-- The first rule may be the one that needs a word behind it. -/
theorem bind {f : α → Rule β} (h : Later a r) (next : ∀ x, Later b (f x)) :
    Later (a.seq b) (r >>= f) :=
  fun c begun => (h c begun).bind fun x d toD _ =>
    next x d (Nat.lt_of_lt_of_le begun toD.frame.passed_le)

/-- A branch by a test that needs a word behind it. -/
theorem branch {m : Cost} {t : Rule Bool} {x y : Rule α} (h : Later a t) (yes : Later b x)
    (no : Later m y) : Later (a.seq (b.alt m)) (t >>= fun z => if z = true then x else y) :=
  h.bind fun _ c begun => .ite (fun _ => yes c begun) fun _ => no c begun

end Later

/-! ### Tests -/

/-- Two cursors that rules cannot tell apart by what is ahead, around and complained of. -/
structure Alike (c d : Cursor) : Prop where
  rest : d.rest = c.rest
  total : d.total = c.total
  passed : d.passed = c.passed
  refused : d.refused = c.refused
  openers : d.openers = c.openers
  complaints : d.complaints = c.complaints

namespace Alike

variable {e : Cursor}

/-- Every cursor is like itself. -/
theorem refl (c : Cursor) : Alike c c := ⟨rfl, rfl, rfl, rfl, rfl, rfl⟩

/-- Likeness is transitive. -/
theorem trans (h : Alike c d) (g : Alike d e) : Alike c e where
  rest := g.rest.trans h.rest
  total := g.total.trans h.total
  passed := g.passed.trans h.passed
  refused := g.refused.trans h.refused
  openers := g.openers.trans h.openers
  complaints := g.complaints.trans h.complaints

/-- Alike cursors have one floor. -/
theorem floor (h : Alike c d) : d.floor = c.floor := Cursor.floor_congr h.complaints

end Alike

/-- The cursor after at most `n` looks: the gap may be skipped, no more. -/
structure Looked (n : Nat) (c d : Cursor) : Prop extends Alike c d where
  walk : Walk c d
  left : c.looks ≤ d.looks + n

namespace Looked

variable {m n : Nat} {e : Cursor}

/-- No look leads from a cursor to itself. -/
theorem refl (c : Cursor) : Looked 0 c c := ⟨.refl c, .refl c, Nat.le_refl _⟩

/-- The looks of two steps add up. -/
theorem trans (h : Looked m c d) (g : Looked n d e) : Looked (m + n) c e where
  toAlike := h.toAlike.trans g.toAlike
  walk := h.walk.trans g.walk
  left := by have := h.left; have := g.left; omega

/-- At most so many looks are at most more. -/
theorem weaken (h : Looked m c d) (le : m ≤ n) : Looked n c d :=
  { h with left := Nat.le_trans h.left (by omega) }

/-- A cost of `n` looks covers them. -/
theorem covers (h : Looked n c d) : (Cost.looks n).Covers c d :=
  .inl ⟨h.passed, n, rfl, h.left⟩

end Looked

/-- A test answers `v` of the words ahead and the budget after at most `n` looks. -/
def Asks (n : Nat) (t : Rule β) (v : List Word → Option Limit → β) : Prop :=
  ∀ c, n ≤ c.looks → ∃ d, t.run c = .ok (v c.rest c.refused, d) ∧ Looked n c d

namespace Asks

variable {m n : Nat} {t : Rule β} {v : List Word → Option Limit → β}

/-- A constant asks nothing. -/
theorem pure (x : β) : Asks 0 (Pure.pure x) fun _ _ => x :=
  fun c _ => ⟨c, rfl, .refl c⟩

/-- Questions one behind the other, with the sum of their looks. -/
theorem bind {γ : Type} {f : β → Rule γ} {u : β → List Word → Option Limit → γ} (h : Asks m t v)
    (next : ∀ x, Asks n (f x) (u x)) : Asks (m + n) (t >>= f) fun ws l => u (v ws l) ws l := by
  intro c enough
  obtain ⟨d, run, looked⟩ := h c (by omega)
  obtain ⟨e, run', looked'⟩ := next (v c.rest c.refused) d (by have := looked.left; omega)
  refine ⟨e, ?_, looked.trans looked'⟩
  rw [StateT.run_bind, run]
  rw [looked.rest, looked.refused] at run'
  exact run'

/-- The answer, put through a function. -/
theorem map {γ : Type} (f : β → γ) (h : Asks n t v) : Asks n (f <$> t) fun ws l => f (v ws l) := by
  intro c enough
  obtain ⟨d, run, looked⟩ := h c enough
  refine ⟨d, ?_, looked⟩
  rw [StateT.run_map, run]
  rfl

theorem weaken (h : Asks m t v) (le : m ≤ n) : Asks n t v := by
  intro c enough
  obtain ⟨d, run, looked⟩ := h c (Nat.le_trans le enough)
  exact ⟨d, run, looked.weaken le⟩

/-- A choice takes at most the greater number of looks. -/
theorem ite {p : Prop} [Decidable p] {s : Rule β} {u : List Word → Option Limit → β}
    (h : Asks m t v) (g : Asks n s u) :
    Asks (max m n) (if p then t else s) fun ws l => if p then v ws l else u ws l := by
  split
  · exact h.weaken (Nat.le_max_left _ _)
  · exact g.weaken (Nat.le_max_right _ _)

/-- The conjunction of two questions. -/
theorem and {s t : Rule Bool} {u v : List Word → Option Limit → Bool} (h : Asks m t v)
    (g : Asks n s u) : Asks (m + n) (t <&&> s) fun ws l => v ws l && u ws l := by
  refine h.bind (u := fun b ws l => b && u ws l) fun b => ?_
  cases b with
  | false => exact (Asks.pure false).weaken (Nat.zero_le n)
  | true => exact g

/-- The disjunction of two questions. -/
theorem or {s t : Rule Bool} {u v : List Word → Option Limit → Bool} (h : Asks m t v)
    (g : Asks n s u) : Asks (m + n) (t <||> s) fun ws l => v ws l || u ws l := by
  refine h.bind (u := fun b ws l => b || u ws l) fun b => ?_
  cases b with
  | false => exact g
  | true => exact (Asks.pure true).weaken (Nat.zero_le n)

/-- A test comes back like any rule, and what it answers is known. -/
theorem runs (h : Asks n t v) (c : Cursor) :
    Runs (.looks n) t c fun x d => x = v c.rest c.refused ∧ Looked n c d := by
  intro _ sound need
  obtain ⟨d, run, looked⟩ := h c need
  exact ⟨_, d, run, looked.walk.sound sound, looked.covers, rfl, looked⟩

/-- A question is a walk that only looks. -/
theorem walks (h : Asks n t v) (c : Cursor) :
    Walks (.looks n) t c fun x d => x = v c.rest c.refused ∧ Looked n c d :=
  (h.runs c).imp fun _ _ post => ⟨post.2.walk, post⟩

/-- A question is safe. -/
theorem safe (h : Asks n t v) : Safe (.looks n) t := fun c => (h.walks c).back

/-- A rule that goes on from the answer of a test. -/
theorem runsOn {k : Cost} {f : β → Rule α} {Q : α → Cursor → Prop} (h : Asks n t v)
    (next : ∀ d, Looked n c d → Runs k (f (v c.rest c.refused)) d Q) :
    Runs ((Cost.looks n).seq k) (t >>= f) c Q :=
  (h.runs c).bind fun _ d post => post.1 ▸ next d post.2

/-- A rule that goes on from the answer to a question. -/
theorem walksOn {k : Cost} {f : β → Rule α} {Q : α → Cursor → Prop} (h : Asks n t v)
    (next : ∀ d, Looked n c d → Walks k (f (v c.rest c.refused)) d Q) :
    Walks ((Cost.looks n).seq k) (t >>= f) c Q :=
  (h.walks c).bind fun _ d _ post => post.1 ▸ next d post.2

end Asks

/-- A test of which it does not matter what it answers. -/
def Tests (n : Nat) (t : Rule β) : Prop := ∃ v, Asks n t v

namespace Tests

variable {m n : Nat} {t : Rule β}

/-- A constant tests nothing. -/
theorem pure (x : β) : Tests 0 (Pure.pure x) := ⟨_, .pure x⟩

/-- Tests one behind the other. -/
theorem bind {γ : Type} {f : β → Rule γ} (h : Tests m t) (next : ∀ x, Tests n (f x)) :
    Tests (m + n) (t >>= f) := by
  obtain ⟨v, asks⟩ := h
  exact ⟨_, asks.bind fun x => (next x).choose_spec⟩

/-- A choice between tests. -/
theorem ite {p : Prop} [Decidable p] {s : Rule β} (h : Tests m t) (g : Tests n s) :
    Tests (max m n) (if p then t else s) := by
  obtain ⟨v, asks⟩ := h
  obtain ⟨u, asks'⟩ := g
  exact ⟨_, asks.ite asks'⟩

theorem weaken (h : Tests m t) (le : m ≤ n) : Tests n t := by
  obtain ⟨v, asks⟩ := h
  exact ⟨v, asks.weaken le⟩

/-- A test is a walk that only looks. -/
theorem walks (h : Tests n t) (c : Cursor) : Walks (.looks n) t c fun _ d => Looked n c d := by
  obtain ⟨v, asks⟩ := h
  exact (asks.walks c).imp fun _ _ _ post => post.2

/-- A test behind another one, without which it finds nothing. -/
theorem guarded {s : Rule Bool} {v : List Word → Option Limit → Bool} {t : Rule Bool}
    (h : Asks m t v) (g : Tests n s) :
    ∃ u, Asks (m + n) (do if !(← t) then return false else s) u ∧
      ∀ ws l, u ws l = true → v ws l = true := by
  obtain ⟨w, asks⟩ := g
  refine ⟨fun ws l => if (!v ws l) = true then false else w ws l,
    h.bind (u := fun b ws l => if (!b) = true then false else w ws l) fun b => ?_, ?_⟩
  · exact ((Asks.pure false).ite asks).weaken (by omega)
  · intro ws l found
    by_cases e : v ws l = true
    · exact e
    · simp [e] at found

end Tests

end ImplicitGlobals.Grammar
