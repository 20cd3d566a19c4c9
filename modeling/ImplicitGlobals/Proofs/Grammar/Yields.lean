import ImplicitGlobals.Grammar.Balanced
import ImplicitGlobals.Proofs.Grammar.Building

/-!
# What rules come back with

`Yields r c Q` says that whatever the rule comes back with from `c` meets `Q`; that it comes back
is said elsewhere. Nothing is counted here, so a rule is followed from its text alone: the tests
give their answers and leave the cursor as it was, and a word that is read is the next one.
-/

namespace ImplicitGlobals.Grammar

variable {α β : Type} {c d : Cursor}

/-- Whatever the rule comes back with from `c` meets `Q`. -/
def Yields (r : Rule α) (c : Cursor) (Q : α → Cursor → Prop) : Prop :=
  ∀ x d, r.run c = .ok (x, d) → Q x d

/-- A rule that goes on from another one comes back when both do. -/
theorem run_bind_eq_ok {r : Rule α} {f : α → Rule β} {y : β} (h : (r >>= f).run c = .ok (y, d)) :
    ∃ x e, r.run c = .ok (x, e) ∧ (f x).run e = .ok (y, d) := by
  rw [StateT.run_bind] at h
  cases run : r.run c with
  | error b => simp [run, bind, Except.bind] at h
  | ok out => exact ⟨out.1, out.2, rfl, by simpa [run, bind, Except.bind] using h⟩

namespace Yields

variable {r : Rule α} {P Q : α → Cursor → Prop}

/-- A value that is returned is what comes back, and the cursor stays. -/
theorem pure {x : α} (h : Q x c) : Yields (Pure.pure x) c Q := by
  intro y d run
  cases run
  exact h

/-- What comes back may be said less exactly. -/
theorem imp (h : Yields r c P) (imp : ∀ x d, P x d → Q x d) : Yields r c Q :=
  fun x d run => imp x d (h x d run)

/-- What the second rule yields is asked from wherever the first one ends. -/
theorem bind {Q : β → Cursor → Prop} {f : α → Rule β} (h : Yields r c P)
    (next : ∀ x d, P x d → Yields (f x) d Q) : Yields (r >>= f) c Q := by
  intro y d run
  obtain ⟨x, e, first, rest⟩ := run_bind_eq_ok run
  exact next x e (h x e first) y d rest

/-- A mapped answer is described before the map. -/
theorem map {Q : β → Cursor → Prop} {f : α → β} (h : Yields r c fun x d => Q (f x) d) :
    Yields (f <$> r) c Q := by
  rw [← bind_pure_comp]
  exact h.bind fun _ _ post => .pure post

/-- Of a choice only the branch that is taken has to be described. -/
theorem ite {p : Prop} [Decidable p] {s t : Rule α} (yes : p → Yields s c Q)
    (no : ¬p → Yields t c Q) :
    Yields (if p then s else t) c Q := by
  split
  · exact yes ‹_›
  · exact no ‹_›

/-- A rule that goes on from the cursor itself. -/
theorem get {f : Cursor → Rule α} (h : Yields (f c) c Q) : Yields (MonadState.get >>= f) c Q := h

/-- A change of the cursor yields the changed cursor. -/
theorem modify {f : Cursor → Cursor} {Q : PUnit → Cursor → Prop} (h : Q ⟨⟩ (f c)) :
    Yields (modify f) c Q := by
  intro x d run
  cases run
  exact h

/-- A breach comes back with nothing, so anything is true of it. -/
theorem throw (b : Breach) : Yields (throw b : Rule α) c Q := by
  intro x d run
  cases run

end Yields

/-! ### Tests -/

/-- Two cursors between which nothing was done but look; levels of nesting do not count. -/
def Same (c d : Cursor) : Prop := ∃ gap looks depth, d = { c with gap, looks, depth }

namespace Same

variable {e : Cursor}

/-- Nothing was done at all. -/
theorem refl (c : Cursor) : Same c c := ⟨c.gap, c.looks, c.depth, rfl⟩

/-- Looking twice is looking. -/
theorem trans (h : Same c d) (g : Same d e) : Same c e := by
  obtain ⟨_, _, _, rfl⟩ := h
  obtain ⟨gap, looks, depth, rfl⟩ := g
  exact ⟨gap, looks, depth, rfl⟩

end Same

/-- Nothing was complained of, and no budget is spent. -/
structure Cursor.Tidy (c : Cursor) : Prop where
  complaints : c.complaints = []
  lastPlace : c.lastPlace = none
  refused : c.refused = none

/-- What looking finds tidy was tidy before. -/
theorem Same.tidy (h : Same c d) (tidy : d.Tidy) : c.Tidy := by
  obtain ⟨_, _, _, rfl⟩ := h
  exact ⟨tidy.complaints, tidy.lastPlace, tidy.refused⟩

/-- A test answers `v` of the words ahead and the budget, and leaves the cursor as it was. -/
def Answers (t : Rule β) (v : List Word → Option Limit → β) : Prop :=
  ∀ c, Yields t c fun x d => x = v c.rest c.refused ∧ Same c d

namespace Answers

variable {t : Rule β} {v : List Word → Option Limit → β}

/-- A constant answers itself. -/
theorem pure (x : β) : Answers (Pure.pure x) fun _ _ => x := fun c => .pure ⟨rfl, .refl c⟩

/-- One question after another, where the second may depend on the first answer. -/
theorem bind {γ : Type} {f : β → Rule γ} {u : β → List Word → Option Limit → γ} (h : Answers t v)
    (next : ∀ x, Answers (f x) (u x)) : Answers (t >>= f) fun ws l => u (v ws l) ws l := by
  intro c
  refine (h c).bind fun x d post => ?_
  obtain ⟨rfl, gap, looks, depth, rfl⟩ := post
  exact (next _ _).imp fun _ _ post => ⟨post.1, .trans ⟨gap, looks, depth, rfl⟩ post.2⟩

/-- The answer, put through a function. -/
theorem map {γ : Type} (f : β → γ) (h : Answers t v) : Answers (f <$> t) fun ws l => f (v ws l) :=
  fun c => .map ((h c).imp fun _ _ post => ⟨congrArg f post.1, post.2⟩)

/-- A choice between two questions. -/
theorem ite {p : Prop} [Decidable p] {s : Rule β} {u : List Word → Option Limit → β}
    (h : Answers t v) (g : Answers s u) :
    Answers (if p then t else s) fun ws l => if p then v ws l else u ws l := by
  split
  · exact h
  · exact g

/-- The second question is asked only if the first says yes; the answer is the conjunction. -/
theorem and {s t : Rule Bool} {u v : List Word → Option Limit → Bool} (h : Answers t v)
    (g : Answers s u) : Answers (t <&&> s) fun ws l => v ws l && u ws l := by
  refine h.bind (u := fun b ws l => b && u ws l) fun b => ?_
  cases b with
  | false => exact .pure false
  | true => exact g

/-- The second question is asked only if the first says no; the answer is the disjunction. -/
theorem or {s t : Rule Bool} {u v : List Word → Option Limit → Bool} (h : Answers t v)
    (g : Answers s u) : Answers (t <||> s) fun ws l => v ws l || u ws l := by
  refine h.bind (u := fun b ws l => b || u ws l) fun b => ?_
  cases b with
  | false => exact g
  | true => exact .pure true

/-- A test that is made only where another one finds something. -/
theorem guarded {s t : Rule Bool} {u v : List Word → Option Limit → Bool} (h : Answers t v)
    (g : Answers s u) : Answers (do if !(← t) then return false else s) fun ws l =>
        v ws l && u ws l := by
  refine h.bind (u := fun b ws l => b && u ws l) fun b => ?_
  cases b with
  | false => exact .pure false
  | true => exact g

/-- What the first test finds holds where the second finds something. -/
theorem exists_guarded {s t : Rule Bool} {v : List Word → Bool} {p : List Word → Prop}
    (h : Answers t fun ws _ => v ws) (finds : ∀ ws, v ws = true → p ws)
    (g : ∃ u : List Word → Bool, Answers s fun ws _ => u ws) :
    ∃ u : List Word → Bool, (Answers (do if !(← t) then return false else s) fun ws _ => u ws) ∧
      ∀ ws, u ws = true → p ws := by
  obtain ⟨u, g⟩ := g
  exact ⟨fun ws => v ws && u ws, h.guarded g, fun ws found =>
    finds ws (Bool.and_eq_true_iff.1 found).1⟩

/-- Questions about the words alone compose to one. -/
theorem exists_bind {γ : Type} {v : List Word → β} {f : β → Rule γ} (h : Answers t fun ws _ => v ws)
    (next : ∀ x, ∃ u : List Word → γ, Answers (f x) fun ws _ => u ws) :
    ∃ u : List Word → γ, Answers (t >>= f) fun ws _ => u ws :=
  ⟨fun ws => (next (v ws)).choose ws, h.bind fun x => (next x).choose_spec⟩

/-- The opposite of an answer. -/
theorem not {t : Rule Bool} {v : List Word → Option Limit → Bool} (h : Answers t v) :
    Answers ((!·) <$> t) fun ws l => !v ws l := h.map (!·)

end Answers

/-- Looking skips the gap and costs a look. -/
theorem look_steps (c : Cursor) :
    Yields look c fun _ d => ∃ looks, d = { c.skipGap with looks } := by
  intro x d run
  cases enough : c.looks with
  | zero => simp [look, skipGap, Cursor.skipGap, enough] at run; cases run
  | succ n =>
    rw [look_run (by omega)] at run
    cases run
    exact ⟨_, rfl⟩

/-- Looking `n` words ahead skips the gap and takes one look. -/
theorem peek_steps (n : Nat) (c : Cursor) : Yields (peek n) c fun x d =>
    x = c.rest[n]? ∧ ∃ looks, d = { c.skipGap with looks } :=
  (look_steps c).bind fun _ d stepped => by
    obtain ⟨looks, rfl⟩ := stepped
    exact .pure ⟨rfl, looks, rfl⟩

/-- The place of the current word is the number of words read. -/
theorem mark_steps (c : Cursor) : Yields mark c fun i d =>
    i = c.passed ∧ ∃ looks, d = { c.skipGap with looks } :=
  (look_steps c).bind fun _ d stepped => by
    obtain ⟨looks, rfl⟩ := stepped
    exact .pure ⟨rfl, looks, rfl⟩

/-- The word `n` places on, if there is one. -/
theorem peek_answers (n : Nat) : Answers (peek n) fun ws _ => ws[n]? := fun c =>
  (peek_steps n c).imp fun _ _ stepped => by
    obtain ⟨rfl, looks, rfl⟩ := stepped
    exact ⟨rfl, _, _, _, rfl⟩

/-- The kind of that word. -/
theorem kindAt_answers (n : Nat) : Answers (kindAt n) fun ws _ => kindIn ws n :=
  (peek_answers n).map (Option.map Word.kind)

/-- The kind of the current word. -/
theorem current_answers : Answers current fun ws _ => kindIn ws 0 := kindAt_answers 0

theorem currentIs_answers (kind : TokenKind) :
    Answers (currentIs kind) fun ws _ => kindIn ws 0 == some kind :=
  current_answers.map (· == some kind)

theorem currentIn_answers (set : KindSet) :
    Answers (currentIn set) fun ws _ => (kindIn ws 0).any set.holds :=
  current_answers.map fun k : Option TokenKind => k.any set.holds

/-- The text of the current word, empty at the end. -/
theorem currentText_answers : Answers currentText fun ws _ => (ws[0]?.map (·.text)).getD "" :=
  (peek_answers 0).map fun w : Option Word => (w.map Word.text).getD ""

theorem nthIs_answers (n : Nat) (kind : TokenKind) :
    Answers (nthIs n kind) fun ws _ => kindIn ws n == some kind :=
  (kindAt_answers n).map (· == some kind)

theorem nextIs_answers (kind : TokenKind) :
    Answers (nextIs kind) fun ws _ => kindIn ws 1 == some kind := nthIs_answers 1 kind

/-- Whether the word `n` places on is spelt so. -/
theorem nthIsWord_answers (n : Nat) (text : String) :
    Answers (nthIsWord n text) fun ws _ => spells ws n text :=
  (peek_answers n).map fun w : Option Word => w.any fun v : Word => v.isWord text

theorem atWord_answers (text : String) : Answers (atWord text) fun ws _ => spells ws 0 text :=
  nthIsWord_answers 0 text

theorem nthIsKeyword_answers (n : Nat) (k : Keyword) :
    Answers (nthIsKeyword n k) fun ws _ => spells ws n k.word := nthIsWord_answers n k.word

/-- Whether the current word is the keyword. -/
theorem atKeyword_answers (k : Keyword) : Answers (atKeyword k) fun ws _ => spells ws 0 k.word :=
  nthIsKeyword_answers 0 k

/-- The end is where no word is left, or the budget is spent. -/
theorem atEnd_answers : Answers atEnd fun ws l => ws.isEmpty || l.isSome := by
  intro c x d run
  cases run
  exact ⟨rfl, _, _, _, rfl⟩

/-- Whether a line break stands before the current word. -/
theorem onFreshLine_answers : Answers onFreshLine fun ws _ => ws.head?.any (·.freshLine) := by
  intro c x d run
  cases run
  exact ⟨rfl, _, _, _, rfl⟩

/-- Whether the budget is spent. -/
theorem isRefused_answers : Answers isRefused fun _ l => l.isSome := by
  intro c x d run
  cases run
  exact ⟨rfl, .refl _⟩

theorem mark_yields (c : Cursor) : Yields mark c fun i d => i = c.passed ∧ Same c d :=
  (mark_steps c).imp fun _ _ stepped => by
    obtain ⟨rfl, looks, rfl⟩ := stepped
    exact ⟨rfl, _, _, _, rfl⟩

/-- A complaint is there to stay, and where there is none an earlier one was made. -/
theorem complain_spoils (k : Nat → Option Nat → Complaint) (c : Cursor) :
    Yields (complain k) c fun _ d => ¬d.Tidy := by
  refine (mark_yields c).bind fun i d post => .modify fun tidy => ?_
  obtain ⟨-, _, _, _, rfl⟩ := post
  split at tidy
  · next same => exact absurd (same.symm.trans tidy.lastPlace) (by simp)
  · cases tidy.lastPlace

/-- The current word is no keyword. -/
def AtPlain (ws : List Word) : Prop := ∀ w ∈ ws.head?, w.kind = .ident →
    Keyword.ofWord? w.text = none

/-- Whether a statement begins is only looked up, and none begins at a word that is no keyword. -/
theorem atStatementStart_yields (c : Cursor) :
    Yields atStatementStart c fun b d => Same c d ∧ (AtPlain c.rest → b = false) := by
  refine (current_answers c).bind fun kind d asked => ?_
  obtain ⟨rfl, same⟩ := asked
  refine .ite (fun _ => .pure ⟨same, fun _ => rfl⟩) fun ident => ?_
  have ident : kindIn c.rest 0 = some .ident := Classical.not_not.1 ident
  refine (currentText_answers d).bind fun text e asked => ?_
  obtain ⟨rfl, same'⟩ := asked
  have whole := same.trans same'
  have looks {t : Rule Bool} {v : List Word → Option Limit → Bool} (h : Answers t v) {k : Keyword}
      (spelt : Keyword.ofWord? ((d.rest[0]?.map (·.text)).getD "") = some k) :
      Yields t e fun b f => Same c f ∧ (AtPlain c.rest → b = false) := by
    refine (h e).imp fun b f post => ⟨whole.trans post.2, fun plain => ?_⟩
    obtain ⟨w, ws, rest, kind⟩ := exists_of_kindIn ident
    obtain ⟨_, _, _, rfl⟩ := same
    simp [rest, plain w (by simp [rest]) kind] at spelt
  have next (f : Option TokenKind → Bool) := (kindAt_answers 1).bind fun k => .pure (f k)
  cases spelt : Keyword.ofWord? ((d.rest[0]?.map (·.text)).getD "") with
  | none => exact .pure ⟨whole, fun _ => rfl⟩
  | some k =>
    cases k with
    | kwAbstract => exact looks (nthIsWord_answers 1 "class") spelt
    | kwGlobal => exact looks (nextIs_answers .braceOpen) spelt
    | kwExport => exact looks (.pure true) spelt
    | kwVar | kwLet | kwConst | kwFunction | kwModule | kwImport => exact looks (next _) spelt
    | kwDeclare | kwInterface | kwEnum | kwType | kwNamespace | kwClass =>
      exact looks (nextIs_answers .ident) spelt
    | kwDefault | kwFrom | kwAs | kwExtends | kwImplements | kwRequire =>
        exact .pure ⟨whole, fun _ => rfl⟩

/-- Where a run may end is only looked up. -/
theorem runEnds_yields (stop : KindSet) (mode : RunMode) (consumed : Bool) (kind : Option TokenKind)
    (c : Cursor) : Yields (runEnds stop mode consumed kind) c fun _ d => True ∧ Same c d := by
  refine .ite (fun _ => .pure ⟨trivial, .refl c⟩) fun _ =>
      .ite (fun _ => .pure ⟨trivial, .refl c⟩) fun _ => ?_
  rw [and_eq_branch, pure_bind]
  refine .ite (fun _ => ?_) fun _ => .pure ⟨trivial, .refl c⟩
  exact (atStatementStart_yields c).imp fun _ _ post => ⟨trivial, post.1⟩

/-! ### Reading -/

/-- The word that is current at `c` was read under the label, behind the gap before it. -/
structure Took (label : LeafKind) (w : Word) (c d : Cursor) : Prop where
  rest : c.rest = w :: d.rest
  passed : d.passed = c.passed + 1
  parts : ∃ gap : Gap, d.parts.toList = c.parts.toList ++ (gap.due c.passed).toList ++
      [.leaf (.word c.passed label)]
  opened : d.opened = c.opened
  openers : d.openers = c.openers
  total : d.total = c.total
  complaints : d.complaints = c.complaints
  lastPlace : d.lastPlace = c.lastPlace
  refused : d.refused = none → c.refused = none
  /-- Without bounds nothing is paid. -/
  unbounded : c.budget = {} → d.budget = {} ∧ d.refused = c.refused

/-- A word is read without a complaint. -/
theorem Took.tidy {label : LeafKind} {w : Word} (h : Took label w c d) (tidy : d.Tidy) :
    c.Tidy where
  complaints := h.complaints ▸ tidy.complaints
  lastPlace := h.lastPlace ▸ tidy.lastPlace
  refused := h.refused tidy.refused

/-- Paying for a word changes the budget alone, and an empty budget not at all. -/
theorem payWord_yields (c : Cursor) : Yields payWord c fun _ d =>
    ∃ budget refused, d = { c with budget, refused } ∧ (refused = none → c.refused = none) ∧
      (c.budget = {} → budget = {} ∧ refused = c.refused) := by
  intro x d run
  cases h : c.budget.words with
  | none =>
    have stay : payWord.run c = .ok ((), c) := by simp [payWord, h]; rfl
    cases stay.symm.trans run
    exact ⟨_, _, rfl, id, fun free => ⟨free, rfl⟩⟩
  | some n =>
    have bounded : c.budget ≠ {} := fun free => by simp [free] at h
    cases n with
    | zero =>
      have spent : payWord.run c = .ok ((), { c with refused := c.refused.or (some .words) }) := by
        simp [payWord, refuse, h]; rfl
      cases spent.symm.trans run
      exact ⟨_, _, rfl, by simp, fun free => absurd free bounded⟩
    | succ n =>
      have paid : payWord.run c = .ok ((), { c with budget.words := some n }) := by
        simp [payWord, h]; rfl
      cases paid.symm.trans run
      exact ⟨_, _, rfl, id, fun free => absurd free bounded⟩

/-- Looking before a word is read makes no difference. -/
theorem Took.ofSame {e : Cursor} {label : LeafKind} {w : Word} (same : Same c d)
    (h : Took label w d e) :
    Took label w c e := by
  obtain ⟨_, _, _, rfl⟩ := same
  exact { h with }

/-- A word is read under the label that is asked for. -/
theorem takeAs_yields (label : LeafKind) (c : Cursor) :
    Yields (takeAs label) c fun _ d => ∃ w, Took label w c d := by
  refine (peek_answers 0 c).bind fun found d post => ?_
  obtain ⟨rfl, gap, looks, depth, rfl⟩ := post
  refine .ite (fun _ => (Yields.throw _).bind fun _ _ none => none) fun some => ?_
  refine (payWord_yields _).bind fun _ e paid => ?_
  obtain ⟨budget, refused, rfl, kept, unbounded⟩ := paid
  refine .modify ?_
  cases rest : c.rest with
  | nil => simp [rest] at some
  | cons w ws =>
    refine ⟨w, ?_, rfl, ⟨gap, Cursor.toList_parts_read ..⟩, rfl, rfl, rfl, rfl, rfl,
        kept, unbounded⟩
    simp [Cursor.read, Cursor.placeGap, rest]

/-- A word is read as what it is. -/
theorem bump_yields (c : Cursor) : Yields bump c fun _ d => ∃ w, Took (.token w.kind) w c d := by
  refine (current_answers c).bind fun kind d post => ?_
  obtain ⟨rfl, same⟩ := post
  refine (takeAs_yields _ d).imp fun _ e took => ?_
  obtain ⟨w, took⟩ := took
  have took := took.ofSame same
  have kind : kindIn c.rest 0 = some w.kind := by simp [kindIn, took.rest]
  exact ⟨w, by simpa [kind] using took⟩

theorem takeKeyword_yields (k : Keyword) (c : Cursor) :
    Yields (takeKeyword k) c fun _ d => ∃ w, Took (.keyword k) w c d := takeAs_yields _ c

/-- An identifier is read as the keyword that it spells, or as what it is. -/
def wordLabel (w : Word) : LeafKind := (Keyword.ofWord? w.text).elim (.token .ident) .keyword

/-- A word is read as the keyword that it spells, if it spells one. -/
theorem bumpKeyword_yields (c : Cursor) : Yields bumpKeyword c fun _ d =>
    ∃ w, Took (wordLabel w) w c d := by
  refine (currentText_answers c).bind fun text d post => ?_
  obtain ⟨rfl, same⟩ := post
  refine (takeAs_yields _ d).imp fun _ e took => ?_
  obtain ⟨w, took⟩ := took
  have took := took.ofSame same
  have text : (c.rest[0]?.map (·.text)).getD "" = w.text := by simp [took.rest]
  exact ⟨w, by simpa [text, wordLabel] using took⟩

/-- What `bump` reads is one word, whatever its label. -/
theorem bump_one (c : Cursor) : Yields bump c fun _ d => ∃ w label, Took label w c d :=
  (bump_yields c).imp fun _ _ ⟨w, took⟩ => ⟨w, _, took⟩

theorem takeKeyword_one (k : Keyword) (c : Cursor) :
    Yields (takeKeyword k) c fun _ d => ∃ w label, Took label w c d :=
  (takeKeyword_yields k c).imp fun _ _ ⟨w, took⟩ => ⟨w, _, took⟩

theorem bumpKeyword_one (c : Cursor) :
    Yields bumpKeyword c fun _ d => ∃ w label, Took label w c d :=
  (bumpKeyword_yields c).imp fun _ _ ⟨w, took⟩ => ⟨w, _, took⟩

/-- What a rule that reads at most one word comes back with. -/
def Eaten (is : Word → Prop) (label : LeafKind) (c : Cursor) (read : Bool) (d : Cursor) : Prop :=
  if read = true then ∃ w, is w ∧ Took label w c d else Same c d ∧ ∀ w ∈ c.rest.head?, ¬is w

/-- The word is read if it is of the kind, and otherwise nothing is. -/
theorem eat_yields (kind : TokenKind) (c : Cursor) :
    Yields (eat kind) c (Eaten (·.kind = kind) (.token kind) c) := by
  refine (currentIs_answers kind c).bind fun b d post => ?_
  obtain ⟨is, same⟩ := post
  cases b with
  | true =>
    refine (bump_yields d).bind fun _ e took => ?_
    obtain ⟨w, took⟩ := took
    have took := took.ofSame same
    have found : w.kind = kind := by simpa [kindIn, took.rest] using is.symm
    exact .pure ⟨w, found, found ▸ took⟩
  | false =>
    refine .pure ⟨same, fun w mem other => ?_⟩
    cases rest : c.rest with
    | nil => simp [rest] at mem
    | cons v ws => simp_all [kindIn]

/-- The word is read if it spells the keyword, and otherwise nothing is. -/
theorem eatKeyword_yields (k : Keyword) (c : Cursor) :
    Yields (eatKeyword k) c (Eaten (·.isWord k.word) (.keyword k) c) := by
  refine (atKeyword_answers k c).bind fun b d post => ?_
  obtain ⟨is, same⟩ := post
  cases b with
  | true =>
    refine (takeKeyword_yields k d).bind fun _ e took => ?_
    obtain ⟨w, took⟩ := took
    have took := took.ofSame same
    exact .pure ⟨w, by simpa [spells, took.rest] using is.symm, took⟩
  | false =>
    refine .pure ⟨same, fun w mem other => ?_⟩
    cases rest : c.rest with
    | nil => simp [rest] at mem
    | cons v ws => simp_all [spells]

/-! ### Nodes -/

/-- A node is opened at an earlier point. -/
theorem startNodeAt_yields (point : Checkpoint) (kind : NodeKind) (c : Cursor) :
    Yields (startNodeAt point kind) c fun _ d => d = c.openNode kind point := by
  refine .get (.ite (fun _ => (Yields.throw _).bind fun _ _ none => none) fun _ => ?_)
  intro x d run
  cases run
  rfl

/-- The innermost node is closed. -/
theorem finishNode_yields (c : Cursor) :
    Yields finishNode c fun _ d => ∃ o os, c.opened = o :: os ∧ d = c.closeNode o.kind o.first := by
  intro x d run
  cases opened : c.opened with
  | nil =>
    have fails : finishNode.run c = .error .notBegun := by simp [finishNode, opened]; rfl
    cases fails.symm.trans run
  | cons o os =>
    cases (finishNode_run opened).symm.trans run
    exact ⟨o, os, rfl, rfl⟩

/-- A node holds what comes behind its beginning. -/
theorem nodeAt_yields {point : Checkpoint} {kind : NodeKind} {body : Rule Unit} {Q : Cursor → Prop}
    (h : Yields body (c.openNode kind point) fun _ e => Q e) :
    Yields (nodeAt point kind body) c fun _ d =>
      ∃ e o os, Q e ∧ e.opened = o :: os ∧ d = e.closeNode o.kind o.first := by
  refine (startNodeAt_yields point kind c).bind fun _ d start => ?_
  subst start
  refine h.bind fun _ e post => (finishNode_yields e).imp fun _ d closed => ?_
  obtain ⟨o, os, opened, rfl⟩ := closed
  exact ⟨e, o, os, post, opened, rfl⟩

/-- A node is opened behind the gap, and closed when its body comes back. -/
theorem node_yields {kind : NodeKind} {body : Rule Unit} {Q : Cursor → Prop}
    (h : Yields body (c.placeGap.openNode kind c.placeGap.parts.size) fun _ e => Q e) :
    Yields (node kind body) c fun _ d =>
      ∃ e o os, Q e ∧ e.opened = o :: os ∧ d = e.closeNode o.kind o.first := by
  have start : Yields (startNode kind) c fun _ d =>
      d = c.placeGap.openNode kind c.placeGap.parts.size :=
    fun x d run => by cases run; rfl
  refine start.bind fun _ d start => ?_
  subst start
  refine h.bind fun _ e post => (finishNode_yields e).imp fun _ d closed => ?_
  obtain ⟨o, os, opened, rfl⟩ := closed
  exact ⟨e, o, os, post, opened, rfl⟩

/-! ### Nesting -/

/-- A level is entered, or the budget for it is spent. -/
theorem descend_yields (c : Cursor) : Yields descend c fun b d =>
    if b = true then Same c d else c.budget.nesting ≠ none ∧ d.refused ≠ none := by
  refine .get (.ite (fun spent => ?_) fun _ => ?_)
  · intro x d run
    cases run
    refine ⟨fun free => by simp [free] at spent, ?_⟩
    cases c.refused <;> simp
  · intro x d run
    cases run
    exact ⟨_, _, _, rfl⟩

/-- Leaving a level is nothing but a step of the depth. -/
theorem ascend_yields (c : Cursor) : Yields ascend c fun _ d => Same c d :=
  .modify ⟨_, _, _, rfl⟩

/-- A delimiter is remembered with its place. -/
theorem pushOpener_yields (kind : TokenKind) (c : Cursor) :
    Yields (pushOpener kind) c fun _ d => ∃ gap looks depth openers,
        d = { c with gap, looks, depth, openers } := by
  refine (mark_yields c).bind fun i d post => .modify ?_
  obtain ⟨-, gap, looks, depth, rfl⟩ := post
  exact ⟨gap, looks, depth, _, rfl⟩

/-! ### Loops -/

section

variable {σ : Type} {step : σ → Rule (Turn σ)} {I Q : σ → Cursor → Prop}

theorem rounds_yields
    (turn : ∀ s c, I s c → Yields (step s) c fun
      | .again s', d => I s' d
      | .done s', d => Q s' d) (n : Nat) :
    ∀ s c, I s c → Yields (rounds step n s) c Q := by
  induction n with
  | zero => exact fun s c _ => .throw _
  | succ n ih =>
    intro s c inv
    refine (turn s c inv).bind fun t d post => ?_
    cases t with
    | again s' => exact ih s' d post
    | done s' => exact .pure post

/-- What every round keeps holds behind the loop. -/
theorem loop_yields {s : σ} (start : I s c)
    (turn : ∀ s c, I s c → Yields (step s) c fun
      | .again s', d => I s' d
      | .done s', d => Q s' d) :
    Yields (loop s step) c Q :=
  .get (rounds_yields turn _ s c start)

end

end ImplicitGlobals.Grammar
