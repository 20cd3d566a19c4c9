import ImplicitGlobals.Grammar.Statement
import ImplicitGlobals.Proofs.Acceptance.Logic
import ImplicitGlobals.Proofs.Syntax.Places

/-!
# Relations between rules

A relation between rules that holds of the steps of the grammar and is kept by all ways in which
rules are put together holds between every rule and itself. `RuleRelation` says what the steps
and the ways are. With two runs in mind it gives what two runs over different words have in
common; a fact about one run is the case in which the second one does not count.

Nodes of some kinds may be steps of their own: the relation says which kinds are `Ordinary`, and
of the others it has to say itself what their rules do.

A test must not look too far: it may ask of a word only if the words before it are identifiers,
strings or numbers, and past the name of a namespace no test looks from its keyword on. Words that
`Agree` are the same as far as a test can see.
-/

namespace ImplicitGlobals

/-- Whether a test may look past a word of the kind. -/
def TokenKind.isTransparent : TokenKind → Bool
  | ident | stringLiteral | number => true
  | _ => false

/-- Whether complaints of the kind name neither an opener nor a fix. -/
def DiagnosticKind.isPlain (kind : DiagnosticKind) : Bool := !kind.isUnclosed && kind != expectedSemicolon

/-- A plain complaint is none of an unclosed delimiter. -/
theorem DiagnosticKind.closed_of_isPlain {kind : DiagnosticKind} (plain : kind.isPlain = true) :
    kind.isUnclosed = false := by
  cases kind <;> first | rfl | cases plain

/-- Whether a node of the kind is a list of items between delimiters. -/
def NodeKind.isList : NodeKind → Bool
  | bindingPattern | parameterList | typeParameterList | enumBody | moduleBlock | namedImports =>
    true
  | _ => false

/-- Whether a relation may say by itself what becomes of a node of the kind. -/
def NodeKind.isSpecial : NodeKind → Bool
  | typeExpr | exportAssignment | importDeclaration | moduleDeclaration => true
  | kind => kind.isBody || kind.isList

namespace Grammar

variable {α β σ : Type}

/-! ### What tests see -/

/-- The words are the same up to the first one that hides what follows, and that one is the same too.
The word `namespace` and a name behind it hide what follows together. -/
inductive Agree : List Word → List Word → Prop
  | nil : Agree [] []
  | stop {w : Word} (vs ws : List Word) (sharp : w.kind.isTransparent = false) :
    Agree (w :: vs) (w :: ws)
  | header {w : Word} (name : Word) (vs ws : List Word) (announces : w.isWord Keyword.kwNamespace.word = true) :
    Agree (w :: name :: vs) (w :: name :: ws)
  | cons (w : Word) {vs ws : List Word} (rest : Agree vs ws) : Agree (w :: vs) (w :: ws)

/-- Words agree with themselves. -/
theorem Agree.refl (ws : List Word) : Agree ws ws := by
  induction ws with
  | nil => exact .nil
  | cons w _ ih => exact .cons w ih

/-- The same words may stand before. -/
theorem Agree.behind (us : List Word) {vs ws : List Word} (h : Agree vs ws) : Agree (us ++ vs) (us ++ ws) := by
  induction us with
  | nil => exact h
  | cons u _ ih => exact .cons u ih

/-- A word that hides what follows is seen alike wherever the same words stand before it. -/
theorem Agree.append (us : List Word) {w : Word} (vs ws : List Word) (sharp : w.kind.isTransparent = false) :
    Agree (us ++ w :: vs) (us ++ w :: ws) := (Agree.stop vs ws sharp).behind us

/-- The first words hide nothing. -/
def Transparent (n : Nat) (ws : List Word) : Prop :=
  ∀ i < n, (∃ kind, kindIn ws i = some kind ∧ kind.isTransparent = true) ∧
    (i + 1 < n → spells ws i Keyword.kwNamespace.word = false)

/-- No look at all sees through everything. -/
theorem transparent_zero (ws : List Word) : Transparent 0 ws := nofun

/-- Behind a word that is seen through, one more can be looked at. -/
theorem transparent_one {ws : List Word} {kind : TokenKind} (here : kindIn ws 0 = some kind)
    (through : kind.isTransparent = true) : Transparent 1 ws := fun i lt => by
  obtain rfl : i = 0 := by omega
  exact ⟨⟨kind, here, through⟩, fun less => absurd less (Nat.lt_irrefl _)⟩

/-- A word that is spelled in one way is not spelled in another one. -/
theorem spells_other {ws : List Word} {i : Nat} {text other : String} (here : spells ws i text = true)
    (differs : text ≠ other) : spells ws i other = false := by
  obtain ⟨w, at_, is⟩ := (Option.any_eq_true ..).1 here
  simp only [Word.isWord, Bool.and_eq_true, beq_iff_eq] at is
  simp [spells, at_, Word.isWord, is.2, differs]

/-- A look goes one word further through a word that is seen through. -/
theorem Transparent.succ {n : Nat} {ws : List Word} {kind : TokenKind} (before : Transparent (n + 1) ws)
    (plain : spells ws n Keyword.kwNamespace.word = false) (here : kindIn ws (n + 1) = some kind)
    (through : kind.isTransparent = true) : Transparent (n + 2) ws :=
  fun i lt => by
    rcases Nat.lt_succ_iff_lt_or_eq.1 lt with less | rfl
    · refine ⟨(before i less).1, fun _ => ?_⟩
      rcases Nat.lt_succ_iff_lt_or_eq.1 less with less | rfl
      · exact (before i (by omega)).2 (by omega)
      · exact plain
    · exact ⟨⟨kind, here, through⟩, fun less => absurd less (Nat.lt_irrefl _)⟩

/-- Behind words that hide nothing the next one is still seen. -/
theorem Agree.getElem? {vs ws : List Word} (h : Agree vs ws) {n : Nat} (through : Transparent n vs) :
    vs[n]? = ws[n]? := by
  induction h generalizing n with
  | nil => rfl
  | stop vs ws sharp =>
    cases n with
    | zero => rfl
    | succ n =>
      obtain ⟨kind, here, through⟩ := (through 0 n.succ_pos).1
      simp only [kindIn, List.getElem?_cons_zero, Option.map_some, Option.some.injEq] at here
      exact absurd (here ▸ through) (by simp [sharp])
  | header name vs ws announces =>
    cases n with
    | zero => rfl
    | succ n =>
      cases n with
      | zero => rfl
      | succ n =>
        have plain := (through 0 (by omega)).2 (by omega)
        simp [spells, announces] at plain
  | cons w rest ih =>
    cases n with
    | zero => rfl
    | succ n =>
      simp only [List.getElem?_cons_succ]
      refine ih fun i lt => ?_
      have more := through (i + 1) (Nat.succ_lt_succ lt)
      exact ⟨by simpa [kindIn] using more.1, fun less => by simpa [spells] using more.2 (by omega)⟩

/-- The test leaves the gap before the current word as `g` says. -/
def LeavesGap (t : Rule β) (g : List Word → Gap → Gap) : Prop :=
  ∀ c, Yields t c fun _ d => d.gap = g c.rest c.gap

namespace LeavesGap

variable {t : Rule β} {g k : List Word → Gap → Gap}

/-- A map leaves the gap as its rule does. -/
theorem map {γ : Type} (f : β → γ) (h : LeavesGap t g) : LeavesGap (f <$> t) g := fun c => .map (h c)

/-- Looking ahead skips the gap. -/
theorem peek (n : Nat) : LeavesGap (Grammar.peek n) fun _ => Gap.skipped := fun c =>
  (peek_steps n c).imp fun _ _ stepped => by
    obtain ⟨-, looks, rfl⟩ := stepped
    rfl

/-- A test that is made, or not, behind another one. -/
theorem branch {s : Rule Bool} {u : List Word → Bool} {r : Bool → Rule β} {f : Bool → List Word → Gap → Gap}
    (answers : Answers s fun ws _ => u ws) (h : LeavesGap s g) (next : ∀ b, LeavesGap (r b) (f b)) :
    LeavesGap (s >>= r) fun ws gap => f (u ws) ws (g ws gap) := fun c => by
  have both : Yields s c fun b d => (b = u c.rest ∧ Same c d) ∧ d.gap = g c.rest c.gap :=
    fun b d run => ⟨answers c b d run, h c b d run⟩
  refine both.bind fun b d post => ?_
  obtain ⟨⟨rfl, _, _, _, rfl⟩, gap⟩ := post
  exact (next _ _).imp fun _ _ left => left.trans (congrArg _ gap)

end LeavesGap

/-- At words of which `p` holds, the test answers `v` of the words, and the same of words that
agree with them. What it does to the gap is the same, too. -/
structure Sees (p : List Word → Prop) (t : Rule β) (v : List Word → β) : Prop where
  answers : Answers t fun ws _ => v ws
  agree : ∀ vs ws, p vs → Agree vs ws → v vs = v ws
  gap : ∃ g, LeavesGap t g ∧ ∀ vs ws, p vs → Agree vs ws → g vs = g ws

namespace Sees

variable {p q : List Word → Prop} {t : Rule β} {v : List Word → β}

/-- The entry condition may be strengthened. -/
theorem given (h : Sees p t v) (entry : ∀ ws, q ws → p ws) : Sees q t v :=
  have ⟨g, leaves, same⟩ := h.gap
  ⟨h.answers, fun vs ws holds => h.agree vs ws (entry vs holds), g, leaves,
    fun vs ws holds => same vs ws (entry vs holds)⟩

/-- A constant sees nothing. -/
theorem pure (x : β) : Sees p (Pure.pure x) fun _ => x :=
  ⟨.pure x, fun _ _ _ _ => rfl, fun _ gap => gap, fun _ => .pure rfl, fun _ _ _ _ => rfl⟩

/-- The answer, put through a function. -/
theorem map {γ : Type} (f : β → γ) (h : Sees p t v) : Sees p (f <$> t) fun ws => f (v ws) :=
  have ⟨g, leaves, same⟩ := h.gap
  ⟨h.answers.map f, fun vs ws holds agree => congrArg f (h.agree vs ws holds agree), g, leaves.map f, same⟩

/-- A test that is made only where another one finds something. -/
theorem and {s t : Rule Bool} {u v : List Word → Bool} (h : Sees p s u)
    (k : Sees (fun ws => p ws ∧ u ws = true) t v) : Sees p (s <&&> t) fun ws => u ws && v ws where
  answers := h.answers.and k.answers
  agree := fun vs ws holds agree => by
    have first := h.agree vs ws holds agree
    cases found : u vs with
    | false => simp [← first, found]
    | true => simp [← first, found, k.agree vs ws ⟨holds, found⟩ agree]
  gap := by
    obtain ⟨g, leaves, same⟩ := h.gap
    obtain ⟨f, leaves', same'⟩ := k.gap
    let next (b : Bool) (ws : List Word) (gap : Gap) : Gap := if b = true then f ws gap else gap
    have branch (b : Bool) : LeavesGap (if b = true then t else Pure.pure false) (next b) := by
      cases b with
      | false => exact fun _ => .pure rfl
      | true => exact leaves'
    refine ⟨_, and_eq_branch s t ▸ leaves.branch h.answers branch, fun vs ws holds agree => ?_⟩
    have first := h.agree vs ws holds agree
    cases found : u vs with
    | false => simp [next, ← first, found, same vs ws holds agree]
    | true => simp [next, ← first, found, same vs ws holds agree, same' vs ws ⟨holds, found⟩ agree]

/-- Two questions about the same words. -/
theorem or {s t : Rule Bool} {u v : List Word → Bool} (h : Sees p s u) (k : Sees p t v) :
    Sees p (s <||> t) fun ws => u ws || v ws where
  answers := h.answers.or k.answers
  agree := fun vs ws holds agree => by
    simp [h.agree vs ws holds agree, k.agree vs ws holds agree]
  gap := by
    obtain ⟨g, leaves, same⟩ := h.gap
    obtain ⟨f, leaves', same'⟩ := k.gap
    let next (b : Bool) (ws : List Word) (gap : Gap) : Gap := if b = true then gap else f ws gap
    refine ⟨_, leaves.branch (f := next) h.answers fun b => ?_, fun vs ws holds agree => ?_⟩
    · cases b with
      | false => exact leaves'
      | true => exact fun _ => .pure rfl
    · simp [next, h.agree vs ws holds agree, same vs ws holds agree, same' vs ws holds agree]

/-- The opposite of what is seen. -/
theorem not {t : Rule Bool} {v : List Word → Bool} (h : Sees p t v) :
    Sees p ((!·) <$> t) fun ws => !v ws := h.map (!·)

/-- What is asked of one word. -/
theorem word {n : Nat} (f : Option Word → β) (through : ∀ ws, p ws → Transparent n ws) :
    Sees p (f <$> Grammar.peek n) fun ws => f ws[n]? :=
  ⟨(peek_answers n).map f, fun vs _ holds agree => congrArg f (agree.getElem? (through vs holds)),
    _, (LeavesGap.peek n).map f, fun _ _ _ _ => rfl⟩

/-- A word further on is seen if those before it are seen through. -/
theorem kindAt {n : Nat} (through : ∀ ws, p ws → Transparent n ws) :
    Sees p (Grammar.kindAt n) (kindIn · n) := word _ through

theorem nthIs {n : Nat} (through : ∀ ws, p ws → Transparent n ws) (kind : TokenKind) :
    Sees p (Grammar.nthIs n kind) fun ws => kindIn ws n == some kind :=
  (kindAt through).map (· == some kind)

/-- So is its spelling. -/
theorem nthIsWord {n : Nat} (through : ∀ ws, p ws → Transparent n ws) (text : String) :
    Sees p (Grammar.nthIsWord n text) fun ws => spells ws n text := word _ through

theorem nthIsKeyword {n : Nat} (through : ∀ ws, p ws → Transparent n ws) (k : Keyword) :
    Sees p (Grammar.nthIsKeyword n k) fun ws => spells ws n k.word := nthIsWord through k.word

/-- The current word is always seen. -/
theorem peek : Sees p (Grammar.peek 0) fun ws => ws[0]? :=
  ⟨peek_answers 0, fun vs _ _ agree => agree.getElem? (transparent_zero vs), _, .peek 0,
    fun _ _ _ _ => rfl⟩

theorem current : Sees p Grammar.current fun ws => kindIn ws 0 := kindAt fun ws _ => transparent_zero ws

theorem currentIs (kind : TokenKind) :
    Sees p (Grammar.currentIs kind) fun ws => kindIn ws 0 == some kind :=
  current.map (· == some kind)

theorem currentIn (set : KindSet) :
    Sees p (Grammar.currentIn set) fun ws => (kindIn ws 0).any set.holds :=
  current.map fun k : Option TokenKind => k.any set.holds

/-- The text of the current word is always seen. -/
theorem currentText : Sees p Grammar.currentText fun ws => (ws[0]?.map (·.text)).getD "" :=
  word (fun w : Option Word => (w.map (·.text)).getD "") fun ws _ => transparent_zero ws

theorem atWord (text : String) : Sees p (Grammar.atWord text) fun ws => spells ws 0 text :=
  nthIsWord (fun ws _ => transparent_zero ws) text

theorem atKeyword (k : Keyword) : Sees p (Grammar.atKeyword k) fun ws => spells ws 0 k.word :=
  atWord k.word

/-- A line break is always seen. -/
theorem onFreshLine : Sees p Grammar.onFreshLine fun ws => ws.head?.any (·.freshLine) :=
  ⟨onFreshLine_answers, fun vs _ _ agree => by
    simp only [List.head?_eq_getElem?, agree.getElem? (transparent_zero vs)],
    fun _ => Gap.skipped, fun _ _ _ run => by cases run; rfl, fun _ _ _ _ => rfl⟩

end Sees

/-! ### Related rules -/

/-- How the answers of two rules go together. Every answer of the first one goes with some answer. -/
structure Link (α : Type) where
  Holds : α → α → Prop
  total : ∀ x, ∃ y, Holds x y

namespace Link

/-- The answers are the same. -/
def same : Link α := ⟨Eq, fun x => ⟨x, rfl⟩⟩

/-- Nothing is said of the answers. -/
def any : Link α := ⟨fun _ _ => True, fun x => ⟨x, trivial⟩⟩

/-- Both rounds go on or both do not, and the states go together. -/
def turn (I : Link σ) : Link (Turn σ) where
  Holds
    | .again s, .again s' | .done s, .done s' => I.Holds s s'
    | _, _ => False
  total
    | .again s => have ⟨s', both⟩ := I.total s; ⟨.again s', both⟩
    | .done s => have ⟨s', both⟩ := I.total s; ⟨.done s', both⟩

/-- The same brackets are open, perhaps at other words. -/
def run : Link Run where
  Holds r s := r.consumed = s.consumed ∧ r.stack.map (·.kind) = s.stack.map (·.kind)
  total r := ⟨r, rfl, rfl⟩

end Link

/-- A relation between rules that are entered at words of which something holds, with the steps
it holds of and the ways of putting rules together that keep it. -/
structure RuleRelation where
  Rel : {α : Type} → (List Word → Prop) → Link α → Rule α → Rule α → Prop
  given {α : Type} {p q : List Word → Prop} {V : Link α} {r r' : Rule α} (h : Rel p V r r')
    (entry : ∀ ws, q ws → p ws) : Rel q V r r'
  pure {α : Type} {p : List Word → Prop} {V : Link α} {x y : α} (h : V.Holds x y) :
    Rel p V (pure x) (pure y)
  /-- Where the first rule breaks a promise, nothing is said of the second one. -/
  throwLeft {α : Type} {p : List Word → Prop} {V : Link α} (b : Breach) (r' : Rule α) :
    Rel p V (throw b) r'
  throwRight {α : Type} {p : List Word → Prop} {V : Link α} {r r' : Rule α} (h : Rel p V r r')
    (b : Breach) : Rel p V r (throw b)
  bind {α β : Type} {p : List Word → Prop} {q : α → List Word → Prop} {V : Link α} {W : Link β}
    {r r' : Rule α} {f g : α → Rule β} (h : Rel p V r r')
    (keeps : ∀ c, p c.rest → Yields r c fun x d => q x d.rest)
    (next : ∀ x y, V.Holds x y → Rel (q x) W (f x) (g y)) : Rel p W (r >>= f) (r' >>= g)
  look {α : Type} {p : List Word → Prop} {t : Rule α} {v : List Word → α} (h : Sees p t v) :
    Rel p .same t t
  mark {p : List Word → Prop} : Rel p .any mark mark
  atEnd {p : List Word → Prop} : Rel p .same atEnd atEnd
  isRefused {p : List Word → Prop} : Rel p .same isRefused isRefused
  inBlock {p : List Word → Prop} : Rel p .same inBlock inBlock
  /-- The bounds on recursion need not be the same. -/
  bounded {α : Type} {p : List Word → Prop} {V : Link α} {f g : Nat → Rule α}
    (h : ∀ m n, Rel p V (f m) (g n)) :
    Rel p V (do f (← get).total) (do g (← get).total)
  takeAs {p : List Word → Prop} (label : LeafKind) : Rel p .same (takeAs label) (takeAs label)
  placeGap {p : List Word → Prop} : Rel p .same placeGap placeGap
  skipGap {p : List Word → Prop} : Rel p .same skipGap skipGap
  /-- How the places go together before which nodes are begun later. -/
  points : Link Checkpoint
  checkpoint {p : List Word → Prop} : Rel p points checkpoint checkpoint
  /-- The kinds of nodes that are closed in one way. -/
  Ordinary : NodeKind → Prop
  ordinary {kind : NodeKind} (usual : kind.isSpecial = false) : Ordinary kind
  node {p : List Word → Prop} {kind : NodeKind} (ordinary : Ordinary kind) {body body' : Rule Unit}
    (h : Rel p .same body body') : Rel p .same (node kind body) (node kind body')
  nodeAt {p : List Word → Prop} {kind : NodeKind} (ordinary : Ordinary kind) {point point' : Checkpoint}
    (moved : points.Holds point point') {body body' : Rule Unit} (h : Rel p .same body body') :
    Rel p .same (nodeAt point kind body) (nodeAt point' kind body')
  inside {p : List Word → Prop} (kind : TokenKind) {body body' : Rule Unit}
    (h : Rel Anywhere .same body body') : Rel p .same (inside kind body) (inside kind body')
  descend {p : List Word → Prop} : Rel p .same descend descend
  ascend {p : List Word → Prop} : Rel p .same ascend ascend
  here {p : List Word → Prop} {kind : DiagnosticKind} (plain : kind.isPlain = true)
    (detail : Option String) : Rel p .same (complain (.here kind detail)) (complain (.here kind detail))
  noSemicolon {p : List Word → Prop} (more : ∀ ws, p ws → ws ≠ []) : Rel p .same errorNoSemicolon errorNoSemicolon
  unclosed {p : List Word → Prop} {kind : DiagnosticKind} (unclosed : kind.isUnclosed = true)
    (note : String) (o o' : Nat) : Rel p .same (errorUnclosed kind note o) (errorUnclosed kind note o')

namespace RuleRelation

variable (L : RuleRelation) {p q : List Word → Prop} {V : Link α} {W : Link β}

section

variable {r r' s s' : Rule α} {f g : α → Rule β}

/-- A relation that holds anywhere holds at the entry. -/
theorem anywhere (h : L.Rel Anywhere V r r') : L.Rel p V r r' := L.given h fun _ _ => trivial

/-- Related rules behind related rules, where the second may be entered anywhere. -/
theorem bindTo (h : L.Rel p V r r')
    (next : ∀ x y, V.Holds x y → L.Rel Anywhere W (f x) (g y)) :
    L.Rel p W (r >>= f) (r' >>= g) :=
  L.bind (q := fun _ => Anywhere) h (fun _ _ _ _ _ => trivial) next

/-- Both rules go on with the same answer. -/
theorem onward (h : L.Rel p .same r r') (next : ∀ x, L.Rel Anywhere W (f x) (g x)) :
    L.Rel p W (r >>= f) (r' >>= g) :=
  L.bindTo h fun x y same => by
    cases same
    exact next x

/-- What a test has found holds behind it. -/
theorem ask {t : Rule α} {v : List Word → α} (h : Sees p t v)
    (next : ∀ x, L.Rel (fun ws => p ws ∧ v ws = x) W (f x) (g x)) :
    L.Rel p W (t >>= f) (t >>= g) := by
  refine L.bind (q := fun x ws => p ws ∧ v ws = x) (L.look h) (fun c entry => ?_)
    fun x y same => ?_
  · refine (h.answers c).imp fun x d post => ?_
    obtain ⟨rfl, _, _, _, rfl⟩ := post
    exact ⟨entry, rfl⟩
  · cases same
    exact next x

/-- A choice by the same condition on both sides. -/
theorem ite {b : Prop} [Decidable b] (yes : b → L.Rel p V r r') (no : ¬b → L.Rel p V s s') :
    L.Rel p V (if b then r else s) (if b then r' else s') := by
  split
  · exact yes ‹_›
  · exact no ‹_›

/-- A branch by a question: what the answer says of the words is known on each side. -/
theorem branch {t : Rule Bool} {v : List Word → Bool} (h : Sees p t v)
    (yes : L.Rel (fun ws => p ws ∧ v ws = true) V r r')
    (no : L.Rel (fun ws => p ws ∧ v ws = false) V s s') :
    L.Rel p V (t >>= fun b => if b = true then r else s)
      (t >>= fun b => if b = true then r' else s') :=
  L.ask h fun b => by
    cases b with
    | true => exact yes
    | false => exact no

/-- A branch by related tests. -/
theorem choose {t t' : Rule Bool} (h : L.Rel p .same t t') (yes : L.Rel Anywhere V r r')
    (no : L.Rel Anywhere V s s') :
    L.Rel p V (t >>= fun b => if b = true then r else s)
      (t' >>= fun b => if b = true then r' else s') :=
  L.onward h fun _ => L.ite (fun _ => yes) fun _ => no

/-- A breach is related to itself. -/
theorem throw (b : Breach) : L.Rel p V (throw b : Rule α) (MonadExceptOf.throw b) :=
  L.throwLeft b _

end

section

variable {s s' t t' : Rule Bool} {body body' : Rule Unit}

/-- Both tests, the second only behind the first. -/
theorem and (h : L.Rel p .same s s') (g : L.Rel Anywhere .same t t') :
    L.Rel p .same (s <&&> t) (s' <&&> t') := by
  rw [and_eq_branch, and_eq_branch]
  exact L.choose h g (L.pure rfl)

/-- Either test, the second only behind the first. -/
theorem or (h : L.Rel p .same s s') (g : L.Rel Anywhere .same t t') :
    L.Rel p .same (s <||> t) (s' <||> t') :=
  L.onward h fun b => by
    cases b with
    | false => exact g
    | true => exact L.pure rfl

/-- The opposite of related tests. -/
theorem not (h : L.Rel p .same t t') : L.Rel p .same ((!·) <$> t) ((!·) <$> t') := by
  rw [← bind_pure_comp, ← bind_pure_comp]
  exact L.onward h fun _ => L.pure rfl

/-- Behind a rule that is done, a fixed answer. -/
theorem answer (h : L.Rel p .same body body') (x : α) :
    L.Rel p .same (body >>= fun _ => Pure.pure x) (body' >>= fun _ => Pure.pure x) :=
  L.onward h fun _ => L.pure rfl

/-- Related bodies behind related tests. -/
theorem whenever (h : L.Rel p .same t t') (g : L.Rel Anywhere .same body body') :
    L.Rel p .same (whenever t body) (whenever t' body') :=
  L.choose h g (L.pure rfl)

/-- Related bodies behind a question, which the entry of the bodies may use. -/
theorem wheneverAt {v : List Word → Bool} (h : Sees p t v)
    (g : L.Rel (fun ws => p ws ∧ v ws = true) .same body body') :
    L.Rel p .same (Grammar.whenever t body) (Grammar.whenever t body') :=
  L.branch h g (L.pure rfl)

/-- An optional part is entered at a word of its kind. -/
theorem optional (kind : TokenKind) (g : L.Rel (At kind) .same body body') :
    L.Rel p .same (optional kind body) (optional kind body') :=
  L.wheneverAt (.currentIs kind) (L.given g fun _ found => eq_of_beq found.2)

/-- A form behind its test. -/
theorem onlyIf (h : L.Rel p .same t t') (g : L.Rel Anywhere .same body body') :
    L.Rel p .same (onlyIf t body) (onlyIf t' body') :=
  L.choose h (L.answer g true) (L.pure rfl)

end

/-! ### Words -/

/-- A rule that reads one word, and one that is entered behind it. -/
theorem readThen {r r' : Rule Unit} {s s' : Rule α}
    (one : ∀ c, Yields r c fun _ d => ∃ w label, Took label w c d) (h : L.Rel p .same r r')
    (next : L.Rel q V s s') (tail : ∀ ws, p ws → q ws.tail) :
    L.Rel p V (do r; s) (do r'; s') := by
  refine L.bind (q := fun _ => q) h (fun c entry => (one c).imp fun _ d took => ?_) fun _ _ _ => next
  obtain ⟨w, label, took⟩ := took
  have behind := tail _ entry
  rwa [took.rest] at behind

/-- Reading the current word is a step of the relation. -/
theorem bump : L.Rel p .same bump bump :=
  L.onward (L.look .current) fun _ => L.takeAs _

/-- Reading a keyword is a step of the relation. -/
theorem takeKeyword (k : Keyword) : L.Rel p .same (takeKeyword k) (takeKeyword k) := L.takeAs _

theorem bumpKeyword : L.Rel p .same bumpKeyword bumpKeyword :=
  L.onward (L.look .currentText) fun _ => L.takeAs _

/-- A word that may be missing is asked for on both sides. -/
theorem eat (kind : TokenKind) : L.Rel p .same (eat kind) (eat kind) :=
  L.choose (L.look (.currentIs kind)) (L.answer L.bump true) (L.pure rfl)

theorem eatKeyword (k : Keyword) : L.Rel p .same (eatKeyword k) (eatKeyword k) :=
  L.choose (L.look (.atKeyword k)) (L.answer (L.takeKeyword k) true) (L.pure rfl)

/-- The same plain complaint on both sides. -/
theorem error {kind : DiagnosticKind} (plain : kind.isPlain = true) :
    L.Rel p .same (error kind) (error kind) := L.here plain none

theorem errorWith {kind : DiagnosticKind} (plain : kind.isPlain = true) (detail : String) :
    L.Rel p .same (errorWith kind detail) (errorWith kind detail) := L.here plain (some detail)

/-- A word is read, or the same complaint is made. -/
theorem expect (kind : TokenKind) (what : String) :
    L.Rel p .same (expect kind what) (expect kind what) :=
  L.choose (L.eat kind) (L.pure rfl) (L.answer (L.errorWith rfl _) false)

/-- An assertion on both sides gives the kind of the current word to what follows. -/
theorem assertAt {kind : TokenKind} {r r' : Rule α} (h : L.Rel (At kind) V r r') :
    L.Rel p V (do assertAt kind; r) (do Grammar.assertAt kind; r') := by
  refine L.bind (q := fun _ => At kind) (V := .same) ?_ (fun c _ => ?_) fun _ _ _ => h
  · exact L.onward (L.look .current) fun _ => L.ite (fun _ => L.throw _) fun _ => L.pure rfl
  · refine (current_answers c).bind fun k d asked => .ite (fun _ => .throw _) fun here => .pure ?_
    obtain ⟨rfl, _, _, _, rfl⟩ := asked
    exact Classical.not_not.1 here

/-- An assertion of a keyword does the same. -/
theorem assertAtKeyword {k : Keyword} {r r' : Rule α}
    (h : L.Rel (fun ws => p ws ∧ spells ws 0 k.word = true) V r r') :
    L.Rel p V (do assertAtKeyword k; r) (do Grammar.assertAtKeyword k; r') := by
  refine L.bind (q := fun _ ws => p ws ∧ spells ws 0 k.word = true) (V := .same) ?_
    (fun c entry => ?_) fun _ _ _ => h
  · exact L.onward (L.look (.atKeyword k)) fun _ => L.ite (fun _ => L.throw _) fun _ => L.pure rfl
  · refine (atKeyword_answers k c).bind fun b d asked => .ite (fun _ => .throw _) fun here =>
      .pure ?_
    obtain ⟨rfl, _, _, _, rfl⟩ := asked
    exact ⟨entry, by simpa using here⟩

/-! ### Loops and delimiters -/

section

variable {I : Link σ} {step step' : σ → Rule (Turn σ)}

/-- Rounds keep an invariant of both states, by induction on the rounds left. -/
theorem rounds (turn : ∀ s s', I.Holds s s' → L.Rel Anywhere (.turn I) (step s) (step' s'))
    (m n : Nat) (s s' : σ) (start : I.Holds s s') :
    L.Rel Anywhere I (rounds step m s) (rounds step' n s') := by
  induction m generalizing n s s' with
  | zero => exact L.throwLeft _ _
  | succ m ih =>
    have round (n : Nat) :
        L.Rel Anywhere I (Grammar.rounds step (m + 1) s) (Grammar.rounds step' (n + 1) s') := by
      refine L.bindTo (turn s s' start) fun t t' both => ?_
      cases t <;> cases t'
      · exact ih n _ _ both
      · exact both.elim
      · exact both.elim
      · exact L.pure both
    cases n with
    | zero => exact L.throwRight (round 0) _
    | succ n => exact round n

/-- A loop keeps it, too. -/
theorem loop {s s' : σ} (start : I.Holds s s')
    (turn : ∀ s s', I.Holds s s' → L.Rel Anywhere (.turn I) (step s) (step' s')) :
    L.Rel p I (loop s step) (loop s' step') :=
  L.anywhere <| L.bounded (f := fun n => Grammar.rounds step (n + 1) s)
    (g := fun n => Grammar.rounds step' (n + 1) s') fun _ _ => L.rounds turn _ _ s s' start

end

section

variable {turn turn' starts starts' : Rule Bool} {item item' : Rule Unit}

/-- A repetition of related turns. -/
theorem repeatWhile (h : L.Rel Anywhere .same turn turn') :
    L.Rel p .same (repeatWhile turn) (repeatWhile turn') :=
  L.loop (I := .same) rfl fun _ _ _ => L.choose h (L.pure rfl) (L.pure rfl)

/-- A list between the same delimiters, with related turns. -/
theorem delimited (d : Delimiters) (unclosed : d.unclosed.isUnclosed = true)
    (h : L.Rel Anywhere .same turn turn') :
    L.Rel p .same (delimited d turn) (delimited d turn') := by
  refine L.bindTo L.mark fun _ _ _ => L.onward (L.inside _ (L.repeatWhile h)) fun _ => ?_
  refine L.onward (L.eat _) fun _ => L.onward L.isRefused fun _ => ?_
  exact L.ite (fun _ => L.unclosed unclosed _ _ _) fun _ => L.pure rfl

/-- The same complaint, and the word is read. -/
theorem errorAndBump {kind : DiagnosticKind} (plain : kind.isPlain = true)
    (detail : String) :
    L.Rel p .same (errorAndBump kind detail) (errorAndBump kind detail) := by
  refine L.onward (L.errorWith plain detail) fun _ => ?_
  refine L.onward (L.look .peek) fun _ => ?_
  refine L.ite (fun _ => L.node (L.ordinary rfl) L.bump) fun _ => ?_
  exact L.pure rfl

end

end RuleRelation

end Grammar

end ImplicitGlobals
