import ImplicitGlobals.Proofs.Grammar.Yields
import ImplicitGlobals.Proofs.Printing.Source

/-!
# Reading what is written

`Parses r before after x ts` says that where the words ahead are written as `before`, the rule
reads on to where they are written as `after`, complains of nothing, answers `x` and adds the
trees `ts` to the tree, but for trivia and places. `ReadsIn words` says the same of one source, for
what is read may depend on line breaks. Every budget is without bounds here.
-/

namespace ImplicitGlobals.Grammar

variable {α β : Type} {words : List Word} {c d e : Cursor} {a b : List Lexeme}
    {ts us : List SyntaxTree}

/-- The leaf that a slot stands for, put at the start; a gap stands for none. -/
def bareSlot (words : List Word) : Slot → List Leaf
  | .gap _ => []
  | .word i label => (words[i]?.map fun w => ⟨label, ⟨w.kind, w.text, 0⟩⟩).toList

/-- Some of the words were read, without a complaint and without bounds. -/
structure Ready (words : List Word) (c : Cursor) : Prop extends c.Tidy where
  budget : c.budget = {}
  rest : c.rest = words.drop c.passed

/-- The parts that came into the tree are the trees, but for trivia and places. -/
structure Adds (words : List Word) (c d : Cursor) (ts : List SyntaxTree) : Prop where
  opened : d.opened = c.opened
  parts : ∃ ps, d.parts.toList = c.parts.toList ++ ps ∧ Tree.expandAll (bareSlot words) ps = ts

namespace Adds

/-- What two steps add is added one behind the other. -/
theorem trans (h : Adds words c d ts) (g : Adds words d e us) : Adds words c e (ts ++ us) := by
  obtain ⟨ps, parts, added⟩ := h.parts
  obtain ⟨qs, parts', added'⟩ := g.parts
  refine ⟨g.opened.trans h.opened, ps ++ qs, ?_, ?_⟩
  · rw [parts', parts, List.append_assoc]
  · rw [Tree.expandAll_append, added, added']

/-- Looking adds nothing. -/
theorem same (h : Same c d) : Adds words c d [] := by
  obtain ⟨_, _, _, rfl⟩ := h
  exact ⟨rfl, [], by simp, rfl⟩

end Adds

/-- A gap that is still due stands for no leaf. -/
theorem expandAll_due (words : List Word) (gap : Gap) (i : Nat) :
    Tree.expandAll (bareSlot words) (gap.due i).toList = [] := by
  unfold Gap.due
  split <;> rfl

/-- What does not read, complain or pay leaves all as it was read. -/
theorem Ready.of {e : Cursor} (ready : Ready words c) (complaints : e.complaints = c.complaints)
    (lastPlace : e.lastPlace = c.lastPlace) (refused : e.refused = c.refused)
    (budget : e.budget = c.budget)
    (rest : e.rest = c.rest) (passed : e.passed = c.passed) : Ready words e where
  complaints := complaints.trans ready.complaints
  lastPlace := lastPlace.trans ready.lastPlace
  refused := refused.trans ready.refused
  budget := budget.trans ready.budget
  rest := rest.trans (passed ▸ ready.rest)

/-- Reading the current word is one step further in the words. -/
theorem Ready.read (ready : Ready words c) (label : LeafKind) : Ready words (c.read label) where
  complaints := ready.complaints
  lastPlace := ready.lastPlace
  refused := ready.refused
  budget := ready.budget
  rest := by
    show c.rest.tail = words.drop (c.passed + 1)
    rw [← List.tail_drop, ← ready.rest]

/-- Looking makes no difference to the words. -/
theorem Same.ready (h : Same c d) (ready : Ready words c) : Ready words d := by
  obtain ⟨_, _, _, rfl⟩ := h
  exact ready.of rfl rfl rfl rfl rfl rfl

/-- Looking takes no word off. -/
theorem Same.rest (h : Same c d) : d.rest = c.rest := by
  obtain ⟨_, _, _, rfl⟩ := h
  rfl

/-- A word that was read was the next one. -/
theorem Took.ready {label : LeafKind} {w : Word} (h : Took label w c d) (ready : Ready words c) :
    Ready words d where
  complaints := h.complaints.trans ready.complaints
  lastPlace := h.lastPlace.trans ready.lastPlace
  refused := (h.unbounded ready.budget).2.trans ready.refused
  budget := (h.unbounded ready.budget).1
  rest := by rw [h.passed, ← List.tail_drop, ← ready.rest, h.rest, List.tail_cons]

/-- The word that is read comes into the tree, if what is ahead is the rest of the words. -/
theorem Took.addsAt {label : LeafKind} {w : Word} (h : Took label w c d)
    (ahead : c.rest = words.drop c.passed) : Adds words c d [w.lexeme.leafAs label] := by
  obtain ⟨gap, parts⟩ := h.parts
  have here : words[c.passed]? = some w := by rw [← List.head?_drop, ← ahead, h.rest]; rfl
  refine ⟨h.opened, _, by rw [parts, List.append_assoc], ?_⟩
  rw [Tree.expandAll_append, expandAll_due]
  simp [Tree.expandAll, Tree.expand, bareSlot, here, Lexeme.leafAs, Word.lexeme]

/-- A word that was read is one leaf more. -/
theorem Took.adds {label : LeafKind} {w : Word} (h : Took label w c d) (ready : Ready words c) :
    Adds words c d [w.lexeme.leafAs label] := h.addsAt ready.rest

/-- Where the words ahead are written as `before`, the rule reads on to where they are written as
`after`, answers what `X` holds of, and adds the trees. -/
def ReadsTo (words : List Word) (r : Rule α) (before after : List Lexeme) (X : α → Prop)
    (ts : List SyntaxTree) : Prop :=
  ∀ c, Ready words c → c.rest.map Word.lexeme = before →
    Yields r c fun x d => X x ∧ Ready words d ∧ d.rest.map Word.lexeme = after ∧ Adds words c d ts

/-- The same with one answer. -/
def ReadsIn (words : List Word) (r : Rule α) (before after : List Lexeme) (x : α) (ts : List SyntaxTree) : Prop :=
  ReadsTo words r before after (· = x) ts

/-- The rule does so whatever the words are. -/
def ParsesTo (r : Rule α) (before after : List Lexeme) (X : α → Prop)
    (ts : List SyntaxTree) : Prop := ∀ words, ReadsTo words r before after X ts

/-- The same with one answer. -/
def Parses (r : Rule α) (before after : List Lexeme) (x : α) (ts : List SyntaxTree) : Prop :=
  ParsesTo r before after (· = x) ts

/-- Reading on from where the first rule comes to, with the trees one behind the other. -/
theorem ReadsTo.bind {r : Rule α} {f : α → Rule β} {l m : List Lexeme} {X : α → Prop} {Y : β → Prop}
    (h : ReadsTo words r l m X ts) (next : ∀ x, X x → ReadsTo words (f x) m a Y us) :
    ReadsTo words (r >>= f) l a Y (ts ++ us) := by
  intro c ready here
  refine (h c ready here).bind fun x d post => ?_
  obtain ⟨is, ready', here', adds⟩ := post
  refine (next x is d ready' here').imp fun y e post => ?_
  obtain ⟨is', ready'', here'', adds'⟩ := post
  exact ⟨is', ready'', here'', adds.trans adds'⟩

namespace ReadsIn

variable {r : Rule α} {x : α} {y : β} {f : α → Rule β} {l m : List Lexeme}

/-- The same with one answer each. -/
theorem bind (h : ReadsIn words r l m x ts) (next : ReadsIn words (f x) m a y us) :
    ReadsIn words (r >>= f) l a y (ts ++ us) :=
  ReadsTo.bind h fun _ is => is ▸ next

/-- A rule that goes on from what it has looked at. -/
theorem ask (h : Parses r l l x []) (next : ReadsIn words (f x) l a y ts) : ReadsIn words (r >>= f) l a y ts :=
  bind (h words) next

/-- Behind a rule that is done, a fixed answer. -/
theorem answer {r : Rule Unit} (h : ReadsIn words r l a () ts) (y : β) :
    ReadsIn words (r >>= fun _ => Pure.pure y) l a y ts := by
  have whole := h.bind (f := fun _ => Pure.pure y)
    (fun c ready here => .pure ⟨rfl, ready, here, .same (.refl c)⟩ : ReadsIn words (Pure.pure y) a a y [])
  rwa [List.append_nil] at whole

end ReadsIn

namespace ParsesTo

variable {r : Rule α} {f : α → Rule β} {l m : List Lexeme} {X : α → Prop} {Y : β → Prop}

/-- The same whatever the words are. -/
theorem bind (h : ParsesTo r l m X ts) (next : ∀ x, X x → ParsesTo (f x) m a Y us) :
    ParsesTo (r >>= f) l a Y (ts ++ us) := fun words =>
  (h words).bind fun x is => next x is words

/-- A rule that goes on from what it has looked at. -/
theorem ask (h : ParsesTo r l l X []) (next : ∀ x, X x → ParsesTo (f x) l a Y ts) :
    ParsesTo (r >>= f) l a Y ts :=
  h.bind next

/-- Less may be said of the answer. -/
theorem imp {Z : α → Prop} (h : ParsesTo r l a X ts) (imp : ∀ x, X x → Z x) :
    ParsesTo r l a Z ts := by
  intro words c ready here
  refine (h words c ready here).imp fun x d post => ?_
  obtain ⟨is, rest⟩ := post
  exact ⟨imp x is, rest⟩

/-- An answer that is given reads nothing. -/
theorem pure (x : α) (h : X x) (l : List Lexeme) : ParsesTo (Pure.pure x) l l X [] :=
  fun _ c ready here => .pure ⟨h, ready, here, .same (.refl c)⟩

end ParsesTo

namespace Parses

variable {r s : Rule α} {x : α} {y : β} {f : α → Rule β} {l m : List Lexeme}

/-- The same with the one answer. -/
theorem pure (x : α) (l : List Lexeme) : Parses (Pure.pure x) l l x [] :=
  ParsesTo.pure (X := (· = x)) x rfl l

/-- The first rule has one answer, which the second goes on from. -/
theorem bindTo {Y : β → Prop} (h : Parses r l m x ts) (next : ParsesTo (f x) m a Y us) :
    ParsesTo (r >>= f) l a Y (ts ++ us) :=
  ParsesTo.bind h fun _ is => is ▸ next

/-- Both rules have one answer. -/
theorem bind (h : Parses r l m x ts) (next : Parses (f x) m a y us) :
    Parses (r >>= f) l a y (ts ++ us) :=
  h.bindTo next

/-- The first rule only looks. -/
theorem askTo {Y : β → Prop} (h : Parses r l l x []) (next : ParsesTo (f x) l a Y ts) :
    ParsesTo (r >>= f) l a Y ts :=
  h.bindTo next

/-- The first rule only looks, and both have one answer. -/
theorem ask (h : Parses r l l x []) (next : Parses (f x) l a y ts) : Parses (r >>= f) l a y ts :=
  h.bind next

/-- A step that is the last one. -/
theorem answerTo {r : Rule Unit} {Y : β → Prop} (h : Parses r l a () ts) (holds : Y y) :
    ParsesTo (r >>= fun _ => Pure.pure y) l a Y ts := by
  have whole := h.bindTo (f := fun _ => Pure.pure y) (.pure y holds a)
  rwa [List.append_nil] at whole

/-- A step that answers nothing. -/
theorem seq {r : Rule Unit} {s : Rule β} (h : Parses r l m () ts) (next : Parses s m a y us) :
    Parses (r >>= fun _ => s) l a y (ts ++ us) :=
  h.bind next

/-- A test of which the answer is known from what the words are written as. -/
theorem test {v : List Word → Option Limit → α} (h : Answers r v)
    (is : ∀ ws, ws.map Word.lexeme = l → v ws none = x) : Parses r l l x [] := by
  intro words c ready here
  refine (h c).imp fun y d post => ?_
  obtain ⟨answer, same⟩ := post
  rw [ready.refused, is c.rest here] at answer
  exact ⟨answer, same.ready ready, same.rest ▸ here, .same same⟩

/-- The test finds what it looks for. -/
theorem yes {t : Rule Bool} (h : Parses t l l true []) (next : Parses r l a x ts) :
    Parses (t >>= fun b => if b = true then r else s) l a x ts :=
  h.bind next

/-- The test does not find what it looks for. -/
theorem no {t : Rule Bool} (h : Parses t l l false []) (next : Parses s l a x ts) :
    Parses (t >>= fun b => if b = true then r else s) l a x ts :=
  h.bind next

/-- The conjunction of two looks. -/
theorem and {s t : Rule Bool} {x y : Bool} (h : Parses s l l x []) (g : Parses t l l y []) :
    Parses (s <&&> t) l l (x && y) [] := by
  refine h.ask ?_
  cases x with
  | false => exact .pure false l
  | true => exact g

/-- What comes behind a test that fails is not tried. -/
theorem andFails {s : Rule Bool} (h : Parses s l l false []) (t : Rule Bool) :
    Parses (s <&&> t) l l false [] :=
  h.ask (.pure false l)

/-- The disjunction of two looks. -/
theorem or {s t : Rule Bool} {x y : Bool} (h : Parses s l l x []) (g : Parses t l l y []) :
    Parses (s <||> t) l l (x || y) [] := by
  refine h.ask ?_
  cases x with
  | false => exact g
  | true => exact .pure true l

/-- The answer, put through a function. -/
theorem map (h : Parses r l a x ts) (g : α → β) : Parses (g <$> r) l a (g x) ts := by
  have whole := h.bind (f := fun x => Pure.pure (g x)) (.pure (g x) a)
  rwa [List.append_nil, bind_pure_comp] at whole

end Parses

/-! ### What words are written as -/

/-- The kind of the word `n` places ahead. -/
def kindOf (l : List Lexeme) (n : Nat) : Option TokenKind := l[n]?.map (·.kind)

/-- Whether the word `n` places ahead is the identifier. -/
def spelled (l : List Lexeme) (n : Nat) (text : String) : Bool :=
  l[n]?.any fun w => w.kind == .ident && w.text == text

/-- Where a word is ahead the list is not empty. -/
theorem isEmpty_of_kindOf {l : List Lexeme} {kind : TokenKind} (here : kindOf l 0 = some kind) :
    l.isEmpty = false := by
  cases l with
  | nil => cases here
  | cons => rfl

/-- The kinds ahead are read off the lexemes. -/
theorem kindIn_eq (ws : List Word) (n : Nat) : kindIn ws n = kindOf (ws.map Word.lexeme) n := by
  simp [kindIn, kindOf, Function.comp_def, Word.lexeme]

/-- So are the spellings. -/
theorem spells_eq (ws : List Word) (n : Nat) (text : String) :
    spells ws n text = spelled (ws.map Word.lexeme) n text := by
  rw [spells, spelled, List.getElem?_map]
  cases ws[n]? <;> rfl

section

variable (l : List Lexeme)

/-- The kind of a lexeme ahead. -/
theorem kindAt_parses (n : Nat) : Parses (kindAt n) l l (kindOf l n) [] :=
  .test (kindAt_answers n) fun ws here => here ▸ kindIn_eq ws n

theorem current_parses : Parses current l l (kindOf l 0) [] := kindAt_parses l 0

theorem currentIs_parses (kind : TokenKind) :
    Parses (currentIs kind) l l (kindOf l 0 == some kind) [] :=
  (current_parses l).map (· == some kind)

theorem currentIn_parses (set : KindSet) :
    Parses (currentIn set) l l ((kindOf l 0).any set.holds) [] :=
  (current_parses l).map fun k : Option TokenKind => k.any set.holds

theorem nthIs_parses (n : Nat) (kind : TokenKind) :
    Parses (nthIs n kind) l l (kindOf l n == some kind) [] :=
  (kindAt_parses l n).map (· == some kind)

theorem nextIs_parses (kind : TokenKind) : Parses (nextIs kind) l l (kindOf l 1 == some kind) [] :=
  nthIs_parses l 1 kind

/-- The text of the current lexeme. -/
theorem currentText_parses : Parses currentText l l ((l[0]?.map (·.text)).getD "") [] :=
  .test currentText_answers fun ws here => by
    simp [← here, Function.comp_def, Word.lexeme]

/-- The spelling of the current lexeme. -/
theorem atWord_parses (text : String) : Parses (atWord text) l l (spelled l 0 text) [] :=
  .test (atWord_answers text) fun ws here => here ▸ spells_eq ws 0 text

theorem nthIsKeyword_parses (n : Nat) (k : Keyword) :
    Parses (nthIsKeyword n k) l l (spelled l n k.word) [] :=
  .test (nthIsKeyword_answers n k) fun ws here => here ▸ spells_eq ws n k.word

theorem atKeyword_parses (k : Keyword) : Parses (atKeyword k) l l (spelled l 0 k.word) [] :=
  nthIsKeyword_parses l 0 k

/-- The end is the end of the lexemes: no budget is spent. -/
theorem atEnd_parses : Parses atEnd l l l.isEmpty [] :=
  .test atEnd_answers fun ws here => by simp [← here]

/-- Without a budget nothing is refused. -/
theorem isRefused_parses : Parses isRefused l l false [] :=
  .test isRefused_answers fun _ _ => rfl

/-- Where the cursor stands is not told by the lexemes. -/
theorem mark_parses : ParsesTo mark l l (fun _ => True) [] := fun _ c ready here =>
  (mark_yields c).imp fun _ _ post =>
      ⟨trivial, post.2.ready ready, post.2.rest ▸ here, .same post.2⟩

/-- Without a budget every level is entered. -/
theorem descend_parses : Parses descend l l true [] := fun _ c ready here =>
  (descend_yields c).imp fun b d post => by
    cases b with
    | true => exact ⟨rfl, post.ready ready, post.rest ▸ here, .same post⟩
    | false => exact absurd (ready.budget ▸ rfl) post.1

theorem ascend_parses : Parses ascend l l () [] := fun _ c ready here =>
  (ascend_yields c).imp fun _ _ same => ⟨rfl, same.ready ready, same.rest ▸ here, .same same⟩

theorem pushOpener_parses (kind : TokenKind) : Parses (pushOpener kind) l l () [] := by
  intro words c ready here
  refine (pushOpener_yields kind c).imp fun _ d pushed => ?_
  obtain ⟨gap, looks, depth, openers, rfl⟩ := pushed
  exact ⟨rfl, ready.of rfl rfl rfl rfl rfl rfl, here,
    ⟨rfl, [], by simp, rfl⟩⟩

theorem popOpener_parses : Parses popOpener l l () [] := fun _ _ ready here =>
  .modify ⟨rfl, ready.of rfl rfl rfl rfl rfl rfl, here,
    ⟨rfl, [], by simp, rfl⟩⟩

end

/-! ### Words that are read -/

/-- A rule that reads the current word under a label adds its leaf. -/
theorem word_parses {r : Rule Unit} (label : Lexeme → LeafKind) (w : Lexeme) (l : List Lexeme)
    (h : ∀ c, Yields r c fun _ d => ∃ w : Word, Took (label w.lexeme) w c d) :
    Parses r (w :: l) l () [w.leafAs (label w)] := by
  intro words c ready here
  refine (h c).imp fun _ d took => ?_
  obtain ⟨v, took⟩ := took
  rw [took.rest, List.map_cons, List.cons.injEq] at here
  obtain ⟨rfl, rest⟩ := here
  exact ⟨rfl, took.ready ready, rest, took.adds ready⟩

/-- A word that is read as it is. -/
theorem bump_parses (w : Lexeme) (l : List Lexeme) : Parses bump (w :: l) l () [w.leaf] :=
  word_parses (fun w => .token w.kind) w l bump_yields

/-- The leaf for a word that is read as the keyword that it is. -/
def keywordLeaf (k : Keyword) : SyntaxTree := (Lexeme.ofKeyword k).leafAs (.keyword k)

/-- A keyword that was found. -/
theorem takeKeyword_parses (k : Keyword) (l : List Lexeme) :
    Parses (takeKeyword k) (.ofKeyword k :: l) l () [keywordLeaf k] :=
  word_parses (fun _ => .keyword k) (.ofKeyword k) l (takeKeyword_yields k)

/-- A keyword that is read as the keyword it spells. -/
theorem bumpKeyword_parses (k : Keyword) (l : List Lexeme) :
    Parses bumpKeyword (.ofKeyword k :: l) l () [keywordLeaf k] := by
  have label : (Keyword.ofWord? (Lexeme.ofKeyword k).text).elim (LeafKind.token .ident) .keyword =
      .keyword k := by
    simp [Lexeme.ofKeyword, Keyword.ofWord?_word]
  have read := word_parses (fun w => (Keyword.ofWord? w.text).elim (.token .ident) .keyword)
    (.ofKeyword k) l bumpKeyword_yields
  rwa [label] at read

/-- The word is of the kind and is read. -/
theorem eat_hit {w : Lexeme} {kind : TokenKind} (is : w.kind = kind) (l : List Lexeme) :
    Parses (eat kind) (w :: l) l true [w.leaf] := by
  have here := currentIs_parses (w :: l) kind
  rw [show (kindOf (w :: l) 0 == some kind) = true by simp [kindOf, is]] at here
  exact here.yes ((bump_parses w l).seq (.pure true l))

/-- The word is of another kind and stays. -/
theorem eat_miss {l : List Lexeme} {kind : TokenKind} (other : (kindOf l 0 == some kind) = false) :
    Parses (eat kind) l l false [] :=
  (other ▸ currentIs_parses l kind).no (.pure false l)

/-- The keyword is there and is read. -/
theorem eatKeyword_hit (k : Keyword) (l : List Lexeme) :
    Parses (eatKeyword k) (.ofKeyword k :: l) l true [keywordLeaf k] := by
  have here := atKeyword_parses (.ofKeyword k :: l) k
  rw [show spelled (.ofKeyword k :: l) 0 k.word = true by simp [spelled, Lexeme.ofKeyword]] at here
  exact here.yes ((takeKeyword_parses k l).seq (.pure true l))

/-- The keyword is not there and nothing is read. -/
theorem eatKeyword_miss {l : List Lexeme} {k : Keyword} (other : spelled l 0 k.word = false) :
    Parses (eatKeyword k) l l false [] :=
  (other ▸ atKeyword_parses l k).no (.pure false l)

/-- The optional part is there. -/
theorem optional_hit {w : Lexeme} {kind : TokenKind} {body : Rule Unit} {l : List Lexeme}
    (is : w.kind = kind) (h : Parses body (w :: l) a () ts) :
    Parses (optional kind body) (w :: l) a () ts := by
  have here := currentIs_parses (w :: l) kind
  rw [show (kindOf (w :: l) 0 == some kind) = true by simp [kindOf, is]] at here
  exact here.yes h

/-- The optional part is not there. -/
theorem optional_miss {l : List Lexeme} {kind : TokenKind} {body : Rule Unit}
    (other : (kindOf l 0 == some kind) = false) : Parses (optional kind body) l l () [] :=
  (other ▸ currentIs_parses l kind).no (.pure () l)

/-- An assertion that holds. -/
theorem assertAt_parses {w : Lexeme} {kind : TokenKind} (is : w.kind = kind) (l : List Lexeme) :
    Parses (assertAt kind) (w :: l) (w :: l) () [] := by
  refine (current_parses (w :: l)).ask ?_
  rw [if_neg (by simp [kindOf, is])]
  exact .pure () _

/-- The body behind a test that holds. -/
theorem whenever_parses {test : Rule Bool} {body : Rule Unit} {m : List Lexeme}
    (found : Parses test l m true ts) (h : Parses body m a () us) :
    Parses (whenever test body) l a () (ts ++ us) :=
  found.bind h

/-! ### Nodes -/

/-- Parts that came since the place, closed into a node. -/
theorem Adds.close {o : Cursor} {kind : NodeKind} (before : Adds words o c us)
    (body : Adds words (c.openNode kind o.parts.size) d ts) :
    d.opened = ⟨kind, o.parts.size⟩ :: o.opened ∧
      Adds words o (d.closeNode kind o.parts.size) [.node kind (us ++ ts)] := by
  have opened : d.opened = ⟨kind, o.parts.size⟩ :: o.opened := by
    rw [body.opened, ← before.opened]
    rfl
  obtain ⟨ps, parts, added⟩ := before.parts
  obtain ⟨qs, parts', added'⟩ := body.parts
  have all : d.parts.toList = o.parts.toList ++ (ps ++ qs) := by
    rw [parts', ← List.append_assoc, ← parts]
    rfl
  refine ⟨opened, by simp [Cursor.closeNode, opened], [.node kind (ps ++ qs)], ?_, ?_⟩
  · simp [Cursor.toList_parts_closeNode, all]
  · simp [Tree.expandAll, Tree.expand, Tree.expandAll_append, added, added']

/-- The rule is entered with the trees `us` behind the checkpoint and leaves the trees `ts` there. -/
def ReadsInFrom (words : List Word) (us : List SyntaxTree) (r : Checkpoint → Rule α)
    (before after : List Lexeme) (x : α) (ts : List SyntaxTree) : Prop :=
  ∀ o c, Ready words c → Adds words o c us → c.rest.map Word.lexeme = before →
    Yields (r o.parts.size) c fun y d =>
      y = x ∧ Ready words d ∧ d.rest.map Word.lexeme = after ∧ Adds words o d ts

/-- The rule does so whatever the words are. -/
def ParsesFrom (us : List SyntaxTree) (r : Checkpoint → Rule α) (before after : List Lexeme) (x : α)
    (ts : List SyntaxTree) : Prop := ∀ words, ReadsInFrom words us r before after x ts

namespace ReadsInFrom

variable {vs : List SyntaxTree} {l m : List Lexeme} {x : α} {y : β}

/-- A rule that reads behind the checkpoint before the rest does. -/
theorem behind {t : Checkpoint → Rule β} {f : β → Checkpoint → Rule α}
    (h : ∀ p, ReadsIn words (t p) l m y vs) (next : ReadsInFrom words (us ++ vs) (f y) m a x ts) :
    ReadsInFrom words us (fun p => t p >>= fun y => f y p) l a x ts := by
  intro o c ready before here
  refine (h _ c ready here).bind fun y d post => ?_
  obtain ⟨rfl, ready', here', adds⟩ := post
  exact next o d ready' (before.trans adds) here'

/-- A test is made before. -/
theorem ask {t : Checkpoint → Rule β} {f : β → Checkpoint → Rule α} (h : ∀ p, Parses (t p) l l y [])
    (next : ReadsInFrom words us (f y) l a x ts) :
    ReadsInFrom words us (fun p => t p >>= fun y => f y p) l a x ts :=
  behind (fun p => h p words) (by rwa [List.append_nil])

/-- A rule that reads behind what the checkpoint stands for. -/
theorem bind {r : Checkpoint → Rule β} {f : β → Checkpoint → Rule α}
    (h : ReadsInFrom words us r l m y ts) (next : ∀ p, ReadsIn words (f y p) m a x vs) :
    ReadsInFrom words us (fun p => r p >>= fun y => f y p) l a x (ts ++ vs) := by
  intro o c ready before here
  refine (h o c ready before here).bind fun y d post => ?_
  obtain ⟨rfl, ready', here', adds⟩ := post
  refine (next _ d ready' here').imp fun x e post => ?_
  obtain ⟨is, ready'', here'', adds'⟩ := post
  exact ⟨is, ready'', here'', adds.trans adds'⟩

/-- Behind a rule that is done, a fixed answer. -/
theorem answer {r : Checkpoint → Rule Unit} (h : ReadsInFrom words us r l a () ts) (y : β) :
    ReadsInFrom words us (fun p => r p >>= fun _ => Pure.pure y) l a y ts := by
  have whole := h.bind (f := fun _ _ => Pure.pure y) fun _ => Parses.pure y a words
  rwa [List.append_nil] at whole

end ReadsInFrom

namespace ParsesFrom

variable {vs : List SyntaxTree} {l m : List Lexeme} {x : α} {y : β}

/-- The same whatever the words are. -/
theorem behind {t : Checkpoint → Rule β} {f : β → Checkpoint → Rule α}
    (h : ∀ p, Parses (t p) l m y vs)
    (next : ParsesFrom (us ++ vs) (f y) m a x ts) :
    ParsesFrom us (fun p => t p >>= fun y => f y p) l a x ts := fun words =>
  .behind (fun p => h p words) (next words)

/-- A test is made before. -/
theorem ask {t : Checkpoint → Rule β} {f : β → Checkpoint → Rule α} (h : ∀ p, Parses (t p) l l y [])
    (next : ParsesFrom us (f y) l a x ts) :
    ParsesFrom us (fun p => t p >>= fun y => f y p) l a x ts := fun words =>
  .ask h (next words)

/-- The branch that is taken on yes. -/
theorem yes {t : Checkpoint → Rule Bool} {r s : Checkpoint → Rule α}
    (h : ∀ p, Parses (t p) l l true [])
    (next : ParsesFrom us r l a x ts) :
    ParsesFrom us (fun p => t p >>= fun b => if b = true then r p else s p) l a x ts :=
  ask h next

/-- The branch that is taken on no. -/
theorem no {t : Checkpoint → Rule Bool} {r s : Checkpoint → Rule α}
    (h : ∀ p, Parses (t p) l l false [])
    (next : ParsesFrom us s l a x ts) :
    ParsesFrom us (fun p => t p >>= fun b => if b = true then r p else s p) l a x ts :=
  ask h next

/-- The same whatever the words are. -/
theorem bind {r : Checkpoint → Rule β} {f : β → Checkpoint → Rule α} (h : ParsesFrom us r l m y ts)
    (next : ∀ p, Parses (f y p) m a x vs) :
    ParsesFrom us (fun p => r p >>= fun y => f y p) l a x (ts ++ vs) := fun words =>
  (h words).bind fun p => next p words

end ParsesFrom

/-- The node takes in what stood behind the checkpoint. -/
theorem ReadsIn.nodeAt {kind : NodeKind} {body : Rule Unit} (h : ReadsIn words body b a () ts)
    (us : List SyntaxTree) :
    ReadsInFrom words us (fun point => nodeAt point kind body) b a () [.node kind (us ++ ts)] := by
  intro o c ready before here
  have inner : Ready words (c.openNode kind o.parts.size) :=
    ready.of rfl rfl rfl rfl rfl rfl
  refine (nodeAt_yields ((h _ inner here).imp fun _ _ post => post.2)).imp
      fun _ d closed => ?_
  obtain ⟨e, n, os, ⟨ready', here', adds⟩, opened, rfl⟩ := closed
  obtain ⟨opened', whole⟩ := before.close adds
  obtain ⟨rfl, -⟩ := List.cons.inj (opened.symm.trans opened')
  exact ⟨rfl, ready'.of rfl rfl rfl rfl rfl rfl, here', whole⟩

/-- The same whatever the words are. -/
theorem nodeAt_parses {kind : NodeKind} {body : Rule Unit} (h : Parses body b a () ts)
    (us : List SyntaxTree) :
    ParsesFrom us (fun point => nodeAt point kind body) b a () [.node kind (us ++ ts)] := fun words =>
  ReadsIn.nodeAt (h words) us

/-- A gap that is placed adds nothing but trivia. -/
theorem Adds.placeGap (c : Cursor) : Adds words c c.placeGap [] :=
  ⟨rfl, (c.gap.due c.passed).toList, Cursor.toList_parts_placeGap c, expandAll_due ..⟩

/-- A node around what its body adds. -/
theorem ReadsIn.node {kind : NodeKind} {body : Rule Unit} (h : ReadsIn words body b a () ts) :
    ReadsIn words (node kind body) b a () [.node kind ts] := by
  intro c ready here
  have inner : Ready words (c.placeGap.openNode kind c.placeGap.parts.size) :=
    ready.of rfl rfl rfl rfl rfl rfl
  refine (node_yields ((h _ inner here).imp fun _ _ post => post.2)).imp fun _ d closed => ?_
  obtain ⟨e, n, os, ⟨ready', here', adds⟩, opened, rfl⟩ := closed
  obtain ⟨opened', whole⟩ := (Adds.same (.refl c.placeGap)).close adds
  obtain ⟨rfl, -⟩ := List.cons.inj (opened.symm.trans opened')
  exact ⟨rfl, ready'.of rfl rfl rfl rfl rfl rfl, here',
    (Adds.placeGap c).trans whole⟩

/-- The same whatever the words are. -/
theorem node_parses {kind : NodeKind} {body : Rule Unit} (h : Parses body b a () ts) :
    Parses (node kind body) b a () [.node kind ts] := fun words => ReadsIn.node (h words)

theorem placeGap_parses (l : List Lexeme) : Parses placeGap l l () [] := fun _ c ready here =>
  .modify ⟨rfl, ready.of rfl rfl rfl rfl rfl rfl, here, .placeGap c⟩

theorem skipAndPlaceGap_parses (l : List Lexeme) : Parses skipAndPlaceGap l l () [] := by
  have skipped : Parses skipGap l l () [] := fun _ c ready here =>
    have same : Same c c.skipGap := ⟨_, _, _, rfl⟩
    .modify ⟨rfl, same.ready ready, here, .same same⟩
  exact skipped.seq (placeGap_parses l)

/-- What begins here. -/
theorem ReadsIn.checkpoint {r : Checkpoint → Rule α} {x : α} (h : ReadsInFrom words [] r b a x ts) :
    ReadsIn words (checkpoint >>= r) b a x ts := by
  have placed : ReadsIn words (skipAndPlaceGap >>= fun _ => do r (← get).parts.size) b a x ([] ++ ts) :=
    ReadsIn.bind (skipAndPlaceGap_parses b words) fun c ready here =>
      .get (h c c ready (.same (.refl c)) here)
  simpa [Grammar.checkpoint] using placed

/-- From a new checkpoint on nothing stands behind it yet. -/
theorem checkpoint_parses {r : Checkpoint → Rule α} {x : α} (h : ParsesFrom [] r b a x ts) :
    Parses (checkpoint >>= r) b a x ts := fun words => ReadsIn.checkpoint (h words)

/-! ### Loops -/

section

variable {σ : Type} {step : σ → Rule (Turn σ)} {s : σ} {I X : σ → Prop} {l m : List Lexeme}

/-- However many rounds there may be, they lead there. -/
def Rounds (step : σ → Rule (Turn σ)) (s : σ) (before after : List Lexeme) (X : σ → Prop)
    (ts : List SyntaxTree) : Prop :=
  ∀ n, ParsesTo (rounds step n s) before after X ts

/-- No round at all comes back with nothing. -/
theorem ParsesTo.ofRounds (h : ∀ n, ParsesTo (rounds step (n + 1) s) l a X ts) :
    Rounds step s l a X ts := by
  intro n
  cases n with
  | zero => exact fun _ _ _ _ => .throw _
  | succ n => exact h n

/-- The last round. -/
theorem Rounds.done (h : ParsesTo (step s) l a (fun t => ∃ s', t = .done s' ∧ X s') ts) :
    Rounds step s l a X ts := .ofRounds fun n => by
  have whole : ParsesTo (rounds step (n + 1) s) l a X (ts ++ []) := h.bind fun t is => by
    obtain ⟨s', rfl, holds⟩ := is
    exact .pure s' holds a
  rwa [List.append_nil] at whole

/-- One round and those behind it. -/
theorem Rounds.again (h : ParsesTo (step s) l m (fun t => ∃ s', t = .again s' ∧ I s') ts)
    (next : ∀ s', I s' → Rounds step s' m a X us) : Rounds step s l a X (ts ++ us) :=
      .ofRounds fun n =>
  h.bind fun t is => by
    obtain ⟨s', rfl, holds⟩ := is
    exact next s' holds n

/-- Rounds to the end make a loop. -/
theorem Rounds.loop (h : Rounds step s l a X ts) : ParsesTo (Grammar.loop s step) l a X ts :=
  fun words c ready here => .get (h _ words c ready here)

end

/-- A turn as a round of a loop. -/
def roundOf (turn : Rule Bool) (_ : Unit) : Rule (Turn Unit) := do
  if ← turn then return .again ()
  return .done ()

/-- Turns that lead there, the last of which says so. -/
def Repeats (turn : Rule Bool) (before after : List Lexeme) (ts : List SyntaxTree) : Prop :=
  Rounds (roundOf turn) () before after (fun _ => True) ts

section

variable {turn : Rule Bool} {l m : List Lexeme}

/-- A turn as one round. -/
theorem roundOf_parses {b : Bool} (h : Parses turn l a b ts) :
    Parses (roundOf turn ()) l a (if b = true then .again () else .done ()) ts := by
  have whole : Parses (roundOf turn ()) l a (if b = true then .again () else .done ())
      (ts ++ []) := by
    refine h.bind ?_
    cases b with
    | true => exact .pure _ a
    | false => exact .pure _ a
  rwa [List.append_nil] at whole

/-- The turn that says so is the last one. -/
theorem Repeats.stop (h : Parses turn l a false ts) : Repeats turn l a ts :=
  .done ((roundOf_parses h).imp fun _ is => ⟨(), is, trivial⟩)

/-- One turn and those behind it. -/
theorem Repeats.again (h : Parses turn l m true ts) (next : Repeats turn m a us) :
    Repeats turn l a (ts ++ us) :=
  Rounds.again (I := fun _ => True) ((roundOf_parses h).imp fun _ is => ⟨(), is, trivial⟩)
      fun _ _ => next

/-- Turns to the last one make a repetition. -/
theorem repeatWhile_parses (h : Repeats turn l a ts) : Parses (repeatWhile turn) l a () ts :=
  (Rounds.loop h).imp fun _ _ => rfl

/-- A first turn in this source, and others in any. -/
theorem ReadsIn.repeatWhile (first : ReadsIn words turn l m true ts) (next : Repeats turn m a us) :
    ReadsIn words (repeatWhile turn) l a () (ts ++ us) := by
  have round : ReadsIn words (roundOf turn ()) l m (.again ()) ts := by
    have whole : ReadsIn words (roundOf turn ()) l m (.again ()) (ts ++ []) :=
      first.bind (Parses.pure (Turn.again ()) m words)
    rwa [List.append_nil] at whole
  have whole (n : Nat) : ReadsTo words (rounds (roundOf turn) (n + 1) ()) l a (fun _ => True) (ts ++ us) :=
    ReadsTo.bind round fun t is => is ▸ next n words
  exact fun c ready here => .get ((whole _ c ready here).imp fun _ _ post => ⟨rfl, post.2⟩)

end

/-! ### Delimiters -/

/-- An opener, what is read turn by turn, and its closer. -/
theorem ReadsIn.delimited (d : Delimiters) {turn : Rule Bool} (first : Lexeme) {last : Lexeme}
    {l : List Lexeme} (closes : last.kind = d.closer)
    (h : ReadsIn words (Grammar.repeatWhile turn) l (last :: a) () ts) :
    ReadsIn words (Grammar.delimited d turn) (first :: l) a () (first.leaf :: ts ++ [last.leaf]) := by
  have within : ReadsIn words (inside d.opener (Grammar.repeatWhile turn)) (first :: l) (last :: a) ()
      ([] ++ ([first.leaf] ++ (ts ++ []))) :=
    .bind (pushOpener_parses _ _ words) <| .bind (bump_parses first l words) <|
      h.bind (popOpener_parses _ words)
  have closer (report : Rule Unit) : Parses
      (do if !(← eat d.closer) && !(d.excused && (← isRefused)) then report) (last :: a) a () [last.leaf] :=
    (eat_hit closes a).bind <| (isRefused_parses a).bind (.pure () a)
  have closed : ReadsIn words (Grammar.delimited d turn) (first :: l) a () _ :=
    ReadsTo.bind (mark_parses _ words) fun opener _ => within.bind (closer _ words)
  simpa using closed

/-- A list from its opening word to its closing one. -/
theorem delimited_parses (d : Delimiters) {turn : Rule Bool} (first : Lexeme) {last : Lexeme}
    {l : List Lexeme} (closes : last.kind = d.closer) (h : Repeats turn l (last :: a) ts) :
    Parses (delimited d turn) (first :: l) a () (first.leaf :: ts ++ [last.leaf]) := fun words =>
  ReadsIn.delimited d first closes (repeatWhile_parses h words)

end ImplicitGlobals.Grammar
