import ImplicitGlobals.Proofs.Mending.Notes

/-!
# The same words, one place further on

Two runs with the same words ahead do the same, though one word more lies behind the second one. As
much is complained of in both, unless the second one complains of a word that the first one has
complained of before.
-/

namespace ImplicitGlobals.Grammar

variable {α β : Type} {i : Nat} {old old' : List Complaint} {c c' d d' e : Cursor}

/-- As many complaints were added to `old` as to `old'`, and where the runs stand both have complained or
neither has; only at word `i` the first one may have done so alone. -/
structure Counted (i : Nat) (old old' : List Complaint) (c c' : Cursor) : Prop where
  added : ∃ new new', c.complaints = new ++ old ∧ c'.complaints = new' ++ old' ∧ new'.length = new.length
  last : (∀ p ∈ c.lastPlace, p ≤ c.passed) ∧ ∀ p ∈ c'.lastPlace, p ≤ c'.passed
  fresh : c.passed = i ∧ c.lastPlace = some i ∨
    (c.lastPlace = some c.passed ↔ c'.lastPlace = some c'.passed)

/-- The words ahead are the same, and one word more lies behind the second cursor. As much was complained
of, unless the second run has complained of word `i`, which is its word `i + 1`. -/
structure Shifted (i : Nat) (old old' : List Complaint) (c c' : Cursor) : Prop where
  rest : c'.rest = c.rest
  passed : c'.passed = c.passed + 1
  openers : c'.openers.map (·.kind) = c.openers.map (·.kind)
  free : c.budget = {} ∧ c'.budget = {}
  refused : c'.refused = c.refused
  counted : (∃ k ∈ c'.complaints, k.place = i + 1) ∨ Counted i old old' c c'

namespace Shifted

/-- Looking and building keep the complaints where they are. -/
theorem stays (h : Shifted i old old' c c') (left : Stays c d) (right : Stays c' d') : Shifted i old old' d d' := by
  obtain ⟨⟨_, _, _, _, _, rfl⟩, -⟩ := left
  obtain ⟨⟨_, _, _, _, _, rfl⟩, -⟩ := right
  exact ⟨h.rest, h.passed, h.openers, h.free, h.refused, h.counted.imp id fun counted =>
    ⟨counted.added, counted.last, counted.fresh⟩⟩

/-- Delimiters of the same kinds are put around both. -/
theorem around (h : Shifted i old old' c c') {openers openers' : List Opener}
    (kinds : openers'.map (·.kind) = openers.map (·.kind)) :
    Shifted i old old' { c with openers } { c' with openers := openers' } where
  rest := h.rest
  passed := h.passed
  openers := kinds
  free := h.free
  refused := h.refused
  counted := h.counted.imp id fun counted => ⟨counted.added, counted.last, counted.fresh⟩

theorem same (h : Shifted i old old' c c') (left : Same c d) (right : Same c' d') : Shifted i old old' d d' :=
  h.stays left.stays right.stays

/-- A word is read in both runs, and the shift stays. -/
theorem took (h : Shifted i old old' c c') {label label' : LeafKind} {w w' : Word} (left : Took label w c d)
    (right : Took label' w' c' d') : Shifted i old old' d d' where
  rest := by
    have whole := h.rest
    rw [left.rest, right.rest] at whole
    exact (List.cons.inj whole).2
  passed := by rw [right.passed, left.passed, h.passed]
  openers := by rw [right.openers, left.openers, h.openers]
  free := ⟨(left.unbounded h.free.1).1, (right.unbounded h.free.2).1⟩
  refused := by rw [(left.unbounded h.free.1).2, (right.unbounded h.free.2).2, h.refused]
  counted := h.counted.imp (fun spoilt => right.complaints ▸ spoilt) fun counted => by
    have behind (p : Nat) (mem : p ∈ c.lastPlace) := counted.last.1 p mem
    have behind' (p : Nat) (mem : p ∈ c'.lastPlace) := counted.last.2 p mem
    refine ⟨by rw [left.complaints, right.complaints]; exact counted.added, ?_, .inr ?_⟩
    · rw [left.lastPlace, right.lastPlace, left.passed, right.passed]
      exact ⟨fun p mem => Nat.le_succ_of_le (behind p mem), fun p mem => Nat.le_succ_of_le (behind' p mem)⟩
    · rw [left.lastPlace, right.lastPlace, left.passed, right.passed]
      refine iff_of_false (fun last => ?_) fun last => ?_
      · exact Nat.not_succ_le_self _ (behind _ last)
      · exact Nat.not_succ_le_self _ (behind' _ last)

/-- A complaint that both runs come to. -/
theorem complain (h : Shifted i old old' c c') {f f' : Nat → Option Nat → Complaint}
    (place : ∀ j o, (f' j o).place = j) : Yields (complain f) c fun _ d => Yields (complain f') c' fun _ d' =>
      Shifted i old old' d d' := by
  refine (mark_yields c).bind fun _ d post => .modify <| (mark_yields c').bind fun _ d' post' => .modify ?_
  obtain ⟨rfl, same⟩ := post
  obtain ⟨rfl, same'⟩ := post'
  replace h := h.same same same'
  obtain ⟨_, _, _, rfl⟩ := same
  obtain ⟨_, _, _, rfl⟩ := same'
  split <;> split
  · exact h
  · next last fresh' =>
    refine { h with counted := .inl ?_ }
    rcases h.counted with ⟨k, mem, spoilt⟩ | counted
    · exact ⟨k, List.mem_cons_of_mem _ mem, spoilt⟩
    · obtain ⟨here, -⟩ := counted.fresh.resolve_right fun both => fresh' (both.1 last)
      exact ⟨_, List.mem_cons_self, (place _ _).trans (h.passed.trans (congrArg (· + 1) here))⟩
  · next fresh last' =>
    refine { h with counted := h.counted.imp id fun counted => ?_ }
    refine absurd last' fun last' => ?_
    rcases counted.fresh with ⟨here, last⟩ | both
    · exact fresh (last.trans (congrArg some here.symm))
    · exact fresh (both.2 last')
  · next fresh fresh' =>
    refine { h with counted := ?_ }
    rcases h.counted with ⟨k, mem, spoilt⟩ | counted
    · exact .inl ⟨k, List.mem_cons_of_mem _ mem, spoilt⟩
    · obtain ⟨new, new', added, added', length⟩ := counted.added
      refine .inr ⟨⟨_ :: new, _ :: new', congrArg _ added, congrArg _ added', congrArg Nat.succ length⟩, ?_,
        .inr (iff_of_true rfl rfl)⟩
      exact ⟨fun p mem => Nat.le_of_eq (Option.some.inj mem).symm, fun p mem => Nat.le_of_eq (Option.some.inj mem).symm⟩

end Shifted

/-! ### Every rule keeps up with itself -/

/-- Both rules give answers that go together, and are shifted as before behind them. -/
def KeepsShift (i : Nat) (old old' : List Complaint) (V : Link α) (r r' : Rule α) : Prop :=
  ∀ c c', Shifted i old old' c c' →
    Yields r c fun x d => Yields r' c' fun y d' => V.Holds x y ∧ Shifted i old old' d d'

namespace KeepsShift

variable {V : Link α} {r r' : Rule α}

/-- Two rules one behind the other keep it. -/
theorem bind {W : Link β} {f g : α → Rule β} (h : KeepsShift i old old' V r r')
    (next : ∀ x y, V.Holds x y → KeepsShift i old old' W (f x) (g y)) :
    KeepsShift i old old' W (r >>= f) (r' >>= g) := fun c c' rel =>
  (h c c' rel).bindBoth fun x y d d' both => next x y both.1 d d' both.2

/-- Tests see the same words. -/
theorem answers {v : List Word → Option Limit → α} (h : Answers r v) : KeepsShift i old old' .same r r :=
  fun c c' rel => (h c).imp fun _ _ post => (h c').imp fun _ _ post' => by
    obtain ⟨rfl, same⟩ := post
    obtain ⟨rfl, same'⟩ := post'
    exact ⟨by rw [rel.rest, rel.refused]; rfl, rel.same same same'⟩

/-- Rules that only look keep it. -/
theorem quiet (looks : ∀ c, Yields r c fun _ d => Same c d) (looks' : ∀ c, Yields r' c fun _ d => Same c d)
    (all : ∀ x y, V.Holds x y) : KeepsShift i old old' V r r' := fun c c' rel =>
  (looks c).imp fun x _ same => (looks' c').imp fun y _ same' => ⟨all x y, rel.same same same'⟩

/-- Reading a word keeps it. -/
theorem takeAs (label label' : LeafKind) : KeepsShift i old old' .same (takeAs label) (takeAs label') :=
  fun c c' rel => (takeAs_yields label c).imp fun _ _ took => (takeAs_yields label' c').imp fun _ _ took' =>
    ⟨rfl, rel.took took.choose_spec took'.choose_spec⟩

/-- What is built around two bodies does not count. -/
theorem around {body body' : Rule Unit} (h : KeepsShift i old old' .same body body') (rel : Shifted i old old' c c')
    (left : Stays c d) (right : Stays c' d') : Yields body d fun _ e => Yields body' d' fun _ e' =>
      ∀ f f', Stays e f → Stays e' f' → () = () ∧ Shifted i old old' f f' :=
  (h d d' (rel.stays left right)).imp fun _ _ post => post.imp fun _ _ both _ _ left right =>
    ⟨rfl, both.2.stays left right⟩

/-- A node keeps what its body keeps. -/
theorem node {kind : NodeKind} {body body' : Rule Unit} (h : KeepsShift i old old' .same body body') :
    KeepsShift i old old' .same (node kind body) (node kind body') := fun _ _ rel =>
  nodes_build fun _ _ => h.around rel

/-- So does a node that begins earlier. -/
theorem nodeAt {kind : NodeKind} {body body' : Rule Unit} (h : KeepsShift i old old' .same body body')
    (point point' : Checkpoint) : KeepsShift i old old' .same (nodeAt point kind body) (nodeAt point' kind body') :=
  fun _ _ rel => nodesAt_build fun _ _ => h.around rel

theorem pushOpener (kind : TokenKind) : KeepsShift i old old' .same (pushOpener kind) (Grammar.pushOpener kind) :=
  fun c c' rel => (pushOpener_pushes kind c).imp fun _ _ pushed => (pushOpener_pushes kind c').imp fun _ _ pushed' => by
    obtain ⟨d, same, rfl⟩ := pushed
    obtain ⟨d', same', rfl⟩ := pushed'
    have rel := rel.same same same'
    exact ⟨rfl, rel.around (congrArg (kind :: ·) rel.openers)⟩

theorem popOpener : KeepsShift i old old' .same popOpener popOpener := fun c c' rel =>
  .modify <| .modify ⟨rfl, rel.around (by rw [List.map_tail, List.map_tail, rel.openers])⟩

/-- Without bounds a level more is always allowed. -/
theorem descend : KeepsShift i old old' .same descend descend := fun c c' rel =>
  (descend_yields c).imp fun x d post => (descend_yields c').imp fun y d' post' => by
    have deeper {b : Bool} {c d : Cursor} (free : c.budget = {})
        (post : if b = true then Same c d else c.budget.nesting ≠ none ∧ d.refused ≠ none) : b = true ∧ Same c d := by
      cases b with
      | true => exact ⟨rfl, post⟩
      | false => exact absurd (by rw [free]) post.1
    obtain ⟨rfl, same⟩ := deeper rel.free.1 post
    obtain ⟨rfl, same'⟩ := deeper rel.free.2 post'
    exact ⟨rfl, rel.same same same'⟩

theorem bump : KeepsShift i old old' .same bump bump :=
  bind (answers current_answers) fun _ _ _ => takeAs _ _

/-- Keeping up as a relation between rules. -/
def relation (i : Nat) (old old' : List Complaint) : RuleRelation where
  Rel _ V r r' := KeepsShift i old old' V r r'
  given h _ := h
  pure holds _ _ rel := .pure (.pure ⟨holds, rel⟩)
  throwLeft b _ _ _ _ := .throw b
  throwRight _ b _ _ _ _ _ _ := .throw b
  bind h _ next := h.bind next
  look sees := answers sees.answers
  mark := quiet (fun c => (mark_yields c).imp fun _ _ post => post.2) (fun c => (mark_yields c).imp fun _ _ post => post.2)
    fun _ _ => trivial
  atEnd := answers atEnd_answers
  isRefused := answers isRefused_answers
  inBlock c c' rel := .get (.pure (.get (.pure ⟨by
    have first := congrArg List.head? rel.openers
    rw [List.head?_map, List.head?_map] at first
    have kinds (o : Option Opener) : o.any (·.kind == .braceOpen) = (o.map (·.kind)).any (· == .braceOpen) := by
      cases o <;> rfl
    rw [kinds, kinds, first]
    rfl, rel⟩)))
  bounded h c c' rel := .get ((h c.total c'.total c c' rel).imp fun _ _ post => .get post)
  takeAs label := takeAs label label
  placeGap _ _ rel := .modify (.modify ⟨rfl, rel.stays (.placeGap _) (.placeGap _)⟩)
  skipGap _ _ rel := .modify (.modify ⟨rfl, rel.same ⟨_, _, _, rfl⟩ ⟨_, _, _, rfl⟩⟩)
  points := .any
  checkpoint _ _ rel := by
    intro x d run y d' run'
    cases run
    cases run'
    exact ⟨trivial, (rel.same ⟨_, _, _, rfl⟩ ⟨_, _, _, rfl⟩).stays (.placeGap _) (.placeGap _)⟩
  Ordinary _ := True
  ordinary _ := trivial
  node _ _ _ h := h.node
  nodeAt _ _ _ _ _ _ h := h.nodeAt _ _
  inside kind _ _ h := (pushOpener kind).bind fun _ _ _ => bump.bind fun _ _ _ => bind h fun _ _ _ => popOpener
  descend := descend
  ascend := quiet ascend_yields ascend_yields fun _ _ => rfl
  here _ _ _ _ rel := (rel.complain fun _ _ => rfl).imp fun _ _ post => post.imp fun _ _ rel => ⟨rfl, rel⟩
  noSemicolon _ _ _ rel := (rel.complain fun _ _ => rfl).imp fun _ _ post => post.imp fun _ _ rel => ⟨rfl, rel⟩
  unclosed _ _ _ _ _ _ rel := (rel.complain fun _ _ => rfl).imp fun _ _ post => post.imp fun _ _ rel => ⟨rfl, rel⟩

end KeepsShift

/-- Every rule keeps up with itself one place further on. -/
def shifting (i : Nat) (old old' : List Complaint) : GrammarRelation where
  toRuleRelation := KeepsShift.relation i old old'
  ofTypeExpr special := absurd trivial special
  ofExportDefault special := absurd ⟨trivial, trivial⟩ special
  ofExportAssignment special := absurd ⟨trivial, trivial⟩ special
  ofImportDeclaration special := absurd trivial special
  ofModuleDeclaration special := absurd trivial special
  ofGlobalDeclaration special := absurd trivial special
  ofBracedBody _ special := absurd trivial special
  ofList _ special := absurd trivial special

end ImplicitGlobals.Grammar
