import ImplicitGlobals.Proofs.Grammar.Order
import ImplicitGlobals.Proofs.Grammar.Related

/-!
# What one run leaves behind

A relation between the cursor before a rule and the cursor behind it that all steps of the grammar
keep. It is the relation between two rules in which the second one does not count.
-/

namespace ImplicitGlobals.Grammar

variable {α β : Type} {c d e : Cursor}

/-- A complaint that a rule may make where the cursor stands. -/
structure Cursor.Makes (c : Cursor) (k : Complaint) : Prop where
  place : k.place = c.passed
  around : k.isOfOpener = false → k.opener? = c.innermost
  kind : k.kind.isUnclosed = k.isOfOpener

/-- A delimiter that is still open may be complained of anywhere. -/
theorem Cursor.makes_unclosed {kind : DiagnosticKind} (unclosed : kind.isUnclosed = true) (note : String)
    (opener : Nat) (c : Cursor) : c.Makes (.unclosed kind note opener c.passed) where
  place := rfl
  around own := Bool.noConfusion own
  kind := unclosed

/-- A relation along a run that all steps keep. -/
structure Trail (Ordinary : NodeKind → Prop) (T : Cursor → Cursor → Prop) : Prop where
  refl (c : Cursor) : T c c
  trans {c d e : Cursor} : T c d → T d e → T c e
  opened {c d : Cursor} : T c d → d.opened = c.opened
  /-- Counting looks and levels and skipping a gap do not matter. -/
  count (c : Cursor) (gap : Gap) (looks depth : Nat) {refused : Option Limit}
    (kept : refused = none → c.refused = none) : T c { c with gap, looks, depth, refused }
  took {label : LeafKind} {w : Word} {c d : Cursor} : Took label w c d → T c d
  placeGap (c : Cursor) : T c c.placeGap
  note {c : Cursor} {k : Complaint} (fresh : c.lastPlace ≠ some c.passed) (makes : c.Makes k) :
    T c (c.note k)
  close {c e : Cursor} {kind : NodeKind} {first : Nat} (ordinary : Ordinary kind)
    (among : first ≤ c.parts.size)
    (outer : first < c.parts.size → ∀ o ∈ c.opened.head?, o.first ≤ first)
    (body : T (c.openNode kind first) e) : T c (e.closeNode kind first)
  within {c d e : Cursor} {label : LeafKind} {w : Word} (kind : TokenKind)
    (read : Took label w (c.pushOpener kind) d) (body : T d e) : T c e.popOpener

/-- The rule leaves a trail wherever it is entered. -/
def Trails (T : Cursor → Cursor → Prop) (r : Rule α) : Prop := ∀ c, Yields r c fun _ d => T c d

/-- A node is opened at a point that is still valid. -/
theorem startNodeAt_valid (point : Checkpoint) (kind : NodeKind) (c : Cursor) :
    Yields (startNodeAt point kind) c fun _ d => d = c.openNode kind point ∧
      point ≤ c.parts.size ∧ ∀ o ∈ c.opened.head?, o.first ≤ point := by
  refine .get (.ite (fun _ => (Yields.throw _).bind fun _ _ none => none) fun valid => ?_)
  simp only [Bool.or_eq_true, decide_eq_true_eq, not_or, Nat.not_lt, Option.any_eq_true,
    not_exists, not_and] at valid
  intro x d run
  cases run
  exact ⟨rfl, valid.1, valid.2⟩

/-- A delimiter is remembered where the cursor stands. -/
theorem pushOpener_pushes (kind : TokenKind) (c : Cursor) :
    Yields (pushOpener kind) c fun _ e => ∃ d, Same c d ∧ e = d.pushOpener kind := by
  refine (mark_yields c).bind fun i d post => .modify ⟨d, post.2, ?_⟩
  obtain ⟨rfl, _, _, _, rfl⟩ := post
  rfl

/-- The opener is pushed and read before what is inside. -/
theorem inside_yields {kind : TokenKind} {body : Rule Unit} {Q : Cursor → Prop}
    (h : ∀ {d e : Cursor} {label : LeafKind} {w : Word}, Same c d → Took label w (d.pushOpener kind) e →
      Yields body e fun _ f => Q f.popOpener) :
    Yields (inside kind body) c fun _ f => Q f := by
  refine (pushOpener_pushes kind c).bind fun _ e pushed => ?_
  obtain ⟨d, same, rfl⟩ := pushed
  refine (bump_one _).bind fun _ f took => ?_
  obtain ⟨w, label, took⟩ := took
  exact (h same took).bind fun _ g body => .modify body

/-- A node is not begun before the one in which it lies. -/
theorem nodeAt_valid (point : Checkpoint) (kind : NodeKind) (body : Rule Unit) (c : Cursor) :
    Yields (nodeAt point kind body) c fun _ _ => ∀ o ∈ c.opened.head?, o.first ≤ point :=
  (startNodeAt_valid point kind c).bind fun _ _ start _ _ _ => start.2.2

/-- What is closed was begun before, and not before the node in which it lies. -/
theorem nodeAt_closes {point : Checkpoint} {kind : NodeKind} {body : Rule Unit} {Q : Cursor → Prop}
    (h : Yields body (c.openNode kind point) fun _ e => Q e) :
    Yields (nodeAt point kind body) c fun _ d => point ≤ c.parts.size ∧ (∀ o ∈ c.opened.head?, o.first ≤ point) ∧
      ∃ e o os, Q e ∧ e.opened = o :: os ∧ d = e.closeNode o.kind o.first := by
  refine (startNodeAt_valid point kind c).bind fun _ d start => ?_
  obtain ⟨rfl, among, outer⟩ := start
  refine h.bind fun _ e post => (finishNode_yields e).imp fun _ d closed => ?_
  obtain ⟨o, os, innermost, rfl⟩ := closed
  exact ⟨among, outer, e, o, os, post, innermost, rfl⟩

namespace Trail

variable {Ordinary : NodeKind → Prop} {T : Cursor → Cursor → Prop} (h : Trail Ordinary T)
include h

theorem ofSame (same : Same c d) : T c d := by
  obtain ⟨gap, looks, depth, rfl⟩ := same
  exact h.count c gap looks depth id

/-- Two rules that follow the trail, one behind the other. -/
theorem bind {r : Rule α} {f : α → Rule β} (first : Trails T r) (next : ∀ x, Trails T (f x)) :
    Trails T (r >>= f) := fun c =>
  (first c).bind fun x d before => (next x d).imp fun _ _ after => h.trans before after

/-- Looking follows every trail. -/
theorem look {t : Rule β} (looks : ∀ c, Yields t c fun _ d => Same c d) : Trails T t :=
  fun c => (looks c).imp fun _ _ => h.ofSame

/-- So do questions. -/
theorem answers {t : Rule β} {v : List Word → Option Limit → β} (answers : Answers t v) :
    Trails T t := h.look fun c => (answers c).imp fun _ _ post => post.2

/-- A complaint that is made here follows it. -/
theorem complain (k : Nat → Option Nat → Complaint)
    (makes : ∀ c : Cursor, c.Makes (k c.passed c.innermost)) : Trails T (complain k) := fun c => by
  refine (mark_yields c).bind fun i d post => .modify ?_
  obtain ⟨rfl, same⟩ := post
  refine h.trans (h.ofSame same) ?_
  obtain ⟨gap, looks, depth, rfl⟩ := same
  split
  · exact h.refl _
  · next fresh => exact h.note fresh (makes { c with gap, looks, depth })

theorem closed {kind : NodeKind} {first : Nat} {o : Opened} {os : List Opened}
    (ordinary : Ordinary kind) (among : first ≤ c.parts.size)
    (outer : first < c.parts.size → ∀ o ∈ c.opened.head?, o.first ≤ first)
    (body : T (c.openNode kind first) e) (innermost : e.opened = o :: os) : T c (e.closeNode o.kind o.first) := by
  obtain ⟨rfl, -⟩ := List.cons.inj (innermost.symm.trans (h.opened body))
  exact h.close ordinary among outer body

/-- A node that begins earlier follows it, if it is of an ordinary kind. -/
theorem nodeAt {kind : NodeKind} {body : Rule Unit} (ordinary : Ordinary kind) (point : Checkpoint)
    (inner : Trails T body) : Trails T (nodeAt point kind body) := fun c => by
  refine (nodeAt_closes (inner _)).imp fun _ d closed => ?_
  obtain ⟨among, outer, e, o, os, body, innermost, rfl⟩ := closed
  exact h.closed ordinary among (fun _ => outer) body innermost

theorem node {kind : NodeKind} {body : Rule Unit} (ordinary : Ordinary kind)
    (inner : Trails T body) : Trails T (node kind body) := fun c => by
  refine Yields.imp (node_yields (inner _)) fun _ d closed => ?_
  obtain ⟨e, o, os, body, innermost, rfl⟩ := closed
  refine h.trans (h.placeGap c) (h.closed ordinary (Nat.le_refl _) (fun less => ?_) body innermost)
  exact absurd less (Nat.lt_irrefl _)

/-- Delimiters around rules that follow it. -/
theorem inside (kind : TokenKind) {body : Rule Unit} (inner : Trails T body) :
    Trails T (inside kind body) := fun _ =>
  inside_yields fun same read => (inner _).imp fun _ _ body =>
    h.trans (h.ofSame same) (h.within kind read body)

/-- What a trail says of its rules, as a relation between rules of which only the first counts. -/
def relation (usual : ∀ kind : NodeKind, kind.isSpecial = false → Ordinary kind) : RuleRelation where
  Rel _ _ r _ := Trails T r
  given leaves _ := leaves
  pure _ := fun _ => .pure (h.refl _)
  throwLeft b _ := fun _ => .throw b
  throwRight leaves _ := leaves
  bind {_ _ _ _ V _ _ _ _ _} leaves _ next := h.bind leaves fun x => have ⟨y, both⟩ := V.total x; next x y both
  look sees := h.answers sees.answers
  mark := h.look fun c => (mark_yields c).imp fun _ _ post => post.2
  atEnd := h.answers atEnd_answers
  isRefused := h.answers isRefused_answers
  inBlock := fun _ => .get (.pure (h.refl _))
  bounded leaves := fun c => .get (leaves c.total c.total c)
  takeAs label := fun c => (takeAs_yields label c).imp fun _ _ took => h.took took.choose_spec
  placeGap := fun _ => .modify (h.placeGap _)
  skipGap := fun _ => .modify (h.ofSame ⟨_, _, _, rfl⟩)
  points := .any
  checkpoint := h.bind (h.bind (fun _ => .modify (h.ofSame ⟨_, _, _, rfl⟩))
    fun _ _ => .modify (h.placeGap _)) fun _ _ => .get (.pure (h.refl _))
  Ordinary := Ordinary
  ordinary := usual _
  node ordinary _ _ leaves := h.node ordinary leaves
  nodeAt ordinary _ _ _ _ _ leaves := h.nodeAt ordinary _ leaves
  inside kind _ _ leaves := h.inside kind leaves
  descend := fun c => by
    refine .get (.ite (fun _ => ?_) fun _ => ?_)
    · intro x d run
      cases run
      exact h.count c c.gap c.looks c.depth fun none => (Option.or_eq_none_iff.1 none).1
    · intro x d run
      cases run
      exact h.ofSame ⟨_, _, _, rfl⟩
  ascend := h.look ascend_yields
  here plain detail := h.complain _ fun c => ⟨rfl, fun _ => rfl, DiagnosticKind.closed_of_isPlain plain⟩
  noSemicolon _ := h.complain _ fun c => ⟨rfl, fun _ => rfl, rfl⟩
  unclosed unclosed note o _ := h.complain _ (Cursor.makes_unclosed unclosed note o)

end Trail

/-- A trail on which no node is special is left by every rule. -/
def Trail.whole {T : Cursor → Cursor → Prop} (h : Trail (fun _ => True) T) : GrammarRelation where
  toRuleRelation := h.relation fun _ _ => trivial
  ofTypeExpr special := absurd trivial special
  ofExportDefault special := absurd ⟨trivial, trivial⟩ special
  ofExportAssignment special := absurd ⟨trivial, trivial⟩ special
  ofImportDeclaration special := absurd trivial special
  ofModuleDeclaration special := absurd trivial special
  ofGlobalDeclaration special := absurd trivial special
  ofBracedBody _ special := absurd trivial special
  ofList _ special := absurd trivial special

end ImplicitGlobals.Grammar
