import ImplicitGlobals.Proofs.Acceptance.Statements
import ImplicitGlobals.Proofs.Bodies.Reading
import ImplicitGlobals.Proofs.Grammar.Lockstep

/-!
# Blocks in other places

What stands between the braces of a block is read alike wherever it stands. Two runs over the same
words are in lockstep, although other words were read before, other nodes and brackets are open
around them, and other words come behind the closing brace: no test looks past that brace.
-/

namespace ImplicitGlobals

/-- With `f` put in for the leaves of the one tree and `g` for those of the other, they are the same. -/
def Tree.Coincide {α β γ : Type} (f : α → List γ) (g : β → List γ) (t : Tree α) (u : Tree β) : Prop :=
  t.expand f = u.expand g

namespace Tree.Coincide

variable {α β γ : Type} {f : α → List γ} {g : β → List γ} {ts : List (Tree α)} {us : List (Tree β)}

/-- Lists that coincide expand to the same. -/
theorem expandAll (h : List.Forall₂ (Coincide f g) ts us) : expandAll f ts = Tree.expandAll g us := by
  induction h with
  | nil => rfl
  | cons first _ ih => rw [Tree.expandAll, Tree.expandAll, first, ih]

/-- Nodes around them coincide. -/
theorem node (kind : NodeKind) (h : List.Forall₂ (Coincide f g) ts us) :
    Coincide f g (.node kind ts) (.node kind us) := by
  rw [Coincide, expand, expand, expandAll h]

end Tree.Coincide

namespace Grammar

variable {c c' d e : Cursor}

/-- Words up to a closing brace that stand in two sources, and what is around them in each. -/
structure Relocation where
  words : List Word
  words' : List Word
  inner : List Word
  closer : Word
  closes : closer.kind = .braceClose
  start : Nat
  start' : Nat
  back : List Word
  back' : List Word
  ahead : words.drop start = inner ++ closer :: back
  ahead' : words'.drop start' = inner ++ closer :: back'
  parts : List (Tree Slot)
  parts' : List (Tree Slot)
  opened : List Opened
  opened' : List Opened
  openers : List Opener
  openers' : List Opener
  within : openers.head?.any (·.kind == .braceOpen) = true
  within' : openers'.head?.any (·.kind == .braceOpen) = true

namespace Relocation

variable (b : Relocation)

/-- Where a node begins in the second source that begins behind so many parts in the first one. -/
def moved (first : Nat) : Nat := first - b.parts.length + b.parts'.length

/-- Checkpoints that correspond. -/
def points : Link Checkpoint where
  Holds first first' := first' = b.moved first
  total first := ⟨b.moved first, rfl⟩

/-- The second cursor stands in its source where the first one stands in the other. -/
structure Beside (b : Relocation) (c c' : Cursor) : Prop where
  ready : Ready b.words c
  ready' : Ready b.words' c'
  place : ∃ k ≤ b.inner.length, c.passed = b.start + k ∧ c'.passed = b.start' + k
  gap : c'.gap = c.gap
  opened : ∃ os, os ≠ [] ∧ (∀ o ∈ os, b.parts.length ≤ o.first) ∧ c.opened = os ++ b.opened ∧
    c'.opened = os.map (fun o => ⟨o.kind, b.moved o.first⟩) ++ b.opened'
  openers : ∃ os os', os'.map (·.kind) = os.map (·.kind) ∧ c.openers = os ++ b.openers ∧
    c'.openers = os' ++ b.openers'
  parts : ∃ ps ps', c.parts.toList = b.parts ++ ps ∧ c'.parts.toList = b.parts' ++ ps' ∧
    List.Forall₂ (Tree.Coincide (bareSlot b.words) (bareSlot b.words')) ps ps'

/-- The closing brace is read. -/
def Lost (b : Relocation) (c : Cursor) : Prop := b.start + b.inner.length < c.passed

namespace Beside

variable {b} (h : b.Beside c c')
include h

/-- What is ahead of both runs: the rest of the block, its closer, and then what is behind. -/
theorem rests : ∃ us, c.rest = us ++ b.closer :: b.back ∧ c'.rest = us ++ b.closer :: b.back' ∧
    (us = [] → c.passed = b.start + b.inner.length) := by
  obtain ⟨k, among, passed, passed'⟩ := h.place
  refine ⟨b.inner.drop k, ?_, ?_, fun none => ?_⟩
  · rw [h.ready.rest, passed, ← List.drop_drop, b.ahead, List.drop_append_of_le_length among]
  · rw [h.ready'.rest, passed', ← List.drop_drop, b.ahead', List.drop_append_of_le_length among]
  · have := List.drop_eq_nil_iff.1 none
    omega

/-- The words ahead agree. -/
theorem agree : Agree c.rest c'.rest := by
  obtain ⟨us, rest, rest', -⟩ := h.rests
  rw [rest, rest']
  exact .append us _ _ (by rw [b.closes]; rfl)

theorem size : b.points.Holds c.parts.size c'.parts.size := by
  obtain ⟨ps, ps', parts, parts', same⟩ := h.parts
  have count := congrArg List.length parts
  have count' := congrArg List.length parts'
  have length := same.length_eq
  simp only [Array.length_toList, List.length_append] at count count'
  show _ = b.moved _
  rw [moved]
  omega

theorem le_size : b.parts.length ≤ c.parts.size := by
  obtain ⟨ps, ps', parts, -⟩ := h.parts
  have count := congrArg List.length parts
  simp only [Array.length_toList, List.length_append] at count
  omega

theorem due : List.Forall₂ (Tree.Coincide (bareSlot b.words) (bareSlot b.words'))
    (c.gap.due c.passed).toList (c'.gap.due c'.passed).toList := by
  rw [h.gap]
  unfold Gap.due
  split
  · exact .cons rfl .nil
  · exact .nil

/-- More of the same is read in both sources. -/
theorem further {d d' : Cursor} {ps ps' : List (Tree Slot)} (ready : Ready b.words d) (ready' : Ready b.words' d')
    (place : ∃ k ≤ b.inner.length, d.passed = b.start + k ∧ d'.passed = b.start' + k) (gap : d'.gap = d.gap)
    (opened : d.opened = c.opened) (opened' : d'.opened = c'.opened) (openers : d.openers = c.openers)
    (openers' : d'.openers = c'.openers) (parts : d.parts.toList = c.parts.toList ++ ps)
    (parts' : d'.parts.toList = c'.parts.toList ++ ps')
    (same : List.Forall₂ (Tree.Coincide (bareSlot b.words) (bareSlot b.words')) ps ps') : b.Beside d d' where
  ready := ready
  ready' := ready'
  place := place
  gap := gap
  opened := opened ▸ opened' ▸ h.opened
  openers := openers ▸ openers' ▸ h.openers
  parts := by
    obtain ⟨qs, qs', before, before', alike⟩ := h.parts
    exact ⟨qs ++ ps, qs' ++ ps', by rw [parts, before, List.append_assoc],
      by rw [parts', before', List.append_assoc], List.rel_append alike same⟩

/-- A word read in both runs keeps them beside each other, unless the block is lost. -/
theorem word {w : Word} {ws : List Word} (current : c.rest = w :: ws) (label : LeafKind) :
    b.Lost (c.read label) ∨ b.Beside (c.read label) (c'.read label) := by
  obtain ⟨us, rest, rest', last⟩ := h.rests
  obtain ⟨k, among, passed, passed'⟩ := h.place
  cases us with
  | nil =>
    have passed := last rfl
    exact .inl (show b.start + b.inner.length < c.passed + 1 by omega)
  | cons u us =>
    obtain rfl : u = w := (List.cons.inj (rest.symm.trans current)).1
    have here : b.words[c.passed]? = some u := by rw [← List.head?_drop, ← h.ready.rest, rest]; rfl
    have here' : b.words'[c'.passed]? = some u := by rw [← List.head?_drop, ← h.ready'.rest, rest']; rfl
    have less : k < b.inner.length := by
      have long := congrArg List.length rest
      rw [h.ready.rest, passed, ← List.drop_drop, b.ahead, List.length_drop] at long
      simp only [List.length_append, List.length_cons] at long
      omega
    have one : List.Forall₂ (Tree.Coincide (bareSlot b.words) (bareSlot b.words'))
        [.leaf (.word c.passed label)] [.leaf (.word c'.passed label)] := by
      refine .cons ?_ .nil
      rw [Tree.Coincide, Tree.expand, Tree.expand, bareSlot, bareSlot, here, here']
    have read (c : Cursor) := (Cursor.toList_parts_read c label).trans (List.append_assoc ..)
    refine .inr (h.further (h.ready.read label) (h.ready'.read label) ⟨k + 1, less, ?_, ?_⟩ rfl rfl rfl rfl rfl
      (read c) (read c') (List.rel_append h.due one))
    · show c.passed + 1 = _
      omega
    · show c'.passed + 1 = _
      omega

/-- So does a node opened in both. -/
theorem openNode (kind : NodeKind) {first first' : Nat} (moved : b.points.Holds first first')
    (valid : first = c.parts.size ∨ ∀ o ∈ c.opened.head?, o.first ≤ first) :
    b.Beside (c.openNode kind first) (c'.openNode kind first') where
  ready := h.ready.of rfl rfl rfl rfl rfl rfl
  ready' := h.ready'.of rfl rfl rfl rfl rfl rfl
  place := h.place
  gap := h.gap
  opened := by
    obtain ⟨os, some, inner, opened, opened'⟩ := h.opened
    have among : b.parts.length ≤ first := by
      rcases valid with rfl | outer
      · exact h.le_size
      · obtain ⟨o, more, rfl⟩ := List.exists_cons_of_ne_nil some
        exact Nat.le_trans (inner o List.mem_cons_self) (outer o (by rw [opened]; rfl))
    refine ⟨⟨kind, first⟩ :: os, List.cons_ne_nil _ _, ?_, by rw [Cursor.openNode, opened]; rfl, ?_⟩
    · rintro o (_ | ⟨_, mem⟩)
      · exact among
      · exact inner o mem
    · rw [Cursor.openNode, opened', moved]
      rfl
  openers := h.openers
  parts := h.parts

end Beside

/-- A node that was begun between the braces, and what else is open there. -/
theorem Beside.inside {b : Relocation} {e e' : Cursor} {o : Opened} (outer : b.Beside c c') (inner : b.Beside e e')
    (top : e.opened = o :: c.opened) : b.parts.length ≤ o.first ∧
      e'.opened = ⟨o.kind, b.moved o.first⟩ :: c'.opened := by
  obtain ⟨os, -, -, opened, opened'⟩ := outer.opened
  obtain ⟨ns, -, within, begun, begun'⟩ := inner.opened
  obtain rfl : ns = o :: os := List.append_cancel_right (begun.symm.trans (by rw [top, opened]; rfl))
  exact ⟨within o List.mem_cons_self, by rw [begun', opened']; rfl⟩

/-- So does a node closed in both. -/
theorem Beside.closeNode {b : Relocation} {e e' : Cursor} {kind : NodeKind} {first first' : Nat}
    (outer : b.Beside c c') (inner : b.Beside e e') (top : e.opened = ⟨kind, first⟩ :: c.opened)
    (moved : b.points.Holds first first') : b.Beside (e.closeNode kind first) (e'.closeNode kind first') where
  ready := inner.ready.of rfl rfl rfl rfl rfl rfl
  ready' := inner.ready'.of rfl rfl rfl rfl rfl rfl
  place := inner.place
  gap := inner.gap
  opened := by
    have opened : (e.closeNode kind first).opened = c.opened := by rw [Cursor.closeNode, top]; rfl
    have opened' : (e'.closeNode kind first').opened = c'.opened := by
      rw [Cursor.closeNode, (outer.inside inner top).2]
      rfl
    exact opened ▸ opened' ▸ outer.opened
  openers := inner.openers
  parts := by
    obtain ⟨ps, ps', parts, parts', same⟩ := inner.parts
    obtain ⟨k, rfl⟩ := Nat.exists_eq_add_of_le (outer.inside inner top).1
    obtain rfl : first' = b.parts'.length + k := by
      rw [show first' = b.moved _ from moved, Relocation.moved]
      omega
    refine ⟨ps.take k ++ [.node kind (ps.drop k)], ps'.take k ++ [.node kind (ps'.drop k)], ?_, ?_, ?_⟩
    · rw [Cursor.toList_parts_closeNode, parts, List.take_length_add_append, List.drop_length_add_append,
        List.append_assoc]
    · rw [Cursor.toList_parts_closeNode, parts', List.take_length_add_append, List.drop_length_add_append,
        List.append_assoc]
    · exact List.rel_append (List.forall₂_take k same) (.cons (.node kind (List.forall₂_drop k same)) .nil)

theorem Beside.popOpener {b : Relocation} {e e' : Cursor} (outer : b.Beside c c') (inner : b.Beside e e')
    (top : e.openers.tail = c.openers) : b.Beside e.popOpener e'.popOpener where
  ready := inner.ready.of rfl rfl rfl rfl rfl rfl
  ready' := inner.ready'.of rfl rfl rfl rfl rfl rfl
  place := inner.place
  gap := inner.gap
  opened := inner.opened
  openers := by
    obtain ⟨os, -, -, openers, -⟩ := outer.openers
    obtain ⟨ns, ns', kinds, inside, inside'⟩ := inner.openers
    cases ns with
    | nil =>
      have filled := b.within
      cases around : b.openers with
      | nil => simp [around] at filled
      | cons _ _ =>
        have short := congrArg List.length top
        rw [inside, openers, around] at short
        simp only [List.nil_append, List.tail_cons, List.length_append, List.length_cons] at short
        omega
    | cons o more =>
      cases ns' with
      | nil => cases kinds
      | cons o' more' =>
        exact ⟨more, more', (List.cons.inj kinds).2, by rw [Cursor.popOpener, inside]; rfl,
          by rw [Cursor.popOpener, inside']; rfl⟩
  parts := inner.parts

/-- The runs are in lockstep by these steps. -/
theorem lockstep : Lockstep (fun _ => True) Advances b.points b.Lost b.Beside where
  trail := advances_trail
  tidy h := h.tidy
  openers h := h.openers
  lost h lost := Nat.lt_of_lt_of_le lost h.passed_le
  agree := Beside.agree
  gap := Beside.gap
  refused h := h.ready'.refused.trans h.ready.refused.symm
  opened outer inner top := ⟨_, rfl, (outer.inside inner top).2⟩
  size := Beside.size
  block h := by
    obtain ⟨os, os', kinds, openers, openers'⟩ := h.openers
    rw [openers, openers']
    cases os with
    | nil =>
      obtain rfl := List.map_eq_nil_iff.1 kinds
      exact b.within'.trans b.within.symm
    | cons o more =>
      cases os' with
      | nil => cases kinds
      | cons o' more' => exact congrArg (· == TokenKind.braceOpen) (List.cons.inj kinds).1
  unbounded h := ⟨h.ready.budget, h.ready'.budget⟩
  count h _ _ _ _ _ := ⟨h.ready.of rfl rfl rfl rfl rfl rfl, h.ready'.of rfl rfl rfl rfl rfl rfl, h.place, rfl,
    h.opened, h.openers, h.parts⟩
  read h current label := h.word current label
  placeGap h := h.further (h.ready.of rfl rfl rfl rfl rfl rfl) (h.ready'.of rfl rfl rfl rfl rfl rfl) h.place
    (congrArg Gap.settled h.gap) rfl rfl rfl rfl (Cursor.toList_parts_placeGap _) (Cursor.toList_parts_placeGap _)
    h.due
  openNode h kind _ _ moved valid := h.openNode kind moved valid
  lost_closeNode _ _ := id
  closeNode _ outer inner top moved _ _ := outer.closeNode inner top moved
  pushOpener h kind := by
    obtain ⟨os, os', kinds, openers, openers'⟩ := h.openers
    exact ⟨h.ready.of rfl rfl rfl rfl rfl rfl, h.ready'.of rfl rfl rfl rfl rfl rfl, h.place, h.gap, h.opened,
      ⟨⟨kind, _⟩ :: os, ⟨kind, _⟩ :: os', congrArg (kind :: ·) kinds, by rw [Cursor.pushOpener, openers]; rfl,
        by rw [Cursor.pushOpener, openers']; rfl⟩, h.parts⟩
  lost_popOpener := id
  popOpener outer inner top := outer.popOpener inner top

/-- Up to the closing brace the statements are read alike. -/
theorem statements {m : Nat} (n : Nat) (h : b.Beside c c')
    (run : (repeatWhile (blockTurn (statementWithin m))).run c = .ok ((), d)) (tidy : d.Tidy)
    (upTo : d.passed ≤ b.start + b.inner.length) :
    Yields (repeatWhile (blockTurn (statementWithin n))) c' fun _ d' => b.Beside d d' := by
  let L := b.lockstep.whole
  have both := L.repeatWhile (p := Anywhere) (L.blockTurn (L.statementWithin (p := Anywhere) m n))
  have follows := (both.2 c c' trivial h () d run tidy).resolve_left (Nat.not_lt.2 upTo)
  exact follows.imp fun _ _ post => post.2

end Relocation

/-! ### Blocks -/

/-- A block is a node behind the gap before its brace. -/
theorem moduleBlock_yields {inner : Rule Unit} {Q : Cursor → Cursor → Prop} (free : c.budget = {})
    (h : ∀ o, Same c o → o.gap ≠ .ahead → Yields (delimited blockMarks (blockTurn inner))
      (o.placeGap.openNode .moduleBlock o.placeGap.parts.size) fun _ e => Q o e) :
    Yields (moduleBlock inner) c fun _ d => ∃ o e n os depth, Same c o ∧ Q o e ∧ e.opened = n :: os ∧
      d = { e.closeNode n.kind n.first with depth, looks := lookLimit } := by
  have looked (gap : Gap) : gap.skipped ≠ .ahead := by cases gap <;> nofun
  have asserts : Yields (assertAt .braceOpen) c fun _ o => ∃ looks, o = { c.skipGap with looks } :=
    Yields.bind (P := fun _ o => ∃ looks, o = { c.skipGap with looks })
      ((peek_steps 0 c).bind fun _ _ post => .pure post.2)
      fun _ o post => .ite (fun _ => .throw _) fun _ => .pure post
  refine asserts.bind fun _ o post => ?_
  obtain ⟨looks, rfl⟩ := post
  refine (descend_steps _).bind fun allowed o deeper => ?_
  obtain ⟨rfl, rfl⟩ : allowed = true ∧ o = { c.skipGap with looks := lookLimit, depth := c.depth + 1 } := by
    simpa [Cursor.skipGap, free] using deeper
  let o : Cursor := { c.skipGap with looks := lookLimit, depth := c.depth + 1 }
  have same : Same c o := ⟨_, _, _, rfl⟩
  refine (node_yields (h o same (looked c.gap))).bind fun _ d closed => .modify ?_
  obtain ⟨e, n, os, post, opened, rfl⟩ := closed
  exact ⟨o, e, n, os, _, same, post, opened, rfl⟩

/-- Whatever is before it and behind it, what is between the brace and the closing one is read as the block. -/
def ReadsBlock (opener : Lexeme) (inner : List Word) (closer : Word) (ts : List SyntaxTree) : Prop :=
  ∀ {words : List Word} {c : Cursor} {brace : Word} {back : List Word} (n : Nat), Ready words c →
    c.rest = brace :: (inner ++ closer :: back) → brace.lexeme = opener →
    Yields (moduleBlock (statementWithin n)) c fun _ d => Ready words d ∧ d.rest = back ∧ d.gap = .ahead ∧
      Adds words c d [.node .moduleBlock ts]

/-- The cursor stands behind the brace of a block, which is a node behind the parts of `o`. -/
structure Entered (words : List Word) (brace : Word) (left : List Word) (o c : Cursor) : Prop where
  ready : Ready words c
  rest : c.rest = left
  gap : c.gap = .ahead
  opened : c.opened = ⟨.moduleBlock, o.parts.size⟩ :: o.opened
  openers : c.openers = ⟨.braceOpen, o.passed⟩ :: o.openers
  parts : c.parts.toList = o.parts.toList ++ [.leaf (.word o.passed (.token brace.kind))]
  here : words[o.passed]? = some brace

/-- A block is read from its brace to what ends its statements, and that has to be the closing brace. -/
theorem moduleBlock_enters {words left : List Word} {brace : Word} {inner : Rule Unit} {Q : Cursor → Cursor → Prop}
    (ready : Ready words c) (rest : c.rest = brace :: left)
    (h : ∀ o d, Same c o → Entered words brace left o.placeGap d →
      Yields (repeatWhile (blockTurn inner)) d fun _ e => Q o.placeGap e) :
    Yields (moduleBlock inner) c fun _ d => ∃ o e f n os depth, Same c o ∧ Q o.placeGap e ∧ Closed blockMarks e f ∧
      f.opened = n :: os ∧ d = { f.closeNode n.kind n.first with depth, looks := lookLimit } := by
  have here : words[c.passed]? = some brace := by rw [← List.head?_drop, ← ready.rest, rest]; rfl
  refine (moduleBlock_yields (Q := fun o f => ∃ e, Q o.placeGap e ∧ Closed blockMarks e f) ready.budget
    fun o same looked => delimited_yields fun o' w d same' bumped kept => h o d same ?_).imp fun _ d post => ?_
  · have settled : o.gap.settled = .placed := by
      cases gap : o.gap <;> first | rfl | exact absurd gap looked
    -- The lookahead has placed the trivia, so the brace is the first part of the block.
    have placed : o'.gap = .placed := (kept (by simp [Cursor.openNode, Cursor.placeGap, settled])).trans settled
    obtain ⟨parts, opened, openers, passed⟩ : o'.parts = o.placeGap.parts ∧
        o'.opened = ⟨.moduleBlock, o.placeGap.parts.size⟩ :: o.opened ∧ o'.openers = o.openers ∧
        o'.passed = o.passed := by
      obtain ⟨_, _, _, rfl⟩ := same'
      exact ⟨rfl, rfl, rfl, rfl⟩
    have before : Ready words o' := same'.ready ((same.ready ready).of rfl rfl rfl rfl rfl rfl)
    have entry : o'.rest = brace :: left := same'.rest.trans (same.rest.trans rest)
    obtain ⟨rfl, left⟩ := List.cons.inj (bumped.rest.symm.trans entry)
    have behind : d.parts.toList = o'.parts.toList ++ [.leaf (.word o'.passed (.token w.kind))] := by
      have same : (o'.pushOpener blockMarks.opener).skipGap.placeGap.parts = o'.parts := by
        simp [Cursor.pushOpener, Cursor.skipGap, Cursor.placeGap, placed, Gap.skipped, Gap.due]
      exact same ▸ bumped.behind
    rw [parts, passed] at behind
    refine ⟨bumped.toTook.ready (before.of rfl rfl rfl rfl rfl rfl), left, bumped.ahead, bumped.opened.trans opened,
      bumped.openers.trans ?_, behind, ?_⟩
    · exact openers ▸ passed ▸ rfl
    · rw [show o.placeGap.passed = c.passed by obtain ⟨_, _, _, rfl⟩ := same; rfl]
      exact here
  · obtain ⟨o, f, n, os, depth, same, ⟨e, post, closed⟩, opened, rfl⟩ := post
    exact ⟨o, e, f, n, os, depth, same, post, closed, opened, rfl⟩

section

variable {words words' inner back back' : List Word} {brace brace' closer : Word} {o o' : Cursor}

/-- The same words behind the braces of two blocks. -/
def Entered.relocation (h : Entered words brace (inner ++ closer :: back) o c)
    (h' : Entered words' brace' (inner ++ closer :: back') o' c') (closes : closer.kind = .braceClose) : Relocation where
  words := words
  words' := words'
  inner := inner
  closer := closer
  closes := closes
  start := c.passed
  start' := c'.passed
  back := back
  back' := back'
  ahead := h.ready.rest.symm.trans h.rest
  ahead' := h'.ready.rest.symm.trans h'.rest
  parts := o.parts.toList
  parts' := o'.parts.toList
  opened := o.opened
  opened' := o'.opened
  openers := c.openers
  openers' := c'.openers
  within := by rw [h.openers]; rfl
  within' := by rw [h'.openers]; rfl

theorem Entered.beside (h : Entered words brace (inner ++ closer :: back) o c)
    (h' : Entered words' brace' (inner ++ closer :: back') o' c') (closes : closer.kind = .braceClose)
    (same : brace'.lexeme = brace.lexeme) : (h.relocation h' closes).Beside c c' where
  ready := h.ready
  ready' := h'.ready
  place := ⟨0, Nat.zero_le _, rfl, rfl⟩
  gap := h'.gap.trans h.gap.symm
  opened := by
    refine ⟨[⟨.moduleBlock, o.parts.size⟩], List.cons_ne_nil _ _, ?_, h.opened, ?_⟩
    · simp [relocation]
    · simp [relocation, Relocation.moved, h'.opened]
  openers := ⟨[], [], rfl, rfl, rfl⟩
  parts := by
    refine ⟨_, _, h.parts, h'.parts, .cons ?_ .nil⟩
    obtain ⟨kind, text⟩ := (Lexeme.mk.injEq ..).mp same
    simp [Tree.Coincide, Tree.expand, bareSlot, relocation, h.here, h'.here, kind, text]

/-- The closing brace is read where the block ends. -/
theorem Closed.ends {e f : Cursor} (closed : Closed blockMarks e f) (ready : Ready words e)
    (rest : e.rest = closer :: back) (closes : closer.kind = .braceClose) :
    Ready words f ∧ f.rest = back ∧ f.gap = .ahead ∧ f.opened = e.opened ∧
      Adds words e f [closer.lexeme.leafAs (.token .braceClose)] := by
  cases closed with
  | missed other _ => exact absurd closes (other closer (by rw [rest]; rfl))
  | @read w is took ahead =>
    have popped : Ready words e.popOpener := ready.of rfl rfl rfl rfl rfl rfl
    obtain ⟨rfl, left⟩ := List.cons.inj (took.rest.symm.trans rest)
    have adds := took.adds popped
    exact ⟨took.ready popped, left, ahead, took.opened, adds.opened, adds.parts⟩

/-- What is between the brace of a block and the closing one is read as it is wherever it stands. -/
theorem readsBlock_of_run {m : Nat} (ready : Ready words c) (rest : c.rest = brace :: (inner ++ closer :: back))
    (closes : closer.kind = .braceClose) (nested : WellNested false (inner.map (·.kind)))
    (run : (moduleBlock (statementWithin m)).run c = .ok ((), d)) (tidy : d.Tidy) :
    ∃ ts, ReadsBlock brace.lexeme inner closer ts := by
  obtain ⟨o, e, f, n, os, depth, -, ⟨d₁, entered, turns⟩, closed, opened, rfl⟩ := moduleBlock_enters
    (Q := fun o e => ∃ d, Entered words brace (inner ++ closer :: back) o d ∧
      (repeatWhile (blockTurn (statementWithin m))).run d = .ok ((), e))
    ready rest (fun _ d _ entered _ e run => ⟨d, entered, run⟩) () d run
  have tidy : f.Tidy := ⟨tidy.complaints, tidy.lastPlace, tidy.refused⟩
  -- in the first run the block ends at the brace that closes it
  obtain ⟨left, between, passed⟩ : e.rest = closer :: back ∧ e.Tidy ∧ e.passed = d₁.passed + inner.length := by
    cases closed with
    | missed _ untidy => exact absurd tidy untidy
    | @read w is took =>
      have before := took.tidy tidy
      have between : e.Tidy := ⟨before.complaints, before.lastPlace, before.refused⟩
      obtain ⟨-, fills⟩ := repeatWhile_forms (blockTurn_forms (statementWithin_forms m)) d₁ (fun _ => trivial) () e
        turns between
      obtain ⟨ws, -, read, -, balanced, -⟩ := fills.content
      have ahead : e.rest = w :: f.rest := took.rest
      obtain ⟨rfl, rfl, rfl⟩ := WellNested.eq_of_closed balanced nested is closes
        (by rw [← ahead, ← read, entered.rest])
      have advances : Advances d₁ e := advancing.repeatWhile (p := Anywhere)
        (advancing.blockTurn (advancing.statementWithin (p := Anywhere) m m)) d₁ () e turns
      obtain ⟨us, read', passed⟩ := advances.read
      exact ⟨ahead, between, List.append_cancel_right (read'.symm.trans read) ▸ passed⟩
  refine ⟨Tree.expandAll (bareSlot words) (e.parts.toList.drop o.placeGap.parts.size) ++
    [closer.lexeme.leafAs (.token .braceClose)], fun {words'} c' brace' back' n ready' rest' same => ?_⟩
  refine (moduleBlock_enters (Q := fun o' e' => ∃ d', ∃ entered' : Entered words' brace' (inner ++ closer :: back') o' d',
      (entered.relocation entered' closes).Beside e e' ∧ Advances d' e') ready' rest'
    fun o' d' _ entered' x e' run' => ?_).imp fun _ _ post => ?_
  · have beside := (entered.relocation entered' closes).statements n (entered.beside entered' closes same) turns between
      (Nat.le_of_eq passed) x e' run'
    exact ⟨d', entered', beside, advancing.repeatWhile (p := Anywhere)
      (advancing.blockTurn (advancing.statementWithin (p := Anywhere) n n)) d' x e' run'⟩
  · obtain ⟨o', e', f', k, ks, depth', same', ⟨d', entered', beside, advances⟩, closed', top, rfl⟩ := post
    have left' : e'.rest = closer :: back' := by
      obtain ⟨us, rest, rest', -⟩ := beside.rests
      obtain rfl : us = [] := List.append_left_eq_self.1 (rest.symm.trans left)
      exact rest'
    obtain ⟨ready, left, ahead, opened, adds⟩ := closed'.ends beside.ready' left' closes
    obtain ⟨ps, ps', parts, parts', alike⟩ := beside.parts
    have own : e.parts.toList.drop o.placeGap.parts.size = ps := by
      rw [parts]
      exact List.drop_left
    have inner : Adds words' (o'.placeGap.openNode .moduleBlock o'.placeGap.parts.size) e'
        (Tree.expandAll (bareSlot words) ps) :=
      ⟨advances.opened.trans entered'.opened, ps', parts', (Tree.Coincide.expandAll alike).symm⟩
    obtain ⟨opened', whole⟩ := (Adds.same (.refl o'.placeGap)).close (inner.trans adds)
    obtain ⟨rfl, -⟩ := List.cons.inj (top.symm.trans opened')
    have added := ((Adds.same same').trans (Adds.placeGap o')).trans whole
    rw [own]
    exact ⟨ready.of rfl rfl rfl rfl rfl rfl, left, ahead, added.opened, added.parts⟩

end

end Grammar

end ImplicitGlobals
