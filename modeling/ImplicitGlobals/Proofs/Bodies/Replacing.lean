import ImplicitGlobals.Proofs.Bodies.Reading
import ImplicitGlobals.Proofs.Diagnostic.Enclosing
import ImplicitGlobals.Proofs.Grammar.Lockstep

/-!
# Another body in the place of a body

Words in which a body is replaced are read as they were, but for the body. The two runs are in
lockstep: up to the brace of the body they are at the same words, and no test looks past a brace;
behind the body they are at the same words again. Where the brace is read as anything but the first
word of that body, the first run is lost and nothing is said.
-/

namespace ImplicitGlobals.Grammar

variable {c c' d e : Cursor}

/-! ### The words -/

/-- Words between braces, and what stands around them. -/
def around (front : List Word) (opener : Word) (inner : List Word) (closer : Word) (back : List Word) :
    List Word := front ++ opener :: (inner ++ closer :: back)

theorem drop_around (front : List Word) (opener : Word) (inner : List Word) (closer : Word)
    (back : List Word) (k : Nat) :
    (around front opener inner closer back).drop (front.length + (inner.length + 2) + k) = back.drop k := by
  have split : around front opener inner closer back = (front ++ opener :: (inner ++ [closer])) ++ back := by
    simp [around]
  rw [split, ← List.drop_drop, List.drop_left' (by simp)]

/-- Words with a body in them, and other ones that may take the place of what stands between its
braces. -/
structure Replacement where
  front : List Word
  opener : Word
  inner : List Word
  closer : Word
  back : List Word
  inner' : List Word
  closer' : Word
  opens : opener.kind = .braceOpen
  closes : closer.kind = .braceClose
  closes' : closer'.kind = .braceClose
  clean : ∀ w ∈ around front opener inner closer back, w.kind ≠ .garbage
  clean' : ∀ w ∈ inner', w.kind ≠ .garbage
  nested' : WellNested false (inner'.map (·.kind))

namespace Replacement

variable (b : Replacement)

/-- The words with the first body. -/
def words : List Word := around b.front b.opener b.inner b.closer b.back

/-- The words with the second body. -/
def words' : List Word := around b.front b.opener b.inner' b.closer' b.back

/-- The number of the opening brace. -/
def start : Nat := b.front.length

/-- How many words the body has, its braces included. -/
def width : Nat := b.inner.length + 2

/-- How many words the second body has. -/
def width' : Nat := b.inner'.length + 2

/-- The number of a word outside of the body and the one it has when the body is replaced. -/
inductive Place : Nat → Nat → Prop
  | before {i : Nat} (upTo : i ≤ b.start) : Place i i
  | behind (k : Nat) : Place (b.start + b.width + k) (b.start + b.width' + k)

variable {b}

/-- No test sees a difference. -/
theorem Place.agree {i j : Nat} (place : b.Place i j) : Agree (b.words.drop i) (b.words'.drop j) := by
  cases place with
  | before upTo =>
    rw [words, words', around, around, List.drop_append_of_le_length upTo, List.drop_append_of_le_length upTo]
    exact .append _ _ _ (by rw [b.opens]; rfl)
  | behind k =>
    rw [words, words', start, width, width', drop_around, drop_around]
    exact .refl _

/-- Behind the brace nothing is told of the next word. -/
theorem Place.next {i j : Nat} (place : b.Place i j) : i = b.start ∨ b.Place (i + 1) (j + 1) := by
  cases place with
  | before upTo => exact (Nat.eq_or_lt_of_le upTo).imp_right .before
  | behind k => exact .inr (.behind (k + 1))

/-- The bodies begin at the same place. -/
theorem Place.eq_start {i j : Nat} (place : b.Place i j) (here : i = b.start) : j = b.start := by
  cases place with
  | before => exact here
  | behind k => simp [width] at here; omega

/-! ### What is in the tree -/

/-- The body is among the trees. -/
def Holds (b : Replacement) (ts : List (Tree Slot)) : Prop :=
  ∃ kind children, kind.isBody = true ∧ Tree.node kind children ∈ Tree.descendantsOf kind ts ∧
    Tree.wordsOf children = List.range' b.start b.width

/-- A body is among two lists if it is among one. -/
theorem holds_append {ts us : List (Tree Slot)} : b.Holds (ts ++ us) ↔ b.Holds ts ∨ b.Holds us := by
  simp [Holds, Tree.descendantsOf_append, or_and_right, and_or_left, exists_or]

/-- There are no nodes among leaves. -/
theorem not_holds_leaves {ts : List (Tree Slot)} (leaves : ts.all Tree.isLeaf = true) : ¬b.Holds ts := by
  rintro ⟨kind, children, -, among, -⟩
  rw [Tree.descendantsOf_of_leaves kind leaves] at among
  cases among

theorem not_holds_due (gap : Gap) (i : Nat) : ¬b.Holds (gap.due i).toList :=
  not_holds_leaves (by unfold Gap.due; split <;> rfl)

/-- The body is a node itself, or in one. -/
theorem holds_node {kind : NodeKind} {ts : List (Tree Slot)} : b.Holds [.node kind ts] ↔
    kind.isBody = true ∧ Tree.wordsOf ts = List.range' b.start b.width ∨ b.Holds ts := by
  constructor
  · rintro ⟨k, children, body, among, words⟩
    obtain ⟨t, mem, among⟩ := Tree.mem_descendantsOf.1 among
    obtain rfl := List.mem_singleton.1 mem
    rcases Tree.mem_descendants_node.1 among with ⟨rfl, is⟩ | among
    · exact .inl ⟨body, (Tree.node.inj is).2 ▸ words⟩
    · exact .inr ⟨k, children, body, among, words⟩
  · have within {k : NodeKind} {t : Tree Slot} (inside : t ∈ (Tree.node kind ts).descendants k) :
        t ∈ Tree.descendantsOf k [.node kind ts] := Tree.mem_descendantsOf.2 ⟨_, List.mem_singleton.2 rfl, inside⟩
    rintro (⟨body, words⟩ | ⟨k, children, body, among, words⟩)
    · exact ⟨kind, ts, body, within (Tree.mem_descendants_node.2 (.inl ⟨rfl, rfl⟩)), words⟩
    · exact ⟨k, children, body, within (Tree.mem_descendants_node.2 (.inr among)), words⟩

/-- A body is held from when its node is closed. -/
theorem holds_closeNode {kind : NodeKind} {first : Nat} : b.Holds (c.closeNode kind first).parts.toList ↔
    kind.isBody = true ∧ Tree.wordsOf (c.parts.toList.drop first) = List.range' b.start b.width ∨
      b.Holds c.parts.toList := by
  rw [Cursor.toList_parts_closeNode, holds_append, holds_node, or_left_comm, ← holds_append,
    List.take_append_drop]

/-- The words of the body are read when it is in the tree. -/
theorem lt_of_holds {ts : List (Tree Slot)} {n : Nat} (holds : b.Holds ts)
    (words : Tree.wordsOf ts = List.range' 0 n) : b.start + 1 < n := by
  obtain ⟨kind, children, -, among, own⟩ := holds
  have second : b.start + 1 ∈ Tree.wordsOf children := by
    rw [own, List.mem_range'_1, width]
    omega
  have read := Tree.wordsOf_subset among second
  rw [words, List.mem_range'_1] at read
  omega

/-! ### One run -/

/-- The brace is read, and not as the first word of the body. -/
def Lost (b : Replacement) (c : Cursor) : Prop := b.start < c.passed ∧ ¬b.Holds c.parts.toList

/-- Behind the brace no body begins that begins with it. -/
structure Leaves (b : Replacement) (c d : Cursor) : Prop extends Advances c d where
  held : b.start < c.passed → b.Holds d.parts.toList → b.Holds c.parts.toList

namespace Leaves

theorem refl (c : Cursor) : b.Leaves c c := ⟨.refl c, fun _ => id⟩

theorem trans (h : b.Leaves c d) (g : b.Leaves d e) : b.Leaves c e :=
  ⟨h.toAdvances.trans g.toAdvances, fun late =>
    h.held late ∘ g.held (Nat.lt_of_lt_of_le late h.toAdvances.passed_le)⟩

/-- What is lost stays lost. -/
theorem lost (h : b.Leaves c d) (lost : b.Lost c) : b.Lost d :=
  ⟨Nat.lt_of_lt_of_le lost.1 h.toAdvances.passed_le, lost.2 ∘ h.held lost.1⟩

theorem placeGap (c : Cursor) : b.Leaves c c.placeGap := by
  refine ⟨.placeGap c, fun _ holds => ?_⟩
  rw [Cursor.toList_parts_placeGap, holds_append] at holds
  exact holds.resolve_right (not_holds_due _ _)

/-- A word that is read closes no body. -/
theorem took {label : LeafKind} {w : Word} (took : Took label w c d) : b.Leaves c d := by
  refine ⟨.took took, fun _ holds => ?_⟩
  obtain ⟨gap, parts⟩ := took.parts
  rw [parts, List.append_assoc, holds_append, holds_append] at holds
  exact holds.resolve_right (not_or.2 ⟨not_holds_due _ _, not_holds_leaves rfl⟩)

/-- A body that begins elsewhere is another one. -/
theorem closeBody {kind : NodeKind} (h : b.Leaves (c.openNode kind c.parts.size) e) (other : c.passed ≠ b.start)
    (holds : b.Holds (e.closeNode kind c.parts.size).parts.toList) : b.Holds e.parts.toList := by
  refine (holds_closeNode.1 holds).resolve_left fun own => ?_
  rcases (List.range'_inj.1 ((h.toAdvances.wordsOf_drop).symm.trans own.2)).2 with none | same
  · have := (List.range'_inj.1 ((h.toAdvances.wordsOf_drop).symm.trans own.2)).1
    simp [width] at this
    omega
  · exact other same

/-- The steps of the grammar follow this trail. -/
theorem trail : Trail (fun kind => kind.isBody = false) b.Leaves where
  refl := .refl
  trans := .trans
  opened h := h.opened
  count c gap looks depth _ kept := ⟨advances_trail.count c gap looks depth kept, fun _ => id⟩
  took := .took
  placeGap := .placeGap
  note fresh makes := ⟨advances_trail.note fresh makes, fun _ => id⟩
  close ordinary among outer body := ⟨body.toAdvances.close among outer, fun late holds =>
    body.held late ((holds_closeNode.1 holds).resolve_left (by simp [ordinary]))⟩
  within kind read body := by
    have before := Leaves.took (b := b) read
    refine ⟨advances_trail.within kind read body.toAdvances, fun late holds => ?_⟩
    exact before.held late (body.held (Nat.lt_of_lt_of_le late before.toAdvances.passed_le) holds)

theorem node {kind : NodeKind} {r : Rule Unit} (inner : Trails b.Leaves r) : Trails b.Leaves (node kind r) :=
  fun c => by
    refine Yields.imp (node_yields (inner _)) fun _ d closed => ?_
    obtain ⟨e, o, os, body, opened, rfl⟩ := closed
    obtain ⟨rfl, -⟩ := List.cons.inj (opened.symm.trans body.opened)
    refine (placeGap c).trans ⟨body.toAdvances.close (Nat.le_refl _) fun less => absurd less (Nat.lt_irrefl _),
      fun late holds => body.held late (body.closeBody (Nat.ne_of_gt late) holds)⟩

end Leaves

/-! ### Two runs -/

/-- The second run stands where the first one does, but for the body. -/
structure Swapped (b : Replacement) (c c' : Cursor) : Prop where
  ready : Ready b.words c
  ready' : Ready b.words' c'
  place : b.Place c.passed c'.passed
  gap : c'.gap = c.gap
  opened : c'.opened = c.opened
  openers : c'.openers.map (·.kind) = c.openers.map (·.kind)
  parts : List.Forall₂ (Tree.Matches (bareSlot b.words) (bareSlot b.words')) c.parts.toList c'.parts.toList
  read : Tree.wordsOf c.parts.toList = List.range' 0 c.passed

namespace Swapped

variable (h : b.Swapped c c')
include h

/-- The words ahead agree outside the body. -/
theorem agree : Agree c.rest c'.rest := by
  rw [h.ready.rest, h.ready'.rest]
  exact h.place.agree

theorem due : List.Forall₂ (Tree.Matches (bareSlot b.words) (bareSlot b.words'))
    (c.gap.due c.passed).toList (c'.gap.due c'.passed).toList := by
  rw [h.gap]
  unfold Gap.due
  split
  · exact .cons (.ofLeaf rfl) .nil
  · exact .nil

theorem placeGap : b.Swapped c.placeGap c'.placeGap where
  ready := h.ready.of rfl rfl rfl rfl rfl rfl
  ready' := h.ready'.of rfl rfl rfl rfl rfl rfl
  place := h.place
  gap := by rw [Cursor.placeGap, Cursor.placeGap, h.gap]
  opened := h.opened
  openers := h.openers
  parts := by
    rw [Cursor.toList_parts_placeGap, Cursor.toList_parts_placeGap]
    exact List.rel_append h.parts h.due
  read := by
    rw [Cursor.toList_parts_placeGap, Tree.wordsOf_append, wordsOf_due, List.append_nil]
    exact h.read

/-- A word read in both runs keeps them together, unless the body is lost. -/
theorem word {w : Word} {ws : List Word} (current : c.rest = w :: ws) (label : LeafKind) :
    b.Lost (c.read label) ∨ b.Swapped (c.read label) (c'.read label) := by
  have read : Tree.wordsOf (c.read label).parts.toList = List.range' 0 (c.passed + 1) := by
    have one : Tree.wordsOf [.leaf (.word c.passed label)] = [c.passed] := rfl
    rw [Cursor.toList_parts_read, Tree.wordsOf_append, Tree.wordsOf_append, wordsOf_due, one, h.read,
      List.range'_1_concat, List.append_nil, Nat.zero_add]
  rcases h.place.next with brace | place
  · refine .inl ⟨Nat.lt_of_lt_of_eq (Nat.lt_succ_self _) (congrArg (· + 1) brace.symm), fun holds => ?_⟩
    have := lt_of_holds holds read
    omega
  have current' : c'.rest.head? = some w := by
    rw [List.head?_eq_getElem?, ← h.agree.getElem? (transparent_zero _), current]
    rfl
  have here : b.words[c.passed]? = some w := by rw [← List.head?_drop, ← h.ready.rest, current]; rfl
  have here' : b.words'[c'.passed]? = some w := by rw [← List.head?_drop, ← h.ready'.rest, current']
  refine .inr ⟨h.ready.read label, h.ready'.read label, place, rfl, h.opened, h.openers, ?_, read⟩
  rw [Cursor.toList_parts_read, Cursor.toList_parts_read]
  refine List.rel_append (List.rel_append h.parts h.due) (.cons (.ofLeaf ?_) .nil)
  rw [bareSlot, bareSlot, here, here']

/-- A node closed in both runs keeps them together. -/
theorem closeNode (kind : NodeKind) (first : Nat) : b.Swapped (c.closeNode kind first) (c'.closeNode kind first) where
  ready := h.ready.of rfl rfl rfl rfl rfl rfl
  ready' := h.ready'.of rfl rfl rfl rfl rfl rfl
  place := h.place
  gap := h.gap
  opened := by rw [Cursor.closeNode, Cursor.closeNode, h.opened]
  openers := h.openers
  parts := by
    rw [Cursor.toList_parts_closeNode, Cursor.toList_parts_closeNode]
    exact List.rel_append (List.forall₂_take _ h.parts) (.cons (.node kind (List.forall₂_drop _ h.parts)) .nil)
  read := (Advances.wordsOf_closeNode c kind first).trans h.read

end Swapped

/-- The runs are in lockstep by these steps. -/
theorem lockstep (b : Replacement) :
    Lockstep (fun kind => kind.isBody = false) b.Leaves .same b.Lost b.Swapped where
  trail := Leaves.trail
  tidy h := h.toAdvances.tidy
  openers h := h.toAdvances.openers
  lost := Leaves.lost
  agree := Swapped.agree
  gap := Swapped.gap
  refused h := h.ready'.refused.trans h.ready.refused.symm
  opened outer inner top := ⟨_, rfl, by rw [inner.opened, top, outer.opened]⟩
  size h := by simpa [Link.same] using h.parts.length_eq
  block h := by
    have first (os : List Opener) : os.head?.any (·.kind == .braceOpen) =
        (os.map (·.kind)).head?.any (· == .braceOpen) := by
      rw [List.head?_map, Option.any_map]
    rw [first, first, h.openers]
  unbounded h := ⟨h.ready.budget, h.ready'.budget⟩
  count h gap _ _ _ _ := ⟨h.ready.of rfl rfl rfl rfl rfl rfl, h.ready'.of rfl rfl rfl rfl rfl rfl, h.place, rfl,
    h.opened, h.openers, h.parts, h.read⟩
  read h current label := h.word current label
  placeGap := Swapped.placeGap
  openNode h kind _ _ moved _ := by
    cases moved
    exact ⟨h.ready.of rfl rfl rfl rfl rfl rfl, h.ready'.of rfl rfl rfl rfl rfl rfl, h.place, h.gap,
      congrArg (_ :: ·) h.opened, h.openers, h.parts, h.read⟩
  lost_closeNode ordinary first lost := ⟨lost.1, fun holds =>
    lost.2 ((holds_closeNode.1 holds).resolve_left (by simp [ordinary]))⟩
  closeNode _ _ inner _ moved _ _ := by
    cases moved
    exact inner.closeNode _ _
  pushOpener h kind := ⟨h.ready.of rfl rfl rfl rfl rfl rfl, h.ready'.of rfl rfl rfl rfl rfl rfl, h.place, h.gap,
    h.opened, congrArg (kind :: ·) h.openers, h.parts, h.read⟩
  lost_popOpener := id
  popOpener _ h _ := ⟨h.ready.of rfl rfl rfl rfl rfl rfl, h.ready'.of rfl rfl rfl rfl rfl rfl, h.place, h.gap,
    h.opened, by simpa [Cursor.popOpener, List.map_tail] using congrArg List.tail h.openers, h.parts, h.read⟩

/-! ### The body -/

theorem Swapped.skipGap (h : b.Swapped c c') : b.Swapped c.skipGap c'.skipGap :=
  b.lockstep.skipGap h c.looks c'.looks

/-- What a body adds that is read from a cursor on. -/
theorem wordsOf_body {kind : NodeKind} {ts : List (Tree Slot)} (advances : Advances c d)
    (parts : d.parts.toList = c.skipGap.placeGap.parts.toList ++ [.node kind ts]) :
    Tree.wordsOf ts = List.range' c.passed (d.passed - c.passed) := by
  have words := advances.words
  rw [parts, Cursor.toList_parts_placeGap, Tree.wordsOf_append, Tree.wordsOf_append, wordsOf_due, List.append_nil,
    Tree.wordsOf_node] at words
  exact List.append_cancel_left words

/-- At its brace the body is read, and the other one in its place. Where it is not the body that was
read, the first run is lost. -/
theorem Swapped.body {kind : NodeKind} (body : kind.isBody = true) (h : b.Swapped c c') (here : c.passed = b.start) :
    KeepsUp b.Lost b.Swapped .same (bracedBody kind) (bracedBody kind) c c' := by
  intro x d run tidy
  have here' := h.place.eq_start here
  have rest : c.rest = b.opener :: (b.inner ++ b.closer :: b.back) := by
    rw [h.ready.rest, here, words, around, start, List.drop_left]
  have rest' : c'.rest = b.opener :: (b.inner' ++ b.closer' :: b.back) := by
    rw [h.ready'.rest, here', words', around, start, List.drop_left]
  have advancing (c : Cursor) : Yields (bracedBody kind) c fun _ d => Advances c d :=
    Grammar.advancing.bracedBody (p := Anywhere) body c
  have advances := advancing c x d run
  obtain ⟨-, inner, ⟨o, w, opens, closes, split⟩, nested, -⟩ := bracedBody_accepts kind c x d run tidy
  have clean : ∀ u ∈ inner, u.kind ≠ .garbage := fun u mem => by
    have among : u ∈ c.rest := by simp [split, mem]
    exact b.clean u (List.mem_of_mem_drop (h.ready.rest ▸ among))
  obtain ⟨ready, -, ahead, ts, parts, flat⟩ := bracedBody_reads kind h.ready split opens closes clean nested x d run
  have passed : d.passed = b.start + (inner.length + 2) := by
    obtain ⟨ws, read, passed⟩ := advances.read
    have size := congrArg List.length (read.symm.trans split)
    simp only [List.length_append, List.length_cons] at size
    omega
  have own := wordsOf_body advances parts
  rw [passed, here, Nat.add_sub_cancel_left] at own
  -- A body of another length is not the one that is replaced, and the run is lost to it.
  by_cases same : inner.length = b.inner.length
  · refine .inr fun y d' run' => ⟨rfl, ?_⟩
    have advances' := advancing c' y d' run'
    obtain ⟨ready', left', ahead', ts', parts', flat'⟩ :=
      bracedBody_reads kind h.ready' rest' b.opens b.closes' b.clean' b.nested' y d' run'
    have passed' : d'.passed = b.start + b.width' := by
      obtain ⟨ws, read, passed⟩ := advances'.read
      have size := congrArg List.length (read.symm.trans rest')
      simp only [List.length_append, List.length_cons, left'] at size
      rw [passed, here', width']
      omega
    have between := h.skipGap.placeGap.parts
    refine ⟨ready, ready', ?_, ahead'.trans ahead.symm, ?_, ?_, ?_, ?_⟩
    · rw [passed, passed', same]
      exact .behind 0
    · rw [advances.opened, advances'.opened, h.opened]
    · rw [advances.openers, advances'.openers, h.openers]
    · rw [parts, parts']
      exact List.rel_append between (.cons (.body body flat flat') .nil)
    · rw [advances.words, h.read]
      exact range'_meet (Nat.zero_le _) advances.passed_le
  · refine .inl ⟨by omega, fun holds => ?_⟩
    -- Neither the parts before nor the words inside are that body.
    rw [parts, holds_append, holds_node] at holds
    rcases holds with before | ⟨-, whole⟩ | within
    · have := lt_of_holds before h.skipGap.placeGap.read
      simp [Cursor.placeGap, Cursor.skipGap, here] at this
    · have := (List.range'_inj.1 (own.symm.trans whole)).1
      simp [width] at this
      omega
    · exact not_holds_leaves flat within

/-! ### The grammar -/

theorem usual {kind : NodeKind} (usual : kind.isSpecial = false) : kind.isBody = false := by
  cases kind <;> first | rfl | cases usual

/-- The relation between rules that the lockstep gives. -/
def rules (b : Replacement) : RuleRelation := b.lockstep.relation fun _ => usual

theorem start_lt (b : Replacement) : b.start < b.words.length := by simp [words, around, start]

/-- A body that begins at another word is a node like any other. -/
theorem elsewhere (kind : NodeKind) (turn : b.rules.Rel Anywhere .same bodyTurn bodyTurn) :
    b.rules.Rel (fun ws => ws.length + b.start ≠ b.words.length) .same (bracedBody kind) (bracedBody kind) := by
  refine b.rules.ask (.currentIs .braceOpen) fun found =>
    b.rules.ite (fun _ => b.rules.answer (b.rules.errorWith rfl _) ()) fun _ => ?_
  obtain ⟨trails, keeps⟩ := b.rules.delimited (p := Anywhere)
    ⟨.braceOpen, .braceClose, .unclosedBrace, "body opened here", true⟩ rfl turn
  refine ⟨Leaves.node trails, fun c c' entry start => ?_⟩
  have other : c.placeGap.passed ≠ b.start := fun same => entry.1 <| by
    have length := congrArg List.length start.ready.rest
    have same : c.passed = b.start := same
    rw [List.length_drop, same] at length
    have := b.start_lt
    omega
  have begun := b.lockstep.openNode start.placeGap kind (b.lockstep.size start.placeGap) (.inl rfl)
  refine b.lockstep.node trails start (keeps _ _ trivial begun) ?_ fun _ _ rel _ _ moved _ _ =>
    moved ▸ rel.closeNode kind _
  exact fun e left lost => ⟨lost.1, lost.2 ∘ Leaves.closeBody left other⟩

/-- Every rule reads words in which a body is replaced as it reads those with the body. -/
def grammar (b : Replacement) : GrammarRelation where
  toRuleRelation := b.rules
  ofTypeExpr special := absurd rfl special
  ofExportDefault special := absurd ⟨rfl, rfl⟩ special
  ofExportAssignment special := absurd ⟨rfl, rfl⟩ special
  ofImportDeclaration special := absurd rfl special
  ofModuleDeclaration special := absurd rfl special
  ofGlobalDeclaration special := absurd rfl special
  ofBracedBody {kind} body _ turn := by
    obtain ⟨trails, keeps⟩ := elsewhere kind turn
    refine ⟨trails, fun c c' _ rel => ?_⟩
    by_cases here : c.passed = b.start
    · exact rel.body body here
    · refine keeps c c' (fun length => here ?_) rel
      rw [rel.ready.rest, List.length_drop] at length
      have := b.start_lt
      omega
  ofList {kind} list special := absurd (by cases kind <;> first | rfl | cases list) special

/-- Words in which a body is replaced are read as the words with the body are, if nothing is complained
of there. -/
theorem source_swapped (run : source.run (.start {} b.words) = .ok ((), d)) (tidy : d.Tidy)
    (holds : b.Holds d.parts.toList) (run' : source.run (.start {} b.words') = .ok ((), e)) : b.Swapped d e := by
  have start : b.Swapped (.start {} b.words) (.start {} b.words') := by
    refine ⟨⟨⟨rfl, rfl, rfl⟩, rfl, rfl⟩, ⟨⟨rfl, rfl, rfl⟩, rfl, rfl⟩, .before (Nat.zero_le _), rfl, rfl, rfl, .nil, rfl⟩
  have keeps := b.grammar.source.2 _ _ trivial start () d run tidy
  exact ((keeps.resolve_left fun lost => lost.2 holds) () e run').2

end Replacement

end ImplicitGlobals.Grammar
