import ImplicitGlobals.Proofs.Grammar.Advancing
import ImplicitGlobals.Proofs.Setting.Steps

/-!
# Two runs in lockstep

Two runs of one rule over words that agree as far as a test can see do the same, step by step, and
a relation between their cursors that every step keeps holds behind the rule. Nothing is said of
runs in which something is complained of. The first run may also get lost: then the second one does
not count any more.
-/

namespace ImplicitGlobals.Grammar

variable {α β : Type} {c c' d e : Cursor}

/-- A relation between the cursors of two runs without bounds that all steps keep, or else the first
run is lost. What the first run leaves behind by itself is the trail `T`. The numbers of parts go together
as `points` says. -/
structure Lockstep (Ordinary : NodeKind → Prop) (T : Cursor → Cursor → Prop) (points : Link Checkpoint)
    (Lost : Cursor → Prop) (R : Cursor → Cursor → Prop) : Prop where
  trail : Trail Ordinary T
  tidy {c d : Cursor} : T c d → d.Tidy → c.Tidy
  openers {c d : Cursor} : T c d → d.openers = c.openers
  lost {c d : Cursor} : T c d → Lost c → Lost d
  agree {c c' : Cursor} : R c c' → Agree c.rest c'.rest
  gap {c c' : Cursor} : R c c' → c'.gap = c.gap
  refused {c c' : Cursor} : R c c' → c'.refused = c.refused
  /-- A node that is begun in the first run lies in the same node as the one that is begun in the second. -/
  opened {c c' e e' : Cursor} {kind : NodeKind} {first : Nat} (outer : R c c') (inner : R e e')
    (top : e.opened = ⟨kind, first⟩ :: c.opened) :
    ∃ first', points.Holds first first' ∧ e'.opened = ⟨kind, first'⟩ :: c'.opened
  size {c c' : Cursor} : R c c' → points.Holds c.parts.size c'.parts.size
  block {c c' : Cursor} : R c c' →
    c'.openers.head?.any (·.kind == .braceOpen) = c.openers.head?.any (·.kind == .braceOpen)
  unbounded {c c' : Cursor} : R c c' → c.budget = {} ∧ c'.budget = {}
  count {c c' : Cursor} (h : R c c') (gap : Gap) (looks looks' depth depth' : Nat) :
    R { c with gap, looks, depth } { c' with gap, looks := looks', depth := depth' }
  read {c c' : Cursor} {w : Word} {ws : List Word} (h : R c c') (current : c.rest = w :: ws)
    (label : LeafKind) : Lost (c.read label) ∨ R (c.read label) (c'.read label)
  placeGap {c c' : Cursor} : R c c' → R c.placeGap c'.placeGap
  openNode {c c' : Cursor} (h : R c c') (kind : NodeKind) {first first' : Nat}
    (moved : points.Holds first first')
    (valid : first = c.parts.size ∨ ∀ o ∈ c.opened.head?, o.first ≤ first) :
    R (c.openNode kind first) (c'.openNode kind first')
  lost_closeNode {c : Cursor} {kind : NodeKind} (ordinary : Ordinary kind) (first : Nat) :
    Lost c → Lost (c.closeNode kind first)
  closeNode {c c' e e' : Cursor} {kind : NodeKind} {first first' : Nat} (ordinary : Ordinary kind)
    (outer : R c c') (inner : R e e') (top : e.opened = ⟨kind, first⟩ :: c.opened)
    (moved : points.Holds first first') (top' : e'.opened = ⟨kind, first'⟩ :: c'.opened)
    (found : ¬Lost (e.closeNode kind first)) : R (e.closeNode kind first) (e'.closeNode kind first')
  pushOpener {c c' : Cursor} (h : R c c') (kind : TokenKind) : R (c.pushOpener kind) (c'.pushOpener kind)
  lost_popOpener {c : Cursor} : Lost c → Lost c.popOpener
  popOpener {c c' e e' : Cursor} (outer : R c c') (inner : R e e') (top : e.openers.tail = c.openers) :
    R e.popOpener e'.popOpener

/-- From these cursors the second rule keeps up with the first one. -/
def KeepsUp (Lost : Cursor → Prop) (R : Cursor → Cursor → Prop) (V : Link α) (r r' : Rule α)
    (c c' : Cursor) : Prop :=
  Yields r c fun x d => d.Tidy → Lost d ∨ Yields r' c' fun y d' => V.Holds x y ∧ R d d'

namespace Lockstep

variable {Ordinary : NodeKind → Prop} {T : Cursor → Cursor → Prop} {points : Link Checkpoint}
  {Lost : Cursor → Prop} {R : Cursor → Cursor → Prop} {p : List Word → Prop} {V : Link α}

/-- The first rule leaves its trail, and the second one keeps up with it from related cursors. -/
def Rel (_ : Lockstep Ordinary T points Lost R) (p : List Word → Prop) (V : Link α) (r r' : Rule α) : Prop :=
  Trails T r ∧ ∀ c c', p c.rest → R c c' → KeepsUp Lost R V r r' c c'

variable (h : Lockstep Ordinary T points Lost R)
include h

theorem skipGap (rel : R c c') (looks looks' : Nat) :
    R { c.skipGap with looks } { c'.skipGap with looks := looks' } := by
  rw [Cursor.skipGap, Cursor.skipGap, h.gap rel]
  exact h.count rel c.gap.skipped looks looks' c.depth c'.depth

/-- Levels of nesting do not count. -/
theorem level (rel : R c c') (depth depth' : Nat) : R { c with depth, looks := lookLimit }
    { c' with depth := depth', looks := lookLimit } := by
  have same : { c' with gap := c.gap, depth := depth', looks := lookLimit } =
      { c' with depth := depth', looks := lookLimit } := by rw [← h.gap rel]
  exact same ▸ h.count rel c.gap lookLimit lookLimit depth depth'

/-- Rules in lockstep, one behind the other. -/
theorem bind {q : α → List Word → Prop} {W : Link β} {r r' : Rule α} {f g : α → Rule β}
    (first : h.Rel p V r r') (keeps : ∀ c, p c.rest → Yields r c fun x d => q x d.rest)
    (next : ∀ x y, V.Holds x y → h.Rel (q x) W (f x) (g y)) : h.Rel p W (r >>= f) (r' >>= g) := by
  have trails (x : α) : Trails T (f x) := (V.total x).elim fun y both => (next x y both).1
  refine ⟨h.trail.bind first.1 trails, fun c c' entry rel y d run tidy => ?_⟩
  obtain ⟨x, e, run, rest⟩ := run_bind_eq_ok run
  have behind := keeps c entry x e run
  have left := trails x e y d rest
  rcases first.2 c c' entry rel x e run (h.tidy left tidy) with lost | follows
  · exact .inl (h.lost left lost)
  · by_cases lost : Lost d
    · exact .inl lost
    · refine .inr (follows.bind fun x' e' post => ?_)
      exact ((next x x' post.1).2 e e' behind post.2 y d rest tidy).resolve_left lost

/-- Both rules do one thing to the cursor and give the same answer. -/
theorem step {t : Rule α} {v : Cursor → α} {f : Cursor → Nat → Cursor} (trails : Trails T t)
    (steps : ∀ c, Yields t c fun x d => x = v c ∧ ∃ looks, d = f c looks)
    (answers : ∀ c c', R c c' → V.Holds (v c) (v c'))
    (keeps : ∀ c c' looks looks', R c c' → R (f c looks) (f c' looks')) : h.Rel p V t t := by
  refine ⟨trails, fun c c' _ rel x d run _ => .inr fun y d' run' => ?_⟩
  obtain ⟨rfl, looks, rfl⟩ := steps c x d run
  obtain ⟨rfl, looks', rfl⟩ := steps c' y d' run'
  exact ⟨answers c c' rel, keeps c c' looks looks' rel⟩

/-- A question that sees the words is answered alike. -/
theorem look {t : Rule α} {v : List Word → α} (sees : Sees p t v) : h.Rel p .same t t := by
  refine ⟨h.trail.answers sees.answers, fun c c' entry rel x d run _ => .inr fun y d' run' => ?_⟩
  obtain ⟨g, leaves, same⟩ := sees.gap
  obtain ⟨rfl, gap, looks, depth, rfl⟩ := sees.answers c x d run
  obtain ⟨rfl, gap', looks', depth', rfl⟩ := sees.answers c' y d' run'
  have agree := h.agree rel
  obtain rfl : gap = g c.rest c.gap := leaves c _ _ run
  obtain rfl : gap' = g c'.rest c'.gap := leaves c' _ _ run'
  refine ⟨sees.agree _ _ entry agree, ?_⟩
  rw [h.gap rel, ← same _ _ entry agree]
  exact h.count rel _ looks looks' depth depth'

/-- A word is read in both runs. -/
theorem takeAs (label : LeafKind) : h.Rel p .same (takeAs label) (takeAs label) := by
  refine ⟨fun c => (takeAs_yields label c).imp fun _ _ took => h.trail.took took.choose_spec,
    fun c c' _ rel x d run _ => ?_⟩
  obtain ⟨looks, w, ws, current, rfl⟩ := takeAs_steps label c x d run
  obtain ⟨free, free'⟩ := h.unbounded rel
  have paid (c : Cursor) (free : c.budget = {}) (looks : Nat) :
      Cursor.paid { c.skipGap with looks } = { c.skipGap with looks } := by
    simp [Cursor.paid, Cursor.skipGap, free]
  have read (looks' : Nat) := h.read (h.skipGap rel looks looks') current label
  by_cases lost : Lost (Cursor.read { c.skipGap with looks } label)
  · exact .inl ((paid c free looks).symm ▸ lost)
  · refine .inr fun y d' run' => ?_
    obtain ⟨looks', -, -, -, rfl⟩ := takeAs_steps label c' y d' run'
    rw [paid c free, paid c' free']
    exact ⟨rfl, (read looks').resolve_left lost⟩

theorem bump : h.Rel p .same bump bump :=
  h.bind (q := fun _ _ => True) (h.look .current) (fun _ _ _ _ _ => trivial) fun x y same => by
    cases same
    exact h.takeAs _

/-- What is put around a body is put around both. Of the cursor behind the body of the first run `P` holds. -/
theorem surrounds {kind : NodeKind} {first : Nat} {r r' body body' : Rule Unit} {o o' : Cursor} {P : Cursor → Prop}
    (around : Surrounds r body c o) (around' : Surrounds r' body' c' o') (start : R c c')
    (opened : o.opened = ⟨kind, first⟩ :: c.opened)
    (leaves : Yields body o fun _ e => e.opened = o.opened ∧ (e.Tidy → P e))
    (keeps : KeepsUp Lost R .same body body' o o')
    (loses : ∀ e, P e → Lost e → Lost (e.closeNode kind first))
    (closes : ∀ e e', R e e' → e.opened = ⟨kind, first⟩ :: c.opened → ∀ first', points.Holds first first' →
      e'.opened = ⟨kind, first'⟩ :: c'.opened → ¬Lost (e.closeNode kind first) →
        R (e.closeNode kind first) (e'.closeNode kind first')) :
    KeepsUp Lost R .same r r' c c' := by
  have both : Yields body o fun _ e => (e.opened = o.opened ∧ (e.Tidy → P e)) ∧
      (e.Tidy → Lost e ∨ Yields body' o' fun _ e' => R e e') := fun x e run =>
    ⟨leaves x e run, fun tidy => (keeps x e run tidy).imp id fun next => next.imp fun _ _ post => post.2⟩
  refine (around _ both).imp fun _ d closed tidy => ?_
  obtain ⟨n, ns, e, ⟨⟨same, left⟩, next⟩, top, rfl⟩ := closed
  obtain ⟨rfl, rfl⟩ := List.cons.inj ((top.symm.trans same).trans opened)
  have tidy : e.Tidy := ⟨tidy.complaints, tidy.lastPlace, tidy.refused⟩
  by_cases gone : Lost (e.closeNode kind first)
  · exact .inl gone
  refine (next tidy).imp (loses e (left tidy)) fun next => (around' _ next).imp fun _ d' closed => ?_
  obtain ⟨n', ns', e', rel, top', rfl⟩ := closed
  obtain ⟨first', moved, is⟩ := h.opened start rel top
  obtain ⟨rfl, rfl⟩ := List.cons.inj (top'.symm.trans is)
  exact ⟨rfl, closes e e' rel top first' moved top' gone⟩

/-- A body that leaves a trail does not touch what is open. -/
theorem leaves {body : Rule Unit} (trails : Trails T body) (o : Cursor) :
    Yields body o fun _ e => e.opened = o.opened ∧ (e.Tidy → T o e) :=
  (trails o).imp fun _ _ trail => ⟨h.trail.opened trail, fun _ => trail⟩

/-- A node around bodies in lockstep. -/
theorem node {kind : NodeKind} {body body' : Rule Unit} (trails : Trails T body) (start : R c c')
    (keeps : KeepsUp Lost R .same body body' (c.placeGap.openNode kind c.placeGap.parts.size)
      (c'.placeGap.openNode kind c'.placeGap.parts.size))
    (loses : ∀ e, T (c.placeGap.openNode kind c.placeGap.parts.size) e → Lost e →
      Lost (e.closeNode kind c.placeGap.parts.size))
    (closes : ∀ e e', R e e' → e.opened = ⟨kind, c.placeGap.parts.size⟩ :: c.opened →
      ∀ first', points.Holds c.placeGap.parts.size first' → e'.opened = ⟨kind, first'⟩ :: c'.opened →
        ¬Lost (e.closeNode kind c.placeGap.parts.size) →
          R (e.closeNode kind c.placeGap.parts.size) (e'.closeNode kind first')) :
    KeepsUp Lost R .same (Grammar.node kind body) (Grammar.node kind body') c c' :=
  h.surrounds (node_surrounds kind body c) (node_surrounds kind body' c') start rfl (h.leaves trails _) keeps
    loses closes

/-- A node that both runs begin at a place from before. -/
theorem nodeAt {kind : NodeKind} {point point' : Checkpoint} {body body' : Rule Unit} {P : Cursor → Prop}
    (start : R c c') (moved : points.Holds point point')
    (leaves : Yields body (c.openNode kind point) fun _ e => e.opened = (c.openNode kind point).opened ∧
      (e.Tidy → P e))
    (keeps : R (c.openNode kind point) (c'.openNode kind point') →
      KeepsUp Lost R .same body body' (c.openNode kind point) (c'.openNode kind point'))
    (loses : ∀ e, P e → Lost e → Lost (e.closeNode kind point))
    (closes : ∀ e e', R e e' → e.opened = ⟨kind, point⟩ :: c.opened → ∀ first', points.Holds point first' →
      e'.opened = ⟨kind, first'⟩ :: c'.opened → ¬Lost (e.closeNode kind point) →
        R (e.closeNode kind point) (e'.closeNode kind first')) :
    KeepsUp Lost R .same (Grammar.nodeAt point kind body) (Grammar.nodeAt point' kind body') c c' :=
  fun x d run =>
    have valid := nodeAt_valid point kind body c x d run
    h.surrounds (nodeAt_surrounds point kind body c) (nodeAt_surrounds point' kind body' c') start rfl leaves
      (keeps (h.openNode start kind moved (.inr valid))) loses closes x d run

/-- Delimiters around bodies in lockstep. -/
theorem inside (kind : TokenKind) {body body' : Rule Unit} (inner : h.Rel Anywhere .same body body') :
    h.Rel p .same (inside kind body) (inside kind body') := by
  have pushes (c : Cursor) : Yields (Grammar.pushOpener kind) c fun _ d => ∃ looks,
      d = Cursor.pushOpener { c.skipGap with looks } kind :=
    (mark_steps c).bind fun i d post => .modify <| by
      obtain ⟨rfl, looks, rfl⟩ := post
      exact ⟨looks, rfl⟩
  refine ⟨h.trail.inside kind inner.1, fun c c' _ rel x d run tidy => ?_⟩
  obtain ⟨_, o, push, run⟩ := run_bind_eq_ok run
  obtain ⟨_, e, bump, run⟩ := run_bind_eq_ok run
  obtain ⟨_, f, body, run⟩ := run_bind_eq_ok run
  cases run
  obtain ⟨looks, rfl⟩ := pushes c _ o push
  have left : T e f := inner.1 e _ f body
  have tidy : f.Tidy := ⟨tidy.complaints, tidy.lastPlace, tidy.refused⟩
  have start (looks' : Nat) := h.pushOpener (h.skipGap rel looks looks') kind
  have read (looks' : Nat) := (h.bump (p := Anywhere)).2 _ _ trivial (start looks') _ e bump (h.tidy left tidy)
  by_cases lost : Lost f
  · exact .inl (h.lost_popOpener lost)
  refine .inr ((pushes c').bind fun _ o' pushed => ?_)
  obtain ⟨looks', rfl⟩ := pushed
  rcases read looks' with gone | read
  · exact absurd (h.lost left gone) lost
  refine read.bind fun _ e' post => ?_
  have next := (inner.2 e e' trivial post.2 _ f body tidy).resolve_left lost
  have top : f.openers.tail = c.openers := by
    have grown := (h.openers left).trans (bump_yields _ _ _ bump).choose_spec.openers
    rw [grown]
    rfl
  exact next.bind fun _ f' post => .modify ⟨rfl, h.popOpener rel post.2 top⟩

/-- Where something is complained of nothing has to be shown. -/
theorem complains {k : Nat → Option Nat → Complaint}
    (makes : ∀ c : Cursor, c.Makes (k c.passed c.innermost)) : h.Rel p .same (complain k) (complain k) :=
  ⟨h.trail.complain k makes, fun c _ _ _ => (complain_spoils k c).imp fun _ _ spoilt tidy =>
    absurd tidy spoilt⟩

theorem isEmpty (rel : R c c') : c'.rest.isEmpty = c.rest.isEmpty := by
  have first := (h.agree rel).getElem? (transparent_zero c.rest)
  cases rest : c.rest <;> cases rest' : c'.rest <;> simp_all

/-- The end is found in both runs. -/
theorem atEnd : h.Rel p .same atEnd atEnd := by
  refine h.step (v := fun c => c.rest.isEmpty || c.refused.isSome) (f := fun c _ => c.skipGap)
    (h.trail.answers atEnd_answers) (fun c x d run => ?_) (fun c c' rel => ?_)
    fun c c' _ _ rel => h.skipGap rel c.looks c'.looks
  · cases run
    exact ⟨rfl, 0, rfl⟩
  · show (c.rest.isEmpty || c.refused.isSome) = (c'.rest.isEmpty || c'.refused.isSome)
    rw [h.isEmpty rel, h.refused rel]

theorem checkpoint : h.Rel p points checkpoint checkpoint := by
  have placed {c c' : Cursor} (rel : R c c') : R c.skipGap.placeGap c'.skipGap.placeGap :=
    h.placeGap (h.skipGap rel c.looks c'.looks)
  have whole : Trails T Grammar.checkpoint := h.trail.bind (h.trail.bind
    (fun _ => .modify (h.trail.ofSame ⟨_, _, _, rfl⟩)) fun _ _ => .modify (h.trail.placeGap _))
    fun _ _ => .get (.pure (h.trail.refl _))
  refine h.step (v := fun c => c.skipGap.placeGap.parts.size) (f := fun c _ => c.skipGap.placeGap) whole
    (fun c x d run => ?_) (fun c c' rel => h.size (placed rel)) fun _ _ _ _ rel => placed rel
  cases run
  exact ⟨rfl, 0, rfl⟩

/-- Without bounds a level more is always allowed. -/
theorem descend (usual : Trails T descend) : h.Rel p .same descend descend := by
  refine ⟨usual, fun c c' _ rel x d run _ => .inr fun y d' run' => ?_⟩
  obtain ⟨free, free'⟩ := h.unbounded rel
  have deeper (c : Cursor) (free : c.budget = {}) : Grammar.descend.run c =
      .ok (true, { c with depth := c.depth + 1, looks := lookLimit }) := by
    simp [Grammar.descend, free]
    rfl
  cases run.symm.trans (deeper c free)
  cases run'.symm.trans (deeper c' free')
  exact ⟨rfl, h.level rel _ _⟩

/-- Lockstep as a relation between rules. -/
def relation (usual : ∀ kind : NodeKind, kind.isSpecial = false → Ordinary kind) : RuleRelation where
  Rel := h.Rel
  given rel entry := ⟨rel.1, fun c c' start => rel.2 c c' (entry c.rest start)⟩
  pure holds := ⟨fun _ => .pure (h.trail.refl _), fun _ _ _ rel => .pure fun _ => .inr (.pure ⟨holds, rel⟩)⟩
  throwLeft b _ := ⟨fun _ => .throw b, fun _ _ _ _ => .throw b⟩
  throwRight rel b := ⟨rel.1, fun _ _ _ _ _ _ _ _ => .inr (.throw b)⟩
  bind := h.bind
  look := h.look
  mark := h.step (h.trail.look fun c => (mark_yields c).imp fun _ _ post => post.2) mark_steps
    (fun _ _ _ => trivial) fun _ _ looks looks' rel => h.skipGap rel looks looks'
  atEnd := h.atEnd
  isRefused := by
    refine h.step (v := fun c => c.refused.isSome) (f := fun c _ => c) (h.trail.answers isRefused_answers)
      (fun c x d run => ?_) (fun c c' rel => congrArg Option.isSome (h.refused rel).symm)
      fun _ _ _ _ rel => rel
    cases run
    exact ⟨rfl, 0, rfl⟩
  inBlock := h.step (f := fun c _ => c) (fun _ => .get (.pure (h.trail.refl _)))
    (fun _ => .get (.pure ⟨rfl, 0, rfl⟩)) (fun _ _ rel => (h.block rel).symm) fun _ _ _ _ rel => rel
  bounded rel := ⟨fun c => .get ((rel c.total c.total).1 c), fun c c' entry start =>
    Yields.get (((rel c.total c'.total).2 c c' entry start).imp fun _ _ next tidy =>
      (next tidy).imp id fun next => .get next)⟩
  takeAs := h.takeAs
  placeGap := h.step (v := fun _ => ()) (f := fun c _ => c.placeGap) (fun _ => .modify (h.trail.placeGap _))
    (fun _ => .modify ⟨rfl, 0, rfl⟩) (fun _ _ _ => rfl) fun _ _ _ _ rel => h.placeGap rel
  skipGap := h.step (v := fun _ => ()) (f := fun c _ => c.skipGap)
    (fun _ => .modify (h.trail.ofSame ⟨_, _, _, rfl⟩)) (fun _ => .modify ⟨rfl, 0, rfl⟩) (fun _ _ _ => rfl)
    fun c c' _ _ rel => h.skipGap rel c.looks c'.looks
  points := points
  checkpoint := h.checkpoint
  Ordinary := Ordinary
  ordinary := usual _
  node ordinary _ _ rel := ⟨h.trail.node ordinary rel.1, fun c c' entry start =>
    h.node rel.1 start (rel.2 _ _ entry (h.openNode (h.placeGap start) _ (h.size (h.placeGap start)) (.inl rfl)))
      (fun _ _ => h.lost_closeNode ordinary _) fun _ _ inner top _ => h.closeNode ordinary start inner top⟩
  nodeAt ordinary _ _ moved _ _ rel := ⟨h.trail.nodeAt ordinary _ rel.1, fun c c' entry start =>
    h.nodeAt start moved (h.leaves rel.1 _) (rel.2 _ _ entry) (fun _ _ => h.lost_closeNode ordinary _)
      fun _ _ inner top _ => h.closeNode ordinary start inner top⟩
  inside kind _ _ rel := h.inside kind rel
  descend {p} := h.descend ((h.trail.relation usual).descend (p := p))
  ascend := h.step (v := fun _ => ()) (f := fun c _ => { c with depth := c.depth - 1, looks := lookLimit })
    (h.trail.look ascend_yields) (fun _ => .modify ⟨rfl, 0, rfl⟩) (fun _ _ _ => rfl) fun _ _ _ _ rel =>
      h.level rel _ _
  here plain detail := h.complains fun c => ⟨rfl, fun _ => rfl, DiagnosticKind.closed_of_isPlain plain⟩
  noSemicolon _ := h.complains fun c => ⟨rfl, fun _ => rfl, rfl⟩
  unclosed unclosed note o o' := ⟨h.trail.complain _ (Cursor.makes_unclosed unclosed note o), fun c _ _ _ =>
    (complain_spoils _ c).imp fun _ _ spoilt tidy => absurd tidy spoilt⟩

end Lockstep

/-- Where no node is special every rule keeps up with itself. -/
def Lockstep.whole {T : Cursor → Cursor → Prop} {points : Link Checkpoint} {Lost : Cursor → Prop}
    {R : Cursor → Cursor → Prop} (h : Lockstep (fun _ => True) T points Lost R) : GrammarRelation where
  toRuleRelation := h.relation fun _ _ => trivial
  ofTypeExpr special := absurd trivial special
  ofExportDefault special := absurd ⟨trivial, trivial⟩ special
  ofExportAssignment special := absurd ⟨trivial, trivial⟩ special
  ofImportDeclaration special := absurd trivial special
  ofModuleDeclaration special := absurd trivial special
  ofGlobalDeclaration special := absurd trivial special
  ofBracedBody _ special := absurd trivial special
  ofList _ special := absurd trivial special

end ImplicitGlobals.Grammar
