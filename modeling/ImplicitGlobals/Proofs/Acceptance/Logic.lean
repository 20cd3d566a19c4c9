import ImplicitGlobals.Proofs.Grammar.Yields
import ImplicitGlobals.Proofs.Syntax.Nesting
import Mathlib

/-!
# What is read without complaint

A complaint is never taken back, and a spent budget stays spent. So where a rule ends with
neither, there was none on the way, and each step did what it was meant to do. `Forms p r L`
says of a rule that is entered at words of which `p` holds what it then adds to the tree: nodes
that have the parts they need, whose kinds make a word of the language `L`, over source words
in which the brackets are well nested.
-/

namespace ImplicitGlobals

open Grammar

/-- The kind of a part; a gap has none. -/
def Tree.sort? : Tree Slot → Option Kind
  | .leaf (.gap _) => none
  | .leaf (.word _ label) => some (.leaf label)
  | .node kind _ => some (.node kind)

/-- The kinds of parts, without the gaps. -/
def kindsOf (parts : List (Tree Slot)) : List Kind := parts.filterMap Tree.sort?

def Kind.isLeaf : Kind → Bool
  | .leaf _ => true
  | .node _ => false

/-- Whether a part introduces names. -/
def Kind.binds (kind : Kind) : Bool := kind == .node .name || kind == .node .bindingPattern

/-- Whether a node of the kind has the parts that binding counts on. -/
def NodeKind.complete (kind : NodeKind) (parts : List Kind) : Bool :=
  let has (k : NodeKind) : Bool := parts.contains (.node k)
  let keyword (k : Keyword) : Bool := parts.contains (.leaf (.keyword k))
  match kind with
  | .error => false
  | .variableDeclarator | .parameter =>
    parts.countP (·.binds) == 1
  | .functionDeclaration => has .parameterList && (keyword .kwDefault || has .name)
  | .classDeclaration => has .classBody && (keyword .kwDefault || has .name)
  | .interfaceDeclaration => has .name && has .objectTypeBody
  | .typeAliasDeclaration => has .name && has .typeExpr
  | .typeExpr => parts.any (·.isLeaf)
  | .enumDeclaration => has .name && has .enumBody
  | .moduleDeclaration => has .name || (keyword .kwGlobal && has .moduleBlock)
  | .typeParameter | .importSpecifier | .namespaceImport | .importEquals => has .name
  | _ => true

/-- A part in which every node has what it needs and no word is garbage. -/
inductive Tree.Flawless : Tree Slot → Prop where
  | gap (i : Nat) : Flawless (.leaf (.gap i))
  | word (i : Nat) {label : LeafKind} (clean : label ≠ .token .garbage) :
      Flawless (.leaf (.word i label))
  | node {kind : NodeKind} {children : List (Tree Slot)}
      (complete : kind.complete (kindsOf children) = true)
    (each : ∀ t ∈ children, t.Flawless) : Flawless (.node kind children)

namespace Grammar

variable {α β : Type} {c d e : Cursor}

/-- Where the rule ends tidy, it began tidy and ends in `Q`. -/
def Accepts (r : Rule α) (c : Cursor) (Q : α → Cursor → Prop) : Prop :=
  Yields r c fun x d => d.Tidy → c.Tidy ∧ Q x d

namespace Accepts

variable {r : Rule α} {P Q : α → Cursor → Prop}

/-- A value is accepted where it comes back. -/
theorem pure {x : α} (h : c.Tidy → Q x c) : Accepts (Pure.pure x) c Q :=
  Yields.pure fun tidy => ⟨tidy, h tidy⟩

theorem imp (h : Accepts r c P) (imp : ∀ x d, c.Tidy → d.Tidy → P x d → Q x d) : Accepts r c Q :=
  Yields.imp h fun x d post tidy =>
    have ⟨began, holds⟩ := post tidy
    ⟨began, imp x d began tidy holds⟩

/-- What a tidy end says is said of the way there. -/
theorem bind {Q : β → Cursor → Prop} {f : α → Rule β} (h : Accepts r c P)
    (next : ∀ x d, (d.Tidy → c.Tidy ∧ P x d) → Accepts (f x) d Q) : Accepts (r >>= f) c Q :=
  Yields.bind h fun x d post => Yields.imp (next x d post) fun _ _ post' tidy =>
    have ⟨between, holds⟩ := post' tidy
    ⟨(post between).1, holds⟩

/-- Of a choice the branch that is taken. -/
theorem ite {p : Prop} [Decidable p] {s t : Rule α} (yes : p → Accepts s c Q)
    (no : ¬p → Accepts t c Q) :
    Accepts (if p then s else t) c Q :=
  Yields.ite yes no

/-- A rule that goes on from what it has looked at. -/
theorem look {t : Rule β} {P : β → Prop} {f : β → Rule α} (h : Yields t c fun x d => P x ∧ Same c d)
    (next : ∀ x d, P x → Same c d → Accepts (f x) d Q) : Accepts (t >>= f) c Q := by
  refine Yields.bind h fun x d post => Yields.imp (next x d post.1 post.2) fun _ _ ends tidy => ?_
  obtain ⟨_, _, _, rfl⟩ := post.2
  exact ⟨⟨(ends tidy).1.complaints, (ends tidy).1.lastPlace, (ends tidy).1.refused⟩, (ends tidy).2⟩

/-- A rule that goes on from the answer of a test. -/
theorem ask {t : Rule β} {v : List Word → Option Limit → β} {f : β → Rule α} (h : Answers t v)
    (next : ∀ d, Same c d → Accepts (f (v c.rest c.refused)) d Q) : Accepts (t >>= f) c Q :=
  look (h c) fun _ d is same => is ▸ next d same

/-- A rule that complains does not end tidy. -/
theorem never (h : Yields r c fun _ d => ¬d.Tidy) : Accepts r c Q :=
  Yields.imp h fun _ _ untidy tidy => absurd tidy untidy

/-- A breach accepts anything: it does not come back. -/
theorem throw (b : Breach) : Accepts (throw b : Rule α) c Q := Yields.throw b

end Accepts

/-- A complaint leaves no tidy cursor. -/
theorem complain_accepts (k : Nat → Option Nat → Complaint) (Q : Unit → Cursor → Prop) :
    Accepts (complain k) c Q := .never (complain_spoils k c)

theorem error_accepts (kind : DiagnosticKind) (Q : Unit → Cursor → Prop) :
    Accepts (error kind) c Q :=
  complain_accepts _ Q

theorem errorWith_accepts (kind : DiagnosticKind) (detail : String) (Q : Unit → Cursor → Prop) :
    Accepts (errorWith kind detail) c Q := complain_accepts _ Q

/-! ### Complaints stay -/

/-- A rule that takes no complaint back. -/
def Keeps (r : Rule α) : Prop := ∀ c, Accepts r c fun _ _ => True

namespace Keeps

variable {r : Rule α} {Q : α → Cursor → Prop}

theorem pure (x : α) : Keeps (Pure.pure x) := fun _ => .pure fun _ => trivial

/-- Rules that keep the nesting, one behind the other. -/
theorem bind {f : α → Rule β} (h : Keeps r) (next : ∀ x, Keeps (f x)) : Keeps (r >>= f) :=
  fun c => (h c).bind fun x d _ => next x d

/-- Questions keep it. -/
theorem ofAnswers {v : List Word → Option Limit → α} (h : Answers r v) : Keeps r :=
  fun c => Yields.imp (h c) fun _ _ post tidy => ⟨post.2.tidy tidy, trivial⟩

theorem ite {p : Prop} [Decidable p] {s t : Rule α} (yes : Keeps s) (no : Keeps t) :
    Keeps (if p then s else t) := fun c => .ite (fun _ => yes c) fun _ => no c

theorem and {s t : Rule Bool} (h : Keeps s) (g : Keeps t) : Keeps (s <&&> t) :=
  h.bind fun b => by
    cases b with
    | false => exact .pure false
    | true => exact g

theorem or {s t : Rule Bool} (h : Keeps s) (g : Keeps t) : Keeps (s <||> t) :=
  h.bind fun b => by
    cases b with
    | false => exact g
    | true => exact .pure true

/-- Behind a complaint nothing ends tidy. -/
theorem spoilt (h : Keeps r) (untidy : ¬c.Tidy) : Accepts r c Q :=
  (h c).imp fun _ _ tidy => absurd tidy untidy

end Keeps

theorem bump_keeps : Keeps bump := fun c =>
  Yields.imp (bump_yields c) fun _ _ ⟨_, took⟩ tidy => ⟨took.tidy tidy, trivial⟩

/-- A node keeps what its body keeps. -/
theorem nodeAt_keeps {point : Checkpoint} {kind : NodeKind} {body : Rule Unit} (h : Keeps body) :
    Keeps (nodeAt point kind body) := fun c => by
  refine Yields.imp (nodeAt_yields (h _)) fun _ d closed tidy => ?_
  obtain ⟨e, o, os, post, -, rfl⟩ := closed
  have began := (post ⟨tidy.complaints, tidy.lastPlace, tidy.refused⟩).1
  exact ⟨⟨began.complaints, began.lastPlace, began.refused⟩, trivial⟩

/-- A loop keeps what its turns keep. -/
theorem loop_keeps {σ : Type} {s : σ} {step : σ → Rule (Turn σ)} (turn : ∀ s, Keeps (step s)) :
    Keeps (loop s step) := by
  intro c
  refine loop_yields (I := fun _ d => d.Tidy → c.Tidy) (Q := fun _ d => d.Tidy → c.Tidy ∧ True) id
    fun s d inv => Yields.imp (turn s d) fun t e post => ?_
  cases t with
  | again s' => exact fun tidy => inv (post tidy).1
  | done s' => exact fun tidy => ⟨inv (post tidy).1, trivial⟩

/-! ### What is added to the tree -/

/-- The kinds of a list of parts. -/
@[simp] theorem kindsOf_append (ps qs : List (Tree Slot)) :
    kindsOf (ps ++ qs) = kindsOf ps ++ kindsOf qs :=
  List.filterMap_append

@[simp] theorem kindsOf_due (gap : Gap) (i : Nat) : kindsOf (gap.due i).toList = [] := by
  unfold Gap.due
  split <;> rfl

theorem flawless_due (gap : Gap) (i : Nat) : ∀ t ∈ (gap.due i).toList, t.Flawless :=
  fun _ due => Gap.eq_of_mem_due due ▸ .gap i

/-- Every word of the language has the kind in it. -/
def Has (kind : Kind) (L : Language Kind) : Prop := ∀ ks ∈ L, ks.contains kind = true

/-- So many parts of every word of the language introduce names. -/
def Binds (n : Nat) (L : Language Kind) : Prop := ∀ ks ∈ L, ks.countP (·.binds) = n

section

variable {kind : Kind} {L M : Language Kind} {m n : Nat}

/-- A language of one kind has it. -/
theorem Has.single (kind : Kind) : Has kind {[kind]} := by
  rintro ks rfl
  simp

theorem Has.left (h : Has kind L) : Has kind (L * M) := by
  intro ks mem
  obtain ⟨as, inside, bs, -, rfl⟩ := Language.mem_mul.1 mem
  simpa using .inl (by simpa using h as inside)

theorem Has.right (h : Has kind M) : Has kind (L * M) := by
  intro ks mem
  obtain ⟨as, -, bs, inside, rfl⟩ := Language.mem_mul.1 mem
  simpa using .inr (by simpa using h bs inside)

theorem Binds.single (kind : Kind) : Binds (if kind.binds = true then 1 else 0) {[kind]} := by
  rintro ks rfl
  simp [List.countP_cons]

/-- Bindings add up. -/
theorem Binds.mul (h : Binds m L) (g : Binds n M) : Binds (m + n) (L * M) := by
  intro ks mem
  obtain ⟨as, first, bs, more, rfl⟩ := Language.mem_mul.1 mem
  rw [List.countP_append, h as first, g bs more]

/-- What may be missing does not count where it does not count when it is there. -/
theorem Binds.optional (h : Binds 0 L) : Binds 0 (1 + L) := by
  rintro ks (rfl | mem)
  · rfl
  · exact h ks mem

theorem Binds.atMost {kind : Kind} (other : kind.binds = false) : Binds 0 (1 + {[kind]}) :=
  .optional (by simpa [other] using Binds.single kind)

end

/-- What comes into the tree between two cursors: parts that are flawless, whose kinds make a word
of the language, over words that leave the brackets of the stack open. -/
structure Fills (c d : Cursor) (stack : List TokenKind) (L : Language Kind) : Prop where
  opened : d.opened = c.opened
  content : ∃ ws ps, c.rest = ws ++ d.rest ∧ d.parts.toList = c.parts.toList ++ ps ∧
    nest false [] (ws.map (·.kind)) = some stack ∧ (∀ t ∈ ps, t.Flawless) ∧ kindsOf ps ∈ L

namespace Fills

variable {stack stack' : List TokenKind} {L M : Language Kind}

theorem refl (c : Cursor) : Fills c c [] 1 :=
  ⟨rfl, [], [], rfl, by simp, rfl, by simp, rfl⟩

/-- What is filled in two steps, with the brackets and the languages one behind the other. -/
theorem trans (h : Fills c d stack L) (g : Fills d e stack' M) :
    Fills c e (stack' ++ stack) (L * M) where
  opened := g.opened.trans h.opened
  content := by
    obtain ⟨us, ps, read, parts, nested, flawless, mem⟩ := h.content
    obtain ⟨vs, qs, read', parts', nested', flawless', mem'⟩ := g.content
    refine ⟨us ++ vs, ps ++ qs, by rw [read, read', List.append_assoc],
      by rw [parts', parts, List.append_assoc], ?_, ?_, ?_⟩
    · rw [List.map_append]
      exact nest_trans nested nested'
    · simpa [or_imp, forall_and] using ⟨flawless, flawless'⟩
    · exact kindsOf_append ps qs ▸ Language.append_mem_mul mem mem'

theorem mono (h : Fills c d stack L) (le : L ≤ M) : Fills c d stack M :=
  ⟨h.opened, have ⟨ws, ps, read, parts, nested, flawless, mem⟩ := h.content
    ⟨ws, ps, read, parts, nested, flawless, le mem⟩⟩

/-- Looking fills in nothing. -/
theorem same (h : Same c d) : Fills c d [] 1 := by
  obtain ⟨_, _, _, rfl⟩ := h
  exact ⟨rfl, [], [], rfl, by simp, rfl, by simp, rfl⟩

/-- A word that is read opens or closes a bracket, or leaves them as they are. -/
theorem took {label : LeafKind} {w : Word} (h : Fills c d stack L) (took : Took label w d e)
    (step : nestStep false stack w.kind = some stack') (clean : label ≠ .token .garbage) :
    Fills c e stack' (L * {[.leaf label]}) where
  opened := took.opened.trans h.opened
  content := by
    obtain ⟨ws, ps, read, parts, nested, flawless, mem⟩ := h.content
    obtain ⟨gap, added⟩ := took.parts
    refine ⟨ws ++ [w], ps ++ (gap.due d.passed).toList ++ [.leaf (.word d.passed label)],
      by simp [read, took.rest], by simp [added, parts], ?_, ?_, ?_⟩
    · rw [List.map_append, nest_append_kinds, nested]
      simp [nest, step]
    · simp only [List.mem_append, List.mem_singleton]
      rintro t ((mem | mem) | rfl)
      · exact flawless t mem
      · exact flawless_due _ _ t mem
      · exact .word _ clean
    · rw [kindsOf_append, kindsOf_append, kindsOf_due, List.append_nil]
      exact Language.append_mem_mul mem (Set.mem_singleton [Kind.leaf label])

theorem placeGap (c : Cursor) : Fills c c.placeGap [] 1 :=
  ⟨rfl, [], (c.gap.due c.passed).toList, rfl, Cursor.toList_parts_placeGap c, rfl, flawless_due _ _,
    kindsOf_due _ _⟩

end Fills

/-- Entered at words of which `p` holds, the rule adds parts of the language that its answer
gives, over words with well nested brackets. -/
def Forms (p : List Word → Prop) (r : Rule α) (L : α → Language Kind) : Prop :=
  ∀ c, (c.Tidy → p c.rest) → Accepts r c fun x d => Fills c d [] (L x)

/-- The rule may be entered anywhere. -/
def Anywhere (_ : List Word) : Prop := True

namespace Forms

variable {p q : List Word → Prop} {r : Rule α} {L M : α → Language Kind} {N : Language Kind}

/-- A value forms the empty word. -/
theorem pure (x : α) : Forms p (Pure.pure x) fun _ => 1 := fun c _ => .pure fun _ => .refl c

/-- A rule may be said to form more. -/
theorem mono (h : Forms p r L) (le : ∀ x, L x ≤ M x) : Forms p r M :=
  fun c entry => (h c entry).imp fun x _ _ _ fills => fills.mono (le x)

/-- A rule that may be entered in either case. -/
theorem either (h : Forms p r L) (g : Forms q r L) : Forms (fun ws => p ws ∨ q ws) r L := by
  intro c entry
  by_cases here : p c.rest
  · exact h c fun _ => here
  · exact g c fun tidy => (entry tidy).resolve_left here

/-- A rule that may be entered in more places. -/
theorem given (h : Forms p r L) (entry : ∀ ws, q ws → p ws) : Forms q r L :=
  fun c at_ => h c fun tidy => entry _ (at_ tidy)

/-- Rules form in sequence what their languages do. -/
theorem bind {f : α → Rule β} {M : α → β → Language Kind} {N : β → Language Kind} (h : Forms p r L)
    (next : ∀ x, Forms Anywhere (f x) (M x)) (le : ∀ x y, L x * M x y ≤ N y) :
    Forms p (r >>= f) N := by
  intro c entry
  refine (h c entry).bind fun x d post => ?_
  have more := next x d fun _ => trivial
  refine more.imp fun y e tidy _ fills => ?_
  simpa using ((post tidy).2.trans fills).mono (le x y)

theorem anywhere (h : Forms Anywhere r L) : Forms p r L := h.given fun _ _ => trivial

theorem ite {c : Prop} [Decidable c] {s t : Rule α} (yes : c → Forms p s L)
    (no : ¬c → Forms p t L) :
    Forms p (if c then s else t) L := by
  split
  · exact yes ‹_›
  · exact no ‹_›

/-- A rule of which it does not matter here what it adds. -/
theorem any (h : Forms p r L) : Forms p r fun _ => ⊤ := h.mono fun _ => le_top

/-- One rule behind the other, of which it does not matter what they add. -/
theorem both {f : α → Rule β} (h : Forms p r L) (next : ∀ x, Forms Anywhere (f x) fun _ => ⊤) :
    Forms p (r >>= f) fun _ => ⊤ := h.bind next fun _ _ => le_top

/-- The same where the first answer does not matter. -/
theorem seq {f : α → Rule β} {M : β → Language Kind} (h : Forms p r fun _ => N)
    (next : ∀ x, Forms Anywhere (f x) M) : Forms p (r >>= f) fun y => N * M y :=
  h.bind next fun _ _ => le_rfl

/-- What a question answers is known of the words behind it. -/
theorem ask {t : Rule β} {v : List Word → Option Limit → β} {f : β → Rule α} (h : Answers t v)
    (next : ∀ x, Forms (fun ws => p ws ∧ v ws none = x) (f x) L) : Forms p (t >>= f) L := by
  intro c entry
  refine .ask h fun d same => ?_
  have looked := Fills.same same
  obtain ⟨_, _, _, rfl⟩ := same
  refine (next _ _ fun tidy => ?_).imp fun x e _ _ fills => ?_
  · have began : c.Tidy := ⟨tidy.complaints, tidy.lastPlace, tidy.refused⟩
    exact ⟨entry began, by rw [began.refused]⟩
  · simpa using looked.trans fills

/-- A branch by a question. -/
theorem branch {t : Rule Bool} {v : List Word → Option Limit → Bool} {x y : Rule α}
    (h : Answers t v)
    (yes : Forms (fun ws => p ws ∧ v ws none = true) x L)
    (no : Forms (fun ws => p ws ∧ v ws none = false) y L) :
    Forms p (t >>= fun b => if b = true then x else y) L := by
  refine ask h fun b => ?_
  cases b with
  | true => exact yes
  | false => exact no

/-- A complaint forms anything, as nothing tidy is left. -/
theorem error (kind : DiagnosticKind) (L : Unit → Language Kind) : Forms p (Grammar.error kind) L :=
  fun _ _ => error_accepts kind _

theorem errorWith (kind : DiagnosticKind) (detail : String) (L : Unit → Language Kind) :
    Forms p (Grammar.errorWith kind detail) L := fun _ _ => errorWith_accepts kind detail _

/-- A rule that reads one word, and one that is entered at the word behind it. -/
theorem thenAt {r : Rule Unit} {f : Unit → Rule β} {M : β → Language Kind}
    (one : ∀ c, Yields r c fun _ d => ∃ w label, Took label w c d) (h : Forms p r fun _ => N)
    (next : Forms q (f ()) M) : Forms (fun ws => p ws ∧ q ws.tail) (r >>= f) fun y => N * M y := by
  intro c entry
  have first : Accepts r c fun _ d => Fills c d [] N ∧ d.rest = c.rest.tail :=
    fun x d run tidy => by
    obtain ⟨w, label, took⟩ := one c x d run
    obtain ⟨began, fills⟩ := h c (fun tidy => (entry tidy).1) x d run tidy
    exact ⟨began, fills, by rw [took.rest]; rfl⟩
  refine first.bind fun _ d post => ?_
  refine (next d fun tidy => (post tidy).2.2 ▸ (entry (post tidy).1).2).imp
      fun y e tidy _ fills => ?_
  simpa using (post tidy).2.1.trans fills

/-- A level of nesting that may be entered is entered. -/
theorem descend {r : Rule Unit} {N : Language Kind} (h : Forms p r fun _ => N) :
    Forms p (Grammar.descend >>= fun b => if (!b) = true then Pure.pure () else r) fun _ => N := by
  intro c entry
  refine Yields.bind (descend_yields c) fun b d level => ?_
  cases b with
  | false => exact Yields.pure fun tidy => absurd tidy.refused level.2
  | true =>
    have same : Same c d := level
    have looked := Fills.same same
    obtain ⟨_, _, _, rfl⟩ := same
    refine Yields.imp (h _ fun tidy => ?_) fun _ e post tidy => ?_
    · exact entry ⟨tidy.complaints, tidy.lastPlace, tidy.refused⟩
    · obtain ⟨began, fills⟩ := post tidy
      exact ⟨⟨began.complaints, began.lastPlace, began.refused⟩, by simpa using looked.trans fills⟩

theorem ascend : Forms p Grammar.ascend fun _ => 1 := fun c _ =>
  Yields.imp (ascend_yields c) fun _ _ same tidy => ⟨same.tidy tidy, .same same⟩

/-- Behind a complaint it does not matter what is added. -/
theorem spoilt {r : Rule Unit} {f : Unit → Rule α} (h : ∀ c, Accepts r c fun _ _ => False)
    (next : ∀ x, Keeps (f x)) : Forms p (r >>= f) L := fun c _ =>
  (h c).bind fun x _ post => (next x).spoilt fun tidy => (post tidy).2

/-- A word that is read and is no bracket. -/
theorem word {label : LeafKind} {r : Rule Unit}
    (h : ∀ c, Yields r c fun _ d => ∃ w, Took label w c d)
    (entry : ∀ w ws, p (w :: ws) → nestStep false [] w.kind = some [])
    (clean : label ≠ .token .garbage) :
    Forms p r fun _ => {[.leaf label]} := fun c at_ =>
  Yields.imp (h c) fun _ d ⟨w, took⟩ tidy => by
    have began := took.tidy tidy
    refine ⟨began, ?_⟩
    simpa using (Fills.refl c).took took (entry w d.rest (took.rest ▸ at_ began)) clean

end Forms

/-! ### Nodes -/

theorem Cursor.Tidy.ofClose {kind : NodeKind} {first : Nat}
    (h : (c.closeNode kind first).Tidy) : c.Tidy :=
  ⟨h.complaints, h.lastPlace, h.refused⟩

/-- Closing a node takes up what came since it began, modifiers included. -/
theorem Fills.close {o : Cursor} {kind : NodeKind} {L M : Language Kind} (before : Fills o c [] L)
    (body : Fills (c.openNode kind o.parts.size) e [] M)
    (complete : ∀ ks ∈ L * M, kind.complete ks = true) :
    e.opened = ⟨kind, o.parts.size⟩ :: c.opened ∧
      Fills o (e.closeNode kind o.parts.size) [] {[.node kind]} := by
  refine ⟨body.opened, ?_, ?_⟩
  · rw [← before.opened]
    simp [Cursor.closeNode, body.opened, Cursor.openNode]
  · obtain ⟨us, ps, read, parts, nested, flawless, mem⟩ := before.content
    obtain ⟨vs, qs, read', parts', nested', flawless', mem'⟩ := body.content
    have all : e.parts.toList = o.parts.toList ++ (ps ++ qs) := by
      rw [parts', ← List.append_assoc, ← parts]
      rfl
    refine ⟨us ++ vs, [.node kind (ps ++ qs)], ?_, ?_, ?_, ?_, rfl⟩
    · rw [read, List.append_assoc]
      exact congrArg (us ++ ·) read'
    · simp [Cursor.toList_parts_closeNode, all]
    · rw [List.map_append]
      exact nest_trans nested nested'
    · simp only [List.mem_singleton, forall_eq]
      refine .node (complete _ (kindsOf_append ps qs ▸ Language.append_mem_mul mem mem'))
          fun t inside => ?_
      exact (List.mem_append.1 inside).elim (flawless t) (flawless' t)

/-- A rule for what begins at a checkpoint, given what comes between that and the rule. -/
def Encloses (p : List Word → Prop) (r : Checkpoint → Rule Unit) (L : Language Kind) : Prop :=
  ∀ o c, (c.Tidy → o.Tidy ∧ Fills o c [] L ∧ p c.rest) →
    Accepts (r o.parts.size) c fun _ d => Fills o d [] ⊤

/-- A node encloses what stood behind its checkpoint and what its body forms, if that is complete. -/
theorem nodeAt_encloses {p : List Word → Prop} {kind : NodeKind} {body : Rule Unit}
    {L M : Language Kind}
    (h : Forms p body fun _ => M) (complete : ∀ ks ∈ L * M, kind.complete ks = true) :
    Encloses p (fun point => nodeAt point kind body) L := by
  intro o c entry
  have body := h (c.openNode kind o.parts.size) fun tidy =>
    (entry ⟨tidy.complaints, tidy.lastPlace, tidy.refused⟩).2.2
  refine Yields.imp (nodeAt_yields body) fun _ d closed tidy => ?_
  obtain ⟨e, node, os, post, opened, rfl⟩ := closed
  obtain ⟨began, fills⟩ := post tidy.ofClose
  have began : c.Tidy := ⟨began.complaints, began.lastPlace, began.refused⟩
  obtain ⟨opened', whole⟩ := (entry began).2.1.close fills complete
  obtain ⟨rfl, rfl⟩ := List.cons.inj (opened.symm.trans opened')
  exact ⟨began, whole.mono le_top⟩

theorem Encloses.ofForms {p : List Word → Prop} {r : Rule Unit} {L M : Language Kind}
    (h : Forms p r fun _ => M) : Encloses p (fun _ => r) L := fun o c entry =>
  (h c fun tidy => (entry tidy).2.2).imp fun _ _ began _ fills => by
    simpa using ((entry began).2.1.trans fills).mono le_top

/-- What comes before is read behind the checkpoint. -/
theorem Encloses.behind {p : List Word → Prop} {t : Rule β} {r : β → Checkpoint → Rule Unit}
    {L : Language Kind} {M N : β → Language Kind} (h : Forms p t M)
    (next : ∀ x, Encloses Anywhere (r x) (N x))
    (le : ∀ x, L * M x ≤ N x) : Encloses p (fun point => t >>= fun x => r x point) L := by
  intro o c entry
  refine (h c fun tidy => (entry tidy).2.2).bind fun x d post => next x o d fun tidy => ?_
  obtain ⟨began, fills⟩ := post tidy
  obtain ⟨start, before, -⟩ := entry began
  exact ⟨start, by simpa using (before.trans fills).mono (le x), trivial⟩

/-- The entry condition may be strengthened. -/
theorem Encloses.given {p q : List Word → Prop} {r : Checkpoint → Rule Unit} {L : Language Kind}
    (h : Encloses p r L) (entry : ∀ ws, q ws → p ws) : Encloses q r L := fun o c at_ =>
  h o c fun tidy => have ⟨began, fills, holds⟩ := at_ tidy; ⟨began, fills, entry _ holds⟩

/-- A branch by a question, from a checkpoint on. -/
theorem Encloses.branch {p : List Word → Prop} {t : Rule Bool} {v : List Word → Option Limit → Bool}
    {r s : Checkpoint → Rule Unit} {L : Language Kind} (h : Answers t v)
    (yes : Encloses (fun ws => p ws ∧ v ws none = true) r L) (no : Encloses p s L) :
    Encloses p (fun point => t >>= fun b => if b = true then r point else s point) L := by
  intro o c entry
  refine .ask h fun d same => ?_
  have entry (tidy : d.Tidy) : o.Tidy ∧ Fills o d [] L ∧ p d.rest := by
    obtain ⟨began, fills, holds⟩ := entry (same.tidy tidy)
    refine ⟨began, by simpa using fills.trans (.same same), ?_⟩
    obtain ⟨_, _, _, rfl⟩ := same
    exact holds
  refine .ite (fun found => yes o d fun tidy => ?_) fun _ => no o d entry
  obtain ⟨began, fills, holds⟩ := entry tidy
  refine ⟨began, fills, holds, ?_⟩
  rw [(same.tidy tidy).refused] at found
  obtain ⟨_, _, _, rfl⟩ := same
  exact found

/-- A rule for what may begin at a checkpoint, that tells whether it did. Nothing is read when
it did not. -/
def Attempts (p : List Word → Prop) (r : Checkpoint → Rule Bool) (L : Language Kind) : Prop :=
  ∀ o c, (c.Tidy → o.Tidy ∧ Fills o c [] L ∧ p c.rest) →
    Accepts (r o.parts.size) c fun b d => if b = true then Fills o d [] ⊤ else Same c d

namespace Attempts

variable {p : List Word → Prop} {L : Language Kind}

theorem given {q : List Word → Prop} {r : Checkpoint → Rule Bool} (h : Attempts p r L)
    (entry : ∀ ws, q ws → p ws) : Attempts q r L := fun o c at_ =>
  h o c fun tidy => have ⟨began, fills, holds⟩ := at_ tidy; ⟨began, fills, entry _ holds⟩

/-- An attempt that declines. -/
theorem declines : Attempts p (fun _ => pure false) L := fun _ c _ => .pure fun _ => .refl c

/-- A rule that encloses is an attempt that succeeds. -/
theorem ofEncloses {r : Checkpoint → Rule Unit} (h : Encloses p r L) :
    Attempts p (fun point => do r point; return true) L := fun o c entry =>
  (h o c entry).bind fun _ _ post => .pure fun tidy => (post tidy).2

/-- An attempt behind a question. -/
theorem ask {t : Rule β} {v : List Word → Option Limit → β} {f : β → Checkpoint → Rule Bool}
    (h : Answers t v)
    (next : ∀ x, Attempts (fun ws => p ws ∧ v ws none = x) (f x) L) :
    Attempts p (fun point => t >>= fun x => f x point) L := by
  intro o c entry
  refine .ask h fun d same => ?_
  refine (next _ o d fun tidy => ?_).imp fun b e _ _ post => ?_
  · have began := same.tidy tidy
    obtain ⟨start, fills, holds⟩ := entry began
    refine ⟨start, by simpa using fills.trans (.same same), ?_⟩
    obtain ⟨_, _, _, rfl⟩ := same
    exact ⟨holds, by rw [began.refused]⟩
  · cases b with
    | true => exact post
    | false => exact same.trans post

theorem branch {t : Rule Bool} {v : List Word → Option Limit → Bool} {r s : Checkpoint → Rule Bool}
    (h : Answers t v) (yes : Attempts (fun ws => p ws ∧ v ws none = true) r L)
    (no : Attempts (fun ws => p ws ∧ v ws none = false) s L) :
    Attempts p (fun point => t >>= fun b => if b = true then r point else s point) L := by
  refine ask h fun b => ?_
  cases b with
  | true => exact yes
  | false => exact no

/-- What is left to do when nothing begins. -/
theorem orElse {r : Checkpoint → Rule Bool} {s : Checkpoint → Rule Unit} (h : Attempts p r L)
    (g : Encloses p s L) :
    Encloses p (fun point => do if ← r point then return else s point) L := by
  intro o c entry
  refine (h o c entry).bind fun b d post => ?_
  cases b with
  | true => exact .pure fun tidy => (post tidy).2
  | false =>
    refine g o d fun tidy => ?_
    obtain ⟨began, same⟩ := post tidy
    obtain ⟨start, fills, holds⟩ := entry began
    refine ⟨start, by simpa using fills.trans (.same same), ?_⟩
    obtain ⟨_, _, _, rfl⟩ := same
    exact holds

end Attempts

/-- A node of which the parts have to be what the kind needs. -/
theorem node_forms {p : List Word → Prop} {kind : NodeKind} {body : Rule Unit} {L : Language Kind}
    (h : Forms p body fun _ => L) (complete : ∀ ks ∈ L, kind.complete ks = true) :
    Forms p (node kind body) fun _ => {[.node kind]} := by
  intro c entry
  have body := h (c.placeGap.openNode kind c.placeGap.parts.size) fun tidy =>
    entry ⟨tidy.complaints, tidy.lastPlace, tidy.refused⟩
  refine Yields.imp (node_yields body) fun _ d closed tidy => ?_
  obtain ⟨e, node, os, post, opened, rfl⟩ := closed
  obtain ⟨began, fills⟩ := post tidy.ofClose
  obtain ⟨opened', whole⟩ := (Fills.refl c.placeGap).close fills (by simpa using complete)
  obtain ⟨rfl, rfl⟩ := List.cons.inj (opened.symm.trans opened')
  refine ⟨⟨began.complaints, began.lastPlace, began.refused⟩, ?_⟩
  simpa using (Fills.placeGap c).trans whole

/-! ### Words -/

/-- A kind that is neither a bracket nor garbage. -/
def Plain (kind : TokenKind) : Prop := nestStep false [] kind = some [] ∧ kind ≠ .garbage

instance (kind : TokenKind) : Decidable (Plain kind) := inferInstanceAs (Decidable (_ ∧ _))

/-- The current word is of the kind. -/
def At (kind : TokenKind) (ws : List Word) : Prop := kindIn ws 0 = some kind

/-- A plain word forms its own kind. -/
theorem bump_forms {kind : TokenKind} (plain : Plain kind) :
    Forms (At kind) bump fun _ => {[.leaf (.token kind)]} := by
  intro c entry
  refine Yields.imp (bump_yields c) fun _ d ⟨w, took⟩ tidy => ?_
  have began := took.tidy tidy
  have is : w.kind = kind := by simpa [At, kindIn, took.rest] using entry began
  refine ⟨began, ?_⟩
  simpa [is] using (Fills.refl c).took took (is ▸ plain.1) (by simpa [is] using plain.2)

theorem nestStep_of_at {w : Word} {ws : List Word} (h : At .ident (w :: ws)) :
    nestStep false [] w.kind = some [] := by
  have ident : w.kind = .ident := by simpa [At, kindIn] using h
  rw [ident]
  rfl

/-- A keyword forms its kind. -/
theorem takeKeyword_forms (k : Keyword) : Forms (At .ident) (takeKeyword k) fun _ =>
    {[.leaf (.keyword k)]} :=
  .word (takeKeyword_yields k) (fun _ _ => nestStep_of_at) nofun

theorem bumpKeyword_forms : Forms (At .ident) bumpKeyword fun _ => ⊤ := by
  intro c entry
  refine Yields.imp (bumpKeyword_yields c) fun _ d ⟨w, took⟩ tidy => ?_
  have began := took.tidy tidy
  have clean : wordLabel w ≠ .token .garbage := by
    unfold wordLabel
    cases Keyword.ofWord? w.text <;> simp
  exact ⟨began,
    ((Fills.refl c).took took (nestStep_of_at (took.rest ▸ entry began)) clean).mono le_top⟩

/-- What a word that may be there adds. -/
def taken (label : LeafKind) (read : Bool) : Language Kind :=
  if read = true then {[.leaf label]} else 1

/-- At most one part of the kind. -/
def atMost (kind : Kind) : Language Kind := 1 + {[kind]}

/-- Whether a word was read or not, it is at most that word. -/
theorem taken_le (label : LeafKind) (read : Bool) : taken label read ≤ atMost (.leaf label) := by
  cases read with
  | false => exact le_self_add
  | true => exact le_add_self

/-- A word that was eaten keeps the brackets as they are. -/
theorem Eaten.accepts {is : Word → Prop} {label : LeafKind} {t : Rule Bool}
    (h : Yields t c (Eaten is label c)) (plain : ∀ w, is w → nestStep false [] w.kind = some [])
    (clean : label ≠ .token .garbage) : Accepts t c fun b d => Fills c d [] (taken label b) := by
  refine Yields.imp h fun b d eaten tidy => ?_
  cases b with
  | false => exact ⟨eaten.1.tidy tidy, .same eaten.1⟩
  | true =>
    obtain ⟨w, found, took⟩ := eaten
    exact ⟨took.tidy tidy, by simpa [taken] using (Fills.refl c).took took (plain w found) clean⟩

/-- A plain word may be eaten. -/
theorem eat_forms {kind : TokenKind} (plain : Plain kind) :
    Forms Anywhere (eat kind) (taken (.token kind)) := fun c _ =>
  Eaten.accepts (eat_yields kind c) (fun _ is => is ▸ plain.1) (by simpa using plain.2)

theorem eatKeyword_forms (k : Keyword) :
    Forms Anywhere (eatKeyword k) (taken (.keyword k)) := fun c _ => by
  refine Eaten.accepts (eatKeyword_yields k c) (fun w is => ?_) nofun
  have ident : w.kind = .ident := by
    simp only [Word.isWord, Bool.and_eq_true, beq_iff_eq] at is
    exact is.1
  rw [ident]
  rfl

/-- A word that may be there, of which it does not matter whether it is. -/
theorem Forms.atMost {p : List Word → Prop} {r : Rule Bool} {label : LeafKind}
    (h : Forms p r (taken label)) : Forms p r fun _ => Grammar.atMost (.leaf label) :=
  h.mono fun b => taken_le label b

/-- A word that has to be there, or else there is a complaint. -/
theorem required_forms {t : Rule Bool} {label : LeafKind} (h : Forms Anywhere t (taken label))
    (kind : DiagnosticKind) (detail : String) :
    Forms Anywhere (do if ← t then return true
                       errorWith kind detail
                       return false) fun b => if b = true then {[.leaf label]} else 0 := by
  refine h.bind (M := fun b c => if b = true ∧ c = true then 1 else 0) (fun b => ?_) fun b c => ?_
  · cases b with
    | true => exact fun c _ => Yields.pure fun tidy => ⟨tidy, .refl c⟩
    | false => exact fun c _ => (errorWith_accepts _ _ fun _ _ => False).bind fun _ _ post =>
        (Keeps.pure false).spoilt fun tidy => (post tidy).2
  · cases b <;> cases c <;> simp [taken]

/-- A word that is asked for forms its kind, or a complaint was made. -/
theorem expect_forms {kind : TokenKind} (plain : Plain kind) (what : String) :
    Forms Anywhere (expect kind what) fun b => if b = true then {[.leaf (.token kind)]} else 0 :=
  required_forms (eat_forms plain) _ _

/-! ### Choices -/

/-- A part behind its test forms the empty word or itself. -/
theorem whenever_forms {p : List Word → Prop} {t : Rule Bool} {v : List Word → Option Limit → Bool}
    {body : Rule Unit} {L : Language Kind} (h : Answers t v)
    (yes : Forms (fun ws => p ws ∧ v ws none = true) body fun _ => L) :
    Forms p (whenever t body) fun _ => 1 + L :=
  .branch h (yes.mono fun _ => le_add_self) ((Forms.pure ()).mono fun _ => le_self_add)

/-- A word that the test finds is read, and the rule is entered behind it or here. -/
theorem wheneverThen_forms {p q : List Word → Prop} {t : Rule Bool}
    {v : List Word → Option Limit → Bool}
    {first : Rule Unit} {r : Rule β} {N : Language Kind} {M : β → Language Kind} (h : Answers t v)
    (one : ∀ c, Yields first c fun _ d => ∃ w label, Took label w c d)
    (reads : Forms (fun ws => p ws ∧ v ws none = true) first fun _ => N) (next : Forms q r M)
    (behind : ∀ ws, p ws → v ws none = true → q ws.tail)
    (here : ∀ ws, p ws → v ws none = false → q ws) :
    Forms p (do whenever t first; r) fun y => (1 + N) * M y := by
  rw [whenever_then]
  refine .branch h ?_ ?_
  · refine (Forms.thenAt one reads next).mono (fun y => mul_le_mul_left le_add_self _) |>.given
      fun ws found => ?_
    exact ⟨found, behind ws found.1 found.2⟩
  · refine (next.given fun ws found => here ws found.1 found.2).mono fun y => ?_
    simpa using mul_le_mul_left (le_self_add : 1 ≤ 1 + N) (M y)

/-- What comes behind something that has to be there. -/
theorem insist_forms {p : List Word → Prop} {t : Rule Bool} {body : Rule Unit} {N L : Language Kind}
    (h : Forms p t fun b => if b = true then N else 0) (next : Forms Anywhere body fun _ => L) :
    Forms p (whenever t body) fun _ => N * L := by
  refine h.bind (M := fun b _ => if b = true then L else 1) (fun b => ?_) fun b _ => ?_
  · cases b with
    | true => exact next
    | false => exact .pure ()
  · cases b <;> simp

/-- An optional part forms the empty word or itself. -/
theorem optional_forms {kind : TokenKind} {body : Rule Unit} {L : Language Kind}
    (h : Forms (At kind) body fun _ => L) : Forms Anywhere (optional kind body) fun _ => 1 + L :=
  whenever_forms (currentIs_answers kind) (h.given fun _ found => eq_of_beq found.2)

/-! ### Loops -/

/-- A loop keeps its invariant as long as no complaint is made. -/
theorem Accepts.loop {σ : Type} {s : σ} {step : σ → Rule (Turn σ)} {I Q : σ → Cursor → Prop}
    (start : c.Tidy → I s c)
    (turn : ∀ s d, (d.Tidy → c.Tidy ∧ I s d) → Accepts (step s) d fun
      | .again s', e => I s' e
      | .done s', e => Q s' e) :
    Accepts (loop s step) c Q := by
  refine loop_yields (I := fun s d => d.Tidy → c.Tidy ∧ I s d)
      (Q := fun s d => d.Tidy → c.Tidy ∧ Q s d)
    (fun tidy => ⟨tidy, start tidy⟩) fun s d inv => Yields.imp (turn s d inv) fun t e post => ?_
  cases t with
  | again s' => exact fun tidy => ⟨(inv (post tidy).1).1, (post tidy).2⟩
  | done s' => exact fun tidy => ⟨(inv (post tidy).1).1, (post tidy).2⟩

/-- Rounds that each add flawless parts add flawless parts. -/
theorem repeatWhile_forms {turn : Rule Bool} (h : Forms Anywhere turn fun _ => ⊤) :
    Forms Anywhere (repeatWhile turn) fun _ => ⊤ := by
  intro c _
  refine Accepts.loop (I := fun _ d => Fills c d [] ⊤) (Q := fun _ d => Fills c d [] ⊤)
    (fun _ => (Fills.refl c).mono le_top) fun _ d inv => ?_
  refine (h d fun _ => trivial).bind fun b e post => ?_
  have more (tidy : e.Tidy) : Fills c e [] ⊤ := by
    obtain ⟨began, fills⟩ := post tidy
    simpa using ((inv began).2.trans fills).mono le_top
  cases b with
  | true => exact .pure more
  | false => exact .pure more

/-! ### Delimiters -/

/-- The closer of the delimiters closes what the opener opens. -/
def Delimiters.Paired (d : Delimiters) : Prop :=
  nest false [] [d.opener, d.closer] = some [] ∧ d.opener ≠ .garbage ∧ d.closer ≠ .garbage

instance (d : Delimiters) : Decidable d.Paired := inferInstanceAs (Decidable (_ ∧ _))

/-- An opener and what comes behind it, with the closer still to come. -/
theorem inside_accepts {kind : TokenKind} {body : Rule Unit} {stack : List TokenKind}
    (entry : c.Tidy → kindIn c.rest 0 = some kind) (opens : nestStep false [] kind = some stack)
    (clean : kind ≠ .garbage) (h : Forms Anywhere body fun _ => ⊤) :
    Accepts (inside kind body) c fun _ d => Fills c d stack ⊤ := by
  refine Yields.bind (pushOpener_yields kind c) fun _ d pushed => ?_
  obtain ⟨gap, looks, depth, openers, rfl⟩ := pushed
  refine Yields.bind (bump_yields _) fun _ d took => ?_
  obtain ⟨w, took⟩ := took
  refine Yields.bind (h d fun _ => trivial) fun _ e post => .modify fun tidy => ?_
  obtain ⟨between, fills⟩ := post ⟨tidy.complaints, tidy.lastPlace, tidy.refused⟩
  have began := took.tidy between
  have began : c.Tidy := ⟨began.complaints, began.lastPlace, began.refused⟩
  refine ⟨began, ?_⟩
  have is : w.kind = kind := by
    have := entry began
    rw [show c.rest = _ from took.rest] at this
    simpa [kindIn] using this
  have start : Fills c d stack ({[]} * {[.leaf (.token kind)]}) := by
    have first : Fills c { c with gap, looks, depth, openers } [] 1 :=
      ⟨rfl, [], [], rfl, by simp, rfl, by simp, rfl⟩
    exact is ▸ first.took took (is ▸ opens) (by simpa [is] using clean)
  have whole := (start.trans fills).mono le_top
  exact ⟨whole.opened, whole.content⟩

/-- Delimiters around rounds that each add flawless parts. -/
theorem delimited_forms {d : Delimiters} {turn : Rule Bool} (paired : d.Paired)
    (h : Forms Anywhere turn fun _ => ⊤) : Forms (At d.opener) (delimited d turn) fun _ => ⊤ := by
  intro c entry
  obtain ⟨nested, clean⟩ := paired
  obtain ⟨stack, opens, closes⟩ := Option.bind_eq_some_iff.1 nested
  replace closes : nestStep false stack d.closer = some [] := by simpa [nest] using closes
  refine Yields.bind (mark_yields c) fun i c' marked => ?_
  obtain ⟨-, gap, looks, depth, rfl⟩ := marked
  have inner := inside_accepts (c := { c with gap, looks, depth })
    (fun tidy => entry ⟨tidy.complaints, tidy.lastPlace, tidy.refused⟩) opens clean.1
    (repeatWhile_forms h)
  refine Yields.bind inner fun _ e body => Yields.bind (eat_yields d.closer e) fun b f eaten => ?_
  refine Yields.bind (isRefused_answers f) fun spent f' asked => ?_
  obtain ⟨rfl, same⟩ := asked
  refine .ite (fun _ => Yields.imp (complain_accepts _ fun _ _ => False) fun _ _ never tidy =>
    (never tidy).2.elim) fun closed => .pure fun tidy => ?_
  have kept := (same.tidy tidy).refused
  obtain rfl : b = true := by simpa [kept] using closed
  obtain ⟨w, is, took⟩ := eaten
  obtain ⟨began, fills⟩ := body (took.tidy (same.tidy tidy))
  refine ⟨⟨began.complaints, began.lastPlace, began.refused⟩, ?_⟩
  have whole := ((fills.took took (is ▸ closes) (by simpa using clean.2)).trans (.same same)).mono
      le_top
  exact ⟨whole.opened, whole.content⟩

theorem bumpAsError_keeps : Keeps bumpAsError := by
  refine .bind (.ofAnswers (peek_answers 0)) fun found => .ite (fun c => ?_) (.pure ())
  refine Yields.imp (node_yields (bump_keeps _)) fun _ d closed tidy => ?_
  obtain ⟨e, node, os, post, -, rfl⟩ := closed
  have began := (post tidy.ofClose).1
  exact ⟨⟨began.complaints, began.lastPlace, began.refused⟩, trivial⟩

/-- A word that is complained of leaves no tidy cursor. -/
theorem errorAndBump_accepts (kind : DiagnosticKind) (detail : String) (c : Cursor)
    (Q : Unit → Cursor → Prop) : Accepts (errorAndBump kind detail) c Q :=
  (errorWith_accepts kind detail fun _ _ => False).bind fun _ _ post =>
    bumpAsError_keeps.spoilt fun tidy => (post tidy).2

/-- Items between delimiters. -/
theorem itemTurn_forms {closer : TokenKind} {starts : Rule Bool}
    {v : List Word → Option Limit → Bool}
    {what : String} {item : Rule Unit} {L : Language Kind} (begins : Answers starts v)
    (h : Forms (fun ws => v ws none = true) item fun _ => L) :
    Forms Anywhere (itemTurn closer starts what item) fun _ => ⊤ := by
  refine .branch (atEnd_answers.or (currentIs_answers closer))
      ((Forms.pure false).mono fun _ => le_top) ?_
  refine .ask begins fun found => ?_
  cases found with
  | false => exact .spoilt (fun c => errorAndBump_accepts _ _ c _) fun _ => .pure true
  | true =>
    exact (h.given fun _ asked => asked.2).bind (fun _ => (eat_forms (by decide)).atMost)
      fun _ _ => le_top

end Grammar

end ImplicitGlobals
