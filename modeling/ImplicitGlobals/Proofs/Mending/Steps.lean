import ImplicitGlobals.Proofs.Mending.Words

/-!
# Two runs up to a missing semicolon

How two runs come out of a rule that they entered as twins: as twins again, or with the question settled
whether a semicolon is missing in front of the word. It is settled when the first run will not say so any
more, when a type has swallowed the semicolon of the second run, or when the semicolon was missing and has
mended that. What else can happen is said of each rule.

The steps of the grammar come out so. A test of the current word is answered differently at
the word only, and there the first run reads what it finds or complains of it.
-/

namespace ImplicitGlobals.Grammar

namespace Mending

variable (m : Mending) {α β σ : Type} {us vs : List Word} {c c' d d' e e' : Cursor} {p q : List Word → Prop}
  {early : Bool}

/-! ### How runs come out -/

/-- The second run has read the semicolon where no statement begins, and has complained of the same before. -/
structure Swallows (d d' : Cursor) : Prop where
  stray : beginsStatement m.ahead = false
  behind : m.place < d'.passed
  onto : ∃ old, (∀ k ∈ old, k.place < m.place) ∧ d.Onto m.place old ∧ d'.Onto m.place old

/-- The semicolon that the second run has read went into a type. -/
def Swallowed (d d' : Cursor) : Prop :=
  m.Swallows d d' ∧ ∃ us, d'.Has .typeExpr us ∧ m.place ∈ Tree.wordsOf us

/-- The first run has said that a semicolon is missing, and the second one has read it and will not say so.
Where a statement begins at the word, that is all in which they differ. -/
def Mended (x y : α) (d d' : Cursor) : Prop :=
  ∃ old enclosing, (∀ k ∈ old, k.place < m.place) ∧
    d.Onto m.place (.noSemicolon m.place enclosing :: old) ∧ d'.Onto (m.place + 1) old ∧ d'.Judged (m.place + 1) ∧
      (beginsStatement m.ahead = true → x = y ∧ d'.Silent (m.place + 1) ∧
        Shifted m.place (.noSemicolon m.place enclosing :: old) old d d')

/-- It is settled whether a semicolon is missing in front of the word. -/
def Settled (x y : α) (d d' : Cursor) : Prop :=
  d.Judged m.place ∨ m.Swallowed d d' ∨ m.Mended x y d d'

/-- The answers and the cursors behind two runs. Of runs that are neither twins nor settled `D` holds. -/
def Outcome (D : α → α → Cursor → Cursor → Prop) (x y : α) (d d' : Cursor) : Prop :=
  (x = y ∧ ∃ us, m.Twin us d d') ∨ m.Settled x y d d' ∨ D x y d d'

/-- From these cursors the two rules come out so. -/
def Goes (D : α → α → Cursor → Cursor → Prop) (r r' : Rule α) (c c' : Cursor) : Prop :=
  Yields r c fun x d => Yields r' c' fun y d' => m.Outcome D x y d d'

/-- Nothing else happens. -/
def never : α → α → Cursor → Cursor → Prop := fun _ _ _ _ => False

/-- The first run is adrift. -/
def adrift (early : Bool) : α → α → Cursor → Cursor → Prop := fun _ _ d _ => m.Adrift early d

/-- The first run has ended early, with the answer. -/
def off (early : Bool) (x : α) : α → α → Cursor → Cursor → Prop := fun y _ d _ => y = x ∧ early = true ∧ m.Off d

/-- How two rules come out that are entered by twins at words of which `p` holds. -/
structure Mends (p : List Word → Prop) (D : α → α → Cursor → Cursor → Prop) (r r' : Rule α) : Prop where
  left : Trails Notes r
  right : Trails Notes r'
  shifts : ∀ i old old', KeepsShift i old old' .same r r'
  goes : ∀ us c c', m.Twin us c c' → p c.rest → m.Goes D r r' c c'

variable {m}

/-! ### What is settled stays so -/

section

variable {r r' : Rule α} {f g : α → Rule β} {x y : α} {D D' : α → α → Cursor → Cursor → Prop}
  {E : β → β → Cursor → Cursor → Prop}

/-- A semicolon that was swallowed stays swallowed, whatever is noted. -/
theorem Swallows.notes (h : m.Swallows c c') (left : Notes c d) (right : Notes c' d') : m.Swallows d d' where
  stray := h.stray
  behind := Nat.lt_of_lt_of_le h.behind right.passed_le
  onto := by
    obtain ⟨old, before, onto, onto'⟩ := h.onto
    exact ⟨old, before, left.onto onto, right.onto onto'⟩

/-- It stays so over looking and building. -/
theorem Swallows.stays (h : m.Swallows c c') (left : Stays c d) (right : Stays c' d') : m.Swallows d d' where
  stray := h.stray
  behind := right.passed ▸ h.behind
  onto := by
    obtain ⟨old, before, onto, onto'⟩ := h.onto
    exact ⟨old, before, left.onto onto, right.onto onto'⟩

/-- What was settled before the next rules is settled behind them. -/
theorem Settled.bind (h : m.Settled x y d d') (left : ∀ x, Trails Notes (f x)) (right : ∀ y, Trails Notes (g y))
    (shifts : ∀ x i old old', KeepsShift i old old' .same (f x) (g x)) :
    Yields (f x) d fun z e => Yields (g y) d' fun w e' => m.Settled z w e e' := by
  intro z e run w e' run'
  have noted := left x d z e run
  have noted' := right y d' w e' run'
  rcases h with judged | ⟨swallows, us, has, inside⟩ | ⟨old, enclosing, before, onto, onto', judged, begins⟩
  · exact .inl (noted.judged judged)
  · exact .inr (.inl ⟨swallows.notes noted noted', us, noted'.nodes _ _ has, inside⟩)
  · refine .inr (.inr ⟨old, enclosing, before, noted.onto onto, noted'.onto onto', noted'.judged judged, fun starts => ?_⟩)
    obtain ⟨rfl, silent, shifted⟩ := begins starts
    obtain ⟨same, shifted⟩ := shifts x _ _ _ d d' shifted z e run w e' run'
    exact ⟨same, noted'.silent silent, shifted⟩

/-- It stays settled over looking and building. -/
theorem Settled.stays (h : m.Settled x y d d') (left : Stays d e) (right : Stays d' e') : m.Settled x y e e' := by
  rcases h with judged | ⟨swallows, us, has, inside⟩ | ⟨old, enclosing, before, onto, onto', judged, begins⟩
  · exact .inl (left.judged judged)
  · exact .inr (.inl ⟨swallows.stays left right, us, right.nodes _ _ has, inside⟩)
  · refine .inr (.inr ⟨old, enclosing, before, left.onto onto, right.onto onto', right.judged judged, fun starts => ?_⟩)
    obtain ⟨rfl, silent, shifted⟩ := begins starts
    exact ⟨rfl, right.silent silent, shifted.stays left right⟩

/-- It stays settled when a delimiter is closed. -/
theorem Settled.pop (h : m.Settled x y d d') : m.Settled x y d.popOpener d'.popOpener := by
  have judged {i : Nat} {d : Cursor} (judged : d.Judged i) : d.popOpener.Judged i := ⟨judged.behind, judged.whole⟩
  have onto {i : Nat} {old : List Complaint} {d : Cursor} (onto : d.Onto i old) : d.popOpener.Onto i old :=
    ⟨onto.behind, onto.added⟩
  rcases h with done | ⟨swallows, us, has, inside⟩ | ⟨old, enclosing, before, said, said', done, begins⟩
  · exact .inl (judged done)
  · obtain ⟨old, before, said, said'⟩ := swallows.onto
    exact .inr (.inl ⟨⟨swallows.stray, swallows.behind, old, before, onto said, onto said'⟩, us, has, inside⟩)
  · refine .inr (.inr ⟨old, enclosing, before, onto said, onto said', judged done, fun starts => ?_⟩)
    obtain ⟨rfl, silent, shifted⟩ := begins starts
    exact ⟨rfl, ⟨silent.behind, silent.silent⟩, shifted.around (by rw [List.map_tail, List.map_tail, shifted.openers])⟩

/-- What is built behind runs does not count, as far as it does not count for what else can happen. -/
theorem Outcome.stays {D : Unit → Unit → Cursor → Cursor → Prop} (h : m.Outcome D () () d d')
    (steady : ∀ d d' e e', D () () d d' → Stays d e → Stays d' e' → D () () e e') (left : Stays d e) (right : Stays d' e') :
    m.Outcome D () () e e' :=
  h.imp (fun both => ⟨rfl, both.2.imp fun _ twin => twin.stays left right⟩)
    (.imp (·.stays left right) (steady _ _ _ _ · left right))

/-- Something else may be said less exactly. -/
theorem Outcome.imp (h : m.Outcome D x y d d') (imp : D x y d d' → D' x y d d') : m.Outcome D' x y d d' :=
  Or.imp id (.imp id imp) h

/-- The same of two rules. -/
theorem Goes.imp (h : m.Goes D r r' c c') (imp : ∀ x y d d', D x y d d' → D' x y d d') : m.Goes D' r r' c c' :=
  Yields.imp h fun x d post => Yields.imp post fun y d' post => post.imp (imp x y d d')

/-- If the first rule settles the question, no more has to be said of the second. -/
theorem Goes.judged (h : Yields r c fun _ d => d.Judged m.place) : m.Goes D r r' c c' :=
  h.imp fun _ _ judged _ _ _ => .inr (.inl (.inl judged))

/-- What is said of the first run alone. -/
theorem Goes.alone {P : α → Cursor → Prop} (h : Yields r c P) (imp : ∀ x y d d', P x d → d.Judged m.place ∨ D x y d d') :
    m.Goes D r r' c c' :=
  h.imp fun x d post y d' _ => .inr ((imp x y d d' post).imp .inl id)

/-- One pair of rules behind the other: twins go on as twins, and the rest by what is said of it. -/
theorem Goes.bind (h : m.Goes D r r' c c') (left : ∀ x, Trails Notes (f x)) (right : ∀ y, Trails Notes (g y))
    (shifts : ∀ x i old old', KeepsShift i old old' .same (f x) (g x))
    (twins : ∀ x us d d', m.Twin us d d' → m.Goes E (f x) (g x) d d')
    (special : ∀ x y d d', D x y d d' → m.Goes E (f x) (g y) d d') : m.Goes E (r >>= f) (r' >>= g) c c' := by
  refine Yields.bindBoth h fun x y d d' post => ?_
  rcases post with ⟨rfl, us, twin⟩ | settled | other
  · exact twins x us d d' twin
  · exact (settled.bind left right shifts).imp fun _ _ post => post.imp fun _ _ settled => .inr (.inl settled)
  · exact special x y d d' other

end

/-! ### Rules behind rules -/

namespace Mends

section

variable {r r' s s' : Rule α} {f g : α → Rule β} {D D' : α → α → Cursor → Cursor → Prop}
  {E : β → β → Cursor → Cursor → Prop} {x : α} {y : β}

/-- The entry condition may be strengthened. -/
theorem given (h : m.Mends p D r r') (entry : ∀ ws, q ws → p ws) : m.Mends q D r r' :=
  { h with goes := fun us c c' twin holds => h.goes us c c' twin (entry _ holds) }

/-- Something else may be said less exactly. -/
theorem imp (h : m.Mends p D r r') (imp : ∀ x y d d', D x y d d' → D' x y d d') : m.Mends p D' r r' :=
  { h with goes := fun us c c' twin holds => (h.goes us c c' twin holds).imp imp }

/-- What is added in the first run, if the rule may be entered anywhere. -/
theorem notes (h : m.Mends Anywhere D r r') : Trails Notes r := h.left

/-- Where nothing else happens, all may be said of it. -/
theorem only (h : m.Mends p never r r') : m.Mends p D r r' := h.imp fun _ _ _ _ none => none.elim

/-- The same answer in both runs. -/
theorem pure (x : α) : m.Mends p D (Pure.pure x) (Pure.pure x) where
  left := noting.pure (p := Anywhere) (V := .same) (y := x) rfl
  right := noting.pure (p := Anywhere) (V := .same) (y := x) rfl
  shifts i old old' := (shifting i old old').pure (p := Anywhere) rfl
  goes us _ _ twin _ := .pure (.pure (.inl ⟨rfl, us, twin⟩))

/-- A breach of the first rule leaves nothing to say. -/
theorem throwLeft (b : Breach) (right : Trails Notes r') : m.Mends p D (throw b) r' where
  left := fun _ => .throw b
  right := right
  shifts _ _ _ _ _ _ := .throw b
  goes _ _ _ _ _ := .throw b

/-- Nor does one of the second. -/
theorem throwRight (b : Breach) (left : Trails Notes r) : m.Mends p D r (throw b) where
  left := left
  right := fun _ => .throw b
  shifts _ _ _ _ _ _ _ _ _ := .throw b
  goes _ _ _ _ _ _ _ _ := .throw b

/-- The general form: what else may happen behind the first rules is said by `special`. -/
theorem bind (h : m.Mends p D r r') (next : ∀ x, m.Mends Anywhere E (f x) (g x))
    (special : ∀ x y d d', D x y d d' → m.Goes E (f x) (g y) d d') : m.Mends p E (r >>= f) (r' >>= g) where
  left := notes_trail.bind h.left fun x => (next x).left
  right := notes_trail.bind h.right fun x => (next x).right
  shifts i old old' := (h.shifts i old old').bind fun x y same => by
    cases same
    exact (next x).shifts i old old'
  goes us c c' twin holds := (h.goes us c c' twin holds).bind (fun x => (next x).left) (fun x => (next x).right)
    (fun x => (next x).shifts) (fun x us d d' twin => (next x).goes us d d' twin trivial) special

/-- Nothing else happens behind the first rules. -/
theorem onward (h : m.Mends p never r r') (next : ∀ x, m.Mends Anywhere E (f x) (g x)) :
    m.Mends p E (r >>= f) (r' >>= g) := h.bind next fun _ _ _ _ none => none.elim

/-- Behind a run that has ended early the rules find nothing. -/
theorem idle (h : m.Mends p (m.off early x) r r') (next : ∀ x, m.Mends Anywhere (m.off early y) (f x) (g x))
    (idles : m.Idles (f x) y) : m.Mends p (m.off early y) (r >>= f) (r' >>= g) := by
  refine h.bind next fun x' _ d d' ended => ?_
  obtain ⟨rfl, is, off⟩ := ended
  exact .alone (idles d off) fun z _ e _ post => .inr ⟨post.1, is, post.2⟩

/-- A choice by the same condition. -/
theorem ite {b : Prop} [Decidable b] (yes : b → m.Mends p D r r') (no : ¬b → m.Mends p D s s') :
    m.Mends p D (if b then r else s) (if b then r' else s') := by
  split
  · exact yes ‹_›
  · exact no ‹_›

/-- A choice by related tests. -/
theorem choose {t t' : Rule Bool} (h : m.Mends p never t t') (yes : m.Mends Anywhere D r r')
    (no : m.Mends Anywhere D s s') :
    m.Mends p D (t >>= fun b => if b = true then r else s) (t' >>= fun b => if b = true then r' else s') :=
  h.onward fun _ => .ite (fun _ => yes) fun _ => no

/-- The bounds on recursion need not be the same. -/
theorem bounded {f g : Nat → Rule α} (h : ∀ k n, m.Mends p D (f k) (g n)) :
    m.Mends p D (do f (← get).total) (do g (← get).total) where
  left := fun c => .get ((h c.total c.total).left c)
  right := fun c => .get ((h c.total c.total).right c)
  shifts i old old' c c' rel := .get (Yields.imp ((h c.total c'.total).shifts i old old' c c' rel) fun _ _ post => .get post)
  goes us c c' twin holds := .get (Yields.imp ((h c.total c'.total).goes us c c' twin holds) fun _ _ post => .get post)

end

/-! ### Rules behind tests -/

section

variable {f g : α → Rule β} {E : β → β → Cursor → Cursor → Prop}

/-- Behind a test that both runs answer alike they go on alike. Where they do not, `split` says how they go on. -/
theorem ask {t : Rule α} {v : List Word → Option Limit → α} (answers : Answers t v)
    (next : ∀ x, m.Mends (fun ws => p ws ∧ v ws none = x) E (f x) (g x))
    (split : ∀ us c c', m.Twin us c c' → p c.rest → v (us ++ m.ahead) none ≠ v (us ++ m.ahead') none →
      m.Goes E (f (v (us ++ m.ahead) none)) (g (v (us ++ m.ahead') none)) c c') : m.Mends p E (t >>= f) (t >>= g) where
  left := notes_trail.bind (notes_trail.answers answers) fun x => (next x).left
  right := notes_trail.bind (notes_trail.answers answers) fun x => (next x).right
  shifts i old old' := (KeepsShift.answers answers).bind fun x y same => by
    cases same
    exact (next x).shifts i old old'
  goes us c c' twin holds := by
    refine ((answers c).both (answers c')).bindBoth fun x y d d' posts => ?_
    obtain ⟨⟨rfl, same⟩, rfl, same'⟩ := posts
    have after := twin.same same same'
    have rest : d.rest = c.rest := after.rest.trans twin.rest.symm
    rw [twin.rest, twin.refused, twin.rest', twin.refused']
    by_cases alike : v (us ++ m.ahead) none = v (us ++ m.ahead') none
    · rw [← alike]
      exact (next _).goes us d d' after ⟨rest ▸ holds, by rw [after.rest]⟩
    · exact split us d d' after (rest ▸ holds) alike

end

end Mends

/-! ### Tests -/

/-- The answer is read off the first `n + 1` words. -/
def Near (n : Nat) (v : List Word → α) : Prop := ∀ us xs ys, n < us.length → v (us ++ xs) = v (us ++ ys)

/-- A word ahead. -/
theorem near_getElem? (n : Nat) : Near n fun ws : List Word => ws[n]? := fun _ _ _ far =>
  (List.getElem?_append_left far).trans (List.getElem?_append_left far).symm

/-- Its kind. -/
theorem near_kindIn (n : Nat) : Near n fun ws => kindIn ws n := fun us xs ys far =>
  congrArg (Option.map Word.kind) (near_getElem? n us xs ys far)

/-- Its spelling. -/
theorem near_spells (n : Nat) (text : String) : Near n fun ws => spells ws n text := fun us xs ys far =>
  congrArg (Option.any fun w : Word => w.isWord text) (near_getElem? n us xs ys far)

namespace Near

variable {n k : Nat} {v : List Word → α}

/-- The answer, put through a function. -/
theorem map (f : α → β) (h : Near n v) : Near n fun ws => f (v ws) := fun us xs ys far =>
  congrArg f (h us xs ys far)

/-- Fewer words are needed than more. -/
theorem mono (h : Near n v) (le : n ≤ k) : Near k v := fun us xs ys far => h us xs ys (Nat.lt_of_le_of_lt le far)

/-- The conjunction of two answers. -/
theorem and {v w : List Word → Bool} (h : Near n v) (g : Near n w) : Near n fun ws => v ws && w ws :=
  fun us xs ys far => congrArg₂ (· && ·) (h us xs ys far) (g us xs ys far)

/-- The disjunction of two answers. -/
theorem or {v w : List Word → Bool} (h : Near n v) (g : Near n w) : Near n fun ws => v ws || w ws :=
  fun us xs ys far => congrArg₂ (· || ·) (h us xs ys far) (g us xs ys far)

/-- Where such a test is answered differently, no more words stand in between. -/
theorem length_le (h : Near n v) {us xs ys : List Word} (differs : v (us ++ xs) ≠ v (us ++ ys)) : us.length ≤ n := by
  by_contra far
  exact differs (h us xs ys (by omega))

/-- Where an answer about the current word differs, the runs stand at the word in question. -/
theorem eq_nil {v : List Word → α} (h : Near 0 v) {us xs ys : List Word} (differs : v (us ++ xs) ≠ v (us ++ ys)) :
    us = [] := List.length_eq_zero_iff.1 (Nat.le_zero.1 (h.length_le differs))

end Near

namespace Mends

variable {r r' : Rule α} {f g : α → Rule β} {D : α → α → Cursor → Cursor → Prop}
  {E : β → β → Cursor → Cursor → Prop} {t : Rule α} {v : List Word → Option Limit → α}

/-- A test of the current word settles the question where it is answered differently. -/
theorem askHere (answers : Answers t v) (near : Near 0 (v · none))
    (next : ∀ x, m.Mends (fun ws => p ws ∧ v ws none = x) E (f x) (g x))
    (judges : v m.ahead none ≠ v m.ahead' none → m.Judges (f (v m.ahead none))) : m.Mends p E (t >>= f) (t >>= g) :=
  ask answers next fun us c c' twin _ differs => by
    obtain rfl := near.eq_nil differs
    exact .judged (judges differs c twin.toBefore)

/-- The two ways to go on from a test of the current word that finds nothing at a semicolon. -/
theorem branch {t : Rule Bool} {v : List Word → Option Limit → Bool} {r r' s s' : Rule β} (answers : Answers t v)
    (near : Near 0 (v · none)) (plain : v m.ahead' none = false)
    (yes : m.Mends (fun ws => p ws ∧ v ws none = true) E r r') (no : m.Mends (fun ws => p ws ∧ v ws none = false) E s s')
    (judges : m.Judges r) :
    m.Mends p E (t >>= fun b => if b = true then r else s) (t >>= fun b => if b = true then r' else s') :=
  askHere answers near (fun b => by
    cases b with
    | true => exact yes
    | false => exact no) fun differs => by
    rw [plain] at differs
    simpa only [Bool.not_eq_false] using (if_pos (Bool.eq_true_of_not_eq_false differs)).symm ▸ judges

/-- A rule that settles the question at the word. -/
theorem judging (judges : m.Judges r) (left : Trails Notes r) (right : Trails Notes r')
    (shifts : ∀ i old old', KeepsShift i old old' .same r r')
    (goes : ∀ u us c c', m.Twin (u :: us) c c' → p c.rest → m.Goes D r r' c c') : m.Mends p D r r' where
  left := left
  right := right
  shifts := shifts
  goes us c c' twin holds := by
    cases us with
    | nil => exact .judged (judges c twin.toBefore)
    | cons u us => exact goes u us c c' twin holds

/-! ### Looking and reading -/

/-- A word is read alike, or the question is settled. -/
theorem takeAs (label label' : LeafKind) : m.Mends p never (takeAs label) (takeAs label') := by
  have trail (label : LeafKind) : Trails Notes (Grammar.takeAs label) := (Rests.takeAs (m := m) label).left
  refine judging (.takeAs label) (trail label) (trail label') (fun _ _ _ => .takeAs label label') ?_
  intro _ us _ _ twin _
  refine (takeAs_yields label _).imp fun _ _ took => ?_
  refine (takeAs_yields label' _).imp fun _ _ took' => ?_
  exact .inl ⟨rfl, us, twin.took took.choose_spec took'.choose_spec⟩

theorem bump : m.Mends p never bump bump :=
  askHere current_answers (near_kindIn 0) (fun _ => takeAs _ _) fun _ => .takeAs _

theorem takeKeyword (k : Keyword) : m.Mends p never (takeKeyword k) (takeKeyword k) := takeAs _ _

theorem bumpKeyword : m.Mends p never bumpKeyword bumpKeyword :=
  askHere currentText_answers ((near_getElem? 0).map fun w : Option Word => (w.map (·.text)).getD "")
    (fun _ => takeAs _ _) fun _ => .takeAs _

/-- Where the runs look only, they still stand side by side. -/
theorem quiet {r r' : Rule Unit} {D : Unit → Unit → Cursor → Cursor → Prop} (left : ∀ c, Yields r c fun _ d => Same c d)
    (right : ∀ c, Yields r' c fun _ d => Same c d) : m.Mends p D r r' where
  left := notes_trail.look left
  right := notes_trail.look right
  shifts _ _ _ := .quiet left right fun _ _ => rfl
  goes us c c' twin _ := (left c).imp fun _ _ same => (right c').imp fun _ _ same' =>
    .inl ⟨rfl, us, twin.same same same'⟩

/-- A complaint other than the one in question is made alike. -/
theorem complain {k : Nat → Option Nat → Complaint} (makes : ∀ c : Cursor, c.Makes (k c.passed c.innermost))
    (other : ∀ i o o', k i o ≠ .noSemicolon m.place o') (place : ∀ i o, (k i o).place = i) :
    m.Mends p never (complain k) (complain k) := by
  have trail := notes_trail.complain k makes
  refine judging (.complain other) trail trail (fun _ _ _ _ _ rel => ?_) fun u us _ _ twin _ => ?_
  · exact (rel.complain place).imp fun _ _ post => post.imp fun _ _ rel => ⟨rfl, rel⟩
  refine (twin.complain (List.cons_ne_nil u us) place).imp fun _ _ post => ?_
  refine post.imp fun _ _ twin => ?_
  exact .inl ⟨rfl, _, twin⟩

theorem error {kind : DiagnosticKind} (closed : kind.isUnclosed = false) :
    m.Mends p never (error kind) (error kind) := complain (fun _ => ⟨rfl, fun _ => rfl, closed⟩) nofun fun _ _ => rfl

theorem errorWith {kind : DiagnosticKind} (closed : kind.isUnclosed = false) (detail : String) :
    m.Mends p never (errorWith kind detail) (errorWith kind detail) :=
  complain (fun _ => ⟨rfl, fun _ => rfl, closed⟩) nofun fun _ _ => rfl

theorem errorUnclosed {kind : DiagnosticKind} (unclosed : kind.isUnclosed = true) (note : String) (opener : Nat) :
    m.Mends p never (errorUnclosed kind note opener) (errorUnclosed kind note opener) :=
  complain (Cursor.makes_unclosed unclosed note opener) (fun _ _ _ => Complaint.noConfusion) fun _ _ => rfl

end Mends

/-! ### Building -/

/-- It does not count what is built. -/
def Steady (D : Unit → Unit → Cursor → Cursor → Prop) : Prop :=
  ∀ d d' e e', D () () d d' → Stays d e → Stays d' e' → D () () e e'

/-- Nothing else does not count what is built. -/
theorem steady_never : Steady never := fun _ _ _ _ none => none.elim

/-- Being adrift does not. -/
theorem steady_adrift : Steady (m.adrift early) := fun _ _ _ _ adrift left _ => Adrift.stays adrift left

/-- Having ended early does not. -/
theorem steady_off : Steady (m.off early ()) := fun _ _ _ _ off left _ => ⟨rfl, off.2.1, off.2.2.stays left⟩

namespace Mends

section

variable {body body' : Rule Unit} {D : Unit → Unit → Cursor → Cursor → Prop} {kind : NodeKind}

/-- A node comes out as its body does. -/
theorem node (h : m.Mends p D body body') (steady : Steady D) : m.Mends p D (node kind body) (node kind body') where
  left := notes_trail.node trivial h.left
  right := notes_trail.node trivial h.right
  shifts i old old' := (h.shifts i old old').node
  goes us _ _ twin holds := nodes_build fun d d' left right =>
    Yields.imp (h.goes us d d' (twin.stays left right) (left.rest ▸ holds)) fun _ _ post =>
      post.imp fun _ _ post _ _ left right => post.stays steady left right

/-- So does a node that begins earlier. -/
theorem nodeAt (h : m.Mends p D body body') (steady : Steady D) (point point' : Checkpoint) :
    m.Mends p D (nodeAt point kind body) (nodeAt point' kind body') where
  left := notes_trail.nodeAt trivial point h.left
  right := notes_trail.nodeAt trivial point' h.right
  shifts i old old' := (h.shifts i old old').nodeAt point point'
  goes us _ _ twin holds := nodesAt_build fun d d' left right =>
    Yields.imp (h.goes us d d' (twin.stays left right) (left.rest ▸ holds)) fun _ _ post =>
      post.imp fun _ _ post _ _ left right => post.stays steady left right

/-- Between delimiters the first run may be adrift. -/
theorem inside (kind : TokenKind) (h : m.Mends Anywhere (m.adrift early) body body') :
    m.Mends p (m.adrift early) (inside kind body) (inside kind body') where
  left := notes_trail.inside kind h.left
  right := notes_trail.inside kind h.right
  shifts i old old' := (shifting i old old').inside (p := Anywhere) kind (h.shifts i old old')
  goes us c c' twin _ := by
    cases us with
    | nil => exact .judged (Judges.inside kind h.left c twin.toBefore)
    | cons u us =>
      refine inside_yields
        (Q := fun f => Yields (Grammar.inside kind body') c' fun _ f' => m.Outcome (m.adrift early) () () f f')
        fun {d e _ _} same took => fun x f run => inside_yields fun {d' e' _ _} same' took' => fun y f' run' => ?_
      have opened : m.Twin (u :: us) (d.pushOpener kind) (d'.pushOpener kind) :=
        have both := twin.same same same'
        { both with openers := by simp only [Cursor.pushOpener, both.openers, both.passed] }
      rcases h.goes us e e' (opened.took took took') trivial x f run y f' run' with ⟨-, us, twin⟩ | settled | adrift
      · exact .inl ⟨rfl, us, { twin with openers := congrArg List.tail twin.openers }⟩
      · exact .inr (.inl settled.pop)
      · refine .inr (.inr (adrift.imp (fun before => { before with }) (.imp id fun off => ?_)))
        obtain ⟨u, before, begins⟩ := off
        exact ⟨u, { before with }, begins⟩

end

/-! ### Loops -/

section

variable {step step' : σ → Rule (Turn σ)} {D : Turn σ → Turn σ → Cursor → Cursor → Prop}
  {E : σ → σ → Cursor → Cursor → Prop}

/-- What a loop does behind a round, with so many rounds left. -/
def goOn (step : σ → Rule (Turn σ)) (n : Nat) : Turn σ → Rule σ
  | .again s => Grammar.rounds step n s
  | .done s => Pure.pure s

/-- Rounds, by induction on those left; where they part `special` takes over. -/
theorem rounds (turn : ∀ s, m.Mends Anywhere D (step s) (step' s))
    (special : ∀ t t' d d', D t t' d d' → ∀ n n', m.Goes E (goOn step n t) (goOn step' n' t') d d') (n n' : Nat) (s : σ) :
    m.Mends Anywhere E (Grammar.rounds step n s) (Grammar.rounds step' n' s) := by
  have left : ∀ n s, Trails Notes (Grammar.rounds step n s) := notes_rounds fun s => (turn s).left
  have right : ∀ n s, Trails Notes (Grammar.rounds step' n s) := notes_rounds fun s => (turn s).right
  induction n generalizing n' s with
  | zero => exact throwLeft _ (right n' s)
  | succ n ih =>
    cases n' with
    | zero => exact throwRight _ (left _ s)
    | succ n' =>
      refine bind (f := goOn step n) (g := goOn step' n') (turn s) (fun t => ?_)
        fun t t' d d' other => special t t' d d' other n n'
      cases t with
      | again s => exact ih n' s
      | done s => exact pure s

/-- The same of a loop. -/
theorem loop (turn : ∀ s, m.Mends Anywhere D (step s) (step' s))
    (special : ∀ t t' d d', D t t' d d' → ∀ n n', m.Goes E (goOn step n t) (goOn step' n' t') d d') (s : σ) :
    m.Mends p E (loop s step) (loop s step') :=
  given (bounded (f := fun n => Grammar.rounds step (n + 1) s) (g := fun n => Grammar.rounds step' (n + 1) s)
    fun _ _ => rounds turn special _ _ s) fun _ _ => trivial

end

end Mends

end Mending

end ImplicitGlobals.Grammar
