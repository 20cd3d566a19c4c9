import ImplicitGlobals.Proofs.Setting.Basic

/-!
# Rules in a setting

A rule follows another one in a setting when it does at every twin what the other does at the
cursor. Where words follow that the other rule does not have, this goes as far as the other
rule ends without complaint: there it sees the last semicolon before it could take the end for
something else. `Ending` says how much is known behind the rule. Most rules end within their
statement; a rule that ends a statement may have read the last word; and what stands between
delimiters may have run to the end, where the closer will be missed.
-/

namespace ImplicitGlobals.Grammar

variable {α β γ δ : Type} {c c' d d' : Cursor}

/-! ### What a rule does by itself -/

/-- What every rule leaves as it was: it goes on in the words, takes no complaint back, and
closes what it opens. -/
structure Onward (c d : Cursor) : Prop where
  opened : d.opened = c.opened
  openers : d.openers = c.openers
  rest : c.rest = [] → d.rest = []
  passed : c.passed ≤ d.passed
  tidy : d.Tidy → c.Tidy
  unbounded : c.budget = {} → d.budget = {}

namespace Onward

variable {e : Cursor}

theorem refl (c : Cursor) : Onward c c := ⟨rfl, rfl, id, Nat.le_refl _, id, id⟩

/-- What is left as it was by two rules is left by both. -/
theorem trans (h : Onward c d) (g : Onward d e) : Onward c e where
  opened := g.opened.trans h.opened
  openers := g.openers.trans h.openers
  rest := fun none => g.rest (h.rest none)
  passed := Nat.le_trans h.passed g.passed
  tidy := fun tidy => h.tidy (g.tidy tidy)
  unbounded := fun free => g.unbounded (h.unbounded free)

theorem ofSame (h : Same c d) : Onward c d := by
  have tidy := h.tidy
  obtain ⟨_, _, _, rfl⟩ := h
  exact ⟨rfl, rfl, id, Nat.le_refl _, tidy, id⟩

/-- Reading a word goes on in the words. -/
theorem ofTook {label : LeafKind} {w : Word} (h : Took label w c d) : Onward c d where
  opened := h.opened
  openers := h.openers
  rest := by simp [h.rest]
  passed := by rw [h.passed]; exact Nat.le_succ _
  tidy := h.tidy
  unbounded := fun free => (h.unbounded free).1

theorem placeGap (c : Cursor) : Onward c c.placeGap :=
  ⟨rfl, rfl, id, Nat.le_refl _, fun tidy => ⟨tidy.complaints, tidy.lastPlace, tidy.refused⟩, id⟩

/-- What was opened is closed again. -/
theorem closeNode {kind : NodeKind} {first : Nat} {o : Opened}
    (h : Onward (c.openNode kind first) d) :
    Onward c (d.closeNode o.kind o.first) where
  opened := by simp [Cursor.closeNode, h.opened, Cursor.openNode]
  openers := h.openers
  rest := h.rest
  passed := h.passed
  tidy := fun tidy =>
    have began := h.tidy ⟨tidy.complaints, tidy.lastPlace, tidy.refused⟩
    ⟨began.complaints, began.lastPlace, began.refused⟩
  unbounded := h.unbounded

/-- Rules that go on, one behind the other. -/
theorem bind {r : Rule α} {f : α → Rule β} (h : ∀ c, Yields r c fun _ d => Onward c d)
    (next : ∀ x c, Yields (f x) c fun _ d => Onward c d) (c : Cursor) :
    Yields (r >>= f) c fun _ d => Onward c d :=
  (h c).bind fun x d first => (next x d).imp fun _ _ more => first.trans more

end Onward

/-! ### Following a rule -/

/-- Where a rule may end. -/
inductive Ending where
  /-- Within a statement. -/
  | firm
  /-- Within a statement, or just behind the last word. -/
  | final
  /-- Within a statement, or at the end of the words, where something is missing. -/
  | loose
deriving DecidableEq

/-- What has to hold where a rule is entered: of the words ahead and of the number of those
that were read. -/
abbrev Entry := List Word → Nat → Prop

namespace Entry

/-- No condition at all. -/
def any : Entry := fun _ _ => True

/-- Something was read. -/
def begun : Entry := fun _ n => 0 < n

/-- The current word is no semicolon. -/
def goesOn : Entry := fun ws _ => Clear 1 ws

/-- The current word is of the kind. -/
def current (kind : TokenKind) : Entry := fun ws _ => kindIn ws 0 = some kind

/-- A current word of another kind is no semicolon. -/
theorem goesOn_of_current {kind : TokenKind} (other : kind ≠ .semicolon) {ws : List Word} {n : Nat}
    (h : Entry.current kind ws n) : goesOn ws n :=
  (clear_zero ws).succ (by rw [h]; simpa using other)

end Entry

/-- A test leaves the cursor where it was. -/
theorem Answers.keeps {t : Rule α} {v : List Word → Option Limit → α} (h : Answers t v) (p : Entry)
    (c : Cursor) (entry : p c.rest c.passed) : Yields t c fun _ d => p d.rest d.passed :=
  (h c).imp fun _ _ ⟨_, _, _, _, eq⟩ => eq ▸ entry

namespace Setting

variable {S : Setting} {s : Ending} {p q : Entry} {φ : α → β} {ψ : γ → δ} {r : Rule α} {r' : Rule β}

/-- Where the runs are compared: where no words follow, or where the first one is without
complaint. -/
def Settled (S : Setting) (d : Cursor) : Prop := S.behind = [] ∨ d.Tidy

/-- How two runs end, and whether with the same value. -/
def Ends (S : Setting) (s : Ending) (d d' : Cursor) (same : Prop) : Prop :=
  match s with
  | .firm => S.Twin d d' ∧ S.Live d.rest ∧ same
  | .final => S.Twin d d' ∧ (S.Live d.rest ∨ d.rest = [] ∧ d.gap = .ahead) ∧ same
  | .loose => S.Twin d d' ∧ S.Live d.rest ∧ same ∨ S.behind ≠ [] ∧ d.rest = []

/-- The rule `r'` does at every twin what `r` does at the cursor, from cursors of which `p`
holds. -/
structure Follows (S : Setting) (s : Ending) (p : Entry) (φ : α → β) (r : Rule α) (r' : Rule β) :
    Prop where
  onward : ∀ c, Yields r c fun _ d => Onward c d
  twin : ∀ c c', S.Twin c c' → S.Live c.rest → p c.rest c.passed → Yields r c fun x d =>
    Yields r' c' fun y d' => S.Settled d → S.Ends s d d' (y = φ x)

/-- A firm end is as good as any. -/
theorem Ends.ofFirm {same : Prop} (h : S.Ends .firm d d' same) : S.Ends s d d' same := by
  obtain ⟨twin, live, same⟩ := h
  cases s with
  | firm => exact ⟨twin, live, same⟩
  | final => exact ⟨twin, .inl live, same⟩
  | loose => exact .inl ⟨twin, live, same⟩

/-- A final end is as good as a loose one. -/
theorem Ends.loosen {same : Prop} (h : S.Ends .final d d' same) : S.Ends .loose d d' same := by
  obtain ⟨twin, live | ⟨none, -⟩, same⟩ := h
  · exact .inl ⟨twin, live, same⟩
  · by_cases behind : S.behind = []
    · exact .inl ⟨twin, .inl behind, same⟩
    · exact .inr ⟨behind, none⟩

/-- Where no words follow, nothing is missed. -/
theorem Ends.whole {same : Prop} (h : S.Ends .loose d d' same) (none : S.behind = []) :
    S.Ends s d d' same := by
  rcases h with ⟨twin, live, same⟩ | ⟨some, -⟩
  · exact Ends.ofFirm ⟨twin, live, same⟩
  · exact absurd none some

theorem Ends.imp {same same' : Prop} (h : S.Ends s d d' same) (imp : same → same') :
    S.Ends s d d' same' := by
  cases s with
  | firm => exact ⟨h.1, h.2.1, imp h.2.2⟩
  | final => exact ⟨h.1, h.2.1, imp h.2.2⟩
  | loose => exact h.imp (fun h => ⟨h.1, h.2.1, imp h.2.2⟩) id

/-- What is settled behind a rule was settled in front of it. -/
theorem Settled.before (h : S.Settled d) (onward : Onward c d) : S.Settled c := h.imp id onward.tidy

namespace Follows

/-- A firm rule is as good as any. -/
theorem weaken (h : S.Follows .firm p φ r r') : S.Follows s p φ r r' where
  onward := h.onward
  twin := fun c c' twin live entry => (h.twin c c' twin live entry).imp fun _ _ next =>
    next.imp fun _ _ ends settled => (ends settled).ofFirm

theorem loosen (h : S.Follows .final p φ r r') : S.Follows .loose p φ r r' where
  onward := h.onward
  twin := fun c c' twin live entry => (h.twin c c' twin live entry).imp fun _ _ next =>
    next.imp fun _ _ ends settled => (ends settled).loosen

/-- The entry condition may be strengthened. -/
theorem given (h : S.Follows s p φ r r') (entry : ∀ ws n, q ws n → p ws n) :
    S.Follows s q φ r r' where
  onward := h.onward
  twin := fun c c' twin live here => h.twin c c' twin live (entry _ _ here)

theorem anywhere (h : S.Follows s .any φ r r') : S.Follows s p φ r r' :=
  h.given fun _ _ _ => trivial

/-- A rule that never ends without complaint. -/
theorem spoilt (h : S.Follows .loose p φ r r') (spoils : ∀ c, Yields r c fun _ d => ¬d.Tidy) :
    S.Follows s p φ r r' where
  onward := h.onward
  twin := fun c c' twin live entry x d run y d' run' settled =>
    (h.twin c c' twin live entry x d run y d' run' settled).whole
      (settled.resolve_right (spoils c x d run))

/-- Corresponding values. -/
theorem pure {x : α} {y : β} (same : y = φ x) : S.Follows s p φ (Pure.pure x) (Pure.pure y) where
  onward := fun c => .pure (.refl c)
  twin := fun _ _ twin live _ => .pure (.pure fun _ => Ends.ofFirm ⟨twin, live, same⟩)

theorem throw (b : Breach) : S.Follows s p φ (throw b) r' where
  onward := fun _ => .throw b
  twin := fun _ _ _ _ _ => .throw b

/-- One rule behind another one, begun where that one ends. -/
theorem bindEnds {t : Ending} {f : α → Rule γ} {f' : β → Rule δ} (h : S.Follows t p φ r r')
    (onward : ∀ x c, Yields (f x) c fun _ d => Onward c d)
    (next : ∀ b, p b.rest b.passed → Yields r b fun x c => ∀ y c', S.Ends t c c' (y = φ x) →
      Yields (f x) c fun z d => Yields (f' y) c' fun z' d' =>
        S.Settled d → S.Ends s d d' (z' = ψ z)) :
    S.Follows s p ψ (r >>= f) (r' >>= f') where
  onward := Onward.bind h.onward onward
  twin := by
    intro b b' twin live entry z d run z' d' run' settled
    obtain ⟨x, c, first, rest⟩ := run_bind_eq_ok run
    obtain ⟨y, c', first', rest'⟩ := run_bind_eq_ok run'
    -- a complaint is never taken back, so none was made in between
    have between := settled.before (onward x c z d rest)
    have ends := h.twin b b' twin live entry x c first y c' first' between
    exact next b entry x c first y c' ends z d rest z' d' rest' settled

/-- One rule behind another one that ends within a statement, entered as that one ends. -/
theorem bindAs {q : α → Entry} {f : α → Rule γ} {f' : β → Rule δ} (h : S.Follows .firm p φ r r')
    (keeps : ∀ c, p c.rest c.passed → Yields r c fun x d => q x d.rest d.passed)
    (next : ∀ x, S.Follows s (q x) ψ (f x) (f' (φ x))) :
    S.Follows s p ψ (r >>= f) (r' >>= f') := by
  refine h.bindEnds (fun x => (next x).onward) fun b entry x c first y c' ends => ?_
  obtain ⟨twin, live, rfl⟩ := ends
  exact (next x).twin c c' twin live (keeps b entry x c first)

/-- Rules one behind the other, with what the first one says of the words. -/
theorem bindTo {f : α → Rule γ} {f' : β → Rule δ} (h : S.Follows .firm p φ r r')
    (keeps : ∀ c, p c.rest c.passed → Yields r c fun _ d => q d.rest d.passed)
    (next : ∀ x, S.Follows s q ψ (f x) (f' (φ x))) : S.Follows s p ψ (r >>= f) (r' >>= f') :=
  h.bindAs keeps next

/-- The same where nothing is said. -/
theorem bind {f : α → Rule γ} {f' : β → Rule δ} (h : S.Follows .firm p φ r r')
    (next : ∀ x, S.Follows s .any ψ (f x) (f' (φ x))) : S.Follows s p ψ (r >>= f) (r' >>= f') :=
  h.bindTo (fun _ _ _ _ _ => trivial) next

/-- What was read before a rule was read before the next one. -/
theorem bindOn {f : α → Rule γ} {f' : β → Rule δ} (h : S.Follows .firm .any φ r r')
    (next : ∀ x, S.Follows s .begun ψ (f x) (f' (φ x))) :
    S.Follows s .begun ψ (r >>= f) (r' >>= f') :=
  h.anywhere.bindTo
    (fun c begun => (h.onward c).imp fun _ _ onward => Nat.lt_of_lt_of_le begun onward.passed) next

/-- Behind a rule that may have run to the end, one that complains there. -/
theorem bindStrict {f : α → Rule γ} {f' : β → Rule δ} (h : S.Follows .loose p φ r r')
    (next : ∀ x, S.Follows s .any ψ (f x) (f' (φ x)))
    (strict : ∀ x c, c.rest = [] → Yields (f x) c fun _ d => ¬d.Tidy) :
    S.Follows s p ψ (r >>= f) (r' >>= f') := by
  refine h.bindEnds (fun x => (next x).onward) fun _ _ x c _ y c' ends => ?_
  rcases ends with ⟨twin, live, rfl⟩ | ⟨behind, none⟩
  · exact (next x).twin c c' twin live trivial
  · exact fun z d rest _ _ _ settled =>
      absurd (settled.resolve_left behind) (strict x c none z d rest)

/-- Behind a rule that may have run to the end, one that may have done so too. -/
theorem bindLoose {f : α → Rule γ} {f' : β → Rule δ} (h : S.Follows .loose p φ r r')
    (next : ∀ x, S.Follows .loose .any ψ (f x) (f' (φ x))) :
    S.Follows .loose p ψ (r >>= f) (r' >>= f') := by
  refine h.bindEnds (fun x => (next x).onward) fun _ _ x c _ y c' ends => ?_
  rcases ends with ⟨twin, live, rfl⟩ | ⟨behind, none⟩
  · exact (next x).twin c c' twin live trivial
  · exact fun z d rest _ _ _ _ => .inr ⟨behind, ((next x).onward c z d rest).rest none⟩

/-- A rule that goes on as a part of it ends. -/
theorem bindSame {f : α → Rule γ} {f' : β → Rule δ} (inner : s ≠ .final) (h : S.Follows s p φ r r')
    (next : ∀ x, S.Follows s .any ψ (f x) (f' (φ x))) : S.Follows s p ψ (r >>= f) (r' >>= f') := by
  cases s with
  | firm => exact h.bind next
  | final => exact absurd rfl inner
  | loose => exact h.bindLoose next

/-- Corresponding answers, put through functions. -/
theorem map {f : α → γ} {f' : β → δ} (h : S.Follows s p φ r r') (same : ∀ x, f' (φ x) = ψ (f x)) :
    S.Follows s p ψ (f <$> r) (f' <$> r') where
  onward := fun c => .map (h.onward c)
  twin := fun c c' twin live entry => .map <| (h.twin c c' twin live entry).imp fun x _ next =>
    .map <| next.imp fun _ _ ends settled => (ends settled).imp fun eq => eq ▸ same x

/-- What is made of a value that is the same in the setting. -/
theorem mapId {t t' : Rule α} (h : S.Follows s p id t t') (f : α → β) :
    S.Follows s p id (f <$> t) (f <$> t') := h.map fun _ => rfl

/-- A choice by the same condition. -/
theorem ite {b : Prop} [Decidable b] {t : Rule α} {t' : Rule β} (yes : b → S.Follows s p φ r r')
    (no : ¬b → S.Follows s p φ t t') :
    S.Follows s p φ (if b then r else t) (if b then r' else t') := by
  split
  · exact yes ‹_›
  · exact no ‹_›

variable {t u : Rule Bool} {f : α → Rule γ} {f' : α → Rule δ}

/-- Behind a test the same holds as before. -/
theorem past {t : Rule α} {v : List Word → Option Limit → α} (h : S.Follows .firm p id t t)
    (answers : Answers t v) (next : ∀ x, S.Follows s p ψ (f x) (f' x)) :
    S.Follows s p ψ (t >>= f) (t >>= f') := h.bindTo (answers.keeps p) next

/-- A rule that goes on from the answer of a test. -/
theorem ask {t : Rule α} {v : List Word → α} (h : S.Follows .firm p id t t)
    (answers : Answers t fun ws _ => v ws)
    (next : ∀ x, S.Follows s (fun ws n => p ws n ∧ v ws = x) ψ (f x) (f' x)) :
    S.Follows s p ψ (t >>= f) (t >>= f') :=
  h.bindAs (fun c entry => (answers c).imp fun _ _ ⟨is, _, _, _, eq⟩ => eq ▸ ⟨entry, is.symm⟩) next

/-- A branch by a question about the words. -/
theorem branch {v : List Word → Bool} {x y : Rule α} {x' y' : Rule β} (h : S.Follows .firm p id t t)
    (answers : Answers t fun ws _ => v ws)
    (yes : S.Follows s (fun ws n => p ws n ∧ v ws = true) φ x x')
    (no : S.Follows s (fun ws n => p ws n ∧ v ws = false) φ y y') :
    S.Follows s p φ (t >>= fun b => if b = true then x else y)
      (t >>= fun b => if b = true then x' else y') := by
  refine h.ask answers fun b => ?_
  cases b with
  | true => exact yes
  | false => exact no

/-- A choice of which it does not matter what the test found. -/
theorem choose {x y : Rule α} {x' y' : Rule β} (h : S.Follows .firm p id t t)
    (yes : S.Follows s .any φ x x') (no : S.Follows s .any φ y y') :
    S.Follows s p φ (t >>= fun b => if b = true then x else y)
      (t >>= fun b => if b = true then x' else y') := by
  refine h.bind fun b => ?_
  cases b with
  | true => exact yes
  | false => exact no

theorem not (h : S.Follows .firm p id t t) : S.Follows .firm p id ((!·) <$> t) ((!·) <$> t) :=
  h.mapId _

/-- A test that is made where the one before it was. -/
theorem orAt {v : List Word → Option Limit → Bool} (h : S.Follows .firm p id t t)
    (answers : Answers t v) (g : S.Follows .firm p id u u) :
    S.Follows .firm p id (t <||> u) (t <||> u) := by
  refine h.past answers fun b => ?_
  cases b with
  | false => exact g
  | true => exact .pure rfl

/-- The disjunction of two tests. -/
theorem or (h : S.Follows .firm p id t t) (g : S.Follows .firm .any id u u) :
    S.Follows .firm p id (t <||> u) (t <||> u) := by
  refine h.bind fun b => ?_
  cases b with
  | false => exact g
  | true => exact .pure rfl

/-- The conjunction of two tests. -/
theorem and (h : S.Follows .firm p id t t) (g : S.Follows .firm .any id u u) :
    S.Follows .firm p id (t <&&> u) (t <&&> u) := by
  refine h.bind fun b => ?_
  cases b with
  | false => exact .pure rfl
  | true => exact g

/-- A test that is made only where another one finds something. -/
theorem andAt {v : List Word → Bool} (h : S.Follows .firm p id t t)
    (answers : Answers t fun ws _ => v ws)
    (g : S.Follows .firm (fun ws n => p ws n ∧ v ws = true) id u u) :
    S.Follows .firm p id (t <&&> u) (t <&&> u) := by
  refine h.ask answers fun b => ?_
  cases b with
  | false => exact .pure rfl
  | true => exact g

end Follows

end Setting

end ImplicitGlobals.Grammar
