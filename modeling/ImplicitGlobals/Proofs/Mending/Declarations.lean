import ImplicitGlobals.Proofs.Mending.Parts

/-!
# Two runs over declarations

A rule that is entered a few words before the word reads its way up to it. Where the two runs part on what
a test finds ahead, the first one comes to the word in this way, and that settles the question.

Where a statement ends at the word, the first run says that a semicolon is missing and the second one reads
it, or the first run passes over it in silence. Everything before leaves the runs side by side, settles the
question, or has ended early, and then no semicolon is asked for at the word.
-/

namespace ImplicitGlobals.Grammar

namespace Mending

variable {m : Mending} {α β : Type} {u : Word} {us : List Word} {c c' d d' e e' : Cursor} {p : List Word → Prop}
  {early : Bool}

/-! ### Words in between -/

namespace Before

/-- A word before the one in question is read. -/
theorem take (before : m.Before (u :: us) c) (label : LeafKind) :
    Yields (Grammar.takeAs label) c fun _ d => m.Before us d :=
  (takeAs_yields label c).imp fun _ _ ⟨_, took⟩ => before.took took

/-- A question is answered by the words up to there. -/
theorem tests (before : m.Before us c) {t : Rule α} {v : List Word → Option Limit → α} (answers : Answers t v) :
    Yields t c fun x d => x = v (us ++ m.ahead) none ∧ m.Before us d := (answers c).imp fun x d post => by
  obtain ⟨rfl, same⟩ := post
  rw [before.rest, before.refused]
  exact ⟨rfl, before.same same⟩

/-- A word of another kind is not there. -/
theorem lacks (before : m.Before (u :: us) c) {kind : TokenKind} (other : u.kind ≠ kind) :
    Yields (currentIs kind) c fun x d => x = false ∧ m.Before (u :: us) d :=
  (before.tests (currentIs_answers kind)).imp fun _ _ post =>
    ⟨post.1.trans (beq_false_of_ne fun same => other (Option.some.inj same)), post.2⟩

/-- A keyword before the word is read. -/
theorem eatKeyword {k : Keyword} (spelled : u.isWord k.word = true) (before : m.Before (u :: us) c) :
    Yields (Grammar.eatKeyword k) c fun b d => b = true ∧ m.Before us d :=
  (before.tests (atKeyword_answers k)).bind fun _ _ post => .ite
    (fun _ => (post.2.take _).bind fun _ _ before => .pure ⟨rfl, before⟩) fun none => absurd (post.1.trans spelled) none

/-- A name before the word is read. -/
theorem nameRule (ident : u.kind = .ident) (before : m.Before (u :: us) c) :
    Yields nameRule c fun _ d => m.Before us d := by
  refine (before.tests (currentIs_answers .ident)).bind fun b d post => ?_
  have found : b = true := post.1.trans (beq_iff_eq.2 (congrArg some ident))
  refine .ite (fun _ => ?_) fun none => absurd found none
  exact node_builds fun e stays => (post.2.stays stays).bump.imp fun _ _ before _ stays => before.stays stays

/-- The word itself is read, and nothing was complained of there. -/
theorem silent_took (before : m.Before [] c) {label : LeafKind} {w : Word} (took : Took label w c d) : d.Silent m.place where
  behind := by
    have here : c.passed = m.place := before.place
    rw [took.passed, here]
    exact Nat.lt_succ_self _
  silent k mem := Nat.ne_of_lt (before.complaints k (took.complaints ▸ mem))

end Before

/-! ### Up to the word -/

/-- Entered at these words before the word, the rule comes to it, and reads it or complains of it. -/
def Decides (m : Mending) (us : List Word) (r : Rule α) : Prop :=
  ∀ c, m.Before us c → Yields r c fun _ d => d.Judged m.place

/-- Entered at the word, the rule reads it and does not complain of it. -/
def Reads (m : Mending) (r : Rule α) : Prop := ∀ c, m.Before [] c → Yields r c fun _ d => d.Silent m.place

namespace Decides

variable {r : Rule α} {f : α → Rule β}

/-- What settles the question first settles it. -/
theorem bind (h : m.Decides us r) (next : ∀ x, Trails Notes (f x)) : m.Decides us (r >>= f) := fun c before =>
  (h c before).bind fun x d judged => (next x d).imp fun _ _ noted => noted.judged judged

/-- A word on the way is read. -/
theorem take {s : Rule β} {label : LeafKind} (h : m.Decides us s) : m.Decides (u :: us) (takeAs label >>= fun _ => s) :=
  fun _ before => (before.take label).bind fun _ d before => h d before

/-- Behind a test, of which the answer is known. -/
theorem ask {v : List Word → Option Limit → α} (answers : Answers r v) (h : m.Decides us (f (v (us ++ m.ahead) none))) :
    m.Decides us (r >>= f) := fun c before => (before.tests answers).bind fun x d post => by
  obtain ⟨rfl, before⟩ := post
  exact h d before

/-- The same with `bump`. -/
theorem bump {s : Rule β} (h : m.Decides us s) : m.Decides (u :: us) (Grammar.bump >>= fun _ => s) := fun _ before =>
  before.bump.bind fun _ d before => h d before

/-- The same with a keyword that may be missing. -/
theorem eatKeyword {k : Keyword} {s : Rule β} (spelled : u.isWord k.word = true) (h : m.Decides us s) :
    m.Decides (u :: us) (Grammar.eatKeyword k >>= fun _ => s) := fun _ before =>
  (before.eatKeyword spelled).bind fun _ d post => h d post.2

/-- The node is no matter. -/
theorem nodeAt {kind : NodeKind} {body : Rule Unit} (h : m.Decides us body) (point : Checkpoint) :
    m.Decides us (nodeAt point kind body) := fun _ before =>
  nodeAt_builds fun d stays => (h d (before.stays stays)).imp fun _ _ judged _ stays => stays.judged judged

end Decides

/-- What was read in silence is behind. -/
theorem judged_of_silent {i : Nat} (silent : d.Silent i) : d.Judged i :=
  ⟨.inl silent.behind, fun _ mem => silent.silent _ mem rfl⟩

namespace Reads

variable {r s : Rule α} {f : α → Rule β}

/-- What reads the word settles the question. -/
theorem judges (h : m.Reads r) : m.Judges r := fun c before => (h c before).imp fun _ _ silent => judged_of_silent silent

/-- What reads the word first reads it. -/
theorem bind (h : m.Reads r) (next : ∀ x, Trails Notes (f x)) : m.Reads (r >>= f) := fun c before =>
  (h c before).bind fun x d silent => (next x d).imp fun _ _ noted => noted.silent silent

/-- Reading under any label. -/
theorem takeAs (label : LeafKind) : m.Reads (takeAs label) := fun c before =>
  (takeAs_yields label c).imp fun _ _ ⟨_, took⟩ => before.silent_took took

/-- Reading as a keyword. -/
theorem bumpKeyword : m.Reads bumpKeyword := fun _ before =>
  (before.tests currentText_answers).bind fun _ d post => takeAs _ d post.2

/-- A choice reads the word if each branch that can be taken does. -/
theorem ite {b : Prop} [Decidable b] (yes : b → m.Reads r) (no : ¬b → m.Reads s) : m.Reads (if b then r else s) := by
  split
  · exact yes ‹_›
  · exact no ‹_›

/-- A rule that comes to the word if another one has not read it. -/
theorem ate {t : Rule Bool} {is : Word → Prop} {label : LeafKind} {f : Bool → Rule α}
    (eats : ∀ c, Yields t c (Eaten is label c)) (yes : Trails Notes (f true)) (no : m.Reads (f false)) :
    m.Reads (t >>= f) := fun c before => (eats c).bind fun b d post => by
  cases b with
  | true =>
    obtain ⟨_, _, took⟩ := post
    exact (yes d).imp fun _ _ noted => noted.silent (before.silent_took took)
  | false => exact no d (before.same post.1)

/-- The node is no matter. -/
theorem nodeAt {kind : NodeKind} {body : Rule Unit} (h : m.Reads body) (point : Checkpoint) :
    m.Reads (nodeAt point kind body) := fun _ before =>
  nodeAt_builds fun d stays => (h d (before.stays stays)).imp fun _ _ silent _ stays => stays.silent silent

end Reads

namespace Judges

variable {r s : Rule α}

/-- A rule that comes to the word if another one has not read it. -/
theorem ate {t : Rule Bool} {is : Word → Prop} {label : LeafKind} {f : Bool → Rule α}
    (eats : ∀ c, Yields t c (Eaten is label c)) (yes : Trails Notes (f true)) (no : m.Judges (f false)) :
    m.Judges (t >>= f) := fun c before => (eats c).bind fun b d post => by
  cases b with
  | true =>
    obtain ⟨_, _, took⟩ := post
    exact (yes d).imp fun _ _ noted => noted.judged (before.judged_took took)
  | false => exact no d (before.same post.1)

/-- A rule that chooses between two that settle the question. -/
theorem either {t : Rule Bool} {v : List Word → Option Limit → Bool} (answers : Answers t v)
    (yes : m.Judges r) (no : m.Judges s) : m.Judges (t >>= fun b => if b = true then r else s) :=
  .look (fun c => (answers c).imp fun _ _ post => post.2) fun _ => .ite (fun _ => yes) fun _ => no

/-- The first round settles it. -/
theorem repeatWhile {turn : Rule Bool} (h : m.Judges turn) (notes : Trails Notes turn) : m.Judges (repeatWhile turn) := by
  have round : Trails Notes (turn >>= fun b => if b = true then pure (Turn.again ()) else pure (Turn.done ())) :=
    notes_trail.bind notes fun _ => ((Rests.pure (m := m) (Turn.again ())).ite (.pure (Turn.done ()))).left
  refine fun c before => .get (((h.bind fun b => ?_) c before).bind (f := Mends.goOn _ c.total) fun t d judged => ?_)
  · exact ((Rests.pure (m := m) (Turn.again ())).ite (.pure (Turn.done ()))).left
  · cases t with
    | again s => exact (notes_rounds (fun _ => round) _ _ d).imp fun _ _ noted => noted.judged judged
    | done s => exact .pure judged

end Judges

/-! ### What a test finds ahead -/

/-- Behind a test, what the test announces and what comes behind that. -/
theorem whenever_bind (test : Rule Bool) (body : Rule Unit) (next : Rule α) :
    (do whenever test body; next) = (do whenever (pure (← test)) body; next) := by
  simp only [whenever, bind_assoc, pure_bind]

namespace Mends

variable {D : Unit → Unit → Cursor → Cursor → Prop} {r r' : Rule Unit}

/-- The opposite of a test. -/
theorem not {t t' : Rule Bool} (h : m.Mends p never t t') : m.Mends p never ((!·) <$> t) ((!·) <$> t') := by
  rw [← bind_pure_comp, ← bind_pure_comp]
  exact h.onward fun _ => .pure _

/-- Both tests, the second behind the first. -/
theorem and {s s' t t' : Rule Bool} (h : m.Mends p never s s') (g : m.Mends Anywhere never t t') :
    m.Mends p never (s <&&> t) (s' <&&> t') := by
  rw [and_eq_branch, and_eq_branch]
  exact h.choose g (.pure false)

/-- A repetition of turns that come out alike. -/
theorem repeatWhile {turn turn' : Rule Bool} (h : m.Mends Anywhere never turn turn') :
    m.Mends p never (repeatWhile turn) (Grammar.repeatWhile turn') :=
  .loop (D := never) (fun _ => h.onward fun _ => .ite (fun _ => .pure _) fun _ => .pure _)
    (fun _ _ _ _ none => none.elim) ()

/-- A part behind its test. -/
theorem whenever {t t' : Rule Bool} (h : m.Mends p never t t') (yes : m.Mends Anywhere D r r') :
    m.Mends p D (whenever t r) (Grammar.whenever t' r') := h.choose yes (.pure ())

/-- The answer is dropped. -/
theorem quit (h : m.Mends p D r r') : m.Mends p D (do r; return) (do r'; return) := by
  simpa only [bind_pure_unit] using h

/-- Where a test is answered differently, the first run comes to the word. -/
theorem askAhead {t : Rule α} {v : List Word → Option Limit → α} {f g : α → Rule β}
    {E : β → β → Cursor → Cursor → Prop} (answers : Answers t v) (next : ∀ x, m.Mends p E (f x) (g x))
    (decides : ∀ us, v (us ++ m.ahead) none ≠ v (us ++ m.ahead') none → m.Decides us (f (v (us ++ m.ahead) none))) :
    m.Mends p E (t >>= f) (t >>= g) :=
  .ask answers (fun x => (next x).given fun _ both => both.1) fun us c _ twin _ differs =>
    .judged (decides us differs c twin.toBefore)

/-- The same, of a test that looks one word ahead and finds nothing in front of the semicolon. -/
theorem askNext {t : Rule Bool} {v : List Word → Bool} {f g : Bool → Rule β} {E : β → β → Cursor → Cursor → Prop}
    (answers : Answers t fun ws _ => v ws) (near : Near 1 v) (here : v m.ahead' = false)
    (ahead : ∀ u, v (u :: m.ahead') = false) (next : ∀ b, m.Mends p E (f b) (g b)) (judges : m.Judges (f true))
    (decides : ∀ u, m.Decides [u] (f true)) : m.Mends p E (t >>= f) (t >>= g) :=
  .askAhead answers next fun us differs => by
    match us, near.length_le differs with
    | [], _ =>
      have found : v ([] ++ m.ahead) = true := eq_true_of_differs here differs
      exact found ▸ judges
    | [u], _ =>
      have found : v ([u] ++ m.ahead) = true := eq_true_of_differs (ahead u) differs
      exact found ▸ decides u

end Mends

/-! ### The ends of statements -/

variable (m)

/-- The same word, one place further on. -/
def onward : Mending := { m with place := m.place + 1 }

/-- The first run has just said that a semicolon is missing, and the second one has read it. -/
structure Heals (d d' : Cursor) : Prop where
  other : m.word.kind ≠ .braceClose
  fresh : m.onward.Before [] d'
  said : ∃ old enclosing, (∀ k ∈ old, k.place < m.place) ∧
    d.Onto m.place (.noSemicolon m.place enclosing :: old) ∧ d'.Onto (m.place + 1) old ∧
      Shifted m.place (.noSemicolon m.place enclosing :: old) old d d'

/-- What else can be behind a statement: the first run is adrift, or a semicolon was missing. -/
def after : α → α → Cursor → Cursor → Prop := fun _ _ d d' => m.Adrift true d ∨ m.Heals d d'

variable {m}

/-- What is put in heals as long as nothing is read. -/
theorem Heals.stays (h : m.Heals d d') (left : Stays d e) (right : Stays d' e') : m.Heals e e' where
  other := h.other
  fresh := h.fresh.stays right
  said := by
    obtain ⟨old, enclosing, before, onto, onto', shifted⟩ := h.said
    exact ⟨old, enclosing, before, left.onto onto, right.onto onto', shifted.stays left right⟩

/-- What is behind a statement does not count what is built. -/
theorem steady_after : Steady m.after := fun _ _ _ _ after left right =>
  after.imp (·.stays left) (·.stays left right)

/-- A question that reads only the current word is answered alike before the word in question. -/
theorem Twin.asks {t : Rule α} {v : List Word → Option Limit → α} (twin : m.Twin (u :: us) c c') (answers : Answers t v)
    (near : Near 0 (v · none)) : Yields t c fun x d => Yields t c' fun y d' => x = y ∧ m.Twin (u :: us) d d' := by
  refine Yields.imp ((answers c).both (answers c')) fun x d post => post.imp fun y d' posts => ?_
  obtain ⟨⟨rfl, same⟩, rfl, same'⟩ := posts
  rw [twin.rest, twin.rest', twin.refused, twin.refused']
  exact ⟨near _ _ _ (Nat.succ_pos _), twin.same same same'⟩

/-- Whether nothing more has to come before the end of a statement. -/
theorem endsAlone_answers : Answers (atEnd <||> currentIs .braceClose <||> onFreshLine) fun ws l =>
    (ws.isEmpty || l.isSome) || (kindIn ws 0 == some .braceClose || ws.head?.any (·.freshLine)) :=
  atEnd_answers.or ((currentIs_answers .braceClose).or onFreshLine_answers)

/-- Whether a statement ends by itself shows in the current word. -/
theorem endsAlone_near : Near 0 fun ws : List Word => (ws.isEmpty || (none : Option Limit).isSome) ||
    (kindIn ws 0 == some .braceClose || ws.head?.any (·.freshLine)) :=
  atEnd_near.or <| (currentIs_near .braceClose).or fun us xs ys far => by
    cases us with
    | nil => exact absurd far (Nat.lt_irrefl 0)
    | cons u us => rfl

/-- Before the word in question both runs ask for the semicolon alike. -/
theorem expectSemicolon_between (twin : m.Twin (u :: us) c c') : Yields expectSemicolon c fun _ d =>
    Yields expectSemicolon c' fun _ d' => ∃ vs, m.Twin vs d d' := by
  have eats : Yields (eat .semicolon) c fun x d => Yields (eat .semicolon) c' fun y d' =>
      x = y ∧ if x = true then m.Twin us d d' else m.Twin (u :: us) d d' := by
    refine (twin.asks (currentIs_answers .semicolon) (currentIs_near .semicolon)).bindBoth fun x y d d' posts => ?_
    obtain ⟨rfl, twin⟩ := posts
    cases x with
    | true => exact twin.bump.bindBoth (R := fun _ _ d d' => m.Twin us d d') fun _ _ _ _ twin => .pure (.pure ⟨rfl, twin⟩)
    | false => exact .pure (.pure ⟨rfl, twin⟩)
  refine eats.bindBoth fun x y d d' posts => ?_
  obtain ⟨rfl, twin⟩ := posts
  cases x with
  | true => exact .pure (.pure ⟨us, twin⟩)
  | false =>
    refine (Twin.asks twin endsAlone_answers endsAlone_near).bindBoth fun x y d d' posts => ?_
    obtain ⟨rfl, twin⟩ := posts
    cases x with
    | true => exact .pure (.pure ⟨_, twin⟩)
    | false =>
      have complained := twin.complain (f := .noSemicolon) (List.cons_ne_nil u us) fun _ _ => rfl
      exact complained.imp fun _ _ post => post.imp fun _ _ twin => ⟨_, twin⟩

/-- At the word the first run passes on in silence, or says that a semicolon is missing. -/
theorem expectSemicolon_word (before : m.Before [] c) : Yields expectSemicolon c fun _ d =>
    d.Judged m.place ∨ m.Before [] d ∨ m.word.kind ≠ .braceClose ∧
      ∃ e, Same c e ∧ d = e.note (.noSemicolon m.place e.innermost) := by
  refine (eat_yields .semicolon c).bind fun x d post => ?_
  cases x with
  | true =>
    obtain ⟨_, _, took⟩ := post
    exact .pure (.inl (before.judged_took took))
  | false =>
    have before := before.same post.1
    refine (endsAlone_answers d).bind fun x e answer => ?_
    obtain ⟨ends, same⟩ := answer
    cases x with
    | true => exact .pure (.inr (.inl (before.same same)))
    | false =>
      refine (complain_steps _ e).imp fun _ f steps => ?_
      obtain ⟨g, same', rfl⟩ := steps
      have here := (before.same same).same same'
      have unsaid : g.lastPlace ≠ some g.passed := fun last => by
        have earlier := here.last _ last
        have place : g.passed = m.place := here.place
        omega
      have place : g.passed = m.place := here.place
      rw [if_neg unsaid]
      refine .inr (.inr ⟨fun closes => ?_, g, (post.1.trans same).trans same', by rw [place]⟩)
      rw [before.rest] at ends
      simp [ahead, kindIn, closes] at ends

/-- At the semicolon the second run reads it. -/
theorem expectSemicolon_reads (twin : m.Twin [] c c') : Yields expectSemicolon c' fun _ d' =>
    ∃ label, Took label semicolon c' d' := by
  refine (eat_yields .semicolon c').bind fun x d post => ?_
  cases x with
  | true =>
    obtain ⟨w, _, took⟩ := post
    have whole := took.rest.symm.trans twin.rest'
    obtain ⟨rfl, -⟩ := List.cons.inj whole
    exact .pure ⟨_, took⟩
  | false =>
    have found := post.2 semicolon (by rw [twin.rest']; rfl)
    exact absurd rfl found

/-- A semicolon is missing, and where it was put in it is read. -/
theorem heals_of_note (other : m.word.kind ≠ .braceClose) (twin : m.Twin [] c c') {label : LeafKind}
    (took : Took label semicolon c' d') (enclosing : Option Nat) :
    m.Heals (c.note (.noSemicolon m.place enclosing)) d' := by
  have rest : d'.rest = m.ahead := (List.cons.inj (took.rest.symm.trans twin.rest')).2
  have here : c.passed = m.place := twin.place
  have passed : d'.passed = m.place + 1 := by rw [took.passed, twin.passed, here]
  have complaints : d'.complaints = c.complaints := took.complaints.trans twin.complaints'
  have last : d'.lastPlace = c.lastPlace := took.lastPlace.trans twin.lastPlace
  have free := took.unbounded twin.free'
  have refused : d'.refused = none := free.2.trans twin.refused'
  have earlier {p : Nat} (mem : p ∈ d'.lastPlace) : p < m.place := twin.last p (last ▸ mem)
  have fresh : m.onward.Before [] d' := ⟨rest, passed, free.1, refused, fun p mem => Nat.lt_succ_of_lt (earlier mem),
    fun k mem => Nat.lt_succ_of_lt (twin.complaints k (complaints ▸ mem))⟩
  refine ⟨other, fresh, c.complaints, enclosing, twin.complaints, ?_, ?_, ?_⟩
  · exact ⟨Nat.le_of_eq here.symm, [], rfl, nofun⟩
  · exact ⟨Nat.le_of_eq passed.symm, [], complaints, nofun⟩
  · refine ⟨rest.trans twin.rest.symm, passed.trans (congrArg (· + 1) here.symm), ?_, ⟨twin.free, free.1⟩,
      refused.trans twin.refused.symm, .inr ⟨⟨[], [], rfl, complaints, rfl⟩, ⟨?_, ?_⟩, .inl ⟨here, congrArg some here⟩⟩⟩
    · exact congrArg (List.map _) (took.openers.trans twin.openers)
    · exact fun p mem => Nat.le_of_eq (Option.some.inj mem).symm
    · exact fun p mem => passed ▸ Nat.le_succ_of_le (Nat.le_of_lt (earlier mem))

/-- At the word the second run finds its semicolon, and the first one none. -/
theorem expectSemicolon_mends : m.Mends p m.after expectSemicolon expectSemicolon where
  left := noting.expectSemicolon (p := Anywhere)
  right := noting.expectSemicolon (p := Anywhere)
  shifts i old old' := (shifting i old old').expectSemicolon (p := Anywhere)
  goes us c c' twin _ := by
    cases us with
    | cons u us => exact (expectSemicolon_between twin).imp fun _ _ post => post.imp fun _ _ twins => .inl ⟨rfl, twins⟩
    | nil =>
      refine Yields.imp ((expectSemicolon_word twin.toBefore).both (expectSemicolon_reads twin)) fun _ d post =>
        post.imp fun _ d' posts => ?_
      obtain ⟨judged | before | ⟨other, e, same, rfl⟩, label, took⟩ := posts
      · exact .inr (.inl (.inl judged))
      · exact .inr (.inr (.inl (.inl before)))
      · exact .inr (.inr (.inr (heals_of_note other (twin.same same (.refl c')) took e.innermost)))

/-- Where a statement begins none is missing: the run ends by itself. -/
theorem expectSemicolon_idles : m.Idles expectSemicolon () := by
  refine (Idles.eat .semicolon nofun).bind fun c off => (endsAlone_answers c).bind fun b d post => ?_
  have off := off.same post.2
  cases b with
  | true => exact .pure ⟨rfl, off⟩
  | false => exact Idles.complain (fun _ _ => rfl) d off

/-- The end of a statement behind which only a run may have ended early. -/
theorem Mends.ending {r r' : Rule Unit} (h : m.Mends p (m.off true ()) r r') :
    m.Mends p m.after (do r; expectSemicolon) (do r'; expectSemicolon) :=
  h.bind (fun _ => expectSemicolon_mends) fun _ _ d _ off =>
    .alone (expectSemicolon_idles d off.2.2) fun _ _ _ _ post => .inr (.inl (.inr ⟨rfl, post.2⟩))

/-! ### Declarations -/

/-- A rule that reads one word. -/
structure Heads (m : Mending) (r : Rule Unit) : Prop where
  mends : m.Mends Anywhere never r r
  reads : m.Reads r
  steps : ∀ u us c, m.Before (u :: us) c → Yields r c fun _ d => m.Before us d

/-- A keyword that was found is read. -/
theorem takeKeyword_heads (k : Keyword) : m.Heads (takeKeyword k) where
  mends := .takeKeyword k
  reads := .takeAs _
  steps _ _ _ before := before.take _

/-- A keyword in front of a statement is read. -/
theorem bumpKeyword_heads : m.Heads bumpKeyword where
  mends := .bumpKeyword
  reads := .bumpKeyword
  steps _ _ _ before := (before.tests currentText_answers).bind fun _ _ post => post.2.take _

/-- How two runs come out of a declaration, and that the first one settles the question where it enters it at
the word, or one word before if the declaration has to have a name. -/
structure Declares (m : Mending) (named : Prop) (r r' : Rule Unit) : Prop extends m.Mends Anywhere m.after r r' where
  reads : m.Reads r
  decides : named → ∀ u, m.Decides [u] r

/-- A declaration is a head, whose word is read, and a tail. -/
theorem Declares.of {head tail tail' : Rule Unit} {kind : NodeKind} {named : Prop} (first : m.Heads head)
    (mends : m.Mends Anywhere m.after tail tail') (judges : named → m.Judges tail) (point point' : Checkpoint) :
    m.Declares named (nodeAt point kind (do head; tail)) (nodeAt point' kind (do head; tail')) where
  toMends := .nodeAt (first.mends.onward fun _ => mends) steady_after point point'
  reads := .nodeAt (first.reads.bind fun _ => mends.left) point
  decides name u := .nodeAt (fun c before => (first.steps u [] c before).bind fun _ d before => judges name d before) point

/-! ### Variables -/

/-- A declarator may end early, behind its type or its value. -/
theorem variableDeclarator_off : m.Mends p (m.off true ()) variableDeclarator variableDeclarator := by
  have value : m.Mends Anywhere (m.off true ()) (optional .equals (initializer .declaratorInitEnd))
      (optional .equals (initializer .declaratorInitEnd)) :=
    .optional .equals nofun ((initializer_mends _).ended (by decide)) (initializer_judges _)
  have type : m.Mends Anywhere (m.off true ()) (optional .colon (typeAscription .declaratorTypeEnd))
      (optional .colon (typeAscription .declaratorTypeEnd)) :=
    .optional .colon nofun ((typeAscription_mends _).ended (by decide)) (typeAscription_judges _)
  refine .node (binding_off.idle (fun _ => ?_) ?_) steady_off
  · refine (Mends.eat .bang nofun).onward fun _ => ?_
    exact type.idle (fun _ => value) (.optional .equals nofun)
  · exact (Idles.eat .bang nofun).bind ((Idles.optional .colon nofun).bind (.optional .equals nofun))

/-- So may its turn, which is the last one then. -/
theorem variableTurn_off : m.Mends p (m.off true false) variableTurn variableTurn :=
  variableDeclarator_off.idle (fun _ => (Mends.eat .comma nofun).only) (.eat .comma nofun)

/-- Turns that may end early make a repetition that may. -/
theorem Mends.repeatWhile_off {turn turn' : Rule Bool} (h : m.Mends Anywhere (m.off early false) turn turn') :
    m.Mends p (m.off early ()) (Grammar.repeatWhile turn) (Grammar.repeatWhile turn') := by
  refine .loop (D := m.off early (.done ())) (fun _ => h.idle (fun _ => ?_) (.pure _)) ?_ ()
  · exact .ite (fun _ => .pure _) fun _ => .pure _
  rintro _ _ d d' ⟨rfl, ended, off⟩ n n'
  exact .alone (Yields.pure (Q := fun _ d => m.Off d) off) fun _ _ _ _ off => .inr ⟨rfl, ended, off⟩

/-- A binding is asked for. -/
theorem variableTurn_judges : m.Judges variableTurn := by
  have behind : m.Rests (do
      let _ ← eat .bang
      optional .colon (typeAscription .declaratorTypeEnd)
      optional .equals (initializer .declaratorInitEnd)) := (Rests.eat .bang).bind fun _ =>
    ((typeAscription_drifts _).optional .colon |>.bind fun _ => (initializer_drifts _).optional .equals).toRests
  exact (Judges.node (binding_judges.bind fun _ => behind.left)).bind fun _ => (Rests.eat (m := m) .comma).left

/-- Variables come out as a declaration does. -/
theorem variableStatement_declares (point point' : Checkpoint) :
    m.Declares True (variableStatement point) (variableStatement point') :=
  .of bumpKeyword_heads (Mends.repeatWhile_off variableTurn_off).ending (fun _ => (variableTurn_judges.repeatWhile
    (variableTurn_off (m := m)).notes).bind fun _ => (expectSemicolon_mends (m := m)).notes)
    point point'

/-! ### Functions and type aliases -/

/-- A function name asks for no semicolon. -/
theorem functionName_mends (anonymous : Bool) : m.Mends p never (functionName anonymous) (functionName anonymous) :=
  .branch (currentIs_answers .ident) (currentIs_near .ident) rfl .nameRule
    (.ite (fun _ => .error rfl) fun _ => .pure ()) .nameRule

/-- It is asked for, unless the function may be anonymous. -/
theorem functionName_judges : m.Judges (functionName false) := .either (currentIs_answers .ident) .nameRule (.error _)

/-- The parameters may be missing where a statement begins. -/
theorem functionParameters_off : m.Mends p (m.off true ()) functionParameters functionParameters :=
  .branch (currentIs_answers .parenOpen) (currentIs_near .parenOpen) rfl parameters_off (Mends.errorWith rfl _).only
    parameters_judges

/-- Nothing is read there in their place. -/
theorem functionParameters_idles : m.Idles functionParameters () :=
  (Idles.currentIs .parenOpen nofun).bind (.complain fun _ _ => rfl)

/-- Type parameters may end early. -/
theorem typeParametersPart_off : m.Mends p (m.off true ()) (optional .angleOpen typeParameters)
    (optional .angleOpen typeParameters) := .optional .angleOpen nofun typeParameters_off typeParameters_judges

/-- A function behind its name. -/
def signature : Rule Unit := do
  optional .angleOpen typeParameters
  functionParameters
  optional .colon (typeAscription .statementEnd)
  expectSemicolon

/-- A semicolon is asked for behind the signature. -/
theorem signature_mends : m.Mends p m.after signature signature := by
  have result : m.Mends Anywhere (m.off true ()) (optional .colon (typeAscription .statementEnd))
      (optional .colon (typeAscription .statementEnd)) :=
    .optional .colon nofun ((typeAscription_mends _).ended (by decide)) (typeAscription_judges _)
  have parameters : m.Mends Anywhere (m.off true ())
      (do functionParameters; optional .colon (typeAscription .statementEnd))
      (do functionParameters; optional .colon (typeAscription .statementEnd)) :=
    functionParameters_off.idle (fun _ => result) (.optional .colon nofun)
  have header : m.Mends p (m.off true ())
      (do optional .angleOpen typeParameters; functionParameters; optional .colon (typeAscription .statementEnd))
      (do optional .angleOpen typeParameters; functionParameters; optional .colon (typeAscription .statementEnd)) :=
    typeParametersPart_off.idle (fun _ => parameters) (functionParameters_idles.bind (.optional .colon nofun))
  have whole := header.ending
  simp only [bind_assoc] at whole
  exact whole

/-- A function comes out as a declaration does; with its name it settles the question. -/
theorem functionDeclaration_declares (point point' : Checkpoint) (anonymous : Bool) :
    m.Declares (anonymous = false) (functionDeclaration point anonymous) (functionDeclaration point' anonymous) := by
  have named : m.Mends Anywhere m.after (do functionName anonymous; signature) (do functionName anonymous; signature) :=
    (functionName_mends anonymous).onward fun _ => signature_mends
  refine .of (takeKeyword_heads _) ((Mends.eat .star nofun).onward fun _ => named) (fun name => ?_) point point'
  subst name
  exact .ate (eat_yields .star) named.left (functionName_judges.bind fun _ => (signature_mends (m := m)).notes)

/-- A type alias behind its name. -/
def aliased : Rule Unit := do
  optional .angleOpen typeParameters
  whenever (expect .equals "`=`") (typeExpr .statementEnd)
  expectSemicolon

/-- A semicolon is asked for behind the type. -/
theorem aliased_mends : m.Mends p m.after aliased aliased := by
  have type : m.Mends Anywhere (m.off true ()) (whenever (expect .equals "`=`") (typeExpr .statementEnd))
      (whenever (expect .equals "`=`") (typeExpr .statementEnd)) :=
    .choose (.expect .equals nofun _) ((typeExpr_mends _).ended (by decide)) (.pure ())
  have header : m.Mends p (m.off true ())
      (do optional .angleOpen typeParameters; whenever (expect .equals "`=`") (typeExpr .statementEnd))
      (do optional .angleOpen typeParameters; whenever (expect .equals "`=`") (typeExpr .statementEnd)) :=
    typeParametersPart_off.idle (fun _ => type) ((Idles.expect .equals nofun _).bind (.pure ()))
  have whole := header.ending
  simp only [bind_assoc] at whole
  exact whole

/-- A declaration that has to have a name behind its keyword. -/
theorem Declares.named {head rest rest' : Rule Unit} {kind : NodeKind} (first : m.Heads head)
    (h : m.Mends Anywhere m.after rest rest') (point point' : Checkpoint) :
    m.Declares True (nodeAt point kind (do head; nameRule; rest)) (nodeAt point' kind (do head; nameRule; rest')) :=
  .of first (Mends.nameRule.onward fun _ => h) (fun _ => Judges.nameRule.bind fun _ => h.left) point point'

/-- A type alias comes out as a declaration does. -/
theorem typeAlias_declares (point point' : Checkpoint) : m.Declares True (typeAlias point) (typeAlias point') :=
  .named (takeKeyword_heads _) aliased_mends point point'

/-! ### Classes, interfaces and enums -/

/-- A clause may end early, and then the first run is adrift. -/
theorem heritageClauseTurn_drifts {test : Rule Bool} {v : List Word → Option Limit → Bool} (answers : Answers test v)
    (near : Near 0 (v · none)) : m.Drifts true (heritageClauseTurn test) (heritageClauseTurn test) := by
  have turn : m.Drifts true heritageTurn heritageTurn := (typeExpr_drifts _).bind fun _ => .eat .comma nofun
  have clause : m.Drifts true heritageClause heritageClause :=
    .node ((Drifts.of .bumpKeyword .bumpKeyword).bind fun _ => turn.repeatWhile)
  exact .choose answers near (clause.answer true) (.pure false)

/-- A body that has to be there may be missing there. -/
theorem requiredBody_drifts (kind : NodeKind) (what : String) :
    m.Drifts early (requiredBody kind what) (requiredBody kind what) :=
  .choose (currentIs_answers .braceOpen) (currentIs_near .braceOpen) (.of (bracedBody_mends kind) (bracedBody_rests kind))
    (.errorWith rfl _)

/-- The heritage of a class or an interface, and its body. -/
theorem members_mends {test : Rule Bool} {v : List Word → Option Limit → Bool} (answers : Answers test v)
    (near : Near 0 (v · none)) (kind : NodeKind) (what : String) :
    m.Mends p (m.adrift true)
      (do optional .angleOpen typeParameters; repeatWhile (heritageClauseTurn test); requiredBody kind what)
      (do optional .angleOpen typeParameters; repeatWhile (heritageClauseTurn test); requiredBody kind what) := by
  have behind : m.Drifts true (do repeatWhile (heritageClauseTurn test); requiredBody kind what)
      (do repeatWhile (heritageClauseTurn test); requiredBody kind what) :=
    (heritageClauseTurn_drifts answers near).repeatWhile.bind fun _ => requiredBody_drifts kind what
  exact typeParametersPart_off.bind (fun _ => behind.toMends) fun _ _ _ _ off =>
    .alone (behind.toRests.adrift (.inr off.2)) fun _ _ _ _ => id

/-- What is adrift behind a statement may be so. -/
theorem Mends.after {r r' : Rule Unit} (h : m.Mends p (m.adrift true) r r') : m.Mends p m.after r r' :=
  h.imp fun _ _ _ _ => .inl

/-- A class name asks for no semicolon. -/
theorem className_mends (anonymous : Bool) : m.Mends p never (className anonymous) (className anonymous) := by
  refine .branch ((currentIs_answers .ident).and ((atKeyword_answers .kwExtends).not.and (atKeyword_answers .kwImplements).not))
    ?_ rfl .nameRule (.ite (fun _ => .error rfl) fun _ => .pure ()) .nameRule
  exact (currentIs_near .ident).and (.and ((near_spells 0 _).map (!·)) ((near_spells 0 _).map (!·)))

/-- It is asked for, unless the class may be anonymous. -/
theorem className_judges : m.Judges (className false) :=
  .either ((currentIs_answers .ident).and ((atKeyword_answers .kwExtends).not.and (atKeyword_answers .kwImplements).not))
    .nameRule (.error _)

/-- A class comes out as a declaration does. -/
theorem classDeclaration_declares (point point' : Checkpoint) (anonymous : Bool) :
    m.Declares (anonymous = false) (classDeclaration point anonymous) (classDeclaration point' anonymous) := by
  have rest : m.Mends Anywhere m.after _ _ := (members_mends
    ((atKeyword_answers .kwExtends).or (atKeyword_answers .kwImplements))
    (.or (near_spells 0 _) (near_spells 0 _)) .classBody "class body").after
  refine .of (takeKeyword_heads _) ((className_mends anonymous).onward fun _ => rest) (fun name => ?_) point point'
  subst name
  exact className_judges.bind fun _ => rest.left

/-- So does an interface. -/
theorem interfaceDeclaration_declares (point point' : Checkpoint) :
    m.Declares True (interfaceDeclaration point) (interfaceDeclaration point') :=
  .named (takeKeyword_heads _) (members_mends (atKeyword_answers .kwExtends) (near_spells 0 _) _ _).after point point'

/-- The keyword of an enum may stand behind `const`. -/
theorem enumDeclaration_declares (point point' : Checkpoint) :
    m.Declares True (enumDeclaration point) (enumDeclaration point') := by
  have body : m.Mends Anywhere m.after enumBody enumBody := enumBody_off.imp fun _ _ _ _ off => .inl (.inr off.2)
  have named : m.Mends Anywhere m.after (do nameRule; enumBody) (do nameRule; enumBody) := Mends.nameRule.onward fun _ => body
  have keyword : m.Mends Anywhere m.after (do takeKeyword .kwEnum; nameRule; enumBody)
      (do takeKeyword .kwEnum; nameRule; enumBody) := (Mends.takeKeyword _).onward fun _ => named
  have reads : m.Reads (do takeKeyword .kwEnum; nameRule; enumBody) := (Reads.takeAs _).bind fun _ => named.left
  refine ⟨.nodeAt ((Mends.eatKeyword _).onward fun _ => keyword) steady_after point point',
    .nodeAt (.ate (eatKeyword_yields _) keyword.left reads) point, fun _ u => .nodeAt (fun c before => ?_) point⟩
  refine (eatKeyword_yields .kwConst c).bind fun b d post => ?_
  cases b with
  | true =>
    obtain ⟨_, _, took⟩ := post
    exact reads.judges d (before.took took)
  | false =>
    refine ((before.same post.1).take _).bind fun _ e before => ?_
    exact (Judges.nameRule.bind fun _ => body.left) e before

end Mending

end ImplicitGlobals.Grammar
