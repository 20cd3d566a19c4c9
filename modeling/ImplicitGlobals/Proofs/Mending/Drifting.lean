import ImplicitGlobals.Proofs.Mending.Steps

/-!
# Two runs inside delimiters

Between delimiters nothing asks for semicolons. So where the runs part there the first one goes on alone
until it comes to the word, and at the closer the question is settled, unless a run has ended early.
-/

namespace ImplicitGlobals.Grammar

namespace Mending

variable {m : Mending} {α β σ : Type} {us vs : List Word} {c c' d d' e e' : Cursor} {p q : List Word → Prop}
  {early : Bool}

/-! ### Words of a kind -/

section

variable {kind : TokenKind}

/-- The semicolon is not of another kind. -/
theorem currentIs_plain (other : kind ≠ .semicolon) : (kindIn m.ahead' 0 == some kind) = false :=
  beq_false_of_ne fun same => other (Option.some.inj same).symm

/-- A test of the current word is read off that word. -/
theorem currentIs_near (kind : TokenKind) : Near 0 fun ws => kindIn ws 0 == some kind :=
  (near_kindIn 0).map (· == some kind)

theorem currentIn_near (set : KindSet) : Near 0 fun ws => (kindIn ws 0).any set.holds :=
  (near_kindIn 0).map fun k : Option TokenKind => k.any set.holds

/-- The end is where no word is left. -/
theorem atEnd_near : Near 0 fun ws : List Word => ws.isEmpty || (none : Option Limit).isSome := fun us xs ys far => by
  cases us with
  | nil => exact absurd far (Nat.lt_irrefl 0)
  | cons u us => rfl

/-- Whether the end comes next or a word of the kind. -/
theorem endsAt_answers (kind : TokenKind) :
    Answers (atEnd <||> currentIs kind) fun ws l => (ws.isEmpty || l.isSome) || kindIn ws 0 == some kind :=
  atEnd_answers.or (currentIs_answers kind)

/-- A list ends at its closer or at the end. -/
theorem endsAt_near (kind : TokenKind) : Near 0 fun ws : List Word =>
    (ws.isEmpty || (none : Option Limit).isSome) || kindIn ws 0 == some kind := atEnd_near.or (currentIs_near kind)

namespace Mends

/-- Only a semicolon would be read by the second run alone. -/
theorem eat (kind : TokenKind) (other : kind ≠ .semicolon) : m.Mends p never (eat kind) (eat kind) :=
  branch (currentIs_answers kind) (currentIs_near kind) (currentIs_plain other) (bump.onward fun _ => pure true)
    (pure false) (Judges.bump.bind fun _ => (Rests.pure (m := m) true).left)

/-- A keyword is no semicolon. -/
theorem eatKeyword (k : Keyword) : m.Mends p never (eatKeyword k) (eatKeyword k) :=
  branch (atKeyword_answers k) (near_spells 0 k.word) rfl ((takeKeyword k).onward fun _ => pure true)
    (pure false) ((Judges.takeAs _).bind fun _ => (Rests.pure (m := m) true).left)

/-- A part that begins with another word is entered by both runs or by none. -/
theorem optional {body body' : Rule Unit} {D : Unit → Unit → Cursor → Cursor → Prop} (kind : TokenKind)
    (other : kind ≠ .semicolon) (h : m.Mends Anywhere D body body') (judges : m.Judges body) :
    m.Mends p D (optional kind body) (optional kind body') :=
  branch (currentIs_answers kind) (currentIs_near kind) (currentIs_plain other)
    (h.given fun _ _ => trivial) (pure ()) judges

/-- What is expected in front of the word is what the first run finds there, or complains of. -/
theorem expect (kind : TokenKind) (other : kind ≠ .semicolon) (what : String) :
    m.Mends p never (expect kind what) (expect kind what) :=
  choose (eat kind other) (pure true) ((errorWith rfl _).onward fun _ => pure false)

/-- A rule that its callers enter at the word reads that word; the second run may not enter it there. -/
theorem assertAt {r r' : Rule α} {D : α → α → Cursor → Cursor → Prop} (kind : TokenKind) (other : kind ≠ .semicolon)
    (h : m.Mends Anywhere D r r') : m.Mends p D (do assertAt kind; r) (do Grammar.assertAt kind; r') := by
  have asserts : m.Mends p never (Grammar.assertAt kind) (Grammar.assertAt kind) := by
    refine ask current_answers (fun _ => ite (fun _ => throwLeft _ fun _ => .throw _) fun _ => pure ()) ?_
    intro us c c' _ _ differs
    obtain rfl := (near_kindIn 0).eq_nil differs
    have wrong : kindIn m.ahead' 0 ≠ some kind := fun same => other (Option.some.inj same).symm
    exact fun _ _ _ => .ite (fun _ => .throw _) fun right => absurd wrong right
  exact asserts.onward fun _ => h

/-- The word in the error node is the word or stands before it. -/
theorem bumpAsError : m.Mends p never bumpAsError bumpAsError := by
  refine askHere (peek_answers 0) (near_getElem? 0) (fun _ => ?_) fun _ => ?_
  · exact ite (fun _ => node bump steady_never) fun _ => pure ()
  · exact .ite (fun _ => .node .bump) fun none => absurd rfl none

theorem errorAndBump {kind : DiagnosticKind} (closed : kind.isUnclosed = false) (detail : String) :
    m.Mends p never (errorAndBump kind detail) (errorAndBump kind detail) :=
  (errorWith closed detail).onward fun _ => bumpAsError

/-- A name is read, or its absence complained of. -/
theorem nameRule : m.Mends p never nameRule nameRule :=
  branch (currentIs_answers .ident) (currentIs_near .ident) rfl (node bump steady_never) (error rfl) (.node .bump)

end Mends

end

/-! ### At the word alone -/

namespace Judges

theorem errorAndBump {kind : DiagnosticKind} (detail : String) : m.Judges (errorAndBump kind detail) :=
  (errorWith kind detail).bind fun _ => (Mends.bumpAsError (m := m)).notes

theorem nameRule : m.Judges nameRule :=
  .look (fun c => (currentIs_answers .ident c).imp fun _ _ post => post.2) fun _ =>
    .ite (fun _ => .node .bump) fun _ => error _

end Judges

namespace Rests

/-- The rule reads a word or nothing. -/
theorem eat (kind : TokenKind) : m.Rests (eat kind) :=
  (answers (currentIs_answers kind)).bind fun _ => ite (bump.bind fun _ => pure true) (pure false)

theorem eatKeyword (k : Keyword) : m.Rests (eatKeyword k) :=
  (answers (atKeyword_answers k)).bind fun _ => ite ((takeAs _).bind fun _ => pure true) (pure false)

/-- The complaint is not of a missing semicolon. -/
theorem error {kind : DiagnosticKind} (closed : kind.isUnclosed = false) : m.Rests (error kind) := here closed none

theorem errorWith {kind : DiagnosticKind} (closed : kind.isUnclosed = false) (detail : String) :
    m.Rests (errorWith kind detail) := here closed (some detail)

theorem bumpAsError : m.Rests bumpAsError :=
  (answers (peek_answers 0)).bind fun _ => ite (node bump) (pure ())

theorem errorAndBump {kind : DiagnosticKind} (closed : kind.isUnclosed = false) (detail : String) :
    m.Rests (errorAndBump kind detail) := (errorWith closed detail).bind fun _ => bumpAsError

theorem nameRule : m.Rests nameRule :=
  (answers (currentIs_answers .ident)).bind fun _ => ite (node bump) (error rfl)

end Rests

/-! ### Rules between delimiters -/

/-- Two rules that do not ask for semicolons. Where they part the first run is adrift, and stays so. -/
structure Drifts (m : Mending) (early : Bool) (r r' : Rule α) : Prop extends
  m.Mends Anywhere (m.adrift early) r r', m.Rests r

namespace Drifts

variable {r r' s s' : Rule α} {f g : α → Rule β}

/-- Runs that never part drift along. -/
theorem of (h : m.Mends Anywhere never r r') (rests : m.Rests r) : m.Drifts early r r' where
  toMends := h.only
  rests := rests.rests

/-- An answer is the same for both. -/
theorem pure (x : α) : m.Drifts early (Pure.pure x) (Pure.pure x) := of (.pure x) (.pure x)

/-- Where the first rule breaks off nothing has to be said of the second one. -/
theorem throwLeft (b : Breach) (right : Trails Notes r') : m.Drifts early (throw b) r' :=
  of (.throwLeft b right) (.throw b)

/-- A run that is adrift stays so in what follows. -/
theorem bind (h : m.Drifts early r r') (next : ∀ x, m.Drifts early (f x) (g x)) :
    m.Drifts early (r >>= f) (r' >>= g) where
  toMends := h.toMends.bind (fun x => (next x).toMends) fun x _ _ _ adrift =>
    .alone ((next x).toRests.adrift adrift) fun _ _ _ _ => id
  rests := (h.toRests.bind fun x => (next x).toRests).rests

/-- The branches are taken alike, as the test was answered before. -/
theorem ite {b : Prop} [Decidable b] (yes : m.Drifts early r r') (no : m.Drifts early s s') :
    m.Drifts early (if b then r else s) (if b then r' else s') := by
  split
  · exact yes
  · exact no

/-- Behind a test of the current word the rules go on. -/
theorem ask {t : Rule α} {v : List Word → Option Limit → α} (answers : Answers t v) (near : Near 0 (v · none))
    (next : ∀ x, m.Drifts early (f x) (g x)) : m.Drifts early (t >>= f) (t >>= g) where
  toMends := .ask answers (fun x => (next x).toMends.given fun _ _ => trivial) fun us c c' twin _ differs => by
    obtain rfl := near.eq_nil differs
    exact .alone ((next _).toRests.adrift (.inl twin.toBefore)) fun _ _ _ _ => id
  rests := ((Rests.answers answers).bind fun x => (next x).toRests).rests

/-- A test of the current word is answered differently at the word only, and there the first run is adrift.
-/
theorem choose {t : Rule Bool} {v : List Word → Option Limit → Bool} (answers : Answers t v) (near : Near 0 (v · none))
    (yes : m.Drifts early r r') (no : m.Drifts early s s') :
    m.Drifts early (t >>= fun b => if b = true then r else s) (t >>= fun b => if b = true then r' else s') :=
  ask answers near fun _ => ite yes no

/-- Behind a rule that is done, a fixed answer. -/
theorem answer {body body' : Rule Unit} (h : m.Drifts early body body') (x : α) :
    m.Drifts early (body >>= fun _ => Pure.pure x) (body' >>= fun _ => Pure.pure x) := h.bind fun _ => pure x

/-- A node does not change where a run stands. -/
theorem node {kind : NodeKind} {body body' : Rule Unit} (h : m.Drifts early body body') :
    m.Drifts early (node kind body) (node kind body') where
  toMends := h.toMends.node steady_adrift
  rests := h.toRests.node.rests

/-- The bounds of the two runs are different numbers, but both are large enough. -/
theorem bounded {f g : Nat → Rule α} (h : ∀ k n, m.Drifts early (f k) (g n)) :
    m.Drifts early (do f (← get).total) (do g (← get).total) where
  toMends := .bounded fun k n => (h k n).toMends
  rests := (Rests.bounded fun n => (h n n).toRests).rests

/-- By induction on the rounds that are left; in every round the first run may go adrift. -/
theorem loop {step step' : σ → Rule (Turn σ)} (turn : ∀ s, m.Drifts early (step s) (step' s)) (s : σ) :
    m.Drifts early (loop s step) (loop s step') where
  toMends := .loop (fun s => (turn s).toMends) (fun t _ _ _ adrift n _ => by
    refine .alone (P := fun _ d => d.Judged m.place ∨ m.Adrift early d) ?_ fun _ _ _ _ => id
    cases t with
    | again s => exact (Rests.rounds (fun s => (turn s).toRests) n s).adrift adrift
    | done s => exact (Rests.pure s).adrift adrift) s
  rests := (Rests.loop (fun s => (turn s).toRests) s).rests

theorem repeatWhile {turn turn' : Rule Bool} (h : m.Drifts early turn turn') :
    m.Drifts early (repeatWhile turn) (repeatWhile turn') :=
  loop (fun _ => h.bind fun _ => ite (pure _) (pure _)) ()

theorem bump : m.Drifts early bump bump := of .bump .bump

theorem takeKeyword (k : Keyword) : m.Drifts early (takeKeyword k) (takeKeyword k) := of (.takeKeyword k) (.takeAs _)

theorem eat (kind : TokenKind) (other : kind ≠ .semicolon) : m.Drifts early (eat kind) (eat kind) :=
  of (.eat kind other) (.eat kind)

theorem error {kind : DiagnosticKind} (closed : kind.isUnclosed = false) : m.Drifts early (error kind) (error kind) :=
  of (.error closed) (.error closed)

theorem errorWith {kind : DiagnosticKind} (closed : kind.isUnclosed = false) (detail : String) :
    m.Drifts early (errorWith kind detail) (errorWith kind detail) :=
  of (.errorWith closed detail) (.errorWith closed detail)

theorem errorAndBump {kind : DiagnosticKind} (closed : kind.isUnclosed = false) (detail : String) :
    m.Drifts early (errorAndBump kind detail) (errorAndBump kind detail) :=
  of (.errorAndBump closed detail) (.errorAndBump closed detail)

theorem nameRule : m.Drifts early nameRule nameRule := of .nameRule .nameRule

/-- The part begins with a word that neither run takes for the semicolon. -/
theorem optional {body body' : Rule Unit} (kind : TokenKind) (h : m.Drifts early body body') :
    m.Drifts early (optional kind body) (optional kind body') :=
  choose (currentIs_answers kind) (currentIs_near kind) h (pure ())

/-- The assertion is kept by both, as its word stands in between. -/
theorem assertAt (kind : TokenKind) (other : kind ≠ .semicolon) (h : m.Drifts early r r') :
    m.Drifts early (do assertAt kind; r) (do Grammar.assertAt kind; r') where
  toMends := .assertAt kind other h.toMends
  rests := ((Rests.look fun c => (current_answers c).bind fun _ _ post => .ite (fun _ => .throw _) fun _ =>
    .pure post.2).bind fun _ => h.toRests).rests

end Drifts

/-! ### Delimiters -/

/-- The complaint that the closer is missing, unless it was read. -/
def unlessClosed (d : Delimiters) (opener : Nat) (closed : Bool) : Rule Unit := do
  if !closed && !(d.excused && (← isRefused)) then
    errorUnclosed d.unclosed d.note opener

/-- What comes behind what stands between delimiters. -/
def closing (d : Delimiters) (opener : Nat) : Rule Unit := eat d.closer >>= unlessClosed d opener

/-- A list is its opener with the rounds behind it, and then its closer. -/
theorem delimited_eq (d : Delimiters) (turn : Rule Bool) : delimited d turn = (do
    let opener ← mark
    inside d.opener (repeatWhile turn)
    closing d opener) := rfl

/-- The closer is neither what statements end with nor what they begin with. -/
structure Closable (d : Delimiters) : Prop where
  semicolon : d.closer ≠ .semicolon
  ident : d.closer ≠ .ident
  unclosed : d.unclosed.isUnclosed = true

section

variable {d : Delimiters} (plain : Closable d) (opener : Nat)
include plain

/-- The closer is read or complained of, and that settles the question at the word. -/
theorem closing_mends : m.Mends p never (closing d opener) (closing d opener) :=
  (Mends.eat _ plain.semicolon).onward fun _ =>
    .askHere isRefused_answers (fun _ _ _ _ => rfl)
      (fun _ => .ite (fun _ => .errorUnclosed plain.unclosed _ _) fun _ => .pure ()) fun differs => absurd rfl differs

theorem unlessClosed_rests (closed : Bool) : m.Rests (unlessClosed d opener closed) :=
  (Rests.answers isRefused_answers).bind fun _ => .ite (.unclosed plain.unclosed _ _) (.pure ())

/-- The complaint of a missing closer is not one of a missing semicolon. -/
theorem closing_rests : m.Rests (closing d opener) := (Rests.eat _).bind fun _ => unlessClosed_rests plain opener _

/-- At the word the closer is read, or it is missing. -/
theorem closing_judges : m.Judges (closing d opener) := fun c before => (eat_yields d.closer c).bind fun closed e post => by
  cases closed with
  | true =>
    obtain ⟨_, _, took⟩ := post
    exact ((unlessClosed_rests (m := m) plain opener true).left e).imp fun _ _ noted =>
      noted.judged (before.judged_took took)
  | false =>
    have missing : m.Judges (unlessClosed d opener false) :=
      .ask isRefused_answers (.ite (fun _ => .complain nofun) fun none => absurd (by simp) none)
    exact missing e (before.same post.1)

/-- A run that has ended early finds no closer. -/
theorem closing_idles : m.Idles (closing d opener) () := by
  refine (Idles.eat _ plain.ident).bind ?_
  refine (Idles.answers (x := false) isRefused_answers fun _ _ => rfl).bind ?_
  refine .ite (fun _ => .complain fun _ _ => rfl) fun _ => ?_
  exact .pure ()

section

variable {turn turn' : Rule Bool} {D : Bool → Bool → Cursor → Cursor → Prop}

/-- Behind the closer the question is settled where the runs have parted, unless a run has ended early. -/
theorem Mends.delimited (round : m.Mends Anywhere D turn turn')
    (inner : m.Mends Anywhere (m.adrift early) (repeatWhile turn) (repeatWhile turn')) :
    m.Mends p (m.off early ()) (delimited d turn) (delimited d turn') where
  left := notes_delimited d plain.unclosed round.left
  right := notes_delimited d plain.unclosed round.right
  shifts i old old' := (shifting i old old').delimited (p := Anywhere) d plain.unclosed (round.shifts i old old')
  goes us c c' twin _ := by
    have rest (opener : Nat) : m.Mends Anywhere (m.off early ())
        (do Grammar.inside d.opener (repeatWhile turn); closing d opener)
        (do Grammar.inside d.opener (repeatWhile turn'); closing d opener) := by
      refine (Mends.inside d.opener inner).bind (fun _ => (closing_mends plain opener).only) fun _ _ e _ adrift => ?_
      rcases adrift with before | ⟨ended, off⟩
      · exact .judged (closing_judges plain opener e before)
      · exact .alone (closing_idles plain opener e off) fun _ _ _ _ post => .inr ⟨rfl, ended, post.2⟩
    rw [delimited_eq, delimited_eq]
    refine ((mark_yields c).both (mark_yields c')).bindBoth fun _ _ e e' posts => ?_
    obtain ⟨⟨rfl, same⟩, rfl, same'⟩ := posts
    rw [twin.passed]
    exact (rest c.passed).goes us e e' (twin.same same same') trivial

/-- In front of the word the opener is read, or the assertion fails. -/
theorem Judges.delimited (notes : Trails Notes turn) : m.Judges (delimited d turn) :=
  .look (fun c => (mark_yields c).imp fun _ _ post => post.2) fun opener =>
    (Judges.inside d.opener (notes_repeatWhile notes)).bind fun _ =>
      (closing_rests (m := m) plain opener).left

/-- When the closer comes, a first run that drifted has settled the question or has ended early. -/
theorem Drifts.delimited_off (round : m.Drifts early turn turn') :
    m.Mends p (m.off early ()) (Grammar.delimited d turn) (Grammar.delimited d turn') :=
  .delimited plain round.toMends round.repeatWhile.toMends

/-- At the word the list reads its opener. -/
theorem Drifts.delimited_judges (round : m.Drifts early turn turn') : m.Judges (Grammar.delimited d turn) :=
  .delimited plain round.toMends.left

/-- A list within a list drifts as a whole. -/
theorem Drifts.delimited (round : m.Drifts early turn turn') : m.Drifts early (delimited d turn) (delimited d turn') where
  toMends := (round.delimited_off plain).imp fun _ _ _ _ off => .inr off.2
  rests := ((Rests.look fun c => (mark_yields c).imp fun _ _ post => post.2).bind fun opener =>
    (round.toRests.repeatWhile.inside d.opener).bind fun _ => closing_rests plain opener).rests

end

end

end Mending

end ImplicitGlobals.Grammar
