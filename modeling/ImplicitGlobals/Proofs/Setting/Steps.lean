import ImplicitGlobals.Proofs.Setting.Logic

/-!
# The steps of a rule in a setting

Looking, reading, building, complaining and going round, at a cursor and at its twin. How far a
rule may look ahead depends on the words between: over a semicolon it would look out of the
statement.
-/

namespace ImplicitGlobals.Grammar

variable {α β : Type} {c d : Cursor} {S : Setting} {s : Ending} {p : Entry}

/-- A rule that does one thing to the cursor. -/
theorem Setting.Follows.modify {f g : Cursor → Cursor} (onward : ∀ c, Onward c (f c))
    (rest : ∀ c, (f c).rest = c.rest) (twin : ∀ c c', S.Twin c c' → S.Twin (f c) (g c')) :
    S.Follows s p id (modify f) (modify g) where
  onward := fun c => .modify (onward c)
  twin := fun c c' twins live _ => .modify (.modify fun _ =>
    .ofFirm ⟨twin c c' twins, (rest c).symm ▸ live, rfl⟩)

/-! ### Looking -/

/-- What is asked of the kind and the text of a word is the same in the setting. -/
theorem peek_follows {n : Nat} {f : Option Word → β} (clear : ∀ ws i, p ws i → Clear n ws)
    (plain : ∀ u v : Option Word, u.map Word.lexeme = v.map Word.lexeme → f u = f v) :
    S.Follows s p id (f <$> peek n) (f <$> peek n) := by
  have steps (c : Cursor) : Yields (f <$> peek n) c fun x d =>
      x = f c.rest[n]? ∧ ∃ looks, d = { c.skipGap with looks } :=
    .map ((peek_steps n c).imp fun _ _ post => ⟨congrArg f post.1, post.2⟩)
  refine ⟨fun c => (steps c).imp fun _ _ ⟨_, looks, eq⟩ => eq ▸ .ofSame ⟨_, _, _, rfl⟩,
    fun c c' twins live entry => (steps c).imp fun x d first =>
      (steps c').imp fun y d' second _ => ?_⟩
  obtain ⟨rfl, m, rfl⟩ := first
  obtain ⟨rfl, m', rfl⟩ := second
  exact .ofFirm ⟨twins.skipGap.looks m m', live, plain _ _ (twins.lexeme live (clear _ _ entry))⟩

section

variable {n : Nat} (clear : ∀ ws i, p ws i → Clear n ws)

include clear

/-- The kind of a word ahead that is among the run's own. -/
theorem kindAt_follows : S.Follows s p id (kindAt n) (kindAt n) :=
  peek_follows (f := Option.map Word.kind) clear fun u v same => by
    have kinds := congrArg (Option.map Lexeme.kind) same
    rwa [Option.map_map, Option.map_map] at kinds

/-- Whether a word ahead is of a kind. -/
theorem nthIs_follows (kind : TokenKind) : S.Follows .firm p id (nthIs n kind) (nthIs n kind) :=
  (kindAt_follows clear).mapId (· == some kind)

/-- Whether a word ahead is spelt so. -/
theorem nthIsWord_follows (text : String) :
    S.Follows s p id (nthIsWord n text) (nthIsWord n text) :=
  peek_follows (f := fun w : Option Word => w.any (·.isWord text)) clear fun u v same => by
    cases u <;> cases v <;> simp_all [Word.lexeme, Word.isWord]

theorem nthIsKeyword_follows (k : Keyword) :
    S.Follows s p id (nthIsKeyword n k) (nthIsKeyword n k) :=
  nthIsWord_follows clear k.word

end

/-- One word further is a word of the run, or a word that follows and is no part of it. -/
theorem nextIs_follows (kind : TokenKind) :
    S.Follows .firm .goesOn id (nextIs kind) (nextIs kind) :=
  nthIs_follows (fun _ _ => id) kind

/-- The kind of the current word. -/
theorem current_follows : S.Follows s p id current current :=
  kindAt_follows fun _ _ _ => clear_zero _

theorem currentIs_follows (kind : TokenKind) :
    S.Follows .firm p id (currentIs kind) (currentIs kind) :=
  current_follows.mapId (· == some kind)

theorem currentIn_follows (set : KindSet) : S.Follows .firm p id (currentIn set) (currentIn set) :=
  current_follows.mapId fun k : Option TokenKind => k.any set.holds

/-- The text of the current word. -/
theorem currentText_follows : S.Follows s p id currentText currentText :=
  peek_follows (f := fun w : Option Word => (w.map (·.text)).getD "") (fun _ _ _ => clear_zero _)
    fun u v same => by
      cases u <;> cases v <;> simp_all [Word.lexeme]

theorem atWord_follows (text : String) : S.Follows s p id (atWord text) (atWord text) :=
  nthIsWord_follows (fun _ _ _ => clear_zero _) text

theorem atKeyword_follows (k : Keyword) : S.Follows s p id (atKeyword k) (atKeyword k) :=
  nthIsKeyword_follows (fun _ _ _ => clear_zero _) k

/-- Where a word stands is so many words further on. -/
theorem mark_follows : S.Follows s p (· + S.words) mark mark := by
  refine ⟨fun c => (mark_yields c).imp fun _ _ post => .ofSame post.2, fun c c' twins live _ =>
    (mark_steps c).imp fun x d first => (mark_steps c').imp fun y d' second _ => ?_⟩
  obtain ⟨rfl, m, rfl⟩ := first
  obtain ⟨rfl, m', rfl⟩ := second
  exact .ofFirm ⟨twins.skipGap.looks m m', live, twins.passed⟩

/-- The end is found alike: while words follow, a semicolon of the run is still to come. -/
theorem atEnd_follows : S.Follows .firm p id atEnd atEnd := by
  refine ⟨fun c => (atEnd_answers c).imp fun _ _ post => .ofSame post.2,
    fun c c' twins live _ => ?_⟩
  intro x d run y d' run' _
  cases run
  cases run'
  refine ⟨twins.skipGap, live, ?_⟩
  show (c'.rest.isEmpty || c'.refused.isSome) = (c.rest.isEmpty || c.refused.isSome)
  rw [twins.isEmpty live, twins.refused]

/-- A line break is found alike once something was read. -/
theorem onFreshLine_follows : S.Follows .firm .begun id onFreshLine onFreshLine := by
  refine ⟨fun c => (onFreshLine_answers c).imp fun _ _ post => .ofSame post.2,
    fun c c' twins live begun => ?_⟩
  intro x d run y d' run' _
  cases run
  cases run'
  exact ⟨twins.skipGap, live, congrArg (·.any Word.freshLine) (twins.head? live begun)⟩

/-- Whether the budget is spent is told alike. -/
theorem isRefused_follows : S.Follows .firm p id isRefused isRefused := by
  refine ⟨fun c => (isRefused_answers c).imp fun _ _ post => .ofSame post.2,
    fun c c' twins live _ => ?_⟩
  intro x d run y d' run' _
  cases run
  cases run'
  exact ⟨twins, live, congrArg Option.isSome twins.refused⟩

/-- Whether a block is open is told alike. -/
theorem inBlock_follows : S.Follows .firm p id inBlock inBlock where
  onward := fun c => .get (.pure (.refl c))
  twin := fun _ _ twins live _ => .get (.pure (.get (.pure fun _ => ⟨twins, live, twins.inBlock⟩)))

/-- A checkpoint is so many parts further on. -/
theorem checkpoint_follows :
    S.Follows .firm p (· + S.parts.length) checkpoint checkpoint := by
  have steps (c : Cursor) : Yields checkpoint c fun x d =>
      x = c.skipGap.placeGap.parts.size ∧ d = c.skipGap.placeGap := fun x d run => by
    cases run
    exact ⟨rfl, rfl⟩
  refine ⟨fun c => (steps c).imp fun _ _ post => ?_,
    fun c c' twins live _ => (steps c).imp fun x d first => (steps c').imp fun y d' second _ => ?_⟩
  · have looked : Onward c c.skipGap := .ofSame ⟨_, _, _, rfl⟩
    exact post.2 ▸ looked.trans (.placeGap _)
  · obtain ⟨rfl, rfl⟩ := first
    obtain ⟨rfl, rfl⟩ := second
    exact ⟨twins.skipGap.placeGap, live, twins.skipGap.placeGap.size⟩

/-! ### Reading -/

/-- The cursor once a word is paid for. -/
def Cursor.paid (c : Cursor) : Cursor :=
  match c.budget.words with
  | none => c
  | some 0 => { c with refused := c.refused.or (some .words) }
  | some (n + 1) => { c with budget.words := some n }

/-- Paying for a word, as a function of the cursor. -/
theorem payWord_steps (c : Cursor) : Yields payWord c fun _ d => d = c.paid := by
  intro x d run
  have whole : payWord.run c = .ok ((), c.paid) := by
    unfold Cursor.paid
    cases words : c.budget.words with
    | none => simp [payWord, words]; rfl
    | some n => cases n <;> simp [payWord, refuse, words] <;> rfl
  cases whole.symm.trans run
  rfl

/-- Paying takes no word. -/
theorem Cursor.rest_paid (c : Cursor) : c.paid.rest = c.rest := by
  unfold paid
  split <;> rfl

/-- Both runs pay. -/
theorem Setting.Twin.paid {c' : Cursor} (h : S.Twin c c') : S.Twin c.paid c'.paid := by
  have same := h.budget
  unfold Cursor.paid
  rw [same]
  split
  · exact h
  · exact { h with budget := rfl, refused := congrArg (Option.or · (some .words)) h.refused }
  · exact { h with budget := rfl }

/-- Reading under a label, as an equation. -/
theorem takeAs_steps (label : LeafKind) (c : Cursor) : Yields (takeAs label) c fun _ d =>
    ∃ looks w ws, c.rest = w :: ws ∧
      d = Cursor.read (Cursor.paid { c.skipGap with looks }) label := by
  refine (peek_steps 0 c).bind fun found d post => ?_
  obtain ⟨rfl, looks, rfl⟩ := post
  refine .ite (fun _ => (Yields.throw _).bind fun _ _ none => none) fun some => ?_
  refine (payWord_steps _).bind fun _ e paid => .modify ?_
  cases rest : c.rest with
  | nil => simp [rest] at some
  | cons w ws => exact ⟨looks, w, ws, rfl, congrArg (Cursor.read · label) paid⟩

/-- Behind a word that was read no gap was looked at yet. -/
theorem bump_ahead (c : Cursor) : Yields bump c fun _ d => d.gap = .ahead :=
  (current_answers c).bind fun _ d _ => (takeAs_steps _ d).imp fun _ _ took => by
    obtain ⟨_, _, _, -, rfl⟩ := took
    rfl

/-- The word that is read is gone from what is left. -/
theorem Cursor.rest_read {w : Word} {ws : List Word} (current : c.rest = w :: ws) (looks : Nat)
    (label : LeafKind) : (Cursor.read (Cursor.paid { c.skipGap with looks }) label).rest = ws := by
  simp [Cursor.read, Cursor.placeGap, Cursor.rest_paid, Cursor.skipGap, current]

/-- A word that is read may be the last one. -/
theorem takeAs_final (label : LeafKind) : S.Follows .final p id (takeAs label) (takeAs label) := by
  refine ⟨fun c => (takeAs_yields label c).imp fun _ _ ⟨_, took⟩ => .ofTook took,
    fun c c' twins live _ => (takeAs_steps label c).imp fun x d first =>
      (takeAs_steps label c').imp fun y d' second _ => ?_⟩
  obtain ⟨m, w, ws, current, rfl⟩ := first
  obtain ⟨m', -, -, -, rfl⟩ := second
  have paid : Cursor.rest (Cursor.paid { c.skipGap with looks := m }) = w :: ws := by
    rw [Cursor.rest_paid]
    exact current
  refine ⟨(twins.skipGap.looks m m').paid.read paid label, ?_, rfl⟩
  rw [Cursor.rest_read current]
  rcases live with none | sealed
  · exact .inl (.inl none)
  rcases (current ▸ sealed).tail with ⟨none, -⟩ | sealed
  · exact .inr ⟨none, rfl⟩
  · exact .inl (.inr sealed)

/-- A word that ends no statement is not the last one. -/
theorem takeAs_follows (label : LeafKind) :
    S.Follows s .goesOn id (takeAs label) (takeAs label) := by
  refine .weaken ⟨(takeAs_final (S := S) (p := .any) label).onward, fun c c' twins live inner => ?_⟩
  have ends := (takeAs_final (p := .any) label).twin c c' twins live trivial
  intro x d run y d' run' settled
  obtain ⟨twin, stays, same⟩ := ends x d run y d' run' settled
  refine ⟨twin, ?_, same⟩
  obtain ⟨m, w, ws, current, rfl⟩ := takeAs_steps label c x d run
  rw [Cursor.rest_read current]
  refine live.imp id fun sealed => (current ▸ sealed).tail.resolve_left fun last => ?_
  exact inner 0 Nat.zero_lt_one (by rw [kindIn, current]; exact congrArg some last.2)

/-- What holds behind the first word holds where the next rule is entered. -/
theorem Setting.Follows.behindWord {t t' : Rule Unit} {r : Rule α} {r' : Rule β} {q : Entry}
    {φ : α → β} (one : ∀ c, Yields t c fun _ d => ∃ w label, Took label w c d)
    (read : S.Follows .firm p id t t')
    (onto : ∀ ws n, p ws n → q ws.tail (n + 1)) (next : S.Follows s q φ r r') :
    S.Follows s p φ (t >>= fun _ => r) (t' >>= fun _ => r') := by
  refine read.bindTo (fun c entry => (one c).imp fun _ d post => ?_) fun _ => next
  obtain ⟨w, label, took⟩ := post
  have behind := onto _ _ entry
  rwa [took.rest, ← took.passed] at behind

/-- A keyword that is read is no semicolon, so words are left to come. -/
theorem takeKeyword_follows (k : Keyword) :
    S.Follows s .goesOn id (takeKeyword k) (takeKeyword k) := takeAs_follows _

/-- The last word of a statement is read alike. -/
theorem bump_final : S.Follows .final p id bump bump :=
  current_follows.bind fun _ => takeAs_final _

/-- A word before the last is read alike. -/
theorem bump_follows : S.Follows s .goesOn id bump bump :=
  current_follows.ask current_answers fun _ => (takeAs_follows _).given fun _ _ h => h.1

theorem bumpKeyword_follows : S.Follows s .goesOn id bumpKeyword bumpKeyword :=
  currentText_follows.ask currentText_answers fun _ => (takeAs_follows _).given fun _ _ h => h.1

/-- A word of another kind is no semicolon. -/
theorem goesOn_of_found {kind : TokenKind} (other : kind ≠ .semicolon) {ws : List Word} {n : Nat}
    (found : (kindIn ws 0 == some kind) = true) : Entry.goesOn ws n :=
  Entry.goesOn_of_current other (n := n) (eq_of_beq found)

/-- An identifier is no semicolon. -/
theorem goesOn_of_spelt {ws : List Word} {n : Nat} {text : String}
    (found : spells ws 0 text = true) : Entry.goesOn ws n :=
  Entry.goesOn_of_current (by decide) (n := n) (kindIn_of_spells found)

/-- A word is asked for that is no semicolon. -/
theorem eat_follows {kind : TokenKind} (other : kind ≠ .semicolon) :
    S.Follows .firm p id (eat kind) (eat kind) := by
  refine (currentIs_follows kind).branch (currentIs_answers kind) ?_ (.pure rfl)
  exact (bump_follows.given fun _ _ h => goesOn_of_found other h.2).bind fun _ => .pure rfl

/-- A keyword is asked for. -/
theorem eatKeyword_follows (k : Keyword) :
    S.Follows .firm p id (eatKeyword k) (eatKeyword k) := by
  refine (atKeyword_follows k).branch (atKeyword_answers k) ?_ (.pure rfl)
  exact ((takeKeyword_follows k).given fun _ _ h => goesOn_of_spelt h.2).bind fun _ => .pure rfl

/-! ### Nodes -/

variable {kind : NodeKind} {body body' : Rule Unit}

/-- Both runs close a node that is not the source. -/
theorem Setting.Ends.closeNode {e e' : Cursor} {same : Prop} (h : S.Ends s e e' same)
    (inner : kind ≠ .sourceFile) {first : Nat} {os : List Opened}
    (opened : e.opened = ⟨kind, first⟩ :: os) {o' : Opened} {os' : List Opened}
    (opened' : e'.opened = o' :: os') :
    S.Ends s (e.closeNode kind first) (e'.closeNode o'.kind o'.first) same := by
  have close (twin : S.Twin e e') :
      S.Twin (e.closeNode kind first) (e'.closeNode o'.kind o'.first) := by
    have heads := twin.opened
    rw [opened, opened', List.map_cons, Opened.shift_of_ne inner] at heads
    obtain ⟨rfl, -⟩ := List.cons.inj heads
    exact twin.closeNode kind first
  cases s with
  | firm => exact ⟨close h.1, h.2⟩
  | final => exact ⟨close h.1, h.2⟩
  | loose => exact Or.imp (fun h => ⟨close h.1, h.2⟩) id h

/-- How a rule that puts a node around `body`, begun at `o`, comes back from `c`. -/
def Surrounds (r body : Rule Unit) (c o : Cursor) : Prop :=
  ∀ Q : Cursor → Prop, (Yields body o fun _ e => Q e) → Yields r c fun _ d =>
    ∃ n ns e, Q e ∧ e.opened = n :: ns ∧ d = e.closeNode n.kind n.first

/-- A node that begins at an earlier point surrounds its body. -/
theorem nodeAt_surrounds (point : Checkpoint) (kind : NodeKind) (body : Rule Unit) (c : Cursor) :
    Surrounds (nodeAt point kind body) body c (c.openNode kind point) := fun _ h =>
  (nodeAt_yields h).imp fun _ _ ⟨e, n, ns, post, opened, eq⟩ => ⟨n, ns, e, post, opened, eq⟩

/-- A node that begins here surrounds its body. -/
theorem node_surrounds (kind : NodeKind) (body : Rule Unit) (c : Cursor) :
    Surrounds (node kind body) body c (c.placeGap.openNode kind c.placeGap.parts.size) := fun _ h =>
  (node_yields h).imp fun _ _ ⟨e, n, ns, post, opened, eq⟩ => ⟨n, ns, e, post, opened, eq⟩

/-- Nodes that are begun at twins are closed at twins. -/
theorem Surrounds.ends {r r' : Rule Unit} {c' o o' : Cursor} (around : Surrounds r body c o)
    (around' : Surrounds r' body' c' o') (inner : kind ≠ .sourceFile)
    (h : S.Follows s p id body body')
    (twins : S.Twin o o') (live : S.Live o.rest) (entry : p o.rest o.passed) {first : Nat}
    {os : List Opened} (opened : o.opened = ⟨kind, first⟩ :: os) :
    Yields r c fun x d => Yields r' c' fun y d' => S.Settled d → S.Ends s d d' (y = id x) := by
  have both : Yields body o fun _ e => Onward o e ∧ Yields body' o' fun y e' =>
      S.Settled e → S.Ends s e e' True := fun x e run =>
    ⟨h.onward o x e run, (h.twin o o' twins live entry x e run).imp fun _ _ ends settled =>
      (ends settled).imp fun _ => trivial⟩
  refine (around _ both).imp fun _ d closed => ?_
  obtain ⟨n, ns, e, ⟨onward, next⟩, top, rfl⟩ := closed
  obtain ⟨rfl, rfl⟩ := List.cons.inj ((top.symm.trans onward.opened).trans opened)
  refine (around' _ next).imp fun _ d' closed' settled => ?_
  obtain ⟨n', ns', e', ends, top', rfl⟩ := closed'
  have between : S.Settled e := settled.imp id fun tidy =>
    ⟨tidy.complaints, tidy.lastPlace, tidy.refused⟩
  exact ((ends between).closeNode inner top top').imp fun _ => rfl

/-- A node that begins at a checkpoint begins behind the parts of the setting. -/
theorem nodeAt_follows (inner : kind ≠ .sourceFile) (point : Checkpoint)
    (h : S.Follows s p id body body') :
    S.Follows s p id (nodeAt point kind body) (nodeAt (point + S.parts.length) kind body') where
  onward := fun c => (nodeAt_yields (h.onward (c.openNode kind point))).imp
    fun _ _ ⟨_, _, _, onward, _, eq⟩ => eq ▸ onward.closeNode
  twin := fun c c' twins live entry =>
    (nodeAt_surrounds point kind body c).ends (nodeAt_surrounds _ kind body' c') inner h
      (twins.openNode inner point) live entry rfl

/-- A node begins where its first part comes. -/
theorem node_follows (inner : kind ≠ .sourceFile) (h : S.Follows s p id body body') :
    S.Follows s p id (node kind body) (node kind body') where
  onward := fun c => (node_yields (h.onward _)).imp
    fun _ _ ⟨_, _, _, onward, _, eq⟩ => eq ▸ (Onward.placeGap c).trans onward.closeNode
  twin := fun c c' twins live entry => by
    have opened := twins.placeGap.openNode inner c.placeGap.parts.size
    rw [← twins.placeGap.size] at opened
    exact (node_surrounds kind body c).ends
      (node_surrounds kind body' c') inner h opened live entry rfl

/-! ### Choices -/

variable {t : Rule Bool} {v : List Word → Bool}

/-- A body is read if its test holds, and the test is asked alike. -/
theorem whenever_follows (h : S.Follows .firm p id t t) (answers : Answers t fun ws _ => v ws)
    (yes : S.Follows s (fun ws n => p ws n ∧ v ws = true) id body body') :
    S.Follows s p id (whenever t body) (whenever t body') :=
  h.branch answers yes (.pure rfl)

/-- What comes behind something, if that is there. -/
theorem wheneverAny_follows (h : S.Follows .firm p id t t) (yes : S.Follows s .any id body body') :
    S.Follows s p id (whenever t body) (whenever t body') :=
  h.choose yes (.pure rfl)

/-- An optional part is entered at a word of its kind. -/
theorem optional_follows {kind : TokenKind} (h : S.Follows s (.current kind) id body body') :
    S.Follows s p id (optional kind body) (optional kind body') :=
  whenever_follows (currentIs_follows kind) (currentIs_answers kind)
    (h.given fun _ _ found => eq_of_beq found.2)

/-- A rule that is entered at a word of the kind, or not at all. -/
theorem assertAt_follows {kind : TokenKind} {r r' : Unit → Rule Unit}
    (h : S.Follows s (.current kind) id (r ()) (r' ())) :
    S.Follows s .any id (assertAt kind >>= r) (assertAt kind >>= r') := by
  unfold assertAt
  rw [bind_assoc, bind_assoc]
  refine current_follows.ask current_answers fun k => ?_
  by_cases here : k = some kind
  · simp only [here, ne_eq, not_true_eq_false, if_false]
    exact h.given fun _ _ found => found.2
  · simp only [here, ne_eq, not_false_eq_true, if_true]
    exact .throw _

/-! ### Complaining -/

/-- A complaint is made at the same word, counted from where the words begin. -/
theorem complain_follows {k k' : Nat → Option Nat → Complaint}
    (same : ∀ i e, k' (i + S.words) (e.map (· + S.words)) = (k i e).shift S.words) :
    S.Follows s p id (complain k) (complain k') := by
  refine .spoilt ?_ (complain_spoils k)
  refine mark_follows.bind fun i => .modify (fun c => ?_) (fun c => ?_) fun c c' twins => ?_
  · split
    · exact .refl c
    · exact ⟨rfl, rfl, id, Nat.le_refl _, fun tidy => (nomatch tidy.lastPlace), id⟩
  · split <;> rfl
  · have places : c'.lastPlace = some (i + S.words) ↔ c.lastPlace = some i := by
      rw [twins.lastPlace]
      cases c.lastPlace <;> simp
    have enclosing : c'.openers.head?.map Opener.word =
        (c.openers.head?.map Opener.word).map (· + S.words) := by
      rw [twins.openers]
      cases c.openers <;> rfl
    simp only [places]
    split
    · exact twins
    · rw [enclosing, same]
      exact twins.note _

/-- A complaint is made at the place that corresponds. -/
theorem error_follows (kind : DiagnosticKind) : S.Follows s p id (error kind) (error kind) :=
  complain_follows fun _ _ => rfl

theorem errorWith_follows (kind : DiagnosticKind) (detail : String) :
    S.Follows s p id (errorWith kind detail) (errorWith kind detail) :=
  complain_follows fun _ _ => rfl

/-- A missing semicolon is complained of alike. -/
theorem errorNoSemicolon_follows : S.Follows s p id errorNoSemicolon errorNoSemicolon :=
  complain_follows fun _ _ => rfl

/-- An unclosed delimiter is pointed to at the place that corresponds. -/
theorem errorUnclosed_follows (kind : DiagnosticKind) (note : String) (opener : Nat) :
    S.Follows s p id (errorUnclosed kind note opener)
      (errorUnclosed kind note (opener + S.words)) :=
  complain_follows fun _ _ => rfl

/-- A word is read as an error in both places. -/
theorem bumpAsError_follows : S.Follows .loose p id bumpAsError bumpAsError := by
  have choice : bumpAsError = (Option.isSome <$> peek 0) >>= fun found =>
      if found = true then node .error bump else pure () := by
    rw [bind_map_left]
    rfl
  have found : S.Follows .firm p id (Option.isSome <$> peek 0) (Option.isSome <$> peek 0) :=
    peek_follows (fun _ _ _ => clear_zero _) fun u v same => by cases u <;> cases v <;> simp_all
  rw [choice]
  exact found.choose (node_follows (by decide) bump_final).loosen (.pure rfl)

/-- Behind a complaint nothing ends tidy. -/
theorem Onward.spoils {r : Rule α} {f : α → Rule β} (h : ∀ c, Yields r c fun _ d => ¬d.Tidy)
    (next : ∀ x c, Yields (f x) c fun _ d => Onward c d) (c : Cursor) :
    Yields (r >>= f) c fun _ d => ¬d.Tidy :=
  (h c).bind fun x d untidy => (next x d).imp fun _ _ onward tidy => untidy (onward.tidy tidy)

/-- Rules that a complaint is made before. -/
theorem Setting.Follows.behindError {kind : DiagnosticKind} {detail : Option String} {φ : α → β}
    {f : Unit → Rule α} {f' : Unit → Rule β} (next : ∀ x, S.Follows .loose .any φ (f x) (f' x)) :
    S.Follows s p φ (complain (.here kind detail) >>= f) (complain (.here kind detail) >>= f') :=
  .spoilt ((complain_follows fun _ _ => rfl).bind next)
    (Onward.spoils (complain_spoils _) fun x => (next x).onward)

/-- A word is complained of and read. -/
theorem errorAndBump_follows (kind : DiagnosticKind) (detail : String) :
    S.Follows s p id (errorAndBump kind detail) (errorAndBump kind detail) :=
  .behindError fun _ => bumpAsError_follows

/-- A word is read or complained of. -/
theorem expect_follows {kind : TokenKind} (other : kind ≠ .semicolon) (what : String) :
    S.Follows .firm p id (expect kind what) (expect kind what) :=
  (eat_follows other).choose (.pure rfl) (.behindError fun _ => .pure rfl)

/-! ### Nesting -/

/-- Entering a level: the depth, or the complaint that it is too great. -/
theorem descend_steps (c : Cursor) : Yields descend c fun b d =>
    if c.budget.nesting.any (· ≤ c.depth) = true then
      b = false ∧ d = { c with refused := c.refused.or (some .nesting) }
    else b = true ∧ d = { c with depth := c.depth + 1, looks := lookLimit } := by
  refine .get (.ite (fun spent => ?_) fun free => ?_)
  · intro x d run
    cases run
    rw [if_pos spent]
    exact ⟨rfl, rfl⟩
  · intro x d run
    cases run
    rw [if_neg free]
    exact ⟨rfl, rfl⟩

/-- Going deeper is no step in the words. -/
theorem descend_keeps (entry : p c.rest c.passed) :
    Yields descend c fun _ d => p d.rest d.passed := by
  refine (descend_steps c).imp fun b d post => ?_
  split at post <;> exact post.2 ▸ entry

/-- A level is entered in both places or in neither. -/
theorem descend_follows : S.Follows .firm p id descend descend := by
  refine ⟨fun c => (descend_steps c).imp fun b d post => ?_, fun c c' twins live _ =>
    (descend_steps c).imp fun b d first => (descend_steps c').imp fun b' d' second _ => ?_⟩
  · split at post
    · obtain ⟨-, rfl⟩ := post
      refine ⟨rfl, rfl, id, Nat.le_refl _, fun tidy => absurd tidy.refused ?_, id⟩
      cases c.refused <;> simp
    · obtain ⟨-, rfl⟩ := post
      exact .ofSame ⟨_, _, _, rfl⟩
  · have spent : c'.budget.nesting.any (· ≤ c'.depth) = c.budget.nesting.any (· ≤ c.depth) := by
      rw [twins.budget]
      rcases twins.depth with free | same
      · simp [free]
      · rw [same]
    rw [spent] at second
    split at first
    next refused =>
      rw [if_pos refused] at second
      obtain ⟨rfl, rfl⟩ := first
      obtain ⟨rfl, rfl⟩ := second
      have refused := congrArg (Option.or · (some Limit.nesting)) twins.refused
      exact ⟨{ twins with refused }, live, rfl⟩
    next free =>
      rw [if_neg free] at second
      obtain ⟨rfl, rfl⟩ := first
      obtain ⟨rfl, rfl⟩ := second
      exact ⟨{ twins with depth := twins.depth.imp id (congrArg (· + 1)) }, live, rfl⟩

theorem ascend_follows : S.Follows s p id ascend ascend :=
  .modify (fun _ => .ofSame ⟨_, _, _, rfl⟩) (fun _ => rfl) fun _ _ twins =>
    { twins with depth := twins.depth.imp id (congrArg (· - 1)) }

/-! ### Loops -/

section

variable {σ τ : Type} {φ : σ → τ}

/-- A turn, with its state put through a function. -/
def Turn.map (φ : σ → τ) : Turn σ → Turn τ
  | .again x => .again (φ x)
  | .done x => .done (φ x)

/-- Rules that go round, or nest, as often as there are words. -/
theorem Setting.Follows.bounded {φ : α → β} {f : Nat → Rule α} {f' : Nat → Rule β}
    (h : ∀ n m, S.Follows s p φ (f n) (f' m)) :
    S.Follows s p φ (do f ((← get).total + 1)) (do f' ((← get).total + 1)) where
  onward := fun c => .get ((h _ 0).onward c)
  twin := fun c c' twins live entry => .get fun x d run => .get
    ((h (c.total + 1) (c'.total + 1)).twin c c' twins live entry x d run)

/-- Where one of two rules has spent its bound. -/
theorem Setting.Follows.outOfBound {φ : α → β} {r : Rule α} {t : Rule β} (b : Breach)
    (h : S.Follows s p φ r t) : S.Follows s p φ r (MonadExcept.throw b) :=
  ⟨h.onward, fun _ _ _ _ _ _ _ _ => .throw b⟩

/-- Loops go round together, whatever bounds they have. -/
theorem rounds_follows {step : σ → Rule (Turn σ)} {step' : τ → Rule (Turn τ)} (inner : s ≠ .final)
    (turn : ∀ x, S.Follows s .any (Turn.map φ) (step x) (step' (φ x))) (n m : Nat) (x : σ) :
    S.Follows s .any φ (rounds step n x) (rounds step' m (φ x)) := by
  induction n generalizing m x with
  | zero => exact .throw _
  | succ n ih =>
    have more (m : Nat) :
        S.Follows s .any φ (rounds step (n + 1) x) (rounds step' (m + 1) (φ x)) := by
      refine (turn x).bindSame inner fun t => ?_
      cases t with
      | again y => exact ih m y
      | done y => exact .pure rfl
    cases m with
    | zero => exact (more 0).outOfBound _
    | succ m => exact more m

/-- Loops are alike if their turns are, and they go on while words are left. -/
theorem loop_follows {step : σ → Rule (Turn σ)} {step' : τ → Rule (Turn τ)} (inner : s ≠ .final)
    (turn : ∀ x, S.Follows s .any (Turn.map φ) (step x) (step' (φ x))) (x : σ) :
    S.Follows s p φ (loop x step) (loop (φ x) step') :=
  .bounded fun n m => (rounds_follows inner turn n m x).anywhere

/-- Repetitions are alike if their turns are. -/
theorem repeatWhile_follows {turn turn' : Rule Bool} (inner : s ≠ .final)
    (h : S.Follows s .any id turn turn') :
    S.Follows s p id (repeatWhile turn) (repeatWhile turn') := by
  refine loop_follows inner (fun _ => h.bindSame inner fun b => ?_) ()
  cases b <;> exact .pure rfl

end

/-! ### Delimiters -/

/-- Remembering a delimiter, as an equation. -/
theorem pushOpener_steps (kind : TokenKind) (c : Cursor) : Yields (pushOpener kind) c fun _ d =>
    ∃ looks, d = { c.skipGap with looks, openers := ⟨kind, c.passed⟩ :: c.openers } := by
  refine (mark_steps c).bind fun i d marked => ?_
  obtain ⟨rfl, looks, rfl⟩ := marked
  exact .modify ⟨looks, rfl⟩

/-- Both runs forget the innermost delimiter. -/
theorem Setting.Ends.popOpener {e e' : Cursor} {same : Prop} (h : S.Ends s e e' same) :
    S.Ends s { e with openers := e.openers.tail } { e' with openers := e'.openers.tail } same := by
  cases s with
  | firm => exact ⟨h.1.popOpener, h.2⟩
  | final => exact ⟨h.1.popOpener, h.2⟩
  | loose => exact Or.imp (fun h => ⟨h.1.popOpener, h.2⟩) id h

/-- The opener is known while `body` is read, and forgotten behind it. -/
theorem inside_follows {kind : TokenKind} (other : kind ≠ .semicolon)
    (h : S.Follows s .any id body body') :
    S.Follows s (.current kind) id (inside kind body) (inside kind body') := by
  have read : S.Follows s (.current kind) id (do bump; body) (do bump; body') :=
    (bump_follows.given fun _ _ => Entry.goesOn_of_current other).bind fun _ => h
  have text (body : Rule Unit) : inside kind body =
      pushOpener kind >>= fun _ => (do bump; body) >>= fun _ => popOpener := by
    simp only [inside, bind_assoc]
  rw [text body, text body']
  refine ⟨fun c => ?_, fun c c' twins live entry => ?_⟩
  · refine (pushOpener_steps kind c).bind fun _ d pushed => ?_
    obtain ⟨looks, rfl⟩ := pushed
    refine (read.onward _).bind fun _ e onward => .modify ?_
    refine { onward with openers := ?_, tidy := fun tidy => ?_ }
    · simp [onward.openers]
    · have began := onward.tidy ⟨tidy.complaints, tidy.lastPlace, tidy.refused⟩
      exact ⟨began.complaints, began.lastPlace, began.refused⟩
  · intro x d run y d' run' settled
    obtain ⟨_, b, push, more⟩ := run_bind_eq_ok run
    obtain ⟨_, e, inner, pop⟩ := run_bind_eq_ok more
    obtain ⟨_, b', push', more'⟩ := run_bind_eq_ok run'
    obtain ⟨_, e', inner', pop'⟩ := run_bind_eq_ok more'
    obtain ⟨m, rfl⟩ := pushOpener_steps kind c _ b push
    obtain ⟨m', rfl⟩ := pushOpener_steps kind c' _ b' push'
    have pushed := (twins.skipGap.looks m m').pushOpener ⟨kind, c.passed⟩
    rw [Opener.shift, ← twins.passed] at pushed
    cases pop
    cases pop'
    have between : S.Settled e := settled.imp id fun tidy =>
      ⟨tidy.complaints, tidy.lastPlace, tidy.refused⟩
    have ends := read.twin _ _ pushed live entry _ e inner _ e' inner' between
    exact ends.popOpener.imp fun _ => rfl

/-- Whoever comes to the end of the words misses the closer. -/
theorem closer_strict (m : Delimiters) (opener : Nat) (none : c.rest = []) :
    Yields (do
      if !(← eat m.closer) && !(m.excused && (← isRefused)) then
        errorUnclosed m.unclosed m.note opener)
      c fun _ d => ¬d.Tidy := by
  refine (eat_yields m.closer c).bind fun b d eaten =>
    (isRefused_answers d).bind fun spent e asked => ?_
  obtain ⟨rfl, same⟩ := asked
  obtain rfl : b = false := by
    cases b with
    | false => rfl
    | true =>
      obtain ⟨w, -, took⟩ := eaten
      cases none.symm.trans took.rest
  refine .ite (fun _ => complain_spoils _ e) fun excused => .pure fun tidy => ?_
  have kept := (same.tidy tidy).refused
  simp [kept] at excused

/-- What is between delimiters may run to the end of the words; the delimiters are within. -/
theorem delimited_follows {m : Delimiters} {turn turn' : Rule Bool} (opener : m.opener ≠ .semicolon)
    (closer : m.closer ≠ .semicolon) (h : S.Follows .loose .any id turn turn') :
    S.Follows s (.current m.opener) id (delimited m turn) (delimited m turn') := by
  refine mark_follows.bindTo (q := .current m.opener)
    (fun c here => (mark_yields c).imp fun _ d post => ?_) fun i => ?_
  · obtain ⟨-, _, _, _, rfl⟩ := post
    exact here
  refine (inside_follows opener (repeatWhile_follows (by decide) h)).bindStrict
    (fun _ => ?_) fun _ c => closer_strict m i
  refine (eat_follows closer).bind fun closed => isRefused_follows.bind fun spent => ?_
  exact .ite (fun _ => errorUnclosed_follows ..) fun _ => .pure rfl

/-- One item of a list, if its start is told alike. -/
theorem itemTurn_follows {closer : TokenKind} {starts : Rule Bool} {what : String}
    {item item' : Rule Unit} {v : List Word → Bool} (begins : S.Follows .firm .any id starts starts)
    (answers : Answers starts fun ws _ => v ws)
    (h : S.Follows .loose (fun ws _ => v ws = true) id item item') :
    S.Follows .loose .any id (itemTurn closer starts what item)
      (itemTurn closer starts what item') := by
  refine (atEnd_follows.or (currentIs_follows closer)).choose (.pure rfl) ?_
  refine begins.ask answers fun found => ?_
  cases found with
  | false => exact (errorAndBump_follows (s := .firm) _ _).bind fun _ => .pure rfl
  | true =>
    exact (h.given fun _ _ asked => asked.2).bindLoose fun _ => (eat_follows (by decide)).weaken

/-! ### The boundaries of statements -/

/-- Where a statement begins is told alike. -/
theorem atStatementStart_follows : S.Follows .firm .any id atStatementStart atStatementStart := by
  refine current_follows.ask current_answers fun kind => .ite (fun _ => .pure rfl) fun ident => ?_
  have ident : kind = some .ident := Classical.not_not.1 ident
  have next (f : Option TokenKind → Bool) : S.Follows .firm .goesOn id
      (kindAt 1 >>= fun k => pure (f k)) (kindAt 1 >>= fun k => pure (f k)) :=
    (kindAt_follows fun _ _ => id).bind fun _ => .pure rfl
  refine currentText_follows.ask currentText_answers fun text => .given (p := .goesOn) ?_
    fun ws n found => Entry.goesOn_of_current (by decide) (n := n) (found.1.2.trans ident)
  cases Keyword.ofWord? text with
  | none => exact .pure rfl
  | some k =>
    cases k with
    | kwAbstract => exact nthIsWord_follows (fun _ _ => id) "class"
    | kwGlobal => exact nextIs_follows .braceOpen
    | kwVar | kwLet | kwConst | kwFunction | kwModule | kwImport => exact next _
    | kwDeclare | kwInterface | kwEnum | kwType | kwNamespace | kwClass =>
        exact nextIs_follows .ident
    | kwExport | kwDefault | kwFrom | kwAs | kwExtends | kwImplements | kwRequire => exact .pure rfl

/-- A statement ends behind its semicolon or before a word that is still there. -/
theorem expectSemicolon_follows : S.Follows .final .begun id expectSemicolon expectSemicolon := by
  have text : expectSemicolon = (currentIs .semicolon >>= fun found =>
      if found = true then bump
      else (atEnd <||> currentIs .braceClose <||> onFreshLine) >>= fun ends =>
        if ends = true then pure () else errorNoSemicolon) := by
    unfold expectSemicolon eat
    rw [bind_assoc]
    refine bind_congr fun found => ?_
    cases found <;> simp
  rw [text]
  refine (currentIs_follows .semicolon).branch (currentIs_answers .semicolon) bump_final ?_
  have ends : S.Follows .firm .begun id (atEnd <||> currentIs .braceClose <||> onFreshLine)
      (atEnd <||> currentIs .braceClose <||> onFreshLine) :=
    atEnd_follows.orAt atEnd_answers
      ((currentIs_follows .braceClose).orAt (currentIs_answers .braceClose) onFreshLine_follows)
  exact (ends.given fun _ _ h => h.1).choose (.pure rfl) errorNoSemicolon_follows

end ImplicitGlobals.Grammar
