import ImplicitGlobals.Proofs.Grammar.Logic

/-!
# The steps of a rule

What the operations of the cursor do, in the logic of rules: looking, reading,
complaining, building and going round.
-/

namespace ImplicitGlobals.Grammar

variable {α β : Type} {c d : Cursor}

/-- The kind of the word `n` places on. -/
def kindIn (ws : List Word) (n : Nat) : Option TokenKind := ws[n]?.map (·.kind)

/-- Whether the word `n` places on is the identifier `text`. -/
def spells (ws : List Word) (n : Nat) (text : String) : Bool := ws[n]?.any (·.isWord text)

/-- Behind the current word every place is one less. -/
theorem kindIn_tail (ws : List Word) (n : Nat) : kindIn ws.tail n = kindIn ws (n + 1) := by
  simp [kindIn]

/-- The spelling of a later word, seen from one word on. -/
theorem spells_tail (ws : List Word) (n : Nat) (text : String) :
    spells ws.tail n text = spells ws (n + 1) text := by
  simp [spells]

/-! ### Looking -/

/-- The cursor after one look. -/
def Cursor.looked (c : Cursor) : Cursor := { c.skipGap with looks := c.looks - 1 }

/-- After a look the gap is behind the cursor. -/
theorem Cursor.gap_looked (c : Cursor) : c.looked.gap ≠ .ahead := by
  cases h : c.gap <;> simp [looked, skipGap, Gap.skipped, h]

/-- A gap that was looked over is placed by asking for it. -/
theorem Cursor.gap_placeGap (c : Cursor) (looked : c.gap ≠ .ahead) : c.placeGap.gap = .placed := by
  cases h : c.gap <;> simp_all [placeGap, Gap.settled]

/-- A look counts down by one and changes nothing else. -/
theorem looked_looked (enough : 1 ≤ c.looks) : Looked 1 c c.looked where
  toAlike := ⟨rfl, rfl, rfl, rfl, rfl, rfl⟩
  walk := (Walk.skipGap c).trans (.count c.skipGap (c.looks - 1) c.budget c.depth c.refused)
  left := by simp only [Cursor.looked]; omega

/-- A look does not fail as long as looks are left. -/
theorem look_run (enough : 1 ≤ c.looks) : look.run c = .ok ((), c.looked) := by
  obtain ⟨n, left⟩ : ∃ n, c.looks = n + 1 := ⟨c.looks - 1, by omega⟩
  have run : look.run c = .ok ((), { c.skipGap with looks := n }) := by
    simp [look, skipGap, Cursor.skipGap, left]
    rfl
  rw [run, Cursor.looked, left, Nat.add_sub_cancel]

/-- Looking ahead comes back with the word, if looks are left. -/
theorem peek_run (n : Nat) (enough : 1 ≤ c.looks) : (peek n).run c = .ok (c.rest[n]?, c.looked) := by
  rw [peek, StateT.run_bind, look_run enough]
  rfl

/-- Looking ahead is a question about the words. -/
theorem peek_asks (n : Nat) : Asks 1 (peek n) fun ws _ => ws[n]? :=
  fun c enough => ⟨c.looked, peek_run n enough, looked_looked enough⟩

/-- The kind of a word ahead, for one look. -/
theorem kindAt_asks (n : Nat) : Asks 1 (kindAt n) fun ws _ => kindIn ws n :=
  (peek_asks n).map (Option.map Word.kind)

/-- The kind of the current word, for one look. -/
theorem current_asks : Asks 1 current fun ws _ => kindIn ws 0 := kindAt_asks 0

/-- Behind a test of the current word its gap is looked past. -/
theorem current_walks (c : Cursor) :
    Walks (.looks 1) current c fun k d => k = kindIn c.rest 0 ∧ Looked 1 c d ∧ d.gap ≠ .ahead := by
  intro _ sound need
  have looked := looked_looked (c := c) need
  have run : current.run c = .ok (kindIn c.rest 0, c.looked) := by
    rw [current, kindAt, StateT.run_bind, peek_run 0 need]
    rfl
  exact ⟨_, c.looked, run, looked.walk.sound sound, looked.covers, looked.walk, rfl, looked, c.gap_looked⟩

/-- The test for a kind, told as a walk. -/
theorem currentIs_walks (kind : TokenKind) (c : Cursor) :
    Walks (.looks 1) (currentIs kind) c fun b d =>
      b = (kindIn c.rest 0 == some kind) ∧ Looked 1 c d ∧ d.gap ≠ .ahead :=
  (current_walks c).bind (b := .free) fun _ _ _ post => .pure ⟨post.1 ▸ rfl, post.2⟩

theorem currentIs_asks (kind : TokenKind) :
    Asks 1 (currentIs kind) fun ws _ => kindIn ws 0 == some kind :=
  current_asks.map (· == some kind)

theorem currentIn_asks (set : KindSet) :
    Asks 1 (currentIn set) fun ws _ => (kindIn ws 0).any set.holds :=
  current_asks.map fun k : Option TokenKind => k.any set.holds

theorem currentText_asks : Asks 1 currentText fun ws _ => (ws[0]?.map (·.text)).getD "" :=
  (peek_asks 0).map fun w : Option Word => (w.map Word.text).getD ""

theorem nthIs_asks (n : Nat) (kind : TokenKind) :
    Asks 1 (nthIs n kind) fun ws _ => kindIn ws n == some kind :=
  (kindAt_asks n).map (· == some kind)

theorem nextIs_asks (kind : TokenKind) :
    Asks 1 (nextIs kind) fun ws _ => kindIn ws 1 == some kind := nthIs_asks 1 kind

/-- The spelling of a word ahead, for one look. -/
theorem nthIsWord_asks (n : Nat) (text : String) :
    Asks 1 (nthIsWord n text) fun ws _ => spells ws n text :=
  (peek_asks n).map fun w : Option Word => w.any fun v : Word => v.isWord text

theorem atWord_asks (text : String) : Asks 1 (atWord text) fun ws _ => spells ws 0 text :=
  nthIsWord_asks 0 text

theorem nthIsKeyword_asks (n : Nat) (k : Keyword) :
    Asks 1 (nthIsKeyword n k) fun ws _ => spells ws n k.word := nthIsWord_asks n k.word

theorem atKeyword_asks (k : Keyword) : Asks 1 (atKeyword k) fun ws _ => spells ws 0 k.word :=
  nthIsKeyword_asks 0 k

/-- The end is found without a look. -/
theorem atEnd_asks : Asks 0 atEnd fun ws l => ws.isEmpty || l.isSome := fun c _ =>
  ⟨c.skipGap, rfl, ⟨rfl, rfl, rfl, rfl, rfl, rfl⟩, .skipGap c, Nat.le_refl _⟩

/-- A line break is found without a look. -/
theorem onFreshLine_asks : Asks 0 onFreshLine fun ws _ => ws.head?.any (·.freshLine) := fun c _ =>
  ⟨c.skipGap, rfl, ⟨rfl, rfl, rfl, rfl, rfl, rfl⟩, .skipGap c, Nat.le_refl _⟩

theorem isRefused_asks : Asks 0 isRefused fun _ l => l.isSome := fun c _ =>
  ⟨c, rfl, .refl c⟩

/-- Where the cursor stands is asked for one look. -/
theorem mark_run (enough : 1 ≤ c.looks) : mark.run c = .ok (c.passed, c.looked) := by
  rw [mark, StateT.run_bind, look_run enough]
  rfl

/-- The same as a walk. -/
theorem mark_walks (c : Cursor) :
    Walks (.looks 1) mark c fun i d => i = c.passed ∧ Looked 1 c d := fun _ sound need =>
  have looked := looked_looked need
  ⟨_, c.looked, mark_run need, looked.walk.sound sound, looked.covers, looked.walk, rfl, looked⟩

/-- Whether a block is open is read off the delimiters. -/
theorem inBlock_walks (c : Cursor) : Walks .free inBlock c fun _ d => d = c := fun _ sound _ =>
  ⟨_, c, rfl, sound, Cost.covers_free c, .refl c, rfl⟩

/-! ### Reading -/

/-- The cursor behind the current word. -/
structure Advanced (c d : Cursor) : Prop where
  rest : d.rest = c.rest.tail
  passed : d.passed = c.passed + 1
  openers : d.openers = c.openers
  complaints : d.complaints = c.complaints

namespace Advanced

/-- The cursor is one word further. -/
theorem lt (h : Advanced c d) : c.passed < d.passed := by rw [h.passed]; omega

/-- Reading a word complains of nothing. -/
theorem floor (h : Advanced c d) : d.floor = c.floor := Cursor.floor_congr h.complaints

end Advanced

/-- Looking before a word is read makes no difference. -/
theorem Alike.advanced {e : Cursor} (h : Alike c d) (read : Advanced d e) : Advanced c e where
  rest := by rw [read.rest, h.rest]
  passed := by rw [read.passed, h.passed]
  openers := read.openers.trans h.openers
  complaints := read.complaints.trans h.complaints

/-- Paying for a word counts and does nothing else. -/
theorem payWord_run (c : Cursor) :
    ∃ budget refused, payWord.run c = .ok ((), { c with budget, refused }) := by
  cases h : c.budget.words with
  | none => exact ⟨c.budget, c.refused, by simp [payWord, h]; rfl⟩
  | some n =>
    cases n with
    | zero => exact ⟨c.budget, c.refused.or (some .words), by simp [payWord, refuse, h]; rfl⟩
    | succ n => exact ⟨{ c.budget with words := some n }, c.refused, by simp [payWord, h]; rfl⟩

/-- Reading under a label takes the current word off and pays for it. -/
theorem takeAs_run {w : Word} {ws : List Word} (label : LeafKind) (current : c.rest = w :: ws)
    (enough : 1 ≤ c.looks) : ∃ budget refused,
      (takeAs label).run c = .ok ((), { c.looked with budget, refused }.read label) := by
  obtain ⟨budget, refused, paid⟩ := payWord_run c.looked
  refine ⟨budget, refused, ?_⟩
  rw [takeAs, StateT.run_bind, peek_run 0 enough, current]
  change (payWord >>= fun _ => modify (·.read label)).run c.looked = _
  rw [StateT.run_bind, paid]
  rfl

/-- A word is read under a kind that it takes. -/
theorem takeAs_walks {w : Word} {ws : List Word} {label : LeafKind} (current : c.rest = w :: ws)
    (takes : w.Takes label) : Walks (.reads 1) (takeAs label) c fun _ d =>
      Advanced c d ∧ ∀ sort, sort (.leaf (.word c.passed label)) = true → Gains sort c d := by
  intro _ sound need
  obtain ⟨budget, refused, run⟩ := takeAs_run label current need
  have paid : Walk c { c.looked with budget, refused } :=
    (looked_looked need).walk.trans (.count c.looked c.looked.looks budget c.depth refused)
  have walk := paid.trans (.read c.gap_looked current takes)
  exact ⟨(), _, run, walk.sound sound, Cost.covers_reads 1 (Nat.le_refl _), walk, ⟨rfl, rfl, rfl, rfl⟩,
    fun _ is => .ofParts _ is ((Cursor.toList_parts_read _ label).trans (List.append_assoc ..))⟩

/-- The first of the words that are left. -/
theorem exists_of_kindIn {ws : List Word} {k : TokenKind} (h : kindIn ws 0 = some k) :
    ∃ w rest, ws = w :: rest ∧ w.kind = k := by
  cases ws with
  | nil => simp [kindIn] at h
  | cons w rest => exact ⟨w, rest, rfl, by simpa [kindIn] using h⟩

/-- A word that is spelt somehow is an identifier. -/
theorem kindIn_of_spells {ws : List Word} {n : Nat} {text : String} (h : spells ws n text = true) :
    kindIn ws n = some .ident := by
  obtain ⟨w, found, is⟩ := (Option.any_eq_true _ _).1 h
  simp_all [kindIn, Word.isWord]

/-- Where there is a word further on there is a current one. -/
theorem exists_kindIn {ws : List Word} {n : Nat} {k : TokenKind} (h : kindIn ws n = some k) :
    ∃ j, kindIn ws 0 = some j := by
  cases ws with
  | nil => simp [kindIn] at h
  | cons w rest => exact ⟨w.kind, rfl⟩

/-- A word spells one text only. -/
theorem eq_of_spells {ws : List Word} {n : Nat} {s t : String} (h : spells ws n s = true)
    (g : spells ws n t = true) : s = t := by
  obtain ⟨w, found, is⟩ := (Option.any_eq_true _ _).1 h
  obtain ⟨w', found', is'⟩ := (Option.any_eq_true _ _).1 g
  simp_all [Word.isWord]

/-- Where the end is not reached there is a word, and budget for it. -/
theorem exists_of_not_atEnd {ws : List Word} {l : Option Limit}
    (h : false = (ws.isEmpty || l.isSome)) : ∃ w rest, ws = w :: rest ∧ l = none := by
  cases ws with
  | nil => simp at h
  | cons w rest => exact ⟨w, rest, rfl, by simpa using h.symm⟩

/-- A word of some kind is there. -/
theorem ne_nil_of_kindIn {ws : List Word} {k : TokenKind} (h : kindIn ws 0 = some k) : ws ≠ [] := by
  obtain ⟨w, rest, rfl, -⟩ := exists_of_kindIn h
  exact List.cons_ne_nil w rest

/-- A spelt word is the head of what is left. -/
theorem exists_of_spells {ws : List Word} {text : String} (h : spells ws 0 text = true) :
    ∃ w rest, ws = w :: rest ∧ w.kind = .ident ∧ w.text = text := by
  cases ws with
  | nil => simp [spells] at h
  | cons w rest => exact ⟨w, rest, rfl, by simpa [spells, Word.isWord] using h⟩

/-- With two looks left a word that is there is read. -/
theorem bump_run {k : TokenKind} (current : kindIn c.rest 0 = some k) (enough : 2 ≤ c.looks) :
    ∃ budget refused, bump.run c =
      .ok ((), { c.looked.looked with budget, refused }.read (.token k)) := by
  obtain ⟨w, ws, rest, rfl⟩ := exists_of_kindIn current
  have left : 1 ≤ c.looked.looks := by simp only [Cursor.looked]; omega
  obtain ⟨budget, refused, run⟩ := takeAs_run (.token w.kind) (c := c.looked) rest left
  refine ⟨budget, refused, ?_⟩
  have kind : Grammar.current.run c = .ok (some w.kind, c.looked) := by
    rw [Grammar.current, kindAt, StateT.run_bind, peek_run 0 (by omega), rest]
    rfl
  rw [bump, StateT.run_bind, kind]
  exact run

/-- Reading the current word, told as a walk. -/
theorem bump_walks {k : TokenKind} (current : kindIn c.rest 0 = some k) :
    Walks (.reads 2) bump c fun _ d => Advanced c d := by
  obtain ⟨w, ws, rest, rfl⟩ := exists_of_kindIn current
  apply Walks.weaken
  · apply current_asks.walksOn
    intro d looked
    rw [current]
    apply (takeAs_walks (looked.rest.trans rest) .own).imp
    exact fun _ _ _ read => looked.toAlike.advanced read.1
  · decide

/-- Behind a gap that is in the tree the word is all that comes. -/
theorem bump_placed {k : TokenKind} (placed : c.gap = .placed) (current : kindIn c.rest 0 = some k) :
    Walks (.reads 2) bump c fun _ d =>
      Advanced c d ∧ d.parts.toList = c.parts.toList ++ [.leaf (.word c.passed (.token k))] := by
  intro peak sound need
  obtain ⟨_, d, run, sound', covers, walk, read⟩ := bump_walks current peak sound need
  refine ⟨(), d, run, sound', covers, walk, read, ?_⟩
  obtain ⟨budget, refused, run'⟩ := bump_run current need
  obtain ⟨-, rfl⟩ := Prod.mk.inj (Except.ok.inj (run.symm.trans run'))
  simp [Gap.due, Gap.skipped, Cursor.looked, Cursor.skipGap, placed]

/-- A keyword that is read is among the parts. -/
theorem takeKeyword_gains {k : Keyword} (current : spells c.rest 0 k.word = true) :
    Walks (.reads 1) (takeKeyword k) c fun _ d => Advanced c d ∧ Gains (Tree.isKeyword k) c d := by
  obtain ⟨w, ws, rest, ident, text⟩ := exists_of_spells current
  apply (takeAs_walks rest (.keyword ident (text ▸ Keyword.ofWord?_word k))).imp
  exact fun _ d _ read => ⟨read.1, read.2 _ (by simp [Tree.isKeyword])⟩

/-- A keyword is read where it was found. -/
theorem takeKeyword_walks {k : Keyword} (current : spells c.rest 0 k.word = true) :
    Walks (.reads 1) (takeKeyword k) c fun _ d => Advanced c d :=
  (takeKeyword_gains current).imp fun _ _ _ read => read.1

/-- An identifier is read as the keyword that it spells, or as what it is. -/
theorem bumpKeyword_walks (current : kindIn c.rest 0 = some .ident) :
    Walks (.reads 2) bumpKeyword c fun _ d => Advanced c d := by
  obtain ⟨w, ws, rest, ident⟩ := exists_of_kindIn current
  have text : (c.rest[0]?.map (·.text)).getD "" = w.text := by simp [rest]
  have takes : w.Takes ((Keyword.ofWord? w.text).elim (.token .ident) .keyword) := by
    cases spelt : Keyword.ofWord? w.text with
    | none => exact ident ▸ .own
    | some k => exact .keyword ident spelt
  apply Walks.weaken
  · apply currentText_asks.walksOn
    intro d looked
    rw [text]
    apply (takeAs_walks (looked.rest.trans rest) takes).imp
    exact fun _ _ _ read => looked.toAlike.advanced read.1
  · decide

/-- What a rule that reads at most one word does, told by whether it did. -/
def Perhaps (c : Cursor) (read : Bool) (d : Cursor) : Prop :=
  if read then Advanced c d else Alike c d

/-- The word is read exactly if it is of the kind. -/
theorem eat_walks (kind : TokenKind) (c : Cursor) :
    Walks ⟨3, some 1, some 0, 3⟩ (eat kind) c fun b d =>
      b = (kindIn c.rest 0 == some kind) ∧ Perhaps c b d := by
  apply Walks.weaken
  · apply ((currentIs_asks kind).walks c).branch
    · intro d _ asked
      have current : kindIn d.rest 0 = some kind := by
        rw [asked.2.rest]
        exact eq_of_beq asked.1.symm
      apply (bump_walks current).bind
      exact fun _ e _ read => .pure ⟨asked.1, asked.2.toAlike.advanced read⟩
    · exact fun d _ asked => .pure ⟨asked.1, asked.2.toAlike⟩
  · decide

/-- The word is read exactly if it spells the keyword. -/
theorem eatKeyword_walks (k : Keyword) (c : Cursor) :
    Walks ⟨2, some 1, some 0, 2⟩ (eatKeyword k) c fun b d =>
      b = spells c.rest 0 k.word ∧ Perhaps c b d := by
  apply Walks.weaken
  · apply ((atKeyword_asks k).walks c).branch
    · intro d _ asked
      have current : spells d.rest 0 k.word = true := by
        rw [asked.2.rest]
        exact asked.1.symm
      apply (takeKeyword_walks current).bind
      exact fun _ e _ read => .pure ⟨asked.1, asked.2.toAlike.advanced read⟩
    · exact fun d _ asked => .pure ⟨asked.1, asked.2.toAlike⟩
  · decide

/-- Where a word was read the cursor is further on. -/
theorem Perhaps.lt {read : Bool} (h : Perhaps c read d) (yes : read = true) : c.passed < d.passed := by
  rw [Perhaps, if_pos yes] at h
  exact h.lt

/-- On the way from `c` a word is read in the end, if it is of the kind. -/
theorem eat_further (kind : TokenKind) (walk : Walk c d) :
    Walks ⟨3, some 1, some 0, 3⟩ (eat kind) d fun b e => b = true → c.passed < e.passed :=
  (eat_walks kind d).imp fun _ _ _ eaten read =>
    Nat.lt_of_le_of_lt walk.frame.passed_le (eaten.2.lt read)

/-- Asking for a word that may be missing is safe everywhere. -/
theorem eat_safe (kind : TokenKind) : Safe ⟨3, some 1, some 0, 3⟩ (eat kind) :=
  fun c => (eat_walks kind c).back

theorem eatKeyword_safe (k : Keyword) : Safe ⟨2, some 1, some 0, 2⟩ (eatKeyword k) :=
  fun c => (eatKeyword_walks k c).back

/-- What comes right behind the word that is read. -/
theorem Advanced.onward {a b : Cost} {r : Rule α} {f : α → Rule β}
    (h : Walks a r c fun _ d => Advanced c d)
    (next : ∀ x d, Walk c d → Advanced c d → Walks b (f x) d fun _ _ => True) :
    Reads (a.seq b) (r >>= f) c :=
  Walks.bind h fun x d toD read => (next x d toD read).imp fun _ _ walk _ =>
    Nat.lt_of_lt_of_le read.lt walk.frame.passed_le

/-- A word that is there is read, and the cursor advances. -/
theorem bump_reads {k : TokenKind} (current : kindIn c.rest 0 = some k) : Reads (.reads 2) bump c :=
  (bump_walks current).imp fun _ _ _ read => read.lt

/-- A keyword that is there is read. -/
theorem takeKeyword_reads {k : Keyword} (current : spells c.rest 0 k.word = true) :
    Reads (.reads 1) (takeKeyword k) c :=
  (takeKeyword_walks current).imp fun _ _ _ read => read.lt

/-- An identifier is read as its keyword or as itself. -/
theorem bumpKeyword_reads (current : kindIn c.rest 0 = some .ident) : Reads (.reads 2) bumpKeyword c :=
  (bumpKeyword_walks current).imp fun _ _ _ read => read.lt

end ImplicitGlobals.Grammar
