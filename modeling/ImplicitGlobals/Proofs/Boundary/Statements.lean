import ImplicitGlobals.Proofs.Grammar.Statement
import ImplicitGlobals.Proofs.Grammar.Order
import ImplicitGlobals.Proofs.Grammar.Yields
import ImplicitGlobals.Syntax.Parse

/-!
# The beginnings of statements

Two tables tell keywords apart: `declarationOf` chooses a declaration, and `atStatementStart`
ends the runs in front of one. Most guards are the same in both. Functions, classes and imports
are entered without one, so the test is only as good as what they complain of: where it finds
nothing they miss a name at a word that nobody complained of before, unless a `*` stands behind
`function`, which the test does not know.
-/

namespace ImplicitGlobals.Grammar

variable {α β : Type} {k : Cost} {c d e o : Cursor} {inner : Rule Unit}

/-! ### The test -/

/-- Whether an import goes on at a word of the kind. -/
def importGoesOn (kind : Option TokenKind) : Bool :=
  kind == some .ident || kind == some .stringLiteral || kind == some .braceOpen || kind == some .star

/-- Whether a statement begins with the keyword, judged by the words from it on. -/
def beginsAs (ws : List Word) : Option Keyword → Bool
  | some .kwExport => true
  | some .kwDeclare | some .kwInterface | some .kwEnum | some .kwType | some .kwNamespace
  | some .kwClass => kindIn ws 1 == some .ident
  | some .kwVar | some .kwLet | some .kwConst => (kindIn ws 1).any KindSet.bindingStart.holds
  | some .kwFunction => kindIn ws 1 == some .ident || kindIn ws 1 == some .parenOpen
  | some .kwAbstract => spells ws 1 "class"
  | some .kwModule => kindIn ws 1 == some .ident || kindIn ws 1 == some .stringLiteral
  | some .kwGlobal => kindIn ws 1 == some .braceOpen
  | some .kwImport => importGoesOn (kindIn ws 1)
  | _ => false

/-- The keyword that the first word spells. -/
def keywordOf (ws : List Word) : Option Keyword := Keyword.ofWord? ((ws[0]?.map (·.text)).getD "")

/-- Whether a statement begins at the words. -/
def beginsStatement (ws : List Word) : Bool :=
  if kindIn ws 0 ≠ some .ident then false else beginsAs ws (keywordOf ws)

/-- Whether `function *` comes next. -/
def generatorAhead (ws : List Word) : Bool :=
  spells ws 0 Keyword.kwFunction.word && kindIn ws 1 == some .star

/-- The test looks at three words at most. -/
theorem atStatementStart_asks : Asks 3 atStatementStart fun ws _ => beginsStatement ws := by
  have constant (b : Bool) : Asks 1 (Pure.pure b) fun _ _ => b := (Asks.pure b).weaken (Nat.zero_le 1)
  refine Asks.bind (m := 1) (n := 2) current_asks
    (u := fun kind ws _ => if kind ≠ some .ident then false else beginsAs ws (keywordOf ws)) fun kind => ?_
  refine Asks.ite (m := 0) (n := 2) (.pure false) ?_
  refine Asks.bind (m := 1) (n := 1) currentText_asks
    (u := fun text ws _ => beginsAs ws (Keyword.ofWord? text)) fun text => ?_
  cases Keyword.ofWord? text with
  | none => exact constant false
  | some k =>
    cases k with
    | kwAbstract => exact nthIsWord_asks 1 "class"
    | kwGlobal => exact nextIs_asks .braceOpen
    | kwExport => exact constant true
    | kwVar | kwLet | kwConst | kwFunction | kwModule | kwImport =>
      exact Asks.bind (n := 0) (kindAt_asks 1) fun next => .pure _
    | kwDeclare | kwInterface | kwEnum | kwType | kwNamespace | kwClass => exact nextIs_asks .ident
    | kwDefault | kwFrom | kwAs | kwExtends | kwImplements | kwRequire => exact constant false

/-! ### Rules that complain -/

/-- The rule comes back and has complained of something. -/
def Spoils (k : Cost) (r : Rule α) (c : Cursor) : Prop :=
  Walks k r c fun _ d => d.complaints ≠ c.complaints

/-- The complaints are in order, and none is of the current word. -/
structure Cursor.Fresh (c : Cursor) : Prop extends c.Orderly where
  unsaid : ∀ k ∈ c.complaints, k.place < c.passed

namespace Cursor.Fresh

theorem ne (h : c.Fresh) : c.lastPlace ≠ some c.passed := by
  intro same
  obtain ⟨k, among, place⟩ := Option.map_eq_some_iff.1 (h.last.symm.trans same)
  have := h.unsaid k (List.mem_of_mem_head? among)
  omega

theorem alike (h : c.Fresh) (walk : Walk c d) (same : Alike c d) : d.Fresh where
  toOrderly := walk.orderly h.toOrderly
  unsaid := by
    rw [same.complaints, same.passed]
    exact h.unsaid

/-- A node is begun in silence. -/
theorem openNode (h : c.Fresh) (kind : NodeKind) (first : Nat) : (c.openNode kind first).Fresh :=
  ⟨h.ahead (Nat.le_refl _) rfl rfl rfl, h.unsaid⟩

theorem placeGap (h : c.Fresh) : c.placeGap.Fresh := h.alike (.placeGap c) (alike_placeGap c)

end Cursor.Fresh

/-- Behind a word that was read without a complaint nobody has complained yet. -/
theorem Cursor.Orderly.fresh (h : c.Orderly) (walk : Walk c d) (read : Advanced c d) : d.Fresh where
  toOrderly := walk.orderly h
  unsaid k among := by
    rw [read.complaints] at among
    rw [read.passed]
    exact Nat.lt_succ_of_le (h.behind k among)

/-- What a rule yields it yields when it comes back. -/
theorem Walks.yielding {r : Rule α} {P Q : α → Cursor → Prop} (h : Walks k r c P) (g : Yields r c Q) :
    Walks k r c fun x d => P x d ∧ Q x d := by
  intro peak sound need
  obtain ⟨x, d, run, soundD, covers, walk, post⟩ := h peak sound need
  exact ⟨x, d, run, soundD, covers, walk, post, g x d run⟩

/-- A rule comes back in one way only. -/
theorem Runs.yields {r : Rule α} {Q : α → Cursor → Prop} (h : Runs k r c Q) (peak : k.peak ≤ lookLimit)
    (sound : c.Sound) (need : k.need ≤ c.looks) : Yields r c Q := by
  intro x d run
  obtain ⟨y, e, run', -, -, post⟩ := h peak sound need
  cases run.symm.trans run'
  exact post

theorem Asks.yields {n : Nat} {t : Rule β} {v : List Word → Option Limit → β} (h : Asks n t v)
    (enough : n ≤ c.looks) : Yields t c fun x d => x = v c.rest c.refused ∧ Looked n c d := by
  intro x d run
  obtain ⟨e, run', looked⟩ := h c enough
  cases run.symm.trans run'
  exact ⟨rfl, looked⟩

namespace Spoils

variable {a b : Cost} {r : Rule α} {f : α → Rule β}

theorem weaken (h : Spoils a r c) (cost : a.within b = true) : Spoils b r c := Walks.weaken h cost

/-- What comes behind does not take the complaint back. -/
theorem bind (h : Spoils a r c) (next : ∀ x, Safe b (f x)) : Spoils (a.seq b) (r >>= f) c := by
  refine Walks.bind h fun x d toD spoilt => (next x d).imp fun _ e toE _ same => spoilt ?_
  have back : d.complaints <:+ c.complaints := same ▸ toE.frame.complaints
  exact back.eq_of_length_le toD.frame.complaints.length_le

theorem later (h : Spoils a r c) (begun : 0 < c.passed) (next : ∀ x, Later b (f x)) :
    Spoils (a.seq b) (r >>= f) c := by
  refine Walks.bind h fun x d toD spoilt =>
    (next x d (Nat.lt_of_lt_of_le begun toD.frame.passed_le)).imp fun _ e toE _ same => spoilt ?_
  have back : d.complaints <:+ c.complaints := same ▸ toE.frame.complaints
  exact back.eq_of_length_le toD.frame.complaints.length_le

/-- What comes before does not take it back either. -/
theorem after {P : α → Cursor → Prop} (h : Walks a r c P)
    (next : ∀ x d, Walk c d → P x d → Spoils b (f x) d) : Spoils (a.seq b) (r >>= f) c := by
  refine Walks.bind h fun x d toD post => (next x d toD post).imp fun _ e toE spoilt same => spoilt ?_
  have back : e.complaints <:+ d.complaints := same ▸ toD.frame.complaints
  exact back.eq_of_length_le toE.frame.complaints.length_le

theorem node {kind : NodeKind} {body : Rule Unit} (any : kind.holdsAny)
    (h : Spoils a body (c.placeGap.openNode kind c.placeGap.parts.size)) :
    Spoils a (node kind body) c := by
  refine (node_walks_from (Q := fun e => e.complaints ≠ c.complaints) any h).imp ?_
  rintro _ d - ⟨-, e, rfl, spoilt⟩
  exact spoilt

theorem nodeAt {kind : NodeKind} {body : Rule Unit} (any : kind.holdsAny) (back : Walk o c)
    (sound : o.Sound) (h : Spoils a body (c.openNode kind o.parts.size)) :
    Runs a (nodeAt o.parts.size kind body) c fun _ d => d.complaints ≠ c.complaints := by
  refine (nodeAt_runs (Q := fun e => e.complaints ≠ c.complaints) back sound
    (fun _ _ _ => NodeKind.holds_of_holdsAny any _) h).imp ?_
  rintro _ d ⟨-, -, e, rfl, spoilt⟩
  exact spoilt

end Spoils

/-- A complaint of a word that nobody complained of is a new one. -/
theorem complain_adds (fresh : c.Fresh) (report : Nat → Option Nat → Complaint) :
    Yields (complain report) c fun _ d => d.complaints ≠ c.complaints := by
  refine (mark_yields c).bind fun i d post => .modify ?_
  obtain ⟨rfl, _, _, _, rfl⟩ := post
  rw [if_neg fresh.ne]
  exact List.cons_ne_self _ _

theorem error_spoils (kind : DiagnosticKind) (fresh : c.Fresh) : Spoils (.looks 1) (error kind) c :=
  ((error_walks kind c).yielding (complain_adds fresh _)).imp fun _ _ _ post => post.2

/-- A test that is known to find nothing goes before what complains. -/
theorem Spoils.unless {n : Nat} {b : Cost} {t : Rule Bool} {v : List Word → Option Limit → Bool} {x y : Rule α}
    (asks : Asks n t v) (never : v c.rest c.refused = false) (fresh : c.Fresh)
    (h : ∀ d, d.Fresh → Looked n c d → Spoils b y d) :
    Spoils ((Cost.looks n).seq b) (t >>= fun z => if z = true then x else y) c := by
  apply Spoils.after (asks.walks c)
  rintro z d walk ⟨rfl, looked⟩
  rw [never]
  exact h d (fresh.alike walk looked.toAlike) looked

/-! ### Missing names -/

theorem functionName_spoils (fresh : c.Fresh) (nameless : kindIn c.rest 0 ≠ some .ident) :
    Spoils (.looks 2) (functionName false) c := by
  apply Spoils.weaken
  · refine Spoils.unless (b := .looks 1) (currentIs_asks .ident) (beq_eq_false_iff_ne.2 nameless) fresh ?_
    exact fun d fresh _ => error_spoils .expectedName fresh
  · decide

theorem className_spoils (fresh : c.Fresh) (nameless : kindIn c.rest 0 ≠ some .ident) :
    Spoils (.looks 5) (className false) c := by
  apply Spoils.weaken
  · have named := (currentIs_asks .ident).and
      (((atKeyword_asks .kwExtends).map (!·)).and ((atKeyword_asks .kwImplements).map (!·)))
    refine Spoils.unless (b := .looks 1) named (by simp [nameless]) fresh ?_
    exact fun d fresh _ => error_spoils .expectedName fresh
  · decide

/-- A function without a name is complained of, unless a `*` stands there. -/
theorem functionDeclaration_spoils (back : Walk o c) (sound : o.Sound) (orderly : c.Orderly)
    (keyword : Announces .kwFunction c.rest) (nameless : kindIn c.rest 1 ≠ some .ident)
    (plain : kindIn c.rest 1 ≠ some .star) :
    Runs ⟨1, none, some 47, 47⟩ (functionDeclaration o.parts.size false) c fun _ d =>
      d.complaints ≠ c.complaints := by
  apply Spoils.nodeAt (by decide) back sound
  have start : (c.openNode .functionDeclaration o.parts.size).Orderly :=
    orderly.ahead (Nat.le_refl _) rfl rfl rfl
  apply Spoils.weaken
  · apply Spoils.after (takeKeyword_walks (c := c.openNode _ _) keyword)
    intro _ d toD read
    have behind : kindIn d.rest 0 = kindIn c.rest 1 := by rw [read.rest]; exact kindIn_tail ..
    apply Spoils.after (eat_walks .star d)
    rintro _ e toE ⟨rfl, unread⟩
    rw [behind, beq_eq_false_iff_ne.2 plain] at unread
    have same : Alike d e := unread
    have fresh : e.Fresh := (start.fresh toD read).alike toE same
    apply (functionName_spoils fresh ?_).later
    · exact Nat.lt_of_lt_of_le (Nat.zero_lt_of_lt read.lt) toE.frame.passed_le
    · exact fun _ => functionSignature_later
    · rw [same.rest, behind]
      exact nameless
  · decide

theorem classDeclaration_spoils (back : Walk o c) (sound : o.Sound) (orderly : c.Orderly)
    (keyword : Announces .kwClass c.rest) (nameless : kindIn c.rest 1 ≠ some .ident) :
    Runs ⟨1, none, some 46, 49⟩ (classDeclaration o.parts.size false) c fun _ d =>
      d.complaints ≠ c.complaints := by
  apply Spoils.nodeAt (by decide) back sound
  have start : (c.openNode .classDeclaration o.parts.size).Orderly :=
    orderly.ahead (Nat.le_refl _) rfl rfl rfl
  apply Spoils.weaken
  · apply Spoils.after (takeKeyword_walks (c := c.openNode _ _) keyword)
    intro _ d toD read
    have behind : kindIn d.rest 0 = kindIn c.rest 1 := by rw [read.rest]; exact kindIn_tail ..
    apply (className_spoils (start.fresh toD read) (behind ▸ nameless)).bind
    exact fun _ => classTail_safe
  · decide

/-! ### Missing bindings -/

/-- A part is left out where the test for it finds nothing. -/
theorem unread_walks {n : Nat} {t : Rule Bool} {v : List Word → Option Limit → Bool} {r s : Rule α}
    (asks : Asks n t v) (never : v c.rest c.refused = false) {P : α → Cursor → Prop}
    (h : ∀ d, Looked n c d → Walks .free s d P) :
    Walks ((Cost.looks n).seq .free) (t >>= fun z => if z = true then r else s) c P := by
  apply asks.walksOn
  intro d looked
  rw [never]
  exact h d looked

theorem importBindings_spoils (fresh : c.Fresh) (stray : importGoesOn (kindIn c.rest 0) = false) :
    Spoils (.looks 9) (do
      whenever clauseIsTypeOnly (takeKeyword .kwType)
      let hasDefault ← defaultImport
      furtherImports hasDefault) c := by
  simp only [importGoesOn, Bool.or_eq_false_iff, beq_eq_false_iff_ne] at stray
  obtain ⟨⟨⟨ident, -⟩, brace⟩, star⟩ := stray
  obtain ⟨typed, asksTyped, finds⟩ := clauseIsTypeOnly_asks
  have untyped : Walks ((Cost.looks 4).seq .free) (whenever clauseIsTypeOnly (takeKeyword .kwType)) c
      fun _ d => Looked 4 c d := by
    have never : typed c.rest c.refused = false :=
      eq_false_of_ne_true fun h => ident (kindIn_of_spells (finds _ _ h))
    exact unread_walks asksTyped never fun _ looked => .pure looked
  apply Spoils.weaken
  · apply Spoils.after untyped
    intro _ d toD looked
    replace fresh := fresh.alike toD looked.toAlike
    have same : d.rest = c.rest := looked.rest
    have named := (currentIs_asks .ident).and ((atKeyword_asks .kwFrom).map (!·))
    have unnamed : Walks _ defaultImport d fun b e => b = false ∧ Looked _ d e :=
      unread_walks named (by simp [same, ident]) fun _ looked => .pure ⟨rfl, looked⟩
    apply Spoils.after unnamed
    rintro _ e toE ⟨rfl, looked⟩
    replace fresh := fresh.alike toE looked.toAlike
    replace same : e.rest = c.rest := looked.rest.trans same
    refine Spoils.unless (b := (Cost.looks 1).seq (.looks 1)) (currentIs_asks .star)
      (by simp [same, star]) fresh fun f fresh looked => ?_
    replace same : f.rest = c.rest := looked.rest.trans same
    refine Spoils.unless (b := .looks 1) (currentIs_asks .braceOpen) (by simp [same, brace]) fresh ?_
    exact fun g fresh _ => error_spoils .expectedName fresh
  · decide

theorem importTail_spoils (fresh : c.Fresh) (begun : 0 < c.passed) (stray : importGoesOn (kindIn c.rest 0) = false) :
    Spoils ⟨20, some 20, some 29, 29⟩ importTail c := by
  have literal : kindIn c.rest 0 ≠ some .stringLiteral := fun h => by simp [h, importGoesOn] at stray
  have clause (d : Cursor) (fresh : d.Fresh) (same : d.rest = c.rest) :
      Spoils (.looks 9) importClause d := by
    have stray : importGoesOn (kindIn d.rest 0) = false := same ▸ stray
    exact .node (by decide) (importBindings_spoils (fresh.placeGap.openNode _ _) stray)
  apply Spoils.weaken
  · apply Spoils.after (eat_walks .stringLiteral c)
    rintro _ d toD ⟨rfl, unread⟩
    rw [beq_eq_false_iff_ne.2 literal] at unread ⊢
    have same : Alike c d := unread
    exact (clause d (fresh.alike toD same) same.rest).later (same.passed ▸ begun) fun _ => importEnd_later
  · decide

theorem importDeclaration_spoils (back : Walk o c) (sound : o.Sound) (orderly : c.Orderly)
    (keyword : Announces .kwImport c.rest) (stray : importGoesOn (kindIn c.rest 1) = false) :
    Runs ⟨1, none, some 29, 29⟩ (importDeclaration o.parts.size) c fun _ d =>
      d.complaints ≠ c.complaints := by
  apply Spoils.nodeAt (by decide) back sound
  have start : (c.openNode .importDeclaration o.parts.size).Orderly :=
    orderly.ahead (Nat.le_refl _) rfl rfl rfl
  apply Spoils.weaken
  · apply Spoils.after (takeKeyword_walks (c := c.openNode _ _) keyword)
    intro _ d toD read
    have behind : kindIn d.rest 0 = kindIn c.rest 1 := by rw [read.rest]; exact kindIn_tail ..
    exact importTail_spoils (start.fresh toD read) (Nat.zero_lt_of_lt read.lt) (behind ▸ stray)
  · decide

/-- An import that does not go on is complained of. -/
theorem importStatement_spoils (back : Walk o c) (sound : o.Sound) (orderly : c.Orderly)
    (keyword : Announces .kwImport c.rest) (stray : importGoesOn (kindIn c.rest 1) = false) :
    Runs ⟨6, none, some 29, 29⟩ (importStatement o.parts.size) c fun _ d =>
      d.complaints ≠ c.complaints := by
  have ident : kindIn c.rest 1 ≠ some .ident := fun h => by simp [h, importGoesOn] at stray
  have noType : spells c.rest 1 Keyword.kwType.word = false :=
    eq_false_of_ne_true fun h => ident (kindIn_of_spells h)
  have equals := ((nextIs_asks .ident).and (nthIs_asks 2 .equals)).or
    ((nthIsKeyword_asks 1 .kwType).and ((nthIs_asks 2 .ident).and (nthIs_asks 3 .equals)))
  apply Runs.weaken
  · apply Runs.bind (equals.runs c)
    rintro _ d ⟨rfl, looked⟩
    have never : ((kindIn c.rest 1 == some .ident && kindIn c.rest 2 == some .equals) ||
        (spells c.rest 1 Keyword.kwType.word && (kindIn c.rest 2 == some .ident &&
          kindIn c.rest 3 == some .equals))) = false := by simp [ident, noType]
    rw [never, ← looked.complaints]
    exact importDeclaration_spoils (back.trans looked.walk) sound (looked.walk.orderly orderly)
      (looked.rest ▸ keyword) (looked.rest ▸ stray)
  · decide

/-! ### Declarations begin statements -/

/-- Where a rule may count on being entered like a statement. -/
structure Cursor.Ready (c : Cursor) : Prop where
  sound : c.Sound
  orderly : c.Orderly
  looks : 33 ≤ c.looks

theorem onlyIf_yields {t : Rule Bool} {v : List Word → Option Limit → Bool} {body : Rule Unit}
    (answers : Answers t v) :
    Yields (onlyIf t body) c fun found _ => found = true → v c.rest c.refused = true := by
  refine (answers c).bind fun b d post => .ite (fun found => ?_) fun _ => .pure fun h => nomatch h
  exact fun _ _ _ _ => post.1.symm.trans found

/-- A declaration that is entered without a guard tells by a complaint that it does not belong. -/
theorem entered_yields {body : Rule Unit} {p : Prop}
    (h : ¬p → Yields body c fun _ d => d.complaints ≠ c.complaints) :
    Yields (onlyIf (pure true) body) c fun found d => found = true → d.complaints = c.complaints → p := by
  by_cases fits : p
  · exact fun _ _ _ _ _ => fits
  · exact (h fits).bind fun _ _ spoilt => .pure fun _ same => absurd same spoilt

/-- What `declarationOf` reads without a complaint begins a statement, generators apart. -/
theorem declarationOf_begins (back : Walk o c) (sound : o.Sound) (orderly : c.Orderly)
    (looks : 6 ≤ c.looks) (k : Option Keyword) (announces : ∀ j, k = some j → Announces j c.rest) :
    Yields (declarationOf inner o.parts.size false k) c fun found d => found = true →
      d.complaints = c.complaints → beginsAs c.rest k = true ∨ generatorAhead c.rest = true := by
  have soundC := back.sound sound
  have guarded {t : Rule Bool} {v : List Word → Option Limit → Bool} {body : Rule Unit}
      (answers : Answers t v) (same : v c.rest c.refused = beginsAs c.rest k) :
      Yields (onlyIf t body) c fun found d => found = true →
        d.complaints = c.complaints → beginsAs c.rest k = true ∨ generatorAhead c.rest = true :=
    (onlyIf_yields answers).imp fun _ _ post found _ => .inl (same ▸ post found)
  cases k with
  | none => exact .pure nofun
  | some k =>
    have keyword := announces k rfl
    cases k with
    | kwConst =>
      refine (nthIsKeyword_answers 1 .kwEnum c).bind fun b d post => .ite (fun found => ?_) fun _ => ?_
      · have ident := kindIn_of_spells (post.1.symm.trans found)
        exact fun _ _ _ _ _ => .inl (by simp only [beginsAs, ident]; rfl)
      · obtain ⟨-, _, _, _, rfl⟩ := post
        exact (onlyIf_yields ((kindAt_answers 1).map _)).imp fun _ _ post found _ => .inl (post found)
    | kwVar | kwLet => exact guarded ((kindAt_answers 1).map _) rfl
    | kwInterface | kwType | kwEnum | kwNamespace => exact guarded (nextIs_answers .ident) rfl
    | kwGlobal => exact guarded (nextIs_answers .braceOpen) rfl
    | kwModule =>
      refine (kindAt_answers 1 c).bind fun next d post => ?_
      obtain ⟨rfl, _, _, _, rfl⟩ := post
      exact (onlyIf_yields (.pure _)).imp fun _ _ post found _ => .inl (post found)
    -- A function, a class and an import are entered in any case; without their word they complain.
    | kwFunction =>
      refine entered_yields fun other => ?_
      have spelt : spells c.rest 0 Keyword.kwFunction.word = true := keyword
      have nameless : kindIn c.rest 1 ≠ some .ident := fun h => other (.inl (by simp [beginsAs, h]))
      have plain : kindIn c.rest 1 ≠ some .star := fun h => other (.inr (by simp [generatorAhead, spelt, h]))
      exact (functionDeclaration_spoils back sound orderly keyword nameless plain).yields (by decide)
        soundC (Nat.le_trans (by decide) looks)
    | kwClass =>
      refine entered_yields fun other => ?_
      have nameless : kindIn c.rest 1 ≠ some .ident := fun h => other (.inl (by simp [beginsAs, h]))
      exact (classDeclaration_spoils back sound orderly keyword nameless).yields (by decide) soundC
        (Nat.le_trans (by decide) looks)
    | kwImport =>
      refine entered_yields fun other => ?_
      have stray : importGoesOn (kindIn c.rest 1) = false := eq_false_of_ne_true fun h => other (.inl h)
      exact (importStatement_spoils back sound orderly keyword stray).yields (by decide) soundC looks
    | _ => exact .pure nofun

theorem declaration_begins (back : Walk o c) (sound : o.Sound) (orderly : c.Orderly)
    (looks : 8 ≤ c.looks) :
    Yields (declaration inner o.parts.size false) c fun found d => found = true →
      d.complaints = c.complaints → beginsStatement c.rest = true ∨ generatorAhead c.rest = true := by
  refine (current_asks.yields (by omega)).bind fun kind d asked => ?_
  obtain ⟨rfl, looked⟩ := asked
  refine .ite (fun _ => .pure nofun) fun ident => ?_
  have ident : kindIn c.rest 0 = some .ident := Decidable.not_not.1 ident
  have left := looked.left
  refine (currentText_asks.yields (by omega)).bind fun text e asked => ?_
  obtain ⟨rfl, looked'⟩ := asked
  have both := looked.trans looked'
  rw [← both.rest, ← both.complaints]
  refine (declarationOf_begins (back.trans both.walk) sound (both.walk.orderly orderly)
    (by have := both.left; omega) _ fun k spelt => ?_).imp fun found f begins yes quiet => ?_
  · rw [both.rest]
    exact announces_of_ofWord? ident (looked.rest ▸ spelt)
  · refine (begins yes quiet).imp_left fun as => ?_
    rw [beginsStatement, if_neg (not_not_intro (both.rest ▸ ident)), keywordOf, both.rest]
    rw [looked.rest, both.rest] at as
    exact as

/-- What a statement turns out to be. -/
inductive Form where
  | empty
  | exported
  | declaration
  | exportDefault
  | stray
deriving DecidableEq, Repr

/-- A statement that begins at `point`, told by its form. -/
def sorted (inner : Rule Unit) (point : Checkpoint) : Rule Form := do
  if ← currentIs .semicolon then
    node .emptyStatement bump
    return .empty
  if ← atKeyword .kwExport <&&> exportForm point then return .exported
  let m ← modifiers
  if ← declaration inner point m.isDefault then return .declaration
  if m.isDefault then
    exportDefault point
    return .exportDefault
  recover point m.any
  return .stray

/-- Telling the form changes nothing. -/
theorem statementAt_eq_sorted (inner : Rule Unit) (point : Checkpoint) :
    statementAt inner point = (do let _ ← sorted inner point) := by
  simp only [statementAt, sorted, modified, bind_assoc]
  refine bind_congr fun empty => ?_
  cases empty with
  | true => simp
  | false =>
    simp only [Bool.false_eq_true, if_false, bind_assoc]
    refine bind_congr fun exported => ?_
    cases exported with
    | true => simp
    | false =>
      simp only [Bool.false_eq_true, if_false, bind_assoc]
      refine bind_congr fun m => bind_congr fun declared => ?_
      cases declared <;> cases m.isDefault <;> simp

/-- A statement begins at a keyword as the keyword asks for. -/
theorem beginsStatement_of_announces {k : Keyword} {ws : List Word} (h : Announces k ws) :
    beginsStatement ws = beginsAs ws (some k) := by
  obtain ⟨w, rest, rfl, kind, text⟩ := exists_of_spells h
  simp [beginsStatement, keywordOf, kindIn, kind, text, Keyword.ofWord?_word]

/-- Where no statement begins no modifier does. -/
theorem modifiers_idle (stray : beginsStatement c.rest = false) (looks : 6 ≤ c.looks) :
    Yields modifiers c fun m d => m = {} ∧ Looked 6 c d := by
  have never {k : Keyword} (h : Announces k c.rest) : beginsAs c.rest (some k) = false :=
    (beginsStatement_of_announces h).symm.trans stray
  have noExport : spells c.rest 0 Keyword.kwExport.word = false :=
    eq_false_of_ne_true fun h => Bool.noConfusion (never h)
  -- No round reads a word: each modifier would make the first word begin a statement.
  refine loop_yields (I := fun m d => m = {} ∧ d = c) ⟨rfl, rfl⟩ ?_
  rintro _ _ ⟨rfl, rfl⟩
  refine ((atKeyword_asks .kwExport).yields (by omega)).bind fun b d asked => ?_
  obtain ⟨rfl, looked⟩ := asked
  refine .ite (fun found => absurd found (by simp [noExport])) fun _ => ?_
  have left := looked.left
  refine (((atKeyword_asks .kwDefault).and (Asks.pure false)).yields (by omega)).bind fun b e asked => ?_
  obtain ⟨rfl, looked'⟩ := asked
  refine .ite (fun found => absurd found (by simp)) fun _ => ?_
  have looked' := looked.trans looked'
  have left := looked'.left
  refine (((atKeyword_asks .kwDeclare).and (nextIs_asks .ident)).yields (by omega)).bind fun b f asked => ?_
  obtain ⟨rfl, looked''⟩ := asked
  refine .ite (fun found => ?_) fun _ => ?_
  · obtain ⟨keyword, ident⟩ := Bool.and_eq_true_iff.1 found
    rw [looked'.rest] at keyword ident
    exact Bool.noConfusion ((never keyword).symm.trans ident)
  have looked'' := looked'.trans looked''
  have left := looked''.left
  refine (((atKeyword_asks .kwAbstract).and (nthIsKeyword_asks 1 .kwClass)).yields
    (by omega)).bind fun b g asked => ?_
  obtain ⟨rfl, last⟩ := asked
  refine .ite (fun found => ?_) fun _ => .pure ⟨rfl, looked''.trans last⟩
  obtain ⟨keyword, behind⟩ := Bool.and_eq_true_iff.1 found
  rw [looked''.rest] at keyword behind
  exact Bool.noConfusion ((never keyword).symm.trans behind)

/-- A declaration that is read without a complaint, with or without modifiers, begins a
statement, generators apart. -/
theorem sorted_begins (ready : c.Ready) :
    Yields (sorted inner c.parts.size) c fun form d => form = .declaration →
      d.complaints = c.complaints → beginsStatement c.rest = true ∨ generatorAhead c.rest = true := by
  have other {r : Rule Unit} {form : Form} {d : Cursor} (h : form ≠ .declaration) :
      Yields (do r; return form) d fun form e => form = .declaration →
        e.complaints = c.complaints → beginsStatement c.rest = true ∨ generatorAhead c.rest = true :=
    Yields.bind (P := fun _ _ => True) (fun _ _ _ => trivial) fun _ _ _ => .pure fun is => absurd is h
  -- A word that begins no statement passes each form in turn, down to the declaration.
  by_cases begins : beginsStatement c.rest = true
  · exact fun _ _ _ _ _ => .inl begins
  · have stray := eq_false_of_ne_true begins
    have looks := ready.looks
    have noExport : spells c.rest 0 Keyword.kwExport.word = false :=
      eq_false_of_ne_true fun h => begins (beginsStatement_of_announces h)
    refine ((currentIs_asks .semicolon).yields (by omega)).bind fun empty d asked => ?_
    have looked := asked.2
    refine .ite (fun _ => other (by decide)) fun _ => ?_
    have noForm : Yields (atKeyword .kwExport <&&> exportForm c.parts.size) d fun found e =>
        found = false ∧ Looked 1 d e := by
      rw [and_eq_branch]
      refine ((atKeyword_asks .kwExport).yields (by have := looked.left; omega)).bind fun b e asked => ?_
      obtain ⟨rfl, looked'⟩ := asked
      rw [looked.rest, noExport]
      exact .pure ⟨rfl, looked'⟩
    refine noForm.bind fun found e post => ?_
    obtain ⟨rfl, looked'⟩ := post
    have both := looked.trans looked'
    have left := both.left
    refine (modifiers_idle (both.rest ▸ stray) (by omega)).bind fun m f post => ?_
    obtain ⟨rfl, looked''⟩ := post
    have whole := both.trans looked''
    have left := whole.left
    refine (declaration_begins whole.walk ready.sound (whole.walk.orderly ready.orderly)
      (by omega)).bind fun declared g post => ?_
    rw [whole.rest, whole.complaints] at post
    cases declared with
    | true => exact .pure fun _ quiet => post rfl quiet
    | false => exact Yields.bind (P := fun _ _ => True) (fun _ _ _ => trivial) fun _ _ _ => .pure nofun

/-! ### Where runs end -/

/-- Going round from one state and cursor to another. -/
inductive ComesTo {σ : Type} (step : σ → Rule (Turn σ)) : σ → Cursor → σ → Cursor → Prop where
  | here (s : σ) (c : Cursor) : ComesTo step s c s c
  | turn {s t u : σ} {c d e : Cursor} (first : (step s).run c = .ok (.again t, d))
    (rest : ComesTo step t d u e) : ComesTo step s c u e

/-- A loop ends where it is done with its rounds. -/
theorem ComesTo.rounds_eq {σ : Type} {step : σ → Rule (Turn σ)} {s t x y : σ} (goes : ComesTo step s c t d)
    (done : (step t).run d = .ok (.done y, e)) {f : Cursor} {n : Nat}
    (run : (rounds step n s).run c = .ok (x, f)) : x = y ∧ f = e := by
  induction goes generalizing n with
  | here s c =>
    cases n with
    | zero => cases run
    | succ n =>
      obtain ⟨_, _, first, rest⟩ := run_bind_eq_ok run
      cases done.symm.trans first
      cases rest
      exact ⟨rfl, rfl⟩
  | turn first _ ih =>
    cases n with
    | zero => cases run
    | succ n =>
      obtain ⟨_, _, first', rest⟩ := run_bind_eq_ok run
      cases first.symm.trans first'
      exact ih done rest

/-- Outside of its brackets a run ends where a statement begins. -/
theorem runTurn_stops (stop : KindSet) {mode : RunMode} (boundary : mode.boundary = true)
    (begins : beginsStatement c.rest = true) :
    Runs (.looks 4) (runTurn stop mode ⟨[], true⟩) c fun t d => t = .done ⟨[], true⟩ ∧ Alike c d := by
  have ends (kind : Option TokenKind) : Asks 3 (runEnds stop mode true kind) fun ws _ =>
      if kind.any fun k => stop.holds k || KindSet.closers.holds k then true
      else if mode.angles && kind == some .angleClose then true
      else (mode.boundary && true) && beginsStatement ws :=
    (Asks.pure true).ite ((Asks.pure true).ite ((Asks.pure (mode.boundary && true)).and atStatementStart_asks))
  apply Runs.weaken
  · apply Runs.branch (atEnd_asks.runs c)
    · rintro d ⟨-, looked⟩
      exact .pure ⟨rfl, looked.toAlike⟩
    rintro d ⟨-, looked⟩
    apply current_asks.runsOn
    intro e looked'
    have same := looked.trans looked'
    apply Runs.bind (((Asks.pure true).and (ends (kindIn d.rest 0))).runs e)
    rintro found f ⟨rfl, looked''⟩
    have yes : beginsStatement e.rest = true := same.rest ▸ begins
    rw [boundary, yes]
    simp only [Bool.and_true, ite_self, if_true]
    exact .pure ⟨rfl, (same.trans looked'').toAlike⟩
  · decide

/-- Outside of brackets skipping ends where a statement begins. -/
theorem skipTurn_ends (block : Bool) (begins : beginsStatement c.rest = true) :
    Runs (.looks 4) (skipTurn block ⟨0, true⟩) c fun t d => t = .done ⟨0, true⟩ ∧ Alike c d := by
  apply Runs.weaken
  · apply Runs.branch (atEnd_asks.runs c)
    · rintro d ⟨-, looked⟩
      exact .pure ⟨rfl, looked.toAlike⟩
    rintro d ⟨-, looked⟩
    apply current_asks.runsOn
    intro e looked'
    have same := looked.trans looked'
    have ends := (Asks.pure true).and
      ((Asks.pure (kindIn d.rest 0 == some .braceClose && block)).or atStatementStart_asks)
    apply Runs.bind (ends.runs e)
    rintro found f ⟨rfl, looked''⟩
    have yes : beginsStatement e.rest = true := same.rest ▸ begins
    rw [yes]
    simp only [Bool.and_true, Bool.or_true, if_true]
    exact .pure ⟨rfl, (same.trans looked'').toAlike⟩
  · decide

/-- A run that comes to the beginning of a statement ends there. -/
theorem balanced_ends {b : Cursor} (stop : KindSet) {mode : RunMode} (boundary : mode.boundary = true)
    (start : b.Ready) (goes : ComesTo (runTurn stop mode) {} b ⟨[], true⟩ c) (ready : c.Ready)
    (begins : beginsStatement c.rest = true) :
    ∃ d, (balanced stop mode).run b = .ok (true, d) ∧ Alike c d := by
  have startLooks := start.looks
  have looks := ready.looks
  obtain ⟨x, d, whole, -⟩ := balanced_safe stop mode b (by decide) start.sound (by simp only; omega)
  obtain ⟨_, e, done, -, -, rfl, same⟩ :=
    runTurn_stops stop boundary begins (by decide) ready.sound (by simp only [Cost.looks]; omega)
  obtain ⟨r, f, run, rest⟩ := run_bind_eq_ok whole
  obtain ⟨rfl, rfl⟩ := goes.rounds_eq done (n := b.total + 1) run
  cases rest
  exact ⟨_, whole, same⟩

/-- Skipping that comes to the beginning of a statement ends there. -/
theorem skipping_ends {b : Cursor} (block : Bool) (start : b.Ready)
    (goes : ComesTo (skipTurn block) {} b ⟨0, true⟩ c) (ready : c.Ready)
    (begins : beginsStatement c.rest = true) :
    ∃ d, (loop {} (skipTurn block)).run b = .ok (⟨0, true⟩, d) ∧ Alike c d := by
  have startLooks := start.looks
  have looks := ready.looks
  have back : Walks _ (loop {} (skipTurn block)) b fun _ d => Proceeds b d :=
    loop_walks (I := Skips b) (.inl ⟨rfl, .refl b⟩) fun s d skips => skipTurn_walks block s skips
  obtain ⟨x, d, whole, -⟩ := back (by decide) start.sound (by simp only [Cost.loop]; omega)
  obtain ⟨_, e, done, -, -, rfl, same⟩ :=
    skipTurn_ends block begins (by decide) ready.sound (by simp only [Cost.looks]; omega)
  obtain ⟨rfl, rfl⟩ := goes.rounds_eq done (n := b.total + 1) whole
  exact ⟨_, whole, same⟩

/-- Where a declaration is read without a complaint, with or without modifiers, the test finds
the beginning of a statement, unless `function *` stands there. So every run that comes there
outside of its brackets ends there, a type or an initializer as well as recovery. -/
theorem atStatementStart_of_declaration (ready : c.Ready)
    (run : (sorted inner c.parts.size).run c = .ok (.declaration, d))
    (quiet : d.complaints = c.complaints) :
    (∃ e, atStatementStart.run c = .ok (!generatorAhead c.rest, e) ∧ Alike c e) ∧
    (generatorAhead c.rest = false →
      (∀ b stop mode, b.Ready → RunMode.boundary mode = true →
        ComesTo (runTurn stop mode) {} b ⟨[], true⟩ c →
        ∃ e, (balanced stop mode).run b = .ok (true, e) ∧ Alike c e) ∧
      ∀ b block, b.Ready → ComesTo (skipTurn block) {} b ⟨0, true⟩ c →
        ∃ e, (loop {} (skipTurn block)).run b = .ok (⟨0, true⟩, e) ∧ Alike c e) := by
  have looks := ready.looks
  have found := sorted_begins ready _ _ run rfl quiet
  have answer : beginsStatement c.rest = !generatorAhead c.rest := by
    cases generator : generatorAhead c.rest with
    | false => simpa [generator] using found
    | true =>
      obtain ⟨keyword, star⟩ := Bool.and_eq_true_iff.1 generator
      rw [beginsStatement_of_announces keyword, beginsAs, eq_of_beq star]
      rfl
  obtain ⟨e, test, looked⟩ := atStatementStart_asks c (by omega)
  refine ⟨⟨e, by rw [← answer, test], looked.toAlike⟩, fun known => ?_⟩
  have begins : beginsStatement c.rest = true := by rw [answer, known]; rfl
  exact ⟨fun b stop mode start boundary goes => balanced_ends stop boundary start goes ready begins,
    fun b block start goes => skipping_ends block start goes ready begins⟩

/-- The type of `type A = number` ends where `interface B \x7b \x7d` begins. -/
theorem atStatementStart_of_interface : ∃ b c e : Cursor,
    b.rest.map (·.text) = ["number", "interface", "B", "\x7b", "\x7d"] ∧
    c.rest.map (·.text) = ["interface", "B", "\x7b", "\x7d"] ∧
    (balanced .statementEnd .type).run b = .ok (true, e) ∧ Alike c e := by
  let words : List Word := [⟨.ident, "interface", true⟩, ⟨.ident, "B", false⟩,
    ⟨.braceOpen, "\x7b", false⟩, ⟨.braceClose, "\x7d", false⟩]
  let b : Cursor := .start {} (⟨.ident, "number", false⟩ :: words)
  let c : Cursor := { rest := words, total := 5, passed := 1,
                      parts := #[.leaf (.gap 0), .leaf (.word 0 (.token .ident))] }
  have startReady : b.Ready := ⟨Cursor.sound_start _ _, .start _ _, by decide⟩
  have ready : c.Ready := by
    refine ⟨⟨by decide, nofun, Nat.zero_le _, fun noted => absurd rfl noted⟩, ?_, by decide⟩
    exact ⟨.nil c, rfl, fun _ h => absurd h List.not_mem_nil, .nil, fun _ h => absurd h List.not_mem_nil⟩
  have goes : ComesTo (runTurn .statementEnd .type) {} b ⟨[], true⟩ c := .turn rfl (.here _ c)
  have all : ((sorted (pure ()) c.parts.size).run c).toOption.map (fun x => (x.1, x.2.complaints)) =
      some (.declaration, []) := by decide +kernel
  cases run : (sorted (pure ()) c.parts.size).run c with
  | error e => simp [run, Except.toOption] at all
  | ok x =>
    obtain ⟨form, d⟩ := x
    obtain ⟨rfl, quiet⟩ : form = .declaration ∧ d.complaints = [] := by
      simpa [run, Except.toOption] using all
    obtain ⟨-, ends⟩ := atStatementStart_of_declaration ready run quiet
    obtain ⟨e, ended, same⟩ := (ends (by decide)).1 b .statementEnd .type startReady rfl goes
    exact ⟨b, c, e, rfl, rfl, ended, same⟩

/-- A generator that is a statement of its own is taken for the rest of a type without `;`. -/
theorem generator_lost :
    ((parse "function* g(): void;").toOption.map fun p =>
      ((p.tree.descendants .functionDeclaration).length, p.diagnostics.length)) = some (1, 0) ∧
    ((parse "type A = number\nfunction* g(): void;").toOption.map fun p =>
      ((p.tree.descendants .functionDeclaration).length, p.diagnostics.length)) = some (0, 0) := by
  decide +kernel

end ImplicitGlobals.Grammar
