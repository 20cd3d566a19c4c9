import ImplicitGlobals.Proofs.Budget.Exact
import ImplicitGlobals.Proofs.Mending.Notes
import ImplicitGlobals.Proofs.Mending.Statements

/-!
# A semicolon mends a source

A semicolon is missed only in front of a word, never at the end of a source.

Two runs over all words of a source, the second one with a semicolon put in front of a word in front of
which the first run says that one is missing.
-/

namespace ImplicitGlobals.Grammar

variable {α β : Type} {c d : Cursor}

/-- Where a semicolon is said to be missing, it is so in front of a word of the source. -/
def Cursor.Between (c : Cursor) : Prop :=
  ∀ k ∈ c.complaints, k.kind = .expectedSemicolon → ∃ i enclosing, k = .noSemicolon i enclosing ∧
    i < c.passed + c.rest.length

/-- What is built and opened does not count. -/
theorem Cursor.Between.congr (h : c.Between) (complaints : d.complaints = c.complaints) (rest : d.rest = c.rest)
    (passed : d.passed = c.passed) : d.Between := fun k mem of => by
  rw [rest, passed]
  exact h k (complaints ▸ mem) of

theorem Cursor.Between.stays (h : c.Between) (stays : Stays c d) : d.Between :=
  h.congr stays.complaints stays.rest stays.passed

theorem Cursor.Between.took (h : c.Between) {label : LeafKind} {w : Word} (took : Took label w c d) : d.Between :=
  fun k mem of => by
    obtain ⟨i, enclosing, is, before⟩ := h k (took.complaints ▸ mem) of
    rw [took.rest, List.length_cons] at before
    exact ⟨i, enclosing, is, by rw [took.passed]; omega⟩

/-- Entered at such words, the rule keeps to that. -/
def KeepsBetween (p : List Word → Prop) (r : Rule α) : Prop :=
  ∀ c, p c.rest → c.Between → Yields r c fun _ d => d.Between

namespace KeepsBetween

variable {p : List Word → Prop} {r : Rule α}

theorem bind {q : α → List Word → Prop} {f : α → Rule β} (h : KeepsBetween p r)
    (keeps : ∀ c, p c.rest → Yields r c fun x d => q x d.rest) (next : ∀ x, KeepsBetween (q x) (f x)) :
    KeepsBetween p (r >>= f) := fun c entry between =>
  have both : Yields r c fun x d => q x d.rest ∧ d.Between := fun x d run =>
    ⟨keeps c entry x d run, h c entry between x d run⟩
  both.bind fun x d post => next x d post.1 post.2

theorem stay (stays : ∀ c, Yields r c fun _ d => Stays c d) : KeepsBetween p r := fun c _ between =>
  (stays c).imp fun _ _ => between.stays

theorem answers {v : List Word → Option Limit → α} (answers : Answers r v) : KeepsBetween p r :=
  stay fun c => (answers c).imp fun _ _ post => post.2.stays

theorem takeAs (label : LeafKind) : KeepsBetween p (takeAs label) := fun c _ between =>
  (takeAs_yields label c).imp fun _ _ took => between.took took.choose_spec

/-- A complaint is made of something else, or of a semicolon in front of a word. -/
theorem complain {k : Nat → Option Nat → Complaint}
    (fits : ∀ c : Cursor, p c.rest → ∀ enclosing, (k c.passed enclosing).kind = .expectedSemicolon →
      k c.passed enclosing = .noSemicolon c.passed enclosing ∧ c.rest ≠ []) : KeepsBetween p (complain k) :=
  fun c entry between => by
    refine (mark_yields c).bind fun i d post => .modify ?_
    obtain ⟨rfl, same⟩ := post
    have kept := between.stays same.stays
    obtain ⟨gap, looks, depth, rfl⟩ := same
    split
    · exact kept
    · intro j mem of
      rcases List.mem_cons.1 mem with rfl | mem
      · obtain ⟨is, some⟩ := fits c entry _ of
        exact ⟨_, _, is, Nat.lt_add_of_pos_right (List.length_pos_iff.2 some)⟩
      · exact kept j mem of

/-- Keeping to it as a relation between rules of which only the first counts. -/
def relation : RuleRelation where
  Rel p _ r _ := KeepsBetween p r
  given h entry c holds := h c (entry _ holds)
  pure _ := fun _ _ between => .pure between
  throwLeft b _ := fun _ _ _ => .throw b
  throwRight h _ := h
  bind {_ _ _ _ V _ _ _ _ _} h keeps next := h.bind keeps fun x => have ⟨y, both⟩ := V.total x; next x y both
  look sees := answers sees.answers
  mark := stay fun c => (mark_yields c).imp fun _ _ post => post.2.stays
  atEnd := answers atEnd_answers
  isRefused := answers isRefused_answers
  inBlock := stay fun c => .get (.pure (Same.refl c).stays)
  bounded h c entry between := .get (h c.total c.total c entry between)
  takeAs label := takeAs label
  placeGap := stay fun c => .modify (.placeGap c)
  skipGap := stay fun c => .modify (Same.stays ⟨_, _, _, rfl⟩)
  points := .any
  checkpoint := fun c _ between x d run => by
    cases run
    exact between.congr rfl rfl rfl
  Ordinary _ := True
  ordinary _ := trivial
  node _ _ _ h c entry between := node_builds fun d left =>
    (h d (left.rest ▸ entry) (between.stays left)).imp fun _ _ kept _ after => kept.stays after
  nodeAt _ _ _ _ _ _ h c entry between := nodeAt_builds fun d left =>
    (h d (left.rest ▸ entry) (between.stays left)).imp fun _ _ kept _ after => kept.stays after
  inside kind _ _ h c _ between := inside_yields fun {d _ _ _} same read =>
    have pushed : (d.pushOpener kind).Between := (between.stays same.stays).congr rfl rfl rfl
    (h _ trivial (pushed.took read)).imp fun _ _ kept => kept.congr rfl rfl rfl
  descend c _ between := .get <| .ite (fun _ => fun _ _ run => by cases run; exact between.congr rfl rfl rfl)
    fun _ => fun _ _ run => by cases run; exact between.congr rfl rfl rfl
  ascend := stay fun c => (ascend_yields c).imp fun _ _ same => same.stays
  here {_ kind} plain _ := complain fun _ _ _ of => by
    obtain rfl : kind = .expectedSemicolon := of
    cases plain
  noSemicolon more := complain fun c holds _ _ => ⟨rfl, more c.rest holds⟩
  unclosed {_ kind} unclosed _ _ _ := complain fun _ _ _ of => by
    obtain rfl : kind = .expectedSemicolon := of
    cases unclosed

/-- Every rule keeps to it. -/
def whole : GrammarRelation where
  toRuleRelation := relation
  ofTypeExpr special := absurd trivial special
  ofExportDefault special := absurd ⟨trivial, trivial⟩ special
  ofExportAssignment special := absurd ⟨trivial, trivial⟩ special
  ofImportDeclaration special := absurd trivial special
  ofModuleDeclaration special := absurd trivial special
  ofGlobalDeclaration special := absurd trivial special
  ofBracedBody _ special := absurd trivial special
  ofList _ special := absurd trivial special

end KeepsBetween

namespace Mending

variable {m : Mending} {c c' : Cursor} {front back : List Word} {w : Word} {newer older old : List Complaint}
  {enclosing : Option Nat} {i : Nat}

/-- At the start of a source nothing is different yet. -/
theorem twin_start (front : List Word) (w : Word) (back : List Word) :
    Twin ⟨front.length, w, back⟩ front (.start {} (front ++ w :: back)) (.start {} (front ++ semicolon :: w :: back)) where
  rest := rfl
  place := Nat.zero_add _
  free := rfl
  refused := rfl
  last := nofun
  complaints := nofun
  rest' := rfl
  passed := rfl
  openers := rfl
  free' := rfl
  refused' := rfl
  lastPlace := rfl
  complaints' := rfl

/-- The complaints before a word are those that stand behind that of the word itself. -/
theorem older_of_onto (order : c.complaints.Pairwise Complaint.Follows)
    (complaints : c.complaints = newer ++ .noSemicolon i enclosing :: older)
    (onto : c.Onto i old) (before : ∀ k ∈ old, k.place < i) : old = older := by
  obtain ⟨new, added, places⟩ := onto.added
  have earlier (cs : List Complaint) (none : ∀ k ∈ cs, i ≤ k.place) : cs.filter (·.place < i) = [] := by
    simpa using none
  have all (cs : List Complaint) (some : ∀ k ∈ cs, k.place < i) : cs.filter (·.place < i) = cs := by
    simpa using some
  rw [complaints] at order
  obtain ⟨-, behind, across⟩ := List.pairwise_append.1 order
  have later (k : Complaint) (mem : k ∈ newer) : i ≤ k.place :=
    Nat.le_of_lt (across k mem _ List.mem_cons_self).behind
  have split := congrArg (List.filter (·.place < i)) (added.symm.trans complaints)
  rw [List.filter_append, earlier new places, all old before, List.filter_append, earlier newer later,
    List.filter_cons_of_neg (by simp [Complaint.place]), all older fun k mem => ?_] at split
  · exact split
  · exact ((List.pairwise_cons.1 behind).1 k mem).behind

/-- Put where one is said to be missing, a semicolon changes nothing of what was complained of before. No
semicolon is missing behind it unless no statement begins there and a type takes it in. Where a statement
begins behind it, one complaint less is made. -/
theorem source_mended (run : source.run (.start {} (front ++ w :: back)) = .ok ((), c))
    (run' : source.run (.start {} (front ++ semicolon :: w :: back)) = .ok ((), c'))
    (complaints : c.complaints = newer ++ .noSemicolon front.length enclosing :: older) :
    (∃ new, c'.complaints = new ++ older ∧ ∀ k ∈ new, front.length ≤ k.place) ∧
      ((∃ o, .noSemicolon (front.length + 1) o ∈ c'.complaints) → beginsStatement (w :: back) = false ∧
        ∃ us, c'.Has .typeExpr us ∧ front.length ∈ Tree.wordsOf us) ∧
      (beginsStatement (w :: back) = true → c'.complaints.length + 1 = c.complaints.length) := by
  let m : Mending := ⟨front.length, w, back⟩
  obtain ⟨_, run₀, walk, complete⟩ := source_run {} (front ++ w :: back)
  cases run₀.symm.trans run
  have order := (walk.orderly (.start {} _)).order
  have rest : c.rest = [] := complete.ended.resolve_right (absurd (not_refused_of_source run))
  have outcome := (source_mends (m := m) (p := Anywhere)).goes front _ _ (twin_start front w back) trivial _ _ run _ _ run'
  rcases outcome with ⟨-, us, twin⟩ | (judged | ⟨swallows, swallowed⟩ | ⟨old, o, before, onto, onto', judged, begins⟩) | none
  -- At the end of the words the runs cannot stand before the word in question.
  · have ahead := twin.rest
    rw [rest] at ahead
    exact absurd ahead (by simp [Mending.ahead])
  -- The first run has complained there, so the question was not settled without it.
  · exact absurd (complaints ▸ List.mem_append_right _ List.mem_cons_self) (judged.whole enclosing)
  -- A type has taken the semicolon in.
  · obtain ⟨old, before, onto, onto'⟩ := swallows.onto
    obtain rfl := older_of_onto order complaints onto before
    refine ⟨onto'.added, fun _ => ⟨swallows.stray, swallowed⟩, fun begins => ?_⟩
    exact absurd (swallows.stray.symm.trans begins) Bool.false_ne_true
  -- The semicolon was read as one: from there on the same is complained of, one word later.
  · obtain ⟨new, added, places⟩ := onto.added
    have onto : c.Onto front.length old := by
      refine ⟨onto.behind, new ++ [.noSemicolon front.length o], by simpa using added, fun k mem => ?_⟩
      rcases List.mem_append.1 mem with mem | mem
      · exact places k mem
      · exact Nat.le_of_eq (List.mem_singleton.1 mem ▸ rfl)
    obtain rfl := older_of_onto order complaints onto before
    obtain ⟨new', added', places'⟩ := onto'.added
    refine ⟨⟨new', added', fun k mem => Nat.le_of_succ_le (places' k mem)⟩, fun again => ?_, fun starts => ?_⟩
    · obtain ⟨o, mem⟩ := again
      exact absurd mem (judged.whole o)
    · obtain ⟨-, silent, shifted⟩ := begins starts
      rcases shifted.counted with ⟨k, mem, spoilt⟩ | counted
      · exact absurd spoilt (silent.silent k mem)
      · obtain ⟨more, more', grown, grown', length⟩ := counted.added
        rw [grown, grown', List.length_append, List.length_append, List.length_cons, length, Nat.add_assoc]
  · exact none.elim

end Mending

end ImplicitGlobals.Grammar
