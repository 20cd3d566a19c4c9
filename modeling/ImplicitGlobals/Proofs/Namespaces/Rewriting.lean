import ImplicitGlobals.Proofs.Diagnostic.Enclosing
import ImplicitGlobals.Proofs.Namespaces.Announcing
import ImplicitGlobals.Proofs.Namespaces.Forms

/-!
# Another form in the place of a namespace

Words in which a namespace is written in another form are read as they were, but for the namespace.
The two runs are in lockstep. Up to the keyword of the namespace they are at the same words, and no
test looks past its name; behind the namespace they are at the same words again. Where the keyword
is read as anything but the one that announces the module, the first run is lost and nothing is said.
-/

namespace ImplicitGlobals.Grammar

variable {c c' d e : Cursor}

/-! ### Nodes with a first word -/

/-- A word was read, and then parts were added. -/
structure Headed (label : Word → LeafKind) (o e : Cursor) : Prop extends Advances o e where
  parts : e.Tidy → ∃ w us ps, o.rest.head? = some w ∧ e.parts.toList = us ++ .leaf (.word o.passed (label w)) :: ps ∧
    o.parts.size ≤ us.length ∧ ∀ i ∈ Tree.wordsOf ps, o.passed < i

/-- A node whose body begins with a word is headed by it. -/
theorem headed {t r : Rule Unit} {label : Word → LeafKind}
    (took : ∀ c, Yields t c fun _ d => ∃ w, Took (label w) w c d) (advances : Trails Advances r)
    (forms : Forms Anywhere r fun _ => ⊤) (o : Cursor) : Yields (t >>= fun _ => r) o fun _ e => Headed label o e := by
  refine (took o).bind fun _ d read x e run => ?_
  obtain ⟨w, read⟩ := read
  have onward := advances d x e run
  refine ⟨(Advances.took read).trans onward, fun tidy => ?_⟩
  obtain ⟨-, fills⟩ := forms d (fun _ => trivial) x e run tidy
  obtain ⟨-, ps, -, parts, -⟩ := fills.content
  obtain ⟨gap, before⟩ := read.parts
  refine ⟨w, o.parts.toList ++ (gap.due o.passed).toList, ps, by rw [read.rest]; rfl, ?_, by simp, fun i mem => ?_⟩
  · rw [parts, before, List.append_assoc]
    rfl
  · have words := onward.words
    rw [parts, Tree.wordsOf_append] at words
    rw [List.append_cancel_left words, List.mem_range'_1, read.passed] at mem
    omega

/-- What is behind the keyword of a module reads on. -/
theorem moduleRest_forms (n : Nat) : Forms Anywhere (moduleRest (statementWithin n)) fun _ => ⊤ :=
  .both moduleName_forms fun _ => .branch (currentIs_answers _)
    (moduleBlock_forms (statementWithin_forms n)).any.anywhere expectSemicolon_forms.anywhere

/-- A module is headed by its keyword. -/
theorem moduleDeclaration_headed (n : Nat) (o : Cursor) :
    Yields (do bumpKeyword; moduleRest (statementWithin n)) o fun _ e => Headed wordLabel o e :=
  headed bumpKeyword_yields (advancing.moduleRest (p := Anywhere) (advancing.statementWithin n n))
    (moduleRest_forms n) o

/-- The global scope is headed by its own. -/
theorem globalDeclaration_headed (n : Nat) (o : Cursor) :
    Yields (do takeKeyword .kwGlobal; moduleBlock (statementWithin n)) o fun _ e =>
      Headed (fun _ => .keyword .kwGlobal) o e :=
  headed (takeKeyword_yields _) (advancing.moduleBlock (p := Anywhere) (advancing.statementWithin n n))
    (moduleBlock_forms (statementWithin_forms n)).any o

/-- Every label for a word spelt with letters is one of those. -/
theorem isIdentifier_wordLabel (w : Word) : (wordLabel w).isIdentifier = true := by
  unfold wordLabel
  cases Keyword.ofWord? w.text <;> rfl

theorem wordLabel_of_isWord {w : Word} {k : Keyword} (is : w.isWord k.word = true) : wordLabel w = .keyword k := by
  simp only [Word.isWord, Bool.and_eq_true, beq_iff_eq] at is
  rw [wordLabel, is.2, Keyword.ofWord?_word]
  rfl

theorem announces_wordLabel {w : Word} {ws : List Word} (announced : AtModule (w :: ws)) :
    (wordLabel w).announcesModule = true := by
  rcases announced with h | h <;> rw [wordLabel_of_isWord h] <;> rfl

/-! ### The words -/

/-- A namespace in one of the ways to write it, from its keyword on, and what stands around it. -/
def namespaceWords (front : List Word) (keyword name : Word) (form back : List Word) : List Word :=
  front ++ keyword :: name :: (form ++ back)

/-- Words with a namespace in them, and another form for what stands behind its first name. If something
is read there without a complaint, both forms are read. -/
structure Rewriting where
  front : List Word
  keyword : Word
  name : Word
  form : List Word
  form' : List Word
  back : List Word
  announces : keyword.isWord Keyword.kwNamespace.word = true
  /-- What the two forms are read as. -/
  Forms : List SyntaxTree → List SyntaxTree → Prop
  silent' {ts ts' : List SyntaxTree} (forms : Forms ts ts') : ∀ a, Tree.leaf a ∈ ts' → a.kind.isIdentifier = false
  reads {m : Nat} {c d : Cursor} (ready : Ready (namespaceWords front keyword name form back) c)
    (rest : c.rest = name :: (form ++ back)) (run : (moduleRest (statementWithin m)).run c = .ok ((), d))
    (tidy : d.Tidy) : ∃ ts ts', Forms ts ts' ∧
      ReadsRest (namespaceWords front keyword name form back) (name :: form) back ts ∧
        ReadsRest (namespaceWords front keyword name form' back) (name :: form') back ts'

namespace Rewriting

variable (b : Rewriting)

/-- The words of the first source. -/
def words : List Word := namespaceWords b.front b.keyword b.name b.form b.back

/-- The words of the second source. -/
def words' : List Word := namespaceWords b.front b.keyword b.name b.form' b.back

/-- The number of the keyword. -/
def start : Nat := b.front.length

/-- How many words the namespace has, its keyword included. -/
def width : Nat := b.form.length + 2

/-- How many words stand for the namespace in the second source. -/
def width' : Nat := b.form'.length + 2

/-- The namespace in the words of the first source. -/
theorem drop_words : b.words.drop b.start = b.keyword :: b.name :: (b.form ++ b.back) := List.drop_left

theorem drop_words' : b.words'.drop b.start = b.keyword :: b.name :: (b.form' ++ b.back) := List.drop_left

/-- Behind the namespace the words are the same. -/
theorem drop_words_behind (k : Nat) : b.words.drop (b.start + b.width + k) = b.back.drop k := by
  rw [← List.drop_drop, ← List.drop_drop, drop_words]
  exact congrArg _ List.drop_left

theorem drop_words'_behind (k : Nat) : b.words'.drop (b.start + b.width' + k) = b.back.drop k := by
  rw [← List.drop_drop, ← List.drop_drop, drop_words']
  exact congrArg _ List.drop_left

/-- The leaf of the keyword. -/
abbrev keywordSlot : Slot := .word b.start (.keyword .kwNamespace)

/-! ### The trees -/

/-- The same words in the two sources. -/
abbrev SameWords (t u : Tree Slot) : Prop := Tree.Coincide (bareSlot b.words) (bareSlot b.words') t u

/-- The one tree holds the namespace, and the other one its other form in the same place. -/
inductive Rewritten (b : Rewriting) : Tree Slot → Tree Slot → Prop
  | here {us ps ps' : List (Tree Slot)} (leaves : us.all Tree.isLeaf = true)
      (first : ∀ a, Tree.leaf a ∈ us → a.label.announcesModule = false)
      (last : ∀ a, Tree.leaf a ∈ ps → a.label.isIdentifier = false)
      (last' : ∀ a, Tree.leaf a ∈ ps' → a.label.isIdentifier = false)
      (earlier : ∀ i ∈ Tree.wordsOf us, i < b.start)
      (forms : b.Forms (Tree.expandAll (bareSlot b.words) ps) (Tree.expandAll (bareSlot b.words') ps')) :
      Rewritten b (.node .moduleDeclaration (us ++ .leaf b.keywordSlot :: ps))
        (.node .moduleDeclaration (us ++ .leaf b.keywordSlot :: ps'))
  | within {kind : NodeKind} (encloses : kind.enclosesStatements = true) {as bs bs' : List (Tree Slot)}
      {t t' : Tree Slot} (earlier : ∀ i ∈ Tree.wordsOf as, i < b.start) (inner : Rewritten b t t')
      (later : List.Forall₂ b.SameWords bs bs') : Rewritten b (.node kind (as ++ t :: bs)) (.node kind (as ++ t' :: bs'))

/-- One of the trees holds the namespace. -/
inductive RewrittenIn (b : Rewriting) : List (Tree Slot) → List (Tree Slot) → Prop
  | intro {as bs bs' : List (Tree Slot)} {t t' : Tree Slot} (earlier : ∀ i ∈ Tree.wordsOf as, i < b.start)
      (inner : b.Rewritten t t') (later : List.Forall₂ b.SameWords bs bs') : RewrittenIn b (as ++ t :: bs) (as ++ t' :: bs')

/-- The namespace is among the trees. -/
def FoundIn (b : Rewriting) (ts : List (Tree Slot)) : Prop := ∃ t ∈ ts, t.Announced Slot.label b.keywordSlot

variable {b} {ts ts' us us' : List (Tree Slot)}

/-- The rewritten tree still announces the module. -/
theorem Rewritten.announced {t t' : Tree Slot} (h : b.Rewritten t t') : t'.Announced Slot.label b.keywordSlot := by
  induction h with
  | here leaves first _ last' => exact .here (.intro leaves first last')
  | within encloses _ _ _ ih => exact .within encloses ih

/-- Later parts are the same on both sides. -/
theorem RewrittenIn.append (h : b.RewrittenIn ts ts') (later : List.Forall₂ b.SameWords us us') :
    b.RewrittenIn (ts ++ us) (ts' ++ us') := by
  obtain ⟨earlier, inner, behind⟩ := h
  rw [List.append_assoc, List.append_assoc]
  exact .intro earlier inner (List.rel_append behind later)

theorem RewrittenIn.length_eq (h : b.RewrittenIn ts ts') : ts'.length = ts.length := by
  obtain ⟨_, _, later⟩ := h
  simp [later.length_eq]

theorem sameWords_due (gap : Gap) (i j : Nat) :
    List.Forall₂ b.SameWords (gap.due i).toList (gap.due j).toList := by
  unfold Gap.due
  split
  · exact .cons rfl .nil
  · exact .nil

/-- The namespace is among two lists if it is among one. -/
theorem foundIn_append : b.FoundIn (ts ++ us) ↔ b.FoundIn ts ∨ b.FoundIn us := by
  simp [FoundIn, or_and_right, exists_or]

theorem not_foundIn_leaves (leaves : ts.all Tree.isLeaf = true) : ¬b.FoundIn ts := by
  rintro ⟨t, mem, announced⟩
  obtain ⟨k, us, rfl, -⟩ := announced.exists_node
  cases List.all_eq_true.1 leaves _ mem

theorem not_foundIn_due (gap : Gap) (i : Nat) : ¬b.FoundIn (gap.due i).toList :=
  not_foundIn_leaves (by unfold Gap.due; split <;> rfl)

/-- The keyword is read when the namespace is in the tree. -/
theorem mem_wordsOf_of_foundIn (found : b.FoundIn ts) : b.start ∈ Tree.wordsOf ts := by
  obtain ⟨t, mem, announced⟩ := found
  exact List.mem_filterMap.2 ⟨_, Tree.mem_leavesOf.2 ⟨t, mem, announced.mem_leaves⟩, rfl⟩

/-- Words before the namespace are none of its own. -/
theorem not_foundIn_of_earlier (earlier : ∀ i ∈ Tree.wordsOf ts, i < b.start) : ¬b.FoundIn ts := fun found =>
  Nat.lt_irrefl _ (earlier _ (mem_wordsOf_of_foundIn found))

/-- The last trees are put into a node; the namespace is still found there. -/
theorem RewrittenIn.close {kind : NodeKind} {first : Nat} (h : b.RewrittenIn ts ts')
    (found : b.FoundIn (ts.take first ++ [.node kind (ts.drop first)])) :
    b.RewrittenIn (ts.take first ++ [.node kind (ts.drop first)]) (ts'.take first ++ [.node kind (ts'.drop first)]) := by
  obtain @⟨as, bs, bs', t, t', earlier, inner, later⟩ := h
  have among {us : List (Tree Slot)} (part : us <+: as ∨ us <:+ as) : ∀ i ∈ Tree.wordsOf us, i < b.start := fun i mem => by
    rcases part with ⟨vs, rfl⟩ | ⟨vs, rfl⟩ <;> exact earlier i (by simp [Tree.wordsOf_append, mem])
  rcases Nat.lt_or_ge as.length first with behind | upTo
  · obtain ⟨k, rfl⟩ := Nat.exists_eq_add_of_lt behind
    rw [Nat.add_assoc, List.take_length_add_append, List.drop_length_add_append, List.take_length_add_append,
      List.drop_length_add_append, List.take_succ_cons, List.drop_succ_cons, List.take_succ_cons, List.drop_succ_cons,
      List.append_assoc, List.append_assoc]
    exact .intro earlier inner
      (List.rel_append (List.forall₂_take k later) (.cons (.node kind (List.forall₂_drop k later)) .nil))
  · rw [List.take_append_of_le_length upTo, List.drop_append_of_le_length upTo, List.take_append_of_le_length upTo,
      List.drop_append_of_le_length upTo] at *
    have node := (foundIn_append.1 found).resolve_left (not_foundIn_of_earlier (among (.inl (List.take_prefix _ _))))
    obtain ⟨u, mem, announced⟩ := node
    obtain rfl := List.mem_singleton.1 mem
    obtain ⟨_, _, is, encloses⟩ := announced.exists_node
    obtain ⟨rfl, -⟩ := Tree.node.inj is
    exact .intro (among (.inl (List.take_prefix _ _)))
      (.within encloses (among (.inr (List.drop_suffix _ _))) inner later) .nil

/-- A node that is closed is not the namespace if another word announces it. -/
theorem foundIn_of_closeNode {kind : NodeKind} {first : Nat}
    (found : b.FoundIn (e.closeNode kind first).parts.toList)
    (other : kind = .moduleDeclaration → ¬Tree.LedBy Slot.label b.keywordSlot (e.parts.toList.drop first)) :
    b.FoundIn e.parts.toList := by
  rw [Cursor.toList_parts_closeNode, foundIn_append] at found
  rw [← List.take_append_drop first e.parts.toList, foundIn_append]
  refine found.imp_right fun ⟨t, mem, announced⟩ => ?_
  rw [List.mem_singleton.1 mem] at announced
  generalize children : e.parts.toList.drop first = cs at announced
  cases announced with
  | here led => exact absurd (children ▸ led) (other rfl)
  | within encloses inner => exact ⟨_, List.mem_append_right _ List.mem_cons_self, inner⟩

/-! ### One run -/

/-- The keyword is read, and not as the one that announces the namespace. -/
def Lost (b : Rewriting) (c : Cursor) : Prop := b.start < c.passed ∧ (c.Tidy → ¬b.FoundIn c.parts.toList)

/-- A namespace that is behind and not lost was found. -/
theorem foundIn_of_not_lost (late : b.start < c.passed) (h : ¬b.Lost c) : b.FoundIn c.parts.toList :=
  Classical.not_not.1 fun none => h ⟨late, fun _ => none⟩

/-- Behind the keyword no module comes about that it announces. -/
structure Leaves (b : Rewriting) (c d : Cursor) : Prop extends Advances c d where
  found : d.Tidy → b.start < c.passed → b.FoundIn d.parts.toList → b.FoundIn c.parts.toList

namespace Leaves

/-- What is lost stays lost. -/
theorem lost (h : b.Leaves c d) (lost : b.Lost c) : b.Lost d :=
  ⟨Nat.lt_of_lt_of_le lost.1 h.toAdvances.passed_le, fun tidy found =>
    lost.2 (h.toAdvances.tidy tidy) (h.found tidy lost.1 found)⟩

theorem placeGap (c : Cursor) : b.Leaves c c.placeGap := by
  refine ⟨.placeGap c, fun _ _ found => ?_⟩
  rw [Cursor.toList_parts_placeGap, foundIn_append] at found
  exact found.resolve_right (not_foundIn_due _ _)

/-- A word that is read leaves the parts as they are. -/
theorem took {label : LeafKind} {w : Word} (took : Took label w c d) : b.Leaves c d := by
  refine ⟨.took took, fun _ _ found => ?_⟩
  obtain ⟨gap, parts⟩ := took.parts
  rw [parts, List.append_assoc, foundIn_append, foundIn_append] at found
  exact found.resolve_right (not_or.2 ⟨not_foundIn_due _ _, not_foundIn_leaves rfl⟩)

theorem trans (h : b.Leaves c d) (g : b.Leaves d e) : b.Leaves c e :=
  ⟨h.toAdvances.trans g.toAdvances, fun tidy late found =>
    h.found (g.toAdvances.tidy tidy) late
      (g.found tidy (Nat.lt_of_lt_of_le late h.toAdvances.passed_le) found)⟩

/-- A node that is no module, or is announced by another word. -/
theorem close {kind : NodeKind} {first : Nat} (body : b.Leaves (c.openNode kind first) e)
    (among : first ≤ c.parts.size) (outer : ∀ o ∈ c.opened.head?, o.first ≤ first)
    (other : e.Tidy → b.start < c.passed → kind = .moduleDeclaration →
      ¬Tree.LedBy Slot.label b.keywordSlot (e.parts.toList.drop first)) : b.Leaves c (e.closeNode kind first) :=
  ⟨body.toAdvances.close among fun _ => outer, fun tidy late found =>
    have tidy : e.Tidy := ⟨tidy.complaints, tidy.lastPlace, tidy.refused⟩
    body.found tidy late (foundIn_of_closeNode found (other tidy late))⟩

theorem trail : Trail (· ≠ .moduleDeclaration) b.Leaves where
  refl c := ⟨.refl c, fun _ _ => id⟩
  trans := .trans
  opened h := h.opened
  count c gap looks depth _ kept := ⟨advances_trail.count c gap looks depth kept, fun _ _ => id⟩
  took := .took
  placeGap := .placeGap
  note fresh makes := ⟨advances_trail.note fresh makes, fun _ _ => id⟩
  close ordinary among outer body := ⟨body.toAdvances.close among outer, fun tidy late found =>
    body.found ⟨tidy.complaints, tidy.lastPlace, tidy.refused⟩ late
      (foundIn_of_closeNode found fun module => absurd module ordinary)⟩
  within {_ _ f _ _} kind read body := by
    have before := Leaves.took (b := b) read
    refine ⟨advances_trail.within kind read body.toAdvances, fun tidy late found => ?_⟩
    have tidy : f.Tidy := ⟨tidy.complaints, tidy.lastPlace, tidy.refused⟩
    exact before.found (body.toAdvances.tidy tidy) late
      (body.found tidy (Nat.lt_of_lt_of_le late before.toAdvances.passed_le) found)

end Leaves

/-- A module that begins elsewhere is not announced by the keyword. -/
theorem not_ledBy {label : LeafKind} {i : Nat} {us ps : List (Tree Slot)} (elsewhere : i ≠ b.start)
    (later : ∀ j ∈ Tree.wordsOf ps, i < j) (identifier : label.isIdentifier = true)
    (apart : b.start < i ∨ label.announcesModule = true) :
    ¬Tree.LedBy Slot.label b.keywordSlot (us ++ .leaf (.word i label) :: ps) := fun led => by
  have other : Tree.leaf (.word i label) ≠ .leaf b.keywordSlot := fun same => by
    cases same
    exact elsewhere rfl
  generalize split : us ++ .leaf (.word i label) :: ps = parts at led
  obtain @⟨before, behind, -, first, last⟩ := led
  rcases List.append_eq_append_iff.1 split with ⟨more, rfl, rest⟩ | ⟨more, rfl, rest⟩
  · cases more with
    | nil => exact other (List.cons.inj rest).1
    | cons t more =>
      obtain ⟨rfl, rfl⟩ := List.cons.inj rest
      rcases apart with late | announces
      · have among : b.start ∈ Tree.wordsOf (more ++ .leaf b.keywordSlot :: behind) :=
          List.mem_filterMap.2 ⟨b.keywordSlot, by simp [Tree.leavesOf, Tree.leaves], rfl⟩
        have := later _ among
        omega
      · have none : label.announcesModule = false := first _ (List.mem_append_right _ List.mem_cons_self)
        simp [none] at announces
  · cases more with
    | nil => exact other (List.cons.inj rest).1.symm
    | cons t more =>
      obtain ⟨rfl, rfl⟩ := List.cons.inj rest
      have none : label.isIdentifier = false := last _ (List.mem_append_right _ List.mem_cons_self)
      simp [none] at identifier

/-- A node with a first word that is not the keyword. -/
theorem not_ledBy_of_headed {label : Word → LeafKind} {o : Cursor} {first : Nat} (headed : Headed label o e)
    (among : first ≤ o.parts.size) (elsewhere : o.passed ≠ b.start) (identifier : ∀ w, (label w).isIdentifier = true)
    (apart : b.start < o.passed ∨ ∀ w ∈ o.rest.head?, (label w).announcesModule = true) (tidy : e.Tidy) :
    ¬Tree.LedBy Slot.label b.keywordSlot (e.parts.toList.drop first) := by
  obtain ⟨w, us, ps, here, parts, size, later⟩ := headed.parts tidy
  rw [parts, List.drop_append_of_le_length (Nat.le_trans among size)]
  exact not_ledBy elsewhere later (identifier w) (apart.imp_right fun h => h w here)

/-- A module that begins with another word. -/
theorem Leaves.headed {label : Word → LeafKind} {point : Checkpoint} {body : Rule Unit} (inner : Trails b.Leaves body)
    (headed : ∀ o, Yields body o fun _ e => Headed label o e) (identifier : ∀ w, (label w).isIdentifier = true) :
    Trails b.Leaves (nodeAt point .moduleDeclaration body) := fun c => by
  have both : Yields body (c.openNode .moduleDeclaration point) fun _ e =>
      b.Leaves (c.openNode .moduleDeclaration point) e ∧ Headed label (c.openNode .moduleDeclaration point) e :=
    fun x e run => ⟨inner _ x e run, headed _ x e run⟩
  refine (nodeAt_closes both).imp fun _ d closed => ?_
  obtain ⟨among, outer, e, o, os, ⟨leaves, headed⟩, top, rfl⟩ := closed
  obtain ⟨rfl, -⟩ := List.cons.inj (top.symm.trans leaves.opened)
  exact leaves.close among outer fun tidy late _ =>
    not_ledBy_of_headed headed among (Nat.ne_of_gt late) identifier (.inl late) tidy

end Rewriting

end ImplicitGlobals.Grammar
