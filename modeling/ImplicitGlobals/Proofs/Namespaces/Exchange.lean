import ImplicitGlobals.Proofs.Namespaces.Alongside

/-!
# A source with the other form

Every rule reads words in which a namespace is written in its other form as it reads those with the
namespace. Only what reads a module has to be looked at: at the keyword both forms are read, and a
module that begins elsewhere is a node like any other.
-/

namespace ImplicitGlobals.Grammar

variable {c c' d e : Cursor} {point : Checkpoint}

/-! ### A module that was read -/

/-- What is read from the keyword on, up to what stands behind the namespace. -/
theorem Declared.passed {words left : List Word} {ts : List SyntaxTree} {keyword : Word} {ahead : List Word}
    (h : Declared words left ts point c d) (rest : c.rest = keyword :: (ahead ++ left)) :
    d.passed = c.passed + (ahead.length + 1) := by
  obtain ⟨ws, read, passed⟩ := h.advances.read
  have size := congrArg List.length (read.symm.trans rest)
  simp only [h.left, List.length_append, List.length_cons] at size
  omega

/-- The keyword was read, and then the other words of the module. -/
theorem Declared.words {words left : List Word} {ts : List SyntaxTree} (h : Declared words left ts point c d)
    (read : Tree.wordsOf c.parts.toList = List.range' 0 c.passed) :
    ∃ ps, d.parts.toList = c.skipGap.placeGap.parts.toList.take point ++ [.node .moduleDeclaration
      (c.skipGap.placeGap.parts.toList.drop point ++ .leaf (.word c.passed (.keyword .kwNamespace)) :: ps)] ∧
        Tree.expandAll (bareSlot words) ps = ts ∧ (∀ i ∈ Tree.wordsOf ps, c.passed < i ∧ i < d.passed) ∧
          ∀ us, us <:+: c.skipGap.placeGap.parts.toList → ∀ i ∈ Tree.wordsOf us, i < c.passed := by
  obtain ⟨ps, parts, trees⟩ := h.added
  have before : Tree.wordsOf c.skipGap.placeGap.parts.toList = List.range' 0 c.passed := by
    rw [Cursor.toList_parts_placeGap, Tree.wordsOf_append, wordsOf_due, List.append_nil]
    exact read
  have keyword : Tree.wordsOf [.leaf (.word c.passed (.keyword .kwNamespace))] = [c.passed] := rfl
  have after := h.advances.words
  rw [parts, Tree.wordsOf_append, Tree.wordsOf_node, ← Tree.wordsOf_append, ← List.append_assoc,
    List.take_append_drop, List.append_cons, Tree.wordsOf_append, Tree.wordsOf_append, keyword, before, read,
    List.append_assoc] at after
  -- The parts of a cursor spell the words passed in order, so the new parts hold those behind the keyword.
  have behind : Tree.wordsOf ps = List.range' (c.passed + 1) (d.passed - c.passed - 1) := by
    have own := List.append_cancel_left after
    rcases size : d.passed - c.passed with _ | n
    · rw [size] at own
      cases own
    · rw [size, List.range'_succ] at own
      exact (List.cons.inj own).2
  refine ⟨ps, parts, trees, fun i mem => ?_, fun us ⟨as, bs, inside⟩ i mem => ?_⟩
  · rw [behind, List.mem_range'_1] at mem
    omega
  · have among : i ∈ Tree.wordsOf c.skipGap.placeGap.parts.toList := by
      rw [← inside, Tree.wordsOf_append, Tree.wordsOf_append]
      exact List.mem_append_left _ (List.mem_append_right _ mem)
    rw [before, List.mem_range'_1] at among
    omega

namespace Rewriting

variable {b : Rewriting}

/-! ### The keyword in a tree -/

/-- A module that is announced by the keyword has no other identifier among its parts. -/
theorem ledBy_of_announced {us ps : List (Tree Slot)} (earlier : ∀ i ∈ Tree.wordsOf us, i < b.start)
    (later : ∀ i ∈ Tree.wordsOf ps, b.start < i)
    (announced : (Tree.node .moduleDeclaration (us ++ .leaf b.keywordSlot :: ps)).Announced Slot.label b.keywordSlot) :
    us.all Tree.isLeaf = true ∧ (∀ a, Tree.leaf a ∈ us → a.label.announcesModule = false) ∧
      ∀ a, Tree.leaf a ∈ ps → a.label.isIdentifier = false := by
  have behind : ¬b.FoundIn ps := fun found => Nat.lt_irrefl _ (later _ (mem_wordsOf_of_foundIn found))
  generalize split : us ++ .leaf b.keywordSlot :: ps = parts at announced
  cases announced with
  | here led =>
    obtain @⟨before, more, leaves, first, last⟩ := led
    have among {vs : List (Tree Slot)} (mem : Tree.leaf b.keywordSlot ∈ vs) : b.start ∈ Tree.wordsOf vs :=
      List.mem_filterMap.2 ⟨b.keywordSlot, Tree.mem_leavesOf.2 ⟨_, mem, List.mem_singleton.2 rfl⟩, rfl⟩
    have early : Tree.leaf b.keywordSlot ∉ us := fun mem => Nat.lt_irrefl _ (earlier _ (among mem))
    have late : Tree.leaf b.keywordSlot ∉ ps := fun mem => Nat.lt_irrefl _ (later _ (among mem))
    obtain ⟨rfl, -, rfl⟩ := (List.append_cons_inj_of_notMem early late).1 split
    exact ⟨leaves, first, last⟩
  | @within _ _ before more t inner =>
    obtain ⟨_, _, rfl, -⟩ := inner.exists_node
    have mem : Tree.node _ _ ∈ us ++ .leaf b.keywordSlot :: ps := split ▸ List.mem_append_right before List.mem_cons_self
    rcases List.mem_append.1 mem with mem | mem
    · exact absurd ⟨_, mem, inner⟩ (not_foundIn_of_earlier earlier)
    · exact absurd ⟨_, (List.mem_cons.1 mem).resolve_left nofun, inner⟩ behind

/-- The parts of the other form show no identifier either. -/
theorem not_isIdentifier_of_forms {ps : List (Tree Slot)} (among : ∀ i ∈ Tree.wordsOf ps, i < b.words'.length)
    {ts : List SyntaxTree} (forms : b.Forms ts (Tree.expandAll (bareSlot b.words') ps)) {a : Slot}
    (mem : Tree.leaf a ∈ ps) :
    a.label.isIdentifier = false := by
  cases a with
  | gap => rfl
  | word i label =>
    have inside : i ∈ Tree.wordsOf ps :=
      List.mem_filterMap.2 ⟨_, Tree.mem_leavesOf.2 ⟨_, mem, List.mem_singleton.2 rfl⟩, rfl⟩
    obtain ⟨w, here⟩ : ∃ w, b.words'[i]? = some w := ⟨_, List.getElem?_eq_getElem (among i inside)⟩
    have shown : bareSlot b.words' (.word i label) = [⟨label, ⟨w.kind, w.text, 0⟩⟩] := by
      rw [bareSlot, here]
      rfl
    exact b.silent' forms ⟨label, ⟨w.kind, w.text, 0⟩⟩
      (Tree.mem_leaf_expandAll.2 ⟨_, mem, shown ▸ List.mem_singleton.2 rfl⟩)

/-! ### At the keyword -/

theorem Alongside.stage_at (h : b.Alongside c c') (here : c.passed = b.start) :
    c'.passed = c.passed ∧ c'.parts.toList = c.parts.toList := by
  cases h.stage with
  | before _ passed' parts' => exact ⟨passed', parts'⟩
  | behind k passed =>
    rw [passed, width] at here
    omega

theorem start_le (b : Rewriting) : b.start + b.width' ≤ b.words'.length := by
  simp only [words', namespaceWords, start, width', List.length_append, List.length_cons]
  omega

/-- At the keyword both forms are read. Where it is not the namespace that was read, the first run is lost. -/
theorem Alongside.declaration (h : b.Alongside c c') (here : c.passed = b.start) (point : Checkpoint) (m n : Nat) :
    KeepsUp b.Lost b.Alongside .same (moduleDeclaration point (statementWithin m))
      (moduleDeclaration point (statementWithin n)) c c' := by
  intro x d run tidy
  obtain ⟨passed', parts'⟩ := h.stage_at here
  have rest : c.rest = b.keyword :: (b.name :: b.form ++ b.back) := by
    rw [h.ready.rest, here, drop_words]
    rfl
  have rest' : c'.rest = b.keyword :: (b.name :: b.form' ++ b.back) := by
    rw [h.ready'.rest, passed', here, drop_words']
    rfl
  -- What the first run has read there; the second form is read to match it, by assumption.
  obtain ⟨ts, ts', forms, reads, reads'⟩ : ∃ ts ts', b.Forms ts ts' ∧ ReadsRest b.words (b.name :: b.form) b.back ts ∧
      ReadsRest b.words' (b.name :: b.form') b.back ts' := by
    let o := c.openNode .moduleDeclaration point
    have body : Yields (do bumpKeyword; moduleRest (statementWithin m)) o fun _ e => e.Tidy → ∃ ts ts', b.Forms ts ts' ∧
        ReadsRest b.words (b.name :: b.form) b.back ts ∧ ReadsRest b.words' (b.name :: b.form') b.back ts' := by
      refine (bumpKeyword_yields o).bind fun _ f read y e run tidy => ?_
      obtain ⟨w, read⟩ := read
      have ready : Ready b.words o := h.ready.of rfl rfl rfl rfl rfl rfl
      obtain ⟨rfl, left⟩ := List.cons.inj (read.rest.symm.trans (show o.rest = _ from rest))
      exact b.reads (read.ready ready) left run tidy
    obtain ⟨-, -, e, _, _, read, -, rfl⟩ := nodeAt_closes body x d run
    exact read ⟨tidy.complaints, tidy.lastPlace, tidy.refused⟩
  have own := reads.declared b.announces h.ready rest point m x d run
  -- From here on the namespace is found: a run to which it is lost is not followed.
  by_cases lost : b.Lost d
  · exact .inl lost
  refine .inr fun y d' run' => ⟨rfl, ?_⟩
  have own' := reads'.declared b.announces h.ready' rest' point n y d' run'
  have passed : d.passed = b.start + b.width := by
    rw [own.passed rest, here]
    rfl
  have passed'' : d'.passed = b.start + b.width' := by
    rw [own'.passed rest', passed', here]
    rfl
  obtain ⟨ps, parts, rfl, later, earlier⟩ := own.words h.read
  obtain ⟨ps', parts'', rfl, later', -⟩ := own'.words (by rw [parts', passed', h.read])
  have same : c'.skipGap.placeGap.parts.toList = c.skipGap.placeGap.parts.toList := by
    rw [Cursor.toList_parts_placeGap, Cursor.toList_parts_placeGap]
    simp only [Cursor.skipGap, parts', h.gap, passed']
  rw [here] at parts later earlier
  rw [same, passed', here] at parts''
  have first := earlier _ (List.take_prefix point _).isInfix
  have modifiers := earlier _ (List.drop_suffix point _).isInfix
  -- Only the node that was just closed can announce it, the parts before are too early.
  have late : b.start < d.passed := by rw [passed, width]; omega
  have found : b.FoundIn d.parts.toList := foundIn_of_not_lost late lost
  rw [parts, foundIn_append] at found
  obtain ⟨t, mem, announced⟩ := found.resolve_left (not_foundIn_of_earlier first)
  rw [List.mem_singleton.1 mem] at announced
  obtain ⟨leaves, quiet, last⟩ := ledBy_of_announced modifiers (fun i mem => (later i mem).1) announced
  refine ⟨own.ready, own'.ready, .behind 0 passed passed'' ?_, own'.gap.trans own.gap.symm, ?_, ?_, ?_⟩
  · rw [parts, parts'']
    refine .intro first (.here leaves quiet last (fun a mem => ?_) modifiers forms) .nil
    refine not_isIdentifier_of_forms (fun i mem => ?_) forms mem
    have := (later' i mem).2
    have := b.start_le
    omega
  · rw [own.advances.opened, own'.advances.opened, h.opened]
  · rw [own.advances.openers, own'.advances.openers, h.openers]
  · rw [own.advances.words, h.read]
    exact range'_meet (Nat.zero_le _) own.advances.passed_le

/-! ### The grammar -/

theorem usual {kind : NodeKind} (usual : kind.isSpecial = false) : kind ≠ .moduleDeclaration := by
  rintro rfl
  cases usual

def rules (b : Rewriting) : RuleRelation := b.lockstep.relation fun _ => usual

/-- A module that begins at another word is a node like any other. -/
theorem elsewhere {label : Word → LeafKind} {body body' : Rule Unit} (inner : b.rules.Rel Anywhere .same body body')
    (headed : ∀ o, Yields body o fun _ e => Headed label o e) (identifier : ∀ w, (label w).isIdentifier = true)
    (h : b.Alongside c c') (other : c.passed ≠ b.start)
    (announces : ∀ w ∈ c.rest.head?, (label w).announcesModule = true) (point : Checkpoint) :
    KeepsUp b.Lost b.Alongside .same (nodeAt point .moduleDeclaration body) (nodeAt point .moduleDeclaration body')
      c c' := by
  obtain ⟨trails, keeps⟩ := inner
  intro x d run
  obtain ⟨among, -⟩ := nodeAt_closes (Q := fun _ => True) (fun _ _ _ => trivial) x d run
  have leaves : Yields body (c.openNode .moduleDeclaration point) fun _ e =>
      e.opened = (c.openNode .moduleDeclaration point).opened ∧
        (e.Tidy → Headed label (c.openNode .moduleDeclaration point) e) := fun y e run =>
    ⟨(trails _ y e run).opened, fun _ => headed _ y e run⟩
  refine b.lockstep.nodeAt h rfl leaves (keeps _ _ trivial) (fun e own lost => ⟨lost.1, fun tidy found => ?_⟩)
    (fun e e' rel _ first' moved _ kept => ?_) x d run
  · have tidy : e.Tidy := ⟨tidy.complaints, tidy.lastPlace, tidy.refused⟩
    exact lost.2 tidy (foundIn_of_closeNode found fun _ =>
      not_ledBy_of_headed own among other identifier (.inr announces) tidy)
  · cases moved
    exact rel.closeNode _ _ kept

/-- Every rule reads words in which the namespace has its other form as it reads those with the namespace. -/
def grammar (b : Rewriting) : GrammarRelation where
  toRuleRelation := b.rules
  ofTypeExpr special := absurd nofun special
  ofExportDefault special := absurd ⟨nofun, nofun⟩ special
  ofExportAssignment special := absurd ⟨nofun, nofun⟩ special
  ofImportDeclaration special := absurd nofun special
  ofModuleDeclaration _ {point _} moved m n rest := by
    cases moved
    have inner := b.rules.onward (p := Anywhere) b.rules.bumpKeyword fun _ => rest
    refine ⟨Leaves.headed inner.1 (moduleDeclaration_headed m) isIdentifier_wordLabel, fun c c' atModule h => ?_⟩
    by_cases here : c.passed = b.start
    · exact h.declaration here point m n
    · refine elsewhere inner (moduleDeclaration_headed m) isIdentifier_wordLabel h here (fun w first => ?_) point
      obtain ⟨ws, rest⟩ := List.head?_eq_some_iff.1 first
      exact announces_wordLabel (rest ▸ atModule)
  ofGlobalDeclaration _ {point _} moved m n block := by
    cases moved
    have inner := b.rules.onward (p := Anywhere) (b.rules.takeKeyword .kwGlobal) fun _ => block
    refine ⟨Leaves.headed inner.1 (globalDeclaration_headed m) fun _ => rfl, fun c c' announces h => ?_⟩
    have other : c.passed ≠ b.start := fun here => by
      have global : b.keyword.isWord Keyword.kwGlobal.word = true := by
        have rest : c.rest = b.keyword :: (b.name :: (b.form ++ b.back)) := by rw [h.ready.rest, here, drop_words]
        rw [rest] at announces
        exact announces
      have same := (wordLabel_of_isWord b.announces).symm.trans (wordLabel_of_isWord global)
      cases same
    exact elsewhere inner (globalDeclaration_headed m) (fun _ => rfl) h other (fun _ _ => rfl) point
  ofBracedBody body special := absurd (by rintro rfl; cases body) special
  ofList list special := absurd (by rintro rfl; cases list) special

/-- A source with the other form is read as the source with the namespace is, if nothing is complained of there. -/
theorem source_alongside (run : source.run (.start {} b.words) = .ok ((), d)) (tidy : d.Tidy)
    (found : b.FoundIn d.parts.toList) (run' : source.run (.start {} b.words') = .ok ((), e)) : b.Alongside d e := by
  have start : b.Alongside (.start {} b.words) (.start {} b.words') :=
    ⟨⟨⟨rfl, rfl, rfl⟩, rfl, rfl⟩, ⟨⟨rfl, rfl, rfl⟩, rfl, rfl⟩, .before (Nat.zero_le _) rfl rfl, rfl, rfl, rfl, rfl⟩
  have keeps := b.grammar.source.2 _ _ trivial start () d run tidy
  exact ((keeps.resolve_left fun lost => lost.2 tidy found) () e run').2

end Rewriting

end ImplicitGlobals.Grammar
