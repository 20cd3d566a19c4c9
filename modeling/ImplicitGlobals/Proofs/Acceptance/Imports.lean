import ImplicitGlobals.Proofs.Angles.Trees
import ImplicitGlobals.Proofs.Grammar.Advancing
import ImplicitGlobals.Proofs.Source.Spacing

/-!
# Where imports are from

What an import declaration may look like in a source without diagnostics: behind `import` stands a
module, or a clause and where it is from. In the place of `from` and a module the grammar is
content with any other word.
-/

namespace ImplicitGlobals

namespace SyntaxTree

/-! ### Rows of trees -/

/-- One word that is read under the label. -/
def wordRow (label : LeafKind) : Language SyntaxTree := {ts | ∃ l : Lexeme, ts = [l.leafAs label]}

/-- One node of the kind. -/
def nodeRow (kind : NodeKind) : Language SyntaxTree := {ts | ∃ children, ts = [.node kind children]}

/-- One identifier that is not `from`. -/
def otherRow : Language SyntaxTree := {ts | ∃ text, text ≠ "from" ∧ ts = [Lexeme.leaf ⟨.ident, text⟩]}

/-- Where a clause is from: `from` and a module, or any other word. -/
def sourceRow : Language SyntaxTree :=
  wordRow (.keyword .kwFrom) * wordRow (.token .stringLiteral) + otherRow

/-- What a module is to be imported with. -/
def attributesRow : Language SyntaxTree := wordRow (.token .ident) * nodeRow .importAttributes

/-- What follows `import`. -/
def importRow : Language SyntaxTree :=
  (wordRow (.token .stringLiteral) + nodeRow .importClause * (sourceRow * (1 + attributesRow))) *
    (1 + wordRow (.token .semicolon))

/-- The parts of an import declaration, modifiers included. -/
def importRows : Language SyntaxTree := ⊤ * (wordRow (.keyword .kwImport) * importRow)

end SyntaxTree

namespace Grammar

open SyntaxTree

variable {α β : Type} {W : List Word} {c d e : Cursor}

/-- Where there are but gaps, nothing is left without trivia. -/
theorem expandAll_of_kindsOf_nil (W : List Word) {ps : List (Tree Slot)} (none : kindsOf ps = []) :
    Tree.expandAll (bareSlot W) ps = [] := by
  induction ps with
  | nil => rfl
  | cons t rest ih =>
    cases t with
    | leaf s =>
      cases s with
      | gap i => exact ih none
      | word i label => cases none
    | node k children => cases none

theorem expandAll_of_kindsOf (W : List Word) {kind : NodeKind} {ps : List (Tree Slot)}
    (one : kindsOf ps = [.node kind]) :
    ∃ children, Tree.expandAll (bareSlot W) ps = [.node kind children] := by
  induction ps with
  | nil => cases one
  | cons t rest ih =>
    cases t with
    | leaf s =>
      cases s with
      | gap i => exact ih one
      | word i label => cases one
    | node k children =>
      obtain ⟨same, none⟩ := List.cons.inj one
      cases same
      exact ⟨_, congrArg (_ :: ·) (expandAll_of_kindsOf_nil W none)⟩

/-! ### Rules that write rows -/

/-- Where the rule ends tidy, it has added a row of trees of the language that its answer gives. -/
def Writes (W : List Word) (r : Rule α) (S : α → Language SyntaxTree) : Prop :=
  ∀ c, Accepts r c fun x d => c.Within W → d.Within W ∧ ∃ ts ∈ S x, Adds W c d ts

namespace Writes

variable {r : Rule α} {f : α → Rule β} {S : α → Language SyntaxTree} {U V : β → Language SyntaxTree}

/-- A rule may be said to write more. -/
theorem mono {T : α → Language SyntaxTree} (h : Writes W r S) (le : ∀ x, S x ≤ T x) : Writes W r T :=
  fun c => (h c).imp fun x _ _ _ post within =>
    have ⟨within, ts, mem, adds⟩ := post within
    ⟨within, ts, le x mem, adds⟩

theorem pure (x : α) : Writes W (Pure.pure x) fun _ => 1 := fun c =>
  .pure fun _ within => ⟨within, [], rfl, .same (.refl c)⟩

/-- Two rules write one row behind the other. -/
theorem bind {T : α → β → Language SyntaxTree} (h : Writes W r S) (next : ∀ x, Writes W (f x) (T x))
    (le : ∀ x y, S x * T x y ≤ V y) : Writes W (r >>= f) V := fun c =>
  (h c).bind fun x d before => (next x d).imp fun y e tidy _ post within => by
    obtain ⟨within, ts, first, adds⟩ := (before tidy).2 within
    obtain ⟨within, us, more, adds'⟩ := post within
    exact ⟨within, ts ++ us, le x y (Language.append_mem_mul first more), adds.trans adds'⟩

/-- The same where the first answer does not matter. -/
theorem seq {N : Language SyntaxTree} (h : Writes W r fun _ => N) (next : ∀ x, Writes W (f x) U) :
    Writes W (r >>= f) fun y => N * U y := h.bind next fun _ _ => le_rfl

theorem ite {p : Prop} [Decidable p] {s t : Rule α} (yes : p → Writes W s S) (no : ¬p → Writes W t S) :
    Writes W (if p then s else t) S := fun c => .ite (fun holds => yes holds c) fun fails => no fails c

/-- A question writes nothing. -/
theorem ask {t : Rule α} {v : List Word → Option Limit → α} (h : Answers t v)
    (next : ∀ x, Writes W (f x) U) : Writes W (t >>= f) U := fun c =>
  .ask h fun d same => (next _ d).imp fun y e _ _ post within => by
    obtain ⟨within, ts, mem, adds⟩ := post (same.advances.within within)
    exact ⟨within, ts, mem, by simpa using (Adds.same same).trans adds⟩

theorem complain (k : Nat → Option Nat → Complaint) (T : Unit → Language SyntaxTree) :
    Writes W (Grammar.complain k) T := fun _ => complain_accepts k _

/-- A word that is read writes its leaf. -/
theorem took {label : LeafKind} {w : Word} (took : Took label w c d) (within : c.Within W) :
    d.Within W ∧ ∃ ts ∈ wordRow label, Adds W c d ts :=
  ⟨(Advances.took took).within within, _, ⟨w.lexeme, rfl⟩, took.addsAt within⟩

/-- Behind a word that was read. -/
theorem behind {label : LeafKind} {w : Word} (read : Took label w c d) (h : Writes W r S) :
    Yields r d fun x e => e.Tidy → c.Tidy ∧
      (c.Within W → e.Within W ∧ ∃ ts ∈ wordRow label * S x, Adds W c e ts) :=
  Yields.imp (h d) fun x e post tidy => by
    obtain ⟨began, rest⟩ := post tidy
    refine ⟨read.tidy began, fun within => ?_⟩
    obtain ⟨-, ts, first, adds⟩ := took read within
    obtain ⟨within, us, more, adds'⟩ := rest ((Advances.took read).within within)
    exact ⟨within, ts ++ us, Language.append_mem_mul first more, adds.trans adds'⟩

/-- A word that is read if it is there. -/
theorem eaten {is : Word → Prop} {label : LeafKind} {t : Rule Bool}
    (h : ∀ c, Yields t c (Eaten is label c)) :
    Writes W t fun b => if b = true then wordRow label else 1 := fun c =>
  Yields.imp (h c) fun b d eaten tidy => by
    cases b with
    | true =>
      obtain ⟨w, -, read⟩ := eaten
      exact ⟨read.tidy tidy, took read⟩
    | false => exact ⟨eaten.1.tidy tidy, fun within => ⟨eaten.1.advances.within within, [], rfl, .same eaten.1⟩⟩

/-- A word that is read if it is there, and what comes where it is and where it is not. -/
theorem choose {is : Word → Prop} {label : LeafKind} {t : Rule Bool} {s s' : Rule β}
    (h : ∀ c, Yields t c (Eaten is label c)) (yes : Writes W s U) (no : Writes W s' V) :
    Writes W (t >>= fun b => if b = true then s else s') fun y => wordRow label * U y + V y := by
  refine (eaten h).bind (T := fun b y => if b = true then U y else V y) (fun b => ?_) fun b y => ?_
  · cases b with
    | true => exact yes
    | false => exact no
  · cases b with
    | true => exact le_self_add
    | false => exact (one_mul (V y)).le.trans le_add_self

/-- A rule that forms one node writes it. -/
theorem ofForms {kind : NodeKind} {r : Rule Unit} (h : Forms Anywhere r fun _ => {[.node kind]})
    (forward : Trails Advances r) :
    Writes W r fun _ => nodeRow kind := fun c x d run tidy => by
  obtain ⟨began, opened, ws, ps, -, parts, -, -, kinds⟩ := h c (fun _ => trivial) x d run tidy
  obtain ⟨children, row⟩ := expandAll_of_kindsOf W kinds
  exact ⟨began, fun within => ⟨(forward c x d run).within within, _, ⟨children, rfl⟩, opened, ps, parts, row⟩⟩

end Writes

/-! ### Import declarations -/

/-- The text of a module is one literal. -/
theorem moduleSpecifier_writes : Writes W moduleSpecifier fun _ => wordRow (.token .stringLiteral) := by
  refine (Writes.eaten (eat_yields _)).bind (T := fun b _ => if b = true then 1 else 0)
    (fun b => ?_) fun b _ => ?_
  · cases b with
    | true => exact .pure ()
    | false => exact .complain _ _
  · cases b <;> simp

/-- A semicolon may be left out at the end of a line. -/
theorem expectSemicolon_writes :
    Writes W expectSemicolon fun _ => 1 + wordRow (.token .semicolon) := by
  have ends := atEnd_answers.or ((currentIs_answers .braceClose).or onFreshLine_answers)
  refine (Writes.choose (eat_yields _) (.pure ()) <| .ask ends fun _ =>
    .ite (fun _ => .pure ()) fun _ => .complain _ _).mono fun _ => ?_
  rw [mul_one, add_comm]

/-- The grammar has asked for `from`, so what it reads in its place is another word. -/
theorem expect_writes {what : String} (other : ∀ w ∈ c.rest.head?, ¬w.isWord "from" = true) :
    Accepts (expect .ident what) c fun _ d => c.Within W → d.Within W ∧ ∃ ts ∈ otherRow, Adds W c d ts := by
  refine Yields.bind (eat_yields .ident c) fun b d eaten => ?_
  cases b with
  | true =>
    obtain ⟨w, ident, read⟩ := eaten
    refine .pure fun tidy => ⟨read.tidy tidy, fun within => ⟨(Advances.took read).within within, _, ⟨w.text, ?_, ?_⟩,
      read.addsAt within⟩⟩
    · have spelt := other w (by simp [read.rest])
      simpa [Word.isWord, show w.kind = .ident from ident] using spelt
    · simp [Word.lexeme, Lexeme.leaf, show w.kind = .ident from ident]
  | false =>
    refine Yields.bind (errorWith_accepts _ _ fun _ _ => False) fun _ e never => .pure fun tidy => ?_
    exact (never tidy).2.elim

/-- The source is `from` and the text, or the one identifier that is eaten in its place. -/
theorem importSource_writes : Writes W importSource fun _ => sourceRow := fun c => by
  refine Yields.bind (eatKeyword_yields .kwFrom c) fun b d eaten => ?_
  cases b with
  | true =>
    obtain ⟨w, -, read⟩ := eaten
    refine Yields.imp (Writes.behind read (moduleSpecifier_writes (W := W))) fun _ e post tidy => ?_
    obtain ⟨began, rest⟩ := post tidy
    exact ⟨began, fun within => have ⟨within, ts, mem, adds⟩ := rest within; ⟨within, ts, .inl mem, adds⟩⟩
  | false =>
    obtain ⟨same, other⟩ := eaten
    have other : ∀ w ∈ d.rest.head?, ¬w.isWord "from" = true := same.rest ▸ other
    refine Yields.bind (expect_writes (W := W) other) fun _ e post => .pure fun tidy => ?_
    obtain ⟨began, rest⟩ := post tidy
    refine ⟨same.tidy began, fun within => ?_⟩
    obtain ⟨within, ts, mem, adds⟩ := rest (same.advances.within within)
    exact ⟨within, ts, .inr mem, by simpa using (Adds.same same).trans adds⟩

/-- Attributes are announced by a word. -/
theorem attributes_writes : Writes W
    (whenever ((atWord "with" <||> atWord "assert") <&&> nextIs .braceOpen) importAttributes)
    fun _ => 1 + attributesRow := fun c => by
  have body : Writes W (bracedBody .importAttributes) fun _ => nodeRow .importAttributes :=
    .ofForms (bracedBody_forms fun _ => rfl) (advancing.bracedBody (p := Anywhere) rfl)
  have test := ((atWord_answers "with").or (atWord_answers "assert")).and (nextIs_answers .braceOpen)
  refine .ask test fun d same => .ite (fun found => ?_) fun _ => .pure fun _ within =>
    ⟨same.advances.within within, [], .inl rfl, .same same⟩
  have ident : kindIn c.rest 0 = some .ident := (Bool.or_eq_true_iff.1
    (Bool.and_eq_true_iff.1 found).1).elim kindIn_of_spells kindIn_of_spells
  refine Yields.bind (bump_yields d) fun _ e took => ?_
  obtain ⟨w, read⟩ := took
  have read := read.ofSame same
  have is : w.kind = .ident := by simpa [kindIn, read.rest] using ident
  rw [is] at read
  refine Yields.imp (Writes.behind read body) fun _ f post tidy => ?_
  obtain ⟨began, rest⟩ := post tidy
  obtain ⟨_, _, _, rfl⟩ := same
  refine ⟨⟨began.complaints, began.lastPlace, began.refused⟩, fun within => ?_⟩
  obtain ⟨within, ts, mem, adds⟩ := rest within
  exact ⟨within, ts, .inr mem, adds⟩

/-- All that follows `import` is one of the rows. -/
theorem importTail_writes : Writes W importTail fun _ => importRow := by
  have clause : Writes W importClause fun _ => nodeRow .importClause :=
    .ofForms importClause_forms (advancing.importClause (p := Anywhere))
  refine (Writes.choose (eat_yields _) (expectSemicolon_writes.seq fun _ => .pure ())
    (clause.seq fun _ => importSource_writes.seq fun _ => attributes_writes.seq fun _ =>
      expectSemicolon_writes)).mono fun _ => ?_
  simp only [importRow, add_mul, mul_assoc, mul_one, le_refl]

end Grammar

open Grammar

/-- Every import declaration in the tree has the parts of one. -/
def Tree.Imported (W : List Word) (t : Tree Slot) : Prop :=
  ∀ children, node .importDeclaration children ∈ t.descendants .importDeclaration →
    expandAll (bareSlot W) children ∈ SyntaxTree.importRows

namespace Tree.Imported

variable {W : List Word} {kind : NodeKind} {ts : List (Tree Slot)}

theorem leaf (s : Slot) : Imported W (.leaf s) := nofun

/-- A node of imported parts is imported, if its own row is one. -/
theorem node (each : ∀ t ∈ ts, t.Imported W)
    (own : kind = .importDeclaration → expandAll (bareSlot W) ts ∈ SyntaxTree.importRows) :
    Imported W (.node kind ts) := fun children among => by
  rcases mem_descendants_node.1 among with ⟨same, is⟩ | among
  · exact (Tree.node.inj is).2 ▸ own same
  · obtain ⟨t, mem, among⟩ := mem_descendantsOf.1 among
    exact each t mem children among

end Tree.Imported

namespace Grammar

open SyntaxTree

variable {W : List Word} {c d e : Cursor}

/-- All import declarations among the parts have the parts of one. -/
def Cursor.Imported (W : List Word) (c : Cursor) : Prop := ∀ t ∈ c.parts.toList, t.Imported W

/-- Where nothing is complained of between the cursors, import declarations keep their parts. -/
structure Imports (W : List Word) (c d : Cursor) : Prop extends Advances c d where
  imported : d.Tidy → c.Within W → c.Imported W → d.Imported W

/-- Parts that are imported may be added. -/
theorem Cursor.Imported.add (imported : c.Imported W) {ps : List (Tree Slot)}
    (parts : d.parts.toList = c.parts.toList ++ ps) (each : ∀ t ∈ ps, t.Imported W) : d.Imported W :=
  fun t mem => (List.mem_append.1 (parts ▸ mem)).elim (imported t) (each t)

/-- A node whose row is one may be closed. -/
theorem Cursor.Imported.close (imported : c.Imported W) {kind : NodeKind} {first : Nat}
    (own : kind = .importDeclaration →
      Tree.expandAll (bareSlot W) (c.parts.toList.drop first) ∈ SyntaxTree.importRows) :
    (c.closeNode kind first).Imported W := fun t mem => by
  rw [Cursor.toList_parts_closeNode] at mem
  rcases List.mem_append.1 mem with mem | mem
  · exact imported t (List.mem_of_mem_take mem)
  · rw [List.mem_singleton.1 mem]
    exact .node (fun u among => imported u (List.mem_of_mem_drop among)) own

theorem imported_due (gap : Gap) (i : Nat) : ∀ t ∈ (gap.due i).toList, t.Imported W :=
  fun _ due => Gap.eq_of_mem_due due ▸ .leaf _

theorem Took.imports {label : LeafKind} {w : Word} (took : Took label w c d) : Imports W c d := by
  refine ⟨.took took, fun _ _ imported => ?_⟩
  obtain ⟨gap, parts⟩ := took.parts
  refine imported.add (parts.trans (List.append_assoc ..)) fun t mem => ?_
  rcases List.mem_append.1 mem with due | word
  · exact imported_due _ _ t due
  · exact List.mem_singleton.1 word ▸ .leaf _

theorem Imports.trans (h : Imports W c d) (g : Imports W d e) : Imports W c e :=
  ⟨h.toAdvances.trans g.toAdvances, fun tidy within imported => g.imported tidy (h.within within)
    (h.imported (g.tidy tidy) within imported)⟩

theorem Cursor.Tidy.ofPop (h : c.popOpener.Tidy) : c.Tidy := ⟨h.complaints, h.lastPlace, h.refused⟩

/-- The steps of the grammar follow this trail. -/
theorem imports_trail (W : List Word) : Trail (· ≠ .importDeclaration) (Imports W) where
  refl c := ⟨.refl c, fun _ _ => id⟩
  trans := .trans
  opened h := h.opened
  count c gap looks depth _ kept := ⟨advances_trail.count c gap looks depth kept, fun _ _ => id⟩
  took := Took.imports
  placeGap c := ⟨.placeGap c, fun _ _ imported =>
    imported.add (Cursor.toList_parts_placeGap c) (imported_due _ _)⟩
  note {c k} _ _ := ⟨.note c k, fun tidy => absurd tidy.lastPlace (by simp [Cursor.note])⟩
  close ordinary among outer body := ⟨body.toAdvances.close among outer, fun tidy within imported =>
    (body.imported tidy.ofClose within imported).close fun same => absurd same ordinary⟩
  within _ read body :=
    have inner := read.imports.trans body
    ⟨inner.toAdvances.pop, fun tidy within imported => inner.imported tidy.ofPop within imported⟩

/-- The node of an import takes up the modifiers before it, `import` and what follows that. -/
theorem importDeclaration_imports (point : Checkpoint) (tail : Trails (Imports W) importTail) :
    Trails (Imports W) (importDeclaration point) := fun c => by
  refine (startNodeAt_valid point _ c).bind fun _ d start => ?_
  obtain ⟨rfl, among, outer⟩ := start
  have body : Yields (do takeKeyword .kwImport; importTail) (c.openNode .importDeclaration point)
      fun _ e => Imports W (c.openNode .importDeclaration point) e ∧ (e.Tidy → c.Within W →
        ∃ ts ∈ wordRow (.keyword .kwImport) * importRow, Adds W (c.openNode .importDeclaration point) e ts) := by
    refine (takeKeyword_yields .kwImport _).bind fun _ d took x e run => ?_
    obtain ⟨w, took⟩ := took
    refine ⟨(imports_trail W).trans took.imports (tail d x e run), fun tidy within => ?_⟩
    exact ((Writes.behind took importTail_writes x e run tidy).2 within).2
  refine body.bind fun _ e post => (finishNode_yields e).imp fun _ d closed => ?_
  obtain ⟨imports, writes⟩ := post
  obtain ⟨o, os, opened, rfl⟩ := closed
  obtain ⟨rfl, rfl⟩ := List.cons.inj (opened.symm.trans imports.opened)
  refine ⟨imports.toAdvances.close among fun _ => outer, fun tidy within imported => ?_⟩
  refine (imports.imported tidy.ofClose within imported).close fun _ => ?_
  obtain ⟨ts, mem, -, ps, parts, row⟩ := writes tidy.ofClose within
  have parts : e.parts.toList = c.parts.toList ++ ps := parts
  rw [parts, List.drop_append_of_le_length (by simpa using among), Tree.expandAll_append, row]
  exact Language.append_mem_mul trivial mem

/-- Every rule keeps the parts of import declarations. -/
def imports (W : List Word) : GrammarRelation where
  toRuleRelation := (imports_trail W).relation fun _ usual same => by subst same; cases usual
  ofTypeExpr := absurd (show NodeKind.typeExpr ≠ .importDeclaration by decide)
  ofExportDefault := absurd (show NodeKind.exportAssignment ≠ .importDeclaration ∧
    NodeKind.typeExpr ≠ .importDeclaration by decide)
  ofExportAssignment := absurd (show NodeKind.exportAssignment ≠ .importDeclaration ∧
    NodeKind.typeExpr ≠ .importDeclaration by decide)
  ofImportDeclaration _ _ _ _ := importDeclaration_imports _
  ofModuleDeclaration := absurd (show NodeKind.moduleDeclaration ≠ .importDeclaration by decide)
  ofGlobalDeclaration := absurd (show NodeKind.moduleDeclaration ≠ .importDeclaration by decide)
  ofBracedBody body := absurd fun same => by subst same; cases body
  ofList list := absurd fun same => by subst same; cases list

end Grammar

/-- In a source without diagnostics every import declaration holds, behind `import`, a string, or a
clause and then `from` and a string, or a clause and then one word other than `from` in their place.
Attributes may follow, and a semicolon. -/
theorem parseWithin_imports {budget : Budget} {text : String} {p : Parsed}
    (parsed : parseWithin budget text = .ok p) (clean : p.diagnostics = []) :
    ∀ t ∈ p.tree.descendants .importDeclaration, (SyntaxTree.bare t).children ∈ SyntaxTree.importRows := by
  obtain ⟨c, children, run, walk, kept, rest, gap, tree, rfl⟩ := run_of_parseWithin parsed
  obtain ⟨labels, takes, slots⟩ := slots_of_walk walk rest gap tree
  have none : c.complaints = [] := by simpa [Outline.dress] using clean
  have tidy : c.Tidy :=
    ⟨none, Classical.not_not.1 fun noted => walk.frame.noted (absurd rfl) noted none, kept⟩
  have imported : c.Imported (Word.ofTokens (lex text)) :=
    ((imports _).source (.start budget (Word.ofTokens (lex text))) () c run).imported tidy rfl
      fun _ mem => absurd mem List.not_mem_nil
  intro t among
  have among : SyntaxTree.bare t ∈ Tree.descendants .importDeclaration
      (Tree.node .sourceFile (Tree.expandAll (bareSlot (Word.ofTokens (lex text))) children)) := by
    rw [← bare_dress takes slots c.complaints.reverse, SyntaxTree.descendants_of_bare rfl]
    exact List.mem_map_of_mem among
  obtain ⟨parts, inside, whole⟩ := Tree.exists_of_mem_expandAll children among
  rw [whole]
  exact imported (.node .sourceFile children) (tree ▸ List.mem_singleton.2 rfl) parts inside

/-- A default binding, named ones and attributes. -/
theorem parseWithin_imports_clause :
    ∃ p, parseWithin {} "import a, \x7b b \x7d from \"m\" with \x7b type: \"json\" \x7d;" = .ok p ∧
      ∀ t ∈ p.tree.descendants .importDeclaration,
        (SyntaxTree.bare t).children ∈ SyntaxTree.importRows := by
  have ok : (parseWithin {} "import a, \x7b b \x7d from \"m\" with \x7b type: \"json\" \x7d;").toOption.any
      (·.diagnostics.isEmpty) = true := by decide +kernel
  obtain ⟨p, parsed, clean⟩ := exists_of_any_toOption ok
  exact ⟨p, parsed, parseWithin_imports parsed (by simpa using clean)⟩

/-- Without `from` and without a module an import is accepted if a word stands in their place. -/
theorem import_without_module : ∃ p, parseWithin {} "import a b;" = .ok p ∧ p.diagnostics = [] ∧
    ∃ t ∈ p.tree.descendants .importDeclaration, SyntaxTree.hasLeaf t (.keyword .kwFrom) = false ∧
      SyntaxTree.hasLeaf t (.token .stringLiteral) = false := by
  have ok : (parseWithin {} "import a b;").toOption.any (fun p => p.diagnostics.isEmpty &&
      (p.tree.descendants .importDeclaration).any fun t => !SyntaxTree.hasLeaf t (.keyword .kwFrom) &&
        !SyntaxTree.hasLeaf t (.token .stringLiteral)) = true := by decide +kernel
  obtain ⟨p, parsed, holds⟩ := exists_of_any_toOption ok
  simp only [Bool.and_eq_true, List.isEmpty_iff, List.any_eq_true, Bool.not_eq_true'] at holds
  exact ⟨p, parsed, holds.1, holds.2⟩

end ImplicitGlobals
