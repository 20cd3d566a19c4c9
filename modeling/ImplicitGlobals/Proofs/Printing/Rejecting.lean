import ImplicitGlobals.Proofs.Acceptance.Statements
import ImplicitGlobals.Proofs.Grammar.Advancing
import ImplicitGlobals.Proofs.Printing.Statements

/-!
# Rules that complain

What makes a rule complain makes every rule complain that comes to it: nothing that is read later
takes a complaint back. `Rejects words r l x` says so of the words that are written as `l`.
-/

namespace ImplicitGlobals.Grammar

open Lexeme

variable {l : List Lexeme} {ts us : List SyntaxTree} {words : List Word}

/-- Where the words ahead are written as `l`, the rule complains before it answers `x`. -/
def Rejects (words : List Word) (r : Rule α) (l : List Lexeme) (x : α) : Prop :=
  ∀ c, Ready words c → c.rest.map Word.lexeme = l → Yields r c fun y d => y = x ∧ ¬d.Tidy

section

variable {α β : Type} {r : Rule α} {f : α → Rule β} {x : α} {y : β} {m : List Lexeme}

/-- What is behind a rule that complains of nothing complains. -/
theorem Parses.rejects (h : Parses r l m x ts) (next : Rejects words (f x) m y) :
    Rejects words (r >>= f) l y := by
  intro c ready here
  refine (h words c ready here).bind fun z d post => ?_
  obtain ⟨rfl, ready', here', -⟩ := post
  exact next d ready' here'

/-- What is rejected behind a rule that reads on. -/
theorem ParsesTo.rejects {X : α → Prop} (h : ParsesTo r l m X ts)
    (next : ∀ x, X x → Rejects words (f x) m y) : Rejects words (r >>= f) l y := by
  intro c ready here
  refine (h words c ready here).bind fun z d post => ?_
  obtain ⟨is, ready', here', -⟩ := post
  exact next z is d ready' here'

namespace Rejects

/-- A complaint that was made before stays. -/
theorem bind (h : Rejects words r l x)
    (keeps : ∀ d, ¬d.Tidy → Yields (f x) d fun z e => z = y ∧ ¬e.Tidy) :
    Rejects words (r >>= f) l y := fun c ready here =>
  (h c ready here).bind fun _ d post => post.1 ▸ keeps d post.2

theorem answer (h : Rejects words r l x) (y : β) : Rejects words (r >>= fun _ => Pure.pure y) l y :=
  h.bind fun _ untidy => .pure ⟨rfl, untidy⟩

/-- A node around what is rejected. -/
theorem nodeAt {body : Rule Unit} (h : Rejects words body l ()) (point : Checkpoint)
    (kind : NodeKind) : Rejects words (nodeAt point kind body) l () := by
  intro c ready here
  have inner : Ready words (c.openNode kind point) := ready.of rfl rfl rfl rfl rfl rfl
  refine (nodeAt_yields ((h _ inner here).imp fun _ _ post => post.2)).imp fun _ d closed => ?_
  obtain ⟨e, o, os, untidy, -, rfl⟩ := closed
  exact ⟨rfl, fun tidy => untidy tidy.ofClose⟩

theorem node {body : Rule Unit} (h : Rejects words body l ()) (kind : NodeKind) :
    Rejects words (node kind body) l () := by
  intro c ready here
  have inner : Ready words (c.placeGap.openNode kind c.placeGap.parts.size) :=
    ready.of rfl rfl rfl rfl rfl rfl
  refine (node_yields ((h _ inner here).imp fun _ _ post => post.2)).imp fun _ d closed => ?_
  obtain ⟨e, o, os, untidy, -, rfl⟩ := closed
  exact ⟨rfl, fun tidy => untidy tidy.ofClose⟩

/-- The first round complains, and no later one takes it back. -/
theorem repeatWhile {turn : Rule Bool} {b : Bool} (h : Rejects words turn l b) (keeps : Keeps turn) :
    Rejects words (repeatWhile turn) l () := by
  intro c ready here
  have rounds (d : Cursor) (start : d = c ∨ ¬d.Tidy) :
      Yields turn d fun _ e => ¬e.Tidy := by
    rcases start with rfl | untidy
    · exact (h d ready here).imp fun _ _ post => post.2
    · exact Yields.imp (keeps d) fun _ _ post tidy => untidy (post tidy).1
  refine (loop_yields (I := fun _ d => d = c ∨ ¬d.Tidy) (Q := fun _ d => ¬d.Tidy) (.inl rfl)
    fun _ d start => (rounds d start).bind fun b e untidy => ?_).imp fun _ _ untidy => ⟨rfl, untidy⟩
  exact .ite (fun _ => .pure (.inr untidy)) fun _ => .pure untidy

end Rejects

end

/-! ### Delimiters and statements -/

/-- A rule that goes forward takes no complaint back. -/
theorem Trails.untidy {α : Type} {r : Rule α} {c : Cursor} (h : Trails Advances r) (untidy : ¬c.Tidy) :
    Yields r c fun _ d => ¬d.Tidy :=
  Yields.imp (h c) fun _ _ advances tidy => untidy (advances.tidy tidy)

namespace Rejects

/-- What is between delimiters is complained of. -/
theorem delimited (d : Delimiters) (unclosed : d.unclosed.isUnclosed = true) {turn : Rule Bool} {first : Lexeme}
    (h : Rejects words (Grammar.repeatWhile turn) l ()) : Rejects words (Grammar.delimited d turn) (first :: l) () := by
  have within : Rejects words (inside d.opener (Grammar.repeatWhile turn)) (first :: l) () := by
    refine (pushOpener_parses _ d.opener).rejects ?_
    refine (bump_parses first l).rejects ?_
    exact h.bind fun e untidy => .modify ⟨rfl, fun tidy => untidy ⟨tidy.complaints, tidy.lastPlace, tidy.refused⟩⟩
  have later (opener : Nat) : advancing.Rel Anywhere .same
      (do if !(← eat d.closer) && !(d.excused && (← isRefused)) then errorUnclosed d.unclosed d.note opener)
      (do if !(← eat d.closer) && !(d.excused && (← isRefused)) then errorUnclosed d.unclosed d.note opener) :=
    advancing.onward (advancing.eat _) fun _ => advancing.onward advancing.isRefused fun _ =>
      advancing.ite (fun _ => advancing.unclosed unclosed _ opener opener) fun _ => advancing.pure rfl
  exact (mark_parses _).rejects fun opener _ => within.bind fun e untidy =>
    (Trails.untidy (later opener) untidy).imp fun _ _ untidy => ⟨rfl, untidy⟩

/-- A block is complained of, and with it the module that it belongs to. -/
theorem moduleBlock {statement : Rule Unit} {m : List Lexeme}
    (h : Rejects words (Grammar.node .moduleBlock (Grammar.delimited blockMarks (blockTurn statement)))
      (ofSign .braceOpen :: m) ()) : Rejects words (Grammar.moduleBlock statement) (ofSign .braceOpen :: m) () := by
  have assert : Parses (assertAt .braceOpen) (ofSign .braceOpen :: m) (ofSign .braceOpen :: m) () [] :=
    assertAt_parses rfl m
  refine assert.rejects ((descend_parses _).rejects (h.bind fun d untidy => ?_))
  exact (ascend_yields d).imp fun _ _ same => ⟨rfl, fun tidy => untidy (same.advances.tidy tidy)⟩

/-- The rest of a module is rejected if its block is. -/
theorem moduleRest {statement : Rule Unit} {m : List Lexeme} (first : String) (more : List String)
    (h : Rejects words (Grammar.moduleBlock statement) (ofSign .braceOpen :: m) ()) :
    Rejects words (Grammar.moduleRest statement) (⟨.ident, first⟩ :: (dottedLexemes more ++ ofSign .braceOpen :: m)) () :=
  (moduleName_parses first more rfl).rejects <| (currentIs_parses (ofSign .braceOpen :: m) .braceOpen).rejects h

/-- A module is rejected if its rest is. -/
theorem moduleDeclaration {statement : Rule Unit} (h : Rejects words (Grammar.moduleRest statement) l ())
    (point : Checkpoint) :
    Rejects words (Grammar.moduleDeclaration point statement) (ofKeyword .kwNamespace :: l) () :=
  .nodeAt ((bumpKeyword_parses .kwNamespace _).rejects h) point _

/-- A statement is rejected if it is from every checkpoint. -/
theorem checkpoint {r : Checkpoint → Rule Unit} (h : ∀ point, Rejects words (r point) l ()) :
    Rejects words (Grammar.checkpoint >>= r) l () := by
  have place : ParsesTo Grammar.checkpoint l l (fun _ => True) [] := ParsesTo.bind (skipAndPlaceGap_parses l)
    fun _ _ words c ready here => .get (.pure ⟨trivial, ready, here, .same (.refl c)⟩)
  exact place.rejects fun point _ => h point

/-- A declaration is complained of, and with it the statement that it is. -/
theorem statementAt {inner : Rule Unit} {declared : Bool} {k : Keyword} {point : Checkpoint}
    (other : isModifier k = false)
    (h : Rejects words (declarationOf inner point false (some k)) (ofKeyword k :: l) true) :
    Rejects words (Grammar.statementAt inner point) (declareLexemes declared ++ ofKeyword k :: l) () := by
  have first : kindOf (declareLexemes declared ++ ofKeyword k :: l) 0 = some .ident := by
    cases declared <;> rfl
  have notEmpty := currentIs_parses (declareLexemes declared ++ ofKeyword k :: l) .semicolon
  have notExport := atKeyword_parses (declareLexemes declared ++ ofKeyword k :: l) .kwExport
  rw [first] at notEmpty
  rw [spelled_export declared other] at notExport
  have text : Parses currentText (ofKeyword k :: l) (ofKeyword k :: l) k.word [] := currentText_parses _
  have declared : Rejects words (declaration inner point false) (ofKeyword k :: l) true := by
    refine (current_parses _).rejects (text.rejects ?_)
    rwa [Keyword.ofWord?_word]
  refine notEmpty.rejects ?_
  refine (notExport.andFails (exportForm point)).rejects ?_
  refine (modifiers_parses _ other l).rejects ?_
  exact declared.bind fun _ untidy => .pure ⟨rfl, untidy⟩

/-- A source is complained of where its first statement is, however many levels there may be. -/
theorem source {kind : TokenKind} (first : kindOf l 0 = some kind)
    (h : ∀ n, Rejects words (statementWithin n) l ()) : Rejects words Grammar.source l () := by
  have statement : Rejects words statement l () := fun c ready here => .get (h _ c ready here)
  have going := atEnd_parses l
  rw [isEmpty_of_kindOf first] at going
  have turn : Rejects words sourceTurn l true := going.rejects (statement.answer true)
  have keeps : Keeps sourceTurn := fun c =>
    (sourceTurn_forms c fun _ => trivial).imp fun _ _ _ _ _ => trivial
  have file : Rejects words sourceFile l () := .node ((turn.repeatWhile keeps).bind fun d untidy =>
    (skipAndPlaceGap_yields d).imp fun _ e settled =>
      ⟨rfl, fun tidy => untidy (settled ▸ tidy).ofSettled⟩) _
  exact file.bind fun d untidy => .modify ⟨rfl, fun tidy => untidy ⟨tidy.complaints, tidy.lastPlace, tidy.refused⟩⟩

end Rejects

end ImplicitGlobals.Grammar
