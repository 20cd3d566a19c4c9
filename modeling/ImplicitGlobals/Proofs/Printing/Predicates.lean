import ImplicitGlobals.Proofs.Budget.Exact
import ImplicitGlobals.Proofs.Printing.ImportLists
import ImplicitGlobals.Proofs.Printing.Rejecting

/-!
# Keywords as names in types

A function may answer with a type predicate, in which the name of a parameter stands between two
identifiers. Outside of all brackets a type ends where a declaration seems to begin, and one word
behind the name is all that is looked at: so a parameter with the name of a keyword that a name
may follow cuts its predicate in two, and all other names are read as they are written.
-/

namespace ImplicitGlobals

open Grammar

/-- Whether a name behind the keyword is enough to take it for the beginning of a declaration. -/
def Keyword.announces : Keyword → Bool
  | .kwExport | .kwDeclare | .kwInterface | .kwEnum | .kwType | .kwNamespace | .kwClass | .kwVar
  | .kwLet | .kwConst | .kwFunction | .kwModule | .kwImport => true
  | _ => false

/-- Whether the word before a name is taken for the beginning of a declaration. -/
def announces (word : String) : Bool := (Keyword.ofWord? word).any Keyword.announces

/-- `declare function f(p: unknown): asserts p is T;` -/
def predicateText (f p T : String) : String :=
  " ".intercalate ["declare", "function", f] ++ "(" ++ p ++ ": unknown): " ++
    " ".intercalate ["asserts", p, "is", T] ++ ";"

namespace Grammar

open Lexeme

variable {l a : List Lexeme} {ts us : List SyntaxTree} {words : List Word}

/-! ### Where a declaration seems to begin -/

/-- A word before a name, other than `abstract class`, is judged by itself. -/
theorem atStatementStart_name (w : String) {v : String} (other : v ≠ "class") (l : List Lexeme) :
    Parses atStatementStart (⟨.ident, w⟩ :: ⟨.ident, v⟩ :: l) (⟨.ident, w⟩ :: ⟨.ident, v⟩ :: l)
      (announces w) [] := by
  have next (kind : TokenKind) := nextIs_parses (⟨.ident, w⟩ :: ⟨.ident, v⟩ :: l) kind
  have behind {α : Type} (f : Option TokenKind → α) :
      Parses (kindAt 1 >>= fun k => pure (f k)) (⟨.ident, w⟩ :: ⟨.ident, v⟩ :: l)
        (⟨.ident, w⟩ :: ⟨.ident, v⟩ :: l) (f (some .ident)) [] :=
    (kindAt_parses _ 1).ask (.pure _ _)
  have text : Parses currentText (⟨.ident, w⟩ :: ⟨.ident, v⟩ :: l) (⟨.ident, w⟩ :: ⟨.ident, v⟩ :: l)
      w [] := currentText_parses _
  refine (current_parses _).ask ?_
  refine text.ask ?_
  rw [announces]
  cases Keyword.ofWord? w with
  | none => exact .pure false _
  | some k =>
    cases k with
    | kwExport => exact .pure true _
    | kwDeclare | kwInterface | kwEnum | kwType | kwNamespace | kwClass => exact next .ident
    | kwVar | kwLet | kwConst | kwFunction | kwModule | kwImport => exact behind _
    | kwAbstract =>
      have asked := Parses.test (nthIsWord_answers 1 "class")
        (l := ⟨.ident, w⟩ :: ⟨.ident, v⟩ :: l) (x := false) fun ws here => by
          simp [spells_eq, here, spelled, other]
      exact asked
    | kwGlobal => exact next .braceOpen
    | kwDefault | kwFrom | kwAs | kwExtends | kwImplements | kwRequire => exact .pure false _

/-! ### Identifiers in a type -/

section

variable {stop : KindSet} {consumed b : Bool} {w : String}

/-- Behind its first word, a type ends at an identifier where a declaration seems to begin. -/
theorem runEnds_identifier (passed : stop.holds .ident = false)
    (asked : Parses atStatementStart (⟨.ident, w⟩ :: l) (⟨.ident, w⟩ :: l) b []) (consumed : Bool) :
    Parses (runEnds stop .type consumed (some .ident)) (⟨.ident, w⟩ :: l) (⟨.ident, w⟩ :: l)
      (consumed && b) [] := by
  have closes : (some TokenKind.ident).any (fun k => stop.holds k || KindSet.closers.holds k) = false := by
    simp only [Option.any_some, passed, Bool.false_or]
    decide
  rw [runEnds, closes]
  exact (Parses.pure (RunMode.type.boundary && consumed) _).and asked

/-- One turn at an identifier, by whether a statement begins there. -/
theorem runTurn_asked {t : Turn Run} (passed : stop.holds .ident = false)
    (asked : Parses atStatementStart (⟨.ident, w⟩ :: l) (⟨.ident, w⟩ :: l) b [])
    (next : Parses (if (consumed && b) = true then pure (.done ⟨[], consumed⟩)
      else runWord .type ⟨[], consumed⟩ (some .ident)) (⟨.ident, w⟩ :: l) a t ts) :
    Parses (runTurn stop .type ⟨[], consumed⟩) (⟨.ident, w⟩ :: l) a t ts := by
  have ends := (Parses.pure true (⟨.ident, w⟩ :: l)).and (runEnds_identifier passed asked consumed)
  exact (atEnd_parses (⟨.ident, w⟩ :: l)).no <| (current_parses (⟨.ident, w⟩ :: l)).ask <| ends.ask next

/-- The run goes on over it. -/
theorem runTurn_goesOn (passed : stop.holds .ident = false)
    (asked : Parses atStatementStart (⟨.ident, w⟩ :: l) (⟨.ident, w⟩ :: l) b [])
    (on : (consumed && b) = false) :
    Parses (runTurn stop .type ⟨[], consumed⟩) (⟨.ident, w⟩ :: l) l (.again ⟨[], true⟩)
      [Lexeme.leaf ⟨.ident, w⟩] := by
  refine runTurn_asked passed asked ?_
  rw [on]
  exact (bump_parses ⟨.ident, w⟩ l).seq (.pure _ l)

/-- The run is cut in front of it. -/
theorem runTurn_cut (passed : stop.holds .ident = false)
    (asked : Parses atStatementStart (⟨.ident, w⟩ :: l) (⟨.ident, w⟩ :: l) true []) :
    Parses (runTurn stop .type ⟨[], true⟩) (⟨.ident, w⟩ :: l) (⟨.ident, w⟩ :: l) (.done ⟨[], true⟩)
      [] :=
  runTurn_asked passed asked (.pure _ _)

end

/-- A word that is no keyword begins no declaration, whatever is behind it. -/
theorem atStatementStart_plain {w : String} (plain : Keyword.ofWord? w = none) (l : List Lexeme) :
    Parses atStatementStart (⟨.ident, w⟩ :: l) (⟨.ident, w⟩ :: l) false [] :=
  atStatementStart_parses (by simp [isKeyword, plain]) l

/-- A run from its rounds, none of which leaves a bracket open. -/
theorem balanced_of_rounds {stop : KindSet} {mode : RunMode}
    (h : Rounds (runTurn stop mode) {} l a (· = ⟨[], true⟩) ts) :
    Parses (balanced stop mode) l a true ts := by
  have whole : Parses (balanced stop mode) l a true (ts ++ []) :=
    h.loop.bind fun r is => is ▸ Parses.pure true a
  rwa [List.append_nil] at whole

theorem Rounds.step {σ : Type} {step : σ → Rule (Turn σ)} {r s : σ} {X : σ → Prop} {m : List Lexeme}
    (h : Parses (step r) l m (.again s) ts) (next : Rounds step s m a X us) :
    Rounds step r l a X (ts ++ us) :=
  .again (I := (· = s)) (h.imp fun _ is => ⟨s, is, rfl⟩) fun _ is => is ▸ next

theorem Rounds.last {σ : Type} {step : σ → Rule (Turn σ)} {r s : σ}
    (h : Parses (step r) l a (.done s) ts) : Rounds step r l a (· = s) ts :=
  .done (h.imp fun _ is => ⟨s, is, rfl⟩)

/-- `: asserts p is T`, as it is read up to the `;`. -/
def predicateTree (p T : String) : SyntaxTree :=
  .node .typeAscription [(ofSign .colon).leaf, .node .typeExpr
    (["asserts", p, "is", T].map fun w => Lexeme.leaf ⟨.ident, w⟩)]

/-- A predicate is one type, if its parameter begins no declaration. -/
theorem predicate_parses {p T : String} (quiet : announces p = false)
    (plain : Keyword.ofWord? T = none) (a : List Lexeme) :
    Parses (typeAscription .statementEnd)
      (ofSign .colon :: ⟨.ident, "asserts"⟩ :: ⟨.ident, p⟩ :: ⟨.ident, "is"⟩ :: ⟨.ident, T⟩ ::
        ofSign .semicolon :: a) (ofSign .semicolon :: a) () [predicateTree p T] := by
  have passed : KindSet.statementEnd.holds .ident = false := by decide
  have ends : Ends .statementEnd (ofSign .semicolon :: a) := ends_of_kindOf rfl (by decide)
  refine typeAscription_of_typeExpr (typeExpr_of_balanced (balanced_of_rounds ?_))
  refine .step (runTurn_goesOn passed (atStatementStart_plain (by decide) _) rfl) ?_
  refine .step (runTurn_goesOn passed (atStatementStart_name p (by decide) _) (by simp [quiet])) ?_
  refine .step (runTurn_goesOn passed (atStatementStart_plain (by decide) _) rfl) ?_
  refine .step (runTurn_goesOn passed (atStatementStart_plain plain _) rfl) ?_
  exact .last (runTurn_ends rfl ends)

/-- A predicate is cut before its parameter, if that begins a declaration. -/
theorem predicate_cut {p : String} (loud : announces p = true) (a : List Lexeme) :
    Parses (typeAscription .statementEnd)
      (ofSign .colon :: ⟨.ident, "asserts"⟩ :: ⟨.ident, p⟩ :: ⟨.ident, "is"⟩ :: a)
      (⟨.ident, p⟩ :: ⟨.ident, "is"⟩ :: a) ()
      [.node .typeAscription [(ofSign .colon).leaf, .node .typeExpr [Lexeme.leaf ⟨.ident, "asserts"⟩]]] := by
  have passed : KindSet.statementEnd.holds .ident = false := by decide
  have asked := atStatementStart_name p (v := "is") (by decide) a
  rw [loud] at asked
  refine typeAscription_of_typeExpr (typeExpr_of_balanced (balanced_of_rounds ?_))
  exact .step (runTurn_goesOn passed (atStatementStart_plain (by decide) _) rfl)
    (.last (runTurn_cut passed asked))

/-! ### The declaration -/

/-- `unknown` -/
def unknownType : TypeRun :=
  ⟨⟨[⟨.ident, "unknown"⟩], by decide, by decide, by decide⟩, by decide⟩

def untypedTree (p : String) : SyntaxTree :=
  .node .parameterList [(ofSign .parenOpen).leaf,
    .node .parameter [.node .name [Lexeme.leaf ⟨.ident, p⟩], ascriptionTree unknownType.words],
    (ofSign .parenClose).leaf]

/-- `(p: unknown)`, whatever identifier the parameter has for its name. -/
theorem untyped_parses (p : String) (a : List Lexeme) :
    Parses functionParameters (ofSign .parenOpen :: ⟨.ident, p⟩ :: ofSign .colon ::
      ⟨.ident, "unknown"⟩ :: ofSign .parenClose :: a) a () [untypedTree p] := by
  have reads : ReadsItem .parenClose (currentIn .bindingStart <||> currentIs .dotDotDot) parameter
      [⟨.ident, p⟩, ofSign .colon, ⟨.ident, "unknown"⟩]
      (.node .parameter [.node .name [Lexeme.leaf ⟨.ident, p⟩], ascriptionTree unknownType.words]) := by
    refine ⟨fun _ => rfl, fun l => ?_, fun l behind => ?_⟩
    · let ahead : List Lexeme := ⟨.ident, p⟩ :: ofSign .colon :: ⟨.ident, "unknown"⟩ :: l
      have first : kindOf ahead 0 = some .ident := rfl
      have asked := (currentIn_parses ahead .bindingStart).or (currentIs_parses ahead .dotDotDot)
      rw [first] at asked
      exact asked
    · have ends : Ends .paramTypeEnd l := by
        rcases behind with here | here <;> exact ends_of_kindOf here (by decide)
      have other : (kindOf l 0 == some .equals) = false := by
        rcases behind with here | here <;> rw [here] <;> rfl
      have ascribed := typeAscription_parses .paramTypeEnd unknownType (typeEnd_of_mem (by simp)) ends
      refine node_parses ?_
      refine (eat_miss rfl).bind ?_
      refine (identifier_binds p _).seq ?_
      refine (eat_miss rfl).bind ?_
      refine (optional_hit rfl ascribed).seq ?_
      exact optional_miss other
  have items := items_repeat rfl (fun _ : Unit => reads) "parameter" [()] a
  exact (currentIs_parses _ .parenOpen).yes
    (assertAt_seq rfl (node_parses (delimited_parses _ _ rfl items)))

/-- `declare function f(p: unknown): asserts p is T;` behind `declare` -/
def predicateLexemes (f p T : String) : List Lexeme :=
  ofKeyword .kwFunction :: ⟨.ident, f⟩ :: ofSign .parenOpen :: ⟨.ident, p⟩ :: ofSign .colon ::
    ⟨.ident, "unknown"⟩ :: ofSign .parenClose :: ofSign .colon :: ⟨.ident, "asserts"⟩ ::
    ⟨.ident, p⟩ :: ⟨.ident, "is"⟩ :: ⟨.ident, T⟩ :: [ofSign .semicolon]

theorem functionName_identifier (f : String) (l : List Lexeme) :
    Parses (functionName false) (⟨.ident, f⟩ :: l) l () [.node .name [Lexeme.leaf ⟨.ident, f⟩]] :=
  (currentIs_parses _ .ident).yes (identifier_parses f l)

/-- The tree of the function with its predicate. -/
def functionPredicateTree (us : List SyntaxTree) (f p T : String) : SyntaxTree :=
  .node .functionDeclaration (us ++ [keywordLeaf .kwFunction, .node .name [Lexeme.leaf ⟨.ident, f⟩],
    untypedTree p, predicateTree p T, (ofSign .semicolon).leaf])

/-- With a quiet parameter the predicate is read. -/
theorem functionPredicate_parses (us : List SyntaxTree) (f : String) {p T : String}
    (quiet : announces p = false) (plain : Keyword.ofWord? T = none) :
    ParsesFrom us (functionDeclaration · false) (predicateLexemes f p T) [] ()
      [functionPredicateTree us f p T] := by
  refine nodeAt_parses ?_ us
  refine (takeKeyword_parses .kwFunction _).seq ?_
  refine (eat_miss rfl).bind ?_
  refine (functionName_identifier f _).seq ?_
  refine (optional_miss rfl).seq ?_
  refine (untyped_parses p _).seq ?_
  refine (optional_hit rfl (predicate_parses quiet plain [])).seq ?_
  exact expectSemicolon_parses []

/-- And the statement around it. -/
theorem statementWithin_predicate (n : Nat) (f : String) {p T : String} (quiet : announces p = false)
    (plain : Keyword.ofWord? T = none) :
    Parses (statementWithin n) (declareLexemes true ++ predicateLexemes f p T) [] ()
      [functionPredicateTree (declareTrees true) f p T] := by
  cases n with
  | zero => exact fun _ _ _ _ => .throw _
  | succ n =>
    have announced := onlyIf_parses (Parses.pure true _)
      (functionPredicate_parses (declareTrees true) f quiet plain)
    have read : ParsesFrom [] (statementAt (statementWithin n)) (declareLexemes true ++
        ofKeyword .kwFunction :: _) [] () [functionPredicateTree (declareTrees true) f p T] :=
      statementAt_parses rfl announced
    exact checkpoint_parses read

/-! ### Where something is missing -/

/-- On one line, a missing `;` is complained of. -/
theorem expectSemicolon_rejects (flat : ∀ w ∈ words, w.freshLine = false) {w : Lexeme}
    (other : w.kind ≠ .semicolon ∧ w.kind ≠ .braceClose) (l : List Lexeme) :
    Rejects words expectSemicolon (w :: l) () := by
  have missed : Parses (eat .semicolon) (w :: l) (w :: l) false [] :=
    eat_miss (by simpa [kindOf] using other.1)
  refine missed.rejects fun c ready here => ?_
  have ends := atEnd_answers.or ((currentIs_answers .braceClose).or onFreshLine_answers)
  refine (ends c).bind fun b d asked => ?_
  obtain ⟨rfl, same⟩ := asked
  obtain ⟨v, vs, rest⟩ : ∃ v vs, c.rest = v :: vs := by
    cases rest : c.rest with
    | nil => simp [rest] at here
    | cons v vs => exact ⟨v, vs, rfl⟩
  have kind : v.kind = w.kind := by
    rw [rest] at here
    exact congrArg Lexeme.kind (List.cons.inj here).1
  have within : v ∈ words := List.mem_of_mem_drop (ready.rest ▸ rest ▸ List.mem_cons_self)
  refine .ite (fun found => ?_) fun _ => (complain_spoils _ d).imp fun _ _ untidy => ⟨rfl, untidy⟩
  simp [rest, ready.refused, kindIn, kind, other.2, flat v within] at found

/-- With a parameter that begins a statement the function is rejected. -/
theorem functionPredicate_rejects (flat : ∀ w ∈ words, w.freshLine = false) (f T : String) {p : String}
    (loud : announces p = true) (point : Checkpoint) :
    Rejects words (functionDeclaration point false) (predicateLexemes f p T) () := by
  refine .nodeAt ?_ point _
  refine (takeKeyword_parses .kwFunction _).rejects ?_
  refine (eat_miss rfl).rejects ?_
  refine (functionName_identifier f _).rejects ?_
  refine (optional_miss rfl).rejects ?_
  refine (untyped_parses p _).rejects ?_
  refine (optional_hit rfl (predicate_cut loud _)).rejects ?_
  exact expectSemicolon_rejects flat (by simp) _

/-- And so is the source. -/
theorem source_rejects (flat : ∀ w ∈ words, w.freshLine = false) (f T : String) {p : String}
    (loud : announces p = true) :
    Rejects words source (declareLexemes true ++ predicateLexemes f p T) () := by
  have within (n : Nat) :
      Rejects words (statementWithin n) (declareLexemes true ++ predicateLexemes f p T) () := by
    cases n with
    | zero => exact fun _ _ _ => .throw _
    | succ n =>
      refine .checkpoint fun point => .statementAt rfl ?_
      exact (Parses.pure true _).rejects ((functionPredicate_rejects flat f T loud point).answer true)
  exact .source rfl within

end Grammar

/-! ### The text -/

/-- A text without line breaks has no word on a fresh line. -/
theorem Word.freshLine_ofTokens {text : String} (line : '\n' ∉ text.toList ∧ '\r' ∉ text.toList) :
    ∀ w ∈ Word.ofTokens (lex text), w.freshLine = false := by
  have within {t : Token} (mem : t ∈ lex text) {c : Char} (inside : c ∈ t.text.toList) :
      c ∈ text.toList := by
    rw [← Lexer.flatMap_lex text]
    exact List.mem_flatMap.2 ⟨t, mem, inside⟩
  -- Only a newline or a block comment can hold a line break.
  have unbroken (t : Token) (mem : t ∈ lex text) : t.breaksLine = false := by
    cases kind : t.kind with
    | newline =>
      obtain ⟨r, rule, matched⟩ := Lexer.exists_rule_of_mem_lex mem (by simp [kind])
      rw [kind] at rule
      have breaks : t.text.toList = ['\n'] ∨ t.text.toList = ['\r', '\n'] ∨ t.text.toList = ['\r'] := by
        have which : r = .text "\n" ∨ r = .text "\r\n" ∨ r = .text "\r" := by
          simpa [TokenRules.rules] using rule
        rcases which with rfl | rfl | rfl <;> simp [Regex.matches_text_iff.1 matched]
      rcases breaks with is | is | is
      · exact absurd (within mem (by simp [is])) line.1
      · exact absurd (within mem (by simp [is])) line.1
      · exact absurd (within mem (by simp [is])) line.2
    | blockComment =>
      have out : '\n' ∉ t.text.toList := fun inside => line.1 (within mem inside)
      simpa [Token.breaksLine, kind] using out
    | _ => simp [Token.breaksLine, kind]
  -- The flag is carried from token to token, and no token raises it.
  have after (tokens : List Token) (all : ∀ t ∈ tokens, t.breaksLine = false) :
      ∀ w ∈ Word.after false tokens, w.freshLine = false := by
    induction tokens with
    | nil => simp [Word.after]
    | cons t rest ih =>
      rw [List.forall_mem_cons] at all
      rw [Word.after]
      split
      · rw [all.1, Bool.or_false]
        exact ih all.2
      · exact List.forall_mem_cons.2 ⟨rfl, ih all.2⟩
  exact after _ unbroken

/-- The text is cut into these words. -/
theorem cuts_predicateText {f p T : String} (identifiers : ∀ w ∈ [f, p, T], Text.isIdentifier w = true) :
    Lexer.Cuts (predicateText f p T).toList (declareLexemes true ++ predicateLexemes f p T) := by
  obtain ⟨function, parameter, type⟩ : Text.isIdentifier f = true ∧ Text.isIdentifier p = true ∧
      Text.isIdentifier T = true := by simpa using identifiers
  have semicolon : Lexer.Cuts [';'] [Lexeme.ofSign .semicolon] :=
    .sign (by decide +kernel) rfl (by decide) .nil
  have predicate := Lexer.Cuts.identifiers "asserts" [p, "is", T]
    (by simp [parameter, type]; decide) (by simp; decide) semicolon
  have answer : Lexer.Cuts (':' :: _) (Lexeme.ofSign .colon :: _) :=
    .sign (by decide +kernel) rfl (by decide) (predicate.blanks [' '] (by simp) (by simp) (by simp))
  have closer : Lexer.Cuts (')' :: _) (Lexeme.ofSign .parenClose :: _) :=
    .sign (by decide +kernel) rfl (by decide) answer
  have unknown : Lexer.Cuts ("unknown".toList ++ _) (⟨.ident, "unknown"⟩ :: _) :=
    .name (by decide) (by simp; decide) closer
  have colon : Lexer.Cuts (':' :: _) (Lexeme.ofSign .colon :: _) :=
    .sign (by decide +kernel) rfl (by decide) (unknown.blanks [' '] (by simp) (by simp) (by simp))
  have named : Lexer.Cuts (p.toList ++ _) (⟨.ident, String.ofList p.toList⟩ :: _) :=
    .name parameter (by simp; decide) colon
  have opener : Lexer.Cuts ('(' :: _) (Lexeme.ofSign .parenOpen :: _) :=
    .sign (by decide +kernel) rfl (by decide) named
  have whole := Lexer.Cuts.identifiers "declare" ["function", f]
    (by simp [function]; decide) (by simp; decide) opener
  have middle : ": unknown): ".toList = ':' :: ([' '] ++ ("unknown".toList ++ ')' :: ':' :: [' '])) := by
    decide
  rw [String.ofList_toList] at whole
  simp only [predicateText, String.toList_append, middle, List.append_assoc, List.cons_append,
    List.nil_append] at whole ⊢
  exact whole

theorem Text.isIdentifierPart_of_mem {w : String} (identifier : isIdentifier w = true) {c : Char}
    (mem : c ∈ w.toList) : isIdentifierPart c = true := by
  rw [isIdentifier] at identifier
  cases spelled : w.toList with
  | nil => simp [spelled] at mem
  | cons d more =>
    rw [spelled, isIdentifierList, Bool.and_eq_true, List.all_eq_true] at identifier
    rcases List.mem_cons.1 (spelled ▸ mem) with rfl | mem
    · exact isIdentifierPart_of_start identifier.1
    · exact identifier.2 c mem

/-- The text stands on one line. -/
theorem line_predicateText {f p T : String} (identifiers : ∀ w ∈ [f, p, T], Text.isIdentifier w = true)
    {d : Char} (breaks : d = '\n' ∨ d = '\r') : d ∉ (predicateText f p T).toList := by
  have named (w : String) (mem : w ∈ [f, p, T]) : d ∉ w.toList := by
    intro inside
    have part := Text.isIdentifierPart_of_mem (identifiers w mem) inside
    rcases breaks with rfl | rfl <;> exact absurd part (by decide)
  have function := named f (by simp)
  have parameter := named p (by simp)
  have type := named T (by simp)
  rcases breaks with rfl | rfl <;>
    simp [predicateText, String.intercalate_cons_cons, function, parameter, type]

/-- Where the grammar complains of the words of a text, the text is parsed with a diagnostic. -/
theorem parse_of_source_rejects {text : String} {written : List Lexeme}
    (lexemes : ((lex text).filter (!·.kind.isTrivia)).map Token.lexeme = written)
    (rejects : Rejects (Word.ofTokens (lex text)) source written ()) :
    ∃ p, parse text = .ok p ∧ p.diagnostics ≠ [] := by
  obtain ⟨p, c, children, parsed, -⟩ := exists_parse text
  refine ⟨p, parsed, fun faultless => ?_⟩
  obtain ⟨c, children, run, walk, kept, -, -, -, rfl⟩ := run_of_parseWithin parsed
  have quiet : c.complaints = [] := by simpa [Outline.dress] using faultless
  have tidy : c.Tidy :=
    ⟨quiet, Classical.not_not.1 fun noted => walk.frame.noted (absurd rfl) noted quiet, kept⟩
  have words : (Word.ofTokens (lex text)).map Word.lexeme = written :=
    (Word.lexemes_after false (lex text)).trans lexemes
  exact (rejects _ ⟨⟨rfl, rfl, rfl⟩, rfl, rfl⟩ words () c run).2 tidy

/-- A type predicate is read as it is written unless its parameter has the name of a keyword that a
name may follow: then the type ends before the parameter, and a `;` is missed there. All other
names, keywords or not, leave one declaration of the function and its parameter. -/
theorem parse_predicateText {f p T : String} (identifiers : ∀ w ∈ [f, p, T], Text.isIdentifier w = true)
    (plain : Keyword.ofWord? T = none) : ∃ u, parse (predicateText f p T) = .ok u ∧
      (u.diagnostics = [] ↔ announces p = false) ∧
      (announces p = false → Statement.unplacedAll u.tree.statements =
        [.plain ⟨.point 0, false, true⟩
          (.function (some ⟨f, false, .point 0⟩) none (some [[⟨p, false, .point 0⟩]]))]) := by
  have written := (cuts_predicateText identifiers).lex
  cases announced : announces p with
  | false =>
    have first : kindOf (declareLexemes true ++ predicateLexemes f p T) 0 = some .ident := rfl
    have turns : Repeats sourceTurn _ [] ([functionPredicateTree (declareTrees true) f p T] ++ []) :=
      .again (sourceTurn_of_statement first fun n => statementWithin_predicate n f announced plain)
        (.stop sourceTurn_ends)
    obtain ⟨u, parsed, clean, statements⟩ := parse_of_source_parses written (source_of_turns turns)
    exact ⟨u, parsed, by simp [clean], fun _ => statements⟩
  | true =>
    have flat := Word.freshLine_ofTokens ⟨line_predicateText identifiers (.inl rfl),
      line_predicateText identifiers (.inr rfl)⟩
    obtain ⟨u, parsed, faulty⟩ := parse_of_source_rejects written (source_rejects flat f T announced)
    exact ⟨u, parsed, by simp [faulty], nofun⟩

/-- Keywords that no name follows in a declaration. -/
theorem parse_predicateText_global :
    predicateText "type" "global" "T" = "declare function type(global: unknown): asserts global is T;" ∧
    announces "global" = false ∧
    ∃ u, parse "declare function type(global: unknown): asserts global is T;" = .ok u ∧
      u.diagnostics = [] ∧ Statement.unplacedAll u.tree.statements =
        [.plain ⟨.point 0, false, true⟩
          (.function (some ⟨"type", false, .point 0⟩) none (some [[⟨"global", false, .point 0⟩]]))] := by
  have text : predicateText "type" "global" "T" =
      "declare function type(global: unknown): asserts global is T;" := by decide
  have quiet : announces "global" = false := by decide
  obtain ⟨u, parsed, clean, statements⟩ := parse_predicateText (f := "type") (p := "global") (T := "T")
    (by decide) (by decide)
  exact ⟨text, quiet, u, text ▸ parsed, clean.2 quiet, statements quiet⟩

/-- A type that names a parameter `type` is cut in two: a `;` is missed before the name, and what
is behind it becomes a second statement. -/
theorem type_cuts_predicate :
    predicateText "f" "type" "T" = "declare function f(type: unknown): asserts type is T;" ∧
    ∃ u, parse "declare function f(type: unknown): asserts type is T;" = .ok u ∧
      u.diagnostics.map (fun d => (d.kind, d.span)) =
        [(.expectedSemicolon, ⟨43, 47⟩), (.unexpectedToken, ⟨51, 52⟩)] ∧
      u.tree.statements.length = 2 := by
  have found : (parse "declare function f(type: unknown): asserts type is T;").toOption.any (fun u =>
      decide (u.diagnostics.map (fun d => (d.kind, d.span)) =
        [(.expectedSemicolon, ⟨43, 47⟩), (.unexpectedToken, ⟨51, 52⟩)] ∧
      u.tree.statements.length = 2)) = true := by
    decide +kernel
  obtain ⟨u, parsed, found⟩ := exists_of_any_toOption found
  exact ⟨by decide, u, parsed, of_decide_eq_true found⟩

end ImplicitGlobals
