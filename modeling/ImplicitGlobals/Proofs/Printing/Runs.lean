import ImplicitGlobals.Grammar.Balanced
import ImplicitGlobals.Proofs.Printing.Logic

/-!
# Reading runs that are written

A run of words in which the brackets are well nested is read to its end, and no further: outside
of all brackets it has no word that stops it, and inside nothing does.
-/

namespace ImplicitGlobals.Grammar

variable {l a : List Lexeme} {ts : List SyntaxTree} {w : Lexeme} {mode : RunMode} {stop : KindSet} {r : Run}
  {kinds : List TokenKind}

/-! ### One word -/

/-- The round goes on with brackets of the kinds open. -/
def Goes (kinds : List TokenKind) (t : Turn Run) : Prop :=
  ∃ r, t = .again r ∧ r.stack.map (·.kind) = kinds ∧ r.consumed = true

/-- A word that is passed within brackets. -/
theorem bumpRound_parses (stack : List Opener) (w : Lexeme) (l : List Lexeme) :
    ParsesTo (do bump; return .again ⟨stack, true⟩) (w :: l) l
        (Goes (stack.map (·.kind))) [w.leaf] :=
  (bump_parses w l).answerTo ⟨_, rfl, rfl, rfl⟩

/-- An opening bracket goes onto the stack. -/
theorem openBracket_parses (kind : TokenKind) (stack : List Opener) (w : Lexeme) (l : List Lexeme) :
    ParsesTo (openBracket kind stack) (w :: l) l (Goes (kind :: stack.map (·.kind))) [w.leaf] :=
  (mark_parses (w :: l)).ask fun i _ => bumpRound_parses (⟨kind, i⟩ :: stack) w l

/-- A closing bracket takes its opening one off. -/
theorem closeBracket_parses {kind : TokenKind}
    (opened : r.stack.map (·.kind) = openerOf kind :: kinds) (w : Lexeme) (l : List Lexeme) :
    ParsesTo (closeBracket kind r) (w :: l) l (Goes kinds) [w.leaf] := by
  obtain ⟨stack, consumed⟩ := r
  cases stack with
  | nil => cases opened
  | cons top below =>
    obtain ⟨fits, rfl⟩ := List.cons.inj opened
    have fits : top.kind = openerOf kind := fits
    -- No closer matches an angle, so there is none to drop.
    have outer : top.kind ≠ .angleOpen := by
      rw [fits]
      cases kind <;> decide
    have dropped : dropAngles (top :: below) = top :: below :=
      List.dropWhile_cons_of_neg (by simpa using outer)
    rw [closeBracket, dropped]
    simp only [fits, if_true]
    exact bumpRound_parses below w l

/-- A word that is read in a run opens or closes a bracket, or leaves them as they are. -/
theorem runWord_parses (clean : w.kind ≠ .garbage)
    (step : nestStep mode.angles (r.stack.map (·.kind)) w.kind = some kinds) (l : List Lexeme) :
    ParsesTo (runWord mode r (some w.kind)) (w :: l) l (Goes kinds) [w.leaf] := by
  generalize w.kind = kind at clean step
  -- What a round does is decided by what the kind does to the open brackets.
  have same (plain : kind.opens mode.angles = false) (free : kind.opener? mode.angles = none) :
      ParsesTo (do bump; return .again ⟨r.stack, true⟩) (w :: l) l (Goes kinds) [w.leaf] := by
    rw [nestStep_of_plain _ plain free] at step
    exact Option.some.inj step ▸ bumpRound_parses r.stack w l
  have opened (opens : kind.opens mode.angles = true) :
      ParsesTo (openBracket kind r.stack) (w :: l) l (Goes kinds) [w.leaf] := by
    rw [nestStep_of_opens _ opens] at step
    exact Option.some.inj step ▸ openBracket_parses kind r.stack w l
  have closed (closes : kind.opener? mode.angles = some (openerOf kind)) :
      ParsesTo (closeBracket kind r) (w :: l) l (Goes kinds) [w.leaf] :=
    closeBracket_parses (eq_cons_of_nestStep closes step) w l
  cases kind with
  | parenOpen | bracketOpen | braceOpen => exact opened rfl
  | parenClose | bracketClose | braceClose => exact closed rfl
  | garbage => exact absurd rfl clean
  -- An angle is a bracket in a type only.
  | angleOpen =>
    rw [runWord]
    split
    · next angles => exact opened (by simpa [TokenKind.opens] using angles)
    · next angles =>
      have angles := Bool.eq_false_iff.2 angles
      exact same (by simpa [TokenKind.opens] using angles) rfl
  | angleClose =>
    cases angles : mode.angles with
    | false =>
      have stays := same rfl (by simp [TokenKind.opener?, angles])
      simpa [runWord, angles] using stays
    | true =>
      have top := eq_cons_of_nestStep (o := .angleOpen) (by simp [TokenKind.opener?, angles]) step
      obtain ⟨o, below, stack, angle, rfl⟩ := List.map_eq_cons_iff.1 top
      have round := bumpRound_parses below w l
      simpa [runWord, angles, stack, angle] using round
  | _ => exact same rfl rfl

/-! ### One round -/

/-- Outside of all brackets, a run ends here. -/
def Ends (stop : KindSet) (l : List Lexeme) : Prop :=
  ∃ k, kindOf l 0 = some k ∧ (stop.holds k || KindSet.closers.holds k) = true

/-- A stop token or a closer ends a run. -/
theorem ends_of_kindOf {kind : TokenKind} (here : kindOf l 0 = some kind)
    (stops : (stop.holds kind || KindSet.closers.holds kind) = true) : Ends stop l :=
  ⟨kind, here, stops⟩

/-- A plain word begins no statement. -/
theorem atStatementStart_parses (plain : w.isKeyword = false) (l : List Lexeme) :
    Parses atStatementStart (w :: l) (w :: l) false [] := by
  intro words c ready here
  refine (atStatementStart_yields c).imp fun b d post => ?_
  refine ⟨post.2 fun v first ident => ?_, post.1.ready ready, post.1.rest ▸ here, .same post.1⟩
  obtain ⟨vs, rest⟩ := List.head?_eq_some_iff.1 first
  rw [rest, List.map_cons, List.cons.injEq] at here
  simpa [← here.1, Lexeme.isKeyword, Word.lexeme, ident] using plain

/-- Outside of all brackets, a run reads on at the word: it is none that stops the run, and no
statement begins there. -/
structure Passes (stop : KindSet) (mode : RunMode) (w : Lexeme) : Prop where
  kind : stop.holds w.kind = false
  within : mode.boundary = true → ∀ l, Parses atStatementStart (w :: l) (w :: l) false []

theorem Passes.plain (kind : stop.holds w.kind = false) (plain : mode.boundary = true → w.isKeyword = false) :
    Passes stop mode w :=
  ⟨kind, fun boundary => atStatementStart_parses (plain boundary)⟩

/-- Outside of all brackets nothing is closed. -/
theorem opener?_of_nestStep_nil {angles : Bool} {kind : TokenKind}
    (step : nestStep angles [] kind = some kinds) : kind.opener? angles = none := by
  cases closes : kind.opener? angles with
  | none => rfl
  | some o => cases eq_cons_of_nestStep closes step

/-- A run does not end at a word that it passes. -/
theorem runEnds_goes (passes : Passes stop mode w)
    (step : nestStep mode.angles [] w.kind = some kinds) (consumed : Bool) (l : List Lexeme) :
    Parses (runEnds stop mode consumed (some w.kind)) (w :: l) (w :: l) false [] := by
  have closes := opener?_of_nestStep_nil step
  have inner : KindSet.closers.holds w.kind = false := by
    generalize w.kind = kind at closes
    cases kind <;> first | decide | cases closes
  have angle : (mode.angles && some w.kind == some .angleClose) = false := by
    by_cases is : w.kind = .angleClose
    · rw [is] at closes
      cases angles : mode.angles with
      | false => rfl
      | true => simp [TokenKind.opener?, angles] at closes
    · simp [is]
  rw [runEnds, if_neg (by simp [passes.kind, inner]), if_neg (Bool.eq_false_iff.1 angle)]
  have began : Parses (pure (mode.boundary && consumed) <&&> atStatementStart) (w :: l) (w :: l)
      ((mode.boundary && consumed) && false) [] := by
    cases boundary : mode.boundary && consumed with
    | false => exact Parses.pure false _
    | true => exact passes.within (Bool.and_eq_true_iff.1 boundary).1 l
  simpa using began

/-- One word of a run, with the brackets open behind it. -/
theorem runTurn_goes (clean : w.kind ≠ .garbage)
    (step : nestStep mode.angles (r.stack.map (·.kind)) w.kind = some kinds)
    (free : r.stack = [] → Passes stop mode w) (l : List Lexeme) :
    ParsesTo (runTurn stop mode r) (w :: l) l (Goes kinds) [w.leaf] := by
  have inside : Parses (pure r.stack.isEmpty <&&> runEnds stop mode r.consumed (some w.kind))
      (w :: l) (w :: l) false [] := by
    cases stack : r.stack with
    | nil => exact runEnds_goes (free stack) (by simpa [stack] using step) r.consumed l
    | cons o below => exact Parses.pure false _
  refine (atEnd_parses (w :: l)).askTo ?_
  refine (current_parses (w :: l)).askTo ?_
  exact inside.askTo (runWord_parses clean step l)

/-- A run ends at a stop where no bracket is open. -/
theorem runTurn_ends (out : r.stack = []) (ends : Ends stop a) :
    Parses (runTurn stop mode r) a a (.done r) [] := by
  obtain ⟨k, here, stops⟩ := ends
  have inside : Parses (pure r.stack.isEmpty <&&> runEnds stop mode r.consumed (some k))
      a a true [] := by
    have found : (some k).any (fun k => stop.holds k || KindSet.closers.holds k) = true := stops
    rw [out, runEnds, if_pos found]
    exact Parses.pure true a
  have read := current_parses a
  rw [here] at read
  exact (isEmpty_of_kindOf here ▸ atEnd_parses a).no (read.ask (inside.yes (.pure _ a)))

/-! ### Whole runs -/

/-- The words that close all that is open are read, and no others. -/
theorem rounds_run (ends : Ends stop a) (ls : List Lexeme) (r : Run)
    (clean : ∀ l ∈ ls, l.kind ≠ .garbage)
    (nested : nest mode.angles (r.stack.map (·.kind)) (ls.map (·.kind)) = some [])
    (free : ∀ i, (h : i < ls.length) →
      nest mode.angles (r.stack.map (·.kind)) ((ls.take i).map (·.kind)) = some [] →
      Passes stop mode ls[i]) :
    Rounds (runTurn stop mode) r (ls ++ a) a
      (fun r' => r'.stack = [] ∧ r'.consumed = (r.consumed || !ls.isEmpty))
      (ls.map Lexeme.leaf) := by
  -- The brackets that are open where the run stands are those that the words before it leave open.
  induction ls generalizing r with
  | nil =>
    have out : r.stack = [] := by simpa [nest] using nested
    refine .done ((runTurn_ends out ends).imp fun t is => ⟨r, is, out, by simp⟩)
  | cons w ls ih =>
    rw [List.map_cons, nest_cons] at nested
    obtain ⟨kinds, step, nested⟩ := Option.bind_eq_some_iff.1 nested
    rw [List.forall_mem_cons] at clean
    have passes (out : r.stack = []) : Passes stop mode w := free 0 (by simp) (by simp [out, nest])
    have first := runTurn_goes clean.1 step passes (ls ++ a)
    refine Rounds.again first fun r' goes => ?_
    obtain ⟨rfl, consumed⟩ := goes
    have later (i : Nat) (bound : i < ls.length)
        (out : nest mode.angles (r'.stack.map (·.kind)) ((ls.take i).map (·.kind)) = some []) :
        Passes stop mode ls[i] := by
      refine free (i + 1) (by simpa using bound) ?_
      rw [List.take_succ_cons, List.map_cons, nest_cons, step]
      exact out
    simpa [consumed] using ih r' clean.2 nested later

/-- A run is read to its end, whole. -/
theorem balanced_parses (stop : KindSet) (mode : RunMode) {barred : Lexeme → Bool}
    (run : WordRun mode.angles barred) (passes : ∀ w, barred w = false → Passes stop mode w)
    (ends : Ends stop a) :
    Parses (balanced stop mode) (run.words ++ a) a (!run.words.isEmpty)
        (run.words.map Lexeme.leaf) := by
  have whole := (rounds_run ends run.words {} run.clean run.nested fun i bound out =>
    passes _ (run.free i bound out)).loop
  have reported : Parses (balanced stop mode) (run.words ++ a) a (!run.words.isEmpty)
      (run.words.map Lexeme.leaf ++ []) :=
    whole.bind fun r is => by
      rw [is.1, is.2]
      exact Parses.pure _ a
  rwa [List.append_nil] at reported

/-! ### Types -/

/-- The tree of a name. -/
def nameTree (n : PlainName) : SyntaxTree := .node .name [n.lexeme.leaf]

/-- The tree of a type. -/
def typeTree (words : List Lexeme) : SyntaxTree := .node .typeExpr (words.map Lexeme.leaf)

/-- `: type` -/
def ascriptionTree (words : List Lexeme) : SyntaxTree :=
  .node .typeAscription [(Lexeme.ofSign .colon).leaf, typeTree words]

/-- `= value` -/
def initializerTree (value : Lexeme) : SyntaxTree :=
  .node .initializer [(Lexeme.ofSign .equals).leaf, value.leaf]

/-- Any identifier is read as a name, be it a keyword elsewhere. -/
theorem identifier_parses (text : String) (a : List Lexeme) :
    Parses nameRule (⟨.ident, text⟩ :: a) a () [.node .name [Lexeme.leaf ⟨.ident, text⟩]] :=
  (currentIs_parses _ .ident).yes (node_parses (bump_parses _ a))

theorem nameRule_parses (n : PlainName) (a : List Lexeme) :
    Parses nameRule (n.lexeme :: a) a () [nameTree n] :=
  identifier_parses n.text a

/-- A type is what a run reads that has a word. -/
theorem typeExpr_of_balanced (h : Parses (balanced stop .type) l a true ts) :
    Parses (typeExpr stop) l a () [.node .typeExpr ts] := by
  have body := h.bind (f := fun b => if (!b) = true then error .expectedType else pure ())
      (.pure () a)
  rw [List.append_nil] at body
  exact node_parses body

/-- A type is read to its stop token. -/
theorem typeExpr_parses {barred : Lexeme → Bool} (run : WordRun true barred) (some : run.words ≠ [])
    (passes : ∀ w, barred w = false → Passes stop .type w) (ends : Ends stop a) :
    Parses (typeExpr stop) (run.words ++ a) a () [typeTree run.words] := by
  have read := balanced_parses stop .type run passes ends
  rw [show (!run.words.isEmpty) = true by simpa using some] at read
  exact typeExpr_of_balanced read

theorem assertAt_seq {kind : TokenKind} {r : Rule Unit} {ts : List SyntaxTree} (is : w.kind = kind)
    (h : Parses r (w :: l) a () ts) : Parses (do assertAt kind; r) (w :: l) a () ts :=
  (assertAt_parses is l).seq h

/-- What stops here ends a type at all. -/
def TypeEnd (stop : KindSet) : Prop :=
  ∀ kind, stop.holds kind = true → kind = .comma ∨ kind = .semicolon ∨ kind = .equals

theorem typeEnd_of_mem
    (mem : stop ∈ [.declaratorTypeEnd, .paramTypeEnd, .statementEnd, .listItemEnd]) :
    TypeEnd stop := by
  simp only [List.mem_cons, List.not_mem_nil, or_false] at mem
  intro kind
  rcases mem with rfl | rfl | rfl | rfl <;> cases kind <;> decide

/-- A word that ends no type is passed. -/
theorem TypeEnd.passes (h : TypeEnd stop) (w : Lexeme) (free : w.endsType = false) :
    Passes stop mode w := by
  simp only [Lexeme.endsType, Bool.or_eq_false_iff, beq_eq_false_iff_ne] at free
  refine .plain (Bool.eq_false_iff.2 fun stopped => ?_) fun _ => free.2
  rcases h _ stopped with is | is | is <;> simp [is] at free

/-- A type where one is expected. -/
theorem type_parses (stop : KindSet) (type : TypeRun) (stops : TypeEnd stop) (ends : Ends stop a) :
    Parses (typeExpr stop) (type.words ++ a) a () [typeTree type.words] :=
  typeExpr_parses type.toWordRun type.some stops.passes ends

/-- A colon before a type. -/
theorem typeAscription_of_typeExpr (h : Parses (typeExpr stop) l a () ts) :
    Parses (typeAscription stop) (.ofSign .colon :: l) a ()
      [.node .typeAscription ((Lexeme.ofSign .colon).leaf :: ts)] :=
  assertAt_seq rfl (node_parses ((bump_parses _ _).seq h))

/-- The same behind a colon. -/
theorem typeAscription_parses (stop : KindSet) (type : TypeRun) (stops : TypeEnd stop)
    (ends : Ends stop a) :
    Parses (typeAscription stop) (.ofSign .colon :: (type.words ++ a)) a ()
        [ascriptionTree type.words] :=
  typeAscription_of_typeExpr (type_parses stop type stops ends)

theorem passes_of_endsHeritage (ends : w.endsHeritage = false) : Passes .heritageEnd mode w := by
  simp only [Lexeme.endsHeritage, Lexeme.endsType, Bool.or_eq_false_iff,
      beq_eq_false_iff_ne] at ends
  refine .plain ?_ fun _ => ends.1.2
  generalize w.kind = kind at ends
  cases kind <;> first | decide | simp at ends

/-- A type of a heritage clause. -/
theorem heritageType_parses (type : HeritageRun) (ends : Ends .heritageEnd a) :
    Parses (typeExpr .heritageEnd) (type.words ++ a) a () [typeTree type.words] :=
  typeExpr_parses type.toWordRun type.some (fun _ free => passes_of_endsHeritage free) ends

/-! ### Values and bodies -/

/-- A number as a run. -/
def numberRun (n : String) : WordRun false Lexeme.endsType where
  words := [⟨.number, n⟩]
  clean := by simp
  nested := rfl
  free i bound _ := by
    obtain rfl : i = 0 := by simpa using bound
    rfl

/-- A number as a value. -/
theorem initializer_parses (n : String) (ends : Ends .listItemEnd a) :
    Parses (initializer .listItemEnd) (.ofSign .equals :: ⟨.number, n⟩ :: a) a ()
      [initializerTree ⟨.number, n⟩] := by
  have stops : TypeEnd .listItemEnd := typeEnd_of_mem (by simp)
  have read := balanced_parses .listItemEnd .expression (numberRun n) stops.passes ends
  have body := read.bind (f := fun b => if (!b) = true then error .expectedExpression else pure ())
    (.pure () a)
  exact assertAt_seq rfl (node_parses ((bump_parses _ _).seq body))

theorem bodyTurn_parses (body : BodyRun) {last : Lexeme} (closes : last.kind = .braceClose) (a : List Lexeme) :
    Parses bodyTurn (body.words ++ last :: a) (last :: a) false (body.words.map Lexeme.leaf) := by
  have here : kindOf (last :: a) 0 = some .braceClose := congrArg some closes
  have ends : Ends .empty (last :: a) := ends_of_kindOf here (by decide)
  have read := balanced_parses .empty .body body (fun w _ => ⟨KindSet.contains_empty _, nofun⟩) ends
  have whole : Parses bodyTurn _ _ false _ :=
    read.bind <| (here ▸ current_parses _).bind <| (atEnd_parses _).bind (.pure false _)
  rwa [List.append_nil, List.append_nil, List.append_nil] at whole

/-- A body without statements, between its braces. -/
theorem braced_parses (kind : NodeKind) (body : BodyRun) {first last : Lexeme} (opens : first.kind = .braceOpen)
    (closes : last.kind = .braceClose) (a : List Lexeme) :
    Parses (bracedBody kind) (first :: (body.words ++ last :: a)) a ()
      [.node kind (first.leaf :: body.words.map Lexeme.leaf ++ [last.leaf])] := by
  have inner := delimited_parses ⟨.braceOpen, .braceClose, .unclosedBrace, "body opened here", true⟩
    first closes (.stop (bodyTurn_parses body closes a))
  have here : kindOf (first :: (body.words ++ last :: a)) 0 = some .braceOpen := congrArg some opens
  exact (here ▸ currentIs_parses _ .braceOpen).bind (node_parses inner)

/-- Braces around a body. -/
def bodyTree (kind : NodeKind) (body : BodyRun) : SyntaxTree :=
  .node kind (body.lexemes.map Lexeme.leaf)

theorem bracedBody_parses (kind : NodeKind) (body : BodyRun) (a : List Lexeme) :
    Parses (bracedBody kind) (body.lexemes ++ a) a () [bodyTree kind body] := by
  rw [BodyRun.lexemes_append]
  simpa [bodyTree, BodyRun.lexemes] using braced_parses kind body rfl rfl a

end ImplicitGlobals.Grammar
