import ImplicitGlobals.Grammar.Declaration
import ImplicitGlobals.Proofs.Grammar.Binding

/-!
# Declarations come back

Each declaration reads its keyword first, so it moves on wherever it may be
entered: at its keyword, behind the checkpoint of its statement.
-/

namespace ImplicitGlobals.Grammar

variable {c d : Cursor}

/-- The words begin with the keyword. -/
def Announces (k : Keyword) (ws : List Word) : Prop := spells ws 0 k.word = true

/-- What an identifier is looked up as is what it announces. -/
theorem announces_of_ofWord? {ws : List Word} {k : Keyword} (ident : kindIn ws 0 = some .ident)
    (spelt : Keyword.ofWord? ((ws[0]?.map Word.text).getD "") = some k) : Announces k ws := by
  obtain ⟨w, rest, rfl, kind⟩ := exists_of_kindIn ident
  have text : k.word = w.text := by simpa using Keyword.word_of_ofWord? spelt
  simp [Announces, spells, Word.isWord, kind, text]

/-! ### Variables -/

/-- A declarator costs what its binding, its type and its value do. -/
theorem variableDeclarator_safe : Safe ⟨9, some 6, some 10, 24⟩ variableDeclarator := by
  apply Safe.weaken
  · apply node_safe (by decide)
    apply binding_safe.bind
    intro _
    apply (eat_safe .bang).bind
    intro _
    apply (optional_safe (typeAscription_safe .declaratorTypeEnd)).bind
    exact fun _ => optional_safe (initializer_safe .declaratorInitEnd)
  · decide

/-- A declarator with its comma goes on where the list does. -/
theorem variableTurn_turns (n : Nat) : Turns n ⟨9, some 7, some 11, 24⟩ variableTurn := by
  intro c _
  apply Walks.weaken
  · apply (variableDeclarator_safe c).bind
    exact fun _ d toD _ => eat_further .comma toD
  · decide

/-- A variable statement is entered where its keyword stands. -/
theorem variableStatement_wraps :
    Wraps (fun ws => kindIn ws 0 = some .ident) ⟨2, none, some 21, 24⟩ variableStatement := by
  apply nodeAt_wraps (by decide)
  intro c ident
  apply Reads.weaken
  · apply (bumpKeyword_reads ident).later
    intro _
    apply (Later.ofSafe (repeatWhile_safe variableTurn_turns)).bind
    exact fun _ => expectSemicolon_later
  · decide

/-! ### Functions -/

/-- Either a name is read, or a complaint is made for want of it. -/
theorem functionName_safe (anonymous : Bool) : Safe ⟨4, some 3, some 0, 4⟩ (functionName anonymous) := by
  apply Safe.weaken
  · apply (currentIs_asks .ident).safe.branch nameRule_safe
    exact .ite (error_safe .expectedName) (.pure ())
  · decide

/-- Either the parameters are read, or a complaint is made for want of them. -/
theorem functionParameters_safe : Safe ⟨6, some 2, some 24, 25⟩ functionParameters := by
  intro c
  apply Walks.weaken
  · apply ((currentIs_asks .parenOpen).walks c).branch
    · exact fun d _ asked => parameters_safe d (asked.2.rest ▸ eq_of_beq asked.1.symm)
    · exact fun d _ _ => errorWith_safe .unexpectedToken "expected `(`" d
  · decide

/-- What comes behind the name of a function. -/
theorem functionSignature_later : Later ⟨8, some 7, some 47, 47⟩ (do
    optional .angleOpen typeParameters
    functionParameters
    optional .colon (typeAscription .statementEnd)
    expectSemicolon) := by
  apply Later.weaken
  · apply (Later.ofSafe (optional_safe typeParameters_safe)).bind
    intro _
    apply (Later.ofSafe functionParameters_safe).bind
    intro _
    apply (Later.ofSafe (optional_safe (typeAscription_safe .statementEnd))).bind
    exact fun _ => expectSemicolon_later
  · decide

/-- A function is wrapped around the word `function`. -/
theorem functionDeclaration_wraps (anonymous : Bool) :
    Wraps (Announces .kwFunction) ⟨1, none, some 47, 47⟩ fun point => functionDeclaration point anonymous := by
  apply nodeAt_wraps (by decide)
  intro c keyword
  apply Reads.weaken
  · apply (takeKeyword_reads keyword).later
    intro _
    apply (Later.ofSafe (eat_safe .star)).bind
    intro _
    apply (Later.ofSafe (functionName_safe anonymous)).bind
    exact fun _ => functionSignature_later
  · decide

/-! ### Classes and interfaces -/

/-- A type of a heritage clause reads at least one word, or the clause ends. -/
theorem heritageTurn_turns (n : Nat) : Turns n ⟨12, some 10, some 10, 12⟩ heritageTurn := by
  intro c _
  apply Walks.weaken
  · apply (typeExpr_safe .heritageEnd c).bind
    exact fun _ d toD _ => eat_further .comma toD
  · decide

/-- The cost of a heritage clause. -/
def Cost.heritage : Cost := ⟨2, none, some 20, 22⟩

/-- A heritage clause begins with an identifier, which it reads. -/
theorem heritageClause_reads (ident : kindIn c.rest 0 = some .ident) :
    Reads .heritage heritageClause c := by
  apply Reads.weaken
  · apply node_reads (by decide)
    intro d alike
    apply (bumpKeyword_reads (alike.rest ▸ ident)).bind
    exact fun _ => repeatWhile_safe heritageTurn_turns
  · decide

/-- A test that only finds identifiers begins a heritage clause. -/
theorem heritageClauseTurn_turns {m : Nat} {test : Rule Bool} {v : List Word → Option Limit → Bool}
    (asks : Asks m test v) (ident : ∀ ws l, v ws l = true → kindIn ws 0 = some .ident) (n : Nat) :
    Turns n ((Cost.looks m).seq ((Cost.heritage.seq .free).alt .free))
      (heritageClauseTurn test) := by
  intro c _
  apply (asks.walks c).branch
  · intro d toD asked
    exact (heritageClause_reads (asked.2.rest ▸ ident _ _ asked.1.symm)).goesOn toD
  · exact fun _ _ _ => .pure nofun

/-- The class name is read unless the clauses begin already. -/
theorem className_safe (anonymous : Bool) : Safe ⟨6, some 5, some 0, 6⟩ (className anonymous) := by
  apply Safe.weaken
  · have named := (currentIs_asks .ident).and
      (((atKeyword_asks .kwExtends).map (!·)).and ((atKeyword_asks .kwImplements).map (!·)))
    apply named.safe.branch nameRule_safe
    exact .ite (error_safe .expectedName) (.pure ())
  · decide

/-- A body is read, or complained of where it is missing. -/
theorem requiredBody_safe {kind : NodeKind} (any : kind.holdsAny) (what : String) :
    Safe ⟨6, some 3, some 26, 27⟩ (requiredBody kind what) := by
  apply Safe.weaken
  · apply (currentIs_asks .braceOpen).safe.branch (bracedBody_safe any)
    exact errorWith_safe .unexpectedToken _
  · decide

/-- What comes behind the name of a class. -/
theorem classTail_safe : Safe ⟨9, some 6, some 46, 49⟩ (do
    optional .angleOpen typeParameters
    repeatWhile (heritageClauseTurn (atKeyword .kwExtends <||> atKeyword .kwImplements))
    requiredBody .classBody "class body") := by
  have clause := (atKeyword_asks .kwExtends).or (atKeyword_asks .kwImplements)
  apply Safe.weaken
  · apply (optional_safe typeParameters_safe).bind
    intro _
    apply (repeatWhile_safe (heritageClauseTurn_turns clause fun ws _ found => ?_)).bind
    · exact fun _ => requiredBody_safe (by decide) "class body"
    · rcases Bool.or_eq_true_iff.1 found with h | h <;> exact kindIn_of_spells h
  · decide

/-- A class is wrapped around the word `class`. -/
theorem classDeclaration_wraps (anonymous : Bool) :
    Wraps (Announces .kwClass) ⟨1, none, some 46, 49⟩ fun point => classDeclaration point anonymous := by
  apply nodeAt_wraps (by decide)
  intro c keyword
  apply Reads.weaken
  · apply (takeKeyword_reads keyword).bind
    intro _
    apply (className_safe anonymous).bind
    exact fun _ => classTail_safe
  · decide

/-- An interface is wrapped around the word `interface`. -/
theorem interfaceDeclaration_wraps :
    Wraps (Announces .kwInterface) ⟨1, none, some 45, 48⟩ interfaceDeclaration := by
  apply nodeAt_wraps (by decide)
  intro c keyword
  apply Reads.weaken
  · apply (takeKeyword_reads keyword).bind
    intro _
    apply nameRule_safe.bind
    intro _
    apply (optional_safe typeParameters_safe).bind
    intro _
    apply (repeatWhile_safe (heritageClauseTurn_turns (atKeyword_asks .kwExtends)
      fun _ _ found => kindIn_of_spells found)).bind
    exact fun _ => requiredBody_safe (by decide) "interface body"
  · decide

/-! ### Type aliases and enums -/

/-- A type alias is wrapped around the word `type`. -/
theorem typeAlias_wraps : Wraps (Announces .kwType) ⟨1, none, some 55, 55⟩ typeAlias := by
  apply nodeAt_wraps (by decide)
  intro c keyword
  apply Reads.weaken
  · apply (takeKeyword_reads keyword).later
    intro _
    apply (Later.ofSafe nameRule_safe).bind
    intro _
    apply (Later.ofSafe (optional_safe typeParameters_safe)).bind
    intro _
    apply Later.bind
    · exact fun d _ => whenever_safe (expect_safe .equals "`=`" d) fun e _ _ => typeExpr_safe .statementEnd e
    · exact fun _ => expectSemicolon_later
  · decide

/-- A computed name begins with a bracket that is there to be read. -/
theorem computedName_reads {kind : TokenKind} (current : kindIn c.rest 0 = some kind) :
    Reads ⟨2, none, some 10, 11⟩ computedName c := by
  apply Reads.weaken
  · apply (bump_reads current).bind
    intro _
    apply (balanced_safe .listItemEnd .expression).bind
    intro _
    exact (expect_safe .bracketClose "`]`").bind fun _ => .pure ()
  · decide

/-- A member name is safe at any word that begins one. -/
theorem enumMemberName_safe {kind : TokenKind} (current : kindIn c.rest 0 = some kind) :
    Walks ⟨4, some 3, some 20, 20⟩ enumMemberName c fun _ _ => True := by
  apply Walks.weaken
  · apply (current_walks c).bind
    rintro _ d - ⟨rfl, looked, behindGap⟩
    rw [current]
    have here : kindIn d.rest 0 = some kind := looked.rest ▸ current
    show Walks ⟨3, some 2, some 20, 20⟩ _ _ _
    cases kind with
    | ident => exact (nameRule_safe d).weaken (by decide)
    | stringLiteral | number => exact (name_walks behindGap here).back.weaken (by decide)
    | _ => exact (computedName_reads here).back.weaken (by decide)
  · decide

/-- An enum member is safe where its name is. -/
theorem enumMember_safe {kind : TokenKind} (current : kindIn c.rest 0 = some kind) :
    Walks ⟨7, some 4, some 21, 24⟩ enumMember c fun _ _ => True := by
  apply Walks.weaken
  · apply node_back (by decide)
    intro d alike
    apply (enumMemberName_safe (alike.rest ▸ current)).bind
    exact fun _ e _ _ => optional_safe (initializer_safe .listItemEnd) e
  · decide

/-- One turn of the member list. -/
theorem enumTurn_turns (n : Nat) : Turns n ⟨9, some 7, some 22, 24⟩ enumTurn := by
  apply Turns.weaken
  · apply itemTurn_turns (currentIn_asks .enumMemberName)
    intro c starts
    obtain ⟨kind, current, -⟩ := (Option.any_eq_true _ _).1 starts
    exact enumMember_safe current
  · decide

/-- The members between their braces, or a complaint. -/
theorem enumBody_safe : Safe ⟨5, some 2, some 31, 32⟩ enumBody := by
  intro c
  apply Walks.weaken
  · apply ((currentIs_asks .braceOpen).walks c).branch
    · intro d _ asked
      exact (delimitedNode_reads (by decide) (asked.2.rest ▸ eq_of_beq asked.1.symm) rfl (enumTurn_turns _)).back
    · exact fun d _ _ => errorWith_safe .unexpectedToken _ d
  · decide

/-- `enum` itself, or `const` and `enum` behind it. -/
def AnnouncesEnum (ws : List Word) : Prop :=
  Announces .kwEnum ws ∨ Announces .kwConst ws ∧ spells ws 1 Keyword.kwEnum.word = true

/-- An enum is wrapped around its one or two keywords. -/
theorem enumDeclaration_wraps : Wraps AnnouncesEnum ⟨2, none, some 31, 32⟩ enumDeclaration := by
  apply nodeAt_wraps (by decide)
  intro c entry
  apply Reads.weaken
  · apply (eatKeyword_walks .kwConst c).bind
    intro b d toD eaten
    have keyword : Announces .kwEnum d.rest := by
      obtain ⟨rfl, unread⟩ := eaten
      rcases entry with itself | ⟨modified, behind⟩
      · have other : spells c.rest 0 Keyword.kwConst.word = false :=
          eq_false_of_ne_true fun h => absurd (eq_of_spells itself h) (by decide)
        rw [other] at unread
        exact unread.rest ▸ itself
      · rw [modified] at unread
        rw [Announces, unread.rest, spells_tail]
        exact behind
    have rest := (takeKeyword_reads keyword).bind fun _ => nameRule_safe.bind fun _ => enumBody_safe
    exact rest.imp fun _ _ _ read => Nat.lt_of_le_of_lt toD.frame.passed_le read
  · decide

end ImplicitGlobals.Grammar
