import ImplicitGlobals.Grammar.Binding
import ImplicitGlobals.Proofs.Grammar.Balanced

/-!
# Bindings and parameters come back

Patterns nest by way of a bound on how deep they may: every pattern reads its
opener first, so the words that are left are fewer inside.
-/

namespace ImplicitGlobals.Grammar

variable {c d : Cursor}

/-- At most two words are read, behind three looks. -/
theorem propertyKey_safe (openKind : TokenKind) :
    Safe ⟨4, some 2, some 0, 4⟩ (propertyKey openKind) := by
  intro c
  apply Walks.weaken
  · apply Walks.ite
    · exact fun _ => .pure trivial
    intro _
    apply current_asks.walksOn
    intro d looked
    have test := (Asks.pure (kindIn c.rest 0 == some .ident || kindIn c.rest 0 == some .stringLiteral ||
      kindIn c.rest 0 == some .number)).and (nextIs_asks .colon)
    apply (test.walks d).branch
    · intro e _ asked
      have same : e.rest = c.rest := asked.2.rest.trans looked.rest
      obtain ⟨key, colon⟩ := Bool.and_eq_true_iff.1 asked.1.symm
      obtain ⟨k, here⟩ : ∃ k, kindIn e.rest 0 = some k := by
        rw [same]
        simp only [Bool.or_eq_true, beq_iff_eq] at key
        rcases key with (h | h) | h <;> exact ⟨_, h⟩
      have next : kindIn e.rest 1 = some .colon := by
        rw [same, ← looked.rest]
        exact eq_of_beq colon
      apply (bump_walks here).bind
      intro _ f _ read
      exact (bump_reads (k := .colon) (by rw [read.rest, kindIn_tail]; exact next)).back
    · exact fun _ _ _ => .pure trivial
  · decide

/-- A rule that comes back when there are fewer than `n` words left. -/
def SafeWithin (n : Nat) (k : Cost) (r : Rule Unit) : Prop :=
  ∀ c, c.rest.length < n → Walks k r c fun _ _ => True

/-- With fewer words left than the fuel the nested rule is safe. -/
theorem SafeWithin.after {n : Nat} {k : Cost} {r : Rule Unit} (h : SafeWithin n k r) (walk : Walk c d)
    (few : c.rest.length < n) : Walks k r d fun _ _ => True :=
  h d (Nat.lt_of_le_of_lt walk.frame.length_rest_le few)

/-- The cost of a binding, however deep. -/
def Cost.binding : Cost := ⟨6, some 3, some 0, 24⟩

/-- A round looks for its end, for a comma and for dots, and reads an element. -/
theorem patternTurn_turns {n : Nat} {inner : Rule Unit} (openKind closeKind : TokenKind)
    (h : SafeWithin n .binding inner) :
    Turns n ⟨13, some 11, some 10, 24⟩ (patternTurn inner openKind closeKind) := by
  intro c few
  apply Walks.weaken
  · have ends := atEnd_asks.or (currentIs_asks closeKind)
    apply (ends.walks c).branch
    · exact fun _ _ _ => .pure nofun
    intro d toD asked
    have left : c.rest ≠ [] := by
      intro none
      simp [none] at asked
    apply (eat_walks .comma d).branch
    · exact fun e _ eaten => .pure fun _ => Nat.lt_of_le_of_lt toD.frame.passed_le (eaten.2.lt rfl)
    intro e toE _
    apply (eat_safe .dotDotDot e).bind
    intro _ f toF _
    apply (propertyKey_safe openKind f).bind
    intro _ g toG _
    have walk : Walk c g := toD.trans (toE.trans (toF.trans toG))
    apply (currentIn_asks .bindingStart).walksOn
    intro i looked
    apply Walks.ite
    · intro _
      apply (errorAndBump_further .expectedName _ (walk.trans looked.walk) left).bind
      exact fun _ _ _ read => .pure fun _ => read
    intro _
    apply (h.after (walk.trans looked.walk) few).bind
    intro _ j toJ _
    apply (optional_safe (initializer_safe .listItemEnd) j).bind
    intro _ l toL _
    exact eat_further .comma ((walk.trans looked.walk).trans (toJ.trans toL))
  · decide

/-- The opener is a word, so what is inside has fewer left. -/
theorem patternNode_reads {inner : Rule Unit} {m : Delimiters}
    (current : kindIn c.rest 0 = some m.opener) (isUnclosed : m.unclosed.isUnclosed)
    (h : SafeWithin c.rest.length .binding inner) :
    Reads ⟨4, none, some 23, 24⟩ (patternNode inner m) c :=
  (delimitedNode_reads (by decide) current isUnclosed (patternTurn_turns m.opener m.closer h)).weaken (by decide)

theorem bindingPattern_safe {inner : Rule Unit} (h : SafeWithin c.rest.length .binding inner)
    (current : kindIn c.rest 0 = some .braceOpen ∨ kindIn c.rest 0 = some .bracketOpen) :
    Walks ⟨5, some 0, some 0, 24⟩ (bindingPattern inner) c fun _ _ => True := by
  apply Walks.weaken
  · apply (descend_walks c).bind
    intro b d _ alike
    apply Walks.ite
    · exact fun _ => .pure trivial
    intro go
    replace alike : Alike c d := alike (by simpa using go)
    apply (currentIs_asks .braceOpen).walksOn
    intro e looked
    generalize chosen : (if (kindIn d.rest 0 == some .braceOpen) = true then bracePattern
      else bracketPattern) = m
    have same : e.rest = c.rest := looked.rest.trans alike.rest
    have marks : kindIn c.rest 0 = some m.opener ∧ m.unclosed.isUnclosed = true := by
      rw [alike.rest] at chosen
      rcases current with k | k <;> rw [k] at chosen ⊢ <;> subst chosen <;> exact ⟨rfl, rfl⟩
    apply (patternNode_reads (same ▸ marks.1) marks.2 (same ▸ h)).back.bind
    exact fun _ f _ _ => (ascend_walks f).back
  · decide

/-- By induction on the fuel: a pattern has its opener less to go. -/
theorem bindingWithin_safe (n : Nat) : SafeWithin n .binding (bindingWithin n) := by
  induction n with
  | zero => exact fun c few => absurd few (Nat.not_lt_zero _)
  | succ n ih =>
    intro c few
    apply Walks.weaken
    · apply current_asks.walksOn
      intro d looked
      apply Walks.ite
      · intro opens
        rw [← looked.rest] at opens
        have less : SafeWithin d.rest.length .binding (bindingWithin n) := fun e h =>
          ih e (Nat.lt_of_lt_of_le h (looked.rest ▸ Nat.le_of_lt_succ few))
        exact bindingPattern_safe less (by simpa using opens)
      · exact fun _ => nameRule_safe d
    · decide

theorem binding_safe : Safe .binding binding := fun c =>
  .ofSound fun sound => .get (bindingWithin_safe (c.total + 1) c (Nat.lt_succ_of_le sound.rounds))

/-! ### Parameters -/

/-- Dots, a binding, a mark, a type and a default, of which the binding may complain. -/
theorem parameter_safe : Safe ⟨10, some 7, some 10, 24⟩ parameter := by
  apply Safe.weaken
  · apply node_safe (by decide)
    apply (eat_safe .dotDotDot).bind
    intro _
    apply binding_safe.bind
    intro _
    apply (eat_safe .question).bind
    intro _
    apply (optional_safe (typeAscription_safe .paramTypeEnd)).bind
    intro _
    exact optional_safe (initializer_safe .listItemEnd)
  · decide

/-- A round over the parameters makes progress, or ends. -/
theorem parameterTurn_turns (n : Nat) : Turns n ⟨13, some 11, some 11, 24⟩ parameterTurn :=
  (itemTurn_turns ((currentIn_asks .bindingStart).or (currentIs_asks .dotDotDot))
    fun c _ => parameter_safe c).weaken (by decide)

theorem parameters_safe : SafeAt .parenOpen ⟨5, none, some 24, 25⟩ parameters := by
  intro c current
  apply Walks.weaken
  · apply (assertAt_walks current).bind
    intro _ d _ looked
    exact (delimitedNode_reads (by decide) (looked.rest ▸ current) rfl (parameterTurn_turns _)).back
  · decide

/-! ### Type parameters -/

theorem typeParameterModifier_turns (n : Nat) : Turns n ⟨6, some 4, some 0, 6⟩ typeParameterModifier := by
  intro c _
  apply Walks.weaken
  · have words := (atWord_asks "in").or ((atWord_asks "out").or (atWord_asks "const"))
    apply ((words.and (nextIs_asks .ident)).walks c).branch
    · intro d toD asked
      have modifier := (Bool.and_eq_true_iff.1 asked.1.symm).1
      have here : kindIn d.rest 0 = some .ident := by
        rw [asked.2.rest]
        simp only [Bool.or_eq_true] at modifier
        rcases modifier with h | h | h <;> exact kindIn_of_spells h
      exact (bump_reads here).goesOn toD
    · exact fun _ _ _ => .pure nofun
  · decide

/-- The keyword stands there, so a word is read. -/
theorem constraint_safe (current : spells c.rest 0 Keyword.kwExtends.word = true) :
    Walks ⟨1, none, some 9, 9⟩ constraint c fun _ _ => True :=
  ((takeKeyword_reads current).bind fun _ => typeExpr_safe _).back.weaken (by decide)

/-- Modifiers, a name, a constraint and a default. -/
theorem typeParameter_safe : Safe ⟨17, some 17, some 19, 19⟩ typeParameter := by
  apply Safe.weaken
  · apply node_safe (by decide)
    apply (repeatWhile_safe typeParameterModifier_turns).bind
    intro _
    apply nameRule_safe.bind
    intro _
    apply Safe.bind
    · intro c
      apply whenever_safe ((atKeyword_asks .kwExtends).walks c)
      exact fun d _ asked => constraint_safe (asked.2.rest ▸ asked.1.symm)
    intro _ c
    apply whenever_safe (eat_walks .equals c)
    exact fun d _ _ => typeExpr_safe .listItemEnd d
  · decide

theorem typeParameterTurn_turns (n : Nat) : Turns n ⟨21, some 19, some 20, 22⟩ typeParameterTurn := by
  intro c _
  apply Walks.weaken
  · apply ((atEnd_asks.or (currentIs_asks .angleClose)).walks c).branch
    · exact fun _ _ _ => .pure nofun
    intro d toD _
    apply (typeParameter_safe d).bind
    exact fun _ e toE _ => eat_further .comma (toD.trans toE)
  · decide

theorem typeParameters_safe : SafeAt .angleOpen ⟨5, none, some 41, 42⟩ typeParameters := by
  intro c current
  apply Walks.weaken
  · apply (assertAt_walks current).bind
    intro _ d _ looked
    exact (delimitedNode_reads (by decide) (looked.rest ▸ current) rfl (typeParameterTurn_turns _)).back
  · decide

end ImplicitGlobals.Grammar
