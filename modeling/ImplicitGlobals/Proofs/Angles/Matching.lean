import ImplicitGlobals.Proofs.Syntax.Nesting

/-!
# Angles outside of brackets

A type is read with a stack on which angles lie among the other brackets. A closing bracket drops
the angles on top, which were comparisons then. So what is left below all brackets of the stack
are the angles outside of all brackets that are still open, and only those can be missed.
-/

namespace ImplicitGlobals

/-- The kinds outside of all round, square and curly brackets, read with the brackets of the stack
open. -/
def outer : List TokenKind → List TokenKind → List TokenKind
  | _, [] => []
  | stack, kind :: rest =>
    match nestStep false stack kind with
    | none => []
    | some next => if stack = [] ∧ next = [] then kind :: outer next rest else outer next rest

/-- Outside of all other brackets every `<` is closed by a `>`, and every `>` closes a `<`. -/
def AnglesMatch (kinds : List TokenKind) : Prop := WellNested true (outer [] kinds)

instance (kinds : List TokenKind) : Decidable (AnglesMatch kinds) :=
  inferInstanceAs (Decidable (WellNested _ _))

/-- The brackets of a stack, without the angles. -/
def brackets (stack : List TokenKind) : List TokenKind := stack.filter (· != .angleOpen)

/-- The angles below all brackets of a stack. -/
def ground : List TokenKind → List TokenKind
  | [] => []
  | kind :: below => if brackets (kind :: below) = [] then kind :: below else ground below

/-- The angles dropped that lie on top of a stack. -/
def dropped (stack : List TokenKind) : List TokenKind := stack.dropWhile (· == .angleOpen)

variable {stack below kinds next : List TokenKind} {kind : TokenKind}

/-- One kind more at the end is outside or not by what is open before it. -/
theorem outer_concat (stack kinds : List TokenKind) (kind : TokenKind)
    (read : nest false stack kinds = some next) :
    outer stack (kinds ++ [kind]) = outer stack kinds ++ outer next [kind] := by
  induction kinds generalizing stack with
  | nil =>
    obtain rfl := Option.some.inj read
    rfl
  | cons k rest ih =>
    rw [nest_cons] at read
    obtain ⟨between, step, read⟩ := Option.bind_eq_some_iff.1 read
    rw [List.cons_append, outer, outer, step]
    dsimp only
    rw [ih between read]
    split <;> rfl

/-! ### Stacks -/

/-- With no bracket open all that is open is angles. -/
theorem ground_of_free (free : brackets stack = []) : ground stack = stack := by
  cases stack with
  | nil => rfl
  | cons k rest => rw [ground, if_pos free]

theorem ground_cons (held : brackets (kind :: below) ≠ []) : ground (kind :: below) = ground below := by
  rw [ground, if_neg held]

theorem brackets_angle (below : List TokenKind) : brackets (.angleOpen :: below) = brackets below := rfl

theorem ground_angle (held : brackets below ≠ []) : ground (.angleOpen :: below) = ground below :=
  ground_cons held

theorem brackets_cons (other : kind ≠ .angleOpen) (below : List TokenKind) :
    brackets (kind :: below) = kind :: brackets below :=
  List.filter_cons_of_pos (by simpa using other)

/-- A bracket that is closed was on top once the angles are dropped. -/
theorem dropped_cons (top : dropped stack = kind :: below) :
    kind ≠ .angleOpen ∧ brackets stack = kind :: brackets below ∧ ground stack = ground below := by
  induction stack with
  | nil => cases top
  | cons k rest ih =>
    by_cases angle : k = .angleOpen
    · subst angle
      obtain ⟨other, held, same⟩ := ih top
      refine ⟨other, held, ?_⟩
      rw [ground_cons (by rw [brackets_angle, held]; exact List.cons_ne_nil _ _), same]
    · have first : dropped (k :: rest) = k :: rest := List.dropWhile_cons_of_neg (by simpa using angle)
      obtain ⟨rfl, rfl⟩ := List.cons.inj (first.symm.trans top)
      have held := brackets_cons angle rest
      exact ⟨angle, held, ground_cons (held ▸ List.cons_ne_nil _ _)⟩

/-! ### What a run keeps -/

/-- The stack holds what the kinds leave open: all brackets, and below them the angles that are
outside of all brackets. -/
structure Tracks (stack kinds : List TokenKind) : Prop where
  nested : nest false [] kinds = some (brackets stack)
  angles : nest true [] (outer [] kinds) = some (ground stack)

namespace Tracks

/-- Nothing is tracked by nothing. -/
theorem nil : Tracks [] [] := ⟨rfl, rfl⟩

/-- A word inside of a bracket, or one that opens or closes one, is not outside. -/
theorem covered (tracks : Tracks stack kinds)
    (step : nestStep false (brackets stack) kind = some (brackets next))
    (inside : brackets stack ≠ [] ∨ brackets next ≠ []) (same : ground next = ground stack) :
    Tracks next (kinds ++ [kind]) where
  nested := by
    rw [nest_append_kinds, tracks.nested]
    simpa [nest] using step
  angles := by
    have none : outer (brackets stack) [kind] = [] := by
      rw [outer, step]
      dsimp only
      rw [if_neg fun both => inside.elim (· both.1) (· both.2), outer]
    rw [outer_concat _ _ _ tracks.nested, none, List.append_nil, same]
    exact tracks.angles

/-- A word outside of all brackets acts on the angles alone. -/
theorem outside (tracks : Tracks stack kinds) (free : brackets stack = []) (free' : brackets next = [])
    (step : nestStep false [] kind = some []) (angle : nestStep true stack kind = some next) :
    Tracks next (kinds ++ [kind]) where
  nested := by
    rw [nest_append_kinds, tracks.nested, free, free']
    simpa [nest] using step
  angles := by
    have one : outer (brackets stack) [kind] = [kind] := by
      rw [outer, free, step]
      dsimp only
      rw [if_pos ⟨rfl, rfl⟩, outer]
    rw [outer_concat _ _ _ tracks.nested, one, nest_append_kinds, tracks.angles, ground_of_free free,
      ground_of_free free']
    simpa [nest] using angle

/-- A word that is no bracket. -/
theorem plain (tracks : Tracks stack kinds) (opens : kind.opens true = false)
    (closes : kind.opener? true = none) : Tracks stack (kinds ++ [kind]) := by
  have opens' : kind.opens false = false := by cases kind <;> first | rfl | cases opens
  have closes' : kind.opener? false = none := by cases kind <;> first | rfl | cases closes
  by_cases free : brackets stack = []
  · exact tracks.outside free free (nestStep_of_plain _ opens' closes') (nestStep_of_plain _ opens closes)
  · exact tracks.covered (nestStep_of_plain _ opens' closes') (.inl free) rfl

/-- An opening bracket is tracked. -/
theorem openBracket (tracks : Tracks stack kinds) (opens : kind.opens false = true) :
    Tracks (kind :: stack) (kinds ++ [kind]) := by
  have other : kind ≠ .angleOpen := by rintro rfl; cases opens
  have held := brackets_cons other stack
  refine tracks.covered ?_ (.inr ?_) (ground_cons ?_)
  · rw [nestStep_of_opens _ opens, held]
  · rw [held]; exact List.cons_ne_nil _ _
  · rw [held]; exact List.cons_ne_nil _ _

/-- A closing bracket takes the angles that were opened since its bracket with it. -/
theorem closeBracket (tracks : Tracks stack kinds) {opener : TokenKind}
    (closes : kind.opener? false = some opener) (top : dropped stack = opener :: below) :
    Tracks below (kinds ++ [kind]) := by
  obtain ⟨-, held, same⟩ := dropped_cons top
  refine tracks.covered ?_ (.inl ?_) same.symm
  · have other : kind.opens false = false := by cases kind <;> first | rfl | cases closes
    rw [held]
    simp [nestStep, other, closes]
  · rw [held]
    exact List.cons_ne_nil _ _

/-- So is an angle. -/
theorem openAngle (tracks : Tracks stack kinds) : Tracks (.angleOpen :: stack) (kinds ++ [.angleOpen]) := by
  by_cases free : brackets stack = []
  · exact tracks.outside free free rfl rfl
  · exact tracks.covered rfl (.inl free) (ground_angle free)

/-- A closing angle takes its opening one off. -/
theorem closeAngle (tracks : Tracks (.angleOpen :: below) kinds) :
    Tracks below (kinds ++ [.angleClose]) := by
  by_cases free : brackets below = []
  · exact tracks.outside free free rfl rfl
  · exact tracks.covered rfl (.inl free) (ground_angle free).symm

/-- A `>` that closes nothing stands in a bracket. -/
theorem strayAngle (tracks : Tracks stack kinds) (some : stack ≠ [])
    (other : stack.head? ≠ Option.some .angleOpen) : Tracks stack (kinds ++ [.angleClose]) := by
  refine tracks.covered rfl (.inl fun none => ?_) rfl
  cases stack with
  | nil => exact some rfl
  | cons k below =>
    rw [brackets_cons fun angle => other (congrArg _ angle)] at none
    cases none

/-- With nothing left open, all brackets are closed and the angles outside of them as well. -/
theorem closed (tracks : Tracks [] kinds) : WellNested false kinds ∧ AnglesMatch kinds :=
  ⟨tracks.nested, tracks.angles⟩

end Tracks

end ImplicitGlobals
