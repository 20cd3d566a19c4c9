import ImplicitGlobals.Syntax.Word

/-!
# Nesting of brackets

Reading kinds from left to right with the brackets that are open, innermost first. An opener
opens one, a closer closes the innermost one, which it has to match. Round, square and curly
brackets always count, angles only where they are asked for.
-/

namespace ImplicitGlobals

/-- The opener that a closer matches. -/
def TokenKind.opener? (angles : Bool) : TokenKind → Option TokenKind
  | .parenClose => some .parenOpen
  | .bracketClose => some .bracketOpen
  | .braceClose => some .braceOpen
  | .angleClose => if angles then some .angleOpen else none
  | _ => none

def TokenKind.opens (angles : Bool) : TokenKind → Bool
  | .parenOpen | .bracketOpen | .braceOpen => true
  | .angleOpen => angles
  | _ => false

/-- The open brackets behind a word of the kind; none where it closes what is not open. -/
def nestStep (angles : Bool) (stack : List TokenKind) (kind : TokenKind) :
    Option (List TokenKind) :=
  if kind.opens angles then some (kind :: stack)
  else
    match kind.opener? angles, stack with
    | none, _ => some stack
    | some _, [] => none
    | some o, top :: below => if top = o then some below else none

/-- The open brackets behind words of the kinds. -/
def nest (angles : Bool) (stack : List TokenKind) (kinds : List TokenKind) :
    Option (List TokenKind) :=
  kinds.foldlM (nestStep angles) stack

/-- Every bracket is closed by what matches it, and nothing else is closed. -/
def WellNested (angles : Bool) (kinds : List TokenKind) : Prop := nest angles [] kinds = some []

instance (angles : Bool) (kinds : List TokenKind) : Decidable (WellNested angles kinds) :=
  inferInstanceAs (Decidable (_ = _))

variable {angles : Bool} {stack stack' : List TokenKind} {kind : TokenKind} {kinds : List TokenKind}

/-- What is open further out does not matter. -/
theorem nestStep_append (h : nestStep angles stack kind = some stack') (outer : List TokenKind) :
    nestStep angles (stack ++ outer) kind = some (stack' ++ outer) := by
  unfold nestStep at h ⊢
  split
  · next opens =>
    rw [if_pos opens] at h
    rw [← Option.some.inj h, List.cons_append]
  · next opens =>
    rw [if_neg opens] at h
    cases closes : kind.opener? angles with
    | none =>
      rw [closes] at h
      simpa using h
    | some o =>
      cases stack with
      | nil => simp [closes] at h
      | cons top below =>
        simp only [closes, List.cons_append] at h ⊢
        split at h
        · next same => rw [if_pos same, Option.some.inj h]
        · cases h

theorem nest_cons (angles : Bool) (stack : List TokenKind) (kind : TokenKind)
    (kinds : List TokenKind) :
    nest angles stack (kind :: kinds) = (nestStep angles stack kind).bind
        (nest angles · kinds) := rfl

theorem nest_append_kinds (angles : Bool) (stack : List TokenKind) (first more : List TokenKind) :
    nest angles stack (first ++ more) = (nest angles stack first).bind (nest angles · more) :=
  List.foldlM_append ..

theorem nest_append (h : nest angles stack kinds = some stack') (outer : List TokenKind) :
    nest angles (stack ++ outer) kinds = some (stack' ++ outer) := by
  induction kinds generalizing stack with
  | nil => rw [← Option.some.inj h]; rfl
  | cons kind rest ih =>
    rw [nest_cons] at h ⊢
    obtain ⟨between, step, rest⟩ := Option.bind_eq_some_iff.1 h
    rw [nestStep_append step outer]
    exact ih rest

/-- Reading on from where other brackets were left open. -/
theorem nest_trans {first more : List TokenKind} (h : nest angles [] first = some stack)
    (next : nest angles [] more = some stack') :
    nest angles [] (first ++ more) = some (stack' ++ stack) := by
  rw [nest_append_kinds, h]
  exact nest_append next stack

/-- A kind that is no bracket leaves all brackets as they are. -/
theorem nestStep_of_plain (stack : List TokenKind) (opens : kind.opens angles = false)
    (closes : kind.opener? angles = none) : nestStep angles stack kind = some stack := by
  simp [nestStep, opens, closes]

theorem nestStep_of_opens (stack : List TokenKind) (opens : kind.opens angles = true) :
    nestStep angles stack kind = some (kind :: stack) := by
  simp [nestStep, opens]

/-- A closer closes what it matches. -/
theorem eq_cons_of_nestStep {o : TokenKind} (closes : kind.opener? angles = some o)
    (h : nestStep angles stack kind = some stack') : stack = o :: stack' := by
  have other : kind.opens angles = false := by
    cases kind <;> cases angles <;> first | rfl | cases closes
  cases stack with
  | nil => simp [nestStep, other, closes] at h
  | cons top below =>
    simp only [nestStep, other, closes] at h
    split at h
    · next opens => cases opens
    · split at h
      · next same => rw [same, Option.some.inj h]
      · cases h

/-- Trivia is not seen by the brackets. -/
theorem nest_filter_isTrivia (angles : Bool) (stack : List TokenKind) (kinds : List TokenKind) :
    nest angles stack (kinds.filter (!·.isTrivia)) = nest angles stack kinds := by
  induction kinds generalizing stack with
  | nil => rfl
  | cons kind rest ih =>
    by_cases trivia : kind.isTrivia = true
    · have same : nestStep angles stack kind = some stack := by
        cases kind <;> first | rfl | cases trivia
      rw [List.filter_cons_of_neg (by simp [trivia]), ih, nest_cons, same]
      rfl
    · rw [List.filter_cons_of_pos (by simp [trivia]), nest_cons, nest_cons]
      cases nestStep angles stack kind with
      | none => rfl
      | some between => exact ih between

/-- A closer closes what is open, so it ends words in which the brackets are well nested. -/
theorem WellNested.eq_of_closed {α : Type} {f : α → TokenKind} {us vs as bs : List α} {x y : α}
    (h : WellNested angles (us.map f)) (g : WellNested angles (vs.map f)) (closes : f x = .braceClose)
    (closes' : f y = .braceClose) (same : us ++ x :: as = vs ++ y :: bs) : us = vs ∧ x = y ∧ as = bs := by
  have longer {us vs more : List α} {x : α} (h : WellNested angles (us.map f)) (closes : f x = .braceClose) :
      vs = us ++ x :: more → ¬WellNested angles (vs.map f) := by
    rintro rfl whole
    rw [WellNested, List.map_append, nest_append_kinds, h, List.map_cons, closes] at whole
    cases whole
  obtain ⟨more, split, left⟩ | ⟨more, split, left⟩ := List.append_eq_append_iff.1 same
  · cases more with
    | nil => exact ⟨by simpa using split.symm, (List.cons.inj left).1, (List.cons.inj left).2⟩
    | cons z more => exact absurd g (longer h closes ((List.cons.inj left).1 ▸ split))
  · cases more with
    | nil => exact ⟨by simpa using split, (List.cons.inj left).1.symm, (List.cons.inj left).2.symm⟩
    | cons z more => exact absurd h (longer g closes' ((List.cons.inj left).1 ▸ split))

end ImplicitGlobals
