import ImplicitGlobals.Proofs.Grammar.Order
import ImplicitGlobals.Proofs.Syntax.Tiling
import Mathlib.Data.List.Basic

/-!
# Explaining goes up

By its weight alone a diagnostic may be both above and below another one: a missing part
explains an opener that it stands at, though unclosed delimiters weigh more. Parts
missing outside of all delimiters cut the complaints of a source into eras, though. No
complaint is explained by one of a later era, and within an era the missing part, with
which it began, comes first and the others by weight.
-/

namespace ImplicitGlobals

/-- What is missing is no delimiter that is left open. -/
theorem DiagnosticKind.isUnclosed_of_isMissing {kind : DiagnosticKind} (h : kind.isMissing) :
    kind.isUnclosed = false := by
  cases kind <;> first | rfl | cases h

namespace Complaint

variable {l : Layout} {ks : List Complaint} {d e k : Complaint}

/-! ### The diagnostic of a complaint, by words -/

/-- The word at which the diagnostic starts. -/
def first : Complaint → Nat
  | unclosed _ _ opener _ => opener
  | k => k.place

/-- The word at which the suppression starts. -/
def root (k : Complaint) : Nat := k.opener?.getD k.place

/-- Locating a complaint keeps its kind. -/
@[simp] theorem kind_locate (l : Layout) (k : Complaint) : (k.locate l).kind = k.kind := by
  cases k with
  | here _ detail => cases detail <;> rfl
  | noSemicolon | unclosed => rfl

/-- It begins where its first word does. -/
theorem start_locate (l : Layout) (k : Complaint) :
    (k.locate l).span.start = (l.span k.first).start := by
  cases k with
  | here _ detail => cases detail <;> rfl
  | noSemicolon | unclosed => rfl

/-- It ends where its place does. -/
theorem stop_locate (l : Layout) (k : Complaint) :
    (k.locate l).span.stop = (l.span k.place).stop := by
  cases k with
  | here _ detail => cases detail <;> rfl
  | noSemicolon | unclosed => rfl

/-- Its suppression begins at its root. -/
theorem suppression_start (l : Layout) (k : Complaint) :
    (k.locate l).suppression.start = (l.span k.root).start := by
  cases k with
  | here _ detail _ enclosing => cases detail <;> cases enclosing <;> rfl
  | noSemicolon _ enclosing => cases enclosing <;> rfl
  | unclosed => rfl

/-- A complaint within a delimiter suppresses up to the end of the source. -/
theorem suppression_stop {o : Nat} (within : k.opener? = some o) (other : k.isOfOpener = false) :
    (k.locate l).suppression.stop = l.size := by
  cases k with
  | here _ detail _ enclosing => cases within; cases detail <;> rfl
  | noSemicolon _ enclosing => cases within; rfl
  | unclosed => cases other

/-- Any other complaint begins at its place. -/
theorem first_of_not (h : k.isOfOpener = false) : k.first = k.place := by
  cases k with
  | here | noSemicolon => rfl
  | unclosed => cases h

theorem root_of_isOfOpener (h : k.isOfOpener) : k.root = k.first := by
  cases k with
  | here | noSemicolon => cases h
  | unclosed => rfl

namespace WellMade

theorem first_le (h : k.WellMade) : k.first ≤ k.place := by
  cases k with
  | here | noSemicolon => exact Nat.le_refl _
  | unclosed _ _ opener _ => exact Nat.le_of_lt (h.opener opener rfl)

/-- The root is not behind the first word. -/
theorem root_le_first (h : k.WellMade) : k.root ≤ k.first := by
  cases of : k.isOfOpener with
  | true => exact Nat.le_of_eq (root_of_isOfOpener of)
  | false =>
    rw [first_of_not of, root]
    cases within : k.opener? with
    | none => exact Nat.le_refl _
    | some o => exact Nat.le_of_lt (h.opener o within)

theorem not_isOfOpener (h : k.WellMade) (missing : k.kind.isMissing) : k.isOfOpener = false := by
  cases of : k.isOfOpener with
  | false => rfl
  | true => simpa [h.unclosed of] using DiagnosticKind.isUnclosed_of_isMissing missing

end WellMade

end Complaint

namespace Diagnostic

/-- Who explains, encloses by its suppression or starts at the same place; it weighs more, or
it is a missing part at an unclosed delimiter. -/
theorem explains_cases {d e : Diagnostic} (h : d.explains e) :
    (d.encloses e ∧ d.kind.rank < e.kind.rank) ∨
    (d.span.start = e.span.start ∧ d.kind.rank < e.kind.rank ∧
      ¬(d.kind.isUnclosed ∧ e.kind.isMissing)) ∨
    (d.encloses e = false ∧ d.span.start = e.span.start ∧ d.kind.isMissing ∧ e.kind.isUnclosed) := by
  unfold explains at h
  split at h
  next enclosing => exact .inl ⟨enclosing, by simpa [DiagnosticKind.outranks] using h⟩
  next apart =>
    split at h
    next => cases h
    next same =>
      have same : d.span.start = e.span.start := by simpa using same
      split at h
      next missing => exact .inr (.inr ⟨by simpa using apart, same, by simpa using missing⟩)
      next =>
        split at h
        next => cases h
        next free =>
          exact .inr (.inl ⟨same, by simpa [DiagnosticKind.outranks] using h, by simpa using free⟩)

end Diagnostic

namespace Complaint

variable {l : Layout} {ks : List Complaint} {d e k : Complaint}

/-! ### Eras -/

/-- The number of parts that are missing outside of all delimiters, up to the complaint. -/
def era (ks : List Complaint) (k : Complaint) : Nat :=
  ks.countP fun a => a.isAnchor && a.place ≤ k.place

/-- The place of a complaint within its era. -/
def weight (k : Complaint) : Nat := if k.isAnchor then 0 else k.kind.rank + 1

/-- Eras first, weights second. -/
def height (ks : List Complaint) (k : Complaint) : Nat :=
  (DiagnosticKind.all.length + 1) * era ks k + k.weight

/-- There are only so many kinds. -/
theorem weight_le (k : Complaint) : k.weight ≤ DiagnosticKind.all.length := by
  have bound : k.kind.rank < DiagnosticKind.all.length := by cases k.kind <;> decide
  unfold weight
  split <;> omega

/-- A later era stands higher. -/
theorem height_lt_of_era (h : era ks d < era ks e) : height ks d < height ks e := by
  have := d.weight_le
  have step := Nat.mul_le_mul_left (DiagnosticKind.all.length + 1) h
  rw [Nat.mul_succ] at step
  unfold height
  omega

/-- In one era the heavier kind stands higher. -/
theorem height_lt_of_weight (h : era ks d ≤ era ks e) (lt : d.weight < e.weight) :
    height ks d < height ks e := by
  have step := Nat.mul_le_mul_left (DiagnosticKind.all.length + 1) h
  unfold height
  omega

/-- Eras grow with the anchors behind them. -/
theorem era_le (h : ∀ a ∈ ks, a.isAnchor → a.place ≤ d.place → a.place ≤ e.place) :
    era ks d ≤ era ks e := by
  refine List.countP_mono_left fun a mem counted => ?_
  simp only [Bool.and_eq_true, decide_eq_true_eq] at counted ⊢
  exact ⟨counted.1, h a mem counted.1 counted.2⟩

theorem era_le_of_le (h : d.place ≤ e.place) : era ks d ≤ era ks e :=
  era_le fun _ _ _ before => Nat.le_trans before h

/-- A part missing outside of all delimiters begins an era. -/
theorem era_lt (mem : e ∈ ks) (anchor : e.isAnchor) (lt : d.place < e.place) :
    era ks d < era ks e := by
  have le : era ks d ≤ era ks e := era_le_of_le (Nat.le_of_lt lt)
  refine Nat.lt_of_le_of_ne le fun eq => ?_
  simp only [era, List.countP_eq_length_filter] at eq
  have sub : (ks.filter fun a => a.isAnchor && a.place ≤ d.place).Sublist
      (ks.filter fun a => a.isAnchor && a.place ≤ e.place) := by
    refine List.monotone_filter_right ks fun a counted => ?_
    simp only [Bool.and_eq_true, decide_eq_true_eq] at counted ⊢
    exact ⟨counted.1, by omega⟩
  have counted : e ∈ ks.filter fun a => a.isAnchor && a.place ≤ d.place := by
    rw [sub.eq_of_length eq]
    simp [mem, anchor]
  have := (List.mem_filter.1 counted).2
  simp at this
  omega

/-! ### What explains is lower -/

/-- Complaints as a walk over the words of the layout makes them, latest first. -/
structure Ordered (l : Layout) (ks : List Complaint) : Prop where
  layout : l.Ordered
  made : ∀ k ∈ ks, k.WellMade
  order : ks.Pairwise Follows
  bound : ∀ k ∈ ks, k.place ≤ l.words.size

namespace Ordered

/-- Of two complaints one comes after the other. -/
theorem eq_or_follows (h : Ordered l ks) (md : d ∈ ks) (me : e ∈ ks) :
    d = e ∨ d.Follows e ∨ e.Follows d := by
  have all := h.order
  obtain ⟨newer, older, rfl⟩ := List.append_of_mem md
  obtain ⟨-, rest, across⟩ := List.pairwise_append.1 all
  rcases List.mem_append.1 me with me | me
  · exact .inr (.inr (across e me d List.mem_cons_self))
  rcases List.mem_cons.1 me with rfl | me
  · exact .inl rfl
  · exact .inr (.inl ((List.pairwise_cons.1 rest).1 e me))

/-- Of two complaints the later one follows. -/
theorem follows (h : Ordered l ks) (md : d ∈ ks) (me : e ∈ ks) (lt : d.place < e.place) :
    e.Follows d := by
  rcases h.eq_or_follows md me with rfl | back | forth
  · exact absurd lt (Nat.lt_irrefl _)
  · exact absurd back.behind (Nat.not_lt.2 (Nat.le_of_lt lt))
  · exact forth

/-- No word is complained of twice. -/
theorem eq_of_place (h : Ordered l ks) (md : d ∈ ks) (me : e ∈ ks) (same : d.place = e.place) :
    d = e := by
  rcases h.eq_or_follows md me with eq | back | forth
  · exact eq
  · exact absurd back.behind (by omega)
  · exact absurd forth.behind (by omega)

theorem lt_of_start_lt (h : Ordered l ks) {i j : Nat} (bound : i ≤ l.words.size)
    (lt : (l.span i).start < (l.span j).start) : i < j := by
  refine Nat.lt_of_not_le fun le => ?_
  have := h.layout.start_le_start le bound
  omega

theorem eq_of_start_eq (h : Ordered l ks) {i j : Nat} (hi : i ≤ l.words.size)
    (hj : j ≤ l.words.size) (eq : (l.span i).start = (l.span j).start) : i = j := by
  rcases Nat.lt_trichotomy i j with lt | same | lt
  · exact absurd (h.layout.starts lt hj) (by omega)
  · exact same
  · exact absurd (h.layout.starts lt hi) (by omega)

/-- No era begins between what stands in a delimiter and a complaint since its opener. -/
theorem era_le_of_within (h : Ordered l ks) (md : d ∈ ks) {o : Nat} (within : d.opener? = some o)
    (since : o ≤ e.place) : era ks d ≤ era ks e := by
  have inner : d.isAnchor = false := by
    cases anchor : d.isAnchor with
    | false => rfl
    | true => simp [((isAnchor_iff d).1 anchor).2.1] at within
  refine era_le fun a ma anchor before => ?_
  have lt : a.place < d.place := by
    refine Nat.lt_of_le_of_ne before fun level => ?_
    cases h.eq_of_place ma md level
    simp [anchor] at inner
  have := (h.follows ma md lt).opener anchor o within
  omega

variable (h : Ordered l ks) (md : d ∈ ks) (me : e ∈ ks)

include h md me

/-- A missing part that explains an unclosed delimiter stands outside of all delimiters, at
the one that is unclosed. -/
theorem height_lt_of_missing (apart : (d.locate l).encloses (e.locate l) = false)
    (same : d.first = e.first) (missing : d.kind.isMissing) (unclosed : e.kind.isUnclosed) :
    height ks d < height ks e := by
  have own := (h.made d md).not_isOfOpener missing
  have here : d.first = d.place := first_of_not own
  have other : d ≠ e := by
    rintro rfl
    simp [DiagnosticKind.isUnclosed_of_isMissing missing] at unclosed
  have later : d.place < e.place := by
    have le := (h.made e me).first_le
    refine Nat.lt_of_le_of_ne (by omega) fun level => other (h.eq_of_place md me level)
  have outside : d.opener? = none := by
    cases within : d.opener? with
    | none => rfl
    | some o =>
      -- Within a delimiter its suppression reaches over the unclosed one.
      have before := (h.made d md).opener o within
      have root : d.root = o := by simp [root, within]
      have starts : (l.span o).start < (l.span d.place).start :=
        h.layout.starts before (h.bound d md)
      have stops := h.layout.stops e.place
      simp [Diagnostic.encloses, suppression_start, suppression_stop within own, start_locate,
        stop_locate, root, ← same, here] at apart
      omega
  have anchor : d.isAnchor := (isAnchor_iff d).2 ⟨missing, outside, own⟩
  have plain : e.isAnchor = false := by
    cases anchored : e.isAnchor with
    | false => rfl
    | true =>
      have other := DiagnosticKind.isUnclosed_of_isMissing ((isAnchor_iff e).1 anchored).1
      simp [other] at unclosed
  refine height_lt_of_weight (era_le_of_le (Nat.le_of_lt later)) ?_
  simp [weight, anchor, plain]

/-- What weighs more explains only forward or from within a delimiter that it is still in. -/
theorem height_lt_of_rank (rank : d.kind.rank < e.kind.rank) (root : d.root ≤ e.first)
    (anchored : e.isAnchor → d.root < e.first ∨ d.isOfOpener = false ∧ d.first = e.first) :
    height ks d < height ks e := by
  have firstD := (h.made d md).root_le_first
  have firstE := (h.made e me).first_le
  have weight_lt (plain : e.isAnchor = false) : d.weight < e.weight := by
    simp only [weight, plain, Bool.false_eq_true, if_false]
    split <;> omega
  rcases Nat.lt_trichotomy d.place e.place with lt | same | lt
  · cases anchor : e.isAnchor with
    | true => exact height_lt_of_era (era_lt me anchor lt)
    | false => exact height_lt_of_weight (era_le_of_le (Nat.le_of_lt lt)) (weight_lt anchor)
  · cases h.eq_of_place md me same
    exact absurd rank (Nat.lt_irrefl _)
  · -- The delimiter that `d` names was opened at `e` or before, so no era began since.
    obtain ⟨o, within⟩ : ∃ o, d.opener? = some o := by
      cases within : d.opener? with
      | some o => exact ⟨o, rfl⟩
      | none =>
        simp only [Complaint.root, within, Option.getD_none] at root
        omega
    have eq : d.root = o := by simp [Complaint.root, within]
    refine height_lt_of_weight (h.era_le_of_within md within (by omega)) (weight_lt ?_)
    cases anchor : e.isAnchor with
    | false => rfl
    | true =>
      have := (h.follows me md lt).opener anchor o within
      rcases anchored anchor with lt | ⟨own, same⟩
      · omega
      · rw [first_of_not own] at same
        omega

/-- A complaint is higher than all that explain it. -/
theorem height_lt (explains : (d.locate l).explains (e.locate l)) : height ks d < height ks e := by
  have boundD := h.bound d md
  have boundE := h.bound e me
  have leD := (h.made d md).first_le
  have leE := (h.made e me).first_le
  have rootD := (h.made d md).root_le_first
  have firsts (same : (d.locate l).span.start = (e.locate l).span.start) : d.first = e.first := by
    rw [start_locate, start_locate] at same
    exact h.eq_of_start_eq (by omega) (by omega) same
  rcases Diagnostic.explains_cases explains with
    ⟨encloses, rank⟩ | ⟨same, rank, free⟩ | ⟨apart, same, missing, unclosed⟩
  · have lt : d.root < e.first := by
      simp only [Diagnostic.encloses, suppression_start, start_locate, Bool.and_eq_true,
        decide_eq_true_eq] at encloses
      exact h.lt_of_start_lt (by omega) encloses.1
    exact h.height_lt_of_rank md me (by simpa using rank) (Nat.le_of_lt lt) fun _ => .inl lt
  · have same := firsts same
    refine h.height_lt_of_rank md me (by simpa using rank) (by omega) fun anchor => .inr ⟨?_, same⟩
    cases of : d.isOfOpener with
    | false => rfl
    | true =>
      have missing := ((isAnchor_iff e).1 anchor).1
      rw [kind_locate, kind_locate] at free
      exact absurd ⟨(h.made d md).unclosed of, missing⟩ free
  · exact h.height_lt_of_missing md me apart (firsts same) (by simpa using missing)
      (by simpa using unclosed)

end Ordered

end Complaint

end ImplicitGlobals
