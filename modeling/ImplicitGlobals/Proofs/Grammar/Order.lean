import ImplicitGlobals.Proofs.Grammar.Walk

/-!
# Complaints come in order

The grammar complains once at a word, and from left to right. A complaint names the
delimiter that it is made within or that it finds open, and once a part is missing
outside of all delimiters, the delimiters that are named later are read later too.
-/

namespace ImplicitGlobals

namespace Complaint

def kind : Complaint → DiagnosticKind
  | here kind _ _ _ | unclosed kind _ _ _ => kind
  | noSemicolon _ _ => .expectedSemicolon

/-- The delimiter around the complaint, or the one that is still open. -/
def opener? : Complaint → Option Nat
  | here _ _ _ enclosing | noSemicolon _ enclosing => enclosing
  | unclosed _ _ opener _ => some opener

/-- Whether the complaint is of the delimiter that it names. -/
def isOfOpener : Complaint → Bool
  | unclosed .. => true
  | _ => false

/-- The delimiter stands before the complaint, and only an open one is complained of. A semicolon
is missing behind a word. -/
structure WellMade (k : Complaint) : Prop where
  opener : ∀ o ∈ k.opener?, o < k.place
  unclosed : k.isOfOpener → k.kind.isUnclosed
  begun : ∀ i enclosing, k = noSemicolon i enclosing → 0 < i

/-- The later complaint is made behind the earlier one, and does not reach back over it if
that is of a part missing outside of all delimiters. -/
structure Follows (later earlier : Complaint) : Prop where
  behind : earlier.place < later.place
  opener : earlier.isAnchor → ∀ o ∈ later.opener?, earlier.place ≤ o

/-- Anchors are the missing parts outside all delimiters. -/
theorem isAnchor_iff (k : Complaint) :
    k.isAnchor ↔ k.kind.isMissing ∧ k.opener? = none ∧ k.isOfOpener = false := by
  cases k with
  | here _ _ _ enclosing => cases enclosing <;> simp [isAnchor, Complaint.kind, opener?, isOfOpener]
  | noSemicolon _ enclosing =>
    cases enclosing <;>
      simp [isAnchor, Complaint.kind, opener?, isOfOpener, DiagnosticKind.isMissing]
  | unclosed => simp [isAnchor, opener?]

end Complaint

namespace Grammar

/-- The complaints of a cursor and the delimiters around it, in order. -/
structure Cursor.Orderly (c : Cursor) : Prop where
  held : Held c.openers c
  last : c.lastPlace = c.complaints.head?.map Complaint.place
  made : ∀ k ∈ c.complaints, k.WellMade
  order : c.complaints.Pairwise Complaint.Follows
  behind : ∀ k ∈ c.complaints, k.place ≤ c.passed

namespace Cursor.Orderly

variable {c d : Cursor}

theorem start (budget : Budget) (words : List Word) : Orderly (.start budget words) :=
  ⟨.nil _, rfl, fun _ h => absurd h List.not_mem_nil, .nil, fun _ h => absurd h List.not_mem_nil⟩

/-- A cursor further on, with the same complaints and no other delimiters. -/
theorem ahead (h : c.Orderly) (passed : c.passed ≤ d.passed) (openers : d.openers = c.openers)
    (lastPlace : d.lastPlace = c.lastPlace) (complaints : d.complaints = c.complaints) :
    d.Orderly where
  held := openers ▸ h.held.keep (floor_congr complaints) passed
  last := by rw [lastPlace, complaints, h.last]
  made := complaints ▸ h.made
  order := complaints ▸ h.order
  behind k mem := Nat.le_trans (h.behind k (complaints ▸ mem)) passed

/-- The floor is not behind the cursor. -/
theorem floor_le (h : c.Orderly) : c.floor ≤ c.passed := by
  unfold floor
  cases found : c.complaints.find? (·.isAnchor) with
  | none => exact Nat.zero_le _
  | some a => exact h.behind a (List.mem_of_find?_eq_some found)

/-- No part that was missing outside of all delimiters lies behind the floor. -/
theorem le_floor (h : c.Orderly) {a : Complaint} (mem : a ∈ c.complaints) (anchor : a.isAnchor) :
    a.place ≤ c.floor := by
  unfold floor
  cases found : c.complaints.find? (·.isAnchor) with
  | none => exact absurd anchor (List.find?_eq_none.1 found a mem)
  | some b =>
    obtain ⟨-, newer, older, split, others⟩ := List.find?_eq_some_iff_append.1 found
    rw [split] at mem
    have order := split ▸ h.order
    rcases List.mem_append.1 mem with mem | mem
    · exact absurd anchor (by simpa using others a mem)
    rcases List.mem_cons.1 mem with rfl | mem
    · exact Nat.le_refl _
    · have follows := (List.pairwise_cons.1 (List.pairwise_append.1 order).2.1).1 a mem
      exact Nat.le_of_lt follows.behind

/-- Where the last complaint was not made at the current word, none was. -/
theorem place_lt (h : c.Orderly) (fresh : c.lastPlace ≠ some c.passed) {k : Complaint}
    (mem : k ∈ c.complaints) : k.place < c.passed := by
  cases all : c.complaints with
  | nil => simp [all] at mem
  | cons newest older =>
    have behind := h.behind newest (by simp [all])
    have other : newest.place ≠ c.passed := by simpa [h.last, all] using fresh
    rcases List.mem_cons.1 (all ▸ mem) with rfl | mem
    · omega
    · have follows := (List.pairwise_cons.1 (all ▸ h.order)).1 k mem
      have := follows.behind
      omega

/-- The delimiter that a rule may name lies between the floor and the cursor. -/
theorem opener_of_finds (h : c.Orderly) {k : Complaint} (finds : c.Finds k) :
    ∀ o ∈ k.opener?, c.floor ≤ o ∧ o < c.passed := by
  have inner : ∀ o ∈ c.innermost, c.floor ≤ o ∧ o < c.passed := by
    intro o mem
    obtain ⟨opener, head, rfl⟩ := Option.map_eq_some_iff.1 mem
    exact h.held opener (List.mem_of_head? head)
  cases finds with
  | here | noSemicolon => exact inner
  | unclosed _ above behind =>
    intro o mem
    cases mem
    exact ⟨above, behind⟩

/-- A fresh complaint keeps the order. -/
theorem note (h : c.Orderly) (fresh : c.lastPlace ≠ some c.passed) {k : Complaint}
    (finds : c.Finds k) : (c.note k).Orderly := by
  have place : k.place = c.passed := by cases finds <;> rfl
  have named := h.opener_of_finds finds
  refine ⟨?_, congrArg some place.symm, ?_, ?_, ?_⟩
  · by_cases enclosed : c.openers = []
    · exact fun o mem => by simp [Cursor.note, enclosed] at mem
    · exact h.held.keep (floor_note_of_enclosed finds enclosed) (Nat.le_refl _)
  · intro j mem
    rcases List.mem_cons.1 mem with rfl | mem
    · refine ⟨fun o mem => place ▸ (named o mem).2, fun of => ?_, fun i enclosing is => ?_⟩
      · cases finds with
        | unclosed isUnclosed => exact isUnclosed
        | here | noSemicolon => cases of
      · cases finds with
        | noSemicolon begun =>
          cases is
          exact begun
        | here | unclosed => cases is
    · exact h.made j mem
  · refine List.pairwise_cons.2 ⟨fun j mem => ?_, h.order⟩
    exact ⟨place ▸ h.place_lt fresh mem, fun anchor o named' =>
      Nat.le_trans (h.le_floor mem anchor) (named o named').1⟩
  · intro j mem
    rcases List.mem_cons.1 mem with rfl | mem
    · exact Nat.le_of_eq place
    · exact h.behind j mem

/-- A delimiter that is remembered and read keeps the order. -/
theorem push (h : c.Orderly) (kind : TokenKind) (label : LeafKind) :
    ((c.pushOpener kind).read label).Orderly := by
  refine { h.ahead (d := c.read label) (Nat.le_succ _) rfl rfl rfl with held := fun o mem => ?_ }
  rcases List.mem_cons.1 mem with rfl | mem
  · exact ⟨h.floor_le, Nat.lt_succ_self _⟩
  · have below := h.held o mem
    exact ⟨below.1, Nat.lt_succ_of_lt below.2⟩

theorem pop (h : c.Orderly) : c.popOpener.Orderly :=
  { h with held := h.held.sublist (List.tail_sublist _) }

end Cursor.Orderly

/-- Every walk keeps the complaints in order. -/
theorem Walk.orderly {c d : Cursor} (walk : Walk c d) (h : c.Orderly) : d.Orderly := by
  induction walk with
  | refl => exact h
  | trans _ _ f g => exact g (f h)
  | count | skipGap | placeGap => exact h.ahead (Nat.le_refl _) rfl rfl rfl
  | read => exact h.ahead (Nat.le_succ _) rfl rfl rfl
  | note fresh finds => exact h.note fresh finds
  | node _ _ _ _ f g =>
    have body := g ((f h).ahead (Nat.le_refl _) rfl rfl rfl)
    exact body.ahead (Nat.le_refl _) rfl rfl rfl
  | within kind _ _ _ _ f => exact (f (h.push kind _)).pop

end Grammar

end ImplicitGlobals
