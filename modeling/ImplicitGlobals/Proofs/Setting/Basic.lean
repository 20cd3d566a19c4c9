import ImplicitGlobals.Proofs.Grammar.Yields
import ImplicitGlobals.Proofs.Syntax.Places

/-!
# Words in a setting

The same words may be read on their own or in a setting: behind words that were read before,
with the parts they left, and in front of others. A `Twin` of a cursor stands in the setting
where the cursor stands by itself. All that it counts is shifted, and else it differs in one
thing only: nobody asks of the first word whether it stands on a line of its own.
-/

namespace ImplicitGlobals

/-! ### Shifting -/

namespace Tree

variable {α β γ : Type}

mutual

/-- Puts `f a` in the place of each leaf `a`. -/
def map (f : α → β) : Tree α → Tree β
  | leaf a => leaf (f a)
  | node kind children => node kind (mapAll f children)

/-- The same of a list of trees. -/
def mapAll (f : α → β) : List (Tree α) → List (Tree β)
  | [] => []
  | t :: rest => t.map f :: mapAll f rest

end

/-- It is the list's own `map`. -/
theorem mapAll_eq_map (f : α → β) (ts : List (Tree α)) : mapAll f ts = ts.map (map f) := by
  induction ts with
  | nil => rfl
  | cons t rest ih => rw [mapAll, ih, List.map_cons]

/-- At a leaf. -/
@[simp] theorem map_leaf (f : α → β) (a : α) : (leaf a).map f = leaf (f a) := rfl

/-- At a node. -/
@[simp] theorem map_node (f : α → β) (kind : NodeKind) (children : List (Tree α)) :
    (node kind children).map f = node kind (children.map (map f)) := by
  rw [map, mapAll_eq_map]

mutual

/-- Expanding behind a map. -/
theorem expand_map (g : β → List γ) (f : α → β) (t : Tree α) :
    (t.map f).expand g = t.expand fun a => g (f a) := by
  cases t with
  | leaf a => rfl
  | node kind children => simp [expand, expandAll_map g f children]

/-- The same of a list. -/
theorem expandAll_map (g : β → List γ) (f : α → β) (ts : List (Tree α)) :
    expandAll g (ts.map (map f)) = expandAll (fun a => g (f a)) ts := by
  cases ts with
  | nil => rfl
  | cons t rest =>
    rw [List.map_cons, expandAll, expandAll, expand_map g f t, expandAll_map g f rest]

end

end Tree

/-- The slot behind `n` more words. -/
def Slot.shift (n : Nat) : Slot → Slot
  | gap i => gap (i + n)
  | word i kind => word (i + n) kind

/-- The complaint behind `n` more words. -/
def Complaint.shift (n : Nat) : Complaint → Complaint
  | here kind detail word enclosing => here kind detail (word + n) (enclosing.map (· + n))
  | noSemicolon word enclosing => noSemicolon (word + n) (enclosing.map (· + n))
  | unclosed kind note opener word => unclosed kind note (opener + n) (word + n)

namespace Grammar

/-- The delimiter behind `n` more words. -/
def Opener.shift (n : Nat) (o : Opener) : Opener := { o with word := o.word + n }

/-- The node behind `n` more parts; the one node of a source stays where it is. -/
def Opened.shift (n : Nat) (o : Opened) : Opened :=
  if o.kind = .sourceFile then o else { o with first := o.first + n }

/-- A node inside the source moves with the parts. -/
theorem Opened.shift_of_ne {kind : NodeKind} (inner : kind ≠ .sourceFile) (n first : Nat) :
    Opened.shift n ⟨kind, first⟩ = ⟨kind, first + n⟩ := by
  simp [shift, inner]

/-! ### Twins -/

/-- What is around words that are read in two places. -/
structure Setting where
  /-- How many words were read before. -/
  words : Nat
  /-- The parts that were there before. -/
  parts : List (Tree Slot)
  /-- The words that follow. -/
  behind : List Word

/-- The setting of words that stand by themselves. -/
def Setting.alone : Setting := ⟨0, [], []⟩

/-- The cursor `c'` stands in the setting where `c` stands by itself. -/
structure Setting.Twin (S : Setting) (c c' : Cursor) : Prop where
  rest : c'.rest = c.rest ++ S.behind ∨ c.passed = 0 ∧ ∃ w ws fresh,
    c.rest = w :: ws ∧ c'.rest = { w with freshLine := fresh } :: (ws ++ S.behind)
  passed : c'.passed = c.passed + S.words
  gap : c'.gap = c.gap
  openers : c'.openers = c.openers.map (Opener.shift S.words)
  budget : c'.budget = c.budget
  depth : c.budget.nesting = none ∨ c'.depth = c.depth
  refused : c'.refused = c.refused
  lastPlace : c'.lastPlace = c.lastPlace.map (· + S.words)
  complaints : c'.complaints = c.complaints.map (Complaint.shift S.words)
  parts : c'.parts.toList = S.parts ++ c.parts.toList.map (Tree.map (Slot.shift S.words))
  opened : c'.opened = c.opened.map (Opened.shift S.parts.length)

/-- The words end with a semicolon. -/
def Sealed (ws : List Word) : Prop := ∃ w, ws.getLast? = some w ∧ w.kind = .semicolon

/-- Words that follow cannot be taken for words that are left: there are none, or a semicolon is
still to come. -/
def Setting.Live (S : Setting) (ws : List Word) : Prop := S.behind = [] ∨ Sealed ws

/-- The words before place `i` are no semicolons. -/
def Clear (i : Nat) (ws : List Word) : Prop := ∀ j < i, kindIn ws j ≠ some .semicolon

/-- There is no word before the first one. -/
theorem clear_zero (ws : List Word) : Clear 0 ws := nofun

/-- One word more that is no semicolon. -/
theorem Clear.succ {i : Nat} {ws : List Word} (h : Clear i ws)
    (here : kindIn ws i ≠ some .semicolon) :
    Clear (i + 1) ws := fun j lt => by
  rcases Nat.lt_succ_iff_lt_or_eq.1 lt with lt | rfl
  · exact h j lt
  · exact here

/-- What ends with a semicolon is not empty. -/
theorem Sealed.ne_nil {ws : List Word} (h : Sealed ws) : ws ≠ [] := by
  rintro rfl
  obtain ⟨w, last, -⟩ := h
  cases last

/-- The semicolon at the end is behind the words that are none. -/
theorem Sealed.lt_length {ws : List Word} (h : Sealed ws) {i : Nat} (clear : Clear i ws) :
    i < ws.length := by
  obtain ⟨w, last, kind⟩ := h
  have here : kindIn ws (ws.length - 1) = some .semicolon := by
    rw [kindIn, ← List.getLast?_eq_getElem?, last, Option.map_some, kind]
  have filled : ws ≠ [] := by
    rintro rfl
    cases last
  have pos := List.length_pos_iff.2 filled
  exact Nat.lt_of_not_le fun long => clear (ws.length - 1) (by omega) here

/-- Behind a word there is a semicolon to come, or the word was it and no word is left. -/
theorem Sealed.tail {w : Word} {ws : List Word} (h : Sealed (w :: ws)) :
    ws = [] ∧ w.kind = .semicolon ∨ Sealed ws := by
  obtain ⟨v, last, kind⟩ := h
  cases ws with
  | nil =>
    obtain rfl : w = v := by simpa using last
    exact .inl ⟨rfl, kind⟩
  | cons u us => exact .inr ⟨v, by simpa using last, kind⟩

namespace Setting

variable {S : Setting} {c c' d : Cursor}

/-- While the semicolon is still to come there is a word left. -/
theorem Live.lt_length {ws : List Word} (h : S.Live ws) (behind : S.behind ≠ []) {i : Nat}
    (clear : Clear i ws) : i < ws.length :=
  (h.resolve_left behind).lt_length clear

namespace Twin

/-- The lexeme at a place, if no statement ends before it. -/
theorem lexeme (h : S.Twin c c') (live : S.Live c.rest) {i : Nat} (clear : Clear i c.rest) :
    c'.rest[i]?.map Word.lexeme = c.rest[i]?.map Word.lexeme := by
  have inner (ws : List Word) (i : Nat) (long : S.behind ≠ [] → i < ws.length) :
      (ws ++ S.behind)[i]? = ws[i]? := by
    by_cases none : S.behind = []
    · simp [none]
    · rw [List.getElem?_append_left (long none)]
  rcases h.rest with same | ⟨-, w, ws, fresh, rest, rest'⟩
  · rw [same, inner _ i fun some => live.lt_length some clear]
  · rw [rest', rest]
    have long : S.behind ≠ [] → i < (w :: ws).length := fun some =>
      rest ▸ live.lt_length some clear
    cases i with
    | zero => rfl
    | succ i =>
      have more : S.behind ≠ [] → i < ws.length := fun some => by simpa using long some
      rw [List.getElem?_cons_succ, List.getElem?_cons_succ, inner ws i more]

/-- No words are left in both runs or in neither. -/
theorem isEmpty (h : S.Twin c c') (live : S.Live c.rest) : c'.rest.isEmpty = c.rest.isEmpty := by
  have first := h.lexeme live (clear_zero _)
  cases rest : c.rest <;> cases rest' : c'.rest <;> simp_all

/-- Behind the first word the answer to every question is the same. -/
theorem head? (h : S.Twin c c') (live : S.Live c.rest) (read : 0 < c.passed) :
    c'.rest.head? = c.rest.head? := by
  rcases h.rest with same | ⟨start, -⟩
  · rcases live with none | sealed
    · rw [same, none, List.append_nil]
    · obtain ⟨w, ws, rest⟩ := List.exists_cons_of_ne_nil sealed.ne_nil
      rw [same, rest]
      rfl
  · omega

/-- So many parts come first. -/
theorem size (h : S.Twin c c') : c'.parts.size = c.parts.size + S.parts.length := by
  rw [← Array.length_toList, h.parts]
  simp [Nat.add_comm]

/-- Both skip the gap. -/
theorem skipGap (h : S.Twin c c') : S.Twin c.skipGap c'.skipGap :=
  { h with gap := congrArg Gap.skipped h.gap }

/-- How many looks are left does not count. -/
theorem looks (h : S.Twin c c') (m n : Nat) : S.Twin { c with looks := m } { c' with looks := n } :=
  { h with }

/-- Both place the gap. -/
theorem placeGap (h : S.Twin c c') : S.Twin c.placeGap c'.placeGap :=
  { h with
    gap := congrArg Gap.settled h.gap
    parts := by
      rw [Cursor.toList_parts_placeGap, Cursor.toList_parts_placeGap, h.parts, h.gap, h.passed]
      cases e : c.gap <;> simp [Gap.due, Slot.shift] }

/-- Both read the current word. -/
theorem read (h : S.Twin c c') {w : Word} {ws : List Word} (current : c.rest = w :: ws)
    (label : LeafKind) : S.Twin (c.read label) (c'.read label) :=
  { h with
    rest := .inl <| by
      rcases h.rest with same | ⟨-, v, vs, fresh, rest, rest'⟩
      · simp [Cursor.read, Cursor.placeGap, same, current]
      · simp [Cursor.read, Cursor.placeGap, rest, rest']
    passed := by simp [Cursor.read, Cursor.placeGap, h.passed, Nat.add_right_comm]
    gap := rfl
    parts := by
      rw [Cursor.toList_parts_read, Cursor.toList_parts_read, h.parts, h.gap, h.passed]
      cases e : c.gap <;> simp [Gap.due, Slot.shift] }

/-- Both open a node inside the source. -/
theorem openNode (h : S.Twin c c') {kind : NodeKind} (inner : kind ≠ .sourceFile) (first : Nat) :
    S.Twin (c.openNode kind first) (c'.openNode kind (first + S.parts.length)) :=
  { h with
    opened := by
      simp [Cursor.openNode, h.opened, Opened.shift_of_ne inner] }

/-- Both close a node. -/
theorem closeNode (h : S.Twin c c') (kind : NodeKind) (first : Nat) :
    S.Twin (c.closeNode kind first) (c'.closeNode kind (first + S.parts.length)) :=
  { h with
    parts := by
      rw [Cursor.toList_parts_closeNode, Cursor.toList_parts_closeNode, h.parts, Nat.add_comm first,
        List.take_length_add_append, List.drop_length_add_append]
      simp
    opened := by simp [Cursor.closeNode, h.opened, List.map_tail] }

/-- Both make a complaint. -/
theorem note (h : S.Twin c c') (k : Complaint) :
    S.Twin (c.note k) (c'.note (k.shift S.words)) :=
  { h with
    lastPlace := by simp [Cursor.note, h.passed]
    complaints := by simp [Cursor.note, h.complaints] }

/-- Both remember a delimiter. -/
theorem pushOpener (h : S.Twin c c') (o : Opener) :
    S.Twin { c with openers := o :: c.openers }
      { c' with openers := o.shift S.words :: c'.openers } :=
  { h with openers := by simp [h.openers] }

/-- Both forget one. -/
theorem popOpener (h : S.Twin c c') :
    S.Twin { c with openers := c.openers.tail } { c' with openers := c'.openers.tail } :=
  { h with openers := by simp [h.openers, List.map_tail] }

/-- Both are in a block or neither is. -/
theorem inBlock (h : S.Twin c c') :
    c'.openers.head?.any (·.kind == .braceOpen) = c.openers.head?.any (·.kind == .braceOpen) := by
  cases openers : c.openers <;> simp [h.openers, openers, Opener.shift]

end Twin

end Setting

end Grammar

end ImplicitGlobals
