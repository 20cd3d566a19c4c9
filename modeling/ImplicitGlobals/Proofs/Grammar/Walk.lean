import ImplicitGlobals.Grammar.Cursor

/-!
# Walks

Every rule of the grammar takes a cursor along the same few moves. `Walk c d` says
that moves lead from `c` to `d`, with the nodes and delimiters that are begun on
the way also closed on it. What the moves keep, every rule keeps.

The `floor` of a cursor is the word at which a part was last found missing outside
of all delimiters. Nothing that is found wrong later reaches back behind it.
-/

namespace ImplicitGlobals

/-- The kinds under which a word may be read: its own, or the keyword that it
spells as an identifier. -/
inductive Word.Takes (w : Word) : LeafKind → Prop where
  | own : w.Takes (.token w.kind)
  | keyword {k : Keyword} (ident : w.kind = .ident) (spelt : Keyword.ofWord? w.text = some k) :
    w.Takes (.keyword k)

/-- Whether a part is a word that is read as the keyword. -/
def Tree.isKeyword (k : Keyword) : Tree Slot → Bool
  | leaf (.word _ label) => label == .keyword k
  | _ => false

/-- Whether a part is a word. -/
def Tree.isWord : Tree Slot → Bool
  | leaf (.word ..) => true
  | _ => false

/-- Whether a node of the kind may hold the parts in a source without complaints: a module
has a name, or else it is `global`; a name is one word; and a block has words at least for
its braces. -/
def NodeKind.holds : NodeKind → List (Tree Slot) → Bool
  | moduleDeclaration, parts => parts.any fun t => t.isNode .name || t.isKeyword .kwGlobal
  | name, parts => parts.length == 1 && parts.all Tree.isWord
  | moduleBlock, parts => parts.any Tree.isWord
  | _, _ => true

/-- The kinds of which no more is said. -/
def NodeKind.holdsAny (kind : NodeKind) : Bool :=
  kind != moduleDeclaration && kind != name && kind != moduleBlock

theorem NodeKind.holds_of_holdsAny {kind : NodeKind} (h : kind.holdsAny) (parts : List (Tree Slot)) :
    kind.holds parts := by
  cases kind <;> first | rfl | cases h

/-- Whether a complaint is of a missing part outside of all delimiters. -/
def Complaint.isAnchor : Complaint → Bool
  | here kind _ _ none => kind.isMissing
  | noSemicolon _ none => true
  | _ => false

namespace Grammar

namespace Cursor

/-- The innermost open delimiter. -/
def innermost (c : Cursor) : Option Nat := c.openers.head?.map Opener.word

/-- The word of the last part that was missing outside of all delimiters. -/
def floor (c : Cursor) : Nat := ((c.complaints.find? (·.isAnchor)).map (·.place)).getD 0

theorem floor_congr {c d : Cursor} (h : d.complaints = c.complaints) : d.floor = c.floor := by
  unfold floor
  rw [h]

/-- A delimiter of the kind, opened at the current word. -/
def pushOpener (c : Cursor) (kind : TokenKind) : Cursor :=
  { c with openers := ⟨kind, c.passed⟩ :: c.openers }

def popOpener (c : Cursor) : Cursor := { c with openers := c.openers.tail }

/-- A complaint that a rule may make where the cursor stands. -/
inductive Finds (c : Cursor) : Complaint → Prop where
  | here (kind : DiagnosticKind) (detail : Option String) :
    c.Finds (.here kind detail c.passed c.innermost)
  /-- A statement ends behind a word. -/
  | noSemicolon (begun : 0 < c.passed) : c.Finds (.noSemicolon c.passed c.innermost)
  | unclosed {kind : DiagnosticKind} {note : String} {opener : Nat} (isUnclosed : kind.isUnclosed)
      (above : c.floor ≤ opener) (behind : opener < c.passed) :
    c.Finds (.unclosed kind note opener c.passed)

end Cursor

/-- From one cursor to another by the moves of the grammar. -/
inductive Walk : Cursor → Cursor → Prop where
  | refl (c : Cursor) : Walk c c
  | trans {c d e : Cursor} (first : Walk c d) (rest : Walk d e) : Walk c e
  /-- Looks are counted, budgets paid. -/
  | count (c : Cursor) (looks : Nat) (budget : Budget) (depth : Nat) (refused : Option Limit) :
    Walk c { c with looks, budget, depth, refused }
  | skipGap (c : Cursor) : Walk c c.skipGap
  | placeGap (c : Cursor) : Walk c c.placeGap
  | read {c : Cursor} {w : Word} {ws : List Word} {label : LeafKind} (looked : c.gap ≠ .ahead)
      (current : c.rest = w :: ws) (takes : w.Takes label) : Walk c (c.read label)
  | note {c : Cursor} {k : Complaint} (fresh : c.lastPlace ≠ some c.passed) (finds : c.Finds k) :
    Walk c (c.note k)
  /-- A node that takes up what comes after `c`, begun at `d`. -/
  | node {c d e : Cursor} (kind : NodeKind) (before : Walk c d)
      (body : Walk (d.openNode kind c.parts.size) e)
      (holds : e.complaints = [] → kind.holds (e.parts.toList.drop c.parts.size)) :
    Walk c (e.closeNode kind c.parts.size)
  /-- A delimiter, read and later popped. -/
  | within {c d : Cursor} {w : Word} {ws : List Word} {label : LeafKind} (kind : TokenKind)
      (looked : c.gap ≠ .ahead) (current : c.rest = w :: ws) (takes : w.Takes label)
      (body : Walk ((c.pushOpener kind).read label) d) : Walk c d.popOpener

/-- What is due is the gap, if anything. -/
theorem Gap.eq_of_mem_due {gap : Gap} {i : Nat} {t : Tree Slot} (due : t ∈ (gap.due i).toList) :
    t = .leaf (.gap i) := by
  unfold Gap.due at due
  split at due
  · simpa using due
  · cases due

namespace Cursor

@[simp] theorem toList_parts_placeGap (c : Cursor) :
    c.placeGap.parts.toList = c.parts.toList ++ (c.gap.due c.passed).toList := by
  simp [placeGap]

@[simp] theorem toList_parts_read (c : Cursor) (label : LeafKind) :
    (c.read label).parts.toList =
      c.parts.toList ++ (c.gap.due c.passed).toList ++ [.leaf (.word c.passed label)] := by
  simp [read, placeGap]

theorem toList_parts_closeNode (c : Cursor) (kind : NodeKind) (first : Nat) :
    (c.closeNode kind first).parts.toList =
      c.parts.toList.take first ++ [.node kind (c.parts.toList.drop first)] := by
  simp [closeNode]

/-- Only a part that is missing outside of all delimiters moves the floor. -/
theorem floor_note_of_enclosed {c : Cursor} {k : Complaint} (finds : c.Finds k)
    (enclosed : c.openers ≠ []) : (c.note k).floor = c.floor := by
  have inner : c.innermost ≠ none := by simpa [innermost] using enclosed
  cases h : c.innermost with
  | none => exact absurd h inner
  | some o => cases finds <;> simp [floor, note, h, Complaint.isAnchor]

/-- A complaint leaves the floor where it was or raises it to the current word. -/
theorem floor_note (c : Cursor) {k : Complaint} (finds : c.Finds k) :
    (c.note k).floor = c.floor ∨ (c.note k).floor = c.passed := by
  have place : k.place = c.passed := by cases finds <;> rfl
  cases h : k.isAnchor <;> simp [floor, note, h, place]

end Cursor

/-- What a walk leaves as it found it, and in which direction the rest goes. -/
structure Frame (c d : Cursor) : Prop where
  total : d.total = c.total
  opened : d.opened = c.opened
  openers : d.openers = c.openers
  /-- Parts are only added. -/
  parts : c.parts.toList <+: d.parts.toList
  /-- Words are only read. -/
  words : ∃ ws, c.rest = ws ++ d.rest ∧ d.passed = c.passed + ws.length
  /-- Inside delimiters the floor stays. -/
  enclosed : c.openers ≠ [] → d.floor = c.floor
  /-- The floor follows the cursor. -/
  floor : c.floor ≤ c.passed → d.floor ≤ d.passed
  /-- Complaints are only added. -/
  complaints : c.complaints <:+ d.complaints
  /-- The last one is among them. -/
  noted : (c.lastPlace ≠ none → c.complaints ≠ []) → d.lastPlace ≠ none → d.complaints ≠ []

namespace Frame

variable {c d e : Cursor}

theorem refl (c : Cursor) : Frame c c :=
  ⟨rfl, rfl, rfl, List.prefix_rfl, ⟨[], rfl, rfl⟩, fun _ => rfl, id, List.suffix_rfl, id⟩

theorem trans (f : Frame c d) (g : Frame d e) : Frame c e where
  total := g.total.trans f.total
  opened := g.opened.trans f.opened
  openers := g.openers.trans f.openers
  parts := f.parts.trans g.parts
  words := by
    obtain ⟨us, hu, pu⟩ := f.words
    obtain ⟨vs, hv, pv⟩ := g.words
    exact ⟨us ++ vs, by rw [hu, hv, List.append_assoc], by rw [pv, pu, List.length_append]; omega⟩
  enclosed h := (g.enclosed (f.openers ▸ h)).trans (f.enclosed h)
  floor h := g.floor (f.floor h)
  complaints := f.complaints.trans g.complaints
  noted h := g.noted (f.noted h)

/-- From the beginning of a node at `c` to its end, with its beginning noted at `d`. -/
theorem whole {kind : NodeKind} {first : Nat} (f : Frame c d) (g : Frame (d.openNode kind first) e) :
    Frame c { e with opened := e.opened.tail } :=
  f.trans { g with opened := by rw [g.opened]; rfl }

/-- Closing a node takes up all parts that come after its beginning. -/
theorem parts_node {kind : NodeKind} {first : Nat} (f : Frame c d)
    (g : Frame (d.openNode kind first) e) : (e.closeNode kind c.parts.size).parts.toList =
      c.parts.toList ++ [.node kind (e.parts.toList.drop c.parts.size)] := by
  have kept : e.parts.toList.take c.parts.size = c.parts.toList := by
    simpa using (List.prefix_iff_eq_take.1 (f.whole g).parts).symm
  rw [Cursor.toList_parts_closeNode, kept]

/-- A node around what comes after `c`, begun at `d`. -/
theorem node {kind : NodeKind} {first : Nat} (f : Frame c d) (g : Frame (d.openNode kind first) e) :
    Frame c (e.closeNode kind c.parts.size) := by
  refine { f.whole g with parts := ?_ }
  rw [f.parts_node g]
  exact List.prefix_append _ _

theorem passed_le (f : Frame c d) : c.passed ≤ d.passed := by
  obtain ⟨ws, -, h⟩ := f.words
  omega

theorem length_rest (f : Frame c d) : d.passed + d.rest.length = c.passed + c.rest.length := by
  obtain ⟨ws, h, p⟩ := f.words
  rw [p, h, List.length_append]
  omega

theorem length_rest_le (f : Frame c d) : d.rest.length ≤ c.rest.length := by
  have := f.length_rest
  have := f.passed_le
  omega

/-- A frame over one word that is read. -/
theorem ofRead {w : Word} {ws : List Word} (current : c.rest = w :: ws) (label : LeafKind) :
    Frame c (c.read label) where
  total := rfl
  opened := rfl
  openers := rfl
  parts := by simp
  words := ⟨[w], by simp [current, Cursor.read, Cursor.placeGap], rfl⟩
  enclosed _ := rfl
  floor h := Nat.le_succ_of_le h
  complaints := List.suffix_rfl
  noted := id

/-- A delimiter that is pushed at `c`, read and popped at the end. -/
theorem within {w : Word} {ws : List Word} {kind : TokenKind} {label : LeafKind}
    (current : c.rest = w :: ws) (f : Frame ((c.pushOpener kind).read label) d) :
    Frame c d.popOpener := by
  have inner : Frame (c.read label) d.popOpener :=
    { f with
      openers := by rw [Cursor.popOpener, f.openers]; rfl
      enclosed := fun _ => f.enclosed (List.cons_ne_nil _ _) }
  exact (Frame.ofRead current label).trans inner

end Frame

/-- A walk from `c` keeps the frame of `c`. -/
theorem Walk.frame {c d : Cursor} (walk : Walk c d) : Frame c d := by
  induction walk with
  | refl c => exact .refl c
  | trans _ _ f g => exact f.trans g
  | count c | skipGap c => exact { Frame.refl c with }
  | placeGap c => exact { Frame.refl c with parts := by simp }
  | read _ current => exact .ofRead current _
  | @note c k _ finds =>
    refine { Frame.refl c with
      enclosed := Cursor.floor_note_of_enclosed finds
      floor := fun h => ?_
      complaints := List.suffix_cons k _
      noted := fun _ _ => List.cons_ne_nil k _ }
    rcases Cursor.floor_note c finds with e | e
    · rw [e]; exact h
    · rw [e]; exact Nat.le_refl _
  | node _ _ _ _ f g => exact f.node g
  | within _ _ current _ _ f => exact .within current f

/-- The delimiters lie between the floor and the cursor. -/
def Held (stack : List Opener) (c : Cursor) : Prop :=
  ∀ o ∈ stack, c.floor ≤ o.word ∧ o.word < c.passed

namespace Held

variable {c d : Cursor} {stack below : List Opener}

theorem nil (c : Cursor) : Held [] c := fun _ h => absurd h List.not_mem_nil

/-- Delimiters stay held while nothing is found missing. -/
theorem keep (h : Held stack c) (floor : d.floor = c.floor) (passed : c.passed ≤ d.passed) :
    Held stack d := fun o mem => by
  have := h o mem
  rw [floor]
  omega

theorem sublist (h : Held stack c) (sub : below.Sublist stack) : Held below c :=
  fun o mem => h o (sub.subset mem)

end Held

/-- Where nothing is complained of, a part of the sort comes between `c` and `d`. -/
def Gains (sort : Tree Slot → Bool) (c d : Cursor) : Prop :=
  d.complaints = [] → (d.parts.toList.drop c.parts.size).any sort

namespace Gains

variable {sort : Tree Slot → Bool} {c d e : Cursor}

theorem ofParts (between : List (Tree Slot)) {part : Tree Slot} (is : sort part)
    (parts : d.parts.toList = c.parts.toList ++ (between ++ [part])) : Gains sort c d := by
  intro _
  rw [parts, ← Array.length_toList, List.drop_append_length]
  simp [is]

theorem before (walk : Walk c d) (h : Gains sort d e) : Gains sort c e := by
  intro none
  have le : c.parts.size ≤ d.parts.size := by simpa using walk.frame.parts.length_le
  obtain ⟨t, mem, is⟩ := List.any_eq_true.1 (h none)
  exact List.any_eq_true.2 ⟨t, List.drop_subset_drop_left _ le mem, is⟩

theorem after (h : Gains sort c d) (walk : Walk d e) : Gains sort c e := by
  intro none
  have clean : d.complaints = [] := List.suffix_nil.1 (none ▸ walk.frame.complaints)
  obtain ⟨more, parts⟩ := walk.frame.parts
  obtain ⟨t, mem, is⟩ := List.any_eq_true.1 (h clean)
  rw [← parts, List.drop_append]
  exact List.any_eq_true.2 ⟨t, List.mem_append_left _ mem, is⟩

end Gains

/-- What every rule may count on: enough rounds for the words that are left, an open
node that begins among the parts, a floor at or before the cursor, and that where a
complaint was made there is one. -/
structure Cursor.Sound (c : Cursor) : Prop where
  rounds : c.rest.length ≤ c.total
  anchored : ∀ o ∈ c.opened.head?, o.first ≤ c.parts.size
  floor : c.floor ≤ c.passed
  noted : c.lastPlace ≠ none → c.complaints ≠ []

theorem Walk.sound {c d : Cursor} (walk : Walk c d) (sound : c.Sound) : d.Sound where
  rounds := by
    have := walk.frame.length_rest
    have := walk.frame.passed_le
    rw [walk.frame.total]
    exact Nat.le_trans (by omega) sound.rounds
  anchored o h := by
    rw [walk.frame.opened] at h
    have longer := walk.frame.parts.length_le
    simp only [Array.length_toList] at longer
    exact Nat.le_trans (sound.anchored o h) longer
  floor := walk.frame.floor sound.floor
  noted := walk.frame.noted sound.noted

end Grammar

end ImplicitGlobals
