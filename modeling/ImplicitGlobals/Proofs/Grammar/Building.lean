import ImplicitGlobals.Proofs.Grammar.Steps

/-!
# Nodes, loops and delimiters

The rules that are put around other rules. A node is closed where it was begun; a
loop whose rounds read comes to its end; and whoever complains of a delimiter that
stays open does so behind it, with nothing missing in between.
-/

namespace ImplicitGlobals.Grammar

variable {α β : Type} {k : Cost} {c d o : Cursor}

/-! ### Nodes -/

/-- Opening and closing of nodes is not seen ahead or around. -/
theorem alike_openNode (c : Cursor) (kind : NodeKind) (first : Nat) :
    Alike c (c.openNode kind first) := ⟨rfl, rfl, rfl, rfl, rfl, rfl⟩

theorem alike_closeNode (c : Cursor) (kind : NodeKind) (first : Nat) :
    Alike c (c.closeNode kind first) := ⟨rfl, rfl, rfl, rfl, rfl, rfl⟩

theorem alike_placeGap (c : Cursor) : Alike c c.placeGap := ⟨rfl, rfl, rfl, rfl, rfl, rfl⟩

/-- Closing takes the node that is open. -/
theorem finishNode_run {opened : List Opened} {node : Opened} (h : c.opened = node :: opened) :
    finishNode.run c = .ok ((), c.closeNode node.kind node.first) := by
  simp [finishNode, h]
  rfl

/-- A checkpoint is the number of parts where it is taken. -/
theorem checkpoint_walks (c : Cursor) :
    Walks .free checkpoint c fun point d => point = d.parts.size ∧ Looked 0 c d := by
  intro _ sound _
  have walk : Walk c c.skipGap.placeGap := (Walk.skipGap c).trans (.placeGap _)
  have looked : Looked 0 c c.skipGap.placeGap := ⟨⟨rfl, rfl, rfl, rfl, rfl, rfl⟩, walk, Nat.le_refl _⟩
  exact ⟨_, _, rfl, walk.sound sound, looked.covers, walk, rfl, looked⟩

/-- A node may be opened at a point that is still among the parts. -/
theorem startNodeAt_run {point : Checkpoint} {kind : NodeKind} (kept : point ≤ c.parts.size)
    (inner : ∀ n ∈ c.opened.head?, n.first ≤ point) :
    (startNodeAt point kind).run c = .ok ((), c.openNode kind point) := by
  have valid : ¬(c.parts.size < point ∨ c.opened.head?.any (point < ·.first) = true) := by
    simp only [not_or, Nat.not_lt, Option.any_eq_true_iff_get, not_exists, decide_eq_true_eq]
    exact ⟨kept, fun h => inner _ (Option.get_mem h)⟩
  simp only [startNodeAt, StateT.run_bind, StateT.run_get, Bool.or_eq_true, decide_eq_true_eq]
  change StateT.run (if _ then _ else _) c = _
  rw [if_neg valid]
  rfl

/-- A node that begins at `o` and takes up all that comes after, begun at `c`. -/
theorem nodeAt_runs {kind : NodeKind} {body : Rule Unit} {Q : Cursor → Prop} (back : Walk o c)
    (sound : o.Sound)
    (holds : ∀ e, Q e → e.complaints = [] → kind.holds (e.parts.toList.drop o.parts.size))
    (h : Walks k body (c.openNode kind o.parts.size) fun _ e => Q e) :
    Runs k (nodeAt o.parts.size kind body) c fun _ d =>
      Walk o d ∧ Gains (·.isNode kind) o d ∧ ∃ e, d = e.closeNode kind o.parts.size ∧ Q e := by
  intro peak soundC need
  have kept : o.parts.size ≤ c.parts.size := by simpa using back.frame.parts.length_le
  have start : (startNodeAt o.parts.size kind).run c = .ok ((), c.openNode kind o.parts.size) :=
    startNodeAt_run kept (back.frame.opened ▸ sound.anchored)
  have soundD : (c.openNode kind o.parts.size).Sound :=
    { soundC with anchored := fun n h => Option.mem_some.1 h ▸ kept }
  obtain ⟨_, e, run, _, covers, walk, post⟩ := h peak soundD need
  have finish : finishNode.run e = .ok ((), e.closeNode kind o.parts.size) :=
    finishNode_run walk.frame.opened
  have whole : Walk o (e.closeNode kind o.parts.size) := .node kind back walk (holds e post)
  have gains : Gains (·.isNode kind) o (e.closeNode kind o.parts.size) :=
    .ofParts [] (by simp [Tree.isNode]) (back.frame.parts_node walk.frame)
  refine ⟨(), _, ?_, whole.sound sound, covers, whole, gains, e, rfl, post⟩
  rw [nodeAt, StateT.run_bind, start]
  change (body >>= fun _ => finishNode).run _ = _
  rw [StateT.run_bind, run]
  exact finish

/-- A node that takes up what its body reads from where it begins, and that holds what it has to. -/
theorem node_walks_holding {kind : NodeKind} {body : Rule Unit} {Q : Cursor → Prop}
    (holds : ∀ e, Q e → e.complaints = [] → kind.holds (e.parts.toList.drop c.placeGap.parts.size))
    (h : Walks k body (c.placeGap.openNode kind c.placeGap.parts.size) fun _ e => Q e) :
    Walks k (node kind body) c fun _ d =>
      Gains (·.isNode kind) c d ∧ ∃ e, d = e.closeNode kind c.placeGap.parts.size ∧ Q e := by
  intro peak sound need
  have place : Walk c c.placeGap := .placeGap c
  have inner : Runs k (nodeAt c.placeGap.parts.size kind body) c.placeGap fun _ d =>
      Walk c.placeGap d ∧ Gains (·.isNode kind) c.placeGap d ∧
        ∃ e, d = e.closeNode kind c.placeGap.parts.size ∧ Q e :=
    nodeAt_runs (.refl c.placeGap) (place.sound sound) holds h
  obtain ⟨_, e, run, soundE, covers, walk, gains, post⟩ := inner peak (place.sound sound) need
  refine ⟨(), e, ?_, soundE, covers, place.trans walk, gains.before place, post⟩
  have same : (node kind body).run c = (nodeAt c.placeGap.parts.size kind body).run c.placeGap := by
    have start : (startNodeAt c.placeGap.parts.size kind).run c.placeGap =
        .ok ((), c.placeGap.openNode kind c.placeGap.parts.size) :=
      startNodeAt_run (Nat.le_refl _) (place.sound sound).anchored
    rw [nodeAt, StateT.run_bind, start]
    rfl
  rw [same, run]

/-- A node is closed behind its body, at the cost of the body. -/
theorem node_walks_from {kind : NodeKind} {body : Rule Unit} {Q : Cursor → Prop} (any : kind.holdsAny)
    (h : Walks k body (c.placeGap.openNode kind c.placeGap.parts.size) fun _ e => Q e) :
    Walks k (node kind body) c fun _ d =>
      Gains (·.isNode kind) c d ∧ ∃ e, d = e.closeNode kind c.placeGap.parts.size ∧ Q e :=
  node_walks_holding (fun _ _ _ => NodeKind.holds_of_holdsAny any _) h

/-- A node that takes up what its body reads. -/
theorem node_walks {kind : NodeKind} {body : Rule Unit} {Q : Cursor → Prop} (any : kind.holdsAny)
    (h : ∀ d, Alike c d → Walks k body d fun _ e => Q e) :
    Walks k (node kind body) c fun _ d =>
      Gains (·.isNode kind) c d ∧ ∃ e, d = e.closeNode kind c.placeGap.parts.size ∧ Q e :=
  node_walks_from any (h _ ((alike_placeGap c).trans (alike_openNode _ kind _)))

/-- A node around a safe body is safe. -/
theorem node_safe {kind : NodeKind} {body : Rule Unit} (any : kind.holdsAny) (h : Safe k body) :
    Safe k (node kind body) :=
  fun _ => (node_walks any fun d _ => h d).back

theorem node_back {kind : NodeKind} {body : Rule Unit} (any : kind.holdsAny)
    (h : ∀ d, Alike c d → Walks k body d fun _ _ => True) :
    Walks k (node kind body) c fun _ _ => True :=
  (node_walks any h).back

/-- A node around a body that reads, reads. -/
theorem node_reads {kind : NodeKind} {body : Rule Unit} (any : kind.holdsAny)
    (h : ∀ d, Alike c d → Reads k body d) : Reads k (node kind body) c := by
  refine (node_walks (Q := fun e => c.passed < e.passed) any fun d alike => ?_).imp fun _ d _ post => ?_
  · exact alike.passed ▸ h d alike
  · obtain ⟨-, e, rfl, read⟩ := post
    exact read

/-- The gap before a name was looked past, so the name begins behind it and holds its one word alone. -/
theorem name_walks {kind : TokenKind} (looked : c.gap ≠ .ahead) (current : kindIn c.rest 0 = some kind) :
    Walks (.reads 2) (node .name bump) c fun _ d => Gains (·.isNode .name) c d ∧ c.passed < d.passed := by
  let o := c.placeGap.openNode .name c.placeGap.parts.size
  have alike : Alike c o := (alike_placeGap c).trans (alike_openNode _ .name _)
  have body : Walks (.reads 2) bump o fun _ e => Advanced c e ∧
      e.parts.toList = c.placeGap.parts.toList ++ [.leaf (.word c.passed (.token kind))] :=
    (bump_placed (c := o) (c.gap_placeGap looked) current).imp fun _ _ _ read =>
      ⟨alike.advanced read.1, read.2⟩
  apply (node_walks_holding (fun e post _ => ?_) body).imp
  · rintro _ _ - ⟨gains, e, rfl, read, -⟩
    exact ⟨gains, read.lt⟩
  · rw [post.2, ← Array.length_toList, List.drop_append_length]
    rfl

/-- A rule for what begins at a checkpoint: entered behind the checkpoint, at words of
which `p` holds, it reads. -/
def Wraps (p : List Word → Prop) (k : Cost) (r : Checkpoint → Rule Unit) : Prop :=
  ∀ o c, Walk o c → o.Sound → p c.rest →
    Runs k (r o.parts.size) c fun _ d => Walk o d ∧ c.passed < d.passed

/-- A node that reads and gains what it holds. -/
theorem nodeAt_wraps_gaining {p : List Word → Prop} {kind : NodeKind} {body : Rule Unit}
    {sort : Tree Slot → Bool} (holds : ∀ parts, parts.any sort → kind.holds parts)
    (h : ∀ c, p c.rest → Walks k body c fun _ d => c.passed < d.passed ∧ Gains sort c d) :
    Wraps p k fun point => nodeAt point kind body := by
  intro o c back sound entry
  have body' := h (c.openNode kind o.parts.size) entry
  refine (nodeAt_runs (Q := fun e => c.passed < e.passed ∧ Gains sort c e) back sound
    (fun e post clean => holds _ (post.2.before back clean)) body').imp fun _ d post => ?_
  obtain ⟨whole, -, e, rfl, read, -⟩ := post
  exact ⟨whole, read⟩

/-- A node from an earlier point wraps its body. -/
theorem nodeAt_wraps {p : List Word → Prop} {kind : NodeKind} {body : Rule Unit}
    (any : kind.holdsAny) (h : ∀ c, p c.rest → Reads k body c) :
    Wraps p k fun point => nodeAt point kind body := by
  intro o c back sound entry
  refine (nodeAt_runs (Q := fun e => c.passed < e.passed) back sound
    (fun _ _ _ => NodeKind.holds_of_holdsAny any _) (h (c.openNode kind _) entry)).imp fun _ d post => ?_
  obtain ⟨whole, -, e, rfl, read⟩ := post
  exact ⟨whole, read⟩

/-! ### Complaints -/

/-- After a complaint that is an anchor only if `anchors` says so. -/
structure Complained (anchors : Bool) (c d : Cursor) : Prop where
  rest : d.rest = c.rest
  passed : d.passed = c.passed
  refused : d.refused = c.refused
  floor : anchors = false → d.floor = c.floor
  noted : d.complaints ≠ []

/-- A complaint leaves the words alone, and the floor too unless it anchors. -/
theorem complain_walks {report : Nat → Option Nat → Complaint} (anchors : Bool)
    (finds : ∀ d, Alike c d → d.Finds (report d.passed d.innermost))
    (anchor : (report c.passed c.innermost).isAnchor = true → anchors = true) :
    Walks (.looks 1) (complain report) c fun _ d => Complained anchors c d := by
  intro _ sound need
  have looked := looked_looked (c := c) need
  by_cases fresh : c.lastPlace = some c.passed
  · refine ⟨(), c.looked, ?_, looked.walk.sound sound, looked.covers, looked.walk, ?_⟩
    · rw [complain, StateT.run_bind, mark_run need]
      exact congrArg (fun d => Except.ok ((), d)) (if_pos fresh)
    · have noted : c.complaints ≠ [] := sound.noted (by simp [fresh])
      exact ⟨looked.rest, looked.passed, looked.refused, fun _ => looked.toAlike.floor, noted⟩
  · have walk := looked.walk.trans (.note (c := c.looked) fresh (finds _ looked.toAlike))
    refine ⟨(), c.looked.note (report c.passed c.innermost), ?_, walk.sound sound, looked.covers,
      walk, rfl, rfl, rfl, fun h => ?_, List.cons_ne_nil _ _⟩
    · rw [complain, StateT.run_bind, mark_run need]
      exact congrArg (fun d => Except.ok ((), d)) (if_neg fresh)
    · have stray : (report c.passed c.innermost).isAnchor = false := by
        cases e : (report c.passed c.innermost).isAnchor with
        | false => rfl
        | true => exact absurd (anchor e) (by simp [h])
      simp [Cursor.floor, Cursor.note, stray, Cursor.looked, Cursor.skipGap]

/-- An error, told as a walk. -/
theorem error_walks (kind : DiagnosticKind) (c : Cursor) :
    Walks (.looks 1) (error kind) c fun _ d => Complained kind.isMissing c d := by
  refine complain_walks _ (fun d _ => .here kind none) fun h => ?_
  cases e : c.innermost <;> simp_all [Complaint.isAnchor]

/-- An error with a detail, told as a walk. -/
theorem errorWith_walks (kind : DiagnosticKind) (detail : String) (c : Cursor) :
    Walks (.looks 1) (errorWith kind detail) c fun _ d => Complained kind.isMissing c d := by
  refine complain_walks _ (fun d _ => .here kind (some detail)) fun h => ?_
  cases e : c.innermost <;> simp_all [Complaint.isAnchor]

theorem error_safe (kind : DiagnosticKind) : Safe (.looks 1) (error kind) :=
  fun c => (error_walks kind c).back

theorem errorWith_safe (kind : DiagnosticKind) (detail : String) :
    Safe (.looks 1) (errorWith kind detail) :=
  fun c => (errorWith_walks kind detail c).back

theorem errorNoSemicolon_later : Later (.looks 1) errorNoSemicolon := fun _ begun =>
  (complain_walks true (fun _ alike => .noSemicolon (alike.passed ▸ begun)) fun _ => rfl).back

/-- What stays open is complained of behind it, with nothing missing in between. -/
theorem errorUnclosed_walks {kind : DiagnosticKind} {note : String} {opener : Nat}
    (isUnclosed : kind.isUnclosed) (above : c.floor ≤ opener) (behind : opener < c.passed) :
    Walks (.looks 1) (errorUnclosed kind note opener) c fun _ d => Complained false c d := by
  refine complain_walks _ (fun d alike => .unclosed isUnclosed ?_ ?_) fun h => ?_
  · rw [alike.floor]; exact above
  · rw [alike.passed]; exact behind
  · simp [Complaint.isAnchor] at h

/-- What stands in the way is read, if anything does. -/
theorem bumpAsError_walks (c : Cursor) :
    Walks ⟨3, some 1, some 0, 3⟩ bumpAsError c fun _ d =>
      d.floor = c.floor ∧ (c.rest ≠ [] → c.passed < d.passed) := by
  apply Walks.weaken
  · apply (peek_asks 0).walksOn
    intro d looked
    apply Walks.ite
    · intro present
      obtain ⟨w, current⟩ := Option.isSome_iff_exists.1 present
      have body (e : Cursor) (alike : Alike d e) : Walks (.reads 2) bump e fun _ f => Advanced d f := by
        have here : kindIn e.rest 0 = some w.kind := by
          rw [alike.rest, looked.rest, kindIn, current, Option.map_some]
        exact (bump_walks here).imp fun _ _ _ read => alike.advanced read
      apply (node_walks (by decide) body).imp
      rintro _ f - ⟨-, e, rfl, read⟩
      refine ⟨?_, fun _ => ?_⟩
      · rw [(alike_closeNode e .error _).floor, read.floor, looked.toAlike.floor]
      · exact looked.passed ▸ read.lt
    · intro absent
      refine .pure ⟨looked.toAlike.floor, fun some => ?_⟩
      cases h : c.rest with
      | nil => exact absurd h some
      | cons w ws => simp [h] at absent
  · decide

/-- An error and the word that is complained of. -/
theorem errorAndBump_walks (kind : DiagnosticKind) (detail : String) (c : Cursor) :
    Walks ⟨4, some 2, some 0, 4⟩ (errorAndBump kind detail) c fun _ d =>
      (kind.isMissing = false → d.floor = c.floor) ∧ (c.rest ≠ [] → c.passed < d.passed) := by
  apply Walks.weaken
  · apply (errorWith_walks kind detail c).bind
    intro _ d _ complained
    apply (bumpAsError_walks d).imp
    intro _ e _ post
    rw [complained.rest, complained.passed] at post
    exact ⟨fun stray => post.1.trans (complained.floor stray), post.2⟩
  · decide

/-- On the way from `c`, where a word was left, a word is read in the end. -/
theorem errorAndBump_further (kind : DiagnosticKind) (detail : String) (walk : Walk c d)
    (left : c.rest ≠ []) :
    Walks ⟨4, some 2, some 0, 4⟩ (errorAndBump kind detail) d fun _ e => c.passed < e.passed := by
  refine (errorAndBump_walks kind detail d).imp fun _ e walk' post => ?_
  have first := walk.frame.length_rest
  have further := walk'.frame.passed_le
  have some : 0 < c.rest.length := List.length_pos_iff.2 left
  by_cases none : d.rest = []
  · have : d.rest.length = 0 := by rw [none]; rfl
    omega
  · have := post.2 none
    have := walk.frame.passed_le
    omega

/-! ### Choices -/

/-- The rule comes back along a walk when it is entered at a word of the kind. -/
def SafeAt (kind : TokenKind) (k : Cost) (r : Rule α) : Prop :=
  ∀ c, kindIn c.rest 0 = some kind → Walks k r c fun _ _ => True

/-- A part behind its test is safe if it is where the test holds. -/
theorem whenever_safe {a b : Cost} {P : Bool → Cursor → Prop} {test : Rule Bool} {body : Rule Unit}
    {c : Cursor} (h : Walks a test c P)
    (yes : ∀ d, Walk c d → P true d → Walks b body d fun _ _ => True) :
    Walks (a.seq (b.alt .free)) (whenever test body) c fun _ _ => True :=
  h.branch yes fun _ _ _ => .pure trivial

/-- An optional part costs the look and then itself. -/
theorem optional_safe {kind : TokenKind} {body : Rule Unit} (h : SafeAt kind k body) :
    Safe ((Cost.looks 1).seq (k.alt .free)) (optional kind body) :=
  fun c => whenever_safe ((currentIs_asks kind).walks c) fun d _ asked =>
    h d (asked.2.rest ▸ eq_of_beq asked.1.symm)

/-- A word that is asked for is read or complained of. -/
theorem expect_safe (kind : TokenKind) (what : String) : Safe ⟨3, some 2, some 1, 3⟩ (expect kind what) := by
  apply Safe.weaken
  · apply (eat_safe kind).branch (.pure true)
    exact (errorWith_safe .unexpectedToken ("expected " ++ what)).bind fun _ => .pure false
  · decide

theorem assertAt_walks {kind : TokenKind} (current : kindIn c.rest 0 = some kind) :
    Walks (.looks 1) (assertAt kind) c fun _ d => Looked 1 c d := by
  apply Walks.weaken
  · apply current_asks.walksOn
    intro d looked
    rw [if_neg (not_not_intro current)]
    exact .pure looked
  · decide

theorem assertAtKeyword_walks {word : Keyword} (current : spells c.rest 0 word.word = true) :
    Walks (.looks 1) (assertAtKeyword word) c fun _ d => Looked 1 c d := by
  apply Walks.weaken
  · apply (atKeyword_asks word).walksOn
    intro d looked
    rw [current]
    exact .pure looked
  · decide

/-! ### Nesting -/

/-- A level is entered with all looks, or refused. -/
theorem descend_walks (c : Cursor) :
    Walks ⟨0, some 0, some 0, 0⟩ descend c fun b d => b = true → Alike c d := by
  intro _ sound _
  by_cases spent : c.budget.nesting.any (· ≤ c.depth) = true
  · have walk : Walk c { c with refused := c.refused.or (some .nesting) } :=
      .count c c.looks c.budget c.depth _
    refine ⟨false, _, ?_, walk.sound sound, .inl ⟨rfl, 0, rfl, Nat.le_refl _⟩, walk, nofun⟩
    simp only [descend, StateT.run_bind, StateT.run_get]
    change StateT.run (if _ then _ else _) c = _
    rw [if_pos spent]
    rfl
  · have walk : Walk c { c with depth := c.depth + 1, looks := lookLimit } :=
      .count c lookLimit c.budget (c.depth + 1) c.refused
    refine ⟨true, _, ?_, walk.sound sound, .inr ⟨0, rfl, Nat.le_refl _⟩, walk,
      fun _ => ⟨rfl, rfl, rfl, rfl, rfl, rfl⟩⟩
    simp only [descend, StateT.run_bind, StateT.run_get]
    change StateT.run (if _ then _ else _) c = _
    rw [if_neg spent]
    rfl

theorem ascend_walks (c : Cursor) :
    Walks ⟨0, none, some 0, 0⟩ ascend c fun _ d => d.passed = c.passed :=
  fun _ sound _ =>
    have walk : Walk c { c with depth := c.depth - 1, looks := lookLimit } :=
      .count c lookLimit c.budget (c.depth - 1) c.refused
    ⟨(), _, rfl, walk.sound sound, Cost.covers_reads 0 (Nat.le_refl _), walk, rfl⟩

/-! ### Loops -/

/-- A round of a loop: `I` is kept when it goes on, and it ends in `E`. Every round that
goes on has read a word. -/
def Round {σ : Type} (I E : σ → Cursor → Prop) (c : Cursor) : Turn σ → Cursor → Prop
  | .again s, d => c.passed < d.passed ∧ I s d
  | .done s, d => E s d

theorem Round.alike {σ : Type} {I E : σ → Cursor → Prop} {t : Turn σ} {e : Cursor} (same : Alike c d)
    (h : Round I E d t e) : Round I E c t e := by
  cases t with
  | again s => exact ⟨same.passed ▸ h.1, h.2⟩
  | done s => exact h

/-- Rounds get on by induction on those left; there are as many as words. -/
theorem rounds_walks {σ : Type} {I E : σ → Cursor → Prop} {step : σ → Rule (Turn σ)}
    (round : ∀ s d, I s d → Walks k (step s) d (Round I E d)) (n : Nat) (s : σ)
    (start : I s c) (few : c.rest.length < n) : Walks k.loop (rounds step n s) c E := by
  induction n generalizing s c with
  | zero => exact absurd few (Nat.not_lt_zero _)
  | succ n ih =>
    intro peak sound need
    have once : k.peak ≤ lookLimit := Nat.le_trans (Nat.le_max_left _ _) peak
    obtain ⟨t, d, run, soundD, covers, walk, post⟩ := round s c start once sound need
    cases t with
    | done s' =>
      have head : (rounds step (n + 1) s).run c = .ok (s', d) := by
        rw [rounds, StateT.run_bind, run]
        rfl
      exact ⟨s', d, head, soundD, covers.done, walk, post⟩
    | again s' =>
      have head : (rounds step (n + 1) s).run c = (rounds step n s').run d := by
        rw [rounds, StateT.run_bind, run]
        rfl
      have left := walk.frame.length_rest
      have read := post.1
      obtain ⟨x, e, run', soundE, covers', walk', post'⟩ :=
        ih s' post.2 (by omega) peak soundD (covers.need_again read peak)
      exact ⟨x, e, head.trans run', soundE, covers.again post.1 covers', walk.trans walk', post'⟩

/-- A loop has rounds enough. -/
theorem loop_walks {σ : Type} {I E : σ → Cursor → Prop} {step : σ → Rule (Turn σ)} {s : σ}
    (start : I s c) (round : ∀ s d, I s d → Walks k (step s) d (Round I E d)) :
    Walks k.loop (loop s step) c E :=
  .ofSound fun sound => .get (rounds_walks round (c.total + 1) s start (Nat.lt_succ_of_le sound.rounds))

/-- A turn comes back when there are fewer than `n` words left, and has read one when
it says that the loop goes on. -/
def Turns (n : Nat) (k : Cost) (turn : Rule Bool) : Prop :=
  ∀ c, c.rest.length < n → Walks k turn c fun b d => b = true → c.passed < d.passed

theorem Turns.weaken {a b : Cost} {n : Nat} {turn : Rule Bool} (h : Turns n a turn)
    (cost : a.within b = true) : Turns n b turn :=
  fun c few => (h c few).weaken cost

/-- A loop over turns that read, or end in `P`. -/
theorem repeatWhile_ends {n : Nat} {turn : Rule Bool} {P : Cursor → Prop}
    (turns : ∀ d, d.rest.length < n →
      Walks k turn d fun b e => if b = true then d.passed < e.passed else P e)
    (few : c.rest.length < n) : Walks k.loop (repeatWhile turn) c fun _ d => P d := by
  refine loop_walks (I := fun _ d => d.rest.length < n) few fun _ d few => ?_
  have once := (turns d few).map (f := fun b => if b = true then Turn.again () else .done ())
    (Q := Round (fun _ e => e.rest.length < n) (fun _ e => P e) d) fun b e walk post => by
      cases b with
      | false => exact post
      | true =>
        have left := walk.frame.length_rest
        have read : d.passed < e.passed := post
        exact ⟨read, by omega⟩
  have same : (do if ← turn then return Turn.again () else return Turn.done ()) =
      (fun b => if b = true then Turn.again () else .done ()) <$> turn := by
    rw [map_eq_pure_bind]
    congr
    funext b
    cases b <;> rfl
  exact same ▸ once

/-- So has a repetition. -/
theorem repeatWhile_walks {n : Nat} {turn : Rule Bool} (turns : Turns n k turn)
    (few : c.rest.length < n) : Walks k.loop (repeatWhile turn) c fun _ _ => True := by
  refine repeatWhile_ends (fun d few => (turns d few).imp fun b e _ read => ?_) few
  cases b with
  | false => trivial
  | true => exact read rfl

theorem repeatWhile_safe {turn : Rule Bool} (turns : ∀ n, Turns n k turn) :
    Safe k.loop (repeatWhile turn) :=
  fun c => repeatWhile_walks (turns _) (Nat.lt_succ_self c.rest.length)

/-! ### Delimiters -/

/-- An opener is pushed and read. -/
theorem open_run {kind : TokenKind} (current : kindIn c.rest 0 = some kind) (enough : 3 ≤ c.looks) :
    ∃ start, Walk c start ∧ start.gap ≠ .ahead ∧ start.rest = c.rest ∧ start.passed = c.passed ∧
      start.floor = c.floor ∧
      (do pushOpener kind; bump).run c = .ok ((), (start.pushOpener kind).read (.token kind)) := by
  have left : 2 ≤ (c.looked.pushOpener kind).looks := by
    simp only [Cursor.looked, Cursor.pushOpener]
    omega
  have pushed : (pushOpener kind).run c = .ok ((), c.looked.pushOpener kind) := by
    rw [pushOpener, StateT.run_bind, mark_run (by omega)]
    rfl
  obtain ⟨budget, refused, bumped⟩ := bump_run (c := c.looked.pushOpener kind) current left
  -- the looks and the payment come after the push, but they may as well come before it
  refine ⟨{ c.looked.looked.looked with budget, refused }, ?_, c.looked.looked.gap_looked, rfl, rfl,
    Cursor.floor_congr rfl, ?_⟩
  · have skips : Walk c c.skipGap.skipGap.skipGap :=
      ((Walk.skipGap c).trans (.skipGap _)).trans (.skipGap _)
    exact skips.trans (.count _ _ budget c.depth refused)
  · rw [StateT.run_bind, pushed]
    exact bumped

/-- Inside an opener nothing moves the floor. -/
theorem inside_walks {kind : TokenKind} {body : Rule Unit} (current : kindIn c.rest 0 = some kind)
    (h : ∀ d, d.rest = c.rest.tail → Walks k body d fun _ _ => True) :
    Walks ((Cost.reads 3).seq k) (inside kind body) c fun _ d =>
      c.passed < d.passed ∧ d.floor = c.floor ∧ Gains Tree.isWord c d := by
  intro peak sound need
  have bounds : k.peak ≤ lookLimit ∧ k.need ≤ lookLimit ∧ 3 ≤ c.looks := by
    simp only [Cost.seq, Cost.reads, Option.elim_some, Option.elim_none] at peak need
    omega
  obtain ⟨start, toStart, gap, same, here, floor, opened⟩ := open_run current bounds.2.2
  obtain ⟨w, ws, rest, rfl⟩ := exists_of_kindIn current
  replace rest : start.rest = w :: ws := same.trans rest
  have read : Walk c (start.read (.token w.kind)) := toStart.trans (.read gap rest .own)
  obtain ⟨_, e, run, _, covers, walk, -⟩ :=
    h ((start.pushOpener w.kind).read (.token w.kind)) (congrArg List.tail same) bounds.1
      { read.sound sound with } bounds.2.1
  have whole : Walk c e.popOpener := toStart.trans (.within w.kind gap rest .own walk)
  have first : (Cost.reads 3).Covers c ((start.pushOpener w.kind).read (.token w.kind)) :=
    Cost.covers_reads 3 (Nat.le_refl _)
  refine ⟨(), e.popOpener, ?_, whole.sound sound, first.seq covers, whole, ?_, ?_, ?_⟩
  · have split : inside w.kind body =
        (do pushOpener w.kind; bump) >>= fun _ => body >>= fun _ => popOpener := by
      simp only [inside, bind_assoc]
    rw [split, StateT.run_bind, opened]
    change (body >>= fun _ => popOpener).run _ = _
    rw [StateT.run_bind, run]
    rfl
  · have further : start.passed + 1 ≤ e.popOpener.passed := walk.frame.passed_le
    omega
  · have kept : e.floor = start.floor := walk.frame.enclosed (List.cons_ne_nil _ _)
    exact kept.trans floor
  · have opens : Gains Tree.isWord start ((start.pushOpener w.kind).read (.token w.kind)) :=
      .ofParts _ rfl ((Cursor.toList_parts_read _ _).trans (List.append_assoc ..))
    exact (opens.after walk).before toStart

/-- The cost of delimiters around turns. -/
def Cost.delimited (k : Cost) : Cost :=
  (Cost.looks 1).seq (((Cost.reads 3).seq k.loop).seq ⟨3, some 2, some 1, 3⟩)

/-- The closer is read, or what stays open is complained of, behind the opener. -/
theorem closer_walks {m : Delimiters} {opener : Nat} (isUnclosed : m.unclosed.isUnclosed)
    (above : c.floor ≤ opener) (behind : opener < c.passed) :
    Walks ⟨3, some 2, some 1, 3⟩ (do
      if !(← eat m.closer) && !(m.excused && (← isRefused)) then
        errorUnclosed m.unclosed m.note opener) c fun _ d => opener < d.passed := by
  apply Walks.weaken
  · apply (eat_walks m.closer c).bind
    intro b d walk eaten
    apply isRefused_asks.walksOn
    intro e looked
    have behind' : opener < e.passed := by
      have := walk.frame.passed_le
      rw [looked.passed]
      omega
    apply Walks.ite
    · intro missing
      -- nothing was read, so the floor is where it was
      have alike : Alike c d := by
        have unread := eaten.2
        cases b with
        | false => exact unread
        | true => simp at missing
      have above' : e.floor ≤ opener := by
        rw [looked.toAlike.floor, alike.floor]
        exact above
      apply (errorUnclosed_walks isUnclosed above' behind').imp
      intro _ f _ complained
      rw [complained.passed]
      exact behind'
    · exact fun _ => .pure behind'
  · decide

/-- Delimiters around turns that read. The opener is a part of its own. -/
theorem delimited_walks {m : Delimiters} {turn : Rule Bool} (current : kindIn c.rest 0 = some m.opener)
    (isUnclosed : m.unclosed.isUnclosed) (turns : Turns c.rest.length k turn) :
    Walks k.delimited (delimited m turn) c fun _ d => c.passed < d.passed ∧ Gains Tree.isWord c d := by
  refine .ofSound fun sound => (mark_walks c).bind fun i d toD marked => ?_
  obtain ⟨rfl, looked⟩ := marked
  have opener : kindIn d.rest 0 = some m.opener := looked.rest ▸ current
  refine (inside_walks opener fun e inner => repeatWhile_walks turns ?_).bind fun _ e walk post => ?_
  · obtain ⟨w, ws, rest, -⟩ := exists_of_kindIn current
    rw [inner, looked.rest, rest]
    exact Nat.lt_succ_self _
  · obtain ⟨read, floor, gains⟩ := post
    have above : e.floor ≤ c.passed := by
      rw [floor, looked.toAlike.floor]
      exact sound.floor
    apply (closer_walks isUnclosed above (looked.passed ▸ read)).imp
    exact fun _ f toF closed => ⟨closed, (gains.before toD).after toF⟩

/-- A list reads its opener, its turns and its closer. -/
theorem delimited_reads {m : Delimiters} {turn : Rule Bool} (current : kindIn c.rest 0 = some m.opener)
    (isUnclosed : m.unclosed.isUnclosed) (turns : Turns c.rest.length k turn) :
    Reads k.delimited (delimited m turn) c :=
  (delimited_walks current isUnclosed turns).imp fun _ _ _ post => post.1

/-- A node between delimiters. -/
theorem delimitedNode_reads {kind : NodeKind} {m : Delimiters} {turn : Rule Bool}
    (any : kind.holdsAny) (current : kindIn c.rest 0 = some m.opener) (isUnclosed : m.unclosed.isUnclosed)
    (turns : Turns c.rest.length k turn) : Reads k.delimited (node kind (delimited m turn)) c :=
  node_reads any fun _ alike =>
    delimited_reads (alike.rest ▸ current) isUnclosed (alike.rest ▸ turns)

/-- The cost of an item that starts with a test of `m` looks. -/
def Cost.item (m : Nat) (k : Cost) : Cost :=
  (Cost.looks 1).seq (Cost.free.alt ((Cost.looks m).seq
    ((Cost.seq ⟨4, some 2, some 0, 4⟩ .free).alt (k.seq ⟨3, some 1, some 0, 3⟩))))

/-- The turn of a list: `item` is only entered where it starts. -/
theorem itemTurn_turns {closer : TokenKind} {starts : Rule Bool} {what : String} {item : Rule Unit}
    {m n : Nat} {v : List Word → Option Limit → Bool} (asks : Asks m starts v)
    (h : ∀ c, v c.rest c.refused = true → Walks k item c fun _ _ => True) :
    Turns n (.item m k) (itemTurn closer starts what item) := by
  intro c _
  apply ((atEnd_asks.or (currentIs_asks closer)).walks c).branch
  · exact fun _ _ _ => .pure nofun
  intro d toD asked
  have left : c.rest ≠ [] := by
    intro none
    simp [none] at asked
  apply (asks.walks d).bind
  intro b e toE asked'
  have walk := toD.trans toE
  apply Walks.ite
  · intro _
    apply (errorAndBump_further .expectedName what walk left).bind
    exact fun _ _ _ read => .pure fun _ => read
  · intro starts
    have entered : v e.rest e.refused = true := by
      rw [asked'.2.rest, asked'.2.refused, ← asked'.1]
      simpa using starts
    apply (h e entered).bind
    exact fun _ f toF _ => eat_further .comma (walk.trans toF)

end ImplicitGlobals.Grammar
