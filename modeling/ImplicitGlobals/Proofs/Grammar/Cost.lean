import ImplicitGlobals.Proofs.Grammar.Walk

/-!
# The cost of a rule

A rule may look only `lookLimit` times between two words. The cost of a rule says
how many looks it needs to begin with, how many are gone when it comes back, and
how many it takes at most in between. Costs of parts add up to the cost of the
whole, so no rule has to be followed word by word.
-/

namespace ImplicitGlobals.Grammar

/-- What a rule takes in looks. -/
structure Cost where
  /-- Looks that must be left at the start. -/
  need : Nat
  /-- Looks that are gone when no word was read; nothing when one always is. -/
  idle : Option Nat
  /-- Looks since the last word that was read; nothing when none ever is. -/
  tail : Option Nat
  /-- The most looks between two words. -/
  peak : Nat
deriving DecidableEq, Repr

namespace Cost

/-- The cost of no look at all. -/
def free : Cost := ⟨0, some 0, none, 0⟩

/-- The cost of `n` looks. -/
def looks (n : Nat) : Cost := ⟨n, some n, none, n⟩

/-- The cost of reading a word after `n` looks. -/
def reads (n : Nat) : Cost := ⟨n, none, some 0, n⟩

/-- One rule behind another. -/
def seq (a b : Cost) : Cost where
  need := max a.need (a.idle.elim 0 (· + b.need))
  idle := a.idle.bind fun i => b.idle.map (i + ·)
  tail := b.tail.merge max (a.tail.bind fun t => b.idle.map (t + ·))
  peak := max (max a.peak b.peak) (a.tail.elim 0 (· + b.need))

/-- One rule or the other. -/
def alt (a b : Cost) : Cost where
  need := max a.need b.need
  idle := a.idle.merge max b.idle
  tail := a.tail.merge max b.tail
  peak := max a.peak b.peak

/-- A rule over and over, as long as it reads. -/
def loop (a : Cost) : Cost where
  need := a.need
  idle := a.idle
  tail := a.tail.map (· + a.idle.getD 0)
  peak := max a.peak (a.tail.elim 0 (· + a.need))

/-- Whether what `a` allows is allowed by `b`. -/
def within (a b : Cost) : Bool :=
  a.need ≤ b.need && a.idle.all (fun i => b.idle.any (i ≤ ·)) &&
    a.tail.all (fun t => b.tail.any (t ≤ ·)) && a.peak ≤ b.peak

/-- What looks are left between two cursors. -/
def Covers (k : Cost) (c d : Cursor) : Prop :=
  (d.passed = c.passed ∧ ∃ i ∈ k.idle, c.looks ≤ d.looks + i) ∨
    ∃ t ∈ k.tail, lookLimit ≤ d.looks + t

variable {a b : Cost} {c d e : Cursor}

theorem covers_free (c : Cursor) : free.Covers c c :=
  .inl ⟨rfl, 0, rfl, Nat.le_refl _⟩

/-- Whatever reads costs no more than what was looked since. -/
theorem covers_reads (n : Nat) (h : lookLimit ≤ d.looks) : (reads n).Covers c d :=
  .inr ⟨0, rfl, h⟩

/-- After a word was read only the looks since then are gone. -/
theorem Covers.renewed (h : a.Covers c d) (read : c.passed < d.passed) :
    ∃ t ∈ a.tail, lookLimit ≤ d.looks + t := by
  rcases h with ⟨same, -⟩ | h
  · omega
  · exact h

/-- The larger of two bounds, where there are two. -/
theorem exists_merge_left {x y : Option Nat} {i : Nat} (h : i ∈ x) :
    ∃ j ∈ x.merge max y, i ≤ j := by
  cases Option.mem_def.1 h
  cases y with
  | none => exact ⟨i, rfl, Nat.le_refl i⟩
  | some j => exact ⟨max i j, rfl, Nat.le_max_left i j⟩

theorem exists_merge_right {x y : Option Nat} {i : Nat} (h : i ∈ y) :
    ∃ j ∈ x.merge max y, i ≤ j := by
  cases Option.mem_def.1 h
  cases x with
  | none => exact ⟨i, rfl, Nat.le_refl i⟩
  | some j => exact ⟨max j i, rfl, Nat.le_max_right j i⟩

theorem Covers.seq (f : a.Covers c d) (g : b.Covers d e) : (a.seq b).Covers c e := by
  rcases g with ⟨sameG, j, hj, left⟩ | ⟨t, ht, left⟩
  · rcases f with ⟨sameF, i, hi, left'⟩ | ⟨t, ht, left'⟩
    · refine .inl ⟨sameG.trans sameF, i + j, ?_, by omega⟩
      simp_all [Cost.seq]
    · have sum : t + j ∈ a.tail.bind fun t => b.idle.map (t + ·) := by simp_all
      obtain ⟨u, hu, le⟩ := exists_merge_right (x := b.tail) sum
      exact .inr ⟨u, hu, by omega⟩
  · obtain ⟨u, hu, le⟩ := exists_merge_left (y := a.tail.bind fun t => b.idle.map (t + ·)) ht
    exact .inr ⟨u, hu, by omega⟩

/-- What is left after `a` is enough for `b` when the two together are within bounds. -/
theorem Covers.need_le (f : a.Covers c d) (start : (a.seq b).need ≤ c.looks)
    (bound : (a.seq b).peak ≤ lookLimit) : b.need ≤ d.looks := by
  simp only [Cost.seq] at start bound
  rcases f with ⟨-, i, hi, left⟩ | ⟨t, ht, left⟩
  · rw [Option.mem_def.1 hi, Option.elim_some] at start
    omega
  · rw [Option.mem_def.1 ht, Option.elim_some] at bound
    omega

theorem Covers.alt_left (f : a.Covers c d) : (a.alt b).Covers c d := by
  rcases f with ⟨same, i, hi, left⟩ | ⟨t, ht, left⟩
  · obtain ⟨j, hj, le⟩ := exists_merge_left (y := b.idle) hi
    exact .inl ⟨same, j, hj, by omega⟩
  · obtain ⟨u, hu, le⟩ := exists_merge_left (y := b.tail) ht
    exact .inr ⟨u, hu, by omega⟩

theorem Covers.alt_right (f : b.Covers c d) : (a.alt b).Covers c d := by
  rcases f with ⟨same, i, hi, left⟩ | ⟨t, ht, left⟩
  · obtain ⟨j, hj, le⟩ := exists_merge_right (x := a.idle) hi
    exact .inl ⟨same, j, hj, by omega⟩
  · obtain ⟨u, hu, le⟩ := exists_merge_right (x := a.tail) ht
    exact .inr ⟨u, hu, by omega⟩

/-- One more round in front of a loop. -/
theorem Covers.again (f : a.Covers c d) (read : c.passed < d.passed) (g : a.loop.Covers d e) :
    a.loop.Covers c e := by
  obtain ⟨t, ht, left⟩ := f.renewed read
  rcases g with ⟨-, i, hi, left'⟩ | done
  · have idle : a.idle = some i := hi
    have tail : a.tail = some t := ht
    exact .inr ⟨t + i, by simp [Cost.loop, idle, tail], by omega⟩
  · exact .inr done

/-- After a round that reads there is enough for the next one. -/
theorem Covers.need_again (f : a.Covers c d) (read : c.passed < d.passed)
    (bound : a.loop.peak ≤ lookLimit) : a.loop.need ≤ d.looks := by
  obtain ⟨t, ht, left⟩ := f.renewed read
  simp only [Cost.loop, Option.mem_def.1 ht, Option.elim_some] at bound ⊢
  omega

/-- The last round of a loop. -/
theorem Covers.done (f : a.Covers c d) : a.loop.Covers c d := by
  rcases f with idle | ⟨t, ht, left⟩
  · exact .inl idle
  · have tail : a.tail = some t := ht
    exact .inr ⟨t + a.idle.getD 0, by simp [Cost.loop, tail], by omega⟩

theorem Covers.weaken (f : a.Covers c d) (h : a.within b = true) : b.Covers c d := by
  simp only [within, Bool.and_eq_true, decide_eq_true_eq] at h
  obtain ⟨⟨⟨-, idle⟩, tail⟩, -⟩ := h
  rcases f with ⟨same, i, hi, left⟩ | ⟨t, ht, left⟩
  · rw [Option.mem_def.1 hi] at idle
    obtain ⟨j, hj, le⟩ : ∃ j, b.idle = some j ∧ i ≤ j := by simpa [Option.any_eq_true] using idle
    exact .inl ⟨same, j, hj, by omega⟩
  · rw [Option.mem_def.1 ht] at tail
    obtain ⟨u, hu, le⟩ : ∃ u, b.tail = some u ∧ t ≤ u := by simpa [Option.any_eq_true] using tail
    exact .inr ⟨u, hu, by omega⟩

end Cost

end ImplicitGlobals.Grammar
