import ImplicitGlobals.Proofs.Disk.Places

/-!
# What the operations leave

Making directories adds directories on the way to a path and changes nothing else. A file is put
where its path leads. Removing a tree leaves nothing in it, or had nothing to remove.
-/

namespace ImplicitGlobals.Disk

variable {d e f : Disk} {path : String} {P Q : Location → Prop}

/-! ### Making directories -/

/-- `e` is `d` with new directories, each at a place for which `P` holds. -/
structure Grown (P : Location → Prop) (d e : Disk) : Prop where
  home : e.home = d.home
  entry : ∀ q, e.entry? q = d.entry? q ∨
    P q ∧ d.entry? q = none ∧ e.entry? q = some .directory

namespace Grown

/-- Nothing was added. -/
theorem refl (d : Disk) : Grown P d d := ⟨rfl, fun _ => .inl rfl⟩

/-- What was added may be said less exactly. -/
theorem mono (grown : Grown P d e) (weaker : ∀ q, P q → Q q) : Grown Q d e :=
  ⟨grown.home, fun q => (grown.entry q).imp_right fun new => ⟨weaker q new.1, new.2⟩⟩

/-- What is added in two steps. -/
theorem trans (first : Grown P d e) (second : Grown P e f) : Grown P d f := by
  refine ⟨second.home.trans first.home, fun q => ?_⟩
  rcases second.entry q with same | ⟨new, none, made⟩
  · rw [same]
    exact first.entry q
  · refine .inr ⟨new, ?_, made⟩
    rcases first.entry q with same | ⟨-, -, before⟩
    · exact same ▸ none
    · exact nomatch none.symm.trans before

/-- Files are left alone. -/
theorem file_iff (grown : Grown P d e) (q : Location) (text : String) :
    e.entry? q = some (.file text) ↔ d.entry? q = some (.file text) := by
  rcases grown.entry q with same | ⟨-, none, made⟩
  · rw [same]
  · simp [none, made]

/-- A directory stays one. -/
theorem directory (grown : Grown P d e) {q : Location} (there : d.entry? q = some .directory) :
    e.entry? q = some .directory := by
  rcases grown.entry q with same | ⟨-, -, made⟩
  · rw [same, there]
  · exact made

end Grown

/-- A way that could be gone can still be gone. -/
theorem Way.grown (way : d.Way path) (grown : Grown P d e) : e.Way path :=
  fun place along => grown.directory (way place ((along_congr grown.home).1 along))

/-- Making one directory adds it, and then the way to it can be gone. -/
theorem makeDirectory_eq_ok (run : d.makeDirectory path = .ok e) :
    Grown (d.Along path) d e ∧ e.Way path := by
  obtain ⟨target, aim, run⟩ := bind_eq_ok run
  split at run
  · next last name =>
    obtain ⟨place, way⟩ := target_eq_named aim
    dsimp only at run
    rw [place] at run
    split at run
    · cases run
    · next absent =>
      obtain rfl := Except.ok.inj run
      have none : d.entry? (d.placeOf path) = Option.none := by simpa using absent
      have some : d.placeOf path ≠ [] := by simp [← place]
      refine ⟨⟨rfl, fun q => ?_⟩, fun q along => ?_⟩
      · rw [entry?_put d _ some]
        split
        · next here =>
          subst here
          exact .inr ⟨along_placeOf d path, none, rfl⟩
        · exact .inl rfl
      · rw [entry?_put d _ some]
        split
        · rfl
        · next elsewhere => exact (way q along).resolve_left elsewhere
  · cases run

/-- A directory that is there already is as good. -/
theorem ensureDirectory_eq_ok (run : d.ensureDirectory path = .ok e) :
    Grown (d.Along path) d e ∧ e.Way path := by
  unfold ensureDirectory at run
  split at run
  · next made =>
    obtain rfl := Except.ok.inj run
    exact makeDirectory_eq_ok made
  · split at run
    · next there =>
      obtain rfl := Except.ok.inj run
      exact ⟨.refl d, way_of_isDirectory there⟩
    · cases run

/-- Only directories on the way to the path are made, also when some cannot be. -/
theorem makeDirectoriesFrom_spec (fuel : Nat) (d : Disk) (path : String) :
    Grown (d.Along path) d (makeDirectoriesFrom fuel d path).2 ∧
      ((makeDirectoriesFrom fuel d path).1 = .ok () → 0 < fuel → path ≠ "" →
        (makeDirectoriesFrom fuel d path).2.Way path) := by
  induction fuel generalizing d path with
  | zero => exact ⟨.refl d, fun _ some => absurd some (Nat.lt_irrefl 0)⟩
  | succ fuel ih =>
    rw [makeDirectoriesFrom]
    split
    · next empty => exact ⟨.refl d, fun _ _ some => absurd empty some⟩
    · split
      · next e made =>
        obtain ⟨grown, way⟩ := ensureDirectory_eq_ok made
        exact ⟨grown, fun _ _ _ => way⟩
      · next above _ parent =>
        have grown := (ih d above).1.mono fun _ => Along.of_parent? parent
        split
        · next fault e run =>
          rw [run] at grown
          exact ⟨grown, nofun⟩
        · next e run =>
          rw [run] at grown
          split
          · next f made =>
            obtain ⟨again, way⟩ := ensureDirectory_eq_ok made
            exact ⟨grown.trans (again.mono fun _ => (along_congr grown.home).1), fun _ _ _ => way⟩
          · exact ⟨grown, nofun⟩
      · exact ⟨.refl d, nofun⟩

/-- Making the directories of a path adds only what is on the way, also where it fails. -/
theorem makeDirectories_grown (d : Disk) (path : String) :
    Grown (d.Along path) d (d.makeDirectories path).2 :=
  (makeDirectoriesFrom_spec _ d path).1

/-- When it succeeds, the way to the path can be gone. -/
theorem way_of_makeDirectories (some : path ≠ "") (run : d.makeDirectories path = (.ok (), e)) :
    e.Way path := by
  have way := (makeDirectoriesFrom_spec (path.length + 1) d path).2
  rw [show makeDirectoriesFrom _ d path = _ from run] at way
  exact way rfl (Nat.succ_pos _) some

/-! ### Writing a file -/

/-- A file is put where its path leads, which is not at a directory. -/
theorem writeText_eq_ok {text : String} (run : d.writeText path text = .ok e) :
    d.placeOf path ≠ [] ∧ d.entry? (d.placeOf path) ≠ some .directory ∧
      e = d.put (d.placeOf path) (.file text) := by
  obtain ⟨target, aim, run⟩ := bind_eq_ok run
  split at run
  · obtain ⟨place, -⟩ := target_eq_named aim
    dsimp only at run
    rw [place] at run
    split at run
    · cases run
    · next fits =>
      obtain rfl := Except.ok.inj run
      rw [Bool.or_eq_true, not_or] at fits
      exact ⟨by simp [← place], fun there => fits.2 (beq_iff_eq.2 there), rfl⟩
  · cases run

/-! ### Removing a tree -/

/-- `e` is `d` with nothing left in the directory `root`; what is left of the directory itself is
a directory, if anything is. -/
structure Emptied (root : Location) (d e : Disk) : Prop where
  home : e.home = d.home
  inside : ∀ q, q ≠ [] → e.entry? (root ++ q) = none
  itself : e.entry? root = none ∨ e.entry? root = some .directory
  outside : ∀ q, ¬ root <+: q → e.entry? q = d.entry? q

/-- A cleared directory holds nothing. -/
theorem clear_emptied {root : Location} (there : d.entry? root = some .directory) :
    Emptied root d (d.clear root) where
  home := rfl
  inside q some := by
    rw [entry?_clear, if_pos ⟨List.prefix_append _ _, by simpa using some⟩]
  itself := .inr (by rw [entry?_clear, if_neg fun below => below.2 rfl, there])
  outside q away := by rw [entry?_clear, if_neg fun below => away below.1]

/-- With the directory itself gone still nothing is left below it. -/
theorem Emptied.drop {root : Location} (emptied : Emptied root d e) (some : root ≠ []) :
    Emptied root d (e.drop root) where
  home := emptied.home
  inside q more := by
    rw [entry?_drop e some, if_neg (by simpa using more)]
    exact emptied.inside q more
  itself := .inl (by rw [entry?_drop e some, if_pos rfl])
  outside q away := by
    rw [entry?_drop e some, if_neg (by rintro rfl; exact away List.prefix_rfl)]
    exact emptied.outside q away

/-- Removing succeeds only below the root, and takes the whole place. -/
theorem removeDirectory_eq_ok (run : d.removeDirectory path = .ok e) :
    d.placeOf path ≠ [] ∧ e = d.drop (d.placeOf path) := by
  obtain ⟨target, aim, run⟩ := bind_eq_ok run
  split at run
  · cases run
  · cases run
  · cases run
  · obtain ⟨place, -⟩ := target_eq_named aim
    dsimp only at run
    rw [place] at run
    obtain ⟨_, -, run⟩ := bind_eq_ok run
    exact ⟨by simp [← place], (Except.ok.inj run).symm⟩

/-- A tree that is removed, or is not found because there is none, has nothing in it. -/
theorem removeTree_emptied (sound : d.Sound)
    (known : d.locate path = .error .notFound → d.entry? (d.placeOf path) = none)
    {result : Except DiskFault Unit} (run : d.removeTree path = (result, e))
    (fine : result = .ok () ∨ result = .error .notFound) : Emptied (d.placeOf path) d e := by
  -- Where nothing stands the removal has nothing to do.
  have absent (none : d.entry? (d.placeOf path) = none) : Emptied (d.placeOf path) d d :=
    ⟨rfl, fun q _ => sound.below none q, .inl none, fun _ _ => rfl⟩
  unfold removeTree at run
  split at run
  · next fault lookup =>
    obtain ⟨rfl, rfl⟩ := Prod.mk.inj run
    obtain rfl : fault = .notFound := by simpa using fine
    exact absent (known lookup)
  · next place lookup =>
    obtain ⟨rfl, -⟩ := locate_eq_ok lookup
    split at run
    · next fault required =>
      obtain ⟨rfl, rfl⟩ := Prod.mk.inj run
      obtain rfl : fault = .notFound := by simpa using fine
      exact absent (requireDirectory_notFound required)
    · next required =>
      have cleared := clear_emptied (requireDirectory_eq_ok required)
      dsimp only at run
      split at run
      · next f removed =>
        obtain ⟨some, rfl⟩ := removeDirectory_eq_ok removed
        obtain ⟨-, rfl⟩ := Prod.mk.inj run
        exact cleared.drop some
      · obtain ⟨-, rfl⟩ := Prod.mk.inj run
        exact cleared
      · next fault other _ =>
        obtain ⟨rfl, -⟩ := Prod.mk.inj run
        obtain rfl : fault = .notFound := by simpa using fine
        exact absurd rfl other

end ImplicitGlobals.Disk
