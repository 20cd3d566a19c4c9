import ImplicitGlobals.Disk.Basic
import ImplicitGlobals.Proofs.Disk.Paths

/-!
# Places and what is there

Where a path leads can be read off its names, whatever is on the disk: a lookup that succeeds ends
there, and has found a directory at every place on the way.
-/

namespace ImplicitGlobals

namespace Disk

variable {d e : Disk} {place q : Location} {path : String}

/-! ### Entries -/

theorem lookup_filter_fst (keep : Location → Bool) (entries : List (Location × Entry)) (q : Location) :
    (entries.filter fun p => keep p.1).lookup q = if keep q then entries.lookup q else none := by
  induction entries with
  | nil => simp
  | cons p rest ih =>
    obtain ⟨k, e⟩ := p
    rw [List.filter_cons, List.lookup_cons]
    by_cases same : q = k
    · subst same
      by_cases kept : keep q = true
      · simp [kept]
      · rw [if_neg kept, if_neg kept, ih, if_neg kept]
    · have other : (q == k) = false := by simpa using same
      rw [other]
      split
      · rw [List.lookup_cons, other, ih]
      · rw [ih]

/-- The root is always a directory. -/
@[simp] theorem entry?_root (d : Disk) : d.entry? [] = some .directory := rfl

/-- What is put at a place is there, and nothing else changes. -/
theorem entry?_put (d : Disk) (e : Entry) (some : place ≠ []) (q : Location) :
    entry? (d.put place e) q = if q = place then Option.some e else d.entry? q := by
  by_cases root : q = []
  · simp [root, Ne.symm some]
  · have others := lookup_filter_fst (· != place) d.entries q
    rw [ entry?, entry?, if_neg root, if_neg root, put, List.lookup_append, others]
    by_cases at' : q = place
    · simp [at']
    · have other : (q == place) = false := by simpa using at'
      simp [at', List.lookup_cons, other]

/-- What is dropped is gone, and nothing else changes. -/
theorem entry?_drop (d : Disk) (some : place ≠ []) (q : Location) :
    entry? (d.drop place) q = if q = place then none else d.entry? q := by
  by_cases root : q = []
  · simp [root, Ne.symm some]
  · have others := lookup_filter_fst (· != place) d.entries q
    rw [ entry?, entry?, if_neg root, if_neg root, drop, others]
    by_cases at' : q = place <;> simp [at']

/-- Clearing takes everything below a place. -/
theorem entry?_clear (d : Disk) (place q : Location) :
    entry? (d.clear place) q = if place <+: q ∧ q ≠ place then none else d.entry? q := by
  by_cases root : q = []
  · rw [if_neg (fun below => below.2 (root.trans (List.prefix_nil.1 (root ▸ below.1)).symm)), root]
    rfl
  · have others := lookup_filter_fst (fun p => !(place.isPrefixOf p && p != place)) d.entries q
    rw [ entry?, entry?, if_neg root, if_neg root, clear, others]
    by_cases below : place <+: q ∧ q ≠ place
    · rw [if_neg (by simp [below]), if_pos below]
    · have kept : (!(place.isPrefixOf q && q != place)) = true := by
        rw [Bool.not_eq_true', ← Bool.not_eq_true]
        simpa using below
      rw [if_pos kept, if_neg below]

/-- Everything lies in a directory, and the working directory is one. -/
def Sound (d : Disk) : Prop :=
  (∀ e ∈ d.entries, d.entry? e.1.dropLast = some .directory) ∧ d.entry? d.home = some .directory

/-- Soundness of a disk can be computed: it speaks of its entries only. -/
instance (d : Disk) : Decidable d.Sound := inferInstanceAs (Decidable (_ ∧ _))

/-- On a sound disk what lies in something lies in a directory. -/
theorem Sound.parent (sound : d.Sound) {name : String} (found : (d.entry? (place ++ [name])).isSome) :
    d.entry? place = some .directory := by
  rw [ entry?, if_neg (by simp), List.lookup_isSome_iff] at found
  obtain ⟨p, mem, same⟩ := found
  have lies := sound.1 p mem
  rwa [← eq_of_beq same, List.dropLast_concat] at lies

/-- Below nothing there is nothing. -/
theorem Sound.below (sound : d.Sound) (none : d.entry? place = none) (more : List String) :
    d.entry? (place ++ more) = Option.none := by
  induction more using List.reverseRecOn with
  | nil => rwa [List.append_nil]
  | append_singleton more name ih =>
    by_contra found
    have lies := sound.parent (List.append_assoc place more [name] ▸ Option.isSome_iff_ne_none.2 found)
    exact nomatch ih.symm.trans lies

/-! ### Where paths lead -/

/-- Where a name leads from a place, whatever is there. -/
def follow (place : Location) (name : String) : Location :=
  if name = "." then place else if name = ".." then place.dropLast else place ++ [name]

/-- Where a path leads. -/
def placeOf (d : Disk) (path : String) : Location := (Path.names path).foldl follow (d.start path)

/-- The places a path comes by, its own one last. -/
def Along (d : Disk) (path : String) (place : Location) : Prop :=
  ∃ names, names <+: Path.names path ∧ place = names.foldl follow (d.start path)

/-- There is a directory wherever a path comes by. -/
def Way (d : Disk) (path : String) : Prop :=
  ∀ place, d.Along path place → d.entry? place = some .directory

theorem start_congr (same : e.home = d.home) (path : String) : e.start path = d.start path := by
  rw [start, start, same]

/-- Where a path leads depends on the working directory alone. -/
theorem placeOf_congr (same : e.home = d.home) (path : String) : e.placeOf path = d.placeOf path := by
  rw [placeOf, placeOf, start_congr same]

theorem along_congr (same : e.home = d.home) : e.Along path place ↔ d.Along path place := by
  rw [Along, Along, start_congr same]

/-- A path leads along its own place. -/
theorem along_placeOf (d : Disk) (path : String) : d.Along path (d.placeOf path) :=
  ⟨_, List.prefix_rfl, rfl⟩

/-- What lies along the parent of a path lies along the path. -/
theorem Along.of_parent? {above : String} (h : Path.parent? path = some above)
    (along : d.Along above place) : d.Along path place := by
  obtain ⟨first, absolute⟩ := Path.names_parent? h
  obtain ⟨names, some, rfl⟩ := along
  exact ⟨names, some.trans first, by rw [start, start, absolute]⟩

end Disk

/-! ### Paths that go down -/

namespace Path

/-- The names of a path that lead somewhere else. -/
def parts (path : String) : List String := (names path).filter (· ≠ ".")

end Path

namespace Disk

variable {d : Disk} {place : Location} {path directory : String}

/-- Without steps up, names are followed downwards. -/
theorem foldl_follow {names : List String} (down : ".." ∉ names) (place : Location) :
    names.foldl follow place = place ++ names.filter (· ≠ ".") := by
  induction names generalizing place with
  | nil => simp
  | cons name rest ih =>
    rw [List.mem_cons, not_or] at down
    rw [List.foldl_cons, ih down.2, List.filter_cons, follow]
    by_cases dot : name = "."
    · simp [dot]
    · simp [dot, Ne.symm down.1]

/-- A joined path leads to the place below its directory. -/
theorem placeOf_join (relative : Path.isAbsolute path = false) (down : ".." ∉ Path.names path) :
    d.placeOf (Path.join directory path) = d.placeOf directory ++ Path.parts path := by
  rw [placeOf, start, Path.isAbsolute_join relative, Path.names_join relative, List.foldl_append,
    foldl_follow down]
  rfl

/-- A name without slashes leads to a place in the directory, unless it is one of the dots. -/
theorem placeOf_join_of_plain (plain : '/' ∉ path.toList) (named : path ∉ ["", ".", ".."]) :
    d.placeOf (Path.join directory path) = d.placeOf directory ++ [path] := by
  simp only [List.mem_cons, List.not_mem_nil, or_false, not_or] at named
  obtain ⟨some, noDot, noDots⟩ := named
  have names := Path.names_of_plain plain some
  rw [placeOf_join (Path.isAbsolute_of_plain plain) (by simpa [names] using Ne.symm noDots), Path.parts, names]
  simp [noDot]

/-- On the way to a path that goes down from a directory lies what lies on the way to the directory,
and after that places below it. -/
theorem Along.of_join (relative : Path.isAbsolute path = false) (down : ".." ∉ Path.names path)
    (along : d.Along (Path.join directory path) place) :
    d.Along directory place ∨ ∃ q, q <+: Path.parts path ∧ place = d.placeOf directory ++ q := by
  obtain ⟨names, first, rfl⟩ := along
  rw [Path.names_join relative] at first
  have same : d.start (Path.join directory path) = d.start directory := by
    rw [start, start, Path.isAbsolute_join relative]
  rw [same]
  obtain ⟨left, whole⟩ := first
  rcases List.append_eq_append_iff.1 whole with ⟨rest, before, -⟩ | ⟨more, rfl, behind⟩
  · exact .inl ⟨names, ⟨rest, before.symm⟩, rfl⟩
  · replace behind : more <+: Path.names path := ⟨left, behind.symm⟩
    refine .inr ⟨more.filter (· ≠ "."), behind.filter _, ?_⟩
    rw [List.foldl_append, foldl_follow fun mem => down (behind.subset mem)]
    rfl

/-! ### Lookups -/

/-- A directory that is required is there. -/
theorem requireDirectory_eq_ok {u : Unit} (run : d.requireDirectory place = .ok u) :
    d.entry? place = some .directory := by
  unfold requireDirectory at run
  split at run
  · cases run
  · cases run
  · assumption

/-- It is not found only where there is nothing. -/
theorem requireDirectory_notFound (run : d.requireDirectory place = .error .notFound) :
    d.entry? place = none := by
  unfold requireDirectory at run
  split at run
  · assumption
  · cases run
  · cases run

theorem bind_eq_ok {α β : Type} {x : Except DiskFault α} {f : α → Except DiskFault β} {y : β}
    (run : (x >>= f) = .ok y) : ∃ a, x = .ok a ∧ f a = .ok y := by
  cases x with
  | error => cases run
  | ok a => exact ⟨a, rfl, run⟩

theorem bind_eq_error {α β : Type} {x : Except DiskFault α} {f : α → Except DiskFault β}
    {fault : DiskFault} (run : (x >>= f) = .error fault) :
    x = .error fault ∨ ∃ a, x = .ok a ∧ f a = .error fault := by
  cases x with
  | error e => exact .inl (congrArg Except.error (Except.error.inj run))
  | ok a => exact .inr ⟨a, rfl, run⟩

/-- A step leaves a directory and goes where the name leads. -/
theorem step_eq_ok {name : String} {next : Location} (run : d.step place name = .ok next) :
    d.entry? place = some .directory ∧ next = follow place name := by
  obtain ⟨_, required, run⟩ := bind_eq_ok run
  refine ⟨requireDirectory_eq_ok required, ?_⟩
  unfold follow
  split at run
  · next dot => rw [if_pos dot, Except.ok.inj run]
  · next noDot =>
    rw [if_neg noDot]
    split at run
    · next dots => rw [if_pos dots, Except.ok.inj run]
    · next noDots =>
      rw [if_neg noDots]
      split at run
      · cases run
      · split at run
        · rw [Except.ok.inj run]
        · cases run

/-- Names that are found lead through directories, whatever the last of them is. -/
theorem steps_eq_ok {names : List String} {found : Location}
    (run : names.foldlM d.step place = .ok found) :
    found = names.foldl follow place ∧
      ∀ first, first <+: names → first ≠ names →
        d.entry? (first.foldl follow place) = some .directory := by
  induction names generalizing place with
  | nil =>
    refine ⟨(Except.ok.inj run).symm, fun first before other => ?_⟩
    exact absurd (List.prefix_nil.1 before) other
  | cons name rest ih =>
    rw [List.foldlM_cons] at run
    obtain ⟨next, step, run⟩ := bind_eq_ok run
    obtain ⟨here, rfl⟩ := step_eq_ok step
    obtain ⟨ends, way⟩ := ih run
    refine ⟨ends, fun first before other => ?_⟩
    rcases List.prefix_cons_iff.1 before with rfl | ⟨more, rfl, behind⟩
    · exact here
    · exact way more behind fun same => other (same ▸ rfl)

/-- On the way to the last name of a path, or to the end of it, every place is a directory. -/
theorem way_of_steps (way : ∀ first, first <+: Path.names path → first ≠ Path.names path →
      d.entry? (first.foldl follow (d.start path)) = some .directory)
    (along : d.Along path place) :
    place = d.placeOf path ∨ d.entry? place = some .directory := by
  obtain ⟨first, before, rfl⟩ := along
  by_cases same : first = Path.names path
  · exact .inl (by rw [same, placeOf])
  · exact .inr (way first before same)

/-- Locating a path gives its place, over directories. -/
theorem locate_eq_ok {found : Location} (run : d.locate path = .ok found) :
    found = d.placeOf path ∧
      ∀ place, d.Along path place → place = d.placeOf path ∨ d.entry? place = some .directory := by
  obtain ⟨_, -, run⟩ := bind_eq_ok run
  obtain ⟨last, steps, run⟩ := bind_eq_ok run
  obtain ⟨rfl, way⟩ := steps_eq_ok steps
  refine ⟨?_, fun place => way_of_steps way⟩
  split at run
  · obtain ⟨_, -, run⟩ := bind_eq_ok run
    exact (Except.ok.inj run).symm
  · exact (Except.ok.inj run).symm

theorem way_of_isDirectory (found : d.isDirectory path = true) : d.Way path := by
  unfold isDirectory at found
  split at found
  · next run =>
    obtain ⟨rfl, way⟩ := locate_eq_ok run
    intro place along
    rcases way place along with rfl | here
    · exact eq_of_beq found
    · exact here
  · cases found

/-- The target of a path is its last name, below directories. -/
theorem target_eq_named {last : Location} {name : String}
    (run : d.target path = .ok (.named last name)) :
    last ++ [name] = d.placeOf path ∧
      ∀ place, d.Along path place → place = d.placeOf path ∨ d.entry? place = some .directory := by
  obtain ⟨_, -, run⟩ := bind_eq_ok run
  dsimp only at run
  split at run
  · cases run
  · next ends =>
    obtain ⟨init, names⟩ := List.getLast?_eq_some_iff.1 ends
    rw [names, List.dropLast_concat] at run
    obtain ⟨_, steps, run⟩ := bind_eq_ok run
    obtain ⟨_, required, run⟩ := bind_eq_ok run
    obtain ⟨rfl, way⟩ := steps_eq_ok steps
    split at run
    · cases run
    · next noDot =>
      split at run
      · cases run
      · next noDots =>
        split at run
        · cases run
        · cases run
          -- The last name is neither `.` nor `..`, so following it only appends it.
          have ends' : init.foldl follow (d.start path) ++ [name] = d.placeOf path := by
            rw [placeOf, names, List.foldl_append, List.foldl_cons, List.foldl_nil, follow,
              if_neg noDot, if_neg noDots]
          refine ⟨ends', fun place => way_of_steps fun first before other => ?_⟩
          rw [names] at before other
          by_cases same : first = init
          · rw [same]
            exact requireDirectory_eq_ok required
          · exact way first ((List.prefix_concat_iff.1 before).resolve_left other) same

/-! ### Lookups that find nothing -/

theorem step_notFound {name : String} (run : d.step place name = .error .notFound) :
    d.entry? place = none ∨ name ≠ "." ∧ name ≠ ".." ∧ d.entry? (place ++ [name]) = none := by
  rcases bind_eq_error run with required | ⟨_, -, run⟩
  · exact .inl (requireDirectory_notFound required)
  · split at run
    · cases run
    · next noDot =>
      split at run
      · cases run
      · next noDots =>
        split at run
        · cases run
        · split at run
          · cases run
          · next absent => exact .inr ⟨noDot, noDots, by simpa using absent⟩

/-- What is not found is not there. -/
theorem Sound.steps_notFound (sound : d.Sound) {names : List String} (down : ".." ∉ names)
    (run : names.foldlM d.step place = .error .notFound) :
    d.entry? (names.foldl follow place) = none := by
  induction names generalizing place with
  | nil => cases run
  | cons name rest ih =>
    rw [List.foldlM_cons] at run
    rcases bind_eq_error run with step | ⟨next, step, run⟩
    · rw [foldl_follow down]
      rcases step_notFound step with none | ⟨noDot, -, none⟩
      · exact sound.below none _
      · rw [List.filter_cons, if_pos (by simpa using noDot), List.append_cons]
        exact sound.below none _
    · obtain ⟨-, rfl⟩ := step_eq_ok step
      exact ih (fun mem => down (List.mem_cons_of_mem _ mem)) run

/-- Where a path without `..` finds nothing, there is nothing. -/
theorem Sound.locate_notFound (sound : d.Sound) (some : path ≠ "") (down : ".." ∉ Path.names path)
    (run : d.locate path = .error .notFound) : d.entry? (d.placeOf path) = none := by
  rcases bind_eq_error run with check | ⟨_, -, run⟩
  · unfold checkPath at check
    rw [if_neg some] at check
    grind
  · rcases bind_eq_error run with steps | ⟨found, steps, run⟩
    · exact sound.steps_notFound down steps
    · obtain ⟨rfl, -⟩ := steps_eq_ok steps
      split at run
      · rcases bind_eq_error run with required | ⟨_, -, run⟩
        · exact requireDirectory_notFound required
        · cases run
      · cases run

end Disk

end ImplicitGlobals
