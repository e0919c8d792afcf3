import Mathlib.Tactic.SplitIfs
import Manuscript.Files.FileSystem
import Manuscript.Proofs.Except
import Manuscript.Proofs.Files.Path

/-!
# What stays in a file system

What a path leads to stays when entries are added, and a file that was not there before leaves no
trace once it is removed. Making directories therefore adds directories and changes nothing else,
and writing a file either does no more than that or puts the whole file in its place.
-/

namespace Manuscript.Files.FileSystem

variable {fs after : FileSystem} {place : Place} {path : String}

/-! ## Entries -/

theorem lookup_filter_ne (entries : List (Place × Entry)) {place other : Place}
    (h : other ≠ place) : (entries.filter (·.1 != place)).lookup other = entries.lookup other := by
  induction entries with
  | nil => rfl
  | cons e rest ih =>
    by_cases hPlace : e.1 = place
    · have hOther : (other == e.1) = false := beq_eq_false_iff_ne.mpr (hPlace ▸ h)
      rw [List.filter_cons_of_neg (by simp [hPlace]), ih, List.lookup_cons, hOther]
    · rw [List.filter_cons_of_pos (by simp [hPlace]), List.lookup_cons, List.lookup_cons, ih]

theorem at?_remove_of_ne (fs : FileSystem) {place other : Place} (h : other ≠ place) :
    (fs.remove place).at? other = fs.at? other := by
  rw [at?, at?, remove, lookup_filter_ne _ h]

theorem at?_put (fs : FileSystem) {place : Place} (hPlace : place ≠ []) (other : Place)
    (entry : Entry) :
    (fs.put place entry).at? other = if other = place then some entry else fs.at? other := by
  by_cases h : other = place
  · rw [if_pos h, h, at?, if_neg hPlace, put, List.lookup_cons_self]
  · have hOther : (other == place) = false := beq_eq_false_iff_ne.mpr h
    rw [if_neg h, at?, put, List.lookup_cons, hOther]
    exact at?_remove_of_ne fs h

theorem remove_put (fs : FileSystem) (place : Place) (entry : Entry) :
    (fs.put place entry).remove place = fs.remove place := by
  rw [put, remove, List.filter_cons_of_neg (by simp), remove, List.filter_filter]
  simp

theorem put_put (fs : FileSystem) (place : Place) (entry next : Entry) :
    (fs.put place entry).put place next = fs.put place next := by
  rw [put, remove_put]
  rfl

theorem remove_of_fresh (hPlace : place ≠ []) (h : fs.at? place = none) : fs.remove place = fs := by
  rw [at?, if_neg hPlace, List.lookup_eq_none_iff] at h
  have hAll : fs.entries.filter (·.1 != place) = fs.entries := by
    rw [List.filter_eq_self]
    intro e he
    have hOther : (place != e.1) = true := h e he
    simp at hOther ⊢
    exact Ne.symm hOther
  rw [remove, hAll]

theorem le_foldl_max (ns : List Nat) (start : Nat) :
    start ≤ ns.foldl max start ∧ ∀ n ∈ ns, n ≤ ns.foldl max start := by
  induction ns generalizing start with
  | nil => exact ⟨Nat.le_refl _, nofun⟩
  | cons m rest ih =>
    obtain ⟨hStart, hRest⟩ := ih (max start m)
    rw [List.foldl_cons]
    exact ⟨Nat.le_trans (Nat.le_max_left _ _) hStart, List.forall_mem_cons.mpr
      ⟨Nat.le_trans (Nat.le_max_right _ _) hStart, hRest⟩⟩

theorem unused_ne_nil (fs : FileSystem) (dir : Place) : fs.unused dir ≠ [] :=
  List.append_ne_nil_of_right_ne_nil _ (List.cons_ne_nil _ _)

/-- The name of an unused place is longer than all names that are used. -/
theorem at?_unused (fs : FileSystem) (dir : Place) : fs.at? (fs.unused dir) = none := by
  rw [at?, if_neg (unused_ne_nil fs dir), List.lookup_eq_none_iff]
  intro e he
  rw [bne_iff_ne, unused]
  intro hPlace
  have hName : _ ∈ fs.entries.flatMap Prod.fst :=
    List.mem_flatMap.mpr ⟨e, he, hPlace ▸ List.mem_append_right dir List.mem_cons_self⟩
  have hLength := (le_foldl_max ((fs.entries.flatMap Prod.fst).map String.length) 0).2 _
    (List.mem_map_of_mem hName)
  simp at hLength
  omega

/-! ## Ways -/

/-- Where the next piece of a path leads from a directory. -/
def advance (fs : FileSystem) (place : Place) (piece : String) : Except Cause Place :=
  if piece = "" ∨ piece = "." then .ok place
  else if piece = ".." then .ok place.dropLast
  else if maxName < piece.utf8ByteSize then .error .nameTooLong
  else if (fs.at? (place ++ [piece])).isNone then .error .notFound
  else .ok (place ++ [piece])

theorem checkDirectory_iff : fs.checkDirectory place = .ok () ↔ fs.at? place = some .directory := by
  rw [checkDirectory]
  split <;> simp_all

theorem walk_cons (fs : FileSystem) (place : Place) (piece : String) (rest : List String) :
    fs.walk place (piece :: rest) = fs.checkDirectory place >>= fun _ =>
      fs.advance place piece >>= fun next => fs.walk next rest := by
  rw [walk, advance]
  split_ifs <;> rfl

theorem walk_cons_iff {piece : String} {rest : List String} {last : Place} :
    fs.walk place (piece :: rest) = .ok last ↔ fs.at? place = some .directory ∧
      ∃ next, fs.advance place piece = .ok next ∧ fs.walk next rest = .ok last := by
  rw [← checkDirectory_iff, walk_cons, bind_eq_ok_iff]
  constructor
  · rintro ⟨⟨⟩, hDir, h⟩
    exact ⟨hDir, bind_eq_ok_iff.mp h⟩
  · rintro ⟨hDir, h⟩
    exact ⟨(), hDir, bind_eq_ok_iff.mpr h⟩

theorem walk_append_iff {ps qs : List String} {last : Place} :
    fs.walk place (ps ++ qs) = .ok last ↔
      ∃ middle, fs.walk place ps = .ok middle ∧ fs.walk middle qs = .ok last := by
  induction ps generalizing place with
  | nil =>
    refine ⟨fun h => ⟨place, rfl, h⟩, ?_⟩
    rintro ⟨_, hMiddle, h⟩
    obtain rfl := Except.ok.inj hMiddle
    exact h
  | cons piece rest ih =>
    rw [List.cons_append, walk_cons_iff]
    constructor
    · rintro ⟨hDir, next, hNext, h⟩
      obtain ⟨middle, hMiddle, h⟩ := ih.mp h
      exact ⟨middle, walk_cons_iff.mpr ⟨hDir, next, hNext, hMiddle⟩, h⟩
    · rintro ⟨middle, hMiddle, h⟩
      obtain ⟨hDir, next, hNext, hMiddle⟩ := walk_cons_iff.mp hMiddle
      exact ⟨hDir, next, hNext, ih.mpr ⟨middle, hMiddle, h⟩⟩

theorem walk_slashes (h : fs.at? place = some .directory) (n : Nat) :
    fs.walk place (List.replicate n "") = .ok place := by
  induction n with
  | zero => rfl
  | succ n ih => exact walk_cons_iff.mpr ⟨h, place, if_pos (.inl rfl), ih⟩

theorem find_iff : fs.find path = .ok place ↔
    checkPath path = .ok () ∧ fs.walk (fs.origin path) (pieces path) = .ok place := by
  rw [find, bind_eq_ok_iff]
  constructor
  · rintro ⟨⟨⟩, hCheck, h⟩
    exact ⟨hCheck, h⟩
  · rintro ⟨hCheck, h⟩
    exact ⟨(), hCheck, h⟩

theorem isDirectory_iff : fs.isDirectory path = true ↔
    ∃ place, fs.find path = .ok place ∧ fs.at? place = some .directory := by
  rw [isDirectory]
  cases fs.find path with
  | error cause =>
    refine ⟨nofun, ?_⟩
    rintro ⟨_, h, -⟩
    cases h
  | ok place =>
    refine ⟨fun h => ⟨place, rfl, beq_iff_eq.mp h⟩, ?_⟩
    rintro ⟨_, hPlace, h⟩
    obtain rfl := Except.ok.inj hPlace
    exact beq_iff_eq.mpr h

/-! ## Ways that stay -/

/-- All directories are still there. -/
def Stay (fs after : FileSystem) : Prop :=
  ∀ place, fs.at? place = some .directory → after.at? place = some .directory

theorem advance_stays {piece : String} {next : Place} (h : fs.advance place piece = .ok next)
    (hNext : (after.at? next).isSome) : after.advance place piece = .ok next := by
  rw [advance] at h ⊢
  split_ifs at h ⊢ with hSame hAbove hLong hNone hGone
  · exact h
  · exact h
  · obtain rfl := Except.ok.inj h
    rw [Option.isNone_iff_eq_none.mp hNone] at hNext
    cases hNext
  · exact h

theorem walk_stays {ps : List String} {last : Place} (hStay : Stay fs after)
    (h : fs.walk place ps = .ok last) (hLast : (after.at? last).isSome) :
    after.walk place ps = .ok last := by
  induction ps generalizing place with
  | nil => exact h
  | cons piece rest ih =>
    obtain ⟨hDir, next, hNext, hRest⟩ := walk_cons_iff.mp h
    have hSome : (after.at? next).isSome := by
      cases rest with
      | nil =>
        obtain rfl := Except.ok.inj hRest
        exact hLast
      | cons piece more =>
        rw [hStay next (walk_cons_iff.mp hRest).1]
        rfl
    exact walk_cons_iff.mpr ⟨hStay _ hDir, next, advance_stays hNext hSome, ih hRest⟩

theorem origin_congr (h : after.cwd = fs.cwd) (path : String) :
    after.origin path = fs.origin path := by
  rw [origin, origin, h]

theorem find_stays (hStay : Stay fs after) (hCwd : after.cwd = fs.cwd)
    (h : fs.find path = .ok place) (hPlace : (after.at? place).isSome) :
    after.find path = .ok place := by
  obtain ⟨hCheck, hWalk⟩ := find_iff.mp h
  rw [find_iff, origin_congr hCwd]
  exact ⟨hCheck, walk_stays hStay hWalk hPlace⟩

/-! ## New places -/

theorem lastName?_eq_some {ps : List String} {last : LastName} (h : lastName? ps = some last) :
    ∃ n, ps = last.before ++ last.name :: List.replicate n "" ∧ last.name ≠ "" ∧
      (last.slashed = false → n = 0) := by
  have hParts := List.takeWhile_append_dropWhile (p := (· == "")) (l := ps.reverse)
  have hName := List.head?_dropWhile_not (· == "") ps.reverse
  rw [lastName?] at h
  cases hDrop : ps.reverse.dropWhile (· == "") with
  | nil =>
    rw [hDrop] at h
    cases h
  | cons name before =>
    rw [hDrop] at h hParts hName
    obtain rfl := Option.some.inj h
    have hAll := List.all_takeWhile (p := (· == "")) (l := ps.reverse)
    generalize ps.reverse.takeWhile (· == "") = slashes at hParts hAll
    have hSlashes : slashes.reverse = List.replicate slashes.length "" := by
      rw [List.eq_replicate_iff, List.length_reverse]
      exact ⟨rfl, fun p hp => beq_iff_eq.mp (List.all_eq_true.mp hAll p (List.mem_reverse.mp hp))⟩
    refine ⟨slashes.length, ?_, by simpa using hName, by simp⟩
    calc
      ps = (slashes ++ name :: before).reverse := by rw [hParts, List.reverse_reverse]
      _ = before.reverse ++ name :: List.replicate slashes.length "" := by simp [hSlashes]

/-- A name that a new entry can have. -/
structure IsName (name : String) : Prop where
  nonempty : name ≠ ""
  ordinary : name ≠ "." ∧ name ≠ ".."
  short : name.utf8ByteSize ≤ maxName

theorem advance_name {name : String} (h : IsName name) (hSome : (fs.at? (place ++ [name])).isSome) :
    fs.advance place name = .ok (place ++ [name]) := by
  have hThere : ¬ (fs.at? (place ++ [name])).isNone = true := by
    rw [Option.isNone_iff_eq_none]
    exact Option.isSome_iff_ne_none.mp hSome
  rw [advance, if_neg (not_or.mpr ⟨h.nonempty, h.ordinary.1⟩), if_neg h.ordinary.2,
    if_neg (Nat.not_lt.mpr h.short), if_neg hThere]

theorem newPlace_eq_ok {dots : Cause} {last : LastName}
    (h : fs.newPlace path dots = .ok (place, last)) :
    ∃ dir n, pieces path = last.before ++ last.name :: List.replicate n "" ∧
      (last.slashed = false → n = 0) ∧ fs.walk (fs.origin path) last.before = .ok dir ∧
      fs.at? dir = some .directory ∧ place = dir ++ [last.name] ∧ IsName last.name := by
  rw [newPlace] at h
  cases hLast : lastName? (pieces path) with
  | none =>
    rw [hLast] at h
    cases h
  | some found =>
    rw [hLast] at h
    obtain ⟨n, hPieces, hName, hSlashed⟩ := lastName?_eq_some hLast
    obtain ⟨dir, hWalk, h⟩ := bind_eq_ok_iff.mp h
    obtain ⟨⟨⟩, hDir, h⟩ := bind_eq_ok_iff.mp h
    change (if _ then _ else _) = _ at h
    split_ifs at h with hDots hLong
    obtain ⟨rfl, rfl⟩ := Prod.mk.inj (Except.ok.inj h)
    exact ⟨dir, n, hPieces, hSlashed, hWalk, checkDirectory_iff.mp hDir, rfl, hName,
      not_or.mp hDots, Nat.not_lt.mp hLong⟩

/-- Once there is an entry at a new place, the path leads to it. -/
theorem find_newPlace {dots : Cause} {last : LastName} {entry : Entry} (hStay : Stay fs after)
    (hCwd : after.cwd = fs.cwd) (hCheck : checkPath path = .ok ())
    (hNew : fs.newPlace path dots = .ok (place, last)) (hEntry : after.at? place = some entry)
    (hSlashed : last.slashed = true → entry = .directory) : after.find path = .ok place := by
  obtain ⟨dir, n, hPieces, hNone, hWalk, hDir, rfl, hName⟩ := newPlace_eq_ok hNew
  have hThere : (after.at? (dir ++ [last.name])).isSome := by
    rw [hEntry]
    rfl
  have hSlashes : after.walk (dir ++ [last.name]) (List.replicate n "") =
      .ok (dir ++ [last.name]) := by
    cases hLast : last.slashed with
    | false =>
      rw [hNone hLast]
      rfl
    | true => exact walk_slashes (hEntry.trans (congrArg some (hSlashed hLast))) n
  have hAfter : after.at? dir = some .directory := hStay dir hDir
  rw [find_iff, origin_congr hCwd, hPieces, walk_append_iff]
  refine ⟨hCheck, dir, walk_stays hStay hWalk (hAfter ▸ rfl), ?_⟩
  exact walk_cons_iff.mpr ⟨hAfter, _, advance_name hName hThere, hSlashes⟩

/-! ## Directories -/

theorem stay_put (hPlace : place ≠ []) (hOther : fs.at? place ≠ some .directory) (entry : Entry) :
    Stay fs (fs.put place entry) := by
  intro other hDir
  rw [at?_put fs hPlace, if_neg, hDir]
  rintro rfl
  exact hOther hDir

theorem makeDirectory_eq_ok {made : FileSystem} (h : fs.makeDirectory path = .ok made) :
    ∃ place, place ≠ [] ∧ fs.at? place = none ∧ made = fs.put place .directory ∧
      made.find path = .ok place := by
  rw [makeDirectory] at h
  obtain ⟨⟨⟩, hCheck, h⟩ := bind_eq_ok_iff.mp h
  obtain ⟨⟨place, last⟩, hNew, h⟩ := bind_eq_ok_iff.mp h
  change (if (fs.at? place).isSome then _ else _) = _ at h
  have hNone : fs.at? place = none := by
    refine Option.not_isSome_iff_eq_none.mp fun hSome => ?_
    rw [if_pos hSome] at h
    cases h
  rw [hNone] at h
  obtain ⟨dir, n, -, -, -, -, hPlace, -⟩ := newPlace_eq_ok hNew
  have hRoot : place ≠ [] := hPlace ▸ List.append_ne_nil_of_right_ne_nil _ (List.cons_ne_nil _ _)
  cases hRefused : fs.refusals.directory place with
  | some cause =>
    simp only [hRefused] at h
    cases h
  | none =>
    simp only [hRefused] at h
    obtain rfl := Except.ok.inj h
    have hEntry : (fs.put place .directory).at? place = some .directory := by
      rw [at?_put fs hRoot, if_pos rfl]
    have hStay : Stay fs (fs.put place .directory) := stay_put hRoot (by simp [hNone]) _
    exact ⟨place, hRoot, hNone, rfl, find_newPlace hStay rfl hCheck hNew hEntry fun _ => rfl⟩

/-- A place holds what it held, or is a new directory that one of some paths leads to. -/
def Kept (before after : FileSystem) (dirs : List String) (place : Place) : Prop :=
  after.at? place = before.at? place ∨ before.at? place = none ∧
    after.at? place = some .directory ∧ ∃ dir ∈ dirs, after.find dir = .ok place

theorem Kept.file_iff {before : FileSystem} {dirs : List String}
    (h : Kept before after dirs place) (bytes : List UInt8) :
    after.at? place = some (.file bytes) ↔ before.at? place = some (.file bytes) := by
  obtain h | ⟨hBefore, hAfter, -⟩ := h
  · rw [h]
  · rw [hBefore, hAfter]
    exact ⟨nofun, nofun⟩

/-- Nothing is changed but for new directories that some paths lead to. -/
structure Opens (before after : FileSystem) (dirs : List String) : Prop where
  cwd : after.cwd = before.cwd
  kept : ∀ place, Kept before after dirs place

namespace Opens

variable {before middle : FileSystem} {dirs more : List String}

theorem same (fs : FileSystem) (dirs : List String) : Opens fs fs dirs :=
  ⟨rfl, fun _ => .inl rfl⟩

theorem mono (h : Opens before after dirs) (hSub : dirs ⊆ more) : Opens before after more := by
  refine ⟨h.cwd, fun place => (h.kept place).imp_right ?_⟩
  rintro ⟨hNone, hDir, dir, hMem, hFind⟩
  exact ⟨hNone, hDir, dir, hSub hMem, hFind⟩

/-- An entry that is put in its place changes nothing elsewhere. -/
theorem kept_put (h : Opens before middle dirs) (hPlace : place ≠ [])
    (hFile : middle.at? place ≠ some .directory) (entry : Entry) (other : Place)
    (hOther : other ≠ place) : Kept before (middle.put place entry) dirs other := by
  have hStay : Stay middle (middle.put place entry) := stay_put hPlace hFile entry
  rw [Kept, at?_put middle hPlace, if_neg hOther]
  refine (h.kept other).imp_right ?_
  rintro ⟨hBefore, hDir, dir, hMem, hFind⟩
  exact ⟨hBefore, hDir, dir, hMem, find_stays hStay rfl hFind (hStay other hDir ▸ rfl)⟩

theorem makeDirectory (h : Opens before middle dirs) (hPath : path ∈ dirs)
    (hMade : middle.makeDirectory path = .ok after) : Opens before after dirs := by
  obtain ⟨place, hPlace, hNone, rfl, hFind⟩ := makeDirectory_eq_ok hMade
  refine ⟨h.cwd, fun other => ?_⟩
  by_cases hOther : other = place
  · subst hOther
    rw [Kept, at?_put middle hPlace, if_pos rfl]
    obtain hKept | ⟨-, hDir, -⟩ := h.kept other
    · exact .inr ⟨hKept ▸ hNone, rfl, path, hPath, hFind⟩
    · rw [hNone] at hDir
      cases hDir
  · exact h.kept_put hPlace (by simp [hNone]) _ other hOther

end Opens

theorem opens_makeDirectories (fs : FileSystem) (dirs : List String) :
    Opens fs (fs.makeDirectories dirs).1 dirs := by
  fun_induction makeDirectories fs dirs with
  | case1 => exact .same _ _
  | case2 path above made hMade => exact Opens.makeDirectory (.same _ _) List.mem_cons_self hMade
  | case3 path above _ made cause hAbove ih =>
    rw [hAbove] at ih
    exact ih.mono (List.subset_cons_self _ _)
  | case4 path above _ made hAbove whole hMade ih =>
    rw [hAbove] at ih
    exact (ih.mono (List.subset_cons_self _ _)).makeDirectory List.mem_cons_self hMade
  | case5 path above _ made hAbove _ _ ih =>
    rw [hAbove] at ih
    exact ih.mono (List.subset_cons_self _ _)
  | case6 => exact .same _ _

theorem checkPath_iff : checkPath path = .ok () ↔
    '\x00' ∉ path.toList ∧ path ≠ "" ∧ path.utf8ByteSize < maxPath := by
  have hEmpty : path.isEmpty = true ↔ path = "" := String.isEmpty_iff
  rw [checkPath]
  split_ifs with hNul hNone hLong
  all_goals simp_all

/-- Whatever a path leads to, it leads there through all directories that it names. -/
theorem isDirectory_parents (h : fs.find path = .ok place) :
    ∀ dir ∈ parents path, fs.isDirectory dir = true := by
  intro dir hMem
  obtain ⟨hCheck, hWalk⟩ := find_iff.mp h
  rw [isDirectory_iff]
  obtain ⟨rfl, -⟩ | ⟨hName, rest, rfl⟩ := mem_parents hMem
  · refine ⟨[], find_iff.mpr ⟨rfl, ?_⟩, rfl⟩
    exact walk_slashes rfl 2
  · rw [pieces_slash, walk_append_iff] at hWalk
    obtain ⟨middle, hMiddle, hRest⟩ := hWalk
    obtain ⟨piece, more, hPieces⟩ := List.exists_cons_of_ne_nil (pieces_ne_nil rest)
    rw [hPieces] at hRest
    have hOrigin : fs.origin (dir ++ "/" ++ rest) = fs.origin dir := by
      have hHead : (dir ++ "/" ++ rest).toList.head? = dir.toList.head? := by
        cases hDir : dir.toList with
        | nil => exact absurd (String.toList_eq_nil_iff.mp hDir) hName
        | cons c cs => simp [hDir]
      rw [origin, isAbsolute, hHead]
      rfl
    rw [hOrigin] at hMiddle
    obtain ⟨hNul, -, hShort⟩ := checkPath_iff.mp hCheck
    have hDir : checkPath dir = .ok () := by
      refine checkPath_iff.mpr ⟨fun hMem => hNul ?_, hName, ?_⟩
      · simp [hMem]
      · rw [String.utf8ByteSize_append, String.utf8ByteSize_append] at hShort
        omega
    exact ⟨middle, find_iff.mpr ⟨hDir, hMiddle⟩, (walk_cons_iff.mp hRest).1⟩

theorem read_of_find {bytes : List UInt8} (h : fs.find path = .ok place)
    (hFile : fs.at? place = some (.file bytes)) : fs.read path = .ok bytes := by
  simp only [read, h, hFile, bind, Except.bind, pure, Except.pure]

/-! ## Writing -/

theorem target_eq_ok (h : fs.target path = .ok place) :
    place ≠ [] ∧ fs.at? place ≠ some .directory ∧ checkPath path = .ok () ∧
      ∃ last, fs.newPlace path .busy = .ok (place, last) ∧ last.slashed = false := by
  rw [target] at h
  change (if path.toList.contains '\x00' then _ else _) = _ at h
  split_ifs at h with hNul
  · cases h
  obtain ⟨⟨⟩, hCheck, h⟩ := bind_eq_ok_iff.mp h
  obtain ⟨⟨goal, last⟩, hNew, h⟩ := bind_eq_ok_iff.mp h
  change (if last.slashed = true then _ else _) = _ at h
  by_cases hSlashed : last.slashed = true
  · rw [if_pos hSlashed] at h
    cases h
  rw [if_neg hSlashed] at h
  change (if fs.at? goal = some .directory then _ else _) = _ at h
  by_cases hDir : fs.at? goal = some .directory
  · rw [if_pos hDir] at h
    cases h
  rw [if_neg hDir] at h
  obtain rfl := Except.ok.inj h
  obtain ⟨dir, n, -, -, -, -, rfl, -⟩ := newPlace_eq_ok hNew
  exact ⟨List.append_ne_nil_of_right_ne_nil _ (List.cons_ne_nil _ _), hDir, hCheck, last, hNew,
    Bool.eq_false_iff.mpr hSlashed⟩

theorem create_cases (fs : FileSystem) (place : Place) :
    (∃ cause, fs.create place = (fs, .error cause)) ∨
      fs.create place = (fs.put place (.file []), .ok ()) := by
  rw [create]
  cases fs.refusals.file place with
  | some cause => exact .inl ⟨cause, rfl⟩
  | none => exact .inr rfl

theorem fill_cases (fs : FileSystem) (place : Place) (bytes : List UInt8) :
    (∃ part cause, fs.fill place bytes = (fs.put place (.file part), .error cause)) ∨
      fs.fill place bytes = (fs.put place (.file bytes), .ok ()) := by
  rw [fill]
  cases fs.refusals.bytes place bytes with
  | some refusal => exact .inl ⟨_, refusal.2, rfl⟩
  | none => exact .inr rfl

theorem rename_cases {source : Place} {entry : Entry} (hEntry : fs.at? source = some entry)
    (path : String) : (∃ cause, fs.rename source path = (fs, .error cause)) ∨
      ∃ place, fs.target path = .ok place ∧
        fs.rename source path = ((fs.remove source).put place entry, .ok ()) := by
  rw [rename, hEntry]
  cases fs.target path with
  | error cause => exact .inl ⟨cause, rfl⟩
  | ok place =>
    dsimp only
    cases fs.refusals.rename source place with
    | some cause => exact .inl ⟨cause, rfl⟩
    | none => exact .inr ⟨place, rfl, rfl⟩

/-- A file that is replaced is replaced as a whole, and a failure leaves no trace. -/
theorem replace_cases {temporary : Place} (hPlace : temporary ≠ [])
    (hFresh : fs.at? temporary = none) (path : String) (bytes : List UInt8) :
    (∃ cause, fs.replace temporary path bytes = (fs, .error cause)) ∨
      ∃ place, (fs.put temporary (.file bytes)).target path = .ok place ∧
        fs.replace temporary path bytes = (fs.put place (.file bytes), .ok ()) := by
  have hGone : ∀ entry, (fs.put temporary entry).remove temporary = fs := by
    intro entry
    rw [remove_put, remove_of_fresh hPlace hFresh]
  rw [replace]
  obtain ⟨cause, hCreate⟩ | hCreate := fs.create_cases temporary
  · rw [hCreate]
    exact .inl ⟨cause, rfl⟩
  rw [hCreate]
  dsimp only
  obtain ⟨part, cause, hFill⟩ | hFill := (fs.put temporary (.file [])).fill_cases temporary bytes
  · rw [hFill, put_put]
    dsimp only
    rw [hGone]
    exact .inl ⟨cause, rfl⟩
  rw [hFill, put_put]
  dsimp only
  have hEntry : (fs.put temporary (.file bytes)).at? temporary = some (.file bytes) := by
    rw [at?_put fs hPlace, if_pos rfl]
  obtain ⟨cause, hRename⟩ | ⟨place, hTarget, hRename⟩ := rename_cases hEntry path
  · rw [hRename]
    dsimp only
    rw [hGone]
    exact .inl ⟨cause, rfl⟩
  · rw [hRename]
    dsimp only
    rw [hGone]
    exact .inr ⟨place, hTarget, rfl⟩

/-- Either only directories are made, or besides them the file is in its place with all bytes. -/
theorem write_cases (fs : FileSystem) (path : String) (bytes : List UInt8) :
    (∃ made cause, Opens fs made (parents path) ∧ fs.write path bytes = (made, .error cause)) ∨
      ∃ made place, Opens fs made (parents path) ∧ place ≠ [] ∧
        made.at? place ≠ some .directory ∧
        (made.put place (.file bytes)).find path = .ok place ∧
        fs.write path bytes = (made.put place (.file bytes), .ok ()) := by
  have hOpens := opens_makeDirectories fs (parents path)
  rw [write]
  cases hMade : fs.makeDirectories (parents path) with
  | mk made result =>
    rw [hMade] at hOpens
    cases result with
    | error cause => exact .inl ⟨made, cause, hOpens, rfl⟩
    | ok =>
      dsimp only
      cases made.directoryOf path with
      | error cause => exact .inl ⟨made, cause, hOpens, rfl⟩
      | ok dir =>
        dsimp only
        have hUnused := made.unused_ne_nil dir
        have hFresh := made.at?_unused dir
        obtain ⟨cause, hReplace⟩ | ⟨place, hTarget, hReplace⟩ :=
          replace_cases hUnused hFresh path bytes
        · exact .inl ⟨made, cause, hOpens, hReplace⟩
        obtain ⟨hPlace, hFile, hCheck, last, hNew, hSlashed⟩ := target_eq_ok hTarget
        have hStaged := made.at?_put hUnused
        have hOther : made.at? place ≠ some .directory := by
          rw [hStaged place] at hFile
          split_ifs at hFile with hSame
          · rw [hSame, hFresh]
            nofun
          · exact hFile
        have hStay : Stay (made.put (made.unused dir) (.file bytes))
            (made.put place (.file bytes)) := by
          intro other hDir
          rw [hStaged other] at hDir
          split_ifs at hDir with hSame
          · cases hDir
          · exact stay_put hPlace hOther _ other hDir
        have hEntry : (made.put place (.file bytes)).at? place = some (.file bytes) := by
          rw [at?_put made hPlace, if_pos rfl]
        exact .inr ⟨made, place, hOpens, hPlace, hOther,
          find_newPlace hStay rfl hCheck hNew hEntry (by simp [hSlashed]), hReplace⟩

end Manuscript.Files.FileSystem
