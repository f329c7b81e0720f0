/-
The rotation of log files.

A file is what stands under a path.  `rename` and opening for writing need the directory
of the path, and a name is split at its last dot, even when that stands in front of a `/`.
The backups are renamed one after the other, the last one first, with the number of the
last one computed as an unsigned difference.
-/
import Mathlib.Algebra.Group.Nat.Defs
import Mathlib.Data.List.Perm.Subperm
import Mathlib.Data.List.TakeWhile
import Mathlib.Logic.Function.Basic
import WWRaftKV.Logger.Formatter

namespace WWRaftKV

namespace Logger

/-! ## Files -/

/-- The path up to its last `/`. -/
def directoryOf (path : Text) : Text := (path.reverse.dropWhile (· ≠ '/')).reverse

/-- The regular files and the directories.  Every file is in a directory. -/
structure FileSystem where
  contents : Text → Option Text
  directories : Text → Bool
  placed : ∀ path, (contents path).isSome = true → directories (directoryOf path) = true

namespace FileSystem

variable {fs : FileSystem} {path src target : Text}

/-- `std::ifstream(path).good()`. -/
def good (fs : FileSystem) (path : Text) : Bool := (fs.contents path).isSome

/-- `std::remove`. -/
def remove (fs : FileSystem) (path : Text) : FileSystem where
  contents := Function.update fs.contents path none
  directories := fs.directories
  placed p hp := by
    by_cases hpath : p = path
    · rw [hpath, Function.update_self] at hp
      cases hp
    · rw [Function.update_of_ne hpath] at hp
      exact fs.placed p hp

/-- The file has these contents afterwards; nothing happens without the directory. -/
def write (fs : FileSystem) (path text : Text) : FileSystem where
  contents :=
    if fs.directories (directoryOf path) then Function.update fs.contents path (some text)
    else fs.contents
  directories := fs.directories
  placed p hp := by
    split at hp
    next hdir =>
      by_cases hpath : p = path
      · rw [hpath]
        exact hdir
      · rw [Function.update_of_ne hpath] at hp
        exact fs.placed p hp
    next => exact fs.placed p hp

/-- `std::rename`, which fails without the file or without the directory of the target. -/
def rename (fs : FileSystem) (src target : Text) : FileSystem :=
  match fs.contents src with
  | none => fs
  | some text =>
    if fs.directories (directoryOf target) then (fs.remove src).write target text else fs

@[simp] theorem write_directories {text : Text} :
    (fs.write path text).directories = fs.directories := rfl

@[simp] theorem rename_directories : (fs.rename src target).directories = fs.directories := by
  unfold rename
  split
  · rfl
  · split <;> rfl

theorem remove_self : (fs.remove path).contents path = none := Function.update_self ..

theorem remove_of_ne {p : Text} (h : p ≠ path) : (fs.remove path).contents p = fs.contents p :=
  Function.update_of_ne h ..

theorem write_self {text : Text} (h : fs.directories (directoryOf path) = true) :
    (fs.write path text).contents path = some text := by
  simp only [write, h, if_true, Function.update_self]

theorem write_of_ne {p text : Text} (h : p ≠ path) :
    (fs.write path text).contents p = fs.contents p := by
  unfold write
  dsimp only
  split
  · exact Function.update_of_ne h ..
  · rfl

theorem rename_of_none (h : fs.contents src = none) : fs.rename src target = fs := by
  unfold rename
  rw [h]

theorem rename_of_some {text : Text} (h : fs.contents src = some text)
    (hdir : fs.directories (directoryOf target) = true) :
    fs.rename src target = (fs.remove src).write target text := by
  unfold rename
  rw [h]
  exact if_pos hdir

/-- A file that is moved out of the way, when it is there. -/
theorem rename_spec (hne : src ≠ target) (htarget : fs.contents target = none)
    (hdir : fs.good src = true → fs.directories (directoryOf target) = true) :
    (fs.rename src target).contents target = fs.contents src ∧
      (fs.rename src target).contents src = none ∧
      ∀ p, p ≠ src → p ≠ target → (fs.rename src target).contents p = fs.contents p := by
  cases h : fs.contents src with
  | none =>
    rw [rename_of_none h]
    exact ⟨htarget, h, fun _ _ _ => rfl⟩
  | some text =>
    have hd : fs.directories (directoryOf target) = true := hdir (by rw [good, h]; rfl)
    rw [rename_of_some h hd]
    refine ⟨write_self hd, ?_, fun p hsrc htgt => ?_⟩
    · rw [write_of_ne hne, remove_self]
    · rw [write_of_ne htgt, remove_of_ne hsrc]

/-- The source looks whether the file is there before it renames it. -/
theorem rename_if_good : (if fs.good src then fs.rename src target else fs) =
    fs.rename src target := by
  split
  · rfl
  next hgood =>
    have hnone : fs.contents src = none := by
      rw [good, Bool.not_eq_true, Option.isSome_eq_false_iff, Option.isNone_iff_eq_none] at hgood
      exact hgood
    exact (rename_of_none hnone).symm

end FileSystem

/-! ## The sink -/

/-- The members that `rotate` uses.  `max_files` is a `std::size_t`. -/
structure RotateFileSink where
  filename : Text
  maxFiles : Nat
  isSize : maxFiles < 2 ^ 64

namespace RotateFileSink

/-- `filename.find_last_of('.')`, or the length of the name when there is none. -/
def dotPos (filename : Text) : Nat :=
  if '.' ∈ filename then filename.length - (filename.reverse.takeWhile (· ≠ '.')).length - 1
  else filename.length

/-- `name` and `suffix` after `splitFilename`. -/
def name (sink : RotateFileSink) : Text := sink.filename.take (dotPos sink.filename)

def suffix (sink : RotateFileSink) : Text := sink.filename.drop (dotPos sink.filename)

/-- `name + "-" + std::to_string(i) + suffix`. -/
def backup (sink : RotateFileSink) (i : Nat) : Text :=
  sink.name ++ ['-'] ++ Nat.toDigits 10 i ++ sink.suffix

/-- The loop of `rotate` from `i` down to 1, with the number of its rounds. -/
def rotateLoop (sink : RotateFileSink) : Nat → FileSystem × Nat → FileSystem × Nat
  | 0, out => out
  | i + 1, (fs, rounds) =>
    let src := sink.backup (i + 1)
    let fs :=
      if fs.good src then fs.rename src (sink.backup ((i + 1 + 1) % 2 ^ 64)) else fs
    rotateLoop sink i (fs, rounds + 1)

/-- `rotate` with the number that the loop starts with: the files and the rounds of the
loop.  When the new file cannot be opened it throws, with the files as they are then. -/
def rotateFrom (sink : RotateFileSink) (start : Nat) (fs : FileSystem) : FileSystem × Nat :=
  let oldest := sink.backup sink.maxFiles
  let fs := if fs.good oldest then fs.remove oldest else fs
  let out := sink.rotateLoop start (fs, 0)
  let fs :=
    if out.1.good sink.filename then out.1.rename sink.filename (sink.backup 1) else out.1
  (fs.write sink.filename [], out.2)

/-- `max_files - 1`, which is a `std::size_t`. -/
def loopStart (sink : RotateFileSink) : Nat := (sink.maxFiles + 2 ^ 64 - 1) % 2 ^ 64

def rotate (sink : RotateFileSink) (fs : FileSystem) : FileSystem × Nat :=
  sink.rotateFrom sink.loopStart fs

/-! ## Names -/

variable {sink : RotateFileSink} {fs : FileSystem} {i j m r : Nat}

theorem name_append_suffix (sink : RotateFileSink) : sink.name ++ sink.suffix = sink.filename :=
  List.take_append_drop _ _

theorem backup_injective (h : sink.backup i = sink.backup j) : i = j := by
  have hdigits : Nat.toDigits 10 i = Nat.toDigits 10 j :=
    List.append_cancel_left (List.append_cancel_right h)
  rw [← Nat.ofDigitChars_ten_toDigits (n := i), hdigits, Nat.ofDigitChars_ten_toDigits]

theorem backup_ne (h : i ≠ j) : sink.backup i ≠ sink.backup j := fun he => h (backup_injective he)

/-- A backup has a longer name than the file itself. -/
theorem filename_ne_backup (sink : RotateFileSink) (i : Nat) :
    sink.filename ≠ sink.backup i := by
  intro h
  have hlen := congrArg List.length h
  rw [← sink.name_append_suffix, backup] at hlen
  simp only [List.length_append, List.length_cons, List.length_nil] at hlen
  omega

/-! ## The loop -/

theorem rotateLoop_succ (sink : RotateFileSink) (i : Nat) (fs : FileSystem) (r : Nat) :
    sink.rotateLoop (i + 1) (fs, r) =
      sink.rotateLoop i
        (fs.rename (sink.backup (i + 1)) (sink.backup ((i + 1 + 1) % 2 ^ 64)), r + 1) := by
  rw [rotateLoop, FileSystem.rename_if_good]

theorem rotateLoop_rounds : (sink.rotateLoop m (fs, r)).2 = r + m := by
  induction m generalizing fs r with
  | zero => rfl
  | succ m ih =>
    rw [rotateLoop_succ, ih]
    omega

theorem rotateLoop_directories : (sink.rotateLoop m (fs, r)).1.directories = fs.directories := by
  induction m generalizing fs r with
  | zero => rfl
  | succ m ih => rw [rotateLoop_succ, ih, FileSystem.rename_directories]

/-- With the number above the last one free, every backup moves up by one. -/
theorem rotateLoop_spec (hm : m + 1 < 2 ^ 64) (hfree : fs.contents (sink.backup (m + 1)) = none)
    (hdir : ∀ i, 1 ≤ i → i ≤ m → fs.good (sink.backup i) = true →
      fs.directories (directoryOf (sink.backup (i + 1))) = true) :
    (∀ i, 1 ≤ i → i ≤ m → (sink.rotateLoop m (fs, r)).1.contents (sink.backup (i + 1)) =
        fs.contents (sink.backup i)) ∧
      (sink.rotateLoop m (fs, r)).1.contents (sink.backup 1) = none ∧
      ∀ path, (∀ i, 1 ≤ i → i ≤ m + 1 → path ≠ sink.backup i) →
        (sink.rotateLoop m (fs, r)).1.contents path = fs.contents path := by
  induction m generalizing fs r with
  | zero =>
    refine ⟨fun i hi hi' => by omega, hfree, fun path _ => rfl⟩
  | succ m ih =>
    have hmod : (m + 1 + 1) % 2 ^ 64 = m + 1 + 1 := Nat.mod_eq_of_lt hm
    obtain ⟨htarget, hsrc, hrest⟩ := FileSystem.rename_spec (backup_ne (by omega)) hfree
      (hdir (m + 1) (by omega) (by omega))
    rw [rotateLoop_succ, hmod]
    have hkeep : ∀ i, i ≤ m → (fs.rename (sink.backup (m + 1))
        (sink.backup (m + 1 + 1))).contents (sink.backup i) = fs.contents (sink.backup i) :=
      fun i hi => hrest _ (backup_ne (by omega)) (backup_ne (by omega))
    obtain ⟨hshift, hone, hothers⟩ := ih (r := r + 1) (by omega) hsrc fun i hi hi' hgood => by
      rw [FileSystem.good, hkeep i hi'] at hgood
      rw [FileSystem.rename_directories]
      exact hdir i hi (by omega) hgood
    refine ⟨fun i hi hi' => ?_, hone, fun path hpath => ?_⟩
    · by_cases him : i = m + 1
      · subst him
        rw [hothers _ fun k _ hk => backup_ne (by omega)]
        exact htarget
      · rw [hshift i hi (by omega), hkeep i (by omega)]
    · rw [hothers path fun k hk hk' => hpath k hk (by omega)]
      exact hrest path (hpath _ (by omega) (by omega)) (hpath _ (by omega) (by omega))

/-! ## The rotation -/

/-- What a rotation is for: the backups have moved up by one and the file has become the
first of them, over no more rounds than there are backups.  The last backup is replaced, or
gone with nothing in its place, and no more than `maxFiles` backups are there, apart from
those with a greater number that have been there before.  The file is empty, and all other
files are as before. -/
structure Rotated (sink : RotateFileSink) (fs : FileSystem) (out : FileSystem × Nat) : Prop where
  rounds : out.2 ≤ sink.maxFiles
  shifted : ∀ i, 1 ≤ i → i < sink.maxFiles →
    out.1.contents (sink.backup (i + 1)) = fs.contents (sink.backup i)
  first : 1 ≤ sink.maxFiles → out.1.contents (sink.backup 1) = fs.contents sink.filename
  atMost : ∀ n, (List.range' 1 n).countP (fun i => out.1.good (sink.backup i)) ≤
    sink.maxFiles +
      (List.range' 1 n).countP fun i => decide (sink.maxFiles < i) && fs.good (sink.backup i)
  current : out.1.contents sink.filename = some []
  others : ∀ path, path ≠ sink.filename →
    (∀ i, 1 ≤ i → i ≤ sink.maxFiles → path ≠ sink.backup i) →
    out.1.contents path = fs.contents path

/-- The directories that the files are moved into, and that of the new file. -/
structure HasDirectories (sink : RotateFileSink) (fs : FileSystem) : Prop where
  current : fs.directories (directoryOf sink.filename) = true
  backups : ∀ i, 1 ≤ i → i < sink.maxFiles → fs.good (sink.backup i) = true →
    fs.directories (directoryOf (sink.backup (i + 1))) = true
  first : fs.good sink.filename = true → fs.directories (directoryOf (sink.backup 1)) = true

theorem loopStart_of_pos (h : 0 < sink.maxFiles) : sink.loopStart = sink.maxFiles - 1 := by
  have hsize := sink.isSize
  unfold loopStart
  omega

/-- The difference wraps around when there is to be no backup. -/
theorem loopStart_of_zero (h : sink.maxFiles = 0) : sink.loopStart = 2 ^ 64 - 1 := by
  unfold loopStart
  omega

/-- The files without the last backup. -/
def dropOldest (sink : RotateFileSink) (fs : FileSystem) : FileSystem :=
  if fs.good (sink.backup sink.maxFiles) then fs.remove (sink.backup sink.maxFiles) else fs

theorem dropOldest_oldest : (sink.dropOldest fs).contents (sink.backup sink.maxFiles) = none := by
  unfold dropOldest
  split
  · exact FileSystem.remove_self
  next hgood => simpa [FileSystem.good] using hgood

theorem dropOldest_of_ne {path : Text} (h : path ≠ sink.backup sink.maxFiles) :
    (sink.dropOldest fs).contents path = fs.contents path := by
  unfold dropOldest
  split
  · exact FileSystem.remove_of_ne h
  · rfl

theorem dropOldest_directories : (sink.dropOldest fs).directories = fs.directories := by
  unfold dropOldest
  split <;> rfl

theorem rotateFrom_eq (sink : RotateFileSink) (m : Nat) (fs : FileSystem) :
    sink.rotateFrom m fs =
      (((sink.rotateLoop m (sink.dropOldest fs, 0)).1.rename sink.filename
        (sink.backup 1)).write sink.filename [],
        (sink.rotateLoop m (sink.dropOldest fs, 0)).2) := by
  unfold rotateFrom dropOldest
  dsimp only
  rw [FileSystem.rename_if_good]

theorem rotateFrom_directories : (sink.rotateFrom m fs).1.directories = fs.directories := by
  rw [rotateFrom_eq, FileSystem.write_directories, FileSystem.rename_directories,
    rotateLoop_directories, dropOldest_directories]

theorem rotateFrom_rounds : (sink.rotateFrom m fs).2 = m := by
  rw [rotateFrom_eq, rotateLoop_rounds, Nat.zero_add]

/-- Numbers that have `p` up to `k`, and beyond it only where they have `q`. -/
theorem countP_backups_le {p q : Nat → Bool} {k : Nat} (h : ∀ i, k < i → p i = true → q i = true)
    (n : Nat) : (List.range' 1 n).countP p ≤
      k + (List.range' 1 n).countP fun i => decide (k < i) && q i := by
  have hlow : ((List.range' 1 n).filter fun i => !decide (k < i)).length ≤ k := by
    have hsub : ∀ i ∈ (List.range' 1 n).filter fun i => !decide (k < i), i ∈ List.range' 1 k := by
      intro i hi
      simp only [List.mem_filter, List.mem_range'_1, Bool.not_eq_true', decide_eq_false_iff_not]
        at hi ⊢
      omega
    have hnodup : (List.range' 1 n).Nodup := List.nodup_range'
    have hle := ((hnodup.sublist List.filter_sublist).subperm hsub).length_le
    rwa [List.length_range'] at hle
  have hhigh : ((List.range' 1 n).filter fun i => decide (k < i)).countP p ≤
      (List.range' 1 n).countP fun i => decide (k < i) && q i := by
    rw [List.countP_filter]
    apply List.countP_mono_left
    intro i _ hi
    obtain ⟨hp, hk⟩ := Bool.and_eq_true_iff.mp hi
    rw [hk, h i (of_decide_eq_true hk) hp]
    rfl
  rw [List.countP_eq_countP_filter_add (List.range' 1 n) p fun i => decide (k < i)]
  have hrest := List.countP_le_length
    (p := p) (l := (List.range' 1 n).filter fun i => !decide (k < i))
  omega

theorem rotated_of_hasDirectories (hpos : 0 < sink.maxFiles) (h : sink.HasDirectories fs) :
    sink.Rotated fs (sink.rotateFrom (sink.maxFiles - 1) fs) := by
  have hsize := sink.isSize
  have hlast : sink.maxFiles - 1 + 1 = sink.maxFiles := by omega
  have hfree : (sink.dropOldest fs).contents (sink.backup (sink.maxFiles - 1 + 1)) = none := by
    rw [hlast]
    exact dropOldest_oldest
  have hkeep : ∀ i, i < sink.maxFiles →
      (sink.dropOldest fs).contents (sink.backup i) = fs.contents (sink.backup i) :=
    fun i hi => dropOldest_of_ne (backup_ne (by omega))
  obtain ⟨hshift, hone, hothers⟩ := rotateLoop_spec (r := 0) (by omega) hfree fun i hi hi' hg => by
    rw [FileSystem.good, hkeep i (by omega)] at hg
    rw [dropOldest_directories]
    exact h.backups i hi (by omega) hg
  have hfile := hothers sink.filename fun i _ _ => filename_ne_backup sink i
  rw [dropOldest_of_ne (filename_ne_backup sink _)] at hfile
  obtain ⟨hfirst, -, hrest⟩ := FileSystem.rename_spec (filename_ne_backup sink 1) hone fun hg => by
    rw [FileSystem.good, hfile] at hg
    rw [rotateLoop_directories, dropOldest_directories]
    exact h.first hg
  rw [rotateFrom_eq]
  constructor
  · rw [rotateLoop_rounds]
    omega
  · intro i hi hi'
    rw [FileSystem.write_of_ne (filename_ne_backup sink _).symm,
      hrest _ (filename_ne_backup sink _).symm (backup_ne (by omega)), hshift i hi (by omega),
      hkeep i hi']
  · intro _
    rw [FileSystem.write_of_ne (filename_ne_backup sink _).symm, hfirst, hfile]
  · intro n
    apply countP_backups_le
    intro i hi
    rw [FileSystem.good, FileSystem.write_of_ne (filename_ne_backup sink _).symm,
      hrest _ (filename_ne_backup sink _).symm (backup_ne (by omega)),
      hothers _ fun j _ hj => backup_ne (by omega), dropOldest_of_ne (backup_ne (by omega))]
    exact id
  · apply FileSystem.write_self
    rw [FileSystem.rename_directories, rotateLoop_directories, dropOldest_directories]
    exact h.current
  · intro path hpath hbackup
    rw [FileSystem.write_of_ne hpath, hrest path hpath (hbackup 1 (by omega) hpos),
      hothers path fun i hi hi' => hbackup i hi (by omega),
      dropOldest_of_ne (hbackup _ hpos (Nat.le_refl _))]

/-- A rotation does what it is for exactly when there is to be a backup and the files that
are there can be moved. -/
theorem rotated_iff (sink : RotateFileSink) (fs : FileSystem) :
    sink.Rotated fs (sink.rotate fs) ↔ 0 < sink.maxFiles ∧ sink.HasDirectories fs := by
  constructor
  · intro h
    have hplaced := (sink.rotate fs).1.placed
    rw [rotate, rotateFrom_directories, ← rotate] at hplaced
    have hpos : 0 < sink.maxFiles := by
      by_contra hzero
      have hrounds := h.rounds
      rw [rotate, rotateFrom_rounds, loopStart_of_zero (by omega)] at hrounds
      omega
    refine ⟨hpos, ?_, fun i hi hi' hgood => ?_, fun hgood => ?_⟩
    · apply hplaced
      rw [h.current]
      rfl
    · apply hplaced
      rw [h.shifted i hi hi']
      exact hgood
    · apply hplaced
      rw [h.first hpos]
      exact hgood
  · rintro ⟨hpos, hdirs⟩
    rw [rotate, loopStart_of_pos hpos]
    exact rotated_of_hasDirectories hpos hdirs

/-! ## Names without a directory behind the dot -/

/-- The directory of a path does not change with what stands behind its last `/`. -/
theorem directoryOf_append {dir base : Text} (h : '/' ∉ base) :
    directoryOf (dir ++ base) = directoryOf dir := by
  have hbase : base.reverse.dropWhile (· ≠ '/') = [] := by
    rw [List.dropWhile_eq_nil_iff]
    intro c hc
    have hne : c ≠ '/' := by
      rintro rfl
      exact h (List.mem_reverse.mp hc)
    simpa using hne
  unfold directoryOf
  rw [List.reverse_append, List.dropWhile_append, hbase]
  rfl

theorem slash_notMem_toDigits (i : Nat) : '/' ∉ Nat.toDigits 10 i := by
  intro h
  have hdigit := Nat.isDigit_of_mem_toDigits (by decide) (by decide) h
  exact absurd hdigit (by decide)

/-- A name with its last dot behind its last `/` keeps the backups in one directory. -/
theorem hasDirectories_of_suffix (hsuffix : '/' ∉ sink.suffix)
    (hdir : fs.directories (directoryOf sink.filename) = true) : sink.HasDirectories fs := by
  have hbackup : ∀ i, directoryOf (sink.backup i) = directoryOf sink.filename := by
    intro i
    have hbase : '/' ∉ ['-'] ++ (Nat.toDigits 10 i ++ sink.suffix) := by
      simp [slash_notMem_toDigits i, hsuffix]
    have hname : directoryOf (sink.name ++ sink.suffix) = directoryOf sink.name :=
      directoryOf_append hsuffix
    rw [name_append_suffix] at hname
    rw [backup, List.append_assoc, List.append_assoc, directoryOf_append hbase, hname]
  refine ⟨hdir, fun i _ _ _ => ?_, fun _ => ?_⟩
  · rw [hbackup]
    exact hdir
  · rw [hbackup]
    exact hdir

/-! ## No backups -/

/-- A sink without backups. -/
def noBackups : RotateFileSink where
  filename := "raft.log".toList
  maxFiles := 0
  isSize := by decide

/-- A directory with the file alone. -/
def oneFile : FileSystem where
  contents p := if p = "raft.log".toList then some ['x'] else none
  directories p := p = []
  placed p h := by
    split at h
    next hp =>
      rw [hp]
      rfl
    next => cases h

/-- The loop runs over nearly all numbers of a `std::size_t`. -/
theorem not_rotated_noBackups : ¬ noBackups.Rotated oneFile (noBackups.rotate oneFile) := by
  intro h
  have hrounds := h.rounds
  have hnone : noBackups.maxFiles = 0 := rfl
  rw [rotate, rotateFrom_rounds, loopStart_of_zero hnone, hnone] at hrounds
  omega

end RotateFileSink

end Logger

end WWRaftKV
