import KmreManager.FileInotifyService.Invariant
import Mathlib.Algebra.Order.BigOperators.Group.List
import Mathlib.Algebra.Order.Group.Nat
import Mathlib.Logic.Relation

/-! # A scan that nothing disturbs

While the other programs rest, the steps of the watcher thread make a scan that
comes to its end. By then the directories at and below its root that no name
with a dot hides are registered, and the files in them are listed. -/
namespace KmreManager.FileInotifyService
open KmreManager.Lib KmreManager.Lib.FileTree KmreManager.FileInotifyWatcher

/-- The watcher thread takes step after step, and no other program acts. -/
def Undisturbed (env : Env) : State → State → Prop :=
  Relation.ReflTransGen fun s s' => ∃ a, a.isService = true ∧ step env s a = some s'

/-- The watcher's tables fit the kernel's watches and the tree. -/
structure Orderly (s : State) : Prop where
  registry : Registry s.mWatcher
  sound : Sound s.tree s.mWatcher

/-- The directories that a scan of `path` registers. -/
def ScansDir (tree : FileSystem) (path p : HostPath) : Prop := tree.isDir p = true ∧ Visible path p

/-- The files of which it tells. -/
def ScansFile (env : Env) (shouldNotifyFile : Bool) (tree : FileSystem) (path p : HostPath) :
    Prop :=
  shouldNotifyFile = true ∧ tree.isFile p = true ∧ Visible path p ∧
    env.notifies (filePath p) = true

/-- The thread goes from `s` to `s'`, where `control` says what it does next. On
the way it has registered `dirs` and told of `files`. -/
structure Found (env : Env) (s s' : State) (control : Control) (dirs files : HostPath → Prop) :
    Prop where
  reached : Undisturbed env s s'
  control_eq : s'.control = control
  tree_eq : s'.tree = s.tree
  orderly : Orderly s'
  registered : ∀ p, s'.mWatcher.mPathToWdMap p ≠ none ↔ s.mWatcher.mPathToWdMap p ≠ none ∨ dirs p
  listed : ∀ f, (∃ info ∈ s'.mFileList, info.path = f) ↔
    (∃ info ∈ s.mFileList, info.path = f) ∨ ∃ p, files p ∧ filePath p = f

namespace Found
variable {env : Env} {s t u : State} {control control' : Control} {a : Action}
  {dirs dirs' files files' : HostPath → Prop}

theorem trans (h : Found env s t control dirs files) (h' : Found env t u control' dirs' files') :
    Found env s u control' (fun p => dirs p ∨ dirs' p) (fun p => files p ∨ files' p) where
  reached := h.reached.trans h'.reached
  control_eq := h'.control_eq
  tree_eq := h'.tree_eq.trans h.tree_eq
  orderly := h'.orderly
  registered p := by rw [h'.registered, h.registered, or_assoc]
  listed f := by
    rw [h'.listed, h.listed, or_assoc]
    simp only [or_and_right, exists_or]

theorem congr (h : Found env s t control dirs files) (hdirs : ∀ p, dirs p ↔ dirs' p)
    (hfiles : ∀ p, files p ↔ files' p) : Found env s t control dirs' files' := by
  obtain rfl : dirs = dirs' := funext fun p => propext (hdirs p)
  obtain rfl : files = files' := funext fun p => propext (hfiles p)
  exact h

/-- A step after which the thread is somewhere else, and no more. -/
theorem move (hs : Orderly s) (ha : a.isService = true)
    (h : step env s a = some { s with control }) :
    Found env s { s with control } control (fun _ => False) (fun _ => False) where
  reached := .single ⟨a, ha, h⟩
  control_eq := rfl
  tree_eq := rfl
  orderly := ⟨hs.registry, hs.sound⟩
  registered p := by simp
  listed f := by simp

/-- What a move leads to. -/
theorem after_move (hs : Orderly s) (ha : a.isService = true)
    (h : step env s a = some { s with control })
    (hrest : ∃ t, Found env { s with control } t control' dirs files) :
    ∃ t, Found env s t control' dirs files := by
  obtain ⟨t, ht⟩ := hrest
  exact ⟨t, ((move hs ha h).trans ht).congr (by simp) (by simp)⟩

end Found

section Entries
variable {env : Env} {shouldNotifyFile : Bool} {tree : FileSystem} {path p : HostPath}

theorem visible_iff : Visible path p ↔
    p = path ∨ ∃ name, Shown name ∧ Visible (name :: path) p :=
  exists_below_iff

theorem Visible.suffix (h : Visible path p) : path <:+ p := by
  obtain ⟨rel, rfl, -⟩ := h
  exact List.suffix_append rel path

theorem Visible.refl (path : HostPath) : Visible path path := ⟨[], rfl, by simp⟩

/-- There is nothing below what is no directory. -/
theorem Visible.eq_of_not_isDir (h : Visible path p) (hp : tree.node p ≠ none)
    (hpath : ¬ tree.isDir path = true) : p = path := by
  by_contra hne
  exact hpath (Tree.isDir_of_suffix hp h.suffix fun heq => hne heq.symm)

theorem ScansDir.isDir (h : ScansDir tree path p) : tree.isDir path = true := by
  by_contra hpath
  have heq := h.2.eq_of_not_isDir (Tree.isDir_ne_none h.1) hpath
  exact hpath (heq ▸ h.1)

theorem scansFile_iff (hpath : ¬ tree.isDir path = true) :
    ScansFile env shouldNotifyFile tree path p ↔ (tree.isFile path && shouldNotifyFile) = true ∧
      env.notifies (filePath path) = true ∧ p = path := by
  constructor
  · rintro ⟨hflag, hfile, hvisible, hnotifies⟩
    obtain rfl := hvisible.eq_of_not_isDir (Tree.isFile_ne_none hfile) hpath
    exact ⟨by simp [hfile, hflag], hnotifies, rfl⟩
  · rintro ⟨hfile, hnotifies, rfl⟩
    obtain ⟨hfile, hflag⟩ := Bool.and_eq_true_iff.mp hfile
    exact ⟨hflag, hfile, .refl p, hnotifies⟩

theorem scansDir_iff (hpath : tree.isDir path = true) : ScansDir tree path p ↔
    p = path ∨ ∃ name ∈ tree.children path, Shown name ∧ ScansDir tree (name :: path) p := by
  constructor
  · rintro ⟨hp, hvisible⟩
    rcases visible_iff.mp hvisible with rfl | ⟨name, hname, hbelow⟩
    · exact .inl rfl
    · have hnode := node_of_below (s := ⟨tree, .constructed ⟨[], []⟩, [], .idle⟩)
        (Tree.isDir_ne_none hp) hbelow.suffix
      exact .inr ⟨name, Tree.mem_children.mpr hnode, hname, hp, hbelow⟩
  · rintro (rfl | ⟨name, -, hname, hp, hbelow⟩)
    · exact ⟨hpath, .refl p⟩
    · exact ⟨hp, visible_iff.mpr (.inr ⟨name, hname, hbelow⟩)⟩

theorem scansFile_iff_of_isDir (hpath : tree.isDir path = true) :
    ScansFile env shouldNotifyFile tree path p ↔ ∃ name ∈ tree.children path,
      Shown name ∧ ScansFile env shouldNotifyFile tree (name :: path) p := by
  constructor
  · rintro ⟨hflag, hp, hvisible, hnotifies⟩
    rcases visible_iff.mp hvisible with rfl | ⟨name, hname, hbelow⟩
    · exact absurd hp (Tree.not_isFile_of_isDir hpath)
    · have hnode := node_of_below (s := ⟨tree, .constructed ⟨[], []⟩, [], .idle⟩)
        (Tree.isFile_ne_none hp) hbelow.suffix
      exact ⟨name, Tree.mem_children.mpr hnode, hname, hflag, hp, hbelow, hnotifies⟩
  · rintro ⟨name, -, hname, hflag, hp, hbelow, hnotifies⟩
    exact ⟨hflag, hp, visible_iff.mpr (.inr ⟨name, hname, hbelow⟩), hnotifies⟩

end Entries

/-! ## The points of a scan -/

/-- The scan of the directory `name` of `path` comes back to the loop that calls
it, where the names `rest` are left. -/
def ComesBack (env : Env) (shouldNotifyFile : Bool) (tree : FileSystem) (path : HostPath)
    (outer : List Reading) (name : QString) (rest : List QString) : Prop :=
  ∀ s, Orderly s → s.tree = tree →
    s.control = .scan shouldNotifyFile (name :: path) .realpath (⟨path, rest⟩ :: outer) →
    tree.isDir (name :: path) = true →
    ∃ s', Found env s s' (.scan shouldNotifyFile path (.readdir rest) outer)
      (ScansDir tree (name :: path)) (ScansFile env shouldNotifyFile tree (name :: path))

section Points
variable {env : Env} {s : State} {shouldNotifyFile : Bool} {path : HostPath} {name : QString}
  {outer : List Reading} {pending rest : List QString}

theorem found_addNotifyFile (hs : Orderly s) {control : Control} (p : HostPath)
    (h : step env s .serve = some (addNotifyFile env { s with control } (filePath p))) :
    Found env s (addNotifyFile env { s with control } (filePath p)) control (fun _ => False)
      (fun q => env.notifies (filePath p) = true ∧ q = p) where
  reached := .single ⟨.serve, rfl, h⟩
  control_eq := addNotifyFile_control _
  tree_eq := addNotifyFile_tree _
  orderly := by
    refine ⟨?_, ?_⟩
    · rw [addNotifyFile_mWatcher]
      exact hs.registry
    · rw [addNotifyFile_mWatcher, addNotifyFile_tree]
      exact hs.sound
  registered q := by
    rw [addNotifyFile_mWatcher]
    simp
  listed f := by
    unfold addNotifyFile
    split
    · rename_i hnotifies
      simp [or_and_right, exists_or, hnotifies]
    · rename_i hnotifies
      simp [hnotifies]

/-- `addWatchLocked` registers its directory. -/
theorem found_addWatch (env : Env) (hs : Orderly s)
    (hc : s.control = .scan shouldNotifyFile path .addWatch outer)
    (hdir : s.tree.isDir path = true) :
    ∃ s', Found env s s' (.scan shouldNotifyFile path .opendir outer) (fun p => p = path)
      (fun _ => False) := by
  obtain ⟨wd, hpos, hlt⟩ := exists_fresh s.mWatcher.kernel.watches
  have hunused : ∀ i, (wd, i) ∉ s.mWatcher.kernel.watches :=
    fun i hmem => Int.lt_irrefl wd (hlt _ hmem)
  have hall : s.mWatcher.kernel.watches.all (fun watch => watch.1 ≠ wd) = true := by
    rw [List.all_eq_true]
    rintro ⟨k, i⟩ hmem
    exact decide_eq_true fun heq => hunused i (heq ▸ hmem)
  generalize hcall : s.mWatcher.addWatch (inotify s.tree wd) path watchMask = result
  obtain ⟨w, ret⟩ := result
  obtain ⟨htended, hregisters⟩ := Tended.addWatch hs.registry hs.sound hpos hunused hcall
  refine ⟨{ s with mWatcher := w, control := .scan shouldNotifyFile path .opendir outer }, ?_, rfl,
    rfl, ⟨htended.registry, htended.sound⟩, fun p => ?_, fun f => by simp⟩
  · refine .single ⟨.addWatch wd, rfl, ?_⟩
    dsimp only [step]
    rw [hc]
    dsimp only
    rw [if_pos ⟨hpos, hall⟩, hcall]
  · by_cases hp : p = path
    · have hpath := hregisters (Tree.isDir_ne_none hdir)
      rw [hp]
      exact ⟨fun _ => .inr rfl, fun _ => hpath⟩
    · rw [Watcher.addWatch_other hcall hp]
      simp [hp]

/-- The last test of an entry. -/
theorem found_isPathDir (hs : Orderly s)
    (hc : s.control = .scan shouldNotifyFile path (.isPathDir rest name) outer)
    (hfile : ¬ (s.tree.isFile (name :: path) && shouldNotifyFile) = true)
    (scan : ComesBack env shouldNotifyFile s.tree path outer name rest) :
    ∃ s', Found env s s' (.scan shouldNotifyFile path (.readdir rest) outer)
      (ScansDir s.tree (name :: path)) (ScansFile env shouldNotifyFile s.tree (name :: path)) := by
  by_cases hdir : s.tree.isDir (name :: path) = true
  · have hserve : step env s .serve = some { s with
        control := .scan shouldNotifyFile (name :: path) .realpath (⟨path, rest⟩ :: outer) } := by
      simp only [step, serve, hc, scanStep]
      rw [if_pos hdir]
    exact Found.after_move hs rfl hserve (scan _ ⟨hs.registry, hs.sound⟩ rfl rfl hdir)
  · have hserve : step env s .serve = some { s with
        control := .scan shouldNotifyFile path (.readdir rest) outer } := by
      simp only [step, serve, hc, scanStep]
      rw [if_neg hdir]
    refine ⟨_, (Found.move hs rfl hserve).congr (fun p => ?_) fun p => ?_⟩
    · exact ⟨False.elim, fun h => hdir h.isDir⟩
    · exact ⟨False.elim, fun h => hfile ((scansFile_iff hdir).mp h).1⟩

/-- What becomes of an entry that is not hidden. -/
theorem found_entry (hs : Orderly s)
    (hc : s.control = .scan shouldNotifyFile path (.isPathRegularFile rest name) outer)
    (scan : ComesBack env shouldNotifyFile s.tree path outer name rest) :
    ∃ s', Found env s s' (.scan shouldNotifyFile path (.readdir rest) outer)
      (ScansDir s.tree (name :: path)) (ScansFile env shouldNotifyFile s.tree (name :: path)) := by
  by_cases hfile : (s.tree.isFile (name :: path) && shouldNotifyFile) = true
  · have hnot : ¬ s.tree.isDir (name :: path) = true := fun hdir =>
      Tree.not_isFile_of_isDir hdir (Bool.and_eq_true_iff.mp hfile).1
    have hserve : step env s .serve = some (addNotifyFile env { s with
        control := .scan shouldNotifyFile path (.readdir rest) outer }
          (filePath (name :: path))) := by
      simp only [step, serve, hc, scanStep]
      exact if_pos hfile
    refine ⟨_, (found_addNotifyFile hs (name :: path) hserve).congr (fun p => ?_) fun p => ?_⟩
    · exact ⟨False.elim, fun h => hnot h.isDir⟩
    · rw [scansFile_iff hnot, and_iff_right hfile]
  · have hserve : step env s .serve = some { s with
        control := .scan shouldNotifyFile path (.isPathDir rest name) outer } := by
      simp only [step, serve, hc, scanStep]
      exact if_neg hfile
    exact Found.after_move hs rfl hserve (found_isPathDir ⟨hs.registry, hs.sound⟩ rfl hfile scan)

theorem found_end (env : Env) (hs : Orderly s)
    (hc : s.control = .scan shouldNotifyFile path (.readdir []) outer) :
    ∃ s', Found env s s' (leave shouldNotifyFile outer) (fun _ => False) (fun _ => False) := by
  have hend : step env s (.readdir none) =
      some { s with control := leave shouldNotifyFile outer } := by
    simp only [step, hc]
  exact ⟨_, .move hs rfl hend⟩

/-- `readdir` returns `name`, which may be hidden. -/
theorem found_name (hs : Orderly s)
    (hc : s.control = .scan shouldNotifyFile path (.readdir (name :: pending)) outer)
    (hrest : (name :: pending).filter (fun n => n ≠ name) = rest)
    (scan : ComesBack env shouldNotifyFile s.tree path outer name rest) :
    ∃ s', Found env s s' (.scan shouldNotifyFile path (.readdir rest) outer)
      (fun p => Shown name ∧ ScansDir s.tree (name :: path) p)
      (fun p => Shown name ∧ ScansFile env shouldNotifyFile s.tree (name :: path) p) := by
  by_cases hhidden : name = [] ∨ name.head? = some '.'
  · have hskip : step env s (.readdir (some name)) =
        some { s with control := .scan shouldNotifyFile path (.readdir rest) outer } := by
      simp only [step, hc, hrest]
      rw [if_pos hhidden]
    have hnot : ¬ Shown name := fun hshown => hhidden.elim hshown.1 hshown.2
    exact ⟨_, (Found.move hs rfl hskip).congr (by simp [hnot]) (by simp [hnot])⟩
  · have hlook : step env s (.readdir (some name)) = some { s with
        control := .scan shouldNotifyFile path (.isPathRegularFile rest name) outer } := by
      simp only [step, hc, hrest]
      rw [if_neg hhidden]
    obtain ⟨t, ht⟩ := Found.after_move hs rfl hlook
      (found_entry ⟨hs.registry, hs.sound⟩ rfl scan)
    have hshown : Shown name := not_or.mp hhidden
    exact ⟨t, ht.congr (by simp [hshown]) (by simp [hshown])⟩

/-- The names that are left: the next one, and those that stay after it. -/
theorem exists_pending {P : QString → Prop} : (∃ n ∈ name :: pending, P n) ↔
    P name ∨ ∃ n ∈ (name :: pending).filter (fun n => n ≠ name), P n := by
  constructor
  · rintro ⟨n, hn, hP⟩
    by_cases heq : n = name
    · exact .inl (heq ▸ hP)
    · exact .inr ⟨n, List.mem_filter.mpr ⟨hn, decide_eq_true heq⟩, hP⟩
  · rintro (hP | ⟨n, hn, hP⟩)
    · exact ⟨name, List.mem_cons_self, hP⟩
    · exact ⟨n, List.mem_of_mem_filter hn, hP⟩

/-- The loop over the names that are left, by their number. -/
theorem found_readdir {tree : FileSystem}
    (scan : ∀ name rest, ComesBack env shouldNotifyFile tree path outer name rest)
    (count : Nat) (hcount : pending.length ≤ count) (hs : Orderly s) (htree : s.tree = tree)
    (hc : s.control = .scan shouldNotifyFile path (.readdir pending) outer) :
    ∃ s', Found env s s' (leave shouldNotifyFile outer)
      (fun p => ∃ name ∈ pending, Shown name ∧ ScansDir tree (name :: path) p)
      (fun p => ∃ name ∈ pending, Shown name ∧
        ScansFile env shouldNotifyFile tree (name :: path) p) := by
  induction count generalizing pending s with
  | zero =>
    obtain rfl := List.length_eq_zero_iff.mp (Nat.le_zero.mp hcount)
    obtain ⟨s', hs'⟩ := found_end env hs hc
    exact ⟨s', hs'.congr (by simp) (by simp)⟩
  | succ count ih =>
    cases pending with
    | nil =>
      obtain ⟨s', hs'⟩ := found_end env hs hc
      exact ⟨s', hs'.congr (by simp) (by simp)⟩
    | cons name pending =>
      have hlen : ((name :: pending).filter fun n => n ≠ name).length ≤ count := by
        have hrest : (name :: pending).filter (fun n => n ≠ name) =
            pending.filter fun n => n ≠ name := List.filter_cons_of_neg (by simp)
        rw [hrest]
        exact (List.length_filter_le _ _).trans (Nat.le_of_succ_le_succ hcount)
      subst htree
      obtain ⟨t, ht⟩ := found_name hs hc rfl (scan name _)
      obtain ⟨s', hs'⟩ := ih hlen ht.orderly ht.tree_eq ht.control_eq
      refine ⟨s', (ht.trans hs').congr (fun p => ?_) fun p => ?_⟩
      · exact (exists_pending (P := fun n => Shown n ∧ ScansDir s.tree (n :: path) p)).symm
      · exact (exists_pending (P := fun n =>
          Shown n ∧ ScansFile env shouldNotifyFile s.tree (n :: path) p)).symm

end Points

/-! ## The whole scan -/

section Scan
variable {env : Env} {s : State} {shouldNotifyFile : Bool} {path : HostPath}
  {outer : List Reading}

/-- A call of `watchAndNotifyDirectoryRecursivelyLocked`, by the levels that may
be below its directory. -/
theorem found_scan (levels : Nat) (hs : Orderly s)
    (hlevels : ∀ p, s.tree.node p ≠ none → p.length < path.length + levels)
    (hc : s.control = .scan shouldNotifyFile path .realpath outer)
    (hdir : s.tree.isDir path = true) :
    ∃ s', Found env s s' (leave shouldNotifyFile outer) (ScansDir s.tree path)
      (ScansFile env shouldNotifyFile s.tree path) := by
  induction levels generalizing path outer s with
  | zero => exact absurd (hlevels path (Tree.isDir_ne_none hdir)) (Nat.lt_irrefl _)
  | succ levels ih =>
    have hnode : (s.tree.node path).isSome = true :=
      Option.isSome_iff_ne_none.mpr (Tree.isDir_ne_none hdir)
    have hserve : step env s .serve =
        some { s with control := .scan shouldNotifyFile path .addWatch outer } := by
      simp only [step, serve, hc, scanStep]
      rw [if_pos hnode]
    refine Found.after_move hs rfl hserve ?_
    obtain ⟨t, ht⟩ := found_addWatch env (s := { s with
      control := .scan shouldNotifyFile path .addWatch outer }) ⟨hs.registry, hs.sound⟩ rfl hdir
    have htree : t.tree = s.tree := ht.tree_eq
    have hopen : step env t .serve = some { t with
        control := .scan shouldNotifyFile path (.readdir (t.tree.children path)) outer } := by
      simp only [step, serve, ht.control_eq, scanStep]
      rw [if_pos (by rw [htree]; exact hdir)]
    have hbelow : ∀ name rest, ComesBack env shouldNotifyFile s.tree path outer name rest := by
      intro name rest u hu hutree huc hudir
      rw [← hutree] at hlevels hudir ⊢
      refine ih hu (fun p hp => ?_) huc hudir
      have hlength := hlevels p hp
      rw [List.length_cons]
      omega
    obtain ⟨s', hs'⟩ := Found.after_move ht.orderly rfl hopen
      (found_readdir hbelow _ le_rfl ⟨ht.orderly.registry, ht.orderly.sound⟩ htree rfl)
    refine ⟨s', (ht.trans hs').congr (fun p => ?_) fun p => ?_⟩
    · rw [scansDir_iff hdir, htree]
    · rw [scansFile_iff_of_isDir hdir, htree, false_or]

/-- **An undisturbed scan.** On a directory, the call of `addWatchRecursively`
comes to its end, and has registered and told of what it is after. -/
theorem addWatchRecursively_undisturbed (env : Env) (hs : Orderly s)
    (hc : s.control = .addWatchRecursively path shouldNotifyFile)
    (hdir : s.tree.isDir path = true) :
    ∃ s', Found env s s' .idle (ScansDir s.tree path)
      (ScansFile env shouldNotifyFile s.tree path) := by
  have hserve : step env s .serve =
      some { s with control := .scan shouldNotifyFile path .realpath [] } := by
    simp only [step, serve, hc]
    rw [if_pos hdir]
  have hlevels : ∀ p, s.tree.node p ≠ none →
      p.length < path.length + ((s.tree.paths.map List.length).sum + 1) := by
    intro p hp
    have hsum : p.length ≤ (s.tree.paths.map List.length).sum :=
      List.le_sum_of_mem (List.mem_map_of_mem (s.tree.mem_paths p hp))
    omega
  have hscan : ∃ s', Found env { s with control := .scan shouldNotifyFile path .realpath [] } s'
      (leave shouldNotifyFile []) (ScansDir s.tree path)
      (ScansFile env shouldNotifyFile s.tree path) :=
    found_scan _ ⟨hs.registry, hs.sound⟩ hlevels rfl hdir
  exact Found.after_move hs rfl hserve hscan

end Scan
end KmreManager.FileInotifyService
