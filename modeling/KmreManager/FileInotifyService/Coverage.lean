import KmreManager.FileInotifyService.Registry

/-! # What the watcher thread has still to look at

An entry is due while an event that names it waits in the queue, or while the
thread is on its way to it. Every step of the thread either settles what was
due or makes it due at a later point: the event, the tests of its path, the
scan of the directory, its reading, and then the entries below it. -/
namespace KmreManager.FileInotifyService
open KmreManager.Lib KmreManager.Lib.FileTree KmreManager.FileInotifyWatcher

/-- Is the entry `name` of `dir` among what the open directory has yet to return? -/
def InReading (name : QString) (dir : HostPath) (frames : List Reading) : Prop :=
  ∃ frame ∈ frames, dir = frame.path ∧ name ∈ frame.pending

/-- Will the scan of `path` look at the entry `name` of `dir`? -/
def Point.Looks (tree : FileSystem) (path : HostPath) (name : QString) (dir : HostPath) :
    Point → Prop
  | .realpath | .addWatch => name :: dir = path ∧ tree.isDir (name :: dir) = true
  | .opendir => dir = path
  | .readdir pending => dir = path ∧ name ∈ pending
  | .isPathRegularFile pending n => dir = path ∧ (name ∈ pending ∨ name = n)
  | .isPathDir pending n =>
    dir = path ∧ (name ∈ pending ∨ name = n ∧ tree.isDir (name :: dir) = true)

/-- Will the watcher thread look at the entry `name` of `dir` before it reads
the next event? -/
def Control.Looks (tree : FileSystem) (name : QString) (dir : HostPath) : Control → Prop
  | .idle | .removeWatch _ _ _ => False
  | .watchedPathFromWd n paths => name = n ∧ dir ∈ paths
  | .isPathDir newPath => name :: dir = newPath
  | .isPathRegularFile newPath => name :: dir = newPath ∧ tree.isFile (name :: dir) = true
  | .addWatchRecursively path _ => name :: dir = path ∧ tree.isDir (name :: dir) = true
  | .scan _ path point outer => point.Looks tree path name dir ∨ InReading name dir outer

def Queued (k : Kernel) (wd : Int) (name : QString) : Prop :=
  .create wd name ∈ k.queue ∨ .movedTo wd name ∈ k.queue

def Due (s : State) (name : QString) (dir : HostPath) : Prop :=
  (∃ wd, s.mWatcher.mPathToWdMap dir = some wd ∧ Queued s.mWatcher.kernel wd name) ∨
    s.control.Looks s.tree name dir

/-- The scan skips names that start with a dot. -/
def Shown (name : QString) : Prop := name ≠ [] ∧ name.head? ≠ some '.'

/-- A directory is settled once it is registered, a file once it is listed. -/
structure Settled (env : Env) (s : State) (p : HostPath) : Prop where
  dir : s.tree.isDir p = true → s.mWatcher.mPathToWdMap p ≠ none
  file : s.tree.isFile p = true → env.notifies (filePath p) = true →
    ⟨filePath p, -1⟩ ∈ s.mFileList

/-- What the control holds while the thread is at it. -/
def Control.Holds (w : Watcher Kernel HostPath) : Control → Prop
  | .watchedPathFromWd _ paths => ∃ wd, ∀ p ∈ paths, w.mPathToWdMap p = some wd
  | .addWatchRecursively _ shouldNotifyFile | .scan shouldNotifyFile _ _ _ =>
    shouldNotifyFile = true
  | _ => True

/-- What a step of the watcher thread does. -/
structure Served (env : Env) (s s' : State) : Prop where
  tree : s'.tree = s.tree
  registry : Registry s'.mWatcher
  sound : Sound s.tree s'.mWatcher
  adds : ∀ p, s'.mWatcher.mPathToWdMap p ≠ none →
    s.mWatcher.mPathToWdMap p ≠ none ∨ s.tree.node p ≠ none
  live : ∀ watch ∈ s'.mWatcher.kernel.watches,
    watch ∈ s.mWatcher.kernel.watches ∨ watch.2 < s.tree.next
  keeps : ∀ p wd, s.tree.isDir p = true → s.mWatcher.mPathToWdMap p = some wd →
    s'.mWatcher.mPathToWdMap p = some wd
  lists : ∀ info ∈ s.mFileList, info ∈ s'.mFileList
  holds : s'.control.Holds s'.mWatcher
  advance : ∀ name dir p, Due s name dir → Shown name → name :: dir <:+ p → s.tree.node p ≠ none →
    Settled env s' p ∨ ∃ name' dir', name' :: dir' <:+ p ∧ dir <:+ dir' ∧ Due s' name' dir'

section Steps
variable {env : Env} {s s' : State} {name n : QString} {dir p path : HostPath}

theorem isDir_of_below (hp : s.tree.node p ≠ none) (hs : name :: dir <:+ p) :
    s.tree.isDir dir = true := by
  refine Tree.isDir_of_suffix hp ((List.suffix_cons name dir).trans hs) ?_
  intro heq
  subst heq
  exact Nat.not_succ_le_self _ hs.length_le

/-- An entry that leads to an existing one is it, or a directory. -/
theorem eq_or_isDir (hp : s.tree.node p ≠ none) (hs : name :: dir <:+ p) :
    name :: dir = p ∨ s.tree.isDir (name :: dir) = true := by
  by_cases heq : name :: dir = p
  · exact Or.inl heq
  · exact Or.inr (Tree.isDir_of_suffix hp hs heq)

theorem node_of_below (hp : s.tree.node p ≠ none) (hs : name :: dir <:+ p) :
    s.tree.node (name :: dir) ≠ none :=
  Tree.ne_none_of_suffix hp hs

theorem leave_looks {shouldNotifyFile : Bool} {outer : List Reading}
    (h : InReading name dir outer) : (leave shouldNotifyFile outer).Looks s.tree name dir := by
  obtain ⟨frame, hframe, hdir, hname⟩ := h
  cases outer with
  | nil => cases hframe
  | cons first outer =>
    rcases List.mem_cons.mp hframe with rfl | hframe
    · exact Or.inl ⟨hdir, hname⟩
    · exact Or.inr ⟨frame, hframe, hdir, hname⟩

theorem leave_holds {w : Watcher Kernel HostPath} (outer : List Reading) :
    (leave true outer).Holds w := by
  cases outer with
  | nil => trivial
  | cons frame outer => exact Eq.refl true

theorem addNotifyFile_tree (path : QString) : (addNotifyFile env s path).tree = s.tree := by
  unfold addNotifyFile
  split <;> rfl

theorem addNotifyFile_mWatcher (path : QString) :
    (addNotifyFile env s path).mWatcher = s.mWatcher := by
  unfold addNotifyFile
  split <;> rfl

theorem addNotifyFile_control (path : QString) :
    (addNotifyFile env s path).control = s.control := by
  unfold addNotifyFile
  split <;> rfl

theorem mem_addNotifyFile {info : NotifyFileInfo} (path : QString) (h : info ∈ s.mFileList) :
    info ∈ (addNotifyFile env s path).mFileList := by
  unfold addNotifyFile
  split
  · exact List.mem_append_left _ h
  · exact h

theorem listed_addNotifyFile {path : QString} (h : env.notifies path = true) :
    ⟨path, -1⟩ ∈ (addNotifyFile env s path).mFileList := by
  unfold addNotifyFile
  rw [if_pos h]
  exact List.mem_append_right _ (List.mem_singleton_self _)

/-- A step that tends the watcher need only say what becomes of the entries the
thread was on its way to. -/
theorem Served.of_tended (htree : s'.tree = s.tree) (hw : Tended s.tree s.mWatcher s'.mWatcher)
    (hlists : ∀ info ∈ s.mFileList, info ∈ s'.mFileList) (hholds : s'.control.Holds s'.mWatcher)
    (hadvance : ∀ name dir p, s.control.Looks s.tree name dir → Shown name → name :: dir <:+ p →
      s.tree.node p ≠ none →
      Settled env s' p ∨ ∃ name' dir', name' :: dir' <:+ p ∧ dir <:+ dir' ∧ Due s' name' dir') :
    Served env s s' := by
  refine ⟨htree, hw.registry, hw.sound, hw.adds, hw.live, hw.keeps, hlists, hholds, ?_⟩
  intro name dir p hdue hshown hs hp
  rcases hdue with ⟨wd, hwd, hq⟩ | hlooks
  · have hreg := hw.keeps dir wd (isDir_of_below hp hs) hwd
    exact Or.inr ⟨name, dir, hs, List.suffix_rfl,
      Or.inl ⟨wd, hreg, hq.imp (hw.queue _) (hw.queue _)⟩⟩
  · exact hadvance name dir p hlooks hshown hs hp

/-- A step that only moves the thread on. -/
theorem Served.of_control {control : Control} (hw : Registry s.mWatcher)
    (hsound : Sound s.tree s.mWatcher) (hholds : control.Holds s.mWatcher)
    (hlooks : ∀ name dir p, s.control.Looks s.tree name dir → Shown name → name :: dir <:+ p →
      s.tree.node p ≠ none → control.Looks s.tree name dir) :
    Served env s { s with control } := by
  refine .of_tended (Eq.refl s.tree) (.refl hw hsound) (fun _ h => h) hholds ?_
  intro name dir p hl hshown hs hp
  exact Or.inr ⟨name, dir, hs, List.suffix_rfl, Or.inr (hlooks name dir p hl hshown hs hp)⟩

/-- A step that looks at a regular file and lists it if it is of a kind to list. -/
theorem Served.of_file {control : Control} (hw : Registry s.mWatcher)
    (hsound : Sound s.tree s.mWatcher) (hholds : control.Holds s.mWatcher)
    (hfile : s.tree.isFile path = true)
    (hlooks : ∀ name dir p, s.control.Looks s.tree name dir → name :: dir <:+ p →
      s.tree.node p ≠ none → p = path ∨ control.Looks s.tree name dir) :
    Served env s (addNotifyFile env { s with control } (filePath path)) := by
  refine .of_tended (addNotifyFile_tree _) ?_ (fun _ h => mem_addNotifyFile _ h) ?_ ?_
  · rw [addNotifyFile_mWatcher]
    exact .refl hw hsound
  · rw [addNotifyFile_mWatcher, addNotifyFile_control]
    exact hholds
  · intro name dir p hl _ hs hp
    rcases hlooks name dir p hl hs hp with rfl | hlooks
    · refine Or.inl ⟨fun hdir => ?_, fun _ hnotifies => listed_addNotifyFile hnotifies⟩
      rw [addNotifyFile_tree] at hdir
      exact absurd hfile (Tree.not_isFile_of_isDir hdir)
    · refine Or.inr ⟨name, dir, hs, List.suffix_rfl, Or.inr ?_⟩
      rw [addNotifyFile_control, addNotifyFile_tree]
      exact hlooks

/-! ## The steps of a scan -/

/-- An entry of a directory that is read: a file is listed, anything else is
looked at again as a directory. -/
theorem served_scanEntry {pending : List QString} {n : QString} {outer : List Reading}
    (hw : Registry s.mWatcher) (hsound : Sound s.tree s.mWatcher)
    (hc : s.control = .scan true path (.isPathRegularFile pending n) outer)
    (h : scanStep env s true path outer (.isPathRegularFile pending n) = some s') :
    Served env s s' := by
  dsimp only [scanStep] at h
  rw [Bool.and_true] at h
  split at h
  · rename_i hfile
    obtain rfl := Option.some.inj h
    refine .of_file hw hsound (Eq.refl true) hfile ?_
    intro name dir p hl hs hp
    rw [hc] at hl
    rcases hl with ⟨rfl, hname | rfl⟩ | hl
    · exact Or.inr (Or.inl ⟨Eq.refl dir, hname⟩)
    · rcases eq_or_isDir hp hs with heq | hdir
      · exact Or.inl heq.symm
      · exact absurd hfile (Tree.not_isFile_of_isDir hdir)
    · exact Or.inr (Or.inr hl)
  · rename_i hfile
    obtain rfl := Option.some.inj h
    refine .of_control hw hsound (Eq.refl true) ?_
    intro name dir p hl _ hs hp
    rw [hc] at hl
    rcases hl with ⟨rfl, hname | rfl⟩ | hl
    · exact Or.inl ⟨Eq.refl dir, Or.inl hname⟩
    · have hdir := (Tree.isDir_or_isFile (node_of_below hp hs)).resolve_right hfile
      exact Or.inl ⟨Eq.refl dir, Or.inr ⟨Eq.refl name, hdir⟩⟩
    · exact Or.inr hl

theorem served_scanStep {point : Point} {outer : List Reading} (hw : Registry s.mWatcher)
    (hsound : Sound s.tree s.mWatcher) (hc : s.control = .scan true path point outer)
    (h : scanStep env s true path outer point = some s') : Served env s s' := by
  cases point with
  | realpath =>
    obtain rfl := Option.some.inj h
    refine .of_control hw hsound ?_ ?_
    · split
      · exact Eq.refl true
      · exact leave_holds outer
    · intro name dir p hl _ hs hp
      rw [hc] at hl
      rcases hl with ⟨hpath, hdir⟩ | hl
      · have hnode : (s.tree.node path).isSome = true :=
          Option.isSome_iff_ne_none.mpr (hpath ▸ node_of_below hp hs)
        rw [if_pos hnode]
        exact Or.inl ⟨hpath, hdir⟩
      · split
        · exact Or.inr hl
        · exact leave_looks hl
  | addWatch => cases h
  | opendir =>
    obtain rfl := Option.some.inj h
    refine .of_control hw hsound ?_ ?_
    · split
      · exact Eq.refl true
      · exact leave_holds outer
    · intro name dir p hl _ hs hp
      rw [hc] at hl
      rcases hl with hpath | hl
      · have hpath : dir = path := hpath
        subst hpath
        rw [if_pos (isDir_of_below hp hs)]
        exact Or.inl ⟨Eq.refl dir, Tree.mem_children.mpr (node_of_below hp hs)⟩
      · split
        · exact Or.inr hl
        · exact leave_looks hl
  | readdir pending => cases h
  | isPathRegularFile pending n => exact served_scanEntry hw hsound hc h
  | isPathDir pending n =>
    obtain rfl := Option.some.inj h
    refine .of_control hw hsound ?_ ?_
    · split <;> exact Eq.refl true
    · intro name dir p hl _ hs hp
      rw [hc] at hl
      rcases hl with ⟨rfl, hname | ⟨rfl, hdir⟩⟩ | hl
      · split
        · exact Or.inr ⟨_, List.mem_cons_self, Eq.refl dir, hname⟩
        · exact Or.inl ⟨Eq.refl dir, hname⟩
      · rw [if_pos hdir]
        exact Or.inl ⟨Eq.refl _, hdir⟩
      · obtain ⟨frame, hframe, hin⟩ := hl
        split
        · exact Or.inr ⟨frame, List.mem_cons_of_mem _ hframe, hin⟩
        · exact Or.inr ⟨frame, hframe, hin⟩

/-- Adding the watch settles the directory and makes its entries due. -/
theorem served_addWatch {outer : List Reading} {fresh : Int} (hw : Registry s.mWatcher)
    (hsound : Sound s.tree s.mWatcher) (hc : s.control = .scan true path .addWatch outer)
    (hpos : 0 ≤ fresh) (hfresh : ∀ i, (fresh, i) ∉ s.mWatcher.kernel.watches) :
    Served env s { s with
      mWatcher := (s.mWatcher.addWatch (inotify s.tree fresh) path watchMask).1
      control := .scan true path .opendir outer } := by
  rcases hcall : s.mWatcher.addWatch (inotify s.tree fresh) path watchMask with ⟨w', ret⟩
  obtain ⟨htended, hreg⟩ := Tended.addWatch hw hsound hpos hfresh hcall
  refine .of_tended (Eq.refl s.tree) htended (fun _ h => h) (Eq.refl true) ?_
  intro name dir p hl _ hs hp
  rw [hc] at hl
  rcases hl with ⟨rfl, hdir⟩ | hl
  · by_cases heq : name :: dir = p
    · subst heq
      exact Or.inl ⟨fun _ => hreg hp, fun hfile => absurd hfile (Tree.not_isFile_of_isDir hdir)⟩
    · -- what stands below the directory hangs on one of its entries
      obtain ⟨rel, rfl⟩ := hs
      rcases List.eq_nil_or_concat rel with rfl | ⟨rel, m, rfl⟩
      · exact absurd (Eq.refl _) heq
      · refine Or.inr ⟨m, name :: dir, ⟨rel, by simp⟩, List.suffix_cons name dir, Or.inr ?_⟩
        exact Or.inl (Eq.refl (name :: dir))
  · exact Or.inr ⟨name, dir, hs, List.suffix_rfl, Or.inr (Or.inr hl)⟩

theorem served_readdir {entry : Option QString} (hw : Registry s.mWatcher)
    (hsound : Sound s.tree s.mWatcher) (hholds : s.control.Holds s.mWatcher)
    (h : step env s (.readdir entry) = some s') : Served env s s' := by
  unfold step at h
  dsimp only at h
  split at h
  · rename_i flag path outer hc
    obtain rfl := Option.some.inj h
    rw [hc] at hholds
    obtain rfl : flag = true := hholds
    refine .of_control hw hsound (leave_holds outer) ?_
    intro name dir p hl _ _ _
    rw [hc] at hl
    rcases hl with ⟨_, hname⟩ | hl
    · cases hname
    · exact leave_looks hl
  · rename_i flag path pending outer n hc
    obtain rfl := Option.some.inj h
    rw [hc] at hholds
    obtain rfl : flag = true := hholds
    refine .of_control hw hsound ?_ ?_
    · split <;> exact Eq.refl true
    · intro name dir p hl hshown _ _
      rw [hc] at hl
      rcases hl with ⟨hdir, hname⟩ | hl
      · by_cases heq : name = n
        · subst heq
          rw [if_neg (not_or.mpr hshown)]
          exact Or.inl ⟨hdir, Or.inr (Eq.refl name)⟩
        · have hmem : name ∈ pending.filter fun m => m ≠ n :=
            List.mem_filter.mpr ⟨hname, decide_eq_true heq⟩
          split
          · exact Or.inl ⟨hdir, hmem⟩
          · exact Or.inl ⟨hdir, Or.inl hmem⟩
      · split <;> exact Or.inr hl
  · cases h

/-! ## The steps of `run` -/

/-- Reading an event puts the thread on its way to what the event names. -/
theorem served_read {event : Event} {queue : List Event} (hw : Registry s.mWatcher)
    (hsound : Sound s.tree s.mWatcher) (hc : s.control = .idle)
    (hq : s.mWatcher.kernel.queue = event :: queue) :
    Served env s { s with
      mWatcher := { s.mWatcher with kernel := { s.mWatcher.kernel with queue } }
      control := handle s event } := by
  have hvalues : ∀ wd p, p ∈ s.mWatcher.mWdToPathMap.values wd ↔
      s.mWatcher.mPathToWdMap p = some wd :=
    fun wd p => Multimap.mem_values.trans hw.inverse.mem_iff
  refine ⟨Eq.refl _, ⟨hw.initialized, hw.inverse, hw.nonneg, hw.live_nonneg,
    hw.oneToOne.mono fun _ h => h⟩, hsound, fun _ h => Or.inl h, fun _ h => Or.inl h,
    fun _ _ _ h => h, fun _ h => h, ?_, ?_⟩
  · -- the paths to test are registered with the event's descriptor
    cases event with
    | create wd n =>
      dsimp only [handle]
      split
      · trivial
      · exact ⟨wd, fun p hp => (hvalues wd p).mp hp⟩
    | movedTo wd n =>
      dsimp only [handle]
      split
      · trivial
      · exact ⟨wd, fun p hp => (hvalues wd p).mp hp⟩
    | moveSelf wd => dsimp only [handle]; split <;> trivial
    | deleteSelf wd => dsimp only [handle]; split <;> trivial
    | ignored wd => trivial
  · intro name dir p hdue hshown hs _
    refine Or.inr ⟨name, dir, hs, List.suffix_rfl, ?_⟩
    rcases hdue with ⟨wd, hwd, hqueued⟩ | hl
    · have hlooks : ∀ e ∈ event :: queue, e = .create wd name ∨ e = .movedTo wd name →
          (handle s event).Looks s.tree name dir ∨ e ∈ queue := by
        intro e he hname
        rcases List.mem_cons.mp he with rfl | he
        · have hneg : ¬ (name = [] ∨ wd < 0) :=
            not_or.mpr ⟨hshown.1, Int.not_lt.mpr (hw.nonneg dir wd hwd)⟩
          have hpaths := (hvalues wd dir).mpr hwd
          rcases hname with rfl | rfl
          · exact Or.inl (by rw [handle, if_neg hneg]; exact ⟨Eq.refl name, hpaths⟩)
          · exact Or.inl (by rw [handle, if_neg hneg]; exact ⟨Eq.refl name, hpaths⟩)
        · exact Or.inr he
      rcases hqueued with he | he
      · rcases hlooks _ (hq ▸ he) (Or.inl (Eq.refl _)) with hl | he
        · exact Or.inr hl
        · exact Or.inl ⟨wd, hwd, Or.inl he⟩
      · rcases hlooks _ (hq ▸ he) (Or.inr (Eq.refl _)) with hl | he
        · exact Or.inr hl
        · exact Or.inl ⟨wd, hwd, Or.inr he⟩
    · rw [hc] at hl
      exact hl.elim

/-- Testing the paths of a descriptor, the latest first. -/
theorem served_watchedPathFromWd {n : QString} {paths : List HostPath} (hw : Registry s.mWatcher)
    (hsound : Sound s.tree s.mWatcher) (hc : s.control = .watchedPathFromWd n paths)
    (hholds : s.control.Holds s.mWatcher) (h : serve env s = some s') : Served env s s' := by
  rw [hc] at hholds
  obtain ⟨wd, hwd⟩ := hholds
  cases paths with
  | nil =>
    obtain rfl : _ = s' := by simpa [serve, hc] using h
    refine .of_control hw hsound trivial ?_
    intro name dir p hl _ _ _
    rw [hc] at hl
    exact absurd hl.2 List.not_mem_nil
  | cons path paths =>
    simp only [serve, hc] at h
    obtain rfl := Option.some.inj h
    have hpath := hwd path List.mem_cons_self
    refine .of_control hw hsound ?_ ?_
    · split
      · trivial
      · exact ⟨wd, fun p hp => hwd p (List.mem_cons_of_mem _ hp)⟩
    · intro name dir p hl _ hs hp
      rw [hc] at hl
      obtain ⟨rfl, hdir⟩ := hl
      have hisDir := isDir_of_below hp hs
      split
      · -- two directories with one descriptor are one
        rename_i hpathDir
        rw [hsound.unique hw hpath (hwd dir hdir) hpathDir hisDir]
        exact Eq.refl _
      · rename_i hpathDir
        rcases List.mem_cons.mp hdir with rfl | hdir
        · exact absurd hisDir hpathDir
        · exact ⟨Eq.refl name, hdir⟩

/-- A path that is not a directory is looked at again as a file. -/
theorem served_isPathDir {newPath : HostPath} (hw : Registry s.mWatcher)
    (hsound : Sound s.tree s.mWatcher) (hc : s.control = .isPathDir newPath)
    (h : serve env s = some s') : Served env s s' := by
  simp only [serve, hc] at h
  obtain rfl := Option.some.inj h
  refine .of_control hw hsound ?_ ?_
  · split
    · exact Eq.refl true
    · trivial
  · intro name dir p hl _ hs hp
    rw [hc] at hl
    obtain rfl : name :: dir = newPath := hl
    split
    · rename_i hdir
      exact ⟨Eq.refl _, hdir⟩
    · rename_i hdir
      exact ⟨Eq.refl _, (Tree.isDir_or_isFile (node_of_below hp hs)).resolve_left hdir⟩

theorem served_isPathRegularFile {newPath : HostPath} (hw : Registry s.mWatcher)
    (hsound : Sound s.tree s.mWatcher) (hc : s.control = .isPathRegularFile newPath)
    (h : serve env s = some s') : Served env s s' := by
  simp only [serve, hc] at h
  obtain rfl := Option.some.inj h
  split
  · rename_i hfile
    refine .of_file hw hsound trivial hfile ?_
    intro name dir p hl hs hp
    rw [hc] at hl
    obtain ⟨rfl, hfile⟩ := hl
    refine Or.inl ((eq_or_isDir hp hs).resolve_right fun hdir => ?_).symm
    exact Tree.not_isFile_of_isDir hdir hfile
  · rename_i hfile
    refine .of_control hw hsound trivial ?_
    intro name dir p hl _ hs hp
    rw [hc] at hl
    obtain ⟨rfl, hisFile⟩ := hl
    exact absurd hisFile hfile

theorem served_addWatchRecursively {path : HostPath} {flag : Bool} (hw : Registry s.mWatcher)
    (hsound : Sound s.tree s.mWatcher) (hc : s.control = .addWatchRecursively path flag)
    (hholds : s.control.Holds s.mWatcher) (h : serve env s = some s') : Served env s s' := by
  rw [hc] at hholds
  obtain rfl : flag = true := hholds
  simp only [serve, hc] at h
  obtain rfl := Option.some.inj h
  refine .of_control hw hsound ?_ ?_
  · split
    · exact Eq.refl true
    · trivial
  · intro name dir p hl _ hs hp
    rw [hc] at hl
    obtain ⟨rfl, hdir⟩ := hl
    rw [if_pos hdir]
    exact Or.inl ⟨Eq.refl _, hdir⟩

/-- Taking the registrations of a moved directory away leads to nothing new. -/
theorem served_removeWatch {wd : Int} {count j : Nat} (hw : Registry s.mWatcher)
    (hsound : Sound s.tree s.mWatcher) (hc : s.control = .removeWatch wd count j)
    (h : serve env s = some s') : Served env s s' := by
  have hnone : ∀ {name : QString} {dir : HostPath}, ¬ s.control.Looks s.tree name dir := by
    intro name dir hl
    rw [hc] at hl
    exact hl
  cases count with
  | zero =>
    simp only [serve, hc] at h
    obtain rfl := Option.some.inj h
    rcases hdrop : s.mWatcher.dropUnused (inotify s.tree 0) wd with ⟨w', ret⟩
    refine .of_tended (Eq.refl s.tree) (.dropUnused hw hsound hdrop) (fun _ h => h) trivial ?_
    intro name dir p hl
    exact absurd hl hnone
  | succ count =>
    simp only [serve, hc] at h
    obtain rfl := Option.some.inj h
    rcases hround : s.mWatcher.removeRound wd j
      (((s.mWatcher.mWdToPathMap.values wd)[j]?).any s.tree.isDir) with ⟨w', j'⟩
    refine .of_tended (Eq.refl s.tree) (.removeRound hw hsound hround) (fun _ h => h) trivial ?_
    intro name dir p hl
    exact absurd hl hnone

theorem served_serve (hw : Registry s.mWatcher) (hsound : Sound s.tree s.mWatcher)
    (hholds : s.control.Holds s.mWatcher) (h : serve env s = some s') : Served env s s' := by
  cases hc : s.control with
  | idle =>
    unfold serve at h
    rw [hc] at h
    dsimp only at h
    split at h
    · cases h
    · cases h
    · rename_i hq
      obtain rfl := Option.some.inj h
      exact served_read hw hsound hc hq
  | watchedPathFromWd n paths => exact served_watchedPathFromWd hw hsound hc hholds h
  | isPathDir newPath => exact served_isPathDir hw hsound hc h
  | isPathRegularFile newPath => exact served_isPathRegularFile hw hsound hc h
  | addWatchRecursively path flag => exact served_addWatchRecursively hw hsound hc hholds h
  | scan flag path point outer =>
    rw [hc] at hholds
    obtain rfl : flag = true := hholds
    simp only [serve, hc] at h
    exact served_scanStep hw hsound hc h
  | removeWatch wd count j => exact served_removeWatch hw hsound hc h

end Steps
end KmreManager.FileInotifyService
