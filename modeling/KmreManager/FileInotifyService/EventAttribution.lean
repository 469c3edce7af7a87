import KmreManager.FileInotifyService.AddWatchSound

/-! # Which directory an event is attributed to

A descriptor collects the paths under which its directory has been registered,
and only the self events of the directory itself prune them. `watchedPathFromWd`
gives the latest of these paths that is a directory by now, which may be another
one. The steps that bring this about are told from the others by the state they
are taken from. -/
namespace KmreManager.FileInotifyService
open KmreManager.Lib KmreManager.Lib.FileTree KmreManager.FileInotifyWatcher

/-- The answer of `watchedPathFromWd` for a live descriptor names the directory
that is watched. -/
def Attributed (s : State) : Prop :=
  ∀ wd inode path, (wd, inode) ∈ s.mWatcher.kernel.watches →
    s.mWatcher.watchedPathFromWd s.tree.isDir wd = some path → s.tree.dir? path = some inode

/-- The steps of the thread through `watchedPathFromWd`, undisturbed, are a call of it. -/
theorem run_watchedPathFromWd (env : Env) {s : State} {wd : Int} {name : QString}
    (hinit : s.mWatcher.mInitialized = true) (hwd : 0 ≤ wd)
    (hc : s.control = .watchedPathFromWd name (s.mWatcher.mWdToPathMap.values wd)) :
    ∃ n, Runs.run (step env) s (List.replicate n .serve) = some { s with
      control := ((s.mWatcher.watchedPathFromWd s.tree.isDir wd).map fun path =>
        Control.isPathDir (name :: path)).getD .idle } := by
  have hcall : s.mWatcher.watchedPathFromWd s.tree.isDir wd =
      (s.mWatcher.mWdToPathMap.values wd).find? s.tree.isDir := by
    simp [Watcher.watchedPathFromWd, hinit, Int.not_lt.mpr hwd]
  rw [hcall]
  clear hcall
  generalize s.mWatcher.mWdToPathMap.values wd = paths at hc
  induction paths generalizing s with
  | nil =>
    refine ⟨1, ?_⟩
    simp [Runs.run_cons, step, serve, hc]
  | cons path paths ih =>
    cases hdir : s.tree.isDir path with
    | true =>
      refine ⟨1, ?_⟩
      simp [Runs.run_cons, step, serve, hc, hdir]
    | false =>
      obtain ⟨n, hrest⟩ := ih (s := { s with control := .watchedPathFromWd name paths }) hinit rfl
      refine ⟨n + 1, ?_⟩
      rw [List.replicate_succ, Runs.run_cons]
      simp only [step, serve, hc, hdir, Option.bind_some, List.find?_cons]
      exact hrest

/-! ## What the watcher thread does to the watcher -/

/-- One step's worth of the calls that the thread makes. -/
inductive Called (tree : FileSystem) (w : Watcher Kernel HostPath) :
    Watcher Kernel HostPath → Prop
  | nothing : Called tree w w
  | read (queue : List Event) : Called tree w { w with kernel := { w.kernel with queue } }
  | removeRound (wd : Int) (j : Nat) : Called tree w
      (w.removeRound wd j (((w.mWdToPathMap.values wd)[j]?).any tree.isDir)).1
  | dropUnused (wd : Int) : Called tree w (w.dropUnused (inotify tree 0) wd).1

section Service
variable {env : Env} {s s' : State}

theorem scanStep_watcher {flag : Bool} {path : HostPath} {outer : List Reading} {point : Point}
    (h : scanStep env s flag path outer point = some s') :
    s'.tree = s.tree ∧ s'.mWatcher = s.mWatcher := by
  cases point with
  | realpath => cases h; exact ⟨rfl, rfl⟩
  | addWatch => cases h
  | opendir => cases h; exact ⟨rfl, rfl⟩
  | readdir pending => cases h
  | isPathRegularFile pending name =>
    simp only [scanStep] at h
    split at h
    · cases h
      exact ⟨addNotifyFile_tree _, addNotifyFile_mWatcher _⟩
    · cases h
      exact ⟨rfl, rfl⟩
  | isPathDir pending name => cases h; exact ⟨rfl, rfl⟩

theorem serve_called (h : serve env s = some s') :
    s'.tree = s.tree ∧ Called s.tree s.mWatcher s'.mWatcher := by
  unfold serve at h
  split at h
  · split at h
    · cases h
    · cases h
    · cases h
      exact ⟨rfl, .read _⟩
  · cases h
    exact ⟨rfl, .nothing⟩
  · cases h
    exact ⟨rfl, .nothing⟩
  · cases h
    exact ⟨rfl, .nothing⟩
  · obtain rfl := Option.some.inj h
    split
    · refine ⟨addNotifyFile_tree _, ?_⟩
      rw [addNotifyFile_mWatcher]
      exact .nothing
    · exact ⟨rfl, .nothing⟩
  · cases h
    exact ⟨rfl, .nothing⟩
  · obtain ⟨htree, hwatcher⟩ := scanStep_watcher h
    exact ⟨htree, hwatcher ▸ .nothing⟩
  · cases h
    exact ⟨rfl, .dropUnused _⟩
  · cases h
    exact ⟨rfl, .removeRound _ _⟩

theorem step_readdir {entry : Option QString} (h : step env s (.readdir entry) = some s') :
    s'.tree = s.tree ∧ s'.mWatcher = s.mWatcher := by
  dsimp only [step] at h
  split at h
  · cases h; exact ⟨rfl, rfl⟩
  · cases h; exact ⟨rfl, rfl⟩
  · cases h

theorem step_addWatch {wd : Int} (h : step env s (.addWatch wd) = some s') :
    ∃ flag path outer, s.control = .scan flag path .addWatch outer ∧ 0 ≤ wd ∧
      (∀ i, (wd, i) ∉ s.mWatcher.kernel.watches) ∧ s'.tree = s.tree ∧
      s'.mWatcher = (s.mWatcher.addWatch (inotify s.tree wd) path watchMask).1 := by
  dsimp only [step] at h
  split at h
  · rename_i flag path outer hc
    split at h
    · rename_i hpre
      obtain rfl := Option.some.inj h
      refine ⟨flag, path, outer, hc, hpre.1, fun i hmem => ?_, rfl, rfl⟩
      have hne := List.all_eq_true.mp hpre.2 _ hmem
      simp at hne
    · cases h
  · cases h

end Service

/-! ## The condition -/

/-- Will a directory stand at `path` after `old` has become `new`? -/
def standsAfter (tree : FileSystem) (old new path : HostPath) : Bool :=
  (¬ old <:+ path ∨ new <:+ path) ∧ tree.isDir (Tree.origin old new path)

/-- The path whose watch the thread is about to add. -/
def Control.adding : Control → Option HostPath
  | .scan _ path .addWatch _ => some path
  | _ => none

/-- The latest path of a descriptor that is a directory answers for it. A new
directory is not to become the answer of a live descriptor; the directory that
is watched is not removed while another path of its descriptor is a directory;
after a rename the answer is where that directory stands. The last case is a
file that took the place of the directory to watch: its descriptor may have been
used before, but not for a path that is a directory now. -/
def Attributes (s : State) : Action → Prop
  | .create .dir name dir => ∀ watch ∈ s.mWatcher.kernel.watches,
    (s.mWatcher.mWdToPathMap.values watch.1).find?
      (fun path => path = name :: dir || s.tree.isDir path) ≠ some (name :: dir)
  | .rmdir name dir => ∀ watch ∈ s.mWatcher.kernel.watches,
    s.tree.dir? (name :: dir) = some watch.2 →
      ∀ path ∈ s.mWatcher.mWdToPathMap.values watch.1, path ≠ name :: dir →
        s.tree.isDir path = false
  | .rename old name dir => ∀ watch ∈ s.mWatcher.kernel.watches,
    ∀ path ∈ (s.mWatcher.mWdToPathMap.values watch.1).find?
      (standsAfter s.tree old (name :: dir)),
        s.tree.dir? (Tree.origin old (name :: dir) path) = some watch.2
  | .addWatch wd => ∀ path ∈ s.control.adding, s.mWatcher.mPathToWdMap path = none →
    s.tree.isFile path = true →
      (∀ node ∈ s.tree.node path, s.mWatcher.kernel.wdOf node.inode = none) →
        ∀ other ∈ s.mWatcher.mWdToPathMap.values wd, s.tree.isDir other = false
  | _ => True

instance Attributes.decidable (s : State) : ∀ a, Decidable (Attributes s a)
  | .create .dir _ _ | .rmdir _ _ | .rename _ _ _ | .addWatch _ => by
    dsimp only [Attributes]
    infer_instance
  | .create .file _ _ | .evict _ | .serve | .readdir _ => .isTrue trivial

/-! ## One step -/

/-- What the kernel's table keeps by itself. -/
structure Tracked (s : State) : Prop where
  initialized : s.mWatcher.mInitialized = true
  live_nonneg : ∀ wd i, (wd, i) ∈ s.mWatcher.kernel.watches → 0 ≤ wd
  oneToOne : s.mWatcher.kernel.OneToOne
  live_old : ∀ watch ∈ s.mWatcher.kernel.watches, watch.2 < s.tree.next

section Step
variable {env : Env} {s s' : State} {a : Action} {wd : Int} {inode : Nat}

theorem Invariant.tracked (h : Invariant s) : Tracked s :=
  ⟨h.registry.initialized, h.registry.live_nonneg, h.registry.oneToOne, h.live_old⟩

/-- The first of the paths of a live descriptor that is a directory is its own. -/
def Answers (tree : FileSystem) (w : Watcher Kernel HostPath) : Prop :=
  ∀ wd i path, (wd, i) ∈ w.kernel.watches →
    (w.mWdToPathMap.values wd).find? tree.isDir = some path → tree.dir? path = some i

theorem Tracked.attributed_iff (hT : Tracked s) : Attributed s ↔ Answers s.tree s.mWatcher := by
  refine forall_congr' fun wd => forall_congr' fun i => forall_congr' fun path =>
    imp_congr_right fun hlive => ?_
  simp [Watcher.watchedPathFromWd, hT.initialized, Int.not_lt.mpr (hT.live_nonneg wd i hlive)]

/-- Sound registration answers rightly. -/
theorem Invariant.attributed (h : Invariant s) : Attributed s := by
  rw [h.tracked.attributed_iff]
  intro wd i path hlive hfind
  have hmem := Multimap.mem_values.mp (List.mem_of_find?_eq_some hfind)
  obtain ⟨j, hj⟩ := Tree.isDir_iff.mp (List.find?_some hfind)
  have hj := Tree.dir?_eq_some.mpr hj
  have hown := h.sound path wd j (h.registry.inverse.mem_iff.mp hmem) hj
  rw [hj, h.registry.oneToOne.inode_unique wd i j hlive hown]

/-! ### The watcher thread -/

/-- What is found is also the first to meet a stronger test that it meets. -/
theorem find?_of_imp {α : Type} {p q : α → Bool} {l : List α} {x : α}
    (himp : ∀ y, p y = true → q y = true) (hp : p x = true) (h : l.find? q = some x) :
    l.find? p = some x := by
  induction l with
  | nil => cases h
  | cons y l ih =>
    rw [List.find?_cons] at h ⊢
    cases hqy : q y with
    | true =>
      obtain rfl : y = x := by simpa [hqy] using h
      rw [hp]
    | false =>
      have hpy : p y = false := by
        rw [Bool.eq_false_iff]
        exact fun hpy => by simp [himp y hpy] at hqy
      rw [hpy]
      exact ih (by simpa [hqy] using h)

theorem exists_find? {α : Type} {p : α → Bool} {l : List α} {x : α} (hx : x ∈ l)
    (hp : p x = true) : ∃ y, l.find? p = some y :=
  Option.isSome_iff_exists.mp (List.find?_isSome.mpr ⟨x, hx, hp⟩)

theorem find?_eraseIdx {α : Type} {p : α → Bool} {l : List α} {j : Nat} {x : α}
    (hx : l[j]? = some x) (hp : p x = false) : (l.eraseIdx j).find? p = l.find? p := by
  induction l generalizing j with
  | nil => cases hx
  | cons y l ih =>
    cases j with
    | zero =>
      obtain rfl : y = x := by simpa using hx
      simp [hp]
    | succ j =>
      have hrest := ih (j := j) (by simpa using hx)
      simp only [List.eraseIdx_cons_succ, List.find?_cons, hrest]

theorem Called.answers {tree : FileSystem} {w w' : Watcher Kernel HostPath}
    (h : Called tree w w') (hw : Answers tree w) : Answers tree w' := by
  cases h with
  | nothing => exact hw
  | read queue => exact hw
  | removeRound wd j =>
    rcases hround : w.removeRound wd j (((w.mWdToPathMap.values wd)[j]?).any tree.isDir) with ⟨u, k⟩
    rcases Watcher.removeRound_cases hround with ⟨rfl, _⟩ | ⟨path, hpath, hdir, _, rfl⟩
    · exact hw
    · have hnot : tree.isDir path = false := by simpa [hpath] using hdir
      intro wd' i path' hlive hfind
      by_cases heq : wd' = wd
      · subst heq
        dsimp only at hfind
        rw [Multimap.values_eraseNth_self, find?_eraseIdx hpath hnot] at hfind
        exact hw wd' i path' hlive hfind
      · dsimp only at hfind
        rw [Multimap.values_eraseNth_ne heq] at hfind
        exact hw wd' i path' hlive hfind
  | dropUnused wd =>
    rcases hdrop : w.dropUnused (inotify tree 0) wd with ⟨u, ret⟩
    rcases Watcher.dropUnused_cases hdrop with ⟨rfl, _⟩ | ⟨_, kernel, hsys, rfl⟩
    · exact hw
    · dsimp only [inotify] at hsys
      split at hsys
      · obtain ⟨rfl, _⟩ := Prod.mk.inj hsys
        exact fun wd' i path hlive hfind =>
          hw wd' i path (Kernel.mem_watches_drop.mp hlive).1 hfind
      · obtain ⟨rfl, _⟩ := Prod.mk.inj hsys
        exact hw

/-- The watcher after `path` has been registered with a watch on `inode`. -/
theorem Answers.register {tree : FileSystem} {w w' : Watcher Kernel HostPath} {path : HostPath}
    {kernel : Kernel} {node : Node} (hw : Answers tree w) (hnode : tree.node path = some node)
    (hone : kernel.OneToOne) (hlive : (wd, node.inode) ∈ kernel.watches)
    (hold : ∀ watch ∈ kernel.watches, watch.1 ≠ wd → watch ∈ w.kernel.watches)
    (hsame : ∀ other, (w.mWdToPathMap.values wd).find? tree.isDir = some other →
      tree.isDir path = false → tree.dir? other = some node.inode)
    (hw' : w' = { w with
      kernel
      mWdToPathMap := (wd, path) :: w.mWdToPathMap
      mPathToWdMap := Function.update w.mPathToWdMap path (some wd) }) : Answers tree w' := by
  subst hw'
  intro wd' i other hmem hfind
  dsimp only at hmem hfind
  rw [Multimap.values_cons] at hfind
  by_cases heq : wd = wd'
  · subst heq
    obtain rfl := hone.inode_unique wd _ _ hlive hmem
    rw [if_pos rfl, List.find?_cons] at hfind
    split at hfind
    · rename_i hdir
      obtain rfl := Option.some.inj hfind
      obtain ⟨j, hj⟩ := Tree.isDir_iff.mp hdir
      rw [hnode] at hj
      obtain rfl := Option.some.inj hj
      exact Tree.dir?_eq_some.mpr hnode
    · rename_i hdir
      exact hsame other hfind hdir
  · rw [if_neg heq] at hfind
    exact hw wd' i other (hold _ hmem (Ne.symm heq)) hfind

/-- A new watch goes wrong only on a file, with a descriptor used before. -/
theorem Tracked.addWatch_iff (hT : Tracked s) (hA : Answers s.tree s.mWatcher)
    (h : step env s (.addWatch wd) = some s') :
    Answers s'.tree s'.mWatcher ↔ Attributes s (.addWatch wd) := by
  obtain ⟨flag, path, outer, hc, hpos, hfresh, htree, hwatcher⟩ := step_addWatch h
  rw [htree]
  rcases hcall : s.mWatcher.addWatch (inotify s.tree wd) path watchMask with ⟨w', ret⟩
  obtain rfl : s'.mWatcher = w' := by rw [hwatcher, hcall]
  simp only [Attributes, hc, Control.adding, Option.mem_def, Option.some.injEq, forall_eq']
  rcases Watcher.addWatch_cases hcall with
    ⟨_, _, hoff⟩ | ⟨hsame, _, wd', hwd'⟩ | ⟨kernel, wd', hsys, _, hpath, hcase⟩
  · rw [hT.initialized] at hoff
    cases hoff
  · rw [hsame, hwd']
    exact ⟨fun _ hnone => (by cases hnone), fun _ => hA⟩
  · rcases inotify_add_watch_cases hsys with
      ⟨rfl, rfl, hnode⟩ | ⟨node, hnode, ⟨rfl, hlive⟩ | ⟨rfl, hnew, rfl⟩⟩
    · rcases hcase with ⟨_, _, hw'⟩ | ⟨hneg, _, _⟩
      · rw [hw']
        refine ⟨fun _ _ hfile => ?_, fun _ => hA⟩
        exact absurd hnode (Tree.isFile_ne_none hfile)
      · omega
    · have hwd := hT.live_nonneg wd' node.inode hlive
      rcases hcase with ⟨hneg, _, _⟩ | ⟨_, _, hw'⟩
      · omega
      · refine ⟨fun _ _ _ hunwatched => ?_, fun _ => ?_⟩
        · exact absurd hlive (Kernel.not_mem_of_wdOf (hunwatched node hnode))
        · exact hA.register hnode hT.oneToOne hlive (fun _ hm _ => hm)
            (fun other hfind _ => hA wd' node.inode other hlive hfind) hw'
    · rcases hcase with ⟨hneg, _, _⟩ | ⟨_, _, hw'⟩
      · omega
      · have hone := hT.oneToOne.add hfresh hnew
        have hunwatched : ∀ node' ∈ s.tree.node path,
            s.mWatcher.kernel.wdOf node'.inode = none := by
          intro node' hnode'
          obtain rfl := Option.some.inj (hnode.symm.trans hnode')
          exact hnew
        constructor
        · intro hA' _ hfile _ other hother
          rw [Bool.eq_false_iff]
          intro hdir
          obtain ⟨found, hfind⟩ := exists_find? hother hdir
          -- a directory that stands for the watch of the file
          have hfirst : (s'.mWatcher.mWdToPathMap.values wd').find? s.tree.isDir = some found := by
            rw [hw', Multimap.values_cons, if_pos rfl, List.find?_cons_of_neg, hfind]
            exact fun hpdir => Tree.not_isFile_of_isDir hpdir hfile
          have hfound := hA' wd' node.inode found (by rw [hw']; exact List.mem_cons_self) hfirst
          have hpq := s.tree.inode_unique _ _ _ _ (Tree.dir?_eq_some.mp hfound) hnode rfl
          rw [hpq] at hfind
          exact Tree.not_isFile_of_isDir (List.find?_some hfind) hfile
        · intro hok
          refine hA.register hnode hone List.mem_cons_self ?_ (fun other hfind hnot => ?_) hw'
          · intro watch hmem hne
            exact (List.mem_cons.mp hmem).elim (fun heq => absurd (heq ▸ rfl) hne) id
          · have hfile := (Tree.isDir_or_isFile (by rw [hnode]; exact Option.some_ne_none _)).elim
              (fun hdir => by rw [hdir] at hnot; cases hnot) id
            have hdead := hok hpath hfile hunwatched other (List.mem_of_find?_eq_some hfind)
            rw [List.find?_some hfind] at hdead
            cases hdead

/-! ### The other programs -/

/-- A step that leaves the watcher's maps and the watches alone. -/
theorem answers_congr {tree : FileSystem} {w w' : Watcher Kernel HostPath}
    (hitems : w'.mWdToPathMap = w.mWdToPathMap) (hlive : w'.kernel.watches = w.kernel.watches) :
    Answers tree w' ↔ Answers tree w := by
  simp only [Answers, hitems, hlive]

theorem Tracked.create_iff {kind : Kind} {name : QString} {dir : HostPath} (hT : Tracked s)
    (hA : Answers s.tree s.mWatcher) (h : step env s (.create kind name dir) = some s') :
    Answers s'.tree s'.mWatcher ↔ Attributes s (.create kind name dir) := by
  obtain ⟨hfree, hdir, _, rfl⟩ := step_create h
  refine (answers_congr (w := s.mWatcher) (by rw [notify_mWatcher]) (notify_watches _ _)).trans ?_
  have hother : ∀ p, p ≠ name :: dir →
      (s.tree.create kind name dir hfree hdir).dir? p = s.tree.dir? p := fun p hp =>
    Tree.dir?_congr (Tree.create_of_ne hfree hdir hp)
  have hold : s.tree.isDir (name :: dir) = false := by
    rw [Bool.eq_false_iff]
    exact fun hd => Tree.isDir_ne_none hd hfree
  cases kind with
  | file =>
    have hself : (s.tree.create .file name dir hfree hdir).dir? (name :: dir) = none := by
      rw [Tree.dir?, Tree.create_self]
    have hsame : (s.tree.create .file name dir hfree hdir).dir? = s.tree.dir? := by
      funext p
      by_cases hp : p = name :: dir
      · cases hd : s.tree.dir? (name :: dir) with
        | none => rw [hp, hself, hd]
        | some i =>
          rw [Tree.isDir, hd] at hold
          cases hold
      · exact hother p hp
    have hsame' : (s.tree.create .file name dir hfree hdir).isDir = s.tree.isDir := by
      funext p
      rw [Tree.isDir, hsame, Tree.isDir]
    refine ⟨fun _ => trivial, fun _ => ?_⟩
    rw [Answers, hsame, hsame']
    exact hA
  | dir =>
    have hself : (s.tree.create .dir name dir hfree hdir).dir? (name :: dir) =
        some s.tree.next := Tree.dir?_eq_some.mpr (Tree.create_self hfree hdir)
    have hisDir : (s.tree.create .dir name dir hfree hdir).isDir =
        fun path => path = name :: dir || s.tree.isDir path := by
      funext p
      by_cases hp : p = name :: dir
      · simp [Tree.isDir, hp, hself]
      · simp [Tree.isDir, hp, hother p hp]
    rw [Answers, hisDir]
    constructor
    · intro hA' watch hlive hfind
      have hwrong := hA' watch.1 watch.2 _ hlive hfind
      rw [hself] at hwrong
      exact absurd (hT.live_old watch hlive) (by rw [Option.some.inj hwrong]; exact lt_irrefl _)
    · intro hok wd i path hlive hfind
      have hne : path ≠ name :: dir := fun heq => hok (wd, i) hlive (heq ▸ hfind)
      rw [hother path hne]
      have hpath : s.tree.isDir path = true := by simpa [hne] using List.find?_some hfind
      exact hA wd i path hlive (find?_of_imp (fun p hp => by simp [hp]) hpath hfind)

theorem rmdir_iff {name : QString} {dir : HostPath}
    (hA : Answers s.tree s.mWatcher) (h : step env s (.rmdir name dir) = some s') :
    Answers s'.tree s'.mWatcher ↔ Attributes s (.rmdir name dir) := by
  obtain ⟨hvacant, rfl⟩ := step_rmdir h
  have hother : ∀ p, p ≠ name :: dir →
      (s.tree.remove name dir (node_of_vacant hvacant)).dir? p = s.tree.dir? p := fun p hp =>
    Tree.dir?_congr (Function.update_of_ne hp _ _)
  have hgone : (s.tree.remove name dir (node_of_vacant hvacant)).isDir (name :: dir) = false := by
    rw [Bool.eq_false_iff]
    exact fun hd => Tree.isDir_ne_none hd (Function.update_self _ _ _)
  have hisDir : ∀ p, p ≠ name :: dir →
      (s.tree.remove name dir (node_of_vacant hvacant)).isDir p = s.tree.isDir p := fun p hp => by
    rw [Tree.isDir, hother p hp, Tree.isDir]
  have hremoved : ∀ p, (s.tree.remove name dir (node_of_vacant hvacant)).isDir p = true →
      p ≠ name :: dir := by
    rintro p hp rfl
    rw [hgone] at hp
    cases hp
  have hweaker : ∀ p, (s.tree.remove name dir (node_of_vacant hvacant)).isDir p = true →
      s.tree.isDir p = true := fun p hp => (hisDir p (hremoved p hp)).symm.trans hp
  constructor
  · intro hA' watch hlive hown path hpath hne
    rw [Bool.eq_false_iff]
    intro hdir
    obtain ⟨found, hfind⟩ := exists_find? hpath ((hisDir path hne).trans hdir)
    have hstays := hA' watch.1 watch.2 found hlive hfind
    have hfound := hremoved found (List.find?_some hfind)
    rw [hother found hfound] at hstays
    exact hfound (Tree.dir?_unique hstays hown)
  · intro hok wd i path hlive hfind
    have hpath := hremoved path (List.find?_some hfind)
    have hdir := hweaker path (List.find?_some hfind)
    have hmem := List.mem_of_find?_eq_some hfind
    obtain ⟨first, hfirst⟩ := exists_find? hmem hdir
    have hown := hA wd i first hlive hfirst
    by_cases heq : first = name :: dir
    · have hnot := hok (wd, i) hlive (heq ▸ hown) path hmem hpath
      rw [hdir] at hnot
      cases hnot
    · have hstays := find?_of_imp hweaker
        ((hisDir first heq).trans (List.find?_some hfirst)) hfirst
      obtain rfl : first = path := Option.some.inj (hstays.symm.trans hfind)
      exact (hother first hpath).trans hown

theorem rename_iff {old : HostPath} {name : QString} {dir : HostPath}
    (h : step env s (.rename old name dir) = some s') :
    Answers s'.tree s'.mWatcher ↔ Attributes s (.rename old name dir) := by
  obtain ⟨hdir, hout, rfl⟩ := step_rename h
  have hgone : ∀ p, old <:+ p ∧ ¬ name :: dir <:+ p →
      (s.tree.rename old name dir hdir hout).dir? p = none := by
    intro p hp
    have hnone : (s.tree.rename old name dir hdir hout).node p = none := if_pos hp
    rw [Tree.dir?, hnone]
  have hmoved : ∀ p, ¬ (old <:+ p ∧ ¬ name :: dir <:+ p) →
      (s.tree.rename old name dir hdir hout).dir? p =
        s.tree.dir? (Tree.origin old (name :: dir) p) := fun p hp => Tree.dir?_congr (if_neg hp)
  have hisDir : (s.tree.rename old name dir hdir hout).isDir =
      standsAfter s.tree old (name :: dir) := by
    funext p
    by_cases hp : old <:+ p ∧ ¬ name :: dir <:+ p
    · simp [Tree.isDir, standsAfter, hgone p hp, hp]
    · rw [Tree.isDir, hmoved p hp]
      have hp' : ¬ old <:+ p ∨ name :: dir <:+ p := by
        rwa [not_and_or, not_not] at hp
      simp [standsAfter, hp', Tree.isDir]
  have hstands : ∀ p, standsAfter s.tree old (name :: dir) p = true →
      ¬ (old <:+ p ∧ ¬ name :: dir <:+ p) := by
    intro p hp hout
    simp [standsAfter, hout] at hp
  refine (answers_congr (w := s.mWatcher) ?_ ?_).trans ?_
  · rw [notify_mWatcher, notify_mWatcher]
  · rw [notify_watches, notify_watches]
  · show Answers (s.tree.rename old name dir hdir hout) s.mWatcher ↔ _
    rw [Answers, hisDir]
    refine ⟨fun hA' watch hlive path hfind => ?_, fun hok wd i path hlive hfind => ?_⟩
    · have hpath := hstands path (List.find?_some hfind)
      exact (hmoved path hpath).symm.trans (hA' watch.1 watch.2 path hlive hfind)
    · have hpath := hstands path (List.find?_some hfind)
      exact (hmoved path hpath).trans (hok (wd, i) hlive path hfind)

theorem Tracked.mono (hT : Tracked s)
    (hinit : s'.mWatcher.mInitialized = s.mWatcher.mInitialized)
    (hlive : ∀ watch ∈ s'.mWatcher.kernel.watches, watch ∈ s.mWatcher.kernel.watches)
    (hnext : s.tree.next ≤ s'.tree.next) : Tracked s' where
  initialized := hinit.trans hT.initialized
  live_nonneg wd i hm := hT.live_nonneg wd i (hlive _ hm)
  oneToOne := hT.oneToOne.mono hlive
  live_old watch hm := Nat.lt_of_lt_of_le (hT.live_old watch (hlive _ hm)) hnext

theorem Called.mono {tree : FileSystem} {w w' : Watcher Kernel HostPath} (h : Called tree w w') :
    w'.mInitialized = w.mInitialized ∧ ∀ watch ∈ w'.kernel.watches, watch ∈ w.kernel.watches := by
  cases h with
  | nothing => exact ⟨rfl, fun _ hm => hm⟩
  | read queue => exact ⟨rfl, fun _ hm => hm⟩
  | removeRound wd j =>
    rcases hround : w.removeRound wd j (((w.mWdToPathMap.values wd)[j]?).any tree.isDir) with ⟨u, k⟩
    rcases Watcher.removeRound_cases hround with ⟨rfl, _⟩ | ⟨_, _, _, _, rfl⟩
    · exact ⟨rfl, fun _ hm => hm⟩
    · exact ⟨rfl, fun _ hm => hm⟩
  | dropUnused wd =>
    rcases hdrop : w.dropUnused (inotify tree 0) wd with ⟨u, ret⟩
    rcases Watcher.dropUnused_cases hdrop with ⟨rfl, _⟩ | ⟨_, kernel, hsys, rfl⟩
    · exact ⟨rfl, fun _ hm => hm⟩
    · dsimp only [inotify] at hsys
      split at hsys
      · obtain ⟨rfl, _⟩ := Prod.mk.inj hsys
        exact ⟨rfl, fun watch hm => (Kernel.mem_watches_drop.mp hm).1⟩
      · obtain ⟨rfl, _⟩ := Prod.mk.inj hsys
        exact ⟨rfl, fun _ hm => hm⟩

theorem Tracked.addWatch (hT : Tracked s) (h : step env s (.addWatch wd) = some s') :
    Tracked s' := by
  obtain ⟨_, path, _, _, hpos, hfresh, htree, hwatcher⟩ := step_addWatch h
  rcases hcall : s.mWatcher.addWatch (inotify s.tree wd) path watchMask with ⟨w', ret⟩
  obtain rfl : s'.mWatcher = w' := by rw [hwatcher, hcall]
  have hnext : s.tree.next ≤ s'.tree.next := by rw [htree]
  rcases Watcher.addWatch_cases hcall with
    ⟨hsame, _⟩ | ⟨hsame, _⟩ | ⟨kernel, wd', hsys, _, _, hcase⟩
  · exact hT.mono (by rw [hsame]) (by rw [hsame]; exact fun _ hm => hm) hnext
  · exact hT.mono (by rw [hsame]) (by rw [hsame]; exact fun _ hm => hm) hnext
  · have hinit : s'.mWatcher.mInitialized = s.mWatcher.mInitialized := by
      rcases hcase with ⟨_, _, hw'⟩ | ⟨_, _, hw'⟩ <;> rw [hw']
    have hkernel : s'.mWatcher.kernel = kernel := by
      rcases hcase with ⟨_, _, hw'⟩ | ⟨_, _, hw'⟩ <;> rw [hw']
    rcases inotify_add_watch_cases hsys with
      ⟨rfl, _, _⟩ | ⟨node, hnode, ⟨rfl, _⟩ | ⟨rfl, hnew, rfl⟩⟩
    · exact hT.mono hinit (by rw [hkernel]; exact fun _ hm => hm) hnext
    · exact hT.mono hinit (by rw [hkernel]; exact fun _ hm => hm) hnext
    · refine ⟨hinit.trans hT.initialized, fun k i hm => ?_, ?_, fun watch hm => ?_⟩
      · rw [hkernel] at hm
        rcases List.mem_cons.mp hm with heq | hm
        · exact (Prod.mk.inj heq).1 ▸ hpos
        · exact hT.live_nonneg k i hm
      · rw [hkernel]
        exact hT.oneToOne.add hfresh hnew
      · rw [hkernel] at hm
        rw [htree]
        rcases List.mem_cons.mp hm with rfl | hm
        · exact s.tree.inode_lt path node hnode
        · exact hT.live_old watch hm

/-- A step leaves the answers right exactly if it meets the condition. -/
theorem Tracked.step (hT : Tracked s) (hA : Attributed s) (h : step env s a = some s') :
    Tracked s' ∧ (Attributed s' ↔ Attributes s a) := by
  have hans := hT.attributed_iff.mp hA
  have hstep : Tracked s' ∧ (Answers s'.tree s'.mWatcher ↔ Attributes s a) := by
    cases a with
    | create kind name dir =>
      have hiff := hT.create_iff hans h
      obtain ⟨_, _, _, rfl⟩ := step_create h
      refine ⟨hT.mono ?_ (fun watch hm => ?_) (Nat.le_succ _), hiff⟩
      · show (s.notify dir _).mWatcher.mInitialized = _
        rw [notify_mWatcher]
      · rwa [notify_watches] at hm
    | rmdir name dir =>
      have hiff := rmdir_iff hans h
      obtain ⟨_, rfl⟩ := step_rmdir h
      exact ⟨hT.mono rfl (fun _ hm => hm) (Nat.le_refl _), hiff⟩
    | rename old name dir =>
      have hiff := rename_iff h
      obtain ⟨_, _, rfl⟩ := step_rename h
      refine ⟨hT.mono ?_ (fun watch hm => ?_) (Nat.le_refl _), hiff⟩
      · show ((s.notify dir _).notify old _).mWatcher.mInitialized = _
        rw [notify_mWatcher, notify_mWatcher]
      · rwa [notify_watches, notify_watches] at hm
    | evict inode =>
      obtain ⟨_, rfl⟩ := step_evict h
      have hlive : ∀ watch ∈ (s.mWatcher.kernel.evict inode).watches,
          watch ∈ s.mWatcher.kernel.watches := fun watch hm =>
        (hT.oneToOne.mem_watches_evict.mp hm).1
      exact ⟨hT.mono rfl hlive (Nat.le_refl _), fun _ => trivial,
        fun _ wd i path hm hfind => hans wd i path (hlive _ hm) hfind⟩
    | serve =>
      obtain ⟨htree, hcalled⟩ := serve_called h
      obtain ⟨hinit, hlive⟩ := hcalled.mono
      exact ⟨hT.mono hinit hlive (by rw [htree]), fun _ => trivial, fun _ =>
        htree ▸ hcalled.answers hans⟩
    | addWatch wd => exact ⟨hT.addWatch h, hT.addWatch_iff hans h⟩
    | readdir entry =>
      obtain ⟨htree, hwatcher⟩ := step_readdir h
      exact ⟨hT.mono (by rw [hwatcher]) (by rw [hwatcher]; exact fun _ hm => hm) (by rw [htree]),
        fun _ => trivial, fun _ => by rw [htree, hwatcher]; exact hans⟩
  exact ⟨hstep.1, hstep.1.attributed_iff.trans hstep.2⟩

end Step

/-! ## Whole runs -/

/-- In every run from a watched directory, `watchedPathFromWd` is right about
every live descriptor in every state on the way exactly if every step of the
run meets the condition. -/
theorem event_attribution {env : Env} {r : HostPath} {s s' : State} {as : List Action}
    (hstart : Started r s) (hrun : Runs.run (step env) s as = some s') :
    Runs.Guarded (step env) Attributes s as ↔
      ∀ bs t, bs <+: as → Runs.run (step env) s bs = some t → Attributed t := by
  refine Runs.Guarded.iff_forall_prefix (I := fun s => Tracked s ∧ Attributed s) ?_ ?_ ?_
    ⟨hstart.invariant.tracked, hstart.invariant.attributed⟩ hrun
  · exact fun t ht => ht.2
  · exact fun t a t' ht hstep => (ht.1.step ht.2 hstep).2
  · intro t a t' ht hok hstep
    obtain ⟨htracked, hiff⟩ := ht.1.step ht.2 hstep
    exact ⟨htracked, hiff.mpr hok⟩

/-! ## A directory that is moved out -/

/-- Without entries left to handle, the thread handles the self event of a
directory with one path, and the event that its watch is gone. -/
def forgetOne : List Action := [.serve, .serve, .serve, .serve]

/-- An album with a directory in it is moved out of the watched tree, and an
empty album is made in its place. -/
def movedOutRun : List Action :=
  [.create .dir "a".toList pictures] ++ scanEmpty 2 ++
    [.create .dir "c".toList album] ++ scanEmpty 3 ++
    [.rename album "a".toList ["kylin".toList, "home".toList]] ++ forgetOne ++
    [.create .dir "a".toList pictures] ++ scanEmpty 4

theorem event_attribution_moved_out : ∃ s', Runs.run (step userEnv) watched movedOutRun = some s' ∧
    Quiet s' ∧ ∀ bs t, bs <+: movedOutRun → Runs.run (step userEnv) watched bs = some t →
      Attributed t := by
  have hdone : ((Runs.run (step userEnv) watched movedOutRun).map fun s =>
      (s.control, s.mWatcher.kernel.queue)) = some (.idle, []) := by decide +kernel
  have hok : Runs.Guarded (step userEnv) Attributes watched movedOutRun := by decide +kernel
  obtain ⟨s', hrun, hend⟩ := Option.map_eq_some_iff.mp hdone
  exact ⟨s', hrun, Prod.mk.inj hend, (event_attribution watched_alone.started hrun).mp hok⟩

/-- Once the album made again has its directory too, the descriptor of the one
that was moved out leads to the new one. -/
theorem moved_out_misattributed : ∃ s', Started pictures watched ∧
    (∀ a ∈ movedOutRun ++ [.create .dir "c".toList album] ++ scanEmpty 5, Confined pictures a) ∧
    Runs.run (step userEnv) watched
      (movedOutRun ++ [.create .dir "c".toList album] ++ scanEmpty 5) = some s' ∧ Quiet s' ∧
    ∃ wd i path, (wd, i) ∈ s'.mWatcher.kernel.watches ∧
      s'.mWatcher.watchedPathFromWd s'.tree.isDir wd = some path ∧
      s'.tree.dir? path ≠ some i := by
  have hdone : ((Runs.run (step userEnv) watched
      (movedOutRun ++ [.create .dir "c".toList album] ++ scanEmpty 5)).map fun s =>
      ((s.control, s.mWatcher.kernel.queue), s.mWatcher.kernel.watches,
        s.tree.dir? ("c".toList :: album))) =
      some ((.idle, []), [(4, 6), (3, 5), (1, 3)], some 7) := by decide +kernel
  have hanswer : ((Runs.run (step userEnv) watched
      (movedOutRun ++ [.create .dir "c".toList album] ++ scanEmpty 5)).bind fun s =>
      s.mWatcher.watchedPathFromWd s.tree.isDir 3) = some ("c".toList :: album) := by
    decide +kernel
  obtain ⟨s', hrun, hend⟩ := Option.map_eq_some_iff.mp hdone
  obtain ⟨hquiet, hrest⟩ := Prod.mk.inj hend
  obtain ⟨hwatches, hdir⟩ := Prod.mk.inj hrest
  rw [hrun, Option.bind_some] at hanswer
  refine ⟨s', watched_alone.started, by decide +kernel, hrun, Prod.mk.inj hquiet, 3, 5, _, ?_,
    hanswer, ?_⟩
  · rw [hwatches]
    simp
  · rw [hdir]
    simp

end KmreManager.FileInotifyService
