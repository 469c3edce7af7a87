import KmreManager.FileInotifyService.Discovery
import KmreManager.FileInotifyService.NoLoss

/-! # When the two ways agree -/
namespace KmreManager.FileInotifyService.Discovery
open KmreManager.Lib KmreManager.FileInotifyWatcher

/-- A file is in `mFileList`. -/
def Lists (s : State) (path : QString) : Prop := ∃ info ∈ s.mFileList, info.path = path

/-- The same directories are watched and the same files are listed. -/
def SameDiscovery (s t : State) : Prop :=
  (∀ p, (s.kernel.wdOf p).isSome ↔ (t.kernel.wdOf p).isSome) ∧ ∀ f, Lists s f ↔ Lists t f

/-- The directory that is to hold the tree is watched, and nothing is known of
a path at or below `root`. -/
structure Start (root : RawPath) (s : State) : Prop where
  initialized : s.mWatcher.mInitialized = true
  next_nonneg : 0 ≤ s.kernel.next
  watch_lt : ∀ p wd, (p, wd) ∈ s.kernel.watches → wd < s.kernel.next
  value_lt : ∀ p wd, (wd, p) ∈ s.mWatcher.mWdToPathMap → wd < s.kernel.next
  queue : s.kernel.queue = []
  watched : ∃ wd path, toStdString path = root.tail ∧ s.kernel.wdOf root.tail = some wd ∧
    s.mWatcher.watchedPathFromWd s.leadsToDir wd = some path
  unknown : ∀ p, root <:+ p → s.lstat p = none ∧
    s.mWatcher.mPathToWdMap (ofBytes p) = none ∧ s.kernel.wdOf p = none ∧
    ∀ wd, (wd, ofBytes p) ∉ s.mWatcher.mWdToPathMap

section Start
variable {root : RawPath} {s : State}

/-- The directory that holds the tree, as the service has it. -/
theorem Start.parent (h : Start root s) : ∃ wd, Spelled root.tail ∧
    s.kernel.wdOf root.tail = some wd ∧
    s.mWatcher.watchedPathFromWd s.leadsToDir wd = some (ofBytes root.tail) := by
  obtain ⟨wd, path, hpath, hwd, hnamed⟩ := h.watched
  have hback : ofBytes root.tail = path := by rw [← hpath, ofBytes_toStdString]
  refine ⟨wd, ?_, hwd, by rw [hback]; exact hnamed⟩
  rw [Spelled, hback, hpath]

theorem Start.rooted (h : Start root s) : Rooted root s := by
  have hnone : ∀ p t, root <:+ p → (p, t) ∉ s.files := fun p t hp =>
    lstat_eq_none_iff.mp (h.unknown p hp).1 t
  obtain ⟨_, hparent, -⟩ := h.parent
  refine ⟨fun p t hp => ?_, fun n p t hp hmem => ?_, fun n p t hp hmem => ?_,
    fun p t hp hmem => ?_, hparent⟩
  · rw [(h.unknown p hp).1]
    simp [hnone p t hp]
  · exact absurd hmem (hnone _ t (hp.trans (List.suffix_cons n p)))
  · exact absurd hmem (hnone _ t (hp.trans (List.suffix_cons n p)))
  · exact absurd hmem (hnone p t hp)

theorem Start.tended (h : Start root s) : Tended root s where
  initialized := h.initialized
  next_nonneg := h.next_nonneg
  watch_lt := h.watch_lt
  value_lt := h.value_lt
  map_eq p hp _ := by rw [(h.unknown p hp).2.1, (h.unknown p hp).2.2.1]
  value_watched p wd hmem hp _ := absurd hmem ((h.unknown p hp).2.2.2 wd)
  watched_dir p hp hwatched := by
    rw [(h.unknown p hp).2.2.1] at hwatched
    cases hwatched
  named p wd hp hwd := by
    obtain ⟨wd', -, hwd', hnamed⟩ := h.parent
    rcases hp with rfl | hp
    · rw [hwd'] at hwd
      cases hwd
      exact hnamed
    · rw [(h.unknown p hp).2.2.1] at hwd
      cases hwd

/-- A complete tree, of which the service has heard nothing. -/
theorem Start.built (h : Start root s) {order : List (RawPath × FileType)} {s' : State}
    (hbelow : ∀ entry ∈ order, root <:+ entry.1)
    (hnames : ∀ entry ∈ order, ∀ name ∈ entry.1.head?, QString.ComesBack name)
    (hrun : Runs.run make s order = some s') :
    Tended root s' ∧ Rooted root s' ∧ s'.files = order.reverse ++ s.files ∧
      (∀ p, s'.kernel.wdOf p = s.kernel.wdOf p) ∧ s'.mFileList = s.mFileList := by
  have hrooted := h.rooted
  have htended := h.tended
  clear h
  induction order generalizing s with
  | nil =>
    cases hrun
    exact ⟨htended, hrooted, rfl, fun _ => rfl, rfl⟩
  | cons entry order ih =>
    obtain ⟨t, hmake, hrest⟩ := Runs.run_cons_some.mp hrun
    have hroot := hbelow entry List.mem_cons_self
    have hspelled := hrooted.spelled_make hroot (hnames entry List.mem_cons_self) hmake
    obtain ⟨ht, hr, hfiles, hwd, hlist⟩ := ih
      (fun e he => hbelow e (List.mem_cons_of_mem entry he))
      (fun e he => hnames e (List.mem_cons_of_mem entry he)) hrest
      (hrooted.make hspelled hmake) (htended.make hroot hspelled hmake)
    refine ⟨ht, hr, ?_, fun p => (hwd p).trans (wdOf_make hmake p),
      hlist.trans (mFileList_make hmake)⟩
    rw [hfiles, files_make hmake]
    simp

end Start

/-! ## Event by event -/

section Events
variable {env : Env} {root dir p : RawPath} {start s s' : State} {wd : Int} {name : FileName}
  {entry : RawPath × FileType}

/-- What was made below `root` is known, or its event still waits; and whatever
is known is in the tree, or was known at the start. -/
structure Discovering (env : Env) (root : RawPath) (start s : State) : Prop where
  tended : Tended root s
  rooted : Rooted root s
  watched_old : ∀ p, (start.kernel.wdOf p).isSome → (s.kernel.wdOf p).isSome
  watched_new : ∀ p, (s.kernel.wdOf p).isSome → (start.kernel.wdOf p).isSome ∨ root <:+ p
  listed_old : ∀ f, Lists start f → Lists s f
  listed_new : ∀ f, Lists s f → Lists start f ∨ ∃ p, root <:+ p ∧
    s.isPathRegularFile p = true ∧ env.notifies (filePath (ofBytes p)) = true ∧
      filePath (ofBytes p) = f
  event : ∀ wd name, (wd, name) ∈ s.kernel.queue → ∃ dir,
    s.kernel.wdOf dir = some wd ∧ root <:+ name :: dir ∧ name ≠ [] ∧ QString.ComesBack name
  known : ∀ p, root <:+ p →
    (∃ wd name dir, p = name :: dir ∧ (wd, name) ∈ s.kernel.queue ∧ s.kernel.wdOf dir = some wd) ∨
      (s.isPathDir p = true → (s.kernel.wdOf p).isSome) ∧
      (s.isPathRegularFile p = true → env.notifies (filePath (ofBytes p)) = true →
        Lists s (filePath (ofBytes p)))

theorem Start.discovering (h : Start root start) : Discovering env root start start where
  tended := h.tended
  rooted := h.rooted
  watched_old _ hp := hp
  watched_new _ hp := Or.inl hp
  listed_old _ hf := hf
  listed_new _ hf := Or.inl hf
  event wd name hmem := by
    rw [h.queue] at hmem
    cases hmem
  known p hp := by
    right
    rw [isPathDir_iff, isPathRegularFile_iff, (h.unknown p hp).1]
    simp

/-- Making an entry in a watched directory queues its event. -/
theorem queue_make {dir : RawPath} (hpath : entry.1 = name :: dir)
    (hwd : s.kernel.wdOf dir = some wd) (h : make s entry = some s') :
    s'.kernel.queue = s.kernel.queue ++ [(wd, name)] := by
  obtain ⟨name', dir', hpath', _, _, _, rfl⟩ := make_cases h
  obtain ⟨rfl, rfl⟩ : name' = name ∧ dir' = dir := by simpa using hpath'.symm.trans hpath
  show (s.kernel.notify dir' name').queue = _
  simp [Kernel.notify, hwd]

theorem Discovering.make (h : Discovering env root start s) (hroot : root <:+ entry.1)
    (hback : ∀ name ∈ entry.1.head?, QString.ComesBack name)
    (hparent : (s.kernel.wdOf entry.1.tail).isSome) (hmake : make s entry = some s') :
    Discovering env root start s' := by
  obtain ⟨name, dir, hpath, hvalid, hfree, hdir, _⟩ := make_cases hmake
  have hspelled := h.rooted.spelled_make hroot hback hmake
  rw [hpath] at hroot hparent hback
  obtain ⟨wd, hwd⟩ := Option.isSome_iff_exists.mp hparent
  have hqueue := queue_make hpath hwd hmake
  have hwdOf := wdOf_make hmake
  have hlist : ∀ f, Lists s' f ↔ Lists s f := fun f => by simp only [Lists, mFileList_make hmake]
  have hlstat : ∀ p, name :: dir ≠ p → s'.lstat p = s.lstat p := fun p hp => by
    rw [lstat_make hmake, hpath, if_neg hp]
  refine ⟨h.tended.make (hpath ▸ hroot) hspelled hmake, h.rooted.make hspelled hmake,
    ?_, ?_, ?_, ?_, ?_, ?_⟩
  · intro p hp
    rw [hwdOf]
    exact h.watched_old p hp
  · intro p hp
    rw [hwdOf] at hp
    exact h.watched_new p hp
  · intro f hf
    exact (hlist f).mpr (h.listed_old f hf)
  · intro f hf
    refine (h.listed_new f ((hlist f).mp hf)).imp id fun ⟨p, hp, hreg, hrest⟩ => ?_
    exact ⟨p, hp, isPathRegularFile_iff.mpr
      (lstat_make_of_some hmake (isPathRegularFile_iff.mp hreg)), hrest⟩
  · intro wd' name' hmem
    rw [hqueue] at hmem
    rcases List.mem_append.mp hmem with hmem | hmem
    · obtain ⟨dir', hdir', hrest⟩ := h.event wd' name' hmem
      exact ⟨dir', by rw [hwdOf]; exact hdir', hrest⟩
    · obtain ⟨rfl, rfl⟩ := by simpa using hmem
      exact ⟨dir, by rw [hwdOf]; exact hwd, hroot, validFileName_ne_nil hvalid, hback _ rfl⟩
  · intro p hp
    by_cases heq : name :: dir = p
    · exact Or.inl ⟨wd, name, dir, heq.symm, by rw [hqueue]; simp, by rw [hwdOf]; exact hwd⟩
    · refine (h.known p hp).imp ?_ ?_
      · rintro ⟨wd', name', dir', rfl, hmem, hwd'⟩
        exact ⟨wd', name', dir', rfl, by rw [hqueue]; exact List.mem_append_left _ hmem,
          by rw [hwdOf]; exact hwd'⟩
      · rintro ⟨hd, hf⟩
        rw [isPathDir_iff, isPathRegularFile_iff, hwdOf, hlist, hlstat p heq]
        rw [isPathDir_iff] at hd
        rw [isPathRegularFile_iff] at hf
        exact ⟨hd, hf⟩

/-- The service has a text for every directory it watches. -/
theorem Tended.spelled (h : Tended root s) (hr : Rooted root s) (hp : p = root.tail ∨ root <:+ p)
    (hwd : s.kernel.wdOf p = some wd) : Spelled p := by
  rcases hp with rfl | hbelow
  · exact hr.parent
  · exact hr.spelled_of_dir hbelow (h.watched_dir p hbelow (by rw [hwd]; rfl))

/-- A descriptor of the tree has one path. -/
theorem Tended.wdOf_inj {q : RawPath} (h : Tended root s) (hr : Rooted root s)
    (hp : p = root.tail ∨ root <:+ p) (hq : q = root.tail ∨ root <:+ q)
    (hpwd : s.kernel.wdOf p = some wd) (hqwd : s.kernel.wdOf q = some wd) : p = q := by
  have hnamed := h.named p wd hp hpwd
  rw [h.named q wd hq hqwd] at hnamed
  exact (h.spelled hr hp hpwd).ofBytes_inj (h.spelled hr hq hqwd) (Option.some.inj hnamed).symm

/-- What handling the event of one entry adds: nothing outside the tree, and
the entry itself. -/
theorem handleCreate_adds (env : Env) (ht : Tended root s) (hr : Rooted root s)
    (hwd : s.kernel.wdOf dir = some wd) (hp : root <:+ name :: dir) (hname : name ≠ [])
    (hback : QString.ComesBack name) :
    ∃ dirs files, Adds root s (handleCreate env s wd name) dirs files ∧
      (∀ q, dirs q → root <:+ q) ∧
      (∀ q, files q → root <:+ q ∧ s.isPathRegularFile q = true ∧
        env.notifies (filePath (ofBytes q)) = true) ∧
      (s.isPathDir (name :: dir) = true → dirs (name :: dir)) ∧
      (s.isPathRegularFile (name :: dir) = true →
        env.notifies (filePath (ofBytes (name :: dir))) = true → files (name :: dir)) := by
  have hnamed := ht.named dir wd (tail_or_below hp) hwd
  have hspelled := ht.spelled hr (tail_or_below hp) hwd
  -- the path that `run` puts together is that of the entry
  have hpath : QString.fromName name :: ofBytes dir = ofBytes (name :: dir) := by
    rw [hback.fromName_eq]
    rfl
  have hbytes : toStdString (ofBytes (name :: dir)) = name :: dir :=
    spelled_cons.mpr ⟨hback.1, hspelled⟩
  simp only [handleCreate, if_neg hname, hnamed, hpath, hbytes]
  by_cases hdir : s.isPathDir (name :: dir) = true
  · have hnot := not_regular_of_dir hdir
    rw [if_pos hdir]
    refine ⟨_, _, ht.addWatchRecursively env true hr hp hdir, ?_, ?_, ?_, ?_⟩
    · rintro q ⟨_, ⟨rel, rfl, _⟩, _⟩
      exact hp.trans (List.suffix_append rel _)
    · rintro q ⟨_, hreg, hnotifies, ⟨rel, rfl, _⟩, _⟩
      exact ⟨hp.trans (List.suffix_append rel _), hreg, hnotifies⟩
    · exact fun _ => ⟨hdir, visible_iff.mpr (Or.inl rfl), by omega⟩
    · exact fun hreg => absurd hreg hnot
  · rw [if_neg hdir]
    by_cases hreg : s.isPathRegularFile (name :: dir) = true
    · rw [if_pos hreg]
      refine ⟨_, _, ht.addNotifyFile env (name :: dir), fun q hq => hq.elim, ?_,
        fun h => absurd h hdir, fun _ hnotifies => ⟨rfl, hnotifies⟩⟩
      rintro q ⟨rfl, hnotifies⟩
      exact ⟨hp, hreg, hnotifies⟩
    · rw [if_neg hreg]
      exact ⟨_, _, Adds.none ht, fun q hq => hq.elim, fun q hq => hq.elim,
        fun h => absurd h hdir, fun h => absurd h hreg⟩

theorem Discovering.handle (h : Discovering env root start s)
    (hstep : step env s .handle = some s') :
    Discovering env root start s' ∧ s'.files = s.files ∧
      s'.kernel.queue = s.kernel.queue.tail := by
  obtain ⟨wd, name, queue, hqueue, rfl⟩ := step_handle hstep
  obtain ⟨dir, hwd, hp, hname, hback⟩ :=
    h.event wd name (by rw [hqueue]; exact List.mem_cons_self)
  have ht : Tended root (s.setKernel { s.kernel with queue }) :=
    ⟨h.tended.1, h.tended.2, h.tended.3, h.tended.4, h.tended.5, h.tended.6, h.tended.7,
      h.tended.8⟩
  obtain ⟨dirs, files, hadds, hdirs, hfiles, hentry, hentry'⟩ :=
    handleCreate_adds env ht (h.rooted.congr rfl) hwd hp hname hback
  have hsame : (handleCreate env (s.setKernel { s.kernel with queue }) wd name).files = s.files :=
    hadds.files_eq
  have hqueue' := hadds.queue_eq
  have hwatched := hadds.watched
  have hkept := hadds.kept
  have hlisted := hadds.listed
  refine ⟨⟨hadds.tended, h.rooted.congr hsame, ?_, ?_, ?_, ?_, ?_, ?_⟩, hsame,
    by rw [hqueue', hqueue]; rfl⟩
  · intro p hp
    exact (hwatched p).mpr (Or.inl (h.watched_old p hp))
  · intro p hp
    exact ((hwatched p).mp hp).elim (h.watched_new p) fun hd => Or.inr (hdirs p hd)
  · intro f hf
    exact (hlisted f).mpr (Or.inl (h.listed_old f hf))
  · intro f hf
    rw [isPathRegularFile_congr hsame]
    rcases (hlisted f).mp hf with hf | ⟨p, hp, rfl⟩
    · exact h.listed_new f hf
    · obtain ⟨hbelow, hreg, hnotifies⟩ := hfiles p hp
      exact Or.inr ⟨p, hbelow, hreg, hnotifies, rfl⟩
  · intro wd' name' hmem
    rw [hqueue'] at hmem
    obtain ⟨dir', hdir', hrest⟩ := h.event wd' name' (by rw [hqueue]; exact .tail _ hmem)
    exact ⟨dir', hkept dir' wd' hdir', hrest⟩
  · intro p hbelow
    rw [isPathDir_congr hsame, isPathRegularFile_congr hsame, hqueue']
    rcases h.known p hbelow with ⟨wd', name', dir', rfl, hmem, hwd'⟩ | ⟨hd, hf⟩
    · rw [hqueue, List.mem_cons] at hmem
      rcases hmem with heq | hmem
      · -- the event that has been handled is the one of this entry
        obtain ⟨rfl, rfl⟩ := by simpa using heq
        obtain rfl : dir' = dir := h.tended.wdOf_inj h.rooted (tail_or_below hbelow)
          (tail_or_below hp) hwd' hwd
        exact Or.inr ⟨fun hd => (hwatched _).mpr (Or.inr (hentry hd)),
          fun hreg hnotifies => (hlisted _).mpr (Or.inr ⟨_, hentry' hreg hnotifies, rfl⟩)⟩
      · exact Or.inl ⟨wd', name', dir', rfl, hmem, hkept dir' wd' hwd'⟩
    · exact Or.inr ⟨fun hp => (hwatched p).mpr (Or.inl (hd hp)),
        fun hreg hnotifies => (hlisted _).mpr (Or.inl (hf hreg hnotifies))⟩

theorem Discovering.step {action : Action} (h : Discovering env root start s)
    (hroot : ∀ entry, action = .make entry → root <:+ entry.1)
    (hnames : ∀ entry, action = .make entry → ∀ name ∈ entry.1.head?, QString.ComesBack name)
    (hstep : step env s action = some s') : Discovering env root start s' ∧
      ∀ entry, entry ∈ s'.files ↔ entry ∈ s.files ∨ action = .make entry := by
  cases action with
  | make made =>
    simp only [Discovery.step] at hstep
    split at hstep
    · rename_i hparent
      refine ⟨h.make (hroot made rfl) (hnames made rfl) hparent hstep, fun entry => ?_⟩
      rw [files_make hstep]
      simp [or_comm, eq_comm]
    · cases hstep
  | handle =>
    obtain ⟨hs', hfiles, _⟩ := h.handle hstep
    exact ⟨hs', by simp [hfiles]⟩

/-- The files at the end of a run are those of its start and those it makes. -/
theorem Discovering.run {acts : List Action} (h : Discovering env root start s)
    (hroot : ∀ entry, Action.make entry ∈ acts → root <:+ entry.1)
    (hnames : ∀ entry, Action.make entry ∈ acts → ∀ name ∈ entry.1.head?, QString.ComesBack name)
    (hrun : Runs.run (Discovery.step env) s acts = some s') :
    Discovering env root start s' ∧
      ∀ entry, entry ∈ s'.files ↔ entry ∈ s.files ∨ Action.make entry ∈ acts := by
  induction acts generalizing s with
  | nil =>
    cases hrun
    exact ⟨h, by simp⟩
  | cons action acts ih =>
    obtain ⟨t, hstep, hrest⟩ := Runs.run_cons_some.mp hrun
    obtain ⟨ht, hmade⟩ := h.step (fun entry he => hroot entry (by simp [he]))
      (fun entry he => hnames entry (by simp [he])) hstep
    obtain ⟨hend, hfiles⟩ := ih ht (fun entry he => hroot entry (List.mem_cons_of_mem _ he))
      (fun entry he => hnames entry (List.mem_cons_of_mem _ he)) hrest
    refine ⟨hend, fun entry => ?_⟩
    rw [hfiles, hmade, List.mem_cons, or_assoc, eq_comm]

/-- With no event left, everything below the root is known. -/
theorem Discovering.known_of_done (h : Discovering env root start s) (hdone : s.kernel.queue = [])
    (hp : root <:+ p) : (s.isPathDir p = true → (s.kernel.wdOf p).isSome) ∧
      (s.isPathRegularFile p = true → env.notifies (filePath (ofBytes p)) = true →
        Lists s (filePath (ofBytes p))) := by
  refine (h.known p hp).elim ?_ id
  rintro ⟨wd, name, dir, _, hmem, _⟩
  rw [hdone] at hmem
  cases hmem

/-- An entry is made or refused whatever the service knows. -/
theorem make_congr {t : State} (hfiles : t.files = s.files) (h : make s entry = some s') :
    ∃ t', make t entry = some t' ∧ t'.files = s'.files := by
  obtain ⟨name, dir, hpath, hvalid, hfree, hdir, rfl⟩ := make_cases h
  refine ⟨{ t.setKernel (t.kernel.notify dir name) with files := entry :: t.files }, ?_, ?_⟩
  · simp [Discovery.make, hpath, hvalid, lstat_congr hfiles, hfree, isPathDir_congr hfiles, hdir]
  · simp [hfiles]

/-- With no event left, the entry that comes next is made in a watched directory. -/
theorem Discovering.parent_watched (h : Discovering env root start s) (hstart : Start root start)
    (hdone : s.kernel.queue = []) (hroot : root <:+ entry.1)
    (hmake : Discovery.make s entry = some s') :
    ∃ name dir wd, entry.1 = name :: dir ∧ s.kernel.wdOf dir = some wd := by
  obtain ⟨name, dir, hpath, _, _, hdir, _⟩ := make_cases hmake
  refine ⟨name, dir, ?_⟩
  rw [hpath] at hroot
  have hwatched : (s.kernel.wdOf dir).isSome := by
    rcases tail_or_below hroot with rfl | hbelow
    · obtain ⟨wd, _, hwd, _⟩ := hstart.parent
      exact h.watched_old _ (by rw [hwd]; rfl)
    · exact (h.known_of_done hdone hbelow).1 hdir
  obtain ⟨wd, hwd⟩ := Option.isSome_iff_exists.mp hwatched
  exact ⟨wd, hpath, hwd⟩

/-- Each entry made, then its event. -/
theorem Discovering.exists_run (hstart : Start root start) {order : List (RawPath × FileType)}
    {unseen built : State} (h : Discovering env root start s) (hdone : s.kernel.queue = [])
    (hfiles : s.files = unseen.files) (hbelow : ∀ entry ∈ order, root <:+ entry.1)
    (hnames : ∀ entry ∈ order, ∀ name ∈ entry.1.head?, QString.ComesBack name)
    (hbuilt : Runs.run Discovery.make unseen order = some built) :
    ∃ acts s', Runs.run (Discovery.step env) s acts = some s' ∧ s'.kernel.queue = [] ∧
      ∀ entry, Action.make entry ∈ acts ↔ entry ∈ order := by
  induction order generalizing s unseen with
  | nil => exact ⟨[], s, rfl, hdone, by simp⟩
  | cons entry order ih =>
    obtain ⟨unseen', hmake, hrest⟩ := Runs.run_cons_some.mp hbuilt
    obtain ⟨t, hmade, htfiles⟩ := make_congr hfiles hmake
    have hroot := hbelow entry List.mem_cons_self
    obtain ⟨name, dir, wd, hpath, hwd⟩ := h.parent_watched hstart hdone hroot hmade
    have hparent : (s.kernel.wdOf entry.1.tail).isSome := by
      rw [hpath, List.tail_cons, hwd]
      rfl
    have ht := h.make hroot (hnames entry List.mem_cons_self) hparent hmade
    have hqueue := queue_make hpath hwd hmade
    rw [hdone, List.nil_append] at hqueue
    obtain ⟨u, hhandle⟩ : ∃ u, Discovery.step env t .handle = some u := by
      simp [Discovery.step, ht.tended.initialized, hqueue]
    obtain ⟨hu, hufiles, huqueue⟩ := ht.handle hhandle
    rw [hqueue] at huqueue
    obtain ⟨acts, s', hrun, hdone', hacts⟩ := ih hu huqueue (hufiles.trans htfiles)
      (fun e he => hbelow e (List.mem_cons_of_mem entry he))
      (fun e he => hnames e (List.mem_cons_of_mem entry he)) hrest
    refine ⟨.make entry :: .handle :: acts, s', ?_, hdone', fun e => by simp [hacts]⟩
    rw [Runs.run_cons, Discovery.step, if_pos hparent, hmade, Option.bind_some, Runs.run_cons,
      hhandle, Option.bind_some, hrun]

/-- Whatever order a tree is made in, `run` can take its entries one by one. -/
theorem exists_event_run (env : Env) (hstart : Start root start)
    {order : List (RawPath × FileType)} {built : State}
    (hbelow : ∀ entry ∈ order, root <:+ entry.1)
    (hnames : ∀ entry ∈ order, ∀ name ∈ entry.1.head?, QString.ComesBack name)
    (hbuilt : Runs.run make start order = some built) :
    ∃ acts s, Runs.run (step env) start acts = some s ∧ s.kernel.queue = [] ∧
      ∀ entry, Action.make entry ∈ acts ↔ entry ∈ order :=
  hstart.discovering.exists_run hstart hstart.queue rfl hbelow hnames hbuilt

end Events

/-! ## Both ways -/

section Both
variable {env : Env} {root p q : RawPath} {start built s s' : State}
  {order : List (RawPath × FileType)} {acts : List Action} {t : FileType}

/-- The entries below the root are those that have been made. -/
theorem Start.lstat_iff (hstart : Start root start) (hr : Rooted root s)
    (hfiles : ∀ entry, entry ∈ s.files ↔ entry ∈ start.files ∨ entry ∈ order)
    (hbelow : ∀ entry ∈ order, root <:+ entry.1) :
    root <:+ p ∧ s.lstat p = some t ↔ (p, t) ∈ order := by
  constructor
  · rintro ⟨hp, hlstat⟩
    refine ((hfiles _).mp ((hr.unique p t hp).mpr hlstat)).elim (fun hmem => ?_) id
    exact absurd hmem (lstat_eq_none_iff.mp (hstart.unknown p hp).1 t)
  · intro hmem
    have hp := hbelow _ hmem
    exact ⟨hp, (hr.unique p t hp).mp ((hfiles _).mpr (Or.inr hmem))⟩

/-- What the scan of a complete tree finds. -/
theorem Start.scanned (env : Env) (hstart : Start root start)
    (hbelow : ∀ entry ∈ order, root <:+ entry.1)
    (hnames : ∀ entry ∈ order, ∀ name ∈ entry.1.head?, QString.ComesBack name)
    (hroot : (root, .directory) ∈ order) (hbuilt : Runs.run make start order = some built)
    (hs : (addWatchRecursively env built (ofBytes root) true).1 = s) :
    (∀ p, (s.kernel.wdOf p).isSome ↔
      (start.kernel.wdOf p).isSome ∨ (p, .directory) ∈ order ∧ Visible root p) ∧
    ∀ f, Lists s f ↔ Lists start f ∨ ∃ p, ((p, .regular) ∈ order ∧ Visible root p ∧
      env.notifies (filePath (ofBytes p)) = true) ∧ filePath (ofBytes p) = f := by
  obtain ⟨ht, hr, hfiles, hwd, hlist⟩ := hstart.built hbelow hnames hbuilt
  have hlstat : ∀ p t, root <:+ p ∧ built.lstat p = some t ↔ (p, t) ∈ order := fun p t =>
    hstart.lstat_iff hr (fun entry => by rw [hfiles]; simp [or_comm]) hbelow
  have hdir := isPathDir_iff.mpr ((hlstat root .directory).mpr hroot).2
  have hadds := ht.addWatchRecursively env true hr (List.suffix_refl root) hdir
  rw [hs] at hadds
  -- every entry is within the levels that the scan may go down
  have hdepth : ∀ p t, (p, t) ∈ order → p.length ≤ built.depth := fun p t hmem =>
    length_le_depth (mem_files_of_lstat ((hlstat p t).mpr hmem).2)
  refine ⟨fun p => ?_, fun f => ?_⟩
  · rw [hadds.watched, hwd, ← hlstat]
    refine or_congr Iff.rfl ⟨?_, ?_⟩
    · rintro ⟨hp, ⟨rel, rfl, hnames⟩, -⟩
      exact ⟨⟨List.suffix_append rel root, isPathDir_iff.mp hp⟩, rel, rfl, hnames⟩
    · rintro ⟨⟨hp, hd⟩, hvis⟩
      have hlen := hdepth p _ ((hlstat p _).mp ⟨hp, hd⟩)
      exact ⟨isPathDir_iff.mpr hd, hvis, by omega⟩
  · refine (hadds.listed f).trans (or_congr (by rw [hlist]; rfl) (exists_congr fun p => ?_))
    refine and_congr_left fun _ => ⟨?_, ?_⟩
    · rintro ⟨-, hp, hnotifies, ⟨rel, rfl, hrel⟩, -⟩
      exact ⟨(hlstat _ _).mp ⟨List.suffix_append rel root, isPathRegularFile_iff.mp hp⟩,
        ⟨rel, rfl, hrel⟩, hnotifies⟩
    · rintro ⟨hp, hvis, hn⟩
      have hlen := hdepth p _ hp
      exact ⟨rfl, isPathRegularFile_iff.mpr ((hlstat p _).mpr hp).2, hn, hvis, by omega⟩

/-- What `run` finds. -/
theorem Start.discovered (hstart : Start root start)
    (hbelow : ∀ entry ∈ order, root <:+ entry.1)
    (hnames : ∀ entry ∈ order, ∀ name ∈ entry.1.head?, QString.ComesBack name)
    (hsame : ∀ entry, Action.make entry ∈ acts ↔ entry ∈ order)
    (hrun : Runs.run (step env) start acts = some s) (hdone : s.kernel.queue = []) :
    (∀ p, (s.kernel.wdOf p).isSome ↔
      (start.kernel.wdOf p).isSome ∨ (p, .directory) ∈ order) ∧
    ∀ f, Lists s f ↔ Lists start f ∨ ∃ p, ((p, .regular) ∈ order ∧
      env.notifies (filePath (ofBytes p)) = true) ∧ filePath (ofBytes p) = f := by
  obtain ⟨hs, hfiles⟩ := hstart.discovering.run
    (fun entry he => hbelow entry ((hsame entry).mp he))
    (fun entry he => hnames entry ((hsame entry).mp he)) hrun
  have hlstat : ∀ p t, root <:+ p ∧ s.lstat p = some t ↔ (p, t) ∈ order := fun p t =>
    hstart.lstat_iff hs.rooted (fun entry => by rw [hfiles, hsame]) hbelow
  refine ⟨fun p => ⟨fun hp => ?_, fun hp => ?_⟩, fun f => ⟨fun hf => ?_, fun hf => ?_⟩⟩
  · rcases hs.watched_new p hp with hold | hbelow
    · exact Or.inl hold
    · exact Or.inr ((hlstat p _).mp
        ⟨hbelow, isPathDir_iff.mp (hs.tended.watched_dir p hbelow hp)⟩)
  · rcases hp with hold | hmem
    · exact hs.watched_old p hold
    · obtain ⟨hbelow, hd⟩ := (hlstat p _).mpr hmem
      exact (hs.known_of_done hdone hbelow).1 (isPathDir_iff.mpr hd)
  · refine (hs.listed_new f hf).imp id fun ⟨p, hbelow, hreg, hnotifies, hpath⟩ => ?_
    exact ⟨p, ⟨(hlstat p _).mp ⟨hbelow, isPathRegularFile_iff.mp hreg⟩, hnotifies⟩, hpath⟩
  · rcases hf with hold | ⟨p, ⟨hmem, hnotifies⟩, rfl⟩
    · exact hs.listed_old f hold
    · obtain ⟨hbelow, hreg⟩ := (hlstat p _).mpr hmem
      exact (hs.known_of_done hdone hbelow).2 (isPathRegularFile_iff.mpr hreg) hnotifies

end Both

/-! ## Paths as strings -/

section FilePath

/-- The first component of a path string. -/
theorem takeWhile_component {name rest : QString} (hname : '/' ∉ name)
    (hrest : rest = [] ∨ rest.head? = some '/') :
    (name ++ rest).takeWhile (· ≠ '/') = name := by
  rw [List.takeWhile_append_of_pos]
  · rcases hrest with rfl | hrest
    · simp
    · obtain ⟨rest, rfl⟩ := List.head?_eq_some_iff.mp hrest
      simp
  · intro c hc
    have hne : c ≠ '/' := fun heq => hname (heq ▸ hc)
    simpa using hne

theorem components_inj {names names' : List QString} (h : ∀ name ∈ names, '/' ∉ name)
    (h' : ∀ name ∈ names', '/' ∉ name)
    (heq : (names.flatMap fun n => '/' :: n) = names'.flatMap fun n => '/' :: n) :
    names = names' := by
  have hhead : ∀ names : List QString, (names.flatMap fun n => '/' :: n) = [] ∨
      (names.flatMap fun n => '/' :: n).head? = some '/' := by
    intro names
    cases names <;> simp
  induction names generalizing names' with
  | nil =>
    cases names' with
    | nil => rfl
    | cons name' names' => simp at heq
  | cons name names ih =>
    cases names' with
    | nil => simp at heq
    | cons name' names' =>
      simp only [List.flatMap_cons, List.cons_append, List.cons.injEq, true_and] at heq
      have hname : name = name' := by
        rw [← takeWhile_component (h name List.mem_cons_self) (hhead names), heq,
          takeWhile_component (h' name' List.mem_cons_self) (hhead names')]
      rw [hname, List.append_cancel_left_eq] at heq
      rw [hname, ih (fun n hn => h n (List.mem_cons_of_mem name hn))
        (fun n hn => h' n (List.mem_cons_of_mem name' hn)) heq]

/-- Below a directory other than `/`. -/
theorem filePath_append {root rel : HostPath} (hroot : root ≠ [])
    (hrel : rel ≠ []) : filePath (rel ++ root) =
      (root.reverse.flatMap fun n => '/' :: n) ++ rel.reverse.flatMap fun n => '/' :: n := by
  obtain ⟨name, rel, rfl⟩ := List.exists_cons_of_ne_nil hrel
  obtain ⟨n, dir, hdir⟩ := List.exists_cons_of_ne_nil (List.append_ne_nil_of_right_ne_nil rel hroot)
  rw [List.cons_append, hdir]
  simp only [filePath]
  rw [← hdir]
  simp

theorem slash_not_mem {name : FileName} (hvalid : validFileName name = true)
    (hback : QString.toUtf8 (QString.fromUtf8 name) = name) : '/' ∉ QString.fromUtf8 name := by
  intro hmem
  have hslash := QString.slash_mem_toUtf8 hmem
  rw [hback] at hslash
  unfold validFileName at hvalid
  exact (of_decide_eq_true hvalid).2.2.2.1 hslash

variable {root p q : RawPath} {s start : State}

theorem Rooted.names (hr : Rooted root s) {rel : RawPath} {t : FileType}
    (h : s.lstat (rel ++ root) = some t) : ∀ name ∈ ofBytes rel, '/' ∉ name := by
  induction rel generalizing t with
  | nil => simp [ofBytes]
  | cons name rel ih =>
    have hbelow := List.suffix_append rel root
    have hmem := mem_files_of_lstat h
    have hparent := hr.closed name (rel ++ root) t hbelow hmem
    have hspelled := hr.spelled _ t (hbelow.trans (List.suffix_cons name _)) hmem
    have hname := slash_not_mem (hr.valid name (rel ++ root) t hbelow hmem)
      (spelled_cons.mp hspelled).1
    exact List.forall_mem_cons.mpr ⟨hname, ih hparent⟩

theorem Start.root_ne_nil (h : Start root start) : root ≠ [] := by
  rintro rfl
  obtain ⟨wd, _, hwd, _⟩ := h.parent
  rw [List.tail_nil, (h.unknown [] (List.suffix_refl [])).2.2.1] at hwd
  cases hwd

/-- Two entries below the root have different path strings. -/
theorem Rooted.filePath_inj (hr : Rooted root s) (hroot : root ≠ []) {t t' : FileType}
    (hp : root <:+ p) (hq : root <:+ q) (hpt : s.lstat p = some t) (hqt : s.lstat q = some t')
    (hpne : p ≠ root) (hqne : q ≠ root) (heq : filePath (ofBytes p) = filePath (ofBytes q)) :
    p = q := by
  have hspelled : Spelled p := hr.spelled p t hp (mem_files_of_lstat hpt)
  have hspelled' : Spelled q := hr.spelled q t' hq (mem_files_of_lstat hqt)
  refine hspelled.ofBytes_inj hspelled' ?_
  obtain ⟨rel, rfl⟩ := hp
  obtain ⟨rel', rfl⟩ := hq
  have hrel : ofBytes rel ≠ [] := fun hnil => hpne (by rw [List.map_eq_nil_iff.mp hnil]; rfl)
  have hrel' : ofBytes rel' ≠ [] := fun hnil => hqne (by rw [List.map_eq_nil_iff.mp hnil]; rfl)
  have hroot' : ofBytes root ≠ [] := mt List.map_eq_nil_iff.mp hroot
  have happend : ∀ rel, ofBytes (rel ++ root) = ofBytes rel ++ ofBytes root :=
    fun rel => List.map_append
  rw [happend, happend] at heq ⊢
  rw [filePath_append hroot' hrel, filePath_append hroot' hrel',
    List.append_cancel_left_eq] at heq
  have hrev := components_inj (fun n hn => hr.names hpt n (List.mem_reverse.mp hn))
    (fun n hn => hr.names hqt n (List.mem_reverse.mp hn)) heq
  rw [List.reverse_injective hrev]

end FilePath

/-- In a tree whose names come back, the scan and the events find the same exactly
when nothing that they look for has a name with a leading dot above it, below
the root: no directory, and no file of which the service tells and has not told
before. -/
theorem scan_agrees_iff (env : Env) {root : RawPath} {start built s : State}
    {order : List (RawPath × FileType)} {acts : List Action} (hstart : Start root start)
    (hbelow : ∀ entry ∈ order, root <:+ entry.1)
    (hnames : ∀ entry ∈ order, ∀ name ∈ entry.1.head?, QString.ComesBack name)
    (hroot : (root, .directory) ∈ order) (hbuilt : Runs.run make start order = some built)
    (hsame : ∀ entry, Action.make entry ∈ acts ↔ entry ∈ order)
    (hrun : Runs.run (step env) start acts = some s) (hdone : s.kernel.queue = []) :
    SameDiscovery (addWatchRecursively env built (ofBytes root) true).1 s ↔
      ∀ p t, (p, t) ∈ order → ¬ Visible root p → t ≠ .directory ∧
        (t = .regular → env.notifies (filePath (ofBytes p)) = true →
          Lists start (filePath (ofBytes p))) := by
  obtain ⟨hwatched, hlisted⟩ := hstart.scanned env hbelow hnames hroot hbuilt rfl
  obtain ⟨hwatched', hlisted'⟩ := hstart.discovered hbelow hnames hsame hrun hdone
  obtain ⟨_, hr, hfiles, _, _⟩ := hstart.built hbelow hnames hbuilt
  have hlstat : ∀ p t, root <:+ p ∧ built.lstat p = some t ↔ (p, t) ∈ order := fun p t =>
    hstart.lstat_iff hr (fun entry => by rw [hfiles]; simp [or_comm]) hbelow
  constructor
  · rintro ⟨hdirs, hlists⟩ p t hmem hhidden
    refine ⟨?_, ?_⟩
    · rintro rfl
      have hp := (hdirs p).mpr ((hwatched' p).mpr (Or.inr hmem))
      rcases (hwatched p).mp hp with hold | ⟨_, hvis⟩
      · rw [(hstart.unknown p (hbelow _ hmem)).2.2.1] at hold
        cases hold
      · exact hhidden hvis
    · rintro rfl hnotifies
      have hf := (hlists _).mpr ((hlisted' _).mpr (Or.inr ⟨p, ⟨hmem, hnotifies⟩, rfl⟩))
      rcases (hlisted _).mp hf with hold | ⟨q, ⟨hq, hvis, _⟩, heq⟩
      · exact hold
      · obtain ⟨hpbelow, hplstat⟩ := (hlstat p _).mpr hmem
        obtain ⟨hqbelow, hqlstat⟩ := (hlstat q _).mpr hq
        have hne : ∀ p, built.lstat p = some .regular → p ≠ root := by
          rintro p hp rfl
          rw [((hlstat p _).mpr hroot).2] at hp
          cases hp
        have hqp := hr.filePath_inj hstart.root_ne_nil hqbelow hpbelow hqlstat hplstat
          (hne q hqlstat) (hne p hplstat) heq
        exact absurd (hqp ▸ hvis) hhidden
  · intro hok
    refine ⟨fun p => ?_, fun f => ?_⟩
    · rw [hwatched, hwatched']
      refine or_congr Iff.rfl ⟨And.left, fun hmem => ⟨hmem, ?_⟩⟩
      by_contra hhidden
      exact (hok p _ hmem hhidden).1 rfl
    · rw [hlisted, hlisted']
      constructor
      · exact Or.imp id fun ⟨p, ⟨hmem, _, hnotifies⟩, heq⟩ => ⟨p, ⟨hmem, hnotifies⟩, heq⟩
      · rintro (hold | ⟨p, ⟨hmem, hnotifies⟩, rfl⟩)
        · exact Or.inl hold
        · by_cases hvis : Visible root p
          · exact Or.inr ⟨p, ⟨hmem, hvis, hnotifies⟩, rfl⟩
          · exact Or.inl ((hok p _ hmem hvis).2 rfl hnotifies)

/-! ## A user's pictures -/

/-- A new service that has been given one directory to watch. -/
def watching (files : List (RawPath × FileType)) (path : HostPath) : State :=
  let s : State := ⟨files, Watcher.constructed ⟨[], 1, []⟩, []⟩
  { s with mWatcher := (s.mWatcher.initializeWatcher (inotify s.lstat)).1 }.addWatchLocked path

theorem watching_eq {files : List (RawPath × FileType)} {path : HostPath}
    (hdir : (watching files path).leadsToDir path = true) : watching files path = ⟨files,
      ⟨[(1, path)], Function.update (fun _ => none) path (some 1), 0, true,
        ⟨[(toStdString path, 1)], 2, []⟩⟩, []⟩ := by
  have hlstat : (⟨files, Watcher.constructed ⟨[], 1, []⟩, []⟩ : State).lstat (toStdString path) =
      some .directory := isPathDir_iff.mp hdir
  rw [watching, State.addWatchLocked]
  simp only [State.lstat] at hlstat
  simp [Watcher.initializeWatcher, Watcher.constructed, Watcher.addWatch, inotify, Kernel.wdOf,
    State.lstat, hlstat]

theorem start_watching {files : List (RawPath × FileType)} {name : FileName} {path : HostPath}
    (hdir : (watching files path).leadsToDir path = true)
    (hfree : ∀ entry ∈ files, ¬ name :: toStdString path <:+ entry.1) :
    Start (name :: toStdString path) (watching files path) := by
  have heq := watching_eq hdir
  rw [heq] at hdir ⊢
  have hlength : (toStdString path).length = path.length := List.length_map _
  have hout : ∀ p : RawPath, name :: toStdString path <:+ p → path.length < p.length := by
    intro p hp
    have hle := hp.length_le
    rw [List.length_cons, hlength] at hle
    exact hle
  have hraw : ∀ p, name :: toStdString path <:+ p → toStdString path ≠ p := by
    rintro p hp rfl
    have hlt := hout _ hp
    omega
  have htext : ∀ p, name :: toStdString path <:+ p → ofBytes p ≠ path := by
    rintro p hp rfl
    have hlt := hout _ hp
    simp [ofBytes] at hlt
  refine ⟨rfl, ?_, ?_, ?_, rfl, ⟨1, path, rfl, ?_, ?_⟩, fun p hp => ⟨?_, ?_, ?_, fun wd hmem => ?_⟩⟩
  · simp
  · simp
  · simp
  · simp [Kernel.wdOf]
  · simp [Watcher.watchedPathFromWd, Multimap.values_cons, hdir]
  · exact lstat_eq_none_iff.mpr fun t hmem => hfree _ hmem hp
  · simp [Function.update_of_ne (htext p hp)]
  · simp [Kernel.wdOf, hraw p hp]
  · have hmem : wd = 1 ∧ ofBytes p = path := by simpa using hmem
    exact htext p hp hmem.2

def home : List (RawPath × FileType) :=
  [(toStdString ["home".toList], .directory),
    (toStdString ["kylin".toList, "home".toList], .directory),
    (toStdString pictures, .directory), ([], .directory)]

def albumOrder : List (RawPath × FileType) :=
  [(toStdString album, .directory), (toStdString ("b.png".toList :: album), .regular),
    (toStdString ("c".toList :: album), .symlink)]

/-- The link is made before the event of the picture is handled. -/
def albumEvents : List Action :=
  [.make (toStdString album, .directory), .handle,
    .make (toStdString ("b.png".toList :: album), .regular),
    .make (toStdString ("c".toList :: album), .symlink), .handle, .handle]

theorem scan_agrees_album : ∃ built s, Runs.run make (watching home pictures) albumOrder =
      some built ∧
    Runs.run (step userEnv) (watching home pictures) albumEvents = some s ∧
    SameDiscovery (addWatchRecursively userEnv built (ofBytes (toStdString album)) true).1 s := by
  have hbuilt : (Runs.run make (watching home pictures) albumOrder).isSome = true := by
    decide +kernel
  have hdone : ((Runs.run (step userEnv) (watching home pictures) albumEvents).map fun s =>
      s.kernel.queue) = some [] := by decide +kernel
  obtain ⟨built, hbuilt⟩ := Option.isSome_iff_exists.mp hbuilt
  obtain ⟨s, hrun, hend⟩ := Option.map_eq_some_iff.mp hdone
  have hstart : Start (toStdString album) (watching home pictures) :=
    start_watching (by decide +kernel) (by decide +kernel)
  refine ⟨built, s, hbuilt, hrun, (scan_agrees_iff userEnv hstart (by decide +kernel)
    (by decide +kernel) (by decide +kernel) hbuilt ?_ hrun hend).mpr ?_⟩
  · intro entry
    simp [albumEvents, albumOrder]
  · intro p t hmem hhidden
    refine absurd ?_ hhidden
    simp only [albumOrder, List.mem_cons, Prod.mk.injEq, List.not_mem_nil, or_false] at hmem
    rcases hmem with ⟨rfl, _⟩ | ⟨rfl, _⟩ | ⟨rfl, _⟩
    · exact ⟨[], rfl, by simp⟩
    · exact ⟨toStdString ["b.png".toList], rfl, by decide +kernel⟩
    · exact ⟨toStdString ["c".toList], rfl, by decide +kernel⟩

/-- A directory whose name starts with a dot is watched only if it is made
while its parent is watched. -/
theorem hidden_disagrees : ∃ built s,
    Runs.run make (watching home pictures) [(toStdString album, .directory),
      (toStdString (".thumbnails".toList :: album), .directory)] = some built ∧
    Runs.run (step userEnv) (watching home pictures)
      [.make (toStdString album, .directory), .handle,
        .make (toStdString (".thumbnails".toList :: album), .directory), .handle] = some s ∧
    s.kernel.queue = [] ∧ ¬ SameDiscovery (addWatchRecursively userEnv built album true).1 s := by
  have hscan : ((Runs.run make (watching home pictures) [(toStdString album, .directory),
      (toStdString (".thumbnails".toList :: album), .directory)]).map fun built =>
      ((addWatchRecursively userEnv built album true).1.kernel.wdOf
        (toStdString (".thumbnails".toList :: album))).isSome) = some false := by decide +kernel
  have hevents : ((Runs.run (step userEnv) (watching home pictures)
      [.make (toStdString album, .directory), .handle,
        .make (toStdString (".thumbnails".toList :: album), .directory), .handle]).map fun s =>
      (s.kernel.queue, (s.kernel.wdOf (toStdString (".thumbnails".toList :: album))).isSome)) =
      some ([], true) := by decide +kernel
  obtain ⟨built, hbuilt, hunseen⟩ := Option.map_eq_some_iff.mp hscan
  obtain ⟨s, hrun, hend⟩ := Option.map_eq_some_iff.mp hevents
  obtain ⟨hdone, hseen⟩ := Prod.mk.inj hend
  refine ⟨built, s, hbuilt, hrun, hdone, fun ⟨hdirs, _⟩ => ?_⟩
  have hboth := (hdirs _).mpr hseen
  rw [hunseen] at hboth
  cases hboth

/-- A picture whose name is no UTF-8, and the file that `run` asks for in its place. -/
example :
    let photo : RawPath := (0xD5 :: QString.toUtf8 "a.png".toList) :: toStdString album
    let order := [(toStdString album, FileType.directory), (photo, .regular)]
    let events := [.make (toStdString album, .directory), .handle, .make (photo, .regular), .handle]
    ((Runs.run make (watching home pictures) order).map fun built =>
        (addWatchRecursively userEnv built album true).1.mFileList.length) = some 1 ∧
      ((Runs.run (step userEnv) (watching home pictures) events).map fun s =>
        s.mFileList.length) = some 0 := by
  decide +kernel

end KmreManager.FileInotifyService.Discovery
