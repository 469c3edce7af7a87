import KmreManager.FileInotifyService.Coverage

/-! # Nothing below a watched directory is lost

What the other programs do is one shape of step (`Outside`): some entries go,
some arrive, and an arrival is announced to the watch of its directory. The
registered directories stay soundly registered exactly if no directory arrives
at a path that is still registered with another watch (`Fresh`); every entry
below a watched directory is then settled or due (`Covered`). -/
namespace KmreManager.FileInotifyService
open KmreManager.Lib KmreManager.Lib.FileTree KmreManager.FileInotifyWatcher

/-- The path a step of the other programs takes away. -/
def Action.gone : Action → Option HostPath
  | .rmdir name dir => some (name :: dir)
  | .rename old _ _ => some old
  | _ => none

/-- The path at which a step of the other programs puts something. -/
def Action.arrived : Action → Option HostPath
  | .create _ name dir | .rename _ name dir => some (name :: dir)
  | _ => none

/-- Is it a step of the watcher thread? -/
def Action.isService : Action → Bool
  | .serve | .addWatch _ | .readdir _ => true
  | _ => false

structure Outside (s s' : State) (gone arrived : Option HostPath) : Prop where
  kept : s.tree.Kept s'.tree gone arrived
  next : s.tree.next ≤ s'.tree.next
  watcher : s'.mWatcher = { s.mWatcher with kernel := s'.mWatcher.kernel }
  live : ∀ watch ∈ s'.mWatcher.kernel.watches, watch ∈ s.mWatcher.kernel.watches
  dir_live : ∀ p wd i, s'.tree.dir? p = some i → (wd, i) ∈ s.mWatcher.kernel.watches →
    (wd, i) ∈ s'.mWatcher.kernel.watches
  queue : ∀ e ∈ s.mWatcher.kernel.queue, e ∈ s'.mWatcher.kernel.queue
  announced : ∀ name dir, arrived = some (name :: dir) → s.tree.isDir dir = true ∧
    ∀ wd i, s.tree.dir? dir = some i → s.mWatcher.kernel.wdOf i = some wd →
      Queued s'.mWatcher.kernel wd name
  lists : s'.mFileList = s.mFileList
  control : s'.control = gone.elim s.control s.control.forget

section Steps
variable {env : Env} {s s' : State} {a : Action}

theorem notify_mFileList (path : HostPath) (event : Int → Event) :
    (s.notify path event).mFileList = s.mFileList := by
  unfold State.notify
  split <;> rfl

theorem notify_control (path : HostPath) (event : Int → Event) :
    (s.notify path event).control = s.control := by
  unfold State.notify
  split <;> rfl

theorem notify_mWatcher (path : HostPath) (event : Int → Event) :
    (s.notify path event).mWatcher =
      { s.mWatcher with kernel := (s.notify path event).mWatcher.kernel } := by
  unfold State.notify
  split <;> rfl

theorem notify_watches (path : HostPath) (event : Int → Event) :
    (s.notify path event).mWatcher.kernel.watches = s.mWatcher.kernel.watches := by
  unfold State.notify
  split
  · exact Kernel.notify_watches
  · rfl

theorem mem_queue_notify {path : HostPath} {event : Int → Event} {e : Event}
    (h : e ∈ s.mWatcher.kernel.queue) : e ∈ (s.notify path event).mWatcher.kernel.queue := by
  unfold State.notify
  split
  · exact Kernel.mem_queue_notify h
  · exact h

theorem notified {path : HostPath} {event : Int → Event} {wd : Int} {i : Nat}
    (hdir : s.tree.dir? path = some i) (hwd : s.mWatcher.kernel.wdOf i = some wd) :
    event wd ∈ (s.notify path event).mWatcher.kernel.queue := by
  unfold State.notify
  rw [hdir]
  exact Kernel.notified hwd

theorem not_unlinked {tree : FileSystem} {p : HostPath} {i : Nat} (h : tree.dir? p = some i) :
    ¬ unlinked tree i = true := by
  intro hun
  have hnode := Tree.dir?_eq_some.mp h
  have hmem := tree.mem_paths p (by rw [hnode]; exact Option.some_ne_none _)
  have hne := List.all_eq_true.mp hun p hmem
  rw [hnode] at hne
  simp at hne

theorem step_outside (hw : Registry s.mWatcher) (ha : a.isService = false)
    (h : step env s a = some s') : Outside s s' a.gone a.arrived := by
  cases a with
  | create kind name dir =>
    obtain ⟨hfree, hdir, _, rfl⟩ := step_create h
    refine ⟨Tree.kept_create hfree hdir, Nat.le_succ _, notify_mWatcher _ _, fun watch hm => ?_,
      fun p wd i _ hm => ?_, fun e he => mem_queue_notify he, fun n q hq => ?_,
      notify_mFileList _ _, notify_control _ _⟩
    · exact notify_watches dir _ ▸ hm
    · exact (notify_watches dir _).symm ▸ hm
    · obtain ⟨rfl, rfl⟩ := List.cons.inj (Option.some.inj hq)
      exact ⟨hdir, fun wd i hi hwd => Or.inl (notified hi hwd)⟩
  | rmdir name dir =>
    obtain ⟨hvacant, rfl⟩ := step_rmdir h
    exact ⟨Tree.kept_remove (node_of_vacant hvacant), Nat.le_refl _, rfl, fun _ hm => hm,
      fun _ _ _ _ hm => hm, fun _ he => he, fun n q hq => (by cases hq), rfl, rfl⟩
  | rename old name dir =>
    obtain ⟨hdir, hout, rfl⟩ := step_rename h
    refine ⟨Tree.kept_rename hdir hout, Nat.le_refl _, ?_, fun watch hm => ?_,
      fun p wd i _ hm => ?_, fun e he => mem_queue_notify (mem_queue_notify he),
      fun n q hq => ?_, ?_, rfl⟩
    · dsimp only
      rw [notify_mWatcher, notify_mWatcher]
    · dsimp only at hm
      rwa [notify_watches, notify_watches] at hm
    · dsimp only
      rwa [notify_watches, notify_watches]
    · obtain ⟨rfl, rfl⟩ := List.cons.inj (Option.some.inj hq)
      refine ⟨hdir, fun wd i hi hwd => Or.inr (mem_queue_notify ?_)⟩
      exact notified hi hwd
    · dsimp only
      rw [notify_mFileList, notify_mFileList]
  | evict inode =>
    obtain ⟨hun, rfl⟩ := step_evict h
    refine ⟨.rfl _, Nat.le_refl _, rfl, fun watch hm => (hw.oneToOne.mem_watches_evict.mp hm).1,
      fun p wd i hi hm => hw.oneToOne.mem_watches_evict.mpr ⟨hm, ?_⟩,
      fun e he => Kernel.mem_queue_evict he, fun n q hq => (by cases hq), rfl, rfl⟩
    intro heq
    subst heq
    exact not_unlinked hi hun
  | serve => cases ha
  | addWatch wd => cases ha
  | readdir entry => cases ha

theorem step_served (hw : Registry s.mWatcher) (hsound : Sound s.tree s.mWatcher)
    (hholds : s.control.Holds s.mWatcher) (ha : a.isService = true)
    (h : step env s a = some s') : Served env s s' := by
  cases a with
  | serve => exact served_serve hw hsound hholds h
  | addWatch wd =>
    dsimp only [step] at h
    split at h
    · rename_i flag path outer hc
      split at h
      · rename_i hpre
        obtain rfl := Option.some.inj h
        rw [hc] at hholds
        obtain rfl : flag = true := hholds
        refine served_addWatch hw hsound hc hpre.1 fun i hmem => ?_
        have hne := List.all_eq_true.mp hpre.2 _ hmem
        simp at hne
      · cases h
    · cases h
  | readdir entry => exact served_readdir hw hsound hholds h
  | create kind name dir => cases ha
  | rmdir name dir => cases ha
  | rename old name dir => cases ha
  | evict inode => cases ha

end Steps

/-! ## Sound registration -/

/-- A directory is made at a path that is not registered, and arrives at a path
that is not registered or registered with the directory's own watch. -/
def Fresh (s : State) : Action → Prop
  | .create .dir name dir => s.mWatcher.mPathToWdMap (name :: dir) = none
  | .rename old name dir => ∀ rel i wd, s.tree.dir? (rel ++ old) = some i →
    s.mWatcher.mPathToWdMap (rel ++ name :: dir) = some wd → (wd, i) ∈ s.mWatcher.kernel.watches
  | _ => True

/-- The directories to move are among the paths of the tree. -/
theorem fresh_rename_iff {s : State} {old : HostPath} {name : QString} {dir : HostPath} :
    (∀ p ∈ s.tree.paths, old <:+ p → ∀ i ∈ s.tree.dir? p,
      ∀ wd ∈ s.mWatcher.mPathToWdMap (p.take (p.length - old.length) ++ name :: dir),
        (wd, i) ∈ s.mWatcher.kernel.watches) ↔ Fresh s (.rename old name dir) := by
  constructor
  · intro h rel i wd hi hwd
    have hmem : rel ++ old ∈ s.tree.paths := by
      refine s.tree.mem_paths _ ?_
      rw [Tree.dir?_eq_some.mp hi]
      exact Option.some_ne_none _
    have htake : (rel ++ old).take ((rel ++ old).length - old.length) = rel := by simp
    exact h _ hmem (List.suffix_append rel old) i hi wd (by rw [htake]; exact hwd)
  · rintro h p _ ⟨rel, rfl⟩ i hi wd hwd
    have htake : (rel ++ old).take ((rel ++ old).length - old.length) = rel := by simp
    rw [htake] at hwd
    exact h rel i wd hi hwd

instance Fresh.decidable (s : State) : ∀ a, Decidable (Fresh s a)
  | .create .dir _ _ => inferInstanceAs (Decidable (_ = none))
  | .rename _ _ _ => decidable_of_iff _ fresh_rename_iff
  | .create .file _ _ | .rmdir _ _ | .evict _ | .serve | .addWatch _ | .readdir _ => .isTrue trivial

structure Invariant (s : State) : Prop where
  registry : Registry s.mWatcher
  sound : Sound s.tree s.mWatcher
  holds : s.control.Holds s.mWatcher
  live_old : ∀ watch ∈ s.mWatcher.kernel.watches, watch.2 < s.tree.next

section Sound
variable {env : Env} {s s' : State} {a : Action} {gone arrived : Option HostPath}

theorem Outside.map (h : Outside s s' gone arrived) :
    s'.mWatcher.mPathToWdMap = s.mWatcher.mPathToWdMap := by
  rw [h.watcher]

theorem Outside.registry (h : Outside s s' gone arrived) (hw : Registry s.mWatcher) :
    Registry s'.mWatcher := by
  have hitems := congrArg Watcher.mWdToPathMap h.watcher
  have hinit := congrArg Watcher.mInitialized h.watcher
  refine ⟨hinit.trans hw.initialized, fun wd p => ?_, fun p wd hp => ?_, fun wd i hm => ?_,
    hw.oneToOne.mono h.live⟩
  · rw [hitems, h.map]
    exact hw.inverse wd p
  · exact hw.nonneg p wd (h.map ▸ hp)
  · exact hw.live_nonneg wd i (h.live _ hm)

theorem Outside.holds (h : Outside s s' gone arrived) (hholds : s.control.Holds s.mWatcher) :
    s'.control.Holds s'.mWatcher := by
  have hsame : s.control.Holds s'.mWatcher := by
    cases hc : s.control with
    | watchedPathFromWd name paths =>
      rw [hc] at hholds
      obtain ⟨wd, hwd⟩ := hholds
      exact ⟨wd, fun p hp => h.map ▸ hwd p hp⟩
    | idle => trivial
    | isPathDir newPath => trivial
    | isPathRegularFile newPath => trivial
    | addWatchRecursively path flag => rw [hc] at hholds; exact hholds
    | scan flag path point outer => rw [hc] at hholds; exact hholds
    | removeWatch wd count j => trivial
  rw [h.control]
  cases gone with
  | none => exact hsame
  | some path =>
    show (s.control.forget path).Holds s'.mWatcher
    cases hc : s.control <;> rw [hc] at hsame <;> exact hsame

/-- A step is fresh if what arrives is not registered with another watch. -/
theorem fresh_iff (hlive : ∀ watch ∈ s.mWatcher.kernel.watches, watch.2 < s.tree.next)
    (h : step env s a = some s') : Fresh s a ↔ ∀ b ∈ a.arrived, ∀ p wd i, b <:+ p →
      s.mWatcher.mPathToWdMap p = some wd → s'.tree.dir? p = some i →
      (wd, i) ∈ s.mWatcher.kernel.watches := by
  have hnothing : a.arrived = none → Fresh s a → (Fresh s a ↔ ∀ b ∈ a.arrived, ∀ p wd i, b <:+ p →
      s.mWatcher.mPathToWdMap p = some wd → s'.tree.dir? p = some i →
      (wd, i) ∈ s.mWatcher.kernel.watches) := by
    intro hnone hfresh
    refine ⟨fun _ b hb => ?_, fun _ => hfresh⟩
    rw [hnone] at hb
    cases hb
  cases a with
  | create kind name dir =>
    obtain ⟨hfree, hdir, _, rfl⟩ := step_create h
    have hself : ∀ p i, (s.tree.create kind name dir hfree hdir).dir? p = some i →
        name :: dir <:+ p → p = name :: dir := by
      intro p i hi hs
      exact Tree.create_below hfree hdir (Tree.isDir_ne_none (Tree.isDir_iff.mpr
        ⟨i, Tree.dir?_eq_some.mp hi⟩)) hs
    cases kind with
    | dir =>
      refine ⟨fun hfresh b hb p wd i hs hwd hi => ?_, fun harrive => ?_⟩
      · obtain rfl := Option.some.inj hb
        have hwd : s.mWatcher.mPathToWdMap (name :: dir) = some wd := hself p i hi hs ▸ hwd
        rw [show s.mWatcher.mPathToWdMap (name :: dir) = none from hfresh] at hwd
        cases hwd
      · cases hwd : s.mWatcher.mPathToWdMap (name :: dir) with
        | none => exact hwd
        | some wd =>
          have hmem := harrive _ (Eq.refl _) _ wd s.tree.next List.suffix_rfl hwd
            (Tree.dir?_eq_some.mpr (Tree.create_self hfree hdir))
          exact absurd (hlive _ hmem) (Nat.lt_irrefl _)
    | file =>
      refine ⟨fun _ b hb p wd i hs _ hi => ?_, fun _ => trivial⟩
      obtain rfl := Option.some.inj hb
      have heq := hself p i hi hs
      subst heq
      have hnode := (Tree.create_self hfree hdir).symm.trans (Tree.dir?_eq_some.mp hi)
      cases hnode
  | rename old name dir =>
    obtain ⟨hdir, hout, rfl⟩ := step_rename h
    have hsame : ∀ rel, (s.tree.rename old name dir hdir hout).dir? (rel ++ name :: dir) =
        s.tree.dir? (rel ++ old) := by
      intro rel
      exact Tree.dir?_congr (Tree.rename_node_append hdir hout rel)
    refine ⟨fun hfresh b hb p wd i hs hwd hi => ?_, fun harrive rel i wd hi hwd => ?_⟩
    · obtain rfl := Option.some.inj hb
      obtain ⟨rel, rfl⟩ := hs
      exact hfresh rel i wd (hsame rel ▸ hi) hwd
    · exact harrive _ (Eq.refl _) _ wd i (List.suffix_append rel _) hwd ((hsame rel).trans hi)
  | rmdir name dir => exact hnothing rfl trivial
  | evict inode => exact hnothing rfl trivial
  | serve => exact hnothing rfl trivial
  | addWatch wd => exact hnothing rfl trivial
  | readdir entry => exact hnothing rfl trivial

theorem fresh_of_isService (ha : a.isService = true) : Fresh s a := by
  cases a <;> trivial

/-- A step leaves the registered directories soundly registered exactly if it
is fresh. -/
theorem sound_step_iff (hI : Invariant s) (h : step env s a = some s') :
    Sound s'.tree s'.mWatcher ↔ Fresh s a := by
  cases ha : a.isService with
  | true =>
    have hserved := step_served hI.registry hI.sound hI.holds ha h
    exact ⟨fun _ => fresh_of_isService ha, fun _ => hserved.tree ▸ hserved.sound⟩
  | false =>
    have hout := step_outside hI.registry ha h
    rw [fresh_iff hI.live_old h]
    refine ⟨fun hsound b hb p wd i hs hwd hi => ?_, fun harrive p wd i hwd hi => ?_⟩
    · exact hout.live _ (hsound p wd i (hout.map ▸ hwd) hi)
    · rw [hout.map] at hwd
      by_cases hnew : ∀ b ∈ a.arrived, ¬ b <:+ p
      · have hnode : s'.tree.node p ≠ none :=
          Tree.isDir_ne_none (Tree.isDir_iff.mpr ⟨i, Tree.dir?_eq_some.mp hi⟩)
        have hold := Tree.dir?_congr (hout.kept.old hnode hnew)
        exact hout.dir_live p wd i hi (hI.sound p wd i hwd (hold ▸ hi))
      · push Not at hnew
        obtain ⟨b, hb, hs⟩ := hnew
        exact hout.dir_live p wd i hi (harrive b hb p wd i hs hwd hi)

theorem Invariant.step (hI : Invariant s) (hfresh : Fresh s a) (h : step env s a = some s') :
    Invariant s' := by
  have hsound := (sound_step_iff hI h).mpr hfresh
  cases ha : a.isService with
  | true =>
    have hserved := step_served hI.registry hI.sound hI.holds ha h
    refine ⟨hserved.registry, hsound, hserved.holds, fun watch hm => ?_⟩
    rw [hserved.tree]
    exact (hserved.live watch hm).elim (hI.live_old watch) id
  | false =>
    have hout := step_outside hI.registry ha h
    refine ⟨hout.registry hI.registry, hsound, hout.holds hI.holds, fun watch hm => ?_⟩
    exact Nat.lt_of_lt_of_le (hI.live_old watch (hout.live watch hm)) hout.next

end Sound

/-! ## Coverage -/

/-- The directory itself, and what the scan of it does not skip. -/
def Visible (r p : HostPath) : Prop := ∃ rel, p = rel ++ r ∧ ∀ name ∈ rel, Shown name

/-- Every entry the scan of `r` is after is settled or due, the files of `old` apart. -/
def Covered (env : Env) (old : HostPath → Prop) (r : HostPath) (s : State) : Prop :=
  ∀ p, Visible r p → s.tree.node p ≠ none →
    s.tree.isFile p = true ∧ old p ∨ Settled env s p ∨
      ∃ name dir, name :: dir <:+ p ∧ r <:+ dir ∧ Due s name dir

/-- Neither the watched directory nor one above it is removed, renamed or replaced. -/
def Confined (r : HostPath) : Action → Prop
  | .rmdir name dir => ¬ name :: dir <:+ r
  | .rename old name dir => ¬ old <:+ r ∧ ¬ name :: dir <:+ r
  | _ => True

instance Confined.decidable (r : HostPath) : ∀ a, Decidable (Confined r a)
  | .rmdir _ _ => inferInstanceAs (Decidable (¬ _))
  | .rename _ _ _ => inferInstanceAs (Decidable (¬ _ ∧ ¬ _))
  | .create _ _ _ | .evict _ | .serve | .addWatch _ | .readdir _ => .isTrue trivial

section Coverage
variable {env : Env} {old : HostPath → Prop} {r p q : HostPath} {s s' : State} {a : Action}
  {gone arrived : Option HostPath} {name : QString} {dir : HostPath}

theorem Visible.above (h : Visible r p) (hr : r <:+ q) (hq : q <:+ p) : Visible r q := by
  obtain ⟨rel, rfl, hshown⟩ := h
  obtain ⟨rel', rfl⟩ := hr
  obtain ⟨rest, hrest⟩ := hq
  rw [← List.append_assoc] at hrest
  obtain rfl := List.append_cancel_right hrest
  exact ⟨rel', rfl, fun n hn => hshown n (List.mem_append_right _ hn)⟩

theorem Visible.shown (h : Visible r p) (hr : r <:+ dir) (hs : name :: dir <:+ p) : Shown name := by
  obtain ⟨rel, heq, hshown⟩ := h.above (hr.trans (List.suffix_cons name dir)) hs
  obtain ⟨rel', rfl⟩ := hr
  rw [← List.cons_append] at heq
  exact hshown name (List.append_cancel_right heq ▸ List.mem_cons_self)

theorem Settled.congr (hnode : s'.tree.node p = s.tree.node p)
    (hmap : s.mWatcher.mPathToWdMap p ≠ none → s'.mWatcher.mPathToWdMap p ≠ none)
    (hlists : ∀ info ∈ s.mFileList, info ∈ s'.mFileList) (h : Settled env s p) :
    Settled env s' p where
  dir hdir := by
    obtain ⟨i, hi⟩ := Tree.isDir_iff.mp hdir
    exact hmap (h.dir (Tree.isDir_iff.mpr ⟨i, hnode ▸ hi⟩))
  file hfile hnotifies := by
    obtain ⟨i, hi⟩ := Tree.isFile_iff.mp hfile
    exact hlists _ (h.file (Tree.isFile_iff.mpr ⟨i, hnode ▸ hi⟩) hnotifies)

theorem Covered.served (hcov : Covered env old r s) (h : Served env s s') :
    Covered env old r s' := by
  intro p hvis hp
  rw [h.tree] at hp ⊢
  rcases hcov p hvis hp with hold | hsettled | ⟨name, dir, hs, hr, hdue⟩
  · exact Or.inl hold
  · by_cases hdir : s.tree.isDir p = true
    · obtain ⟨wd, hwd⟩ := Option.ne_none_iff_exists'.mp (hsettled.dir hdir)
      have hreg := h.keeps p wd hdir hwd
      refine Or.inr (Or.inl (hsettled.congr (by rw [h.tree]) (fun _ => ?_) h.lists))
      rw [hreg]
      exact Option.some_ne_none wd
    · refine Or.inr (Or.inl ⟨fun hdir' => absurd (h.tree ▸ hdir') hdir, fun hfile hnotifies => ?_⟩)
      exact h.lists _ (hsettled.file (h.tree ▸ hfile) hnotifies)
  · rcases h.advance name dir p hdue (hvis.shown hr hs) hs hp with
      hsettled | ⟨name', dir', hs', hdir', hdue'⟩
    · exact Or.inr (Or.inl hsettled)
    · exact Or.inr (Or.inr ⟨name', dir', hs', hr.trans hdir', hdue'⟩)

/-- What the thread was on its way to, it still is, unless it was taken away. -/
theorem Control.Looks.forget {t t' : FileSystem} {control : Control}
    (hnode : t'.node (name :: dir) = t.node (name :: dir)) (hgone : ∀ a ∈ gone, ¬ a <:+ name :: dir)
    (h : control.Looks t name dir) :
    (gone.elim control control.forget : Control).Looks t' name dir := by
  have hdir : t.isDir (name :: dir) = true → t'.isDir (name :: dir) = true := by
    intro hd
    rw [Tree.isDir, Tree.dir?_congr hnode]
    exact hd
  have hfile : t.isFile (name :: dir) = true → t'.isFile (name :: dir) = true := by
    intro hf
    rw [Tree.isFile, hnode]
    exact hf
  have hsame : control.Looks t' name dir := by
    cases control with
    | idle => exact h
    | watchedPathFromWd n paths => exact h
    | isPathDir newPath => exact h
    | isPathRegularFile newPath => exact h.imp_right hfile
    | addWatchRecursively path flag => exact h.imp_right hdir
    | removeWatch wd count j => exact h
    | scan flag path point outer =>
      refine Or.imp_left (fun hl => ?_) h
      cases point with
      | realpath => exact And.imp_right hdir hl
      | addWatch => exact And.imp_right hdir hl
      | opendir => exact hl
      | readdir pending => exact hl
      | isPathRegularFile pending n => exact hl
      | isPathDir pending n => exact And.imp_right (Or.imp_right (And.imp_right hdir)) hl
  cases gone with
  | none => exact hsame
  | some path =>
    have hkeep : ∀ pending, name ∈ pending → name ∈ keepEntries path dir pending :=
      fun pending hn => List.mem_filter.mpr ⟨hn, decide_eq_true (hgone path rfl)⟩
    show (control.forget path).Looks t' name dir
    cases control with
    | scan flag path' point outer =>
      refine Or.imp (fun hl => ?_) (fun hin => ?_) hsame
      · cases point with
        | realpath => exact hl
        | addWatch => exact hl
        | opendir => exact hl
        | readdir pending =>
          obtain ⟨rfl, hn⟩ := hl
          exact ⟨rfl, hkeep pending hn⟩
        | isPathRegularFile pending n =>
          obtain ⟨rfl, hn⟩ := hl
          exact ⟨rfl, hn.imp_left (hkeep pending)⟩
        | isPathDir pending n =>
          obtain ⟨rfl, hn⟩ := hl
          exact ⟨rfl, hn.imp_left (hkeep pending)⟩
      · obtain ⟨frame, hframe, rfl, hn⟩ := hin
        exact ⟨_, List.mem_map_of_mem hframe, rfl, hkeep frame.pending hn⟩
    | idle => exact hsame
    | watchedPathFromWd n paths => exact hsame
    | isPathDir newPath => exact hsame
    | isPathRegularFile newPath => exact hsame
    | addWatchRecursively path flag => exact hsame
    | removeWatch wd count j => exact hsame

/-- What is due stays due for everything that stays. -/
theorem Outside.due (h : Outside s s' gone arrived) (hp : s'.tree.node p ≠ none)
    (hnew : ∀ b ∈ arrived, ¬ b <:+ p) (hs : name :: dir <:+ p) (hdue : Due s name dir) :
    Due s' name dir := by
  obtain ⟨hp, hnew⟩ := Tree.Kept.above hp hnew hs
  rcases hdue with ⟨wd, hwd, hq⟩ | hl
  · exact Or.inl ⟨wd, h.map ▸ hwd, hq.imp (h.queue _) (h.queue _)⟩
  · refine Or.inr ?_
    rw [h.control]
    exact hl.forget (h.kept.old hp hnew) (h.kept.not_gone _ hp hnew)

/-- An arrival is due, since its directory is settled and hears of it, or the
directory is due itself. -/
theorem Covered.outside (hcov : Covered env old r s) (hI : Invariant s)
    (h : Outside s s' gone arrived) (hcons : ∀ b ∈ arrived, ∃ name dir, b = name :: dir)
    (hout : ∀ b ∈ arrived, ¬ b <:+ r) : Covered env old r s' := by
  intro p hvis hp
  by_cases hnew : ∀ b ∈ arrived, ¬ b <:+ p
  · have hsame := h.kept.old hp hnew
    rcases hcov p hvis (hsame ▸ hp) with ⟨hfile, hold⟩ | hsettled | ⟨name, dir, hs, hr, hdue⟩
    · refine Or.inl ⟨?_, hold⟩
      rwa [Tree.isFile, hsame]
    · refine Or.inr (Or.inl (hsettled.congr hsame (fun hm => h.map ▸ hm) fun info hi => ?_))
      exact h.lists ▸ hi
    · exact Or.inr (Or.inr ⟨name, dir, hs, hr, h.due hp hnew hs hdue⟩)
  · push Not at hnew
    obtain ⟨b, hb, hs⟩ := hnew
    obtain ⟨name, dir, rfl⟩ := hcons b hb
    have hr : r <:+ dir := by
      obtain ⟨rel, rfl, _⟩ := hvis
      rcases List.suffix_or_suffix_of_suffix (List.suffix_append rel r) hs with hs' | hs'
      · rcases List.suffix_cons_iff.mp hs' with heq | hs'
        · exact absurd (heq ▸ List.suffix_rfl) (hout _ hb)
        · exact hs'
      · exact absurd hs' (hout _ hb)
    obtain ⟨hdir, hannounced⟩ := h.announced name dir hb
    have hs' : dir <:+ p := (List.suffix_cons name dir).trans hs
    rcases hcov dir (hvis.above hr hs') (Tree.isDir_ne_none hdir) with
      ⟨hfile, _⟩ | hsettled | ⟨n, q, hq, hrq, hdue⟩
    · exact absurd hfile (Tree.not_isFile_of_isDir hdir)
    · obtain ⟨wd, hwd⟩ := Option.ne_none_iff_exists'.mp (hsettled.dir hdir)
      obtain ⟨i, hi⟩ := Tree.isDir_iff.mp hdir
      have hi := Tree.dir?_eq_some.mpr hi
      have hlive := hI.registry.oneToOne.wdOf_eq (hI.sound dir wd i hwd hi)
      refine Or.inr (Or.inr ⟨name, dir, hs, hr, Or.inl ⟨wd, h.map ▸ hwd, ?_⟩⟩)
      exact hannounced wd i hi hlive
    · -- the directory itself stays where it is
      have hdir' : s'.tree.node dir ≠ none :=
        Tree.isDir_ne_none (isDir_of_below hp hs)
      have hstay : ∀ b ∈ arrived, ¬ b <:+ dir := by
        intro b' hb' hs''
        obtain rfl := Option.some.inj (hb'.symm.trans hb)
        exact Nat.not_succ_le_self _ hs''.length_le
      exact Or.inr (Or.inr ⟨n, q, hq.trans hs', hrq, h.due hdir' hstay hq hdue⟩)

end Coverage

/-! ## Watching a directory -/

/-- All events are handled. -/
def Quiet (s : State) : Prop := s.control = .idle ∧ s.mWatcher.kernel.queue = []

structure Watching (env : Env) (old : HostPath → Prop) (r : HostPath) (s : State) : Prop where
  dir : s.tree.isDir r = true
  covered : Covered env old r s

section Watching
variable {env : Env} {old : HostPath → Prop} {r p : HostPath} {s s' : State} {a : Action}

theorem Confined.out (h : Confined r a) (hr : s.tree.isDir r = true)
    (hstep : step env s a = some s') :
    (∀ b ∈ a.gone, ¬ b <:+ r) ∧ ∀ b ∈ a.arrived, ¬ b <:+ r := by
  cases a with
  | create kind name dir =>
    refine ⟨fun b hb => (by cases hb), fun b hb hs => ?_⟩
    obtain rfl := Option.some.inj hb
    obtain ⟨hfree, _⟩ := step_create hstep
    exact node_of_below (Tree.isDir_ne_none hr) hs hfree
  | rmdir name dir =>
    refine ⟨fun b hb => ?_, fun b hb => (by cases hb)⟩
    obtain rfl := Option.some.inj hb
    exact h
  | rename old name dir =>
    refine ⟨fun b hb => ?_, fun b hb => ?_⟩
    · obtain rfl := Option.some.inj hb
      exact h.1
    · obtain rfl := Option.some.inj hb
      exact h.2
  | evict inode => exact ⟨fun b hb => (by cases hb), fun b hb => (by cases hb)⟩
  | serve => exact ⟨fun b hb => (by cases hb), fun b hb => (by cases hb)⟩
  | addWatch wd => exact ⟨fun b hb => (by cases hb), fun b hb => (by cases hb)⟩
  | readdir entry => exact ⟨fun b hb => (by cases hb), fun b hb => (by cases hb)⟩

theorem arrived_cons {b : HostPath} (hb : b ∈ a.arrived) : ∃ name dir, b = name :: dir := by
  cases a with
  | create kind name dir => exact ⟨name, dir, (Option.some.inj hb).symm⟩
  | rename old name dir => exact ⟨name, dir, (Option.some.inj hb).symm⟩
  | rmdir name dir => cases hb
  | evict inode => cases hb
  | serve => cases hb
  | addWatch wd => cases hb
  | readdir entry => cases hb

theorem Watching.step (hW : Watching env old r s) (hI : Invariant s) (hconf : Confined r a)
    (h : step env s a = some s') : Watching env old r s' := by
  cases ha : a.isService with
  | true =>
    have hserved := step_served hI.registry hI.sound hI.holds ha h
    exact ⟨hserved.tree ▸ hW.dir, hW.covered.served hserved⟩
  | false =>
    have hout := step_outside hI.registry ha h
    obtain ⟨hgone, harrived⟩ := hconf.out hW.dir h
    refine ⟨?_, hW.covered.outside hI hout (fun _ => arrived_cons) harrived⟩
    rw [Tree.isDir, Tree.dir?_congr (hout.kept.node_eq r hgone harrived)]
    exact hW.dir

theorem not_due (hquiet : Quiet s) (name : QString) (dir : HostPath) : ¬ Due s name dir := by
  rintro (⟨wd, _, hq | hq⟩ | hl)
  · rw [hquiet.2] at hq
    cases hq
  · rw [hquiet.2] at hq
    cases hq
  · rw [hquiet.1] at hl
    exact hl

/-- Once all events are handled, every directory the scan is after has its
watch and every file is listed. -/
theorem Watching.quiet (hW : Watching env old r s) (hquiet : Quiet s) (hvis : Visible r p)
    (hp : s.tree.node p ≠ none) : s.tree.isFile p = true ∧ old p ∨ Settled env s p := by
  rcases hW.covered p hvis hp with hold | hsettled | ⟨name, dir, _, _, hdue⟩
  · exact Or.inl hold
  · exact Or.inr hsettled
  · exact absurd hdue (not_due hquiet name dir)

theorem Watching.quiet_dir {i : Nat} (hW : Watching env old r s) (hI : Invariant s)
    (hquiet : Quiet s) (hvis : Visible r p) (hi : s.tree.dir? p = some i) :
    ∃ wd, s.mWatcher.mPathToWdMap p = some wd ∧ (wd, i) ∈ s.mWatcher.kernel.watches := by
  have hdir : s.tree.isDir p = true := Tree.isDir_iff.mpr ⟨i, Tree.dir?_eq_some.mp hi⟩
  rcases hW.quiet hquiet hvis (Tree.isDir_ne_none hdir) with ⟨hfile, _⟩ | hsettled
  · exact absurd hfile (Tree.not_isFile_of_isDir hdir)
  · obtain ⟨wd, hwd⟩ := Option.ne_none_iff_exists'.mp (hsettled.dir hdir)
    exact ⟨wd, hwd, hI.sound p wd i hwd hi⟩

/-- A descriptor that the kernel does not use. -/
theorem exists_fresh (watches : List (Int × Nat)) :
    ∃ wd : Int, 0 ≤ wd ∧ ∀ watch ∈ watches, watch.1 < wd := by
  induction watches with
  | nil => exact ⟨0, Int.le_refl 0, fun _ h => by cases h⟩
  | cons watch watches ih =>
    obtain ⟨wd, hpos, hlt⟩ := ih
    refine ⟨max wd (watch.1 + 1), by omega, fun other hother => ?_⟩
    rcases List.mem_cons.mp hother with rfl | hother
    · omega
    · have := hlt other hother
      omega

/-- The watcher thread is never stuck before all events are handled. -/
theorem service_progress (hI : Invariant s) (hbusy : ¬ Quiet s) :
    ∃ a s', a.isService = true ∧ FileInotifyService.step env s a = some s' := by
  have hserve : (∃ s', serve env s = some s') →
      ∃ a s', a.isService = true ∧ FileInotifyService.step env s a = some s' :=
    fun ⟨s', h⟩ => ⟨.serve, s', rfl, h⟩
  cases hc : s.control with
  | idle =>
    cases hq : s.mWatcher.kernel.queue with
    | nil => exact absurd ⟨hc, hq⟩ hbusy
    | cons event queue =>
      refine hserve (Option.ne_none_iff_exists'.mp ?_)
      unfold serve
      rw [hc]
      dsimp only
      split
      · rename_i hoff
        rw [hI.registry.initialized] at hoff
        cases hoff
      · rename_i hnil
        rw [hq] at hnil
        cases hnil
      · exact Option.some_ne_none _
  | watchedPathFromWd name paths =>
    cases paths with
    | nil => exact hserve ⟨_, by rw [serve, hc]⟩
    | cons path paths => exact hserve ⟨_, by rw [serve, hc]⟩
  | isPathDir newPath => exact hserve ⟨_, by rw [serve, hc]⟩
  | isPathRegularFile newPath => exact hserve ⟨_, by rw [serve, hc]⟩
  | addWatchRecursively path flag => exact hserve ⟨_, by rw [serve, hc]⟩
  | removeWatch wd count j =>
    cases count with
    | zero => exact hserve ⟨_, by rw [serve, hc]⟩
    | succ count => exact hserve ⟨_, by rw [serve, hc]⟩
  | scan flag path point outer =>
    cases point with
    | realpath => exact hserve ⟨_, by rw [serve, hc]; rfl⟩
    | opendir => exact hserve ⟨_, by rw [serve, hc]; rfl⟩
    | isPathRegularFile pending name =>
      by_cases hfile : (s.tree.isFile (name :: path) && flag) = true
      · exact hserve ⟨_, by rw [serve, hc]; exact if_pos hfile⟩
      · exact hserve ⟨_, by rw [serve, hc]; exact if_neg hfile⟩
    | isPathDir pending name => exact hserve ⟨_, by rw [serve, hc]; rfl⟩
    | addWatch =>
      obtain ⟨wd, hpos, hlt⟩ := exists_fresh s.mWatcher.kernel.watches
      have hunused : s.mWatcher.kernel.watches.all (fun watch => watch.1 ≠ wd) = true := by
        rw [List.all_eq_true]
        intro watch hmem
        have hne := hlt watch hmem
        exact decide_eq_true (by omega)
      exact ⟨.addWatch wd, _, rfl, by
        dsimp only [FileInotifyService.step]
        rw [hc]
        exact if_pos ⟨hpos, hunused⟩⟩
    | readdir pending =>
      cases pending with
      | nil => exact ⟨.readdir none, _, rfl, by dsimp only [FileInotifyService.step]; rw [hc]⟩
      | cons name pending =>
        exact ⟨.readdir (some name), _, rfl, by dsimp only [FileInotifyService.step]; rw [hc]⟩

/-- Registered directories and nothing to handle are enough to start from. -/
theorem Watching.of_registered (hr : s.tree.isDir r = true)
    (hreg : ∀ p, Visible r p → s.tree.isDir p = true → s.mWatcher.mPathToWdMap p ≠ none)
    (hold : ∀ p, Visible r p → s.tree.isFile p = true → old p) : Watching env old r s := by
  refine ⟨hr, fun p hvis hp => ?_⟩
  rcases Tree.isDir_or_isFile hp with hdir | hfile
  · refine Or.inr (Or.inl ⟨fun _ => hreg p hvis hdir, fun hfile => ?_⟩)
    exact absurd hfile (Tree.not_isFile_of_isDir hdir)
  · exact Or.inl ⟨hfile, hold p hvis hfile⟩

end Watching

/-! ## Where a run starts -/

/-- The directory `r` is watched, with everything below it that the scan is
after, and there is nothing to handle. -/
structure Started (r : HostPath) (s : State) : Prop where
  quiet : Quiet s
  invariant : Invariant s
  dir : s.tree.isDir r = true
  registered : ∀ p, Visible r p → s.tree.isDir p = true → s.mWatcher.mPathToWdMap p ≠ none

/-- The directory `r` is empty, and it alone is watched and registered. -/
structure Alone (r : HostPath) (wd : Int) (i : Nat) (s : State) : Prop where
  quiet : Quiet s
  dir : s.tree.dir? r = some i
  empty : ∀ name, s.tree.node (name :: r) = none
  initialized : s.mWatcher.mInitialized = true
  nonneg : 0 ≤ wd
  items : s.mWatcher.mWdToPathMap = [(wd, r)]
  paths : s.mWatcher.mPathToWdMap = Function.update (fun _ => none) r (some wd)
  watches : s.mWatcher.kernel.watches = [(wd, i)]

section Start
variable {r p : HostPath} {wd : Int} {i : Nat} {s : State}

/-- So it is after the watcher has been initialized and has added the watch. -/
theorem alone_of_addWatch {tree : FileSystem} {fd : Int} (mFileList : List NotifyFileInfo)
    (hfd : 0 ≤ fd) (hwd : 0 ≤ wd) (hdir : tree.dir? r = some i)
    (hempty : ∀ name, tree.node (name :: r) = none) :
    Alone r wd i ⟨tree, (((Watcher.constructed ⟨[], []⟩).initializeWatcher
      (inotify tree fd)).1.addWatch (inotify tree wd) r watchMask).1, mFileList, .idle⟩ := by
  have hnode := Tree.dir?_eq_some.mp hdir
  have hinit : ((Watcher.constructed ⟨[], []⟩ : Watcher Kernel HostPath).initializeWatcher
      (inotify tree fd)).1 = ⟨[], fun _ => none, fd, true, ⟨[], []⟩⟩ := by
    simp [Watcher.initializeWatcher, Watcher.constructed, inotify, Int.not_lt.mpr hfd]
  rw [hinit]
  have hadd : ((⟨[], fun _ => none, fd, true, ⟨[], []⟩⟩ : Watcher Kernel HostPath).addWatch
      (inotify tree wd) r watchMask).1 =
      ⟨[(wd, r)], Function.update (fun _ => none) r (some wd), fd, true, ⟨[(wd, i)], []⟩⟩ := by
    simp [Watcher.addWatch, inotify, hnode, Kernel.wdOf, Int.not_lt.mpr hwd]
  rw [hadd]
  exact ⟨⟨rfl, rfl⟩, hdir, hempty, rfl, hwd, rfl, rfl, rfl⟩

theorem Alone.eq_of_below (h : Alone r wd i s) (hp : s.tree.node p ≠ none) (hr : r <:+ p) :
    p = r := by
  obtain ⟨rel, rfl⟩ := hr
  rcases List.eq_nil_or_concat rel with rfl | ⟨rel, name, rfl⟩
  · rfl
  · rw [List.concat_eq_append, List.append_assoc] at hp
    exact absurd (h.empty name) (node_of_below hp (List.suffix_append rel (name :: r)))

theorem Alone.started (h : Alone r wd i s) : Started r s := by
  have hmap : ∀ p k, s.mWatcher.mPathToWdMap p = some k → p = r ∧ k = wd := by
    intro p k hk
    rw [h.paths] at hk
    by_cases hp : p = r
    · subst hp
      rw [Function.update_self] at hk
      exact ⟨rfl, (Option.some.inj hk).symm⟩
    · rw [Function.update_of_ne hp] at hk
      cases hk
  have hlive : ∀ k j, (k, j) ∈ s.mWatcher.kernel.watches → k = wd ∧ j = i := by
    intro k j hk
    rw [h.watches, List.mem_singleton] at hk
    exact Prod.mk.inj hk
  have hinverse : Inverse s.mWatcher := .single h.items h.paths
  have hone : s.mWatcher.kernel.OneToOne := by
    refine ⟨fun k j j' hj hj' => ?_, fun k k' j hk hk' => ?_⟩
    · exact (hlive k j hj).2.trans (hlive k j' hj').2.symm
    · exact (hlive k j hk).1.trans (hlive k' j hk').1.symm
  have hdir : s.tree.isDir r = true := Tree.isDir_iff.mpr ⟨i, Tree.dir?_eq_some.mp h.dir⟩
  refine ⟨h.quiet, ⟨⟨h.initialized, hinverse, fun p k hk => ?_, fun k j hk => ?_, hone⟩, ?_, ?_,
    fun watch hm => ?_⟩, hdir, fun p hvis hp => ?_⟩
  · exact (hmap p k hk).2 ▸ h.nonneg
  · exact (hlive k j hk).1 ▸ h.nonneg
  · intro p k j hk hj
    obtain ⟨rfl, rfl⟩ := hmap p k hk
    rw [h.watches, Option.some.inj (hj.symm.trans h.dir)]
    exact List.mem_singleton_self _
  · rw [h.quiet.1]
    trivial
  · obtain ⟨k, j⟩ := watch
    rw [(hlive k j hm).2]
    exact s.tree.inode_lt r _ (Tree.dir?_eq_some.mp h.dir)
  · obtain ⟨rel, heq, _⟩ := hvis
    rw [h.eq_of_below (Tree.isDir_ne_none hp) ⟨rel, heq.symm⟩, h.paths, Function.update_self]
    exact Option.some_ne_none wd

end Start
end KmreManager.FileInotifyService
