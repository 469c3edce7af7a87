import KmreManager.FileInotifyService.Invariant

/-! # Directories and files made while the service scans

Other programs make directories and files below a watched directory, in any
order relative to the steps of the watcher thread. Nothing disappears, so a
registered path always names something, and every step is fresh; what is left
when all events are handled is settled. -/
namespace KmreManager.FileInotifyService
open KmreManager.Lib KmreManager.Lib.FileTree KmreManager.FileInotifyWatcher

/-- The other programs only make directories and files below `r`, with names
the scan does not skip, the files of a kind to list. -/
def Creates (env : Env) (r : HostPath) : Action → Prop
  | .create kind name dir => r <:+ dir ∧ name.head? ≠ some '.' ∧
    (kind = .file → env.notifies (filePath (name :: dir)) = true)
  | a => a.isService = true

instance Creates.decidable (env : Env) (r : HostPath) : ∀ a, Decidable (Creates env r a)
  | .create _ _ _ => inferInstanceAs (Decidable (_ ∧ _ ∧ (_ → _)))
  | .rmdir _ _ | .rename _ _ _ | .evict _ | .serve | .addWatch _ | .readdir _ =>
    inferInstanceAs (Decidable (_ = true))

structure Filling (env : Env) (r : HostPath) (s : State) : Prop where
  invariant : Invariant s
  watching : Watching env (fun _ => False) r s
  named : ∀ p, s.mWatcher.mPathToWdMap p ≠ none → s.tree.node p ≠ none
  visible : ∀ p, r <:+ p → s.tree.node p ≠ none → Visible r p
  notifies : ∀ p, r <:+ p → s.tree.isFile p = true → env.notifies (filePath p) = true

section Runs
variable {env : Env} {r p : HostPath} {wd : Int} {i : Nat} {s s' : State} {a : Action}

theorem Alone.filling (h : Alone r wd i s) : Filling env r s := by
  have hstart := h.started
  have hfile : ∀ p, r <:+ p → ¬ s.tree.isFile p = true := by
    intro p hr hfile
    rw [h.eq_of_below (Tree.isFile_ne_none hfile) hr] at hfile
    exact Tree.not_isFile_of_isDir hstart.dir hfile
  refine ⟨hstart.invariant, .of_registered hstart.dir hstart.registered ?_, ?_, ?_, ?_⟩
  · rintro p ⟨rel, rfl, _⟩ hf
    exact hfile _ (List.suffix_append rel r) hf
  · intro p hp
    have heq : p = r := by
      by_contra hne
      rw [h.paths, Function.update_of_ne hne] at hp
      exact hp rfl
    exact heq ▸ Tree.isDir_ne_none hstart.dir
  · intro p hr hp
    exact ⟨[], h.eq_of_below hp hr, fun _ hn => by cases hn⟩
  · intro p hr hf
    exact absurd hf (hfile p hr)

/-- What stands in the tree stays there. -/
theorem Creates.node (ha : Creates env r a) (hI : Invariant s) (h : step env s a = some s')
    (hp : s.tree.node p ≠ none) : s'.tree.node p = s.tree.node p := by
  cases hs : a.isService with
  | true => rw [(step_served hI.registry hI.sound hI.holds hs h).tree]
  | false =>
    cases a with
    | create kind name dir =>
      obtain ⟨hfree, hdir, _, rfl⟩ := step_create h
      exact Tree.create_of_ne_none hfree hdir hp
    | rmdir name dir => cases ha
    | rename old name dir => cases ha
    | evict inode => cases ha
    | serve => cases hs
    | addWatch wd => cases hs
    | readdir entry => cases hs

theorem Filling.service (hF : Filling env r s) (ha : a.isService = true)
    (h : step env s a = some s') : Filling env r s' := by
  have hserved :=
    step_served hF.invariant.registry hF.invariant.sound hF.invariant.holds ha h
  have hconf : Confined r a := by cases a <;> trivial
  refine ⟨hF.invariant.step (fresh_of_isService ha) h, hF.watching.step hF.invariant hconf h,
    ?_, ?_, ?_⟩
  · intro p hp
    rw [hserved.tree]
    exact (hserved.adds p hp).elim (hF.named p) id
  · rw [hserved.tree]
    exact hF.visible
  · rw [hserved.tree]
    exact hF.notifies

/-- A path that names nothing is not registered. -/
theorem Filling.fresh {kind : Kind} {name : QString} {dir : HostPath} (hF : Filling env r s)
    (hfree : s.tree.node (name :: dir) = none) : Fresh s (.create kind name dir) := by
  cases kind with
  | file => trivial
  | dir =>
    by_contra hreg
    exact hF.named _ hreg hfree

theorem Filling.create {kind : Kind} {name : QString} {dir : HostPath} (hF : Filling env r s)
    (ha : Creates env r (.create kind name dir))
    (h : step env s (.create kind name dir) = some s') : Filling env r s' := by
  obtain ⟨hr, hdot, hnotifies⟩ := ha
  have hout := step_outside hF.invariant.registry rfl h
  obtain ⟨hfree, hdir, hname, rfl⟩ := step_create h
  have hshown : Shown name := by
    refine ⟨?_, hdot⟩
    intro heq
    subst heq
    simp [validName] at hname
  have hcases : ∀ p, (s.tree.create kind name dir hfree hdir).node p ≠ none →
      p = name :: dir ∨ s.tree.node p ≠ none := by
    intro p hp
    by_cases heq : p = name :: dir
    · exact Or.inl heq
    · exact Or.inr (Tree.create_of_ne hfree hdir heq ▸ hp)
  have hconf : Confined r (.create kind name dir) := trivial
  refine ⟨hF.invariant.step (hF.fresh hfree) h, hF.watching.step hF.invariant hconf h, ?_, ?_, ?_⟩
  · intro p hp
    have hold := hF.named p (hout.map ▸ hp)
    dsimp only
    rwa [Tree.create_of_ne_none hfree hdir hold]
  · intro p hrp hp
    rcases hcases p hp with rfl | hold
    · obtain ⟨rel, rfl, hrel⟩ := hF.visible dir hr (Tree.isDir_ne_none hdir)
      exact ⟨name :: rel, rfl, List.forall_mem_cons.mpr ⟨hshown, hrel⟩⟩
    · exact hF.visible p hrp hold
  · intro p hrp hf
    rcases hcases p (Tree.isFile_ne_none hf) with rfl | hold
    · obtain ⟨j, hj⟩ := Tree.isFile_iff.mp hf
      have hself := (Tree.create_self hfree hdir).symm.trans hj
      exact hnotifies (congrArg Node.kind (Option.some.inj hself))
    · have hsame : (s.tree.create kind name dir hfree hdir).node p = s.tree.node p :=
        Tree.create_of_ne_none hfree hdir hold
      refine hF.notifies p hrp ?_
      rw [Tree.isFile, ← hsame]
      exact hf

theorem Filling.step (hF : Filling env r s) (ha : Creates env r a) (h : step env s a = some s') :
    Filling env r s' := by
  cases a with
  | create kind name dir => exact hF.create ha h
  | serve => exact hF.service rfl h
  | addWatch wd => exact hF.service rfl h
  | readdir entry => exact hF.service rfl h
  | rmdir name dir => cases ha
  | rename old name dir => cases ha
  | evict inode => cases ha

/-- A run, and what it keeps in the tree. -/
theorem Filling.run {as : List Action} (hF : Filling env r s) (has : ∀ a ∈ as, Creates env r a)
    (hrun : Runs.run (FileInotifyService.step env) s as = some s') :
    Filling env r s' ∧ ∀ p, s.tree.node p ≠ none → s'.tree.node p = s.tree.node p := by
  induction as generalizing s with
  | nil =>
    cases hrun
    exact ⟨hF, fun _ _ => rfl⟩
  | cons a as ih =>
    obtain ⟨t, ht, hrest⟩ := Runs.run_cons_some.mp hrun
    obtain ⟨ha, has⟩ := List.forall_mem_cons.mp has
    obtain ⟨hF', hkept⟩ := ih (hF.step ha ht) has hrest
    refine ⟨hF', fun p hp => ?_⟩
    have hfirst := ha.node hF.invariant ht hp
    exact (hkept p (hfirst ▸ hp)).trans hfirst

/-- A file that was made is there in the end. -/
theorem Filling.made {as : List Action} {name : QString} {dir : HostPath} (hF : Filling env r s)
    (has : ∀ a ∈ as, Creates env r a) (hrun : Runs.run (FileInotifyService.step env) s as = some s')
    (hmem : .create .file name dir ∈ as) : r <:+ dir ∧ s'.tree.isFile (name :: dir) = true := by
  obtain ⟨before, after, rfl⟩ := List.append_of_mem hmem
  obtain ⟨t, ht, hrest⟩ := Runs.run_append_some.mp hrun
  obtain ⟨u, hu, hafter⟩ := Runs.run_cons_some.mp hrest
  have hcreates := has _ hmem
  have hFt := (hF.run (fun a ha => has a (List.mem_append_left _ ha)) ht).1
  have hkept := ((hFt.step hcreates hu).run
    (fun a ha => has a (List.mem_append_right _ (List.mem_cons_of_mem _ ha))) hafter).2
  obtain ⟨hfree, hdir, _, rfl⟩ := step_create hu
  have hself : (t.tree.create .file name dir hfree hdir).node (name :: dir) =
      some ⟨.file, t.tree.next⟩ := Tree.create_self hfree hdir
  have hend := hkept (name :: dir) (by dsimp only; rw [hself]; exact Option.some_ne_none _)
  exact ⟨hcreates.1, Tree.isFile_iff.mpr ⟨t.tree.next, hend.trans hself⟩⟩

/-- **Nothing is lost between the watch and the scan.** A directory `r` is
watched, registered and empty, and nothing else is registered. Whatever
directories and files are then made below it, in whatever order relative to the
steps of the watcher thread: once all events are handled, every directory below
`r` is watched and every file that was made has been listed. -/
theorem nothing_lost {as : List Action} (hstart : Alone r wd i s)
    (has : ∀ a ∈ as, Creates env r a) (hrun : Runs.run (FileInotifyService.step env) s as = some s')
    (hquiet : Quiet s') :
    (∀ p j, r <:+ p → s'.tree.dir? p = some j → ∃ k, (k, j) ∈ s'.mWatcher.kernel.watches) ∧
      ∀ name dir, .create .file name dir ∈ as →
        ⟨filePath (name :: dir), -1⟩ ∈ s'.mFileList := by
  obtain ⟨hF, _⟩ := hstart.filling.run has hrun
  constructor
  · intro p j hr hj
    have hnode : s'.tree.node p ≠ none := by
      rw [Tree.dir?_eq_some.mp hj]
      exact Option.some_ne_none _
    obtain ⟨k, _, hk⟩ := hF.watching.quiet_dir hF.invariant hquiet (hF.visible p hr hnode) hj
    exact ⟨k, hk⟩
  · intro name dir hmem
    obtain ⟨hr, hfile⟩ := hstart.filling.made has hrun hmem
    have hbelow : r <:+ name :: dir := hr.trans (List.suffix_cons name dir)
    have hnode := Tree.isFile_ne_none hfile
    rcases hF.watching.quiet hquiet (hF.visible _ hbelow hnode) hnode with ⟨_, hold⟩ | hsettled
    · exact hold.elim
    · exact hsettled.file hfile (hF.notifies _ hbelow hfile)

end Runs

/-! ## A user's pictures -/

/-- Types by extension, for the home directory of a user. -/
def userEnv : Env where
  mimeTypeForFile path :=
    if ".png".toList <:+ path then "image/png".toList else "application/octet-stream".toList
  homeDirPath := "/home/kylin".toList

def pictures : HostPath := ["Pictures".toList, "kylin".toList, "home".toList]

def userTree : FileSystem :=
  let home := Tree.bare.create .dir "home".toList [] (by decide) (by decide)
  let user := home.create .dir "kylin".toList ["home".toList] (by decide) (by decide)
  user.create .dir "Pictures".toList ["kylin".toList, "home".toList] (by decide) (by decide)

def album : HostPath := "a".toList :: pictures

/-- The empty directory of pictures is watched. -/
def watched : State where
  tree := userTree
  mWatcher := (((Watcher.constructed ⟨[], []⟩).initializeWatcher (inotify userTree 3)).1.addWatch
    (inotify userTree 1) pictures watchMask).1
  mFileList := []
  control := .idle

theorem watched_alone : Alone pictures 1 3 watched :=
  alone_of_addWatch [] (by decide) (by decide) (by decide +kernel)
    (node_of_vacant (by decide +kernel))

/-- An album is made; a picture and a directory are made in it, one before its
watch is added and one after. -/
def albumRun : List Action :=
  [.create .dir "a".toList pictures, .serve, .serve, .serve, .serve, .serve,
    .create .file "b.png".toList album, .addWatch 2, .create .dir "c".toList album, .serve,
    .readdir (some "b.png".toList), .serve, .readdir (some "c".toList), .serve, .serve, .serve,
    .addWatch 3, .serve, .readdir none, .readdir none,
    .serve, .serve, .serve, .serve, .serve, .addWatch 4, .serve, .readdir none]

theorem nothing_lost_album : ∃ s', Runs.run (step userEnv) watched albumRun = some s' ∧ Quiet s' ∧
    (∀ p j, pictures <:+ p → s'.tree.dir? p = some j → ∃ k, (k, j) ∈ s'.mWatcher.kernel.watches) ∧
      ∀ name dir, .create .file name dir ∈ albumRun →
        ⟨filePath (name :: dir), -1⟩ ∈ s'.mFileList := by
  have hdone : ((Runs.run (step userEnv) watched albumRun).map fun s =>
      (s.control, s.mWatcher.kernel.queue)) = some (.idle, []) := by decide +kernel
  obtain ⟨s', hrun, hend⟩ := Option.map_eq_some_iff.mp hdone
  have hquiet : Quiet s' := Prod.mk.inj hend
  exact ⟨s', hrun, hquiet, nothing_lost watched_alone (by decide +kernel) hrun hquiet⟩

end KmreManager.FileInotifyService
