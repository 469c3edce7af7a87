import KmreManager.FileInotifyService
import KmreManager.FileInotifyWatcher.Inverse

/-! # The maps against the kernel's watches

`Registry` is what the watcher's maps and the kernel's table keep by
themselves; `Sound` ties them to the tree: a path that is registered and names
a directory is registered with the watch of that directory. Whatever the
watcher thread calls keeps both, and never unregisters a directory. -/
namespace KmreManager.FileInotifyService
open KmreManager.Lib KmreManager.Lib.FileTree KmreManager.FileInotifyWatcher

namespace Kernel

/-- A watch is on one inode, and an inode has one watch. -/
structure OneToOne (k : Kernel) : Prop where
  inode_unique : ∀ wd i j, (wd, i) ∈ k.watches → (wd, j) ∈ k.watches → i = j
  wd_unique : ∀ wd wd' i, (wd, i) ∈ k.watches → (wd', i) ∈ k.watches → wd = wd'

variable {k k' : Kernel} {wd : Int} {inode : Nat} {event : Int → Event} {e : Event}

theorem OneToOne.mono (hk : k.OneToOne) (h : ∀ watch ∈ k'.watches, watch ∈ k.watches) :
    k'.OneToOne where
  inode_unique wd i j hi hj := hk.inode_unique wd i j (h _ hi) (h _ hj)
  wd_unique wd wd' i hi hi' := hk.wd_unique wd wd' i (h _ hi) (h _ hi')

theorem mem_of_wdOf (h : k.wdOf inode = some wd) : (wd, inode) ∈ k.watches := by
  rw [wdOf, Option.map_eq_some_iff] at h
  obtain ⟨⟨wd', i⟩, hfind, rfl⟩ := h
  have hi : i = inode := by simpa using List.find?_some hfind
  exact hi ▸ List.mem_of_find?_eq_some hfind

theorem not_mem_of_wdOf (h : k.wdOf inode = none) : (wd, inode) ∉ k.watches := by
  intro hmem
  rw [wdOf, Option.map_eq_none_iff, List.find?_eq_none] at h
  exact h _ hmem (by simp)

theorem OneToOne.wdOf_eq (hk : k.OneToOne) (h : (wd, inode) ∈ k.watches) :
    k.wdOf inode = some wd := by
  cases hwd : k.wdOf inode with
  | none => exact absurd h (not_mem_of_wdOf hwd)
  | some wd' => rw [hk.wd_unique wd wd' inode h (mem_of_wdOf hwd)]

@[simp] theorem notify_watches : (k.notify inode event).watches = k.watches := by
  unfold notify
  split <;> rfl

theorem mem_queue_notify (h : e ∈ k.queue) : e ∈ (k.notify inode event).queue := by
  unfold notify
  split
  · exact List.mem_append_left _ h
  · exact h

theorem notified (h : k.wdOf inode = some wd) : event wd ∈ (k.notify inode event).queue := by
  unfold notify
  rw [h]
  exact List.mem_append_right _ (List.mem_singleton_self _)

theorem mem_watches_drop {watch : Int × Nat} :
    watch ∈ (k.drop wd).watches ↔ watch ∈ k.watches ∧ watch.1 ≠ wd := by
  show watch ∈ k.watches.filter (fun watch => watch.1 ≠ wd) ↔ _
  rw [List.mem_filter, decide_eq_true_eq]

theorem mem_queue_drop (h : e ∈ k.queue) : e ∈ (k.drop wd).queue :=
  List.mem_append_left _ h

theorem mem_queue_evict (h : e ∈ k.queue) : e ∈ (k.evict inode).queue := by
  unfold evict
  split
  · exact mem_queue_drop (List.mem_append_left _ h)
  · exact h

/-- Only the watch of the inode itself goes. -/
theorem OneToOne.mem_watches_evict (hk : k.OneToOne) {watch : Int × Nat} :
    watch ∈ (k.evict inode).watches ↔ watch ∈ k.watches ∧ watch.2 ≠ inode := by
  obtain ⟨wd, i⟩ := watch
  unfold evict
  split
  · rename_i wd' hwd
    rw [mem_watches_drop]
    refine and_congr_right fun hmem => not_congr ⟨fun heq => ?_, fun heq => ?_⟩
    · obtain rfl : wd = wd' := heq
      exact hk.inode_unique wd i inode hmem (mem_of_wdOf hwd)
    · obtain rfl : i = inode := heq
      exact hk.wd_unique wd wd' i hmem (mem_of_wdOf hwd)
  · rename_i hnone
    refine ⟨fun hmem => ⟨hmem, ?_⟩, fun h => h.1⟩
    intro heq
    subst heq
    exact not_mem_of_wdOf hnone hmem

end Kernel

/-! ## Registered paths -/

structure Registry (w : Watcher Kernel HostPath) : Prop where
  initialized : w.mInitialized = true
  inverse : Inverse w
  nonneg : ∀ p wd, w.mPathToWdMap p = some wd → 0 ≤ wd
  live_nonneg : ∀ wd i, (wd, i) ∈ w.kernel.watches → 0 ≤ wd
  oneToOne : w.kernel.OneToOne

def Sound (tree : FileSystem) (w : Watcher Kernel HostPath) : Prop :=
  ∀ p wd i, w.mPathToWdMap p = some wd → tree.dir? p = some i → (wd, i) ∈ w.kernel.watches

/-- What every call of the watcher thread does for the directories. -/
structure Tended (tree : FileSystem) (w w' : Watcher Kernel HostPath) : Prop where
  registry : Registry w'
  sound : Sound tree w'
  keeps : ∀ p wd, tree.isDir p = true → w.mPathToWdMap p = some wd → w'.mPathToWdMap p = some wd
  adds : ∀ p, w'.mPathToWdMap p ≠ none → w.mPathToWdMap p ≠ none ∨ tree.node p ≠ none
  live : ∀ watch ∈ w'.kernel.watches, watch ∈ w.kernel.watches ∨ watch.2 < tree.next
  queue : ∀ e ∈ w.kernel.queue, e ∈ w'.kernel.queue

section Calls
variable {tree : FileSystem} {w w' : Watcher Kernel HostPath} {wd : Int}

theorem Tended.refl (hw : Registry w) (hs : Sound tree w) : Tended tree w w :=
  ⟨hw, hs, fun _ _ _ h => h, fun _ h => Or.inl h, fun _ h => Or.inl h, fun _ h => h⟩

/-- Two directories are never registered with one descriptor. -/
theorem Sound.unique (hs : Sound tree w) (hw : Registry w) {p q : HostPath}
    (hp : w.mPathToWdMap p = some wd) (hq : w.mPathToWdMap q = some wd)
    (hpdir : tree.isDir p = true) (hqdir : tree.isDir q = true) : p = q := by
  obtain ⟨i, hi⟩ := Tree.isDir_iff.mp hpdir
  obtain ⟨j, hj⟩ := Tree.isDir_iff.mp hqdir
  have hi := Tree.dir?_eq_some.mpr hi
  have hj := Tree.dir?_eq_some.mpr hj
  have hij := hw.oneToOne.inode_unique wd i j (hs p wd i hp hi) (hs q wd j hq hj)
  exact Tree.dir?_unique hi (hij ▸ hj)

/-- The answer of the kernel to a new watch. -/
theorem inotify_add_watch_cases {fresh : Int} {path : HostPath} {mask : Int32} {k k' : Kernel}
    (h : (inotify tree fresh).inotify_add_watch k path mask = (k', wd)) :
    k' = k ∧ wd = -1 ∧ tree.node path = none ∨
    ∃ node, tree.node path = some node ∧
      (k' = k ∧ (wd, node.inode) ∈ k.watches ∨
        wd = fresh ∧ k.wdOf node.inode = none ∧
          k' = { k with watches := (fresh, node.inode) :: k.watches }) := by
  dsimp only [inotify] at h
  cases hnode : tree.node path with
  | none =>
    rw [hnode] at h
    obtain ⟨rfl, rfl⟩ := Prod.mk.inj h
    exact Or.inl ⟨rfl, rfl, rfl⟩
  | some node =>
    rw [hnode] at h
    refine Or.inr ⟨node, rfl, ?_⟩
    cases hwd : k.wdOf node.inode with
    | some wd' =>
      dsimp only at h
      rw [hwd] at h
      obtain ⟨rfl, rfl⟩ := Prod.mk.inj h
      exact Or.inl ⟨rfl, Kernel.mem_of_wdOf hwd⟩
    | none =>
      dsimp only at h
      rw [hwd] at h
      obtain ⟨rfl, rfl⟩ := Prod.mk.inj h
      exact Or.inr ⟨rfl, rfl, rfl⟩

/-- A kernel with a watch added under a descriptor it does not use. -/
theorem Kernel.OneToOne.add {k : Kernel} (hk : k.OneToOne) {fresh : Int} {inode : Nat}
    (hfresh : ∀ i, (fresh, i) ∉ k.watches) (hnew : k.wdOf inode = none) :
    Kernel.OneToOne { k with watches := (fresh, inode) :: k.watches } where
  inode_unique wd i j hi hj := by
    rcases List.mem_cons.mp hi with heq | hold <;> rcases List.mem_cons.mp hj with heq' | hold'
    · exact (Prod.mk.inj heq).2.trans (Prod.mk.inj heq').2.symm
    · exact absurd ((Prod.mk.inj heq).1 ▸ hold') (hfresh j)
    · exact absurd ((Prod.mk.inj heq').1 ▸ hold) (hfresh i)
    · exact hk.inode_unique wd i j hold hold'
  wd_unique wd wd' i hi hj := by
    rcases List.mem_cons.mp hi with heq | hold <;> rcases List.mem_cons.mp hj with heq' | hold'
    · exact (Prod.mk.inj heq).1.trans (Prod.mk.inj heq').1.symm
    · exact absurd ((Prod.mk.inj heq).2 ▸ hold') (Kernel.not_mem_of_wdOf hnew)
    · exact absurd ((Prod.mk.inj heq').2 ▸ hold) (Kernel.not_mem_of_wdOf hnew)
    · exact hk.wd_unique wd wd' i hold hold'

/-- The watcher after a path is registered with the watch of what it names. -/
theorem Tended.register {path : HostPath} {kernel : Kernel} {node : Node} (hw : Registry w)
    (hs : Sound tree w) (hinverse : Inverse w') (hpath : w.mPathToWdMap path = none)
    (hnode : tree.node path = some node) (hwd : 0 ≤ wd) (hlive : (wd, node.inode) ∈ kernel.watches)
    (hmono : ∀ watch ∈ w.kernel.watches, watch ∈ kernel.watches)
    (hnew : ∀ watch ∈ kernel.watches, watch ∈ w.kernel.watches ∨ watch.2 = node.inode)
    (hnonneg : ∀ wd i, (wd, i) ∈ kernel.watches → 0 ≤ wd) (hone : kernel.OneToOne)
    (hqueue : kernel.queue = w.kernel.queue)
    (hw' : w' = { w with
      kernel
      mWdToPathMap := (wd, path) :: w.mWdToPathMap
      mPathToWdMap := Function.update w.mPathToWdMap path (some wd) }) : Tended tree w w' := by
  subst hw'
  have hold : ∀ p, p ≠ path → Function.update w.mPathToWdMap path (some wd) p = w.mPathToWdMap p :=
    fun p hp => Function.update_of_ne hp _ _
  refine ⟨⟨hw.initialized, hinverse, ?_, hnonneg, hone⟩, ?_, ?_, ?_, ?_, ?_⟩
  · intro p k hp
    by_cases heq : p = path
    · subst heq
      dsimp only at hp
      rw [Function.update_self] at hp
      exact Option.some.inj hp ▸ hwd
    · exact hw.nonneg p k ((hold p heq).symm.trans hp)
  · intro p k i hp hi
    by_cases heq : p = path
    · subst heq
      dsimp only at hp
      rw [Function.update_self] at hp
      obtain rfl := Option.some.inj hp
      have hsame := hnode.symm.trans (Tree.dir?_eq_some.mp hi)
      rwa [Option.some.inj hsame] at hlive
    · exact hmono _ (hs p k i ((hold p heq).symm.trans hp) hi)
  · intro p k _ hp
    have hne : p ≠ path := by
      intro heq
      subst heq
      rw [hpath] at hp
      cases hp
    exact (hold p hne).trans hp
  · intro p hp
    by_cases heq : p = path
    · exact Or.inr (heq ▸ hnode ▸ Option.some_ne_none node)
    · exact Or.inl (hold p heq ▸ hp)
  · intro watch hwatch
    rcases hnew watch hwatch with hold | heq
    · exact Or.inl hold
    · exact Or.inr (heq ▸ tree.inode_lt path node hnode)
  · intro e he
    dsimp only
    rwa [hqueue]

/-- `addWatch` registers what exists. -/
theorem Tended.addWatch {fresh ret : Int} {path : HostPath} {mask : Int32} (hw : Registry w)
    (hs : Sound tree w) (hpos : 0 ≤ fresh) (hfresh : ∀ i, (fresh, i) ∉ w.kernel.watches)
    (hcall : w.addWatch (inotify tree fresh) path mask = (w', ret)) :
    Tended tree w w' ∧ (tree.node path ≠ none → w'.mPathToWdMap path ≠ none) := by
  have hinverse := hw.inverse.addWatch hcall
  rcases Watcher.addWatch_cases hcall with
    ⟨_, _, hoff⟩ | ⟨rfl, _, wd, hwd⟩ | ⟨kernel, wd, hsys, _, hpath, hcase⟩
  · rw [hw.initialized] at hoff
    cases hoff
  · exact ⟨.refl hw hs, fun _ => hwd ▸ Option.some_ne_none wd⟩
  · rcases inotify_add_watch_cases hsys with
      ⟨rfl, rfl, hnode⟩ | ⟨node, hnode, ⟨rfl, hlive⟩ | ⟨rfl, hnew, rfl⟩⟩
    · rcases hcase with ⟨_, _, rfl⟩ | ⟨hneg, _, _⟩
      · exact ⟨.refl hw hs, fun h => absurd hnode h⟩
      · omega
    · have hwd := hw.live_nonneg wd node.inode hlive
      rcases hcase with ⟨hneg, _, _⟩ | ⟨_, _, hw'⟩
      · omega
      · refine ⟨.register hw hs hinverse hpath hnode hwd hlive (fun _ h => h) (fun _ h => Or.inl h)
          hw.live_nonneg hw.oneToOne rfl hw', fun _ => ?_⟩
        rw [hw']
        simp
    · rcases hcase with ⟨hneg, _, _⟩ | ⟨_, _, hw'⟩
      · omega
      · refine ⟨.register hw hs hinverse hpath hnode hpos List.mem_cons_self
          (fun _ h => List.mem_cons_of_mem _ h) ?_ ?_ (hw.oneToOne.add hfresh hnew) rfl hw',
          fun _ => ?_⟩
        · intro watch hwatch
          rcases List.mem_cons.mp hwatch with rfl | hwatch
          · exact Or.inr rfl
          · exact Or.inl hwatch
        · intro k i hk
          rcases List.mem_cons.mp hk with hk | hk
          · exact (Prod.mk.inj hk).1 ▸ hpos
          · exact hw.live_nonneg k i hk
        · rw [hw']
          simp

/-- A round of `removeWatch(wd)` unregisters no directory. -/
theorem Tended.removeRound {j j' : Nat} (hw : Registry w) (hs : Sound tree w)
    (hround : w.removeRound wd j (((w.mWdToPathMap.values wd)[j]?).any tree.isDir) = (w', j')) :
    Tended tree w w' := by
  have hinverse := hw.inverse.removeRound hround
  rcases Watcher.removeRound_cases hround with ⟨rfl, _⟩ | ⟨path, hpath, hdir, _, rfl⟩
  · exact .refl hw hs
  · have hdir : tree.isDir path = false := by simpa [hpath] using hdir
    have hold : ∀ p k, Function.update w.mPathToWdMap path none p = some k →
        w.mPathToWdMap p = some k := by
      intro p k hp
      by_cases heq : p = path
      · subst heq
        rw [Function.update_self] at hp
        cases hp
      · rwa [Function.update_of_ne heq] at hp
    refine ⟨⟨hw.initialized, hinverse, fun p k hp => hw.nonneg p k (hold p k hp), hw.live_nonneg,
      hw.oneToOne⟩, fun p k i hp hi => hs p k i (hold p k hp) hi, fun p k hp hk => ?_,
      fun p hp => ?_, fun _ h => Or.inl h, fun _ h => h⟩
    · have hne : p ≠ path := by
        intro heq
        subst heq
        rw [hdir] at hp
        cases hp
      exact (Function.update_of_ne hne _ _).trans hk
    · obtain ⟨k, hk⟩ := Option.ne_none_iff_exists'.mp hp
      exact Or.inl (hold p k hk ▸ Option.some_ne_none k)

/-- Giving back a descriptor without paths touches no registered directory. -/
theorem Tended.dropUnused {fresh ret : Int} (hw : Registry w) (hs : Sound tree w)
    (hdrop : w.dropUnused (inotify tree fresh) wd = (w', ret)) : Tended tree w w' := by
  have hinverse := hw.inverse.dropUnused hdrop
  rcases Watcher.dropUnused_cases hdrop with ⟨rfl, _⟩ | ⟨hunused, kernel, hsys, rfl⟩
  · exact .refl hw hs
  · dsimp only [inotify] at hsys
    split at hsys
    · obtain ⟨rfl, _⟩ := Prod.mk.inj hsys
      refine ⟨⟨hw.initialized, hinverse, hw.nonneg, fun k i hk => ?_, ?_⟩, ?_, fun _ _ _ h => h,
        fun _ h => Or.inl h, fun watch h => Or.inl (Kernel.mem_watches_drop.mp h).1,
        fun e he => Kernel.mem_queue_drop he⟩
      · exact hw.live_nonneg k i (Kernel.mem_watches_drop.mp hk).1
      · exact hw.oneToOne.mono fun watch h => (Kernel.mem_watches_drop.mp h).1
      · intro p k i hp hi
        refine Kernel.mem_watches_drop.mpr ⟨hs p k i hp hi, ?_⟩
        intro heq
        subst heq
        have hmem := Multimap.mem_values.mpr (hw.inverse.mem_iff.mpr hp)
        rw [hunused] at hmem
        cases hmem
    · obtain ⟨rfl, _⟩ := Prod.mk.inj hsys
      exact .refl hw hs

end Calls
end KmreManager.FileInotifyService
