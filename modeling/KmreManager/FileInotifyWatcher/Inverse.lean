import KmreManager.FileInotifyWatcher
import Mathlib.Data.List.TakeWhile

/-! # The two maps stay inverse, and no watch is leaked

A descriptor may stand for several paths, so the map from descriptors is a
multimap; a path has one descriptor. `Inverse` is kept by every round of every
loop, whatever the file system answers. Every watch the kernel holds has a path
in the multimap, since a descriptor that loses its last path is given back. -/
namespace KmreManager.FileInotifyWatcher
open KmreManager.Lib

variable {K π : Type} [DecidableEq π]

/-- An item occurs in the multimap, and then once, exactly if the other map
sends its path back to its descriptor. -/
def Inverse (w : Watcher K π) : Prop :=
  ∀ wd path, w.mWdToPathMap.count (wd, path) = if w.mPathToWdMap path = some wd then 1 else 0

namespace Inverse
variable {w : Watcher K π} {wd : Int} {path : π}

theorem mem_iff (h : Inverse w) : (wd, path) ∈ w.mWdToPathMap ↔ w.mPathToWdMap path = some wd := by
  rw [← List.count_pos_iff, h wd path]
  by_cases hp : w.mPathToWdMap path = some wd <;> simp [hp]

/-- One path is registered. -/
theorem single (hitems : w.mWdToPathMap = [(wd, path)])
    (hpaths : w.mPathToWdMap = Function.update (fun _ => none) path (some wd)) : Inverse w := by
  intro k p
  rw [hitems, hpaths, List.count_singleton]
  by_cases hp : p = path
  · subst hp
    simp
  · have hne : path ≠ p := fun heq => hp heq.symm
    simp [hp, hne]

/-- The watcher with one item taken out of both maps. -/
theorem erase {items : Multimap Int π} (h : Inverse w)
    (hperm : w.mWdToPathMap.Perm ((wd, path) :: items)) :
    Inverse { w with
      mWdToPathMap := items
      mPathToWdMap := Function.update w.mPathToWdMap path none } := by
  have hpath : w.mPathToWdMap path = some wd :=
    h.mem_iff.mp (hperm.mem_iff.mpr List.mem_cons_self)
  intro k p
  have hcount := h k p
  rw [hperm.count_eq, List.count_cons] at hcount
  by_cases hp : p = path
  · subst hp
    by_cases hk : k = wd
    · subst hk
      simpa [hpath] using hcount
    · have hne : ¬ wd = k := fun he => hk he.symm
      simpa [hpath, hne] using hcount
  · have hne : ¬ path = p := fun he => hp he.symm
    simpa [hp, hne] using hcount

theorem addWatch {sys : Inotify K π} {w' : Watcher K π} {mask : Int32} {ret : Int} (h : Inverse w)
    (hcall : w.addWatch sys path mask = (w', ret)) : Inverse w' := by
  rcases Watcher.addWatch_cases hcall with
    ⟨rfl, _⟩ | ⟨rfl, _⟩ | ⟨kernel, wd, _, _, hpath, ⟨_, _, rfl⟩ | ⟨_, _, rfl⟩⟩
  · exact h
  · exact h
  · exact h
  · intro k p
    have hcount := h k p
    dsimp only
    rw [List.count_cons, hcount]
    by_cases hp : p = path
    · subst hp
      simp [hpath]
    · have hne : ¬ path = p := fun he => hp he.symm
      simp [hp, hne]

theorem removeRound {w' : Watcher K π} {j j' : Nat} {isPathDir : Bool} (h : Inverse w)
    (hround : w.removeRound wd j isPathDir = (w', j')) : Inverse w' := by
  rcases Watcher.removeRound_cases hround with ⟨rfl, _⟩ | ⟨path, hpath, _, _, rfl⟩
  · exact h
  · exact h.erase (Multimap.perm_eraseNth hpath)

theorem dropUnused {sys : Inotify K π} {w' : Watcher K π} {ret : Int} (h : Inverse w)
    (hdrop : w.dropUnused sys wd = (w', ret)) : Inverse w' := by
  rcases Watcher.dropUnused_cases hdrop with ⟨rfl, _⟩ | ⟨_, kernel, _, rfl⟩
  · exact h
  · exact h

end Inverse

/-! ## `removeWatch(const QString &)` -/

section EraseSame
variable {c_str : π → QString} {path : π} {wd : Int}

omit [DecidableEq π] in
/-- The loop takes out the items of the descriptor with the C string of the
path. `hseen` says the items before the iterator have others. -/
theorem eraseSame_perm {count j : Nat} {items : Multimap Int π}
    (hcount : j + count = (items.values wd).length)
    (hseen : ∀ v ∈ (items.values wd).take j, c_str v ≠ c_str path) :
    (Watcher.eraseSame c_str path wd count j items).Perm
      (items.filter fun item => ¬ (item.1 = wd ∧ c_str item.2 = c_str path)) := by
  induction count generalizing j items with
  | zero =>
    have hkeep : items.filter (fun item => ¬ (item.1 = wd ∧ c_str item.2 = c_str path)) =
        items := by
      rw [List.filter_eq_self]
      intro item hitem
      rw [decide_eq_true_eq]
      rintro ⟨rfl, hsame⟩
      refine hseen item.2 ?_ hsame
      rw [List.take_of_length_le (by omega)]
      exact Multimap.mem_values.mpr hitem
    rw [hkeep]
    rfl
  | succ count ih =>
    have hlt : j < (items.values wd).length := by omega
    have hget : (items.values wd)[j]? = some ((items.values wd)[j]) := List.getElem?_eq_getElem hlt
    rw [Watcher.eraseSame, hget]
    dsimp only
    generalize hv : (items.values wd)[j] = v at hget
    split
    · rename_i hsame
      have hperm := Multimap.perm_eraseNth hget
      have hvalues := Multimap.values_eraseNth_self (m := items) (k := wd) (n := j)
      have hlen : j + count = ((items.eraseNth wd j).values wd).length := by
        rw [hvalues, List.length_eraseIdx_of_lt hlt]
        omega
      have hbefore : ∀ u ∈ ((items.eraseNth wd j).values wd).take j, c_str u ≠ c_str path := by
        rw [hvalues, List.take_eraseIdx_eq_take_of_le _ _ _ (Nat.le_refl j)]
        exact hseen
      refine (ih hlen hbefore).trans ?_
      have hfilter := hperm.filter fun item => ¬ (item.1 = wd ∧ c_str item.2 = c_str path)
      rw [List.filter_cons_of_neg (by simpa using hsame)] at hfilter
      exact hfilter.symm
    · rename_i hother
      refine ih (by omega) ?_
      intro u hu
      rw [List.take_add_one, hget] at hu
      rcases List.mem_append.mp hu with hu | hu
      · exact hseen u hu
      · obtain rfl : u = v := by simpa using hu
        exact hother

/-- The maps after the loop, if `strcmp` tells paths apart. -/
theorem Inverse.eraseSame {w : Watcher K π} (hstr : Function.Injective c_str) (h : Inverse w)
    (hpath : w.mPathToWdMap path = some wd) :
    Inverse { w with
      mWdToPathMap := Watcher.eraseSame c_str path wd (w.mWdToPathMap.values wd).length 0
        w.mWdToPathMap
      mPathToWdMap := Function.update w.mPathToWdMap path none } := by
  have hperm : (Watcher.eraseSame c_str path wd (w.mWdToPathMap.values wd).length 0
      w.mWdToPathMap).Perm _ := eraseSame_perm (Nat.zero_add _) (by simp)
  intro k p
  dsimp only
  rw [hperm.count_eq]
  by_cases hsame : k = wd ∧ c_str p = c_str path
  · obtain ⟨rfl, hp⟩ := hsame
    obtain rfl := hstr hp
    rw [List.count_eq_zero_of_not_mem (by simp)]
    simp
  · rw [List.count_filter (by exact decide_eq_true hsame), h k p]
    by_cases hp : p = path
    · subst hp
      have hk : ¬ wd = k := fun he => hsame ⟨he.symm, rfl⟩
      simp [hpath, hk]
    · simp [hp]

end EraseSame

/-! ## Runs -/

/-- A path as system calls see it: what `realpath` returns holds no NUL. -/
structure PathString where
  text : QString
  noNul : '\x00' ∉ text
  deriving DecidableEq

/-- `path.toStdString().c_str()`, up to the terminating NUL. -/
def PathString.c_str (path : PathString) : QString := path.text.takeWhile (· ≠ '\x00')

theorem PathString.c_str_injective : Function.Injective PathString.c_str := by
  have hwhole : ∀ path : PathString, path.c_str = path.text := by
    intro path
    rw [PathString.c_str, List.takeWhile_eq_self_iff]
    intro c hc
    have hne : c ≠ '\x00' := fun he => path.noNul (he ▸ hc)
    simpa using hne
  intro a b hab
  rw [hwhole, hwhole] at hab
  obtain ⟨text, _⟩ := a
  cases hab
  rfl

/-- A kernel that holds a watch for each descriptor of the list and gives this
answer to the next call: negative for a failure, the descriptor otherwise,
whether new or of a watch that is there already. -/
def answering (answer : Int) : Inotify (List Int) PathString where
  inotify_init1 live := (if answer < 0 then live else [], answer)
  inotify_add_watch live _ _ :=
    if answer < 0 then (live, answer) else (if answer ∈ live then live else answer :: live, answer)
  inotify_rm_watch live wd := if wd ∈ live then (live.filter (· ≠ wd), 0) else (live, -1)
  close _ := []

/-- A call of the watcher's, or the kernel dropping a watch. -/
inductive Action
  | initializeWatcher (fd : Int)
  | addWatch (path : PathString) (mask : Int32) (answer : Int)
  | removeWatchPath (path : PathString)
  | removeWatchWd (wd : Int) (isPathDir : Nat → Bool)
  | cleanup
  | drop (wd : Int)

def act (w : Watcher (List Int) PathString) : Action → Watcher (List Int) PathString
  | .initializeWatcher fd => (w.initializeWatcher (answering fd)).1
  | .addWatch path mask answer => (w.addWatch (answering answer) path mask).1
  | .removeWatchPath path => (w.removeWatchPath PathString.c_str (answering 0) path).1
  | .removeWatchWd wd isPathDir => (w.removeWatchWd (answering 0) wd isPathDir).1
  | .cleanup => w.cleanup (answering 0)
  | .drop wd => { w with kernel := w.kernel.filter (· ≠ wd) }

/-- What holds of the watcher between two calls. -/
structure Consistent (w : Watcher (List Int) PathString) : Prop where
  inverse : Inverse w
  nonneg : ∀ path wd, w.mPathToWdMap path = some wd → 0 ≤ wd
  noLeak : ∀ wd ∈ w.kernel, ∃ path, (wd, path) ∈ w.mWdToPathMap

/-- What holds inside a removal: the descriptor at hand may have lost its last
path while the kernel still holds its watch. -/
structure Removing (wd : Int) (w : Watcher (List Int) PathString) : Prop where
  inverse : Inverse w
  nonneg : ∀ path k, w.mPathToWdMap path = some k → 0 ≤ k
  noLeak : ∀ k ∈ w.kernel, k ≠ wd → ∃ path, (k, path) ∈ w.mWdToPathMap

section Calls
variable {w w' : Watcher (List Int) PathString} {path : PathString} {mask : Int32}
  {wd ret answer : Int}

theorem Consistent.removing (h : Consistent w) (wd : Int) : Removing wd w :=
  ⟨h.inverse, h.nonneg, fun k hk _ => h.noLeak k hk⟩

theorem Consistent.addWatch (h : Consistent w)
    (hcall : w.addWatch (answering answer) path mask = (w', ret)) : Consistent w' := by
  have hinverse := h.inverse.addWatch hcall
  rcases Watcher.addWatch_cases hcall with
    ⟨rfl, _⟩ | ⟨rfl, _⟩ | ⟨live, wd, hsys, _, hpath, ⟨hneg, _, rfl⟩ | ⟨hpos, _, rfl⟩⟩
  · exact h
  · exact h
  · -- a failed call leaves the kernel's table as it was
    refine ⟨hinverse, h.nonneg, ?_⟩
    simp only [answering] at hsys
    split at hsys
    · obtain ⟨rfl, rfl⟩ := Prod.mk.inj hsys
      exact h.noLeak
    · rename_i hanswer
      obtain ⟨_, rfl⟩ := Prod.mk.inj hsys
      exact absurd hneg hanswer
  · refine ⟨hinverse, ?_, ?_⟩
    · intro p k hp
      dsimp only at hp
      by_cases hpath' : p = path
      · subst hpath'
        rw [Function.update_self, Option.some.injEq] at hp
        omega
      · rw [Function.update_of_ne hpath'] at hp
        exact h.nonneg p k hp
    · intro k hk
      dsimp only at hk ⊢
      have hold : k = wd ∨ k ∈ w.kernel := by
        simp only [answering] at hsys
        split at hsys
        · obtain ⟨rfl, _⟩ := Prod.mk.inj hsys
          exact Or.inr hk
        · obtain ⟨rfl, rfl⟩ := Prod.mk.inj hsys
          split at hk
          · exact Or.inr hk
          · exact List.mem_cons.mp hk
      rcases hold with rfl | hk
      · exact ⟨path, List.mem_cons_self⟩
      · obtain ⟨p, hp⟩ := h.noLeak k hk
        exact ⟨p, List.mem_cons_of_mem _ hp⟩

/-- A round touches items of its own descriptor only. -/
theorem Removing.removeRound {j j' : Nat} {isPathDir : Bool} (h : Removing wd w)
    (hround : w.removeRound wd j isPathDir = (w', j')) : Removing wd w' := by
  have hinverse := h.inverse.removeRound hround
  rcases Watcher.removeRound_cases hround with ⟨rfl, _⟩ | ⟨path, hpath, _, _, rfl⟩
  · exact h
  · refine ⟨hinverse, ?_, ?_⟩
    · intro p k hp
      dsimp only at hp
      by_cases hpath' : p = path
      · subst hpath'
        rw [Function.update_self] at hp
        cases hp
      · rw [Function.update_of_ne hpath'] at hp
        exact h.nonneg p k hp
    · intro k hk hne
      obtain ⟨p, hp⟩ := h.noLeak k hk hne
      rw [(Multimap.perm_eraseNth hpath).mem_iff] at hp
      rcases List.mem_cons.mp hp with heq | hp
      · exact absurd (congrArg Prod.fst heq) hne
      · exact ⟨p, hp⟩

theorem Removing.removeLoop (h : Removing wd w) (count j : Nat) (isPathDir : Nat → Bool) :
    Removing wd (Watcher.removeLoop wd count j isPathDir w) := by
  induction count generalizing w j isPathDir with
  | zero => exact h
  | succ count ih => exact ih (h.removeRound rfl) _ _

/-- Giving an unused descriptor back repairs what its removal broke. -/
theorem Removing.dropUnused (h : Removing wd w)
    (hdrop : w.dropUnused (answering 0) wd = (w', ret)) : Consistent w' := by
  have hinverse := h.inverse.dropUnused hdrop
  rcases Watcher.dropUnused_cases hdrop with ⟨rfl, hused⟩ | ⟨_, live, hsys, rfl⟩
  · refine ⟨hinverse, h.nonneg, ?_⟩
    intro k hk
    by_cases hkw : k = wd
    · obtain ⟨path, hpath⟩ := List.exists_mem_of_ne_nil _ hused
      exact ⟨path, hkw ▸ Multimap.mem_values.mp hpath⟩
    · exact h.noLeak k hk hkw
  · refine ⟨hinverse, h.nonneg, ?_⟩
    intro k hk
    have hmem : k ∈ w.kernel ∧ k ≠ wd := by
      simp only [answering] at hsys
      split at hsys
      · obtain ⟨rfl, _⟩ := Prod.mk.inj hsys
        simpa using hk
      · rename_i habsent
        obtain ⟨rfl, _⟩ := Prod.mk.inj hsys
        exact ⟨hk, fun he => habsent (he ▸ hk)⟩
    exact h.noLeak k hmem.1 hmem.2

theorem Consistent.removeWatchWd (h : Consistent w) (wd : Int) (isPathDir : Nat → Bool) :
    Consistent (w.removeWatchWd (answering 0) wd isPathDir).1 := by
  unfold Watcher.removeWatchWd
  split
  · exact h
  · split
    · exact h
    · exact ((h.removing wd).removeLoop _ _ _).dropUnused rfl

theorem Consistent.removeWatchPath (h : Consistent w) (path : PathString) :
    Consistent (w.removeWatchPath PathString.c_str (answering 0) path).1 := by
  unfold Watcher.removeWatchPath
  split
  · exact h
  · split
    · exact h
    · rename_i wd hpath
      have hpos := h.nonneg path wd hpath
      dsimp only
      rw [if_neg (by omega)]
      have hremoving : Removing wd { w with
          mWdToPathMap := Watcher.eraseSame PathString.c_str path wd
            (w.mWdToPathMap.values wd).length 0 w.mWdToPathMap
          mPathToWdMap := Function.update w.mPathToWdMap path none } := by
        refine ⟨h.inverse.eraseSame PathString.c_str_injective hpath, ?_, ?_⟩
        · intro p k hp
          dsimp only at hp
          by_cases hpath' : p = path
          · subst hpath'
            rw [Function.update_self] at hp
            cases hp
          · rw [Function.update_of_ne hpath'] at hp
            exact h.nonneg p k hp
        · intro k hk hne
          obtain ⟨p, hp⟩ := h.noLeak k hk
          refine ⟨p, ?_⟩
          have hperm : (Watcher.eraseSame PathString.c_str path wd
              (w.mWdToPathMap.values wd).length 0 w.mWdToPathMap).Perm _ :=
            eraseSame_perm (Nat.zero_add _) (by simp)
          dsimp only
          rw [hperm.mem_iff, List.mem_filter]
          exact ⟨hp, decide_eq_true fun hsame => hne hsame.1⟩
      exact hremoving.dropUnused rfl

theorem Consistent.cleanup (h : Consistent w) : Consistent (w.cleanup (answering 0)) := by
  unfold Watcher.cleanup
  split
  · exact h
  · refine ⟨fun wd path => ?_, fun path wd hp => ?_, fun wd hwd => ?_⟩
    · simp
    · cases hp
    · cases hwd

theorem Consistent.initializeWatcher (h : Consistent w) (fd : Int) :
    Consistent (w.initializeWatcher (answering fd)).1 := by
  unfold Watcher.initializeWatcher
  split
  · exact h
  · dsimp only [answering]
    split
    · exact ⟨h.inverse, h.nonneg, h.noLeak⟩
    · exact ⟨h.inverse, h.nonneg, fun wd hwd => by cases hwd⟩

theorem Consistent.act (h : Consistent w) (a : Action) : Consistent (act w a) := by
  cases a with
  | initializeWatcher fd => exact h.initializeWatcher fd
  | addWatch path mask answer =>
    have hcall : w.addWatch (answering answer) path mask = (_, _) := rfl
    exact h.addWatch hcall
  | removeWatchPath path => exact h.removeWatchPath path
  | removeWatchWd wd isPathDir => exact h.removeWatchWd wd isPathDir
  | cleanup => exact h.cleanup
  | drop wd =>
    refine ⟨h.inverse, h.nonneg, ?_⟩
    intro k hk
    exact h.noLeak k (List.mem_filter.mp hk).1

end Calls

/-- **The maps are inverse and nothing leaks, in every run.** Whatever calls
are made after the initialization, with whatever answers of the kernel and of
the file system, an item occurs in the multimap, and then once, exactly if the
other map sends its path to its descriptor, and every descriptor whose watch
the kernel holds is a key. -/
theorem maps_stay_inverse (fd : Int) (calls : List Action) :
    let w := calls.foldl act (act (Watcher.constructed []) (.initializeWatcher fd))
    (∀ wd path, w.mWdToPathMap.count (wd, path) =
      if w.mPathToWdMap path = some wd then 1 else 0) ∧
    ∀ wd ∈ w.kernel, ∃ path, (wd, path) ∈ w.mWdToPathMap := by
  have hstart : Consistent (Watcher.constructed []) := by
    refine ⟨fun wd path => ?_, fun path wd hp => ?_, fun wd hwd => ?_⟩
    · simp [Watcher.constructed]
    · cases hp
    · cases hwd
  have hrun : ∀ w, Consistent w → Consistent (calls.foldl act w) := by
    induction calls with
    | nil => exact fun w h => h
    | cons a calls ih => exact fun w h => ih _ (h.act a)
  have h := hrun _ (hstart.act (.initializeWatcher fd))
  exact ⟨h.inverse, h.noLeak⟩

end KmreManager.FileInotifyWatcher
