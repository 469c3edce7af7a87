import KmreManager.FileInotifyService.Notify
import Mathlib.Data.List.Forall2

/-! # When a file counts as unchanged

`loopList` offers a file for notification when `st_size` is the size it
remembered in the pass before. The size is 64 bits wide and what is remembered
of it 32. Beside the list thread, `Watched` keeps for each entry the sizes that
`stat` has returned for it. -/
namespace KmreManager.FileInotifyService.LoopList

open KmreManager.Lib.Runs

/-- A turn of the inner loop in which `stat` succeeds: the sizes found for the
entry in the passes before, the latest first, the size found now, and whether
`notifyFile` is called. -/
structure Visit where
  seen : List Int
  size : Int
  notifies : Bool
  deriving DecidableEq

/-- The entry is offered exactly if its size is that of the pass before. -/
def Visit.Debounced (v : Visit) : Prop :=
  v.notifies = true ↔ v.seen.head? = some v.size

instance (v : Visit) : Decidable v.Debounced := inferInstanceAs (Decidable (_ ↔ _))

/-- The list thread, the sizes seen for each entry, and the visits so far. -/
structure Watched where
  loop : State := {}
  seen : List (List Int) := []
  visits : List Visit := []
  deriving DecidableEq

namespace Watched

/-- One turn of the inner loop. The entry is kept if the list has grown, and
`notifyFile` is called if its calls have. -/
def visit (env : Env) (w : Watched) (info : NotifyFileInfo) (seen : List Int)
    (answer : Answer) : Watched :=
  let loop := w.loop.visit env info answer
  match answer.stat with
  | none => { w with loop }
  | some size =>
    let kept := w.loop.mFileList.length < loop.mFileList.length
    { loop
      seen := if kept then w.seen ++ [size :: seen] else w.seen
      visits := w.visits ++ [⟨seen, size, w.loop.notified.length < loop.notified.length⟩] }

def visitAll (env : Env) : Watched → List (NotifyFileInfo × List Int × Answer) → Watched
  | w, [] => w
  | w, (info, seen, answer) :: rest => (w.visit env info seen answer).visitAll env rest

/-- The entries with the sizes seen and what the pass finds out. -/
def entries (w : Watched) (answers : List Answer) : List (NotifyFileInfo × List Int × Answer) :=
  w.loop.mFileList.zip (w.seen.zip answers)

def pass (env : Env) (w : Watched) (answers : List Answer) : Watched :=
  { w with loop := { w.loop with mFileList := [] }, seen := [] }.visitAll env (w.entries answers)

/-- `stat` returns no negative size. -/
def SizesValid (answers : List Answer) : Prop := ∀ answer ∈ answers, ∀ size ∈ answer.stat, 0 ≤ size

instance (answers : List Answer) : Decidable (SizesValid answers) :=
  inferInstanceAs (Decidable (∀ answer ∈ answers, ∀ size ∈ answer.stat, 0 ≤ size))

def step (env : Env) (w : Watched) : Action → Option Watched
  | .addNotifyFile path =>
    some { w with
      loop := if env.notifies path then w.loop.keep ⟨path, -1⟩ else w.loop
      seen := if env.notifies path then w.seen ++ [[]] else w.seen }
  | .nameOwnerChanged owned => some { w with loop := { w.loop with nameOwned := owned } }
  | .pass answers =>
    if answers.length = w.loop.mFileList.length ∧ SizesValid answers then
      some (w.pass env answers)
    else none

end Watched

/-! ## The size that is remembered -/

/-- Two sizes found one after the other are told apart rightly: the first one
fits an int, or the second one is neither it nor what is remembered of it. -/
def Distinguished (prev size : Int) : Prop :=
  prev < 2 ^ 31 ∨ (size ≠ prev ∧ size ≠ int32 prev)

instance (prev size : Int) : Decidable (Distinguished prev size) :=
  inferInstanceAs (Decidable (_ ∨ _))

theorem int32_lt (size : Int) : int32 size < 2 ^ 31 :=
  Int.bmod_lt (m := 2 ^ 32) (by decide)

theorem int32_of_lt {size : Int} (h0 : 0 ≤ size) (h : size < 2 ^ 31) : int32 size = size :=
  Int.bmod_eq_of_le (by omega) (by omega)

theorem int32_int32 (size : Int) : int32 (int32 size) = int32 size := Int.bmod_bmod

/-- Comparing with the remembered size is as good as comparing with the size. -/
theorem distinguished_iff {prev : Int} (hprev : 0 ≤ prev) (size : Int) :
    Distinguished prev size ↔ (size = int32 prev ↔ size = prev) := by
  unfold Distinguished
  by_cases hfits : prev < 2 ^ 31
  · exact iff_of_true (.inl hfits) (by rw [int32_of_lt hprev hfits])
  · have hlt := int32_lt prev
    have hne : int32 prev ≠ prev := fun heq => hfits (heq ▸ hlt)
    constructor
    · intro h
      obtain hlt' | ⟨hsize, hmem⟩ := h
      · exact absurd hlt' hfits
      · exact iff_of_false hmem hsize
    · intro h
      refine .inr ⟨fun heq => hne ?_, fun heq => hne ?_⟩
      · exact (h.mpr heq).symm.trans heq
      · exact heq.symm.trans (h.mp heq)

/-- What an entry remembers of the sizes seen: the last one, as an int. -/
structure Remembers (info : NotifyFileInfo) (seen : List Int) : Prop where
  size : info.size = seen.head?.elim (-1) int32
  nonneg : ∀ size ∈ seen, 0 ≤ size

section Visit

variable {env : Env} {s : State} {w w' : Watched} {info : NotifyFileInfo} {seen : List Int}
  {answer : Answer} {size : Int}

theorem Remembers.int32_size (h : Remembers info seen) : int32 info.size = info.size := by
  rw [h.size]
  cases seen with
  | nil => decide
  | cons prev rest => exact int32_int32 prev

/-- The visit treats the entry rightly exactly if the two last sizes are told
apart. -/
theorem debounced_iff (h : Remembers info seen) (hsize : 0 ≤ size) :
    Visit.Debounced ⟨seen, size, size = info.size⟩ ↔
      ∀ prev ∈ seen.head?, Distinguished prev size := by
  have hinfo := h.size
  unfold Visit.Debounced
  cases seen with
  | nil =>
    have hne : size ≠ info.size := fun heq => by simp [hinfo] at heq; omega
    simp [hne]
  | cons prev rest =>
    have hprev : 0 ≤ prev := h.nonneg prev List.mem_cons_self
    have hdist := distinguished_iff hprev size
    simp only [List.head?_cons, Option.mem_def, Option.some.injEq, forall_eq', decide_eq_true_eq]
    rw [hdist, hinfo]
    exact iff_congr Iff.rfl eq_comm

/-- **A turn of the inner loop.** The entry leaves the list, or is kept with the
size found now. -/
theorem visit_mFileList (env : Env) (s : State) (answer : Answer) (h : Remembers info seen) :
    (s.visit env info answer).mFileList = s.mFileList ∨
      ∃ size info', answer.stat = some size ∧ info'.size = int32 size ∧
        (s.visit env info answer).mFileList = s.mFileList ++ [info'] := by
  unfold State.visit
  cases hstat : answer.stat with
  | none => exact .inl rfl
  | some size =>
    by_cases hsize : size = info.size
    · simp only [hsize, ne_eq, not_true, if_false, notifyFile_eq]
      split
      · exact .inl rfl
      · exact .inr ⟨info.size, info, rfl, h.int32_size.symm, rfl⟩
    · simp only [hsize, ne_eq, not_false_eq_true, if_true]
      exact .inr ⟨size, _, rfl, rfl, rfl⟩

/-- The sizes of every entry are remembered, and every visit was right. -/
structure Tracked (w : Watched) : Prop where
  sizes : List.Forall₂ Remembers w.loop.mFileList w.seen
  debounced : ∀ v ∈ w.visits, v.Debounced

theorem Tracked.init : Tracked {} := ⟨.nil, by simp⟩

/-- The size found now can be told from the size before. -/
def Told (entry : NotifyFileInfo × List Int × Answer) : Prop :=
  ∀ size ∈ entry.2.2.stat, ∀ prev ∈ entry.2.1.head?, Distinguished prev size

instance (entry : NotifyFileInfo × List Int × Answer) : Decidable (Told entry) :=
  inferInstanceAs (Decidable (∀ size ∈ entry.2.2.stat, ∀ prev ∈ entry.2.1.head?, _))

theorem visit_visits (hstat : answer.stat = some size) :
    (w.visit env info seen answer).visits = w.visits ++ [⟨seen, size, size = info.size⟩] := by
  have hcalled : w.loop.notified.length < (w.loop.visit env info answer).notified.length ↔
      size = info.size := by
    rw [visit_notified, hstat]
    split
    · rename_i hsize
      exact iff_of_true (by simp) (Option.some.inj hsize)
    · rename_i hsize
      exact iff_of_false (by simp) fun heq => hsize (congrArg some heq)
  simp only [Watched.visit, hstat, hcalled]

theorem visits_prefix : w.visits <+: (w.visit env info seen answer).visits := by
  cases hstat : answer.stat with
  | none =>
    simp only [Watched.visit, hstat]
    exact List.prefix_rfl
  | some size =>
    rw [visit_visits hstat]
    exact List.prefix_append _ _

/-- One entry. -/
theorem Tracked.visit (env : Env) (hw : Tracked w) (h : Remembers info seen)
    (hvalid : ∀ size ∈ answer.stat, 0 ≤ size) :
    (Told (info, seen, answer) ∧ Tracked (w.visit env info seen answer)) ∨
      (¬ Told (info, seen, answer) ∧
        ∃ v ∈ (w.visit env info seen answer).visits, ¬ v.Debounced) := by
  cases hstat : answer.stat with
  | none =>
    have hlist : (w.loop.visit env info answer).mFileList = w.loop.mFileList := by
      simp only [State.visit, hstat, State.remove]
    refine .inl ⟨by simp [Told, hstat], ?_⟩
    simp only [Watched.visit, hstat]
    exact ⟨hlist ▸ hw.sizes, hw.debounced⟩
  | some size =>
    have hsize : 0 ≤ size := hvalid size hstat
    have htold : Told (info, seen, answer) ↔ Visit.Debounced ⟨seen, size, size = info.size⟩ := by
      rw [debounced_iff h hsize]
      simp [Told, hstat]
    by_cases hv : Visit.Debounced ⟨seen, size, size = info.size⟩
    · refine .inl ⟨htold.mpr hv, ?_, fun v hmem => ?_⟩
      · simp only [Watched.visit, hstat]
        obtain hlist | ⟨size', info', hstat', hinfo', hlist⟩ :=
          visit_mFileList env w.loop answer h
        · rw [hlist, if_neg (Nat.lt_irrefl _)]
          exact hw.sizes
        · obtain rfl := Option.some.inj (hstat.symm.trans hstat')
          rw [hlist, if_pos (by simp)]
          refine List.rel_append hw.sizes (.cons ⟨hinfo', ?_⟩ .nil)
          exact List.forall_mem_cons.mpr ⟨hsize, h.nonneg⟩
      · rw [visit_visits hstat] at hmem
        obtain hmem | hmem := List.mem_append.mp hmem
        · exact hw.debounced v hmem
        · exact List.mem_singleton.mp hmem ▸ hv
    · refine .inr ⟨mt htold.mp hv, _, ?_, hv⟩
      rw [visit_visits hstat]
      exact List.mem_append_right _ List.mem_cons_self

end Visit

section Pass

variable {env : Env} {w w' : Watched} {a : Action} {actions : List Action}

theorem visitAll_visits {entries : List (NotifyFileInfo × List Int × Answer)} :
    w.visits <+: (w.visitAll env entries).visits := by
  induction entries generalizing w with
  | nil => exact List.prefix_rfl
  | cons entry rest ih =>
    obtain ⟨info, seen, answer⟩ := entry
    exact visits_prefix.trans ih

/-- The inner loop. -/
theorem Tracked.visitAll {entries : List (NotifyFileInfo × List Int × Answer)} (env : Env)
    (hw : Tracked w)
    (hentries : ∀ e ∈ entries, Remembers e.1 e.2.1 ∧ ∀ size ∈ e.2.2.stat, 0 ≤ size) :
    ((∀ e ∈ entries, Told e) ∧ Tracked (w.visitAll env entries)) ∨
      ((¬ ∀ e ∈ entries, Told e) ∧ ∃ v ∈ (w.visitAll env entries).visits, ¬ v.Debounced) := by
  induction entries generalizing w with
  | nil => exact .inl ⟨by simp, hw⟩
  | cons entry rest ih =>
    obtain ⟨info, seen, answer⟩ := entry
    obtain ⟨⟨hremembers, hvalid⟩, hrest⟩ := List.forall_mem_cons.mp hentries
    obtain ⟨htold, hvisit⟩ | ⟨htold, v, hmem, hv⟩ := hw.visit env hremembers hvalid
    · obtain ⟨hall, hdone⟩ | ⟨hall, hwrong⟩ := ih hvisit hrest
      · exact .inl ⟨List.forall_mem_cons.mpr ⟨htold, hall⟩, hdone⟩
      · exact .inr ⟨fun hcontra => hall (List.forall_mem_cons.mp hcontra).2, hwrong⟩
    · refine .inr ⟨fun hcontra => htold (List.forall_mem_cons.mp hcontra).1, v, ?_, hv⟩
      exact (visitAll_visits (w := w.visit env info seen answer)).subset hmem

theorem mem_entries {l : List NotifyFileInfo} {seen : List (List Int)} {answers : List Answer}
    (h : List.Forall₂ Remembers l seen) :
    ∀ e ∈ l.zip (seen.zip answers), Remembers e.1 e.2.1 ∧ e.2.2 ∈ answers := by
  induction h generalizing answers with
  | nil => simp
  | cons hfirst _ ih =>
    cases answers with
    | nil => simp
    | cons answer answers =>
      refine List.forall_mem_cons.mpr ⟨⟨hfirst, List.mem_cons_self⟩, fun e he => ?_⟩
      exact (ih e he).imp id (List.mem_cons_of_mem _)

/-- Every size that the pass finds can be told from the size before. -/
def TellsSizes (w : Watched) : Action → Prop
  | .pass answers => ∀ e ∈ w.entries answers, Told e
  | _ => True

instance (w : Watched) : ∀ a, Decidable (TellsSizes w a)
  | .pass answers => inferInstanceAs (Decidable (∀ e ∈ w.entries answers, Told e))
  | .addNotifyFile _ | .nameOwnerChanged _ => .isTrue trivial

/-- The step lemma. -/
theorem Tracked.step (hw : Tracked w) (h : Watched.step env w a = some w') :
    (TellsSizes w a ∧ Tracked w') ∨ (¬ TellsSizes w a ∧ ¬ ∀ v ∈ w'.visits, v.Debounced) := by
  cases a with
  | addNotifyFile path =>
    obtain rfl := Option.some.inj h
    refine .inl ⟨trivial, ?_, hw.debounced⟩
    dsimp only
    split
    · exact List.rel_append hw.sizes (.cons ⟨rfl, by simp⟩ .nil)
    · exact hw.sizes
  | nameOwnerChanged owned =>
    obtain rfl := Option.some.inj h
    exact .inl ⟨trivial, hw.sizes, hw.debounced⟩
  | pass answers =>
    obtain ⟨⟨-, hvalid⟩, heq⟩ := Option.ite_none_right_eq_some.mp h
    obtain rfl := Option.some.inj heq
    have hstart : Tracked { w with loop := { w.loop with mFileList := [] }, seen := [] } :=
      ⟨.nil, hw.debounced⟩
    have hentries : ∀ e ∈ w.entries answers,
        Remembers e.1 e.2.1 ∧ ∀ size ∈ e.2.2.stat, 0 ≤ size := fun e he =>
      (mem_entries hw.sizes e he).imp id (hvalid e.2.2)
    obtain hright | ⟨hall, v, hmem, hv⟩ := hstart.visitAll env hentries
    · exact .inl hright
    · exact .inr ⟨hall, fun hcontra => hv (hcontra v hmem)⟩

/-- **The debounce.** In a run every entry is offered for notification exactly
in the passes that find the size of the pass before, if and only if in every
pass each size found can be told from the one before. -/
theorem notify_debounce (hrun : run (Watched.step env) {} actions = some w) :
    Guarded (Watched.step env) TellsSizes {} actions ↔
      ∀ before t, before <+: actions → run (Watched.step env) {} before = some t →
        ∀ v ∈ t.visits, v.Debounced :=
  Guarded.iff_of_step (I := Tracked) (P := fun t : Watched => ∀ v ∈ t.visits, v.Debounced)
    (fun _ hw => hw.debounced) (fun _ _ _ hw h => hw.step h) .init hrun

end Pass

section Projection

variable {env : Env} {w w' : Watched} {a : Action}

theorem visitAll_loop (w : Watched) (entries : List (NotifyFileInfo × List Int × Answer)) :
    (w.visitAll env entries).loop =
      w.loop.visitAll env (entries.map fun e => (e.1, e.2.2)) := by
  induction entries generalizing w with
  | nil => rfl
  | cons entry rest ih =>
    obtain ⟨info, seen, answer⟩ := entry
    have hvisit : (w.visit env info seen answer).loop = w.loop.visit env info answer := by
      unfold Watched.visit
      split <;> rfl
    rw [Watched.visitAll, ih, hvisit]
    rfl

theorem entries_answers {l : List NotifyFileInfo} {seen : List (List Int)} {answers : List Answer}
    (h : List.Forall₂ Remembers l seen) :
    (l.zip (seen.zip answers)).map (fun e => (e.1, e.2.2)) = l.zip answers := by
  induction h generalizing answers with
  | nil => rfl
  | cons _ _ ih =>
    cases answers with
    | nil => rfl
    | cons answer answers => exact congrArg _ ih

/-- Watching the list thread does not disturb it: it takes the step that it takes
by itself, as long as `stat` returns no negative size. -/
theorem Tracked.step_loop (hw : Tracked w) (h : Watched.step env w a = some w') :
    LoopList.step env w.loop a = some w'.loop := by
  cases a with
  | addNotifyFile path =>
    obtain rfl := Option.some.inj h
    rfl
  | nameOwnerChanged owned =>
    obtain rfl := Option.some.inj h
    rfl
  | pass answers =>
    obtain ⟨⟨hlen, -⟩, heq⟩ := Option.ite_none_right_eq_some.mp h
    obtain rfl := Option.some.inj heq
    simp only [LoopList.step, hlen, if_true, Watched.pass, visitAll_loop, Watched.entries,
      entries_answers hw.sizes]
    rfl

theorem watched_step_exists (w : Watched)
    (hvalid : ∀ answers, a = .pass answers → Watched.SizesValid answers)
    (h : (LoopList.step env w.loop a).isSome) : ∃ w', Watched.step env w a = some w' := by
  cases a with
  | addNotifyFile path | nameOwnerChanged owned => exact ⟨_, rfl⟩
  | pass answers =>
    have hlen : answers.length = w.loop.mFileList.length := by
      by_contra hcontra
      simp [LoopList.step, hcontra] at h
    exact ⟨_, if_pos ⟨hlen, hvalid answers rfl⟩⟩

end Projection

/-- A picture of this size; the bus answers. -/
def pictureOf (size : Int) : Answer := ⟨some size, "image/png".toList, true⟩

/-- A picture that is still being written is offered once it has its size. -/
theorem notify_debounce_growing :
    ∃ w, run (Watched.step pictureEnv) {} [.addNotifyFile "/home/kylin/a.png".toList,
        .pass [pictureOf 3], .pass [pictureOf 5], .pass [pictureOf 5]] = some w ∧
      w.visits.map (·.notifies) = [false, false, true] ∧ ∀ v ∈ w.visits, v.Debounced := by
  have hdone : (run (Watched.step pictureEnv) {} [.addNotifyFile "/home/kylin/a.png".toList,
      .pass [pictureOf 3], .pass [pictureOf 5], .pass [pictureOf 5]]).map
      (fun w => w.visits.map (·.notifies)) = some [false, false, true] := by decide +kernel
  obtain ⟨w, hrun, hend⟩ := Option.map_eq_some_iff.mp hdone
  exact ⟨w, hrun, hend, (notify_debounce hrun).mp (by decide +kernel) _ w List.prefix_rfl hrun⟩

/-- A picture of 2 GiB is not offered, though two passes find it unchanged. -/
theorem large_file_misjudged : ¬ ∀ env actions w,
    run (Watched.step env) {} actions = some w → ∀ v ∈ w.visits, v.Debounced := by
  intro hall
  have hdone : (run (Watched.step pictureEnv) {} [.addNotifyFile "/home/kylin/a.png".toList,
      .pass [pictureOf (2 ^ 31)], .pass [pictureOf (2 ^ 31)]]).map (·.visits) =
      some [⟨[], 2 ^ 31, false⟩, ⟨[2 ^ 31], 2 ^ 31, false⟩] := by decide +kernel
  obtain ⟨w, hrun, hend⟩ := Option.map_eq_some_iff.mp hdone
  have hlast : ⟨[2 ^ 31], 2 ^ 31, false⟩ ∈ w.visits := by
    rw [hend]
    simp
  exact absurd (hall _ _ w hrun _ hlast) (by decide)

end KmreManager.FileInotifyService.LoopList
