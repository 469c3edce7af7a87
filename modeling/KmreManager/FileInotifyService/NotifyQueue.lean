import KmreManager.FileInotifyService.Notify
import KmreManager.Lib.MutableIterator

/-! # The notify queue

The watcher thread appends to `mFileList`, `loopList` goes through it with a
mutable iterator. Each holds `mListLock` while it does: an append is one step,
a pass is one step per entry, and appends wait until it is over. An entry is
known by its number in the order of appending. -/
namespace KmreManager.FileInotifyService.NotifyQueue

open KmreManager.Lib.Runs KmreManager.Lib.MutableIterator LoopList

structure Entry where
  serial : Nat
  info : NotifyFileInfo
deriving DecidableEq

structure State where
  mFileList : List Entry := []
  mServiceNameOwned : Bool := false
  /-- the iterator of `loopList`, while it holds the lock -/
  iterator : Option Cursor := none
  /-- the paths that were appended, in order -/
  appended : List QString := []
  /-- the entries that were removed, as they were then -/
  removed : List Entry := []
  /-- the calls of `notifyFile`, and what they returned -/
  notified : List (Nat × Bool) := []
  /-- the calls of `addOneRecord`, and the entries they are made for -/
  recorded : List (Nat × Record) := []
deriving DecidableEq

/-- `mFileList.append( { path, -1 } )` -/
def State.append (s : State) (path : QString) : State :=
  { s with
    mFileList := s.mFileList ++ [⟨s.appended.length, ⟨path, -1⟩⟩]
    appended := s.appended ++ [path] }

/-- `i.remove()`; the entry is the one that `i.next()` returned. -/
def State.remove (s : State) (i : Cursor) (entry : Entry) : State :=
  { s with
    mFileList := (Lib.MutableIterator.remove s.mFileList i).1
    iterator := some (Lib.MutableIterator.remove s.mFileList i).2
    removed := s.removed ++ [entry] }

/-- `info.size = sb.st_size` -/
def State.resize (s : State) (i : Cursor) (size : Int) : State :=
  { s with
    mFileList := Lib.MutableIterator.modify s.mFileList i fun entry =>
      { entry with info := { entry.info with size := int32 size } }
    iterator := some i }

/-- `notifyFile`, whose result the caller looks at. -/
def State.notifyFile (env : Env) (s : State) (entry : Entry) (answer : Answer)
    (nameOwned : Bool) : Bool × State :=
  let (owned, mServiceNameOwned) := queryService s.mServiceNameOwned nameOwned answer.replies
  let s := { s with mServiceNameOwned, notified := s.notified ++ [(entry.serial, owned)] }
  if owned then
    (true, { s with
      recorded := s.recorded ++
        (records env entry.info answer.mimeType).map fun r => (entry.serial, r) })
  else (false, s)

/-- The body of the inner loop: `i` has returned `entry`. -/
def State.visit (env : Env) (s : State) (i : Cursor) (entry : Entry) (answer : Answer)
    (nameOwned : Bool) : State :=
  match answer.stat with
  | none => s.remove i entry
  | some size =>
    if size ≠ entry.info.size then s.resize i size
    else
      let (told, s) := s.notifyFile env entry answer nameOwned
      if told then s.remove i entry else { s with iterator := some i }

inductive Action
  /-- `addNotifyFile` on the watcher thread -/
  | addNotifyFile (path : QString)
  /-- `loopList` takes the lock -/
  | beginPass
  /-- one turn of the inner loop; `nameOwned` is what the bus knows then -/
  | turn (answer : Answer) (nameOwned : Bool)
  /-- it has no next entry and gives the lock back -/
  | endPass
deriving DecidableEq

/-- A step that has to wait is none. -/
def step (env : Env) (s : State) (a : Action) : Option State :=
  match s.iterator, a with
  | none, .addNotifyFile path => some (if env.notifies path then s.append path else s)
  | none, .beginPass => some { s with iterator := some {} }
  | some i, .turn answer nameOwned =>
    if hasNext s.mFileList i then
      (s.mFileList[i.i]?).map fun entry => s.visit env i.next entry answer nameOwned
    else none
  | some i, .endPass => if hasNext s.mFileList i then none else some { s with iterator := none }
  | _, _ => none

variable {env : Env} {s t : State} {i : Cursor} {done rest : List Entry} {entry : Entry}
  {answer : Answer} {nameOwned : Bool}

/-- The entry with the size that the file has now. -/
def Entry.resized (entry : Entry) (size : Int) : Entry :=
  { entry with info := { entry.info with size := int32 size } }

/-- **What a turn does**: the file is gone, it has changed, or it is notified,
and stays in the list if that fails. -/
theorem visit_cases (env : Env) (answer : Answer) (nameOwned : Bool)
    (h : On s.mFileList i done entry rest) :
    (answer.stat = none ∧ s.visit env i entry answer nameOwned =
        { s with
          mFileList := done ++ rest
          iterator := some ⟨done.length, none⟩
          removed := s.removed ++ [entry] }) ∨
      (∃ size, answer.stat = some size ∧ size ≠ entry.info.size ∧
        s.visit env i entry answer nameOwned =
          { s with mFileList := done ++ entry.resized size :: rest, iterator := some i }) ∨
      (answer.stat = some entry.info.size ∧
        (queryService s.mServiceNameOwned nameOwned answer.replies).1 = false ∧
        s.visit env i entry answer nameOwned =
          { s with
            mServiceNameOwned := false
            notified := s.notified ++ [(entry.serial, false)]
            iterator := some i }) ∨
      (answer.stat = some entry.info.size ∧
        (queryService s.mServiceNameOwned nameOwned answer.replies).1 = true ∧
        s.visit env i entry answer nameOwned =
          { s with
            mFileList := done ++ rest
            mServiceNameOwned := true
            iterator := some ⟨done.length, none⟩
            removed := s.removed ++ [entry]
            notified := s.notified ++ [(entry.serial, true)]
            recorded := s.recorded ++
              (records env entry.info answer.mimeType).map fun r => (entry.serial, r) }) := by
  unfold State.visit
  cases hstat : answer.stat with
  | none =>
    refine .inl ⟨rfl, ?_⟩
    simp only [State.remove, h.remove_eq]
  | some size =>
    by_cases hsize : size = entry.info.size
    swap
    · refine .inr (.inl ⟨size, rfl, hsize, ?_⟩)
      simp only [if_pos hsize, State.resize, h.modify_eq, Entry.resized]
    subst hsize
    have hboth := queryService_eq s.mServiceNameOwned nameOwned answer.replies
    cases howned : s.mServiceNameOwned || (answer.replies && nameOwned) with
    | false =>
      refine .inr (.inr (.inl ⟨rfl, by rw [hboth, howned], ?_⟩))
      simp [State.notifyFile, hboth, howned]
    | true =>
      refine .inr (.inr (.inr ⟨rfl, by rw [hboth, howned], ?_⟩))
      simp [State.notifyFile, hboth, howned, State.remove, h.remove_eq]

/-! ## Conservation -/

/-- Every entry that was appended is in the list or was removed, once, and it
has the path it was appended with. Those in the list stand in their order.
`addOneRecord` was called for removed entries, once each. -/
structure Conserved (s : State) : Prop where
  once : ((s.mFileList ++ s.removed).map Entry.serial).Perm (List.range s.appended.length)
  paths : ∀ entry ∈ s.mFileList ++ s.removed, s.appended[entry.serial]? = some entry.info.path
  ordered : (s.mFileList.map Entry.serial).Pairwise (· < ·)
  recorded : ∀ serial ∈ s.recorded.map Prod.fst, serial ∈ s.removed.map Entry.serial
  recordedOnce : (s.recorded.map Prod.fst).Nodup

theorem Conserved.nodup (hs : Conserved s) :
    ((s.mFileList ++ s.removed).map Entry.serial).Nodup :=
  hs.once.nodup_iff.mpr List.nodup_range

theorem Conserved.append (hs : Conserved s) (path : QString) : Conserved (s.append path) := by
  have hlt : ∀ entry ∈ s.mFileList ++ s.removed, entry.serial < s.appended.length := by
    intro entry hentry
    exact List.mem_range.mp (hs.once.mem_iff.mp (List.mem_map_of_mem hentry))
  refine ⟨?_, ?_, ?_, hs.recorded, hs.recordedOnce⟩
  · show ((s.mFileList ++ [(⟨s.appended.length, ⟨path, -1⟩⟩ : Entry)] ++ s.removed).map
      Entry.serial).Perm (List.range (s.appended ++ [path]).length)
    rw [List.length_append, List.length_singleton, List.range_succ, List.append_assoc]
    refine (List.perm_middle.map _).trans ?_
    exact (hs.once.cons s.appended.length).trans (List.perm_append_singleton _ _).symm
  · intro entry hentry
    show (s.appended ++ [path])[entry.serial]? = some entry.info.path
    have hentry : entry ∈ s.mFileList ++ [⟨s.appended.length, ⟨path, -1⟩⟩] ++ s.removed := hentry
    simp only [List.mem_append, List.mem_singleton] at hentry
    rcases hentry with (hold | rfl) | hold
    · have hin := List.mem_append_left s.removed hold
      rw [List.getElem?_append_left (hlt entry hin)]
      exact hs.paths entry hin
    · simp
    · have hin := List.mem_append_right s.mFileList hold
      rw [List.getElem?_append_left (hlt entry hin)]
      exact hs.paths entry hin
  · show ((s.mFileList ++ [(⟨s.appended.length, ⟨path, -1⟩⟩ : Entry)]).map
      Entry.serial).Pairwise (· < ·)
    rw [List.map_append, List.pairwise_append]
    refine ⟨hs.ordered, List.pairwise_singleton _ _, ?_⟩
    intro serial hserial last hlast
    obtain ⟨entry, hentry, rfl⟩ := List.mem_map.mp hserial
    rw [List.mem_singleton.mp hlast]
    exact hlt entry (List.mem_append_left s.removed hentry)

/-- An entry is replaced by one with its number and path. -/
theorem Conserved.replace (hs : Conserved s) (hlist : s.mFileList = done ++ entry :: rest)
    {entry' : Entry} (hserial : entry'.serial = entry.serial)
    (hpath : entry'.info.path = entry.info.path) (ht : t.mFileList = done ++ entry' :: rest)
    (hrest : t.removed = s.removed ∧ t.appended = s.appended ∧ t.recorded = s.recorded) :
    Conserved t := by
  obtain ⟨hremoved, happended, hrecorded⟩ := hrest
  have hserials : t.mFileList.map Entry.serial = s.mFileList.map Entry.serial := by
    rw [ht, hlist]
    simp [hserial]
  refine ⟨?_, ?_, ?_, ?_, ?_⟩
  · rw [List.map_append, hserials, hremoved, happended, ← List.map_append]
    exact hs.once
  · rw [happended, hremoved, ht]
    intro other hother
    simp only [List.mem_append, List.mem_cons] at hother
    have hpaths := hs.paths
    simp only [hlist, List.mem_append, List.mem_cons] at hpaths
    rcases hother with (hdone | rfl | hrest) | hold
    · exact hpaths other (.inl (.inl hdone))
    · rw [hserial, hpath]
      exact hpaths entry (.inl (.inr (.inl rfl)))
    · exact hpaths other (.inl (.inr (.inr hrest)))
    · exact hpaths other (.inr hold)
  · rw [hserials]
    exact hs.ordered
  · rw [hrecorded, hremoved]
    exact hs.recorded
  · rw [hrecorded]
    exact hs.recordedOnce

/-- An entry is removed, and at most one call made for it. -/
theorem Conserved.leave (hs : Conserved s) (hlist : s.mFileList = done ++ entry :: rest)
    {calls : List Record} (hcalls : calls.length ≤ 1) (ht : t.mFileList = done ++ rest)
    (hremoved : t.removed = s.removed ++ [entry]) (happended : t.appended = s.appended)
    (hrecorded : t.recorded = s.recorded ++ calls.map fun r => (entry.serial, r)) :
    Conserved t := by
  have hperm : (t.mFileList ++ t.removed).Perm (s.mFileList ++ s.removed) := by
    rw [ht, hremoved, hlist, ← List.append_assoc, List.append_assoc done (entry :: rest)]
    refine (List.perm_append_singleton entry _).trans ?_
    rw [List.append_assoc, List.cons_append]
    exact List.perm_middle.symm
  have hnew : entry.serial ∉ s.removed.map Entry.serial := by
    have hnodup := hs.nodup
    rw [List.map_append, List.nodup_append] at hnodup
    intro hold
    exact hnodup.2.2 entry.serial (by simp [hlist]) entry.serial hold rfl
  refine ⟨?_, ?_, ?_, ?_, ?_⟩
  · rw [happended]
    exact (hperm.map _).trans hs.once
  · rw [happended]
    exact fun other hother => hs.paths other (hperm.mem_iff.mp hother)
  · have hordered := hs.ordered
    rw [hlist] at hordered
    rw [ht]
    have hshorter := List.Sublist.append_left (List.sublist_cons_self entry rest) done
    exact hordered.sublist (hshorter.map _)
  · rw [hrecorded, hremoved]
    intro serial hserial
    simp only [List.map_append, List.mem_append, List.map_map] at hserial ⊢
    rcases hserial with hold | hcall
    · exact .inl (hs.recorded serial hold)
    · obtain ⟨r, -, rfl⟩ := List.mem_map.mp hcall
      exact .inr (List.mem_singleton_self _)
  · rw [hrecorded, List.map_append, List.map_map]
    cases calls with
    | nil => simpa using hs.recordedOnce
    | cons r more =>
      obtain rfl : more = [] := by simpa using hcalls
      refine List.nodup_append.mpr ⟨hs.recordedOnce, by simp, ?_⟩
      intro serial hserial other hother
      simp only [List.map_cons, List.map_nil, Function.comp, List.mem_singleton] at hother
      rintro rfl
      exact hnew (hother ▸ hs.recorded _ hserial)

theorem records_length (env : Env) (info : NotifyFileInfo) (mimeType : QString) :
    (records env info mimeType).length ≤ 1 := by
  unfold records
  split <;> simp

theorem Conserved.visit (hs : Conserved s) (h : On s.mFileList i done entry rest) :
    Conserved (s.visit env i entry answer nameOwned) := by
  rcases visit_cases env answer nameOwned h with
    ⟨-, hvisit⟩ | ⟨size, -, -, hvisit⟩ | ⟨-, -, hvisit⟩ | ⟨-, -, hvisit⟩
  · rw [hvisit]
    have hcalls : ([] : List Record).length ≤ 1 := Nat.zero_le 1
    exact hs.leave h.list hcalls rfl rfl rfl (List.append_nil _).symm
  · rw [hvisit]
    have hserial : (entry.resized size).serial = entry.serial := rfl
    exact hs.replace h.list hserial rfl rfl ⟨rfl, rfl, rfl⟩
  · rw [hvisit]
    exact hs.replace h.list rfl rfl h.list ⟨rfl, rfl, rfl⟩
  · rw [hvisit]
    exact hs.leave h.list (records_length env entry.info answer.mimeType) rfl rfl rfl rfl

/-- What a pass leaves of an entry, given the calls of `notifyFile` made in it. -/
def survivor (told : List (Nat × Bool)) (entry : Entry) (answer : Answer) : Option Entry :=
  match answer.stat with
  | none => none
  | some size =>
    if size ≠ entry.info.size then some (entry.resized size)
    else if told.contains (entry.serial, true) then none
    else some entry

/-- The entries that `notifyFile` is called for: their size has not changed. -/
def asked (entries : List (Entry × Answer × Bool)) : List Nat :=
  (entries.filter fun e => e.2.1.stat = some e.1.info.size).map fun e => e.1.serial

/-- The list after the pass. -/
def kept (told : List (Nat × Bool)) (entries : List (Entry × Answer × Bool)) : List Entry :=
  entries.filterMap fun e => survivor told e.1 e.2.1

/-- The entries that the pass removes. -/
def gone (told : List (Nat × Bool)) (entries : List (Entry × Answer × Bool)) : List Entry :=
  (entries.filter fun e => (survivor told e.1 e.2.1).isNone).map Prod.fst

/-- A turn in these terms. -/
theorem visit_outcome (env : Env) (answer : Answer) (nameOwned : Bool)
    (h : On s.mFileList i done entry rest) :
    ∃ j told, (s.visit env i entry answer nameOwned).iterator = some j ∧
      At (s.visit env i entry answer nameOwned).mFileList j
        (done ++ kept told [(entry, answer, nameOwned)]) rest ∧
      (s.visit env i entry answer nameOwned).notified = s.notified ++ told ∧
      told.map Prod.fst = asked [(entry, answer, nameOwned)] ∧
      (s.visit env i entry answer nameOwned).removed =
        s.removed ++ gone told [(entry, answer, nameOwned)] := by
  rcases visit_cases env answer nameOwned h with
    ⟨hstat, hvisit⟩ | ⟨size, hstat, hsize, hvisit⟩ | ⟨hstat, -, hvisit⟩ | ⟨hstat, -, hvisit⟩
  · have hnone : survivor [] entry answer = none := by simp [survivor, hstat]
    rw [hvisit]
    refine ⟨_, [], rfl, ?_, ?_, ?_, ?_⟩
    · exact ⟨by simp [kept, hnone], by simp [kept, hnone]⟩
    · simp
    · simp [asked, hstat]
    · simp [gone, hnone]
  · have hsome : survivor [] entry answer = some (entry.resized size) := by
      simp [survivor, hstat, hsize]
    rw [hvisit]
    refine ⟨i, [], rfl, ?_, ?_, ?_, ?_⟩
    · exact ⟨by simp [kept, hsome], by simp [kept, hsome, h.position]⟩
    · simp
    · simp [asked, hstat, hsize]
    · simp [gone, hsome]
  · have hsome : survivor [(entry.serial, false)] entry answer = some entry := by
      simp [survivor, hstat]
    rw [hvisit]
    refine ⟨i, [(entry.serial, false)], rfl, ?_, rfl, ?_, ?_⟩
    · exact ⟨by simp [kept, hsome, h.list], by simp [kept, hsome, h.position]⟩
    · simp [asked, hstat]
    · simp [gone, hsome]
  · have hnone : survivor [(entry.serial, true)] entry answer = none := by
      simp [survivor, hstat]
    rw [hvisit]
    refine ⟨_, [(entry.serial, true)], rfl, ?_, rfl, ?_, ?_⟩
    · exact ⟨by simp [kept, hnone], by simp [kept, hnone]⟩
    · simp [asked, hstat]
    · simp [gone, hnone]

/-- The iterator stands somewhere in the list. -/
def Placed (s : State) : Prop :=
  ∀ i, s.iterator = some i → ∃ done rest, At s.mFileList i done rest

theorem step_beginPass (h : step env s .beginPass = some t) :
    t = { s with iterator := some {} } := by
  cases hi : s.iterator with
  | none =>
    simp only [step, hi, Option.some.injEq] at h
    exact h.symm
  | some i => simp [step, hi] at h

theorem step_endPass (hi : s.iterator = some i) (hat : At s.mFileList i done rest)
    (h : step env s .endPass = some t) : rest = [] ∧ t = { s with iterator := none } := by
  simp only [step, hi, Option.ite_none_left_eq_some] at h
  refine ⟨?_, (Option.some.inj h.2).symm⟩
  by_contra hne
  exact h.1 (hat.hasNext_iff.mpr hne)

theorem step_turn (hi : s.iterator = some i) (hat : At s.mFileList i done rest)
    (h : step env s (.turn answer nameOwned) = some t) :
    ∃ entry rest', rest = entry :: rest' ∧ t = s.visit env i.next entry answer nameOwned := by
  simp only [step, hi, Option.ite_none_right_eq_some] at h
  obtain ⟨hnext, h⟩ := h
  obtain ⟨entry, rest, rfl⟩ := List.exists_cons_of_ne_nil (hat.hasNext_iff.mp hnext)
  rw [hat.get] at h
  exact ⟨entry, rest, rfl, (Option.some.inj h).symm⟩

/-- **What a step does.** -/
theorem step_cases {a : Action} (hs : Placed s) (h : step env s a = some t) :
    (∃ path, a = .addNotifyFile path ∧ s.iterator = none ∧
        t = if env.notifies path then s.append path else s) ∨
      (a = .beginPass ∧ s.iterator = none ∧ t = { s with iterator := some {} }) ∨
      (∃ answer nameOwned i done entry rest, a = .turn answer nameOwned ∧ s.iterator = some i ∧
        At s.mFileList i done (entry :: rest) ∧
        t = s.visit env i.next entry answer nameOwned) ∨
      (∃ i done, a = .endPass ∧ s.iterator = some i ∧ At s.mFileList i done [] ∧
        t = { s with iterator := none }) := by
  cases hi : s.iterator with
  | none =>
    cases a with
    | addNotifyFile path =>
      simp only [step, hi, Option.some.injEq] at h
      exact .inl ⟨path, rfl, rfl, h.symm⟩
    | beginPass =>
      simp only [step, hi, Option.some.injEq] at h
      exact .inr (.inl ⟨rfl, rfl, h.symm⟩)
    | turn answer nameOwned => simp [step, hi] at h
    | endPass => simp [step, hi] at h
  | some i =>
    obtain ⟨done, rest, hat⟩ := hs i hi
    cases a with
    | addNotifyFile path => simp [step, hi] at h
    | beginPass => simp [step, hi] at h
    | turn answer nameOwned =>
      obtain ⟨entry, rest, rfl, ht⟩ := step_turn hi hat h
      exact .inr (.inr (.inl ⟨answer, nameOwned, i, done, entry, rest, rfl, rfl, hat, ht⟩))
    | endPass =>
      obtain ⟨rfl, ht⟩ := step_endPass hi hat h
      exact .inr (.inr (.inr ⟨i, done, rfl, rfl, hat, ht⟩))

theorem step_conserved {a : Action} (hs : Conserved s) (hplaced : Placed s)
    (h : step env s a = some t) : Conserved t ∧ Placed t := by
  rcases step_cases hplaced h with ⟨path, -, hi, rfl⟩ | ⟨-, -, rfl⟩ |
    ⟨answer, nameOwned, i, done, entry, rest, -, -, hat, rfl⟩ | ⟨i, done, -, -, -, rfl⟩
  · split
    · exact ⟨hs.append path, fun i hsome => absurd (hi.symm.trans hsome) (by simp)⟩
    · exact ⟨hs, hplaced⟩
  · refine ⟨⟨hs.once, hs.paths, hs.ordered, hs.recorded, hs.recordedOnce⟩, fun i hi => ?_⟩
    obtain rfl := Option.some.inj hi
    exact ⟨[], s.mFileList, .start _⟩
  · refine ⟨hs.visit hat.next, fun j hj => ?_⟩
    obtain ⟨k, told, hk, hplace, -⟩ := visit_outcome env answer nameOwned hat.next
    obtain rfl := Option.some.inj (hk.symm.trans hj)
    exact ⟨_, rest, hplace⟩
  · exact ⟨⟨hs.once, hs.paths, hs.ordered, hs.recorded, hs.recordedOnce⟩, fun i hi => by cases hi⟩

/-! ## A whole pass -/

/-- A pass that meets these answers, each with what the bus knows then. -/
def pass (answers : List (Answer × Bool)) : List Action :=
  .beginPass :: (answers.map fun a => .turn a.1 a.2) ++ [.endPass]

/-- Each entry is visited once. It is removed if `stat` failed, or if its size
was the remembered one and `notifyFile` returned true. Of the others nothing
changes but the size. -/
structure PassExact (s : State) (answers : List (Answer × Bool)) (t : State) : Prop where
  visited : answers.length = s.mFileList.length
  exact : ∃ told, t.notified = s.notified ++ told ∧
    told.map Prod.fst = asked (s.mFileList.zip answers) ∧
    t.mFileList = kept told (s.mFileList.zip answers) ∧
    t.removed = s.removed ++ gone told (s.mFileList.zip answers)

variable {told told' : List (Nat × Bool)} {entries : List (Entry × Answer × Bool)}
  {answers : List (Answer × Bool)}

theorem survivor_congr (h : (entry.serial, true) ∈ told ↔ (entry.serial, true) ∈ told') :
    survivor told entry answer = survivor told' entry answer := by
  have hcontains : told.contains (entry.serial, true) = told'.contains (entry.serial, true) := by
    rw [Bool.eq_iff_iff, List.contains_iff_mem, List.contains_iff_mem, h]
  rw [survivor, survivor, hcontains]

/-- The calls for other entries do not matter. -/
theorem survivor_append (htold : entry.serial ∉ told'.map Prod.fst) :
    survivor (told ++ told') entry answer = survivor told entry answer := by
  refine survivor_congr ?_
  rw [List.mem_append, or_iff_left fun h => htold (List.mem_map_of_mem h)]

theorem survivor_append_right (htold : entry.serial ∉ told.map Prod.fst) :
    survivor (told ++ told') entry answer = survivor told' entry answer := by
  refine survivor_congr ?_
  rw [List.mem_append, or_iff_right fun h => htold (List.mem_map_of_mem h)]

theorem mem_of_mem_asked {serial : Nat} (h : serial ∈ asked entries) :
    ∃ e ∈ entries, e.1.serial = serial := by
  obtain ⟨e, he, rfl⟩ := List.mem_map.mp h
  exact ⟨e, List.mem_of_mem_filter he, rfl⟩

theorem kept_congr (h : ∀ e ∈ entries, survivor told e.1 e.2.1 = survivor told' e.1 e.2.1) :
    kept told entries = kept told' entries ∧ gone told entries = gone told' entries :=
  ⟨List.filterMap_congr h, congrArg _ (List.filter_congr fun e he => by rw [h e he])⟩

/-- The first entry of a pass, and the others. -/
theorem pass_cons (first : Entry × Answer × Bool)
    (hfirst : ∀ e ∈ entries, e.1.serial ≠ first.1.serial)
    (htold : told.map Prod.fst = asked [first]) (htold' : told'.map Prod.fst = asked entries) :
    (told ++ told').map Prod.fst = asked (first :: entries) ∧
      kept (told ++ told') (first :: entries) = kept told [first] ++ kept told' entries ∧
      gone (told ++ told') (first :: entries) = gone told [first] ++ gone told' entries := by
  have hhead : ∀ e ∈ [first], survivor (told ++ told') e.1 e.2.1 = survivor told e.1 e.2.1 := by
    intro e he
    refine survivor_append fun h => ?_
    obtain ⟨e', he', hserial⟩ := mem_of_mem_asked (htold' ▸ h)
    rw [List.mem_singleton.mp he] at hserial
    exact hfirst e' he' hserial
  have htail : ∀ e ∈ entries, survivor (told ++ told') e.1 e.2.1 = survivor told' e.1 e.2.1 := by
    intro e he
    refine survivor_append_right fun h => ?_
    obtain ⟨e', he', hserial⟩ := mem_of_mem_asked (htold ▸ h)
    rw [List.mem_singleton.mp he'] at hserial
    exact hfirst e he hserial.symm
  have hsplit : first :: entries = [first] ++ entries := rfl
  refine ⟨?_, ?_, ?_⟩
  · rw [List.map_append, htold, htold', hsplit, asked, asked, asked, List.filter_append,
      List.map_append]
  · rw [← (kept_congr hhead).1, ← (kept_congr htail).1, hsplit]
    exact List.filterMap_append
  · rw [← (kept_congr hhead).2, ← (kept_congr htail).2, hsplit, gone, List.filter_append,
      List.map_append]
    rfl

/-- The turns of a pass, up to its end. -/
theorem turns_exact (hi : s.iterator = some i) (hat : At s.mFileList i done rest)
    (hnodup : (rest.map Entry.serial).Nodup)
    (hrun : run (step env) s ((answers.map fun a => Action.turn a.1 a.2) ++ [.endPass]) = some t) :
    answers.length = rest.length ∧ ∃ told, t.notified = s.notified ++ told ∧
      told.map Prod.fst = asked (rest.zip answers) ∧
      t.mFileList = done ++ kept told (rest.zip answers) ∧
      t.removed = s.removed ++ gone told (rest.zip answers) := by
  induction answers generalizing s i done rest with
  | nil =>
    obtain ⟨u, hstep, hend⟩ := run_cons_some.mp hrun
    obtain rfl := Option.some.inj hend
    obtain ⟨rfl, rfl⟩ := step_endPass hi hat hstep
    refine ⟨rfl, [], (List.append_nil _).symm, rfl, ?_, (List.append_nil _).symm⟩
    rw [hat.list]
    rfl
  | cons first answers ih =>
    obtain ⟨u, hstep, hrest⟩ := run_cons_some.mp hrun
    obtain ⟨entry, rest, rfl, rfl⟩ := step_turn hi hat hstep
    obtain ⟨j, told, hj, hat', hnotified, htold, hremoved⟩ :=
      visit_outcome env first.1 first.2 hat.next
    obtain ⟨hserial, hnodup⟩ := List.nodup_cons.mp hnodup
    obtain ⟨hlength, told', hnotified', htold', hlist, hremoved'⟩ := ih hj hat' hnodup hrest
    have hothers : ∀ e ∈ rest.zip answers, e.1.serial ≠ entry.serial := by
      intro e he heq
      exact hserial (heq ▸ List.mem_map_of_mem (List.of_mem_zip he).1)
    obtain ⟨hasked, hkept, hgone⟩ := pass_cons (entry, first) hothers htold htold'
    refine ⟨by simp [hlength], told ++ told', ?_, hasked, ?_, ?_⟩
    · rw [hnotified', hnotified, List.append_assoc]
    · rw [hlist, List.append_assoc, ← hkept]
      rfl
    · rw [hremoved', hremoved, List.append_assoc, ← hgone]
      rfl

theorem Conserved.init : Conserved {} := ⟨.nil, by simp, .nil, by simp, .nil⟩

theorem pass_exact (hs : Conserved s) (hrun : run (step env) s (pass answers) = some t) :
    PassExact s answers t := by
  obtain ⟨u, hbegin, hturns⟩ := run_cons_some.mp hrun
  obtain rfl := step_beginPass hbegin
  have hnodup : (s.mFileList.map Entry.serial).Nodup := by
    have hboth := hs.nodup
    rw [List.map_append, List.nodup_append] at hboth
    exact hboth.1
  have hi : ({ s with iterator := some {} } : State).iterator = some {} := rfl
  obtain ⟨hvisited, hexact⟩ := turns_exact hi (.start s.mFileList) hnodup hturns
  exact ⟨hvisited, hexact⟩

/-- **The queue.** In every state that appends and passes can lead to, within a
pass too, no entry is lost, doubled or out of order, and none is recorded
twice. Every pass is exact. -/
theorem queue_conservation (env : Env) {actions : List Action}
    (hrun : run (step env) {} actions = some s) : Conserved s ∧
      ∀ before answers t, actions = before ++ pass answers →
        run (step env) {} before = some t → PassExact t answers s := by
  have hreached : ∀ actions s, run (step env) {} actions = some s → Conserved s ∧ Placed s := by
    intro actions s hrun
    refine run_invariant (I := fun s => Conserved s ∧ Placed s) ?_ ⟨.init, ?_⟩ hrun
    · exact fun s a s' hs hstep => step_conserved hs.1 hs.2 hstep
    · exact fun i hi => by cases hi
  refine ⟨(hreached actions s hrun).1, ?_⟩
  rintro before answers t rfl hbefore
  obtain ⟨u, hu, hpass⟩ := run_append_some.mp hrun
  obtain rfl := Option.some.inj (hbefore.symm.trans hu)
  exact pass_exact (hreached before t hbefore).1 hpass

/-- A picture, visited once. -/
def visitedOnce : List Action := .addNotifyFile "/home/kylin/a.png".toList :: pass [(picture, true)]

theorem queue_conservation_report :
    ∃ t s, run (step pictureEnv) {} visitedOnce = some t ∧
      run (step pictureEnv) {} (visitedOnce ++ pass [(picture, true)]) = some s ∧
      s.mFileList = [] ∧ s.recorded.length = 1 ∧ Conserved s ∧
      PassExact t [(picture, true)] s := by
  obtain ⟨t, ht⟩ : ∃ t, run (step pictureEnv) {} visitedOnce = some t :=
    Option.isSome_iff_exists.mp (by decide +kernel)
  have hdone : (run (step pictureEnv) {} (visitedOnce ++ pass [(picture, true)])).map
      (fun s => (s.mFileList, s.recorded.length)) = some ([], 1) := by decide +kernel
  obtain ⟨s, hs, hend⟩ := Option.map_eq_some_iff.mp hdone
  obtain ⟨hlist, hlen⟩ := Prod.mk.inj hend
  obtain ⟨hconserved, hexact⟩ := queue_conservation pictureEnv hs
  exact ⟨t, s, ht, hs, hlist, hlen, hconserved, hexact visitedOnce _ t rfl ht⟩

/-! ## The pass of the list thread's model -/

/-- The list thread's model within a pass that has kept `done`: an atomic pass, in
which the owner of the name does not change. -/
structure Simulates (u : LoopList.State) (s : State) (done : List Entry) : Prop where
  mFileList : u.mFileList = done.map Entry.info
  mServiceNameOwned : u.mServiceNameOwned = s.mServiceNameOwned
  departed : u.departed.map Departure.info = s.removed.map Entry.info
  calls : u.departed.flatMap Departure.calls = s.recorded.map Prod.snd

theorem Simulates.visit {u : LoopList.State} (hu : Simulates u s done) (env : Env)
    (h : On s.mFileList i done entry rest) (answer : Answer) :
    ∃ j done', (s.visit env i entry answer u.nameOwned).iterator = some j ∧
      At (s.visit env i entry answer u.nameOwned).mFileList j done' rest ∧
      Simulates (u.visit env entry.info answer) (s.visit env i entry answer u.nameOwned) done' := by
  have hboth := queryService_eq s.mServiceNameOwned u.nameOwned answer.replies
  rcases visit_cases env answer u.nameOwned h with
    ⟨hstat, hvisit⟩ | ⟨size, hstat, hsize, hvisit⟩ | ⟨hstat, howned, hvisit⟩ |
    ⟨hstat, howned, hvisit⟩
  · have hgone : u.visit env entry.info answer = u.remove entry.info answer [] := by
      simp only [LoopList.State.visit, hstat]
    rw [hvisit, hgone]
    refine ⟨_, done, rfl, ⟨rfl, rfl⟩, hu.mFileList, hu.mServiceNameOwned, ?_, ?_⟩
    · simp [LoopList.State.remove, hu.departed]
    · simp [LoopList.State.remove, hu.calls]
  · have hresized : u.visit env entry.info answer = u.keep (entry.resized size).info := by
      simp only [LoopList.State.visit, hstat, if_pos hsize, Entry.resized]
    rw [hvisit, hresized]
    refine ⟨i, done ++ [entry.resized size], rfl, ⟨by simp, by simp [h.position]⟩, ?_,
      hu.mServiceNameOwned, hu.departed, hu.calls⟩
    simp [LoopList.State.keep, hu.mFileList]
  · simp only [hboth] at howned
    have hkept : u.visit env entry.info answer =
        (u.asked entry.info false).keep entry.info := by
      simp only [LoopList.State.visit, hstat, notifyFile_eq, hu.mServiceNameOwned, howned]
      simp
    rw [hvisit, hkept]
    refine ⟨i, done ++ [entry], rfl, h.keep, ?_, rfl, hu.departed, hu.calls⟩
    simp [LoopList.State.asked, LoopList.State.keep, hu.mFileList]
  · simp only [hboth] at howned
    have htold : u.visit env entry.info answer = (u.asked entry.info true).remove
        entry.info answer (records env entry.info answer.mimeType) := by
      simp only [LoopList.State.visit, hstat, notifyFile_eq, hu.mServiceNameOwned, howned]
      simp
    rw [hvisit, htold]
    refine ⟨_, done, rfl, ⟨rfl, rfl⟩, hu.mFileList, rfl, ?_, ?_⟩
    · simp [LoopList.State.asked, LoopList.State.remove, hu.departed]
    · simp [LoopList.State.asked, LoopList.State.remove, hu.calls, Function.comp_def]

/-- The turns of a pass. -/
theorem Simulates.turns {u : LoopList.State} (hu : Simulates u s done)
    (howned : u.nameOwned = nameOwned) (hi : s.iterator = some i)
    (hat : At s.mFileList i done rest) {answers : List Answer}
    (hrun : run (step env) s
      ((answers.map fun a => Action.turn a nameOwned) ++ [.endPass]) = some t) :
    answers.length = rest.length ∧
      Simulates (u.visitAll env ((rest.map Entry.info).zip answers)) t t.mFileList := by
  induction answers generalizing s u i done rest with
  | nil =>
    obtain ⟨v, hstep, hend⟩ := run_cons_some.mp hrun
    obtain rfl := Option.some.inj hend
    obtain ⟨rfl, rfl⟩ := step_endPass hi hat hstep
    refine ⟨rfl, ?_, hu.mServiceNameOwned, hu.departed, hu.calls⟩
    show u.mFileList = s.mFileList.map Entry.info
    rw [hu.mFileList, hat.list, List.append_nil]
  | cons answer answers ih =>
    obtain ⟨v, hstep, hrest⟩ := run_cons_some.mp hrun
    obtain ⟨entry, rest, rfl, rfl⟩ := step_turn hi hat hstep
    subst howned
    obtain ⟨j, done', hj, hat', hu'⟩ := hu.visit env hat.next answer
    obtain ⟨hlength, hsim⟩ := ih hu' visit_nameOwned hj hat' hrest
    exact ⟨by simp [hlength], hsim⟩

/-- A pass in which the owner of the name does not change is a step of the list
thread's model. -/
theorem Simulates.pass {u : LoopList.State} (hu : Simulates u s s.mFileList)
    {answers : List Answer}
    (hrun : run (step env) s (pass (answers.map fun a => (a, u.nameOwned))) = some t) :
    ∃ u', LoopList.step env u (.pass answers) = some u' ∧ Simulates u' t t.mFileList := by
  obtain ⟨v, hbegin, hturns⟩ := run_cons_some.mp hrun
  obtain rfl := step_beginPass hbegin
  have hi : ({ s with iterator := some {} } : State).iterator = some {} := rfl
  have hstart : Simulates { u with mFileList := [] } { s with iterator := some {} } [] :=
    ⟨rfl, hu.mServiceNameOwned, hu.departed, hu.calls⟩
  rw [List.map_map] at hturns
  obtain ⟨hlength, hsim⟩ := hstart.turns rfl hi (.start s.mFileList) hturns
  refine ⟨_, if_pos ?_, ?_⟩
  · rw [hlength, hu.mFileList, List.length_map]
  · rw [LoopList.State.pass, hu.mFileList]
    exact hsim

end KmreManager.FileInotifyService.NotifyQueue
