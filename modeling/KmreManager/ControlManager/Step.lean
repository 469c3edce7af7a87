import KmreManager.ControlManager

/-! # What one message does

The loop of `onSyncFiles` taken apart: when a record has a successor state at
all, and what happens to the lists, the counters and the signals. The later
files use these facts and never unfold the loop. -/
namespace KmreManager.ControlManager
open KmreManager.Lib.Runs

variable {F : Type} {host : Host F}

/-! ## Records that `front()` and `back()` are defined on -/

/-- If the link code runs on the record, splitting its mime type and its path
leaves at least one part. -/
def Splits (m : AndroidMeta) : Prop :=
  linked m = true → (∃ c ∈ m.mimeType, c ≠ '/') ∧ ∃ c ∈ m.path, c ≠ '/'

-- by a search of the string, not of all characters
instance (s : QString) : Decidable (∃ c ∈ s, c ≠ '/') := List.decidableBEx _ s

instance (m : AndroidMeta) : Decidable (Splits m) :=
  inferInstanceAs (Decidable (_ → _))

theorem fileTypeOf_isSome (m : AndroidMeta) :
    (fileTypeOf m).isSome ↔ ∃ c ∈ m.mimeType, c ≠ '/' := by
  rw [← QString.splitSkipEmpty_ne_nil, fileTypeOf]
  simp

theorem fileNameOf_isSome (m : AndroidMeta) : (fileNameOf m).isSome ↔ ∃ c ∈ m.path, c ≠ '/' := by
  rw [← QString.splitSkipEmpty_ne_nil, fileNameOf]
  simp

theorem createLinks_isSome (files : F) (m : AndroidMeta) :
    (createLinks host files m).isSome ↔ Splits m := by
  unfold createLinks Splits
  by_cases hl : linked m = true
  · rw [← fileTypeOf_isSome, ← fileNameOf_isSome]
    cases fileTypeOf m <;> cases fileNameOf m <;> simp [hl]
  · simp [hl]

theorem removeLinks_isSome (files : F) (m : AndroidMeta) :
    (removeLinks host files m).isSome ↔ Splits m := by
  unfold removeLinks Splits
  by_cases hl : linked m = true
  · rw [← fileTypeOf_isSome, ← fileNameOf_isSome]
    cases fileTypeOf m <;> cases fileNameOf m <;> simp [hl]
  · simp [hl]

/-! ## One record -/

/-- The message types with a branch in the loop. -/
def Handled (type : Int32) : Prop := type = 0 ∨ type = 1 ∨ type = 2

instance (type : Int32) : Decidable (Handled type) :=
  inferInstanceAs (Decidable (_ ∨ _))

/-- What a record of a message of this type does to the lists. -/
def applyRecord (type : Int32) (l : MediaLists) (m : AndroidMeta) : MediaLists :=
  if type = 0 ∨ type = 1 then l.insert m else if type = 2 then l.remove m else l

/-- What it does to the link tree. -/
def applyLinks (host : Host F) (type : Int32) (files : F) (m : AndroidMeta) : Option F :=
  if type = 0 ∨ type = 1 then createLinks host files m
  else if type = 2 then removeLinks host files m
  else some files

/-- Does a record of this message emit `filesMessage`? The answer is the same
for all records of the message, since the reset counters compare like those
that triggered the reset. -/
def Emits (s : State F) (msg : SyncFiles) : Prop :=
  msg.type = 1 ∨ msg.type = 2 ∨ msg.type = 0 ∧ s.mCurrentNum ≥ s.mTotalNum

instance (s : State F) (msg : SyncFiles) : Decidable (Emits s msg) :=
  inferInstanceAs (Decidable (_ ∨ _))

/-- The state a record leads to. -/
def applyMeta (msg : SyncFiles) (s : State F) (m : AndroidMeta) (files : F) : State F where
  lists := applyRecord msg.type s.lists m
  mTotalNum := if msg.type = 0 ∧ s.mCurrentNum ≥ s.mTotalNum then 0 else s.mTotalNum
  mCurrentNum := if msg.type = 0 ∧ s.mCurrentNum ≥ s.mTotalNum then 0 else s.mCurrentNum
  filesMessage := s.filesMessage ++
    if Emits s msg then [⟨msg.type, msg.metas, applyRecord msg.type s.lists m⟩] else []
  files := files

theorem syncMeta_eq (msg : SyncFiles) (s : State F) (m : AndroidMeta) :
    syncMeta host msg s m = (applyLinks host msg.type s.files m).map (applyMeta msg s m) := by
  by_cases h0 : msg.type = 0
  · by_cases hc : s.mCurrentNum ≥ s.mTotalNum <;>
      simp only [syncMeta, applyLinks, notifyInserted, emitFilesMessage, h0, hc, true_or, if_true,
        if_false] <;>
      exact Option.map_congr fun files _ => by simp [applyMeta, applyRecord, Emits, h0, hc]
  · by_cases h1 : msg.type = 1
    · simp only [syncMeta, applyLinks, notifyInserted, emitFilesMessage, h0, eq_true h1, or_true,
        if_true, if_false]
      exact Option.map_congr fun files _ => by simp [applyMeta, applyRecord, Emits, h1]
    · by_cases h2 : msg.type = 2
      · simp only [syncMeta, applyLinks, emitFilesMessage, h0, h1, eq_true h2, or_false, if_true,
          if_false]
        exact Option.map_congr fun files _ => by simp [applyMeta, applyRecord, Emits, h2]
      · simp [syncMeta, applyLinks, applyMeta, applyRecord, Emits, h0, h1, h2]

theorem syncMeta_some {msg : SyncFiles} {s s' : State F} {m : AndroidMeta} :
    syncMeta host msg s m = some s' ↔
      ∃ files, applyLinks host msg.type s.files m = some files ∧ applyMeta msg s m files = s' := by
  rw [syncMeta_eq, Option.map_eq_some_iff]

/-! ## The loop -/

section Loop
variable {msg : SyncFiles} {s s' : State F} {metas : AndroidMetaList}

theorem loop_lists (h : run (syncMeta host msg) s metas = some s') :
    s'.lists = metas.foldl (applyRecord msg.type) s.lists := by
  induction metas generalizing s with
  | nil => cases h; rfl
  | cons m metas ih =>
    obtain ⟨t, ht, hrun⟩ := run_cons_some.mp h
    obtain ⟨files, _, rfl⟩ := syncMeta_some.mp ht
    exact ih hrun

/-- The links a message makes or removes, record by record. -/
theorem loop_files (h : run (syncMeta host msg) s metas = some s') :
    metas.foldlM (applyLinks host msg.type) s.files = some s'.files := by
  induction metas generalizing s with
  | nil => cases h; rfl
  | cons m metas ih =>
    obtain ⟨t, ht, hrun⟩ := run_cons_some.mp h
    obtain ⟨files, hfiles, rfl⟩ := syncMeta_some.mp ht
    rw [List.foldlM_cons, hfiles]
    exact ih hrun

theorem emits_applyMeta (m : AndroidMeta) (files : F) :
    Emits (applyMeta msg s m files) msg ↔ Emits s msg := by
  unfold Emits applyMeta
  by_cases h : msg.type = 0 ∧ s.mCurrentNum ≥ s.mTotalNum
  · simp [h]
  · simp [h]

theorem loop_counters (h : run (syncMeta host msg) s metas = some s') :
    (s'.mTotalNum, s'.mCurrentNum) =
      if msg.type = 0 ∧ metas ≠ [] ∧ s.mCurrentNum ≥ s.mTotalNum then (0, 0)
      else (s.mTotalNum, s.mCurrentNum) := by
  induction metas generalizing s with
  | nil => cases h; simp
  | cons m metas ih =>
    obtain ⟨t, ht, hrun⟩ := run_cons_some.mp h
    obtain ⟨files, _, rfl⟩ := syncMeta_some.mp ht
    rw [ih hrun]
    by_cases hr : msg.type = 0 ∧ s.mCurrentNum ≥ s.mTotalNum
    · simp [applyMeta, hr]
    · rw [not_and] at hr
      by_cases h0 : msg.type = 0
      · simp [applyMeta, h0, hr h0]
      · simp [applyMeta, h0]

/-- One signal for each record, if the message emits at all. -/
theorem loop_filesMessage (h : run (syncMeta host msg) s metas = some s') :
    ∃ sent, s'.filesMessage = s.filesMessage ++ sent ∧
      sent.length = if Emits s msg then metas.length else 0 := by
  induction metas generalizing s with
  | nil => cases h; exact ⟨[], by simp⟩
  | cons m metas ih =>
    obtain ⟨t, ht, hrun⟩ := run_cons_some.mp h
    obtain ⟨files, _, rfl⟩ := syncMeta_some.mp ht
    obtain ⟨sent, hsent, hlen⟩ := ih hrun
    simp only [emits_applyMeta] at hlen
    refine ⟨(if Emits s msg then [⟨msg.type, msg.metas, applyRecord msg.type s.lists m⟩] else [])
      ++ sent, by rw [hsent]; exact List.append_assoc _ _ _, ?_⟩
    rw [List.length_append, hlen]
    by_cases he : Emits s msg <;> simp [he, Nat.add_comm]

end Loop

/-! ## Messages -/

/-- No record of the message makes the link code split off nothing. -/
def MessageSplits (msg : SyncFiles) : Prop :=
  Handled msg.type → ∀ m ∈ msg.metas, Splits m

instance (msg : SyncFiles) : Decidable (MessageSplits msg) :=
  inferInstanceAs (Decidable (_ → _))

theorem applyLinks_isSome (type : Int32) (files : F) (m : AndroidMeta) :
    (applyLinks host type files m).isSome ↔ (Handled type → Splits m) := by
  unfold applyLinks Handled
  by_cases h01 : type = 0 ∨ type = 1
  · rw [if_pos h01, createLinks_isSome]
    exact ⟨fun h _ => h, fun h => h (h01.imp_right Or.inl)⟩
  · rw [not_or] at h01
    by_cases h2 : type = 2
    · rw [if_neg (not_or.mpr h01), if_pos h2, removeLinks_isSome]
      exact ⟨fun h _ => h, fun h => h (Or.inr (Or.inr h2))⟩
    · simp [h01, h2]

theorem onSyncFiles_isSome (host : Host F) (s : State F) (msg : SyncFiles) :
    (onSyncFiles host s msg).isSome ↔ MessageSplits msg := by
  have hstep : ∀ t m, (syncMeta host msg t m).isSome ↔ (Handled msg.type → Splits m) := by
    intro t m
    rw [syncMeta_eq, Option.isSome_map, applyLinks_isSome]
  rw [onSyncFiles, run_isSome_iff hstep]
  exact ⟨fun h ht m hm => h m hm ht, fun h m hm ht => h ht m hm⟩

/-- A run of messages goes through exactly when every record splits. -/
theorem run_onSyncFiles_isSome (host : Host F) (s : State F) (msgs : List SyncFiles) :
    (run (onSyncFiles host) s msgs).isSome ↔ ∀ msg ∈ msgs, MessageSplits msg :=
  run_isSome_iff (onSyncFiles_isSome host) s msgs

/-- The counters after a message, from those before it. -/
def counters (totalNum currentNum : Int32) (msg : SyncFiles) : Int32 × Int32 :=
  if msg.type = 0 then
    let currentNum := currentNum + Int32.ofNat msg.metas.length
    if msg.metas ≠ [] ∧ currentNum ≥ msg.totalNum then (0, 0) else (msg.totalNum, currentNum)
  else (totalNum, currentNum)

section Message
variable {msg : SyncFiles} {s s' : State F}

theorem onSyncFiles_lists (h : onSyncFiles host s msg = some s') :
    s'.lists = msg.metas.foldl (applyRecord msg.type)
      (if msg.type = 0 ∧ s.mCurrentNum = 0 then {} else s.lists) := by
  rw [loop_lists h]
  by_cases h0 : msg.type = 0 <;> simp [receive, h0]

theorem onSyncFiles_counters (h : onSyncFiles host s msg = some s') :
    (s'.mTotalNum, s'.mCurrentNum) = counters s.mTotalNum s.mCurrentNum msg := by
  rw [loop_counters h]
  by_cases h0 : msg.type = 0 <;> simp [receive, counters, h0]

theorem onSyncFiles_files (h : onSyncFiles host s msg = some s') :
    msg.metas.foldlM (applyLinks host msg.type) s.files = some s'.files := by
  have hkeep : (receive s msg).files = s.files := by
    unfold receive
    split <;> rfl
  rw [← hkeep]
  exact loop_files h

theorem onSyncFiles_filesMessage (h : onSyncFiles host s msg = some s') :
    ∃ sent, s'.filesMessage = s.filesMessage ++ sent ∧
      sent.length = if Emits (receive s msg) msg then msg.metas.length else 0 := by
  have hkeep : (receive s msg).filesMessage = s.filesMessage := by
    unfold receive
    split <;> rfl
  rw [← hkeep]
  exact loop_filesMessage h

end Message

end KmreManager.ControlManager
