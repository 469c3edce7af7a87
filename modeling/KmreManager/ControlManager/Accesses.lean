import KmreManager.ControlManager.Step

/-! # `front()` and `back()` in `onSyncFiles`

The link code takes the front of the split mime type and the back of the split
path, once in the insert branch and once in the delete branch. Its guard asks
whether the strings are empty, not whether splitting them leaves a part. -/
namespace KmreManager.ControlManager

variable {F : Type} {host : Host F}

/-- A call on the parts that a split has left. -/
inductive Access
  | front (parts : List QString)
  | back (parts : List QString)
  deriving DecidableEq, Repr

def Access.parts : Access → List QString
  | .front parts => parts
  | .back parts => parts

/-- The calls of the insert branch. -/
def createLinksAccesses (m : AndroidMeta) : List Access :=
  if linked m then [.front (m.mimeType.splitSkipEmpty '/'), .back (m.path.splitSkipEmpty '/')]
  else []

/-- The calls of the delete branch. -/
def removeLinksAccesses (m : AndroidMeta) : List Access :=
  if linked m then [.front (m.mimeType.splitSkipEmpty '/'), .back (m.path.splitSkipEmpty '/')]
  else []

def syncMetaAccesses (type : Int32) (m : AndroidMeta) : List Access :=
  if type = 0 ∨ type = 1 then createLinksAccesses m
  else if type = 2 then removeLinksAccesses m
  else []

/-- The calls of a message, in the order of its records. -/
def accesses (msg : SyncFiles) : List Access :=
  msg.metas.flatMap (syncMetaAccesses msg.type)

/-- All calls are applied to a list that has a first and a last part. -/
def Defined (calls : List Access) : Prop := ∀ a ∈ calls, a.parts ≠ []

instance (calls : List Access) : Decidable (Defined calls) :=
  inferInstanceAs (Decidable (∀ a ∈ calls, _))

theorem defined_createLinks {m : AndroidMeta} : Defined (createLinksAccesses m) ↔ Splits m := by
  unfold Defined createLinksAccesses Splits
  by_cases hl : linked m = true
  · simp [hl, Access.parts, QString.splitSkipEmpty_ne_nil]
  · simp [hl]

theorem defined_removeLinks {m : AndroidMeta} : Defined (removeLinksAccesses m) ↔ Splits m :=
  defined_createLinks

theorem defined_syncMeta {type : Int32} {m : AndroidMeta} :
    Defined (syncMetaAccesses type m) ↔ (Handled type → Splits m) := by
  unfold syncMetaAccesses Handled
  by_cases h01 : type = 0 ∨ type = 1
  · rw [if_pos h01, defined_createLinks]
    exact ⟨fun h _ => h, fun h => h (h01.imp_right Or.inl)⟩
  · rw [not_or] at h01
    by_cases h2 : type = 2
    · rw [if_neg (not_or.mpr h01), if_pos h2, defined_removeLinks]
      exact ⟨fun h _ => h, fun h => h (Or.inr (Or.inr h2))⟩
    · simp [h01, h2, Defined]

/-- Each of its records decides its own calls. -/
theorem defined_accesses (msg : SyncFiles) :
    Defined (accesses msg) ↔ (Handled msg.type → ∀ m ∈ msg.metas, Splits m) := by
  have hrecords : Defined (accesses msg) ↔
      ∀ m ∈ msg.metas, Defined (syncMetaAccesses msg.type m) := by
    unfold Defined accesses
    simp only [List.mem_flatMap]
    constructor
    · intro h m hm a ha
      exact h a ⟨m, hm, ha⟩
    · intro h a ha
      obtain ⟨m, hm, ha⟩ := ha
      exact h m hm a ha
  rw [hrecords]
  constructor
  · intro h htype m hm
    exact defined_syncMeta.mp (h m hm) htype
  · intro h m hm
    exact defined_syncMeta.mpr fun htype => h htype m hm

/-- The messages the model gives a successor state are these. -/
theorem onSyncFiles_isSome_iff_defined (host : Host F) (s : State F) (msg : SyncFiles) :
    (onSyncFiles host s msg).isSome ↔ Defined (accesses msg) := by
  rw [onSyncFiles_isSome, defined_accesses, MessageSplits]

/-- **Front and back.** A message is gone through to its end, no call of it
applied to an empty list, exactly when every record with a package name and a
mime type has a character other than '/' in its mime type and one in its path. -/
theorem defined_accesses_iff (host : Host F) (s : State F) (msg : SyncFiles) :
    ((onSyncFiles host s msg).isSome ↔ Defined (accesses msg)) ∧
    (Defined (accesses msg) ↔ (Handled msg.type → ∀ m ∈ msg.metas, m.pkgName ≠ [] →
      m.mimeType ≠ [] → (∃ c ∈ m.mimeType, c ≠ '/') ∧ ∃ c ∈ m.path, c ≠ '/')) := by
  have hlinked : ∀ m, Splits m ↔ (m.pkgName ≠ [] → m.mimeType ≠ [] →
      (∃ c ∈ m.mimeType, c ≠ '/') ∧ ∃ c ∈ m.path, c ≠ '/') := by
    intro m
    simp only [Splits, linked, Bool.and_eq_true, decide_eq_true_eq, and_imp]
  refine ⟨onSyncFiles_isSome_iff_defined host s msg, ?_⟩
  simp only [defined_accesses, hlinked]

/-- An insertion whose mime type is a slash. -/
theorem slash_not_defined :
    ¬ Defined
      (accesses ⟨1, [⟨"/storage/emulated/0/a.jpg".toList, "/".toList, "a".toList⟩], 1⟩) := by
  decide

end KmreManager.ControlManager
