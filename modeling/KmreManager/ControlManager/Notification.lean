import KmreManager.ControlManager.Dump

/-! # Notifications

When `filesMessage` should be emitted, told from the messages alone, against
when the loop of `onSyncFiles` emits it. The loop emits once for each record
of an update and of a message that reaches the size of its dump, each time
with what the lists hold at that record. -/
namespace KmreManager.ControlManager
open KmreManager.Lib.Runs
open KmreManager.HostTree (kylinHost started photo clip)

variable {F : Type} {host : Host F}

/-! ## Rounds, seen from outside -/

/-- The dump in progress: the size its messages carry and the records received. -/
structure Round where
  totalNum : Int32
  received : Nat
  deriving DecidableEq, Repr

namespace Round

/-- No dump in progress. -/
def idle : Round := ⟨0, 0⟩

/-- The records received with this message. One that carries another size, or
too many records, begins a round of its own. -/
def receivedWith (round : Round) (msg : SyncFiles) : Nat :=
  if round.totalNum = msg.totalNum ∧
      (round.received : Int) + msg.metas.length ≤ msg.totalNum.toInt then
    round.received + msg.metas.length
  else msg.metas.length

/-- The message brings the records of its round to the size they carry. -/
def Completes (round : Round) (msg : SyncFiles) : Prop :=
  msg.type = 0 ∧ (round.receivedWith msg : Int) = msg.totalNum.toInt

def next (round : Round) (msg : SyncFiles) : Round :=
  if msg.type = 0 then
    if (round.receivedWith msg : Int) < msg.totalNum.toInt then
      ⟨msg.totalNum, round.receivedWith msg⟩
    else idle
  else round

/-- The message is owed one notification. -/
def Due (round : Round) (msg : SyncFiles) : Prop :=
  (msg.type = 1 ∨ msg.type = 2) ∧ msg.metas ≠ [] ∨ round.Completes msg

/-- The message continues the round in progress, or none is in progress. -/
def Continues (round : Round) (msg : SyncFiles) : Prop :=
  msg.type = 0 → (round.received = 0 ∨ round.totalNum = msg.totalNum) ∧
    (round.received : Int) + msg.metas.length ≤ msg.totalNum.toInt

instance (round : Round) (msg : SyncFiles) : Decidable (round.Completes msg) :=
  inferInstanceAs (Decidable (_ ∧ _))

instance (round : Round) (msg : SyncFiles) : Decidable (round.Due msg) :=
  inferInstanceAs (Decidable (_ ∨ _))

instance (round : Round) (msg : SyncFiles) : Decidable (round.Continues msg) :=
  inferInstanceAs (Decidable (_ → _))

end Round

/-- The manager and an observer who counts rounds. -/
def observe (host : Host F) (o : Round × State F) (msg : SyncFiles) : Option (Round × State F) :=
  (onSyncFiles host o.2 msg).map fun s => (o.1.next msg, s)

theorem observe_some {o o' : Round × State F} {msg : SyncFiles} :
    observe host o msg = some o' ↔
      o'.1 = o.1.next msg ∧ onSyncFiles host o.2 msg = some o'.2 := by
  obtain ⟨round, s⟩ := o'
  simp only [observe, Option.map_eq_some_iff, Prod.mk.injEq]
  constructor
  · rintro ⟨t, ht, rfl, rfl⟩
    exact ⟨rfl, ht⟩
  · rintro ⟨rfl, ht⟩
    exact ⟨s, ht, rfl, rfl⟩

/-- The message is handled, and `filesMessage` is emitted once, with the lists
as they are after all of its records, or not at all, as is due. -/
def NotifiesOnce (host : Host F) (o : Round × State F) (msg : SyncFiles) : Prop :=
  ∃ s', onSyncFiles host o.2 msg = some s' ∧
    s'.filesMessage = o.2.filesMessage ++
      if o.1.Due msg then [⟨msg.type, msg.metas, s'.lists⟩] else []

/-! ## When the loop does what is due -/

/-- No more than one record in an update; exactly one in the message that ends
a round, and the count reaches the size with it; and no other message of a dump
that carries records makes the count reach its size. -/
def SingleRecord (o : Round × State F) (msg : SyncFiles) : Prop :=
  MessageSplits msg ∧ (msg.type = 1 ∨ msg.type = 2 → msg.metas.length ≤ 1) ∧
    (o.1.Completes msg → msg.metas.length = 1 ∧ msg.totalNum ≤ o.2.mCurrentNum + 1) ∧
    (msg.type = 0 → ¬ o.1.Completes msg → msg.metas ≠ [] →
      o.2.mCurrentNum + Int32.ofNat msg.metas.length < msg.totalNum)

instance (o : Round × State F) (msg : SyncFiles) : Decidable (SingleRecord o msg) :=
  inferInstanceAs (Decidable (_ ∧ _))

theorem emits_receive_zero {s : State F} {msg : SyncFiles} (h : msg.type = 0) :
    Emits (receive s msg) msg ↔ msg.totalNum ≤ s.mCurrentNum + Int32.ofNat msg.metas.length := by
  simp [Emits, receive, h]

/-- The signal of a message with one record. -/
theorem filesMessage_single {s s' : State F} {msg : SyncFiles}
    (h : onSyncFiles host s msg = some s') (hlen : msg.metas.length = 1)
    (he : Emits (receive s msg) msg) :
    s'.filesMessage = s.filesMessage ++ [⟨msg.type, msg.metas, s'.lists⟩] := by
  obtain ⟨m, hm⟩ := List.length_eq_one_iff.mp hlen
  rw [onSyncFiles, hm] at h
  obtain ⟨t, ht, hnil⟩ := run_cons_some.mp h
  cases hnil
  obtain ⟨files, _, rfl⟩ := syncMeta_some.mp ht
  have hkeep : (receive s msg).filesMessage = s.filesMessage := by
    unfold receive
    split <;> rfl
  rw [← hkeep]
  simp only [applyMeta, if_pos he, hm]

/-- Once and in time means: as many signals as are due, and never more than
the one of a single record. -/
theorem notifiesOnce_iff_emits {o : Round × State F} {msg : SyncFiles} :
    NotifiesOnce host o msg ↔ MessageSplits msg ∧
      (o.1.Due msg → msg.metas.length = 1 ∧ Emits (receive o.2 msg) msg) ∧
      (¬ o.1.Due msg → msg.metas ≠ [] → ¬ Emits (receive o.2 msg) msg) := by
  rw [← onSyncFiles_isSome host o.2, Option.isSome_iff_exists]
  constructor
  · rintro ⟨s', hs', hsent⟩
    obtain ⟨sent, hsent', hlen⟩ := onSyncFiles_filesMessage hs'
    rw [hsent', List.append_cancel_left_eq] at hsent
    refine ⟨⟨s', hs'⟩, fun hd => ?_, fun hd hne he => ?_⟩
    · rw [hsent, if_pos hd, List.length_singleton] at hlen
      by_cases he : Emits (receive o.2 msg) msg
      · rw [if_pos he] at hlen
        exact ⟨hlen.symm, he⟩
      · rw [if_neg he] at hlen
        cases hlen
    · rw [hsent, if_neg hd, if_pos he] at hlen
      exact hne (List.length_eq_zero_iff.mp hlen.symm)
  · rintro ⟨⟨s', hs'⟩, hdue, hidle⟩
    refine ⟨s', hs', ?_⟩
    by_cases hd : o.1.Due msg
    · rw [if_pos hd]
      exact filesMessage_single hs' (hdue hd).1 (hdue hd).2
    · obtain ⟨sent, hsent, hlen⟩ := onSyncFiles_filesMessage hs'
      have hnone : sent.length = 0 := by
        rw [hlen]
        by_cases hne : msg.metas = []
        · rw [hne]
          exact ite_self 0
        · exact if_neg (hidle hd hne)
      rw [if_neg hd, hsent, List.length_eq_zero_iff.mp hnone]

theorem notifiesOnce_iff {o : Round × State F} {msg : SyncFiles} :
    NotifiesOnce host o msg ↔ SingleRecord o msg := by
  rw [notifiesOnce_iff_emits, SingleRecord]
  refine and_congr_right fun _ => ?_
  by_cases h0 : msg.type = 0
  · -- a part of a dump: a signal is due when the round completes
    have h12 : ¬ (msg.type = 1 ∨ msg.type = 2) := by rw [h0]; decide
    have hdue : o.1.Due msg ↔ o.1.Completes msg := or_iff_right fun h => h12 h.1
    rw [hdue, emits_receive_zero h0]
    constructor
    · rintro ⟨hd, hi⟩
      refine ⟨fun h => absurd h h12, fun hc => ?_, fun _ hc hne => Int32.not_le.mp (hi hc hne)⟩
      obtain ⟨hlen, he⟩ := hd hc
      rw [hlen] at he
      exact ⟨hlen, he⟩
    · rintro ⟨_, hd, hi⟩
      refine ⟨fun hc => ?_, fun hc hne => Int32.not_le.mpr (hi h0 hc hne)⟩
      obtain ⟨hlen, he⟩ := hd hc
      rw [hlen]
      exact ⟨rfl, he⟩
  · have hc : ¬ o.1.Completes msg := fun h => h0 h.1
    by_cases h12 : msg.type = 1 ∨ msg.type = 2
    · -- an update: one signal for each record
      have he : Emits (receive o.2 msg) msg := h12.imp_right Or.inl
      have hdue : o.1.Due msg ↔ msg.metas ≠ [] := by simp [Round.Due, h12, hc]
      rw [hdue]
      constructor
      · rintro ⟨hd, _⟩
        refine ⟨fun _ => ?_, fun h => absurd h hc, fun h => absurd h h0⟩
        by_cases hne : msg.metas = []
        · simp [hne]
        · exact (hd hne).1.le
      · rintro ⟨hle, _⟩
        exact ⟨fun hne => ⟨Nat.le_antisymm (hle h12) (List.length_pos_iff.mpr hne), he⟩,
          fun hn hne => absurd hne hn⟩
    · -- a message the loop ignores
      have hdue : ¬ o.1.Due msg := fun h => h.elim (fun h => h12 h.1) hc
      have he : ¬ Emits (receive o.2 msg) msg := by
        rw [not_or] at h12
        simp [Emits, h0, h12.1, h12.2]
      exact iff_of_true ⟨fun h => absurd h hdue, fun _ _ => he⟩
        ⟨fun h => absurd h h12, fun h => absurd h hc, fun h => absurd h h0⟩

/-- **When each notification is sent once and in time.** Along a run, every
update with records and every completed round is announced exactly once, after
all of its records are in the lists, exactly when every message of the run is
one the loop gets right by having a single record where a signal is due. -/
theorem notified_once_iff (host : Host F) (s : State F) (msgs : List SyncFiles) :
    Guarded (observe host) (NotifiesOnce host) (Round.idle, s) msgs ↔
      Guarded (observe host) SingleRecord (Round.idle, s) msgs :=
  Guarded.congr (fun _ => True) (fun _ _ => True) (fun _ _ _ _ => notifiesOnce_iff)
    (fun _ _ _ _ _ _ _ => trivial) trivial (Guarded.of_forall (fun _ _ => trivial) _ _)

/-- Two inserted records in one message are announced twice, first when the
clip is not in its list yet. -/
theorem insert_of_two_notifies_twice :
    ¬ Guarded (observe kylinHost) (NotifiesOnce kylinHost) (Round.idle, started fun _ => none)
        [⟨1, [photo, clip], 2⟩] ∧
      ∃ s', onSyncFiles kylinHost (started fun _ => none) ⟨1, [photo, clip], 2⟩ = some s' ∧
        s'.filesMessage = [⟨1, [photo, clip], { mImageMetas := [photo] }⟩,
          ⟨1, [photo, clip], { mImageMetas := [photo], mVideoMetas := [clip] }⟩] := by
  have hsent : ∃ s', onSyncFiles kylinHost (started fun _ => none) ⟨1, [photo, clip], 2⟩ = some s' ∧
      s'.filesMessage = [⟨1, [photo, clip], { mImageMetas := [photo] }⟩,
        ⟨1, [photo, clip], { mImageMetas := [photo], mVideoMetas := [clip] }⟩] :=
    ⟨_, rfl, by decide⟩
  refine ⟨?_, hsent⟩
  rintro ⟨⟨s', hs', hone⟩, _⟩
  obtain ⟨t, ht, htwo⟩ := hsent
  obtain rfl : s' = t := Option.some.inj (hs'.symm.trans ht)
  rw [htwo] at hone
  have hlen := congrArg List.length hone
  rw [List.length_append, if_pos (by decide)] at hlen
  cases hlen

/-! ## Runs in which no dump is broken off -/

/-- The count of the manager is that of the observer. -/
structure Counts (o : Round × State F) : Prop where
  currentNum : o.2.mCurrentNum.toInt = o.1.received
  unfinished : o.1.received = 0 ∨ (o.1.received : Int) < o.1.totalNum.toInt

theorem receivedWith_of_continues {round : Round} {msg : SyncFiles} (h0 : msg.type = 0)
    (h : round.Continues msg) : round.receivedWith msg = round.received + msg.metas.length := by
  obtain ⟨hround, hle⟩ := h h0
  unfold Round.receivedWith
  rcases hround with hzero | hsame
  · simp [hzero]
  · rw [if_pos ⟨hsame, hle⟩]

theorem Counts.observe {o o' : Round × State F} {msg : SyncFiles} (hc : Counts o)
    (h : o.1.Continues msg) (hstep : observe host o msg = some o') : Counts o' := by
  obtain ⟨hround, hmsg⟩ := observe_some.mp hstep
  by_cases h0 : msg.type = 0
  · have hrec := receivedWith_of_continues h0 h
    have hle := (h h0).2
    have hhi := msg.totalNum.toInt_lt
    have hcur := hc.currentNum
    have hdump : onSyncFiles host o.2 ⟨0, msg.metas, msg.totalNum⟩ = some o'.2 := by
      rw [← h0]
      exact hmsg
    rw [Round.next, if_pos h0, hrec, Int.natCast_add] at hround
    by_cases hlt : (o.1.received : Int) + msg.metas.length < msg.totalNum.toInt
    · rw [if_pos hlt] at hround
      refine ⟨?_, Or.inr ?_⟩
      · rw [dump_short hdump (by omega) (by omega), hround, hcur, Int.natCast_add]
      · rw [hround]
        dsimp only
        omega
    · rw [if_neg hlt] at hround
      refine ⟨?_, Or.inl (by rw [hround]; rfl)⟩
      rw [hround]
      by_cases hne : msg.metas = []
      · -- an empty message ends a round only if the round is empty
        have hlen : msg.metas.length = 0 := by rw [hne]; rfl
        have hzero : o.1.received = 0 := by
          rcases hc.unfinished with hz | hlt'
          · exact hz
          · rcases (h h0).1 with hz | hsame
            · exact hz
            · rw [hsame] at hlt'
              omega
        have hcount := onSyncFiles_counters hmsg
        simp only [counters, h0, if_true, hne, ne_eq, not_true, false_and, if_false,
          Prod.mk.injEq] at hcount
        rw [hcount.2, List.length_nil]
        show (o.2.mCurrentNum + 0).toInt = _
        rw [Int32.add_zero, hcur, hzero]
        rfl
      · rw [(dump_full hdump hne (by omega) (by omega) (by omega)).2]
        rfl
  · have hcount := onSyncFiles_counters hmsg
    rw [counters, if_neg h0, Prod.mk.injEq] at hcount
    have hnext : o'.1 = o.1 := by rw [hround, Round.next, if_neg h0]
    exact ⟨by rw [hcount.2, hnext, hc.currentNum], by rw [hnext]; exact hc.unfinished⟩

/-- Where the counts agree, one record in each message that is owed a signal
is all it takes. -/
theorem singleRecord_of_counts {o : Round × State F} {msg : SyncFiles} (hc : Counts o)
    (h : o.1.Continues msg) :
    SingleRecord o msg ↔ MessageSplits msg ∧ (o.1.Due msg → msg.metas.length = 1) := by
  refine and_congr_right fun _ => ?_
  have hcount : msg.type = 0 → (o.2.mCurrentNum + Int32.ofNat msg.metas.length).toInt =
      o.1.receivedWith msg := by
    intro h0
    have hhi := msg.totalNum.toInt_lt
    have hle := (h h0).2
    have hcur := hc.currentNum
    rw [toInt_add_length _ (by omega), if_pos (by omega), hcur, receivedWith_of_continues h0 h]
    rfl
  constructor
  · rintro ⟨hone, hcomplete, _⟩ (⟨h12, hne⟩ | hcompletes)
    · exact Nat.le_antisymm (hone h12) (List.length_pos_iff.mpr hne)
    · exact (hcomplete hcompletes).1
  · intro hdue
    refine ⟨fun h12 => ?_, fun hcompletes => ?_, fun h0 hcompletes _ => ?_⟩
    · by_cases hne : msg.metas = []
      · simp [hne]
      · exact (hdue (Or.inl ⟨h12, hne⟩)).le
    · have hlen := hdue (Or.inr hcompletes)
      have hsum := hcount hcompletes.1
      rw [hlen] at hsum
      refine ⟨hlen, Int32.le_iff_toInt_le.mpr ?_⟩
      exact Int.le_of_eq (hcompletes.2.symm.trans hsum.symm)
    · have hle := (h h0).2
      have hne : (o.1.receivedWith msg : Int) ≠ msg.totalNum.toInt := fun he => hcompletes ⟨h0, he⟩
      have hrec := receivedWith_of_continues h0 h
      rw [Int32.lt_iff_toInt_lt, hcount h0]
      omega

/-- As long as no dump is broken off, a run that starts between two dumps is
announced as it should be exactly when each message that is owed a signal has a
single record. -/
theorem notified_once_unbroken (host : Host F) (s : State F) (hs : s.mCurrentNum = 0)
    (msgs : List SyncFiles)
    (hunbroken : Guarded (observe host) (fun o msg => o.1.Continues msg) (Round.idle, s) msgs) :
    Guarded (observe host) (NotifiesOnce host) (Round.idle, s) msgs ↔
      Guarded (observe host)
        (fun o msg => MessageSplits msg ∧ (o.1.Due msg → msg.metas.length = 1))
        (Round.idle, s) msgs :=
  Guarded.congr Counts (fun o msg => o.1.Continues msg)
    (fun _ _ hc h => notifiesOnce_iff.trans (singleRecord_of_counts hc h))
    (fun _ _ _ hc h _ hstep => hc.observe h hstep)
    ⟨toInt_eq_zero.mpr hs, Or.inl rfl⟩ hunbroken

end KmreManager.ControlManager
