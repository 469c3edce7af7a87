import Mathlib.Algebra.Group.Nat.Defs
import Mathlib.Algebra.Group.Int.Defs
import KmreManager.Lib.Framing

/-! # `readNextEvent`

The kernel fills a buffer with whole events and the watcher hands them out one
by one, going back to the kernel when none is left. The positions are ints, the
lengths they are compared with are a `size_t`. -/
namespace KmreManager.FileInotifyWatcher
open KmreManager.Lib

/-- `sizeof(struct inotify_event)`. -/
def EVENT_SIZE : Nat := 16
def NAME_MAX : Nat := 255
def CURRENT_EVENT_SIZE : Nat := 16 * (EVENT_SIZE + NAME_MAX + 1)
def EVENT_BUFFER_SIZE : Nat := 64 * (EVENT_SIZE + NAME_MAX + 1)

/-- The conversion of an int to `size_t`. -/
def toSizeT (n : Int) : Nat := (n % 2 ^ 64).toNat

/-- The conversion of a `size_t` to int. -/
def toInt (n : Nat) : Int := Int.bmod n (2 ^ 32)

/-! ## Events as bytes -/

/-- `struct inotify_event` as the kernel writes it: `len` is the length of the
name with its padding. -/
structure InotifyEvent where
  wd : UInt32
  mask : UInt32
  cookie : UInt32
  name : List UInt8
  name_length : name.length ≤ NAME_MAX + 1
deriving DecidableEq

/-- A 32-bit field, low byte first. -/
def field (n : Nat) : List UInt8 :=
  [n.toUInt8, (n / 2 ^ 8).toUInt8, (n / 2 ^ 16).toUInt8, (n / 2 ^ 24).toUInt8]

/-- `e->len`. -/
def eventLen (bytes : List UInt8) : Nat :=
  (bytes.getD 12 0).toNat + 2 ^ 8 * (bytes.getD 13 0).toNat + 2 ^ 16 * (bytes.getD 14 0).toNat
    + 2 ^ 24 * (bytes.getD 15 0).toNat

def InotifyEvent.encode (e : InotifyEvent) : List UInt8 :=
  field e.wd.toNat ++ field e.mask.toNat ++ field e.cookie.toNat ++ field e.name.length ++ e.name

theorem InotifyEvent.encode_length (e : InotifyEvent) :
    e.encode.length = EVENT_SIZE + e.name.length := by
  simp [encode, field, EVENT_SIZE]
  omega

theorem eventLen_encode (e : InotifyEvent) (rest : List UInt8) :
    eventLen (e.encode ++ rest) = e.name.length := by
  have hlen := e.name_length
  simp [eventLen, InotifyEvent.encode, field, NAME_MAX] at hlen ⊢
  omega

/-- The kernel writes events one after another. -/
def events : Framing InotifyEvent UInt8 where
  encode := InotifyEvent.encode
  size bytes := EVENT_SIZE + eventLen bytes
  size_encode e rest := by rw [eventLen_encode, e.encode_length]
  encode_ne_nil e := by simp [InotifyEvent.encode, field]

/-! ## The reader -/

/-- One `memcpy` to `mCurrentEvent`: where it starts in `mEventBuffer`, how many
bytes it copies, and what was valid of the buffer. -/
structure Copy where
  position : Int
  size : Nat
  mTotalRead : Int
deriving DecidableEq

/-- The copy stays in the valid part of one buffer and inside the other. -/
def Copy.Within (c : Copy) : Prop :=
  0 ≤ c.position ∧ c.position + c.size ≤ c.mTotalRead ∧ c.mTotalRead ≤ EVENT_BUFFER_SIZE ∧
    c.size ≤ CURRENT_EVENT_SIZE

structure EventReader where
  mCurrentPosition : Int := 0
  mTotalRead : Int := 0
  mCurrentEvent : List UInt8 := List.replicate CURRENT_EVENT_SIZE 0
  mEventBuffer : List UInt8 := List.replicate EVENT_BUFFER_SIZE 0
  copies : List Copy := []

/-- What a call finds. -/
structure Call where
  mInitialized : Bool
  poll : Int
  /-- `none` for a read that fails -/
  read : Option (List UInt8)

/-- The kernel's side: a read that succeeds returns whole events, and at least one. -/
def Call.Kernel (c : Call) : Prop :=
  ∀ bytes, c.read = some bytes → 1 ≤ bytes.length ∧ bytes.length ≤ EVENT_BUFFER_SIZE ∧
    ∃ es, bytes = events.bytes es

/-- `memcpy` to the front of an array. -/
def overwrite (array bytes : List UInt8) : List UInt8 := bytes ++ array.drop bytes.length

/-- The event a pointer points to. -/
def eventAt (bytes : List UInt8) : List UInt8 := bytes.take (EVENT_SIZE + eventLen bytes)

namespace EventReader

/-- `readNextEvent` from the look at the buffer on. -/
def nextBuffered (s : EventReader) : EventReader × Option (List UInt8) :=
  let e := s.mEventBuffer.drop s.mCurrentPosition.toNat
  let size := EVENT_SIZE + eventLen e
  if toInt (toSizeT (toSizeT s.mCurrentPosition + size)) > s.mTotalRead then
    ({ s with mCurrentPosition := 0, mTotalRead := 0 }, none)
  else
    let s : EventReader := { s with
      mCurrentEvent := overwrite s.mCurrentEvent (e.take size)
      copies := s.copies ++ [⟨s.mCurrentPosition, size, s.mTotalRead⟩]
      mCurrentPosition := toInt (toSizeT (toSizeT s.mCurrentPosition + size)) }
    (s, some (eventAt s.mCurrentEvent))

def readNextEvent (s : EventReader) (c : Call) : EventReader × Option (List UInt8) :=
  if !c.mInitialized then (s, none)
  else if s.mCurrentPosition = s.mTotalRead then
    let s := { s with mTotalRead := 0, mCurrentPosition := 0 }
    if c.poll ≤ 0 then (s, none)
    else
      match c.read with
      | none => (s, none)
      | some bytes =>
        { s with
          mEventBuffer := overwrite s.mEventBuffer bytes
          mTotalRead := toInt bytes.length }.nextBuffered
  else s.nextBuffered

/-- Calls one after another. -/
def calls (s : EventReader) (cs : List Call) : EventReader :=
  cs.foldl (fun s c => (s.readNextEvent c).1) s

/-- The results of the calls that are not null. -/
def returned (s : EventReader) : List Call → List (List UInt8)
  | [] => []
  | c :: cs => (s.readNextEvent c).2.toList ++ returned (s.readNextEvent c).1 cs

/-- The call gets as far as `read`. -/
def Reads (s : EventReader) (c : Call) : Prop :=
  c.mInitialized = true ∧ s.mCurrentPosition = s.mTotalRead ∧ 0 < c.poll

instance (s : EventReader) (c : Call) : Decidable (s.Reads c) :=
  inferInstanceAs (Decidable (_ ∧ _ ∧ _))

/-- What `read` returns to the calls that get to it and where it succeeds. -/
def readBytes (s : EventReader) : List Call → List UInt8
  | [] => []
  | c :: cs =>
    (if s.Reads c then c.read.getD [] else []) ++ readBytes (s.readNextEvent c).1 cs

/-! ## What the buffer holds -/

/-- The valid part of the buffer from the position on is these events. -/
structure Buffered (s : EventReader) (pending : List InotifyEvent) : Prop where
  nonneg : 0 ≤ s.mCurrentPosition
  fits : s.mTotalRead ≤ EVENT_BUFFER_SIZE
  total : s.mTotalRead = s.mCurrentPosition + (events.bytes pending).length
  buffer : ∃ rest, s.mEventBuffer.drop s.mCurrentPosition.toNat = events.bytes pending ++ rest

variable {s t : EventReader} {c : Call} {e : InotifyEvent} {pending : List InotifyEvent}

theorem buffer_size : EVENT_BUFFER_SIZE = 17408 := by
  simp [EVENT_BUFFER_SIZE, EVENT_SIZE, NAME_MAX]

/-- Inside the buffer the sums of the bounds test do not wrap. -/
theorem advance {p : Int} {n : Nat} (hp : 0 ≤ p) (hn : p + n ≤ EVENT_BUFFER_SIZE) :
    toInt (toSizeT (toSizeT p + n)) = p + n := by
  have hsize := buffer_size
  have hposition : toSizeT p = p.toNat := by unfold toSizeT; omega
  have hsum : toSizeT (toSizeT p + n) = p.toNat + n := by rw [hposition]; unfold toSizeT; omega
  rw [hsum]
  unfold toInt
  rw [Int.bmod_eq_of_le (by omega) (by omega)]
  omega

theorem Buffered.length_le (h : s.Buffered pending) : s.mCurrentPosition ≤ s.mTotalRead := by
  have htotal := h.total
  omega

theorem Buffered.nil_iff (h : s.Buffered pending) :
    s.mCurrentPosition = s.mTotalRead ↔ pending = [] := by
  rw [h.total, ← events.bytes_eq_nil, ← List.length_eq_zero_iff]
  omega

theorem eventAt_overwrite (array : List UInt8) (e : InotifyEvent) :
    eventAt (overwrite array e.encode) = e.encode := by
  rw [eventAt, overwrite, eventLen_encode, ← e.encode_length, List.take_left]

/-- The reader once it has handed out `e`. -/
def handed (s : EventReader) (e : InotifyEvent) : EventReader :=
  { s with
    mCurrentEvent := overwrite s.mCurrentEvent e.encode
    copies := s.copies ++ [⟨s.mCurrentPosition, e.encode.length, s.mTotalRead⟩]
    mCurrentPosition := s.mCurrentPosition + e.encode.length }

/-- The first event of the buffer is copied and returned. -/
theorem Buffered.nextBuffered (h : s.Buffered (e :: pending)) :
    s.nextBuffered = (s.handed e, some e.encode) := by
  obtain ⟨rest, hbuffer⟩ := h.buffer
  have hfits := h.fits
  have htotal := h.total
  rw [events.bytes_cons, List.length_append, Int.natCast_add] at htotal
  have hsize : EVENT_SIZE + eventLen (s.mEventBuffer.drop s.mCurrentPosition.toNat)
      = e.encode.length := by
    rw [hbuffer]
    exact events.size_eq
  have htake : (s.mEventBuffer.drop s.mCurrentPosition.toNat).take e.encode.length = e.encode := by
    rw [hbuffer, events.bytes_cons, List.append_assoc]
    exact List.take_left
  have hle : s.mCurrentPosition + e.encode.length ≤ s.mTotalRead := by
    change s.mTotalRead = s.mCurrentPosition + (e.encode.length + _) at htotal
    omega
  have hadvance := advance h.nonneg (Int.le_trans hle hfits)
  simp only [EventReader.nextBuffered, hsize, htake, hadvance, eventAt_overwrite]
  rw [if_neg (Int.not_lt.mpr hle)]
  rfl

/-- The rest stays. -/
theorem Buffered.handed (h : s.Buffered (e :: pending)) : (s.handed e).Buffered pending := by
  obtain ⟨rest, hbuffer⟩ := h.buffer
  have htotal := h.total
  have hnonneg := h.nonneg
  rw [events.bytes_cons, List.length_append, Int.natCast_add] at htotal
  refine ⟨?_, h.fits, ?_, rest, ?_⟩
  · simp only [EventReader.handed]
    omega
  · simp only [EventReader.handed]
    rw [htotal, Int.add_assoc]
    rfl
  · have hdrop : (s.mCurrentPosition + e.encode.length).toNat
        = s.mCurrentPosition.toNat + e.encode.length := by omega
    simp only [EventReader.handed, hdrop]
    rw [← List.drop_drop, hbuffer, events.bytes_cons, List.append_assoc]
    exact List.drop_left

theorem Buffered.within (h : s.Buffered (e :: pending)) :
    (⟨s.mCurrentPosition, e.encode.length, s.mTotalRead⟩ : Copy).Within := by
  have htotal := h.total
  have hname := e.name_length
  rw [events.bytes_cons, List.length_append, Int.natCast_add] at htotal
  change s.mTotalRead = s.mCurrentPosition + (e.encode.length + _) at htotal
  refine ⟨h.nonneg, ?_, h.fits, ?_⟩
  · simp only
    omega
  · simp only [e.encode_length, CURRENT_EVENT_SIZE]
    omega

/-! ## One call -/

/-- The reader once `bytes` have been read into the buffer. -/
def filled (s : EventReader) (bytes : List UInt8) : EventReader :=
  { s with
    mCurrentPosition := 0
    mTotalRead := bytes.length
    mEventBuffer := overwrite s.mEventBuffer bytes }

theorem filled_buffered (s : EventReader) (h : (events.bytes pending).length ≤ EVENT_BUFFER_SIZE) :
    (s.filled (events.bytes pending)).Buffered pending := by
  exact ⟨Int.le_refl 0, Int.ofNat_le.mpr h, (Int.zero_add _).symm,
    s.mEventBuffer.drop (events.bytes pending).length, rfl⟩

/-- The reader without anything to hand out. -/
def emptied (s : EventReader) : EventReader := { s with mCurrentPosition := 0, mTotalRead := 0 }

theorem emptied_buffered (s : EventReader) : s.emptied.Buffered [] :=
  ⟨Int.le_refl 0, Int.natCast_nonneg _, rfl, s.mEventBuffer, rfl⟩

/-- **What a call does.** It hands out the first event of the buffer, after a
read if there is none. -/
theorem readNextEvent_cases (h : s.Buffered pending) (hc : c.Kernel) :
    (¬s.Reads c ∧ s.readNextEvent c = (s, none)) ∨
    (∃ e rest, pending = e :: rest ∧ ¬s.Reads c ∧ s.readNextEvent c = (s.handed e, some e.encode)) ∨
    (pending = [] ∧ (s.Reads c → c.read = none) ∧ s.readNextEvent c = (s.emptied, none)) ∨
    (pending = [] ∧ ∃ e rest, s.Reads c ∧ c.read = some (events.bytes (e :: rest)) ∧
      (s.filled (events.bytes (e :: rest))).Buffered (e :: rest) ∧
      s.readNextEvent c = ((s.filled (events.bytes (e :: rest))).handed e, some e.encode)) := by
  cases hinit : c.mInitialized with
  | false => exact .inl ⟨by simp [Reads, hinit], by simp [readNextEvent, hinit]⟩
  | true =>
    cases pending with
    | cons e rest =>
      have hbusy : s.mCurrentPosition ≠ s.mTotalRead := fun heq => by cases h.nil_iff.mp heq
      refine .inr (.inl ⟨e, rest, rfl, fun hreads => hbusy hreads.2.1, ?_⟩)
      simp [readNextEvent, hinit, hbusy, h.nextBuffered]
    | nil =>
      have hidle := h.nil_iff.mpr rfl
      by_cases hpoll : c.poll ≤ 0
      · refine .inr (.inr (.inl ⟨rfl, fun hreads => ?_, ?_⟩))
        · exact absurd hreads.2.2 (Int.not_lt.mpr hpoll)
        · simp [readNextEvent, hinit, hidle, hpoll, emptied]
      · have hreads : s.Reads c := ⟨hinit, hidle, Int.not_le.mp hpoll⟩
        cases hread : c.read with
        | none =>
          refine .inr (.inr (.inl ⟨rfl, fun _ => rfl, ?_⟩))
          simp [readNextEvent, hinit, hidle, hread, emptied]
        | some bytes =>
          obtain ⟨hpos, hfits, es, rfl⟩ := hc bytes hread
          obtain ⟨e, rest, rfl⟩ := List.exists_cons_of_ne_nil
            (fun hnil : es = [] => by simp [hnil] at hpos)
          have hfilled := s.filled_buffered hfits
          have htotal : toInt (events.bytes (e :: rest)).length
              = (events.bytes (e :: rest)).length := by
            have hsize := buffer_size
            unfold toInt
            rw [Int.bmod_eq_of_le (by omega) (by omega)]
          refine .inr (.inr (.inr ⟨rfl, e, rest, hreads, rfl, hfilled, ?_⟩))
          rw [← hfilled.nextBuffered]
          simp only [readNextEvent, hinit, hidle, hpoll, hread, htotal, filled, Bool.not_true,
            Bool.false_eq_true, if_false, if_true]

/-! ## Any sequence of calls -/

/-- The buffer holds these events, and no copy has left it. -/
structure Framed (s : EventReader) (pending : List InotifyEvent) : Prop where
  buffered : s.Buffered pending
  within : ∀ copy ∈ s.copies, copy.Within

theorem Framed.constructed : Framed {} [] :=
  ⟨⟨Int.le_refl 0, Int.natCast_nonneg _, rfl, _, rfl⟩, by simp⟩

theorem Framed.handed (h : s.Framed (e :: pending)) : (s.handed e).Framed pending := by
  refine ⟨h.buffered.handed, ?_⟩
  exact List.forall_mem_append.mpr ⟨h.within, List.forall_mem_singleton.mpr h.buffered.within⟩

/-- What the buffer holds and the call reads is what the call returns and the
buffer holds then. -/
theorem Framed.readNextEvent (h : s.Framed pending) (hc : c.Kernel) :
    ∃ delivered pending', (s.readNextEvent c).1.Framed pending' ∧
      (s.readNextEvent c).2.toList = delivered.map InotifyEvent.encode ∧
      events.bytes pending ++ (if s.Reads c then c.read.getD [] else [])
        = events.bytes (delivered ++ pending') := by
  obtain ⟨hreads, hcall⟩ | ⟨e, rest, rfl, hreads, hcall⟩ | ⟨rfl, hread, hcall⟩ |
    ⟨rfl, e, rest, hreads, hread, hfilled, hcall⟩ := readNextEvent_cases h.buffered hc
  · rw [hcall, if_neg hreads]
    exact ⟨[], pending, h, rfl, by simp⟩
  · rw [hcall, if_neg hreads]
    exact ⟨[e], rest, h.handed, rfl, by simp⟩
  · rw [hcall]
    refine ⟨[], [], ⟨s.emptied_buffered, h.within⟩, rfl, ?_⟩
    split
    · rename_i hreads
      simp [hread hreads]
    · rfl
  · rw [hcall, if_pos hreads, hread]
    have hframed : (s.filled (events.bytes (e :: rest))).Framed (e :: rest) := ⟨hfilled, h.within⟩
    exact ⟨[e], rest, hframed.handed, rfl, by simp⟩

/-- The same for calls one after another. -/
theorem Framed.calls {cs : List Call} (h : s.Framed pending) (hcs : ∀ c ∈ cs, c.Kernel) :
    ∃ delivered pending', (s.calls cs).Framed pending' ∧
      s.returned cs = delivered.map InotifyEvent.encode ∧
      events.bytes pending ++ s.readBytes cs = events.bytes (delivered ++ pending') := by
  induction cs generalizing s pending with
  | nil => exact ⟨[], pending, h, rfl, by simp [readBytes]⟩
  | cons c cs ih =>
    obtain ⟨hc, hcs⟩ := List.forall_mem_cons.mp hcs
    obtain ⟨first, between, hstep, hfirst, hread⟩ := h.readNextEvent hc
    obtain ⟨later, left, hlast, hlater, hrest⟩ := ih hstep hcs
    refine ⟨first ++ later, left, hlast, ?_, ?_⟩
    · rw [returned, hfirst, hlater, List.map_append]
    · rw [events.bytes_append] at hread hrest ⊢
      rw [readBytes, ← List.append_assoc, hread, List.append_assoc, hrest, events.bytes_append,
        List.append_assoc]

theorem returned_append (cs more : List Call) :
    s.returned (cs ++ more) = s.returned cs ++ (s.calls cs).returned more := by
  induction cs generalizing s with
  | nil => rfl
  | cons c cs ih =>
    simp only [List.cons_append, returned, ih, List.append_assoc]
    rfl

theorem readBytes_append (cs more : List Call) :
    s.readBytes (cs ++ more) = s.readBytes cs ++ (s.calls cs).readBytes more := by
  induction cs generalizing s with
  | nil => rfl
  | cons c cs ih =>
    simp only [List.cons_append, readBytes, ih, List.append_assoc]
    rfl

/-- As many more calls as there are events in the buffer return them all and
read nothing, whatever the kernel answers. -/
theorem Framed.drain {more : List Call} (h : s.Framed pending)
    (hmore : ∀ c ∈ more, c.mInitialized = true) (hlen : more.length = pending.length) :
    s.returned more = pending.map InotifyEvent.encode ∧ s.readBytes more = [] := by
  induction pending generalizing s more with
  | nil =>
    rw [List.length_nil, List.length_eq_zero_iff] at hlen
    subst hlen
    exact ⟨rfl, rfl⟩
  | cons e pending ih =>
    obtain ⟨c, more, rfl⟩ := List.exists_cons_of_length_eq_add_one hlen
    obtain ⟨hc, hmore⟩ := List.forall_mem_cons.mp hmore
    have hbusy : s.mCurrentPosition ≠ s.mTotalRead := fun heq => by
      cases h.buffered.nil_iff.mp heq
    have hreads : ¬s.Reads c := fun hreads => hbusy hreads.2.1
    have hcall : s.readNextEvent c = (s.handed e, some e.encode) := by
      simp [EventReader.readNextEvent, hc, hbusy, h.buffered.nextBuffered]
    obtain ⟨hall, hread⟩ := ih h.handed hmore (by simpa using hlen)
    rw [returned, readBytes, hcall, if_neg hreads, hall, hread]
    exact ⟨rfl, rfl⟩

/-- The results of the calls and the events left in the buffer are the events of
all reads, in order; as many more calls as there are left return them one by
one; and the positions and the copies stay in bounds. -/
def Delivers (cs : List Call) : Prop :=
  ∃ delivered pending : List InotifyEvent,
    readBytes {} cs = events.bytes (delivered ++ pending) ∧
    returned {} cs = delivered.map InotifyEvent.encode ∧
    ((calls {} cs).mCurrentPosition = (calls {} cs).mTotalRead ↔ pending = []) ∧
    (∀ more, (∀ c ∈ more, c.mInitialized = true) → more.length = pending.length →
      returned {} (cs ++ more) = (delivered ++ pending).map InotifyEvent.encode ∧
      readBytes {} (cs ++ more) = readBytes {} cs) ∧
    0 ≤ (calls {} cs).mCurrentPosition ∧
    (calls {} cs).mCurrentPosition ≤ (calls {} cs).mTotalRead ∧
    (calls {} cs).mTotalRead ≤ EVENT_BUFFER_SIZE ∧
    ∀ copy ∈ (calls {} cs).copies, copy.Within

/-- **The framing of events.** -/
theorem readNextEvent_framing (cs : List Call) (hcs : ∀ c ∈ cs, c.Kernel) : Delivers cs := by
  obtain ⟨delivered, pending, h, hreturned, hread⟩ := Framed.constructed.calls hcs
  refine ⟨delivered, pending, hread, hreturned, h.buffered.nil_iff, ?_, h.buffered.nonneg,
    h.buffered.length_le, h.buffered.fits, h.within⟩
  intro more hmore hlen
  obtain ⟨hall, hnone⟩ := h.drain hmore hlen
  rw [returned_append, readBytes_append, hreturned, hall, hnone, List.map_append, List.append_nil]
  exact ⟨rfl, rfl⟩

/-- A file called "a" is created and written. -/
def writtenFile : List InotifyEvent :=
  [⟨1, 0x100, 0, [97, 0, 0, 0], by decide⟩, ⟨1, 0x8, 0, [97, 0, 0, 0], by decide⟩]

/-- A timeout, a read that fails, two events in one read, and a timeout between
the calls that return them. -/
def writtenFileCalls : List Call :=
  [⟨true, 0, none⟩, ⟨true, 1, none⟩, ⟨true, 1, some (events.bytes writtenFile)⟩, ⟨true, 0, none⟩]

theorem writtenFile_framing : Delivers writtenFileCalls := by
  refine readNextEvent_framing writtenFileCalls ?_
  have hread : (⟨true, 1, some (events.bytes writtenFile)⟩ : Call).Kernel := by
    rintro bytes ⟨⟩
    exact ⟨by decide, by decide, writtenFile, rfl⟩
  simpa [writtenFileCalls, Call.Kernel] using hread

end EventReader
end KmreManager.FileInotifyWatcher
