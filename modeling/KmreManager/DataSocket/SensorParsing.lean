import Mathlib.Algebra.Group.Nat.Defs
import KmreManager.DataSocket.FrameAssembly

/-! # Reading sensor frames back

A client finds the sample between `acceleration:` and `sync:`, the time after
that. What it finds is the sample that was sent as long as 24 bytes hold it. -/
namespace KmreManager.DataSocket

/-! ## Cutting a text at a word -/

/-- The text before the first `word`, and after it. -/
def cut (word : QString) : QString → Option (QString × QString)
  | [] => if word = [] then some ([], []) else none
  | c :: s =>
    if word.isPrefixOf (c :: s) then some ([], (c :: s).drop word.length)
    else (cut word s).map fun parts => (c :: parts.1, parts.2)

section Cut

variable {before word after : QString} {c : Char}

theorem cut_append (h : ¬ word <:+: before ++ word.dropLast) :
    cut word (before ++ (word ++ after)) = some (before, after) := by
  have hword : word ≠ [] := by
    rintro rfl
    exact h List.nil_infix
  induction before with
  | nil =>
    obtain ⟨d, rest, rfl⟩ := List.exists_cons_of_ne_nil hword
    simp [cut]
  | cons d before ih =>
    have hlater : ¬ word.isPrefixOf (d :: (before ++ (word ++ after))) = true := by
      intro hpre
      refine h (List.IsPrefix.isInfix ?_)
      refine List.prefix_of_prefix_length_le (List.isPrefixOf_iff_prefix.mp hpre)
        ⟨word.drop (word.length - 1) ++ after, ?_⟩ ?_
      · rw [List.dropLast_eq_take, List.append_assoc, ← List.append_assoc (word.take _),
          List.take_append_drop]
        rfl
      · simp
        omega
    rw [List.cons_append, cut, if_neg hlater,
      ih fun hin => h (hin.trans (List.suffix_cons d _).isInfix)]
    rfl

/-- A word whose last letter is no other of its letters overlaps no part of itself. -/
theorem not_infix_append_dropLast (hc : c ∉ word) (h : ¬ word ++ [c] <:+: before) :
    ¬ word ++ [c] <:+: before ++ word := by
  intro ⟨left, right, hsplit⟩
  rcases List.append_eq_append_iff.mp hsplit with ⟨rest, hrest, -⟩ | ⟨rest, hrest, hword⟩
  · exact h ⟨left, rest, hrest.symm⟩
  · rcases List.eq_nil_or_concat rest with rfl | ⟨start, d, rfl⟩
    · rw [List.append_nil] at hrest
      exact h ⟨left, [], by rw [List.append_nil, hrest]⟩
    · have hlast : c = d := by
        have := congrArg List.getLast? hrest
        simpa using this
      subst hlast
      exact hc (hword ▸ by simp)

end Cut

/-- `QString::fromLatin1`. -/
def fromLatin1 (bytes : List UInt8) : QString := bytes.map fun b => Char.ofNat b.toNat

theorem fromLatin1_toLatin1 {s : QString} (h : ∀ c ∈ s, c.toNat ≤ 0xFF) :
    fromLatin1 (toLatin1 s) = s := by
  induction s with
  | nil => rfl
  | cons c s ih =>
    obtain ⟨hc, hs⟩ := List.forall_mem_cons.mp h
    have hcons : toLatin1 (c :: s) = c.toNat.toUInt8 :: toLatin1 s := by
      simp [toLatin1, hc]
    have hbyte : c.toNat.toUInt8.toNat = c.toNat := by
      simp
      omega
    rw [hcons, fromLatin1, List.map_cons, hbyte, Char.ofNat_toNat, ← fromLatin1, ih hs]

namespace SensordataGet

/-! ## The client's side -/

/-- What stands before the null bytes that fill up a frame. -/
def text (f : Frame) : Option QString :=
  let bytes := f.takeWhile (· ≠ 0)
  let fill := f.drop bytes.length
  if fill ≠ [] ∧ fill.all (· = 0) then some (fromLatin1 bytes) else none

/-- A decimal number. -/
def number (s : QString) : Option Nat :=
  if s ≠ [] ∧ s.all Char.isDigit then some (Nat.ofDigitChars 10 s 0) else none

/-- The sample and the time that a frame tells. -/
def parse (f : Frame) : Option (QString × Nat) := do
  let s ← text f
  if (literal "acceleration:").isPrefixOf s then
    let (data, time) ← cut (literal "sync:") (s.drop 13)
    return (data, ← number time)
  else none

/-- A sample that can be told from what surrounds it in a frame. -/
structure Sample (data : QString) : Prop where
  latin1 : ∀ c ∈ data, c.toNat ≤ 0xFF
  nonnull : ∀ c ∈ data, c.toNat ≠ 0
  unsynced : ¬ literal "sync:" <:+: data

/-- The frame has room for a sample, the time and the terminator of the text. -/
def Fits (data : QString) (t : Nat) : Prop :=
  13 + data.length + 5 + (Nat.toDigits 10 t).length + 1 ≤ frameSize

instance (data : QString) (t : Nat) : Decidable (Fits data t) :=
  inferInstanceAs (Decidable (_ ≤ _))

/-- The text that is to reach the client. -/
def message (data : QString) (t : Nat) : QString :=
  literal "acceleration:" ++ (data ++ (literal "sync:" ++ Nat.toDigits 10 t))

/-- The client finds what was sent, and finds no other sample sent at that time
in the same frame. -/
structure RoundTrips (data : QString) (t : Nat) : Prop where
  parsed : ∀ m, m.timeT = t → parse (frame data m) = some (data, t)
  distinct : ∀ (other : QString) (m m' : Surroundings), Sample other → Fits other t →
    m.timeT = t → m'.timeT = t → frame data m = frame other m' → data = other

variable {data other : QString} {m m' : Surroundings} {t : Nat}

theorem Sample.of_all (hall : data.all fun c => c.toNat ≤ 0xFF && c.toNat ≠ 0)
    (h : ¬ literal "sync:" <:+: data) : Sample data := by
  have hchars : ∀ c ∈ data, c.toNat ≤ 0xFF ∧ c.toNat ≠ 0 := by
    intro c hc
    simpa using List.all_eq_true.mp hall c hc
  exact ⟨fun c hc => (hchars c hc).1, fun c hc => (hchars c hc).2, h⟩

theorem message_latin1 (hsample : Sample data) : ∀ c ∈ message data t, c.toNat ≤ 0xFF := by
  have hstart : (literal "acceleration:").all fun c => c.toNat ≤ 0xFF := by decide
  have hsync : (literal "sync:").all fun c => c.toNat ≤ 0xFF := by decide
  intro c hc
  simp only [message, List.mem_append] at hc
  rcases hc with hc | hc | hc | hc
  · exact of_decide_eq_true (List.all_eq_true.mp hstart c hc)
  · exact hsample.latin1 c hc
  · exact of_decide_eq_true (List.all_eq_true.mp hsync c hc)
  · exact (digits_bounds hc).2.trans (by decide)

theorem message_length (data : QString) (t : Nat) :
    (message data t).length = 13 + data.length + 5 + (Nat.toDigits 10 t).length := by
  have hstart : (literal "acceleration:").length = 13 := rfl
  have hsync : (literal "sync:").length = 5 := rfl
  rw [message, List.length_append, List.length_append, List.length_append, hstart, hsync]
  omega

theorem number_toDigits (t : Nat) : number (Nat.toDigits 10 t) = some t := by
  have hdigits : (Nat.toDigits 10 t).all Char.isDigit = true := by
    simpa using fun c hc => Nat.isDigit_of_mem_toDigits (by decide) (by decide) hc
  rw [number, if_pos ⟨Nat.toDigits_ne_nil, hdigits⟩, Nat.ofDigitChars_ten_toDigits]

/-- The fields of a message. -/
theorem parse_message {f : Frame} (hsample : Sample data) (h : text f = some (message data t)) :
    parse f = some (data, t) := by
  have hstart : literal "acceleration:" <+: message data t := List.prefix_append _ _
  have hdrop : (message data t).drop 13 = data ++ (literal "sync:" ++ Nat.toDigits 10 t) :=
    List.drop_left' (by decide)
  have honce : ¬ literal "sync" ++ [':'] <:+: data ++ literal "sync" :=
    not_infix_append_dropLast (by decide) hsample.unsynced
  have hcut : cut (literal "sync:") (data ++ (literal "sync:" ++ Nat.toDigits 10 t)) =
      some (data, Nat.toDigits 10 t) := cut_append honce
  simp [parse, h, hstart, hdrop, hcut, number_toDigits]

/-! ## The service's side -/

theorem frame_eq (data : QString) (m : Surroundings) : frame data m =
    (sprintf data m).take frameSize ++
      List.replicate (frameSize - (sprintf data m).length) 0 := by
  rw [frame, List.take_append, List.take_replicate, Nat.min_eq_left (Nat.sub_le ..)]

theorem zero_notMem_toLatin1 {s : QString} (hlatin : ∀ c ∈ s, c.toNat ≤ 0xFF)
    (hnonnull : ∀ c ∈ s, c.toNat ≠ 0) : 0 ∉ toLatin1 s := by
  intro hzero
  obtain ⟨c, hc, hbyte⟩ := List.mem_flatMap.mp hzero
  rw [if_pos (hlatin c hc), List.mem_singleton] at hbyte
  have hnat := congrArg UInt8.toNat hbyte
  have hle := hlatin c hc
  have hne := hnonnull c hc
  simp at hnat
  omega

theorem zero_notMem_sprintf (data : QString) (m : Surroundings) : 0 ∉ sprintf data m := by
  have hsync : (0 : UInt8) ∉ toLatin1 (literal "sync:") := by decide
  have hdigits : 0 ∉ toLatin1 (Nat.toDigits 10 m.timeT) :=
    zero_notMem_toLatin1 (fun c hc => (digits_bounds hc).2.trans (by decide)) fun c hc => by
      have hbounds := digits_bounds hc
      omega
  rw [sprintf, toLatin1_append, List.mem_append, List.mem_append, not_or, not_or]
  refine ⟨fun hzero => ?_, hsync, hdigits⟩
  simpa using List.mem_takeWhile_imp hzero

theorem takeWhile_frame (data : QString) (m : Surroundings) :
    (frame data m).takeWhile (· ≠ 0) = (sprintf data m).take frameSize := by
  have hprinted := zero_notMem_sprintf data m
  rw [frame_eq, List.takeWhile_append_of_pos]
  · cases frameSize - (sprintf data m).length with
    | zero => simp
    | succ n => simp [List.replicate_succ]
  · intro b hb
    simpa using ne_of_mem_of_not_mem (List.mem_of_mem_take hb) hprinted

theorem text_frame (hroom : (sprintf data m).length < frameSize) :
    text (frame data m) = some (fromLatin1 (sprintf data m)) := by
  have htake : (sprintf data m).take frameSize = sprintf data m := List.take_of_length_le hroom.le
  have hfill : (frame data m).drop (sprintf data m).length =
      List.replicate (frameSize - (sprintf data m).length) 0 := by
    rw [frame_eq, htake, List.drop_left]
  rw [text, takeWhile_frame, htake, hfill, if_pos]
  simp
  omega

/-- The sample that a client finds is the one that `%s` printed. -/
theorem parse_frame (hsample : Sample other) (hfits : Fits other m.timeT)
    (h : (reading data m.beyond ++ m.stack).takeWhile (· ≠ 0) =
      toLatin1 (literal "acceleration:" ++ other)) :
    parse (frame data m) = some (other, m.timeT) := by
  have hprinted : sprintf data m = toLatin1 (message other m.timeT) := by
    rw [sprintf, h, ← toLatin1_append, message, List.append_assoc]
  have hlatin := message_latin1 (t := m.timeT) hsample
  have hroom : (sprintf data m).length < frameSize := by
    rw [hprinted, toLatin1_length hlatin, message_length]
    exact hfits
  refine parse_message hsample ?_
  rw [text_frame hroom, hprinted, fromLatin1_toLatin1 hlatin]

theorem sprintf_eq_of_frame_eq (hroom : (sprintf data m).length < frameSize)
    (h : frame data m = frame other m') : sprintf data m = sprintf other m' := by
  have htext := congrArg (List.takeWhile (· ≠ 0)) h
  rw [takeWhile_frame, takeWhile_frame, List.take_of_length_le hroom.le] at htext
  have hlen := congrArg List.length htext
  rw [List.length_take] at hlen
  rw [htext, List.take_of_length_le (by omega)]

/-! ## What 24 bytes hold -/

theorem zero_notMem_sample {s : QString} (hsample : Sample data) (hs : s <:+: data) :
    0 ∉ toLatin1 (literal "acceleration:" ++ s) := by
  have hinside : 0 ∉ toLatin1 s :=
    zero_notMem_toLatin1 (fun c hc => hsample.latin1 c (hs.subset hc))
      fun c hc => hsample.nonnull c (hs.subset hc)
  rw [toLatin1_append, List.mem_append, not_or]
  exact ⟨zero_notMem_start, hinside⟩

/-- A sample of up to 10 characters is printed, whatever follows in memory. -/
theorem printed_short (hsample : Sample data) (hshort : data.length ≤ 10)
    (beyond : Nat → UInt8) (stack : List UInt8) :
    (reading data beyond ++ stack).takeWhile (· ≠ 0) =
      toLatin1 (literal "acceleration:" ++ data) := by
  have hlen := array_length data
  rw [toLatin1_length hsample.latin1] at hlen
  have hroom : (toLatin1 (literal "acceleration:" ++ data)).length < 24 := by omega
  obtain ⟨rest, hrest⟩ := memcpy_append beyond hroom
  rw [reading, hrest, List.append_assoc, List.cons_append,
    takeWhile_terminated (zero_notMem_sample hsample List.infix_rfl)]

/-- Of a longer one, 11 characters are left. -/
theorem reading_long (hlatin : ∀ c ∈ data, c.toNat ≤ 0xFF) (hlong : 11 ≤ data.length)
    (beyond : Nat → UInt8) :
    reading data beyond = toLatin1 (literal "acceleration:" ++ data.take 11) := by
  have hlen := array_length data
  rw [toLatin1_length hlatin] at hlen
  have hstart : (toLatin1 (literal "acceleration:" ++ data.take 11)).length = 24 := by
    rw [array_length, toLatin1_length fun c hc => hlatin c (List.mem_of_mem_take hc),
      List.length_take]
    omega
  have hsplit : toLatin1 (literal "acceleration:" ++ data) =
      toLatin1 (literal "acceleration:" ++ data.take 11) ++ toLatin1 (data.drop 11) := by
    rw [← toLatin1_append, List.append_assoc, List.take_append_drop]
  rw [reading, memcpy_take (by omega), hsplit, List.take_left' hstart]

/-- The bytes after `senddata` follow them. -/
theorem parse_long {tail : QString} (hsample : Sample data) (hlong : 11 ≤ data.length)
    (hother : Sample (data.take 11 ++ tail)) (hfits : Fits (data.take 11 ++ tail) t) :
    parse (frame data ⟨fun _ => 0, toLatin1 tail, t⟩) = some (data.take 11 ++ tail, t) := by
  refine parse_frame hother hfits ?_
  rw [reading_long hsample.latin1 hlong, ← toLatin1_append, List.append_assoc,
    List.takeWhile_eq_self_iff]
  intro b hb
  simpa using ne_of_mem_of_not_mem hb (zero_notMem_sample hother List.infix_rfl)

theorem Sample.take (hsample : Sample data) (n : Nat) : Sample (data.take n) where
  latin1 c hc := hsample.latin1 c (List.mem_of_mem_take hc)
  nonnull c hc := hsample.nonnull c (List.mem_of_mem_take hc)
  unsynced h := hsample.unsynced (h.trans (List.take_prefix n data).isInfix)

theorem Sample.concat_zero (hsample : Sample data) : Sample (data ++ ['0']) where
  latin1 := by
    intro c hc
    rcases List.mem_append.mp hc with hc | hc
    · exact hsample.latin1 c hc
    · exact List.mem_singleton.mp hc ▸ by decide
  nonnull := by
    intro c hc
    rcases List.mem_append.mp hc with hc | hc
    · exact hsample.nonnull c hc
    · exact List.mem_singleton.mp hc ▸ by decide
  unsynced := by
    intro h
    rcases List.infix_concat_iff.mp h with hend | hin
    · obtain ⟨front, hfront⟩ := hend
      have hlast := congrArg List.getLast? hfront
      simp [literal] at hlast
    · exact hsample.unsynced hin

theorem length_le_of_roundTrips (hsample : Sample data) (ht : t < 2 ^ 32)
    (h : RoundTrips data t) : data.length ≤ 10 := by
  by_contra hlong
  have hdigits := digits_length ht
  have hkept : (data.take 11).length = 11 := by
    rw [List.length_take]
    omega
  -- the byte after `senddata` is a null byte, or a digit when the sample is 11 long
  have hcut : ∀ tail : QString, tail.length ≤ 1 → Sample (data.take 11 ++ tail) →
      data.length = 11 + tail.length := by
    intro tail hone hother
    have hfits : Fits (data.take 11 ++ tail) t := by
      rw [Fits, List.length_append, hkept, frameSize]
      omega
    have hparsed := h.parsed ⟨fun _ => 0, toLatin1 tail, t⟩ rfl
    rw [parse_long hsample (by omega) hother hfits] at hparsed
    have hsame := congrArg (fun result => (Option.map Prod.fst result).map List.length) hparsed
    simpa [hkept] using hsame.symm
  have hempty := hcut [] (by decide) (by simpa using hsample.take 11)
  have hdigit := hcut ['0'] (by decide) (hsample.take 11).concat_zero
  simp at hempty hdigit
  omega

theorem roundTrips_of_length_le (hsample : Sample data) (hfits : Fits data t)
    (hshort : data.length ≤ 10) : RoundTrips data t where
  parsed m hm := by
    subst hm
    exact parse_frame hsample hfits (printed_short hsample hshort _ _)
  distinct other m m' hother hfits' hm hm' heq := by
    subst hm
    have hparsed := parse_frame hsample hfits (printed_short hsample hshort m.beyond m.stack)
    by_cases hshort' : other.length ≤ 10
    · rw [← hm'] at hfits'
      have hparsed' := parse_frame hother hfits' (printed_short hother hshort' m'.beyond m'.stack)
      rw [heq, hparsed'] at hparsed
      exact (congrArg Prod.fst (Option.some.inj hparsed)).symm
    · have hprinted : (sprintf data m).length =
          13 + data.length + 5 + (Nat.toDigits 10 m.timeT).length := by
        rw [sprintf, printed_short hsample hshort, List.length_append, printed_length,
          array_length, toLatin1_length hsample.latin1]
        omega
      have hroom : (sprintf data m).length < frameSize := hprinted ▸ hfits
      have hlonger : 24 + 5 + (Nat.toDigits 10 m.timeT).length ≤ (sprintf other m').length := by
        have hnonzero : ∀ b ∈ reading other m'.beyond, decide (b ≠ 0) = true := by
          rw [reading_long hother.latin1 (by omega)]
          intro b hb
          simpa using ne_of_mem_of_not_mem hb
            (zero_notMem_sample hother (List.take_prefix 11 other).isInfix)
        have hsize : (reading other m'.beyond).length = 24 := memcpy_length _ _ _
        rw [sprintf, List.takeWhile_append_of_pos hnonzero, List.length_append,
          List.length_append, hsize, printed_length, hm']
        omega
      rw [← sprintf_eq_of_frame_eq hroom heq] at hlonger
      omega

/-- **Round trip.** A sample of up to 10 characters reaches the client as it is.
A longer one does not: 24 bytes hold 11 characters of it, and no terminator. -/
theorem frame_round_trip_iff (hsample : Sample data) (hfits : Fits data t) (ht : t < 2 ^ 32) :
    RoundTrips data t ↔ data.length ≤ 10 :=
  ⟨length_le_of_roundTrips hsample ht, roundTrips_of_length_le hsample hfits⟩

theorem short_sample_round_trips : RoundTrips (literal "0.1:9.8:0") 1700000000 :=
  (frame_round_trip_iff (.of_all (by decide) (by decide)) (by decide +kernel) (by decide)).mpr
    (by decide)

/-- Two samples that differ after 11 characters only are sent in the same frame. -/
theorem long_samples_collide : ¬ ∀ (data : QString) (t : Nat), Sample data → Fits data t →
    t < 2 ^ 32 → RoundTrips data t := by
  intro h
  have hlong := h (literal "-8.12:3.04:6.65") 0 (.of_all (by decide) (by decide)) (by decide)
    (by decide)
  have hsame := hlong.distinct (literal "-8.12:3.04:6.62") ⟨fun _ => 0, [], 0⟩ ⟨fun _ => 0, [], 0⟩
    (.of_all (by decide) (by decide)) (by decide) rfl rfl (by decide)
  exact absurd hsame (by decide)

end SensordataGet
end KmreManager.DataSocket
