import Mathlib.Algebra.Group.Nat.Defs
import KmreManager.DataSocket.GpsSentence
import KmreManager.DataSocket.SensordataGet
import KmreManager.DataSocket.Throttle

/-! # The memory that frames are put together from

Both services copy a fixed number of bytes out of an array whose length depends
on what they were sent. The sensor service then prints the copy as a string,
which needs a terminator of its own. -/
namespace KmreManager.DataSocket

/-! ## Copies -/

/-- A copy of `n` bytes reads the array and its terminator only. -/
def ReadsWithin (ba : List UInt8) (n : Nat) : Prop := ∀ i < n, i ≤ ba.length

section Copies

variable {ba : List UInt8} {beyond : Nat → UInt8} {n : Nat}

theorem readsWithin_iff : ReadsWithin ba n ↔ n ≤ ba.length + 1 := by
  constructor
  · intro h
    by_contra hlong
    have hread := h (ba.length + 1) (by omega)
    omega
  · intro h i hi
    omega

/-- It is such a copy that does not depend on the memory around the array. -/
theorem readsWithin_iff_memcpy :
    ReadsWithin ba n ↔ ∀ beyond beyond', memcpy ba beyond n = memcpy ba beyond' n := by
  constructor
  · intro h beyond beyond'
    refine List.map_congr_left fun i hi => ?_
    have hread := h i (List.mem_range.mp hi)
    split
    · rfl
    · rename_i hlt
      rw [if_pos (by omega), if_pos (by omega)]
  · intro h i hi
    by_contra hread
    have hat : ∀ beyond : Nat → UInt8, (memcpy ba beyond n)[i]? = some (beyond i) := by
      intro beyond
      have hlt : ¬ i < ba.length := by omega
      have hne : i ≠ ba.length := by omega
      simp [memcpy, hi, hlt, hne]
    have hsame := congrArg (·[i]?) (h (fun _ => 0) fun _ => 1)
    simp only [hat] at hsame
    exact absurd (Option.some.inj hsame) (by decide)

/-- A copy that ends before the terminator is a part of the array. -/
theorem memcpy_take (h : n ≤ ba.length) : memcpy ba beyond n = ba.take n := by
  refine List.ext_getElem (by simp [h]) fun i hi hi' => ?_
  have hlt : i < ba.length := by simp at hi; omega
  simp [memcpy, hlt]

/-- A longer one starts with the array and its terminator. -/
theorem memcpy_append (beyond : Nat → UInt8) (h : ba.length < n) :
    ∃ rest, memcpy ba beyond n = ba ++ 0 :: rest := by
  have htake : (memcpy ba beyond n).take (ba.length + 1) = ba ++ [0] := by
    rw [← memcpy_succ_length ba beyond, memcpy, memcpy, ← List.map_take, List.take_range,
      Nat.min_eq_left h]
  refine ⟨(memcpy ba beyond n).drop (ba.length + 1), ?_⟩
  rw [List.append_cons, ← htake, List.take_append_drop]

theorem takeWhile_terminated {text rest : List UInt8} (h : 0 ∉ text) :
    (text ++ 0 :: rest).takeWhile (· ≠ 0) = text := by
  rw [List.takeWhile_append_of_pos fun b hb => by simpa using ne_of_mem_of_not_mem hb h]
  simp

end Copies

/-! ## The location service -/

namespace GpsdataGet

/-- `memcpy` of the sentence stays within its array: nothing around it comes to
be in the frame. -/
def InBounds (data : QString) : Prop :=
  ∀ beyond beyond', frame data beyond = frame data beyond'

theorem inBounds_iff_readsWithin (data : QString) :
    InBounds data ↔ ReadsWithin (copied data) frameSize := by
  simp only [InBounds, frame_eq, readsWithin_iff_memcpy]

theorem inBounds_iff (data : QString) :
    InBounds data ↔ data = [] ∨ 24 ≤ (toLatin1 data).length := by
  have hstart : (toLatin1 (literal "$GPGGA,005548,")).length = 14 := rfl
  have hend : (toLatin1 (literal ",1,06,,0.0,M,0.,M,,0000*47")).length = 26 := rfl
  have hdefault : (toLatin1 (literal "3954.4405,N,11623.4799,E")).length = 24 := rfl
  rw [inBounds_iff_readsWithin, readsWithin_iff, ← copied_eq, toLatin1_append, toLatin1_append,
    List.length_append, List.length_append, hstart, hend, frameSize]
  by_cases hdata : data = []
  · rw [position, if_pos hdata, hdefault]
    simp [hdata]
  · rw [position, if_neg hdata, or_iff_right hdata]
    omega

end GpsdataGet

/-! ## The sensor service -/

namespace SensordataGet

/-- What `writeData` does to memory, whatever the memory holds: `memcpy` stays
within the array, so that nothing around it comes to be in `senddata`, what `%s`
prints ends within `senddata`, and `sprintf` stays within `sensordata`. The time
is the 32 bits of `toTime_t`. -/
structure InBounds (data : QString) : Prop where
  copied : ∀ beyond beyond', reading data beyond = reading data beyond'
  terminated : ∀ beyond, 0 ∈ reading data beyond
  printed : ∀ m : Surroundings, m.timeT < 2 ^ 32 → (sprintf data m).length + 1 ≤ frameSize

variable {data : QString}

theorem array_length (data : QString) :
    (toLatin1 (literal "acceleration:" ++ data)).length = (toLatin1 data).length + 13 := by
  have hstart : (toLatin1 (literal "acceleration:")).length = 13 := rfl
  rw [toLatin1_append, List.length_append, hstart, Nat.add_comm]

/-- What is copied to `senddata`. -/
theorem reading_independent_iff : (∀ beyond beyond', reading data beyond = reading data beyond') ↔
    24 ≤ (toLatin1 data).length + 14 := by
  simp only [reading, ← readsWithin_iff_memcpy]
  rw [readsWithin_iff, array_length]

theorem zero_notMem_start : 0 ∉ toLatin1 (literal "acceleration:") := by
  decide

/-- Eleven bytes of the sample have room in `senddata`. -/
theorem zero_mem_reading (beyond : Nat → UInt8) : 0 ∈ reading data beyond ↔
    (toLatin1 data).length ≤ 10 ∨ 0 ∈ (toLatin1 data).take 11 := by
  have hlen := array_length data
  by_cases hshort : (toLatin1 data).length ≤ 10
  · have hroom : (toLatin1 (literal "acceleration:" ++ data)).length < 24 := by omega
    obtain ⟨rest, hrest⟩ := memcpy_append beyond hroom
    rw [reading, hrest]
    simp [hshort]
  · have htake : reading data beyond =
        toLatin1 (literal "acceleration:") ++ (toLatin1 data).take 11 := by
      rw [reading, memcpy_take (by omega), toLatin1_append]
      rfl
    rw [htake, List.mem_append, or_iff_right zero_notMem_start, or_iff_right hshort]

theorem digits_bounds {n : Nat} {c : Char} (h : c ∈ Nat.toDigits 10 n) :
    48 ≤ c.toNat ∧ c.toNat ≤ 57 :=
  QString.isDigit_bounds (Nat.isDigit_of_mem_toDigits (by decide) (by decide) h)

/-- A time of 32 bits is written in 10 digits. -/
theorem digits_length {n : Nat} (h : n < 2 ^ 32) : (Nat.toDigits 10 n).length ≤ 10 :=
  (Nat.length_toDigits_le_iff (by decide) (by decide)).mpr (h.trans (by decide))

theorem printed_length (n : Nat) :
    (toLatin1 (literal "sync:" ++ Nat.toDigits 10 n)).length = (Nat.toDigits 10 n).length + 5 := by
  have hlatin : ∀ c ∈ Nat.toDigits 10 n, c.toNat ≤ 0xFF :=
    fun c hc => (digits_bounds hc).2.trans (by decide)
  have hsync : (toLatin1 (literal "sync:")).length = 5 := rfl
  rw [toLatin1_append, List.length_append, hsync, toLatin1_length hlatin, Nat.add_comm]

/-- A terminator in `senddata` keeps `sprintf` within `sensordata`. -/
theorem sprintf_length {m : Surroundings} (h : 0 ∈ reading data m.beyond)
    (htime : m.timeT < 2 ^ 32) : (sprintf data m).length + 1 ≤ frameSize := by
  obtain ⟨text, rest, hreading, htext⟩ := List.eq_append_cons_of_mem h
  have hsize : (reading data m.beyond).length = 24 := memcpy_length _ _ _
  have hdigits := digits_length htime
  rw [hreading, List.length_append, List.length_cons] at hsize
  rw [sprintf, hreading, List.append_assoc, List.cons_append, takeWhile_terminated htext,
    List.length_append, printed_length, frameSize]
  omega

/-- Only a sample of 10 bytes fits, or one that has a null byte early on. -/
theorem inBounds_iff : InBounds data ↔ (toLatin1 data).length = 10 ∨
    10 < (toLatin1 data).length ∧ 0 ∈ (toLatin1 data).take 11 := by
  have hlen := array_length data
  constructor
  · intro h
    have hcopied := reading_independent_iff.mp h.copied
    rcases (zero_mem_reading fun _ => 0).mp (h.terminated fun _ => 0) with hshort | hzero
    · exact .inl (by omega)
    · by_cases hten : (toLatin1 data).length = 10
      · exact .inl hten
      · exact .inr ⟨by omega, hzero⟩
  · intro h
    have hterminated : ∀ beyond, 0 ∈ reading data beyond := fun beyond =>
      (zero_mem_reading beyond).mpr (h.imp Nat.le_of_eq fun hlong => hlong.2)
    refine ⟨reading_independent_iff.mpr ?_, hterminated,
      fun m => sprintf_length (hterminated m.beyond)⟩
    rcases h with hten | ⟨hlong, -⟩
    · omega
    · omega

end SensordataGet

/-- **The frames.** Every position of at least 24 bytes, and every sample of 10
bytes, is sent without a step beyond the memory it is put together in; others
are not, among them the samples that stand for an empty one. -/
theorem frame_assembly_in_bounds_iff (gpsdata : QString) (d : DbusAdaptor)
    (sensorData : QString) :
    (GpsdataGet.InBounds gpsdata ↔ gpsdata = [] ∨ 24 ≤ (toLatin1 gpsdata).length) ∧
    (SensordataGet.InBounds (d.sample sensorData).1 ↔ (toLatin1 sensorData).length = 10 ∨
      10 < (toLatin1 sensorData).length ∧ 0 ∈ (toLatin1 sensorData).take 11) := by
  refine ⟨GpsdataGet.inBounds_iff gpsdata, ?_⟩
  rw [SensordataGet.inBounds_iff, DbusAdaptor.sample]
  by_cases hempty : sensorData = []
  · subst hempty
    rw [if_pos rfl]
    cases d.flag <;> decide
  · rw [if_neg hempty]

/-- The built-in sample leaves no room for the terminator. -/
theorem empty_sample_not_in_bounds :
    ¬ ∀ (d : DbusAdaptor) (sensorData : QString),
      SensordataGet.InBounds (d.sample sensorData).1 := by
  intro h
  have hsample := (h ⟨⟨0, 0, by decide, by decide⟩, true⟩ []).terminated fun _ => 0
  revert hsample
  decide

end KmreManager.DataSocket
