import KmreManager.DataSocket.GpsdataGet
import KmreManager.Lib.Nmea

/-! # The sentence of the location service

`writeData` always sends 65 bytes that end in the checksum 47, whatever
position stands in the middle. Only a position of 24 characters fills the
frame, and only some of those have that checksum. -/
namespace KmreManager.DataSocket

open Lib

/-! ## Copies of Latin-1 strings -/

theorem toLatin1_append (s t : QString) : toLatin1 (s ++ t) = toLatin1 s ++ toLatin1 t :=
  List.flatMap_append

theorem toLatin1_length {s : QString} (hs : ∀ c ∈ s, c.toNat ≤ 0xFF) :
    (toLatin1 s).length = s.length := by
  induction s with
  | nil => rfl
  | cons c s ih =>
    obtain ⟨hc, hs⟩ := List.forall_mem_cons.mp hs
    have hrest := ih hs
    simp only [toLatin1, List.flatMap_cons, if_pos hc] at hrest ⊢
    simp [hrest]

/-- An array is copied with its terminator when there is room for just these. -/
theorem memcpy_succ_length (ba : List UInt8) (beyond : Nat → UInt8) :
    memcpy ba beyond (ba.length + 1) = ba ++ [0] := by
  refine List.ext_getElem (by simp) fun i hi hi' => ?_
  by_cases hlt : i < ba.length
  · simp [memcpy, hlt, List.getElem_append_left hlt]
  · have heq : i = ba.length := by simp at hi; omega
    simp [memcpy, heq]

namespace GpsdataGet

/-- The characters a position may be made of. -/
def Printable (c : Char) : Prop := 0x20 ≤ c.toNat ∧ c.toNat ≤ 0x7E ∧ c ≠ '$' ∧ c ≠ '*'

instance (c : Char) : Decidable (Printable c) := inferInstanceAs (Decidable (_ ∧ _))

-- by a search of the string, not of all characters
instance (s : QString) : Decidable (∀ c ∈ s, Printable c) := List.decidableBAll _ s

/-- The position that is sent. -/
def position (data : QString) : QString :=
  if data = [] then literal "3954.4405,N,11623.4799,E" else data

/-- What stands between the dollar sign and the star. -/
def body (data : QString) : List UInt8 :=
  toLatin1 (literal "GPGGA,005548," ++ position data ++ literal ",1,06,,0.0,M,0.,M,,0000")

variable {data : QString}

theorem position_printable (hdata : ∀ c ∈ data, Printable c) :
    ∀ c ∈ position data, Printable c := by
  unfold position
  split
  · decide
  · exact hdata

/-- The array that is copied: the checksum is always 47. -/
def copied (data : QString) : List UInt8 := 36 :: body data ++ 42 :: Nmea.hexByte 0x47

theorem copied_eq (data : QString) :
    toLatin1 (literal "$GPGGA,005548," ++ position data ++ literal ",1,06,,0.0,M,0.,M,,0000*47")
      = copied data := by
  have hstart : toLatin1 (literal "$GPGGA,005548,") = 36 :: toLatin1 (literal "GPGGA,005548,") := by
    decide
  have hend : toLatin1 (literal ",1,06,,0.0,M,0.,M,,0000*47")
      = toLatin1 (literal ",1,06,,0.0,M,0.,M,,0000") ++ 42 :: Nmea.hexByte 0x47 := by
    decide
  simp only [copied, body, toLatin1_append, hstart, hend, List.cons_append, List.append_assoc]

theorem frame_eq (data : QString) (beyond : Nat → UInt8) :
    frame data beyond = memcpy (copied data) beyond frameSize := by
  rw [← copied_eq]
  rfl

theorem body_length (hdata : ∀ c ∈ data, Printable c) :
    (body data).length = (position data).length + 36 := by
  have hlatin : ∀ c ∈ position data, c.toNat ≤ 0xFF :=
    fun c hc => (position_printable hdata c hc).2.1.trans (by decide)
  have hstart : (toLatin1 (literal "GPGGA,005548,")).length = 13 := rfl
  have hend : (toLatin1 (literal ",1,06,,0.0,M,0.,M,,0000")).length = 23 := rfl
  rw [body, toLatin1_append, toLatin1_append, List.length_append, List.length_append, hstart, hend,
    toLatin1_length hlatin]
  omega

/-- The exclusive or of the fixed parts and 0x36 is 0x47. -/
theorem body_checksum (data : QString) :
    Nmea.checksum (body data) = 0x47 ↔ Nmea.checksum (toLatin1 (position data)) = 0x36 := by
  have hstart : Nmea.checksum (toLatin1 (literal "GPGGA,005548,")) = 0x5A := rfl
  have hend : Nmea.checksum (toLatin1 (literal ",1,06,,0.0,M,0.,M,,0000")) = 0x2B := rfl
  have hall : (0x47 : UInt8) = 0x5A ^^^ 0x36 ^^^ 0x2B := rfl
  rw [body, toLatin1_append, toLatin1_append, Nmea.checksum_append, Nmea.checksum_append, hstart,
    hend, hall, UInt8.xor_left_inj, UInt8.xor_right_inj]

/-- **The sentence.** What `writeData` hands to `writeFully` is the NMEA sentence
of the position and its terminator exactly when the position has 24 characters
whose exclusive or is 0x36. -/
theorem writeData_sentence_iff {l : Link} {k : Nat} (hstream : l.m_stream = some k)
    (hdata : ∀ c ∈ data, Printable c) (beyond : Nat → UInt8) (stat : Int) :
    (writeData l data beyond stat).2.sends
        = l.sends ++ [(k, ⟨Nmea.sentence (body data) ++ [0], stat.toNat⟩)] ↔
      (position data).length = 24 ∧ Nmea.checksum (toLatin1 (position data)) = 0x36 := by
  have hsends : (writeData l data beyond stat).2.sends
      = l.sends ++ [(k, ⟨frame data beyond, stat.toNat⟩)] := by
    simp [writeData, hstream, Link.writeFully]
  have hbody := body_length hdata
  have hcopied : (copied data).length = (position data).length + 40 := by
    simp [copied, hbody, Nmea.hexByte]
  have hframe : (position data).length = 24 → frame data beyond = copied data ++ [0] := by
    intro hlen
    rw [frame_eq, ← memcpy_succ_length (copied data) beyond, hcopied, hlen]
    rfl
  have hwrite : (writeData l data beyond stat).2.sends
        = l.sends ++ [(k, ⟨Nmea.sentence (body data) ++ [0], stat.toNat⟩)] ↔
      frame data beyond = Nmea.sentence (body data) ++ [0] := by
    rw [hsends]
    simp
  rw [hwrite, ← body_checksum, ← Nmea.digits_eq_iff]
  constructor
  · intro heq
    have hlen : (position data).length = 24 := by
      have hlengths := congrArg List.length heq
      rw [frame_length, List.length_append, Nmea.sentence_length, hbody, frameSize] at hlengths
      simp at hlengths
      omega
    rw [hframe hlen] at heq
    exact ⟨hlen, List.append_cancel_right heq⟩
  · rintro ⟨hlen, hsentence⟩
    rw [hframe hlen, copied, hsentence]

/-- A service with a client. -/
def connected : Link := { m_stream := some 0, accepted := 1 }

/-- One position of 24 characters that has the checksum. -/
theorem position_sentence :
    (writeData connected (literal "3954.4405,N,11623.4799,n") (fun _ => 0) 65).2.sends
      = connected.sends ++
        [(0, ⟨Nmea.sentence (body (literal "3954.4405,N,11623.4799,n")) ++ [0], 65⟩)] :=
  (writeData_sentence_iff rfl (by decide) (fun _ => 0) 65).mpr ⟨by decide, by decide⟩

/-- The built-in position has the checksum 6C. -/
theorem default_not_sentence :
    (writeData connected [] (fun _ => 0) 65).2.sends
      ≠ connected.sends ++ [(0, ⟨Nmea.sentence (body []) ++ [0], 65⟩)] := by
  decide +kernel

end GpsdataGet
end KmreManager.DataSocket
