import KmreManager.QString
import Mathlib.Data.List.Infix

/-! # File names and `QString`

A name is bytes to the file system. `QString(const char *)` decodes it: a byte
that begins no character becomes U+FFFD, a byte order mark at the start is left
out. `toStdString` encodes, and what it returns need not be the name. -/
namespace KmreManager

/-- `d_name` or the name of an event, without its terminator. -/
abbrev FileName := List UInt8

namespace QString

/-- `toStdString`. -/
def toUtf8 (s : QString) : FileName := s.flatMap String.utf8EncodeChar

/-- With `skip` bytes of a character still to leave. -/
def decode : Nat → FileName → QString
  | _, [] => []
  | skip + 1, _ :: bytes => decode skip bytes
  | 0, b :: bytes =>
    match (b :: bytes).toByteArray.utf8DecodeChar? 0 with
    | some c => c :: decode (c.utf8Size - 1) bytes
    | none => '\uFFFD' :: decode 0 bytes

/-- The decoding of bytes that do not start with a byte order mark. -/
def fromUtf8 (bytes : FileName) : QString := decode 0 bytes

def byteOrderMark : FileName := [0xEF, 0xBB, 0xBF]

/-- `QString(const char *)`. -/
def fromName (name : FileName) : QString :=
  if byteOrderMark.isPrefixOf name then fromUtf8 (name.drop 3) else fromUtf8 name

/-- The service spells the name as the file system does. -/
def ComesBack (name : FileName) : Prop :=
  toUtf8 (fromUtf8 name) = name ∧ byteOrderMark.isPrefixOf name = false

instance (name : FileName) : Decidable (ComesBack name) :=
  inferInstanceAs (Decidable (_ ∧ _))

theorem ComesBack.fromName_eq {name : FileName} (h : ComesBack name) :
    fromName name = fromUtf8 name :=
  if_neg (by rw [h.2]; decide)

/-! ## Encoding and back -/

theorem decode_skip (skip : Nat) (bytes : FileName) :
    decode skip bytes = decode 0 (bytes.drop skip) := by
  induction skip generalizing bytes with
  | zero => rfl
  | succ skip ih =>
    cases bytes with
    | nil => rw [List.drop_nil, decode, decode]
    | cons b bytes => exact ih bytes

theorem utf8DecodeChar_iff {bytes : FileName} {c : Char} :
    bytes.toByteArray.utf8DecodeChar? 0 = some c ↔ String.utf8EncodeChar c <+: bytes := by
  constructor
  · intro h
    obtain ⟨rest, hrest⟩ := ByteArray.exists_of_utf8DecodeChar?_eq_some h
    refine ⟨rest.data.toList, ?_⟩
    have hlist := congrArg (fun bytes : ByteArray => bytes.data.toList) hrest
    simpa using hlist.symm
  · rintro ⟨rest, rfl⟩
    rw [List.toByteArray_append]
    exact ByteArray.utf8DecodeChar?_utf8EncodeChar_append

/-- A character is decoded from its bytes, whatever follows. -/
theorem fromUtf8_utf8EncodeChar (c : Char) (bytes : FileName) :
    fromUtf8 (String.utf8EncodeChar c ++ bytes) = c :: fromUtf8 bytes := by
  have hlen := String.length_utf8EncodeChar c
  have hdecode := utf8DecodeChar_iff.mpr (List.prefix_append (String.utf8EncodeChar c) bytes)
  obtain ⟨b, rest, hbytes⟩ : ∃ b rest, String.utf8EncodeChar c = b :: rest :=
    List.exists_cons_of_length_pos (hlen ▸ c.utf8Size_pos)
  have hrest : c.utf8Size - 1 = rest.length := by
    rw [← hlen, hbytes, List.length_cons, Nat.add_sub_cancel]
  rw [hbytes, List.cons_append] at hdecode ⊢
  simp only [fromUtf8, decode, hdecode, hrest]
  rw [decode_skip, List.drop_left]

/-- A byte that begins no character is left behind. -/
theorem fromUtf8_invalid {b : UInt8} {bytes : FileName}
    (h : ∀ c, ¬ String.utf8EncodeChar c <+: b :: bytes) :
    fromUtf8 (b :: bytes) = '\uFFFD' :: fromUtf8 bytes := by
  have hdecode : (b :: bytes).toByteArray.utf8DecodeChar? 0 = none :=
    Option.eq_none_iff_forall_ne_some.mpr fun c hc => h c (utf8DecodeChar_iff.mp hc)
  simp only [fromUtf8, decode, hdecode]

/-- The names that are encoded texts can be read. -/
theorem fromUtf8_toUtf8 (s : QString) : fromUtf8 (toUtf8 s) = s := by
  induction s with
  | nil => rfl
  | cons c s ih =>
    rw [toUtf8, List.flatMap_cons, fromUtf8_utf8EncodeChar]
    exact congrArg (c :: ·) ih

/-- A text starts with a character if its bytes do. -/
theorem prefix_toUtf8 {c : Char} {s : QString} :
    String.utf8EncodeChar c <+: toUtf8 s ↔ s.head? = some c := by
  constructor
  · rintro ⟨rest, hrest⟩
    rw [← fromUtf8_toUtf8 s, ← hrest, fromUtf8_utf8EncodeChar, List.head?_cons]
  · intro h
    obtain ⟨rest, rfl⟩ := List.head?_eq_some_iff.mp h
    exact List.prefix_append _ _

/-- A leading dot is one in the bytes. -/
theorem head_toUtf8 {s : QString} : (toUtf8 s).head? = some 46 ↔ s.head? = some '.' := by
  rw [← prefix_toUtf8, List.head?_eq_some_iff]
  exact exists_congr fun _ => eq_comm

/-- The names that come back are the texts that do not start with U+FEFF. -/
theorem comesBack_iff {name : FileName} :
    ComesBack name ↔ ∃ s : QString, name = toUtf8 s ∧ s.head? ≠ some '\uFEFF' := by
  have hmark : ∀ s : QString,
      byteOrderMark.isPrefixOf (toUtf8 s) = false ↔ s.head? ≠ some '\uFEFF' := by
    intro s
    have hbytes : byteOrderMark = String.utf8EncodeChar '\uFEFF' := by decide +kernel
    rw [← Bool.not_eq_true, List.isPrefixOf_iff_prefix, hbytes, prefix_toUtf8]
  constructor
  · rintro ⟨hname, hstart⟩
    refine ⟨fromUtf8 name, hname.symm, (hmark _).mp ?_⟩
    rw [hname]
    exact hstart
  · rintro ⟨s, rfl, hs⟩
    exact ⟨by rw [fromUtf8_toUtf8], (hmark s).mpr hs⟩

/-! ## Slashes -/

/-- The bytes of a character other than the first are no slashes. -/
theorem slash_not_mem_tail (c : Char) : 47 ∉ (String.utf8EncodeChar c).tail := by
  have hsmall : ∀ n < 64, (47 : UInt8) ≠ UInt8.ofNat (n + 128) := by decide
  have hbyte : ∀ n, (47 : UInt8) ≠ UInt8.ofNat (n % 64 + 128) :=
    fun n => hsmall (n % 64) (Nat.mod_lt n (by decide))
  unfold String.utf8EncodeChar
  dsimp only
  split_ifs <;> simp only [List.tail_cons, List.mem_cons, List.not_mem_nil, hbyte, or_false,
    not_false_eq_true]

theorem slash_mem_toUtf8 {s : QString} (h : '/' ∈ s) : 47 ∈ toUtf8 s :=
  List.mem_flatMap.mpr ⟨'/', h, by decide⟩

/-- A character that is decoded from the start of a path is one of its first
name. -/
theorem prefix_name {c : Char} {name rest : FileName} (hname : name ≠ [])
    (h : String.utf8EncodeChar c <+: name ++ 47 :: rest) : String.utf8EncodeChar c <+: name := by
  obtain ⟨left, hleft⟩ := h
  rcases List.append_eq_append_iff.mp hleft with ⟨more, hname', -⟩ | ⟨more, hchar, hmore⟩
  · exact ⟨more, hname'.symm⟩
  · cases more with
    | nil => exact ⟨[], by rw [hchar]; simp⟩
    | cons b more =>
      obtain ⟨n, name, rfl⟩ := List.exists_cons_of_ne_nil hname
      obtain ⟨rfl, -⟩ := List.cons.inj hmore
      exact absurd (by rw [hchar]; simp) (slash_not_mem_tail c)

/-- The names of a path are decoded each by itself. -/
theorem fromUtf8_path (name rest : FileName) :
    fromUtf8 (name ++ 47 :: rest) = fromUtf8 name ++ '/' :: fromUtf8 rest := by
  have hslash : ∀ bytes, fromUtf8 (47 :: bytes) = '/' :: fromUtf8 bytes :=
    fromUtf8_utf8EncodeChar '/'
  induction hlen : name.length using Nat.strong_induction_on generalizing name with
  | _ n ih =>
    cases name with
    | nil => exact hslash rest
    | cons b bytes =>
      by_cases hfirst : ∃ c, String.utf8EncodeChar c <+: b :: bytes
      · obtain ⟨c, left, hleft⟩ := hfirst
        have hshort : left.length < n := by
          have hlength := congrArg List.length hleft
          have hpos := c.utf8Size_pos
          rw [List.length_append, String.length_utf8EncodeChar] at hlength
          omega
        rw [← hleft, List.append_assoc, fromUtf8_utf8EncodeChar, fromUtf8_utf8EncodeChar,
          ih left.length hshort left rfl, List.cons_append]
      · rw [not_exists] at hfirst
        have hpath : ∀ c, ¬ String.utf8EncodeChar c <+: b :: (bytes ++ 47 :: rest) :=
          fun c hc => hfirst c (prefix_name (List.cons_ne_nil b bytes) hc)
        rw [fromUtf8_invalid hfirst, List.cons_append, fromUtf8_invalid hpath,
          ih bytes.length (by rw [← hlen]; exact Nat.lt_succ_self _) bytes rfl, List.cons_append]

end QString
end KmreManager
