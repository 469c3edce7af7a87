import KmreManager.QString
import KmreManager.Lib.TextLines

/-! # `Utils::getDnsListFromSysConfig`

The name servers of `/etc/resolv.conf`. A line that mentions `nameserver` is
split at tabs and, if that does not give two fields, at spaces; the second of
two fields is taken for an address if it has four parts. -/
namespace KmreManager.ResolvConf

open Lib.TextLines

def keyword : QString := "nameserver".toList

/-- `dns.split(".", QString::SkipEmptyParts).size() == 4`, for a trimmed field. -/
def dnsOfField (field : QString) : Option QString :=
  let dns := field.trimmed
  if (dns.splitSkipEmpty '.').length = 4 then some dns else none

/-- `dnsInfo.at(1)` if `dnsInfo.size() == 2`. -/
def secondOfTwo : List QString → Option QString
  | [_, field] => some field
  | _ => none

/-- The line is split at tabs and, if that does not give two fields, at spaces. -/
def secondField (line : QString) : Option QString :=
  (secondOfTwo (line.splitSkipEmpty '\t')).or (secondOfTwo (line.splitSkipEmpty ' '))

/-- What one line adds to the list. -/
def dnsOfLine (line : QString) : Option QString :=
  if line.head? ≠ some '#' ∧ line.indexOf keyword ≠ -1 then (secondField line).bind dnsOfField
  else none

/-- The lines as `QTextStream` reads them from a file in text mode. -/
def linesOf (text : QString) : List QString := readLines '\n' '\r' text

/-- `none` is a file that cannot be opened. -/
def getDnsListFromSysConfig (file : Option QString) : List QString :=
  match file with
  | some text => (linesOf text).filterMap dnsOfLine
  | none => []

/-! ## What a name server line is -/

def isBlank (c : Char) : Bool := c = ' ' || c = '\t'

/-- A number from 0 to 255 in decimal digits. -/
def isOctet (part : QString) : Bool :=
  part ≠ [] && part.all Char.isDigit && Nat.ofDigitChars 10 part 0 ≤ 255

def isQuad (address : QString) : Bool :=
  (address.splitOn '.').length = 4 && (address.splitOn '.').all isOctet

/-- The address that a line of the file gives. -/
def directive (line : QString) : Option QString :=
  let words := line.dropWhile isBlank
  if keyword.isPrefixOf words then
    let rest := words.drop keyword.length
    let address := (rest.dropWhile isBlank).rdropWhile isBlank
    if rest.head?.any isBlank && isQuad address then some address else none
  else none

/-- Blanks, the keyword, blanks, an address and blanks. -/
def Spelled (line lead gap address trail : QString) : Prop :=
  line = lead ++ keyword ++ gap ++ address ++ trail ∧ gap ≠ [] ∧
    (∀ c ∈ lead ++ gap ++ trail, isBlank c = true) ∧ isQuad address = true

def Directive (line address : QString) : Prop :=
  ∃ lead gap trail, Spelled line lead gap address trail

variable {line lead gap address trail first second : QString}

theorem isQuad_parts (h : isQuad address = true) :
    (address.splitOn '.').length = 4 ∧ ∀ part ∈ address.splitOn '.', isOctet part = true := by
  simpa [isQuad] using h

theorem isOctet_ne_nil {part : QString} (h : isOctet part = true) : part ≠ [] := by
  simp only [isOctet, Bool.and_eq_true, decide_eq_true_eq] at h
  exact h.1.1

theorem isOctet_isDigit {part : QString} (h : isOctet part = true) : ∀ c ∈ part, c.isDigit := by
  simp only [isOctet, Bool.and_eq_true, List.all_eq_true] at h
  exact h.1.2

/-- The code counts four parts, too. -/
theorem isQuad_splitSkipEmpty (h : isQuad address = true) :
    (address.splitSkipEmpty '.').length = 4 := by
  obtain ⟨hlen, hparts⟩ := isQuad_parts h
  have hall : address.splitSkipEmpty '.' = address.splitOn '.' := by
    rw [QString.splitSkipEmpty, List.filter_eq_self]
    exact fun part hpart => by simpa using isOctet_ne_nil (hparts part hpart)
  rw [hall, hlen]

theorem isQuad_mem (h : isQuad address = true) : ∀ c ∈ address, c = '.' ∨ c.isDigit = true := by
  intro c hc
  by_cases hdot : c = '.'
  · exact .inl hdot
  · have hmem : c ∈ (address.splitSkipEmpty '.').flatten := by
      rw [QString.flatten_splitSkipEmpty]
      simpa [hdot] using hc
    obtain ⟨part, hpart, hcpart⟩ := List.mem_flatten.mp hmem
    exact .inr (isOctet_isDigit ((isQuad_parts h).2 part (List.mem_of_mem_filter hpart)) c hcpart)

theorem not_isSpace_of_isQuad (h : isQuad address = true) :
    ∀ c ∈ address, QString.isSpace c = false := by
  intro c hc
  obtain rfl | hdigit := isQuad_mem h c hc
  · decide
  · obtain ⟨hlow, hhigh⟩ := QString.isDigit_bounds hdigit
    exact QString.isSpace_of_ascii (by omega) (by omega)

theorem isSpace_of_isBlank {c : Char} (h : isBlank c = true) : QString.isSpace c = true := by
  simp only [isBlank, Bool.or_eq_true, decide_eq_true_eq] at h
  obtain rfl | rfl := h
  · decide
  · decide

theorem isQuad_isBlank (h : isQuad address = true) : ∀ c ∈ address, isBlank c = false := by
  intro c hc
  by_contra hblank
  have hspace := isSpace_of_isBlank (Bool.not_eq_false _ ▸ hblank)
  rw [not_isSpace_of_isQuad h c hc] at hspace
  cases hspace

theorem isQuad_ne_nil (h : isQuad address = true) : address ≠ [] := by
  rintro rfl
  revert h
  decide

theorem dropWhile_append {p : Char → Bool} {left s : QString} (hleft : ∀ c ∈ left, p c = true)
    (hs : ∀ c ∈ s.head?, p c = false) : (left ++ s).dropWhile p = s := by
  rw [List.dropWhile_append_of_pos hleft]
  cases s with
  | nil => rfl
  | cons c s => exact List.dropWhile_cons_of_neg (by simpa using hs c rfl)

theorem rdropWhile_append {p : Char → Bool} {s right : QString} (hright : ∀ c ∈ right, p c = true)
    (hs : ∀ c ∈ s.getLast?, p c = false) : (s ++ right).rdropWhile p = s := by
  rw [List.rdropWhile, List.reverse_append, dropWhile_append, List.reverse_reverse]
  · simpa using hright
  · simpa using hs

theorem trimmed_append {left right : QString} (h : isQuad address = true)
    (hleft : ∀ c ∈ left, QString.isSpace c = true)
    (hright : ∀ c ∈ right, QString.isSpace c = true) :
    (left ++ (address ++ right)).trimmed = address := by
  have hhead : ∀ c ∈ (address ++ right).head?, QString.isSpace c = false := by
    intro c hc
    rw [List.head?_append_of_ne_nil _ (isQuad_ne_nil h)] at hc
    exact not_isSpace_of_isQuad h c (List.mem_of_head? hc)
  rw [QString.trimmed, dropWhile_append hleft hhead,
    rdropWhile_append hright fun c hc => not_isSpace_of_isQuad h c (List.mem_of_getLast? hc)]

theorem keyword_head (s : QString) : (keyword ++ s).head? = some 'n' := by
  have hhead : keyword.head? = some 'n' := rfl
  rw [List.head?_append, hhead, Option.some_or]

theorem directive_eq_some : directive line = some address ↔ Directive line address := by
  constructor
  · intro h
    simp only [directive, Option.ite_none_right_eq_some, Option.some_inj, Bool.and_eq_true] at h
    obtain ⟨hkeyword, ⟨hgap, hquad⟩, haddress⟩ := h
    obtain ⟨rest, hrest⟩ := List.isPrefixOf_iff_prefix.mp hkeyword
    rw [← hrest, List.drop_left] at hgap hquad haddress
    refine ⟨line.takeWhile isBlank, rest.takeWhile isBlank,
      (rest.dropWhile isBlank).rtakeWhile isBlank, ?_, ?_, ?_, haddress ▸ hquad⟩
    · rw [← haddress, List.append_assoc _ _ (List.rtakeWhile _ _),
        List.rdropWhile_append_rtakeWhile, List.append_assoc, List.takeWhile_append_dropWhile,
        List.append_assoc, hrest, List.takeWhile_append_dropWhile]
    · cases rest with
      | nil => cases hgap
      | cons c rest => simpa using hgap
    · intro c hc
      simp only [List.mem_append] at hc
      obtain (hc | hc) | hc := hc
      · exact List.mem_takeWhile_imp hc
      · exact List.mem_takeWhile_imp hc
      · exact List.mem_rtakeWhile_imp hc
  · rintro ⟨lead, gap, trail, rfl, hgap, hblank, hquad⟩
    have hlead : ∀ c ∈ lead, isBlank c = true := fun c hc => hblank c (by simp [hc])
    have hgaps : ∀ c ∈ gap, isBlank c = true := fun c hc => hblank c (by simp [hc])
    have htrail : ∀ c ∈ trail, isBlank c = true := fun c hc => hblank c (by simp [hc])
    have hwords : (lead ++ keyword ++ gap ++ address ++ trail).dropWhile isBlank
        = keyword ++ (gap ++ (address ++ trail)) := by
      simp only [List.append_assoc]
      refine dropWhile_append hlead fun c hc => ?_
      rw [keyword_head] at hc
      obtain rfl := Option.some.inj hc
      decide
    have hrest : (gap ++ (address ++ trail)).dropWhile isBlank = address ++ trail := by
      refine dropWhile_append hgaps fun c hc => isQuad_isBlank hquad c ?_
      rw [List.head?_append_of_ne_nil _ (isQuad_ne_nil hquad)] at hc
      exact List.mem_of_head? hc
    have haddress : (address ++ trail).rdropWhile isBlank = address :=
      rdropWhile_append htrail fun c hc => isQuad_isBlank hquad c (List.mem_of_getLast? hc)
    have hhead : (gap ++ (address ++ trail)).head?.any isBlank = true := by
      obtain ⟨c, gap, rfl⟩ := List.exists_cons_of_ne_nil hgap
      simpa using hgaps c List.mem_cons_self
    have hprefix : keyword.isPrefixOf (keyword ++ (gap ++ (address ++ trail))) = true :=
      List.isPrefixOf_iff_prefix.mpr (List.prefix_append _ _)
    simp only [directive, hwords, hprefix, List.drop_left, hrest, haddress, hhead, hquad,
      Bool.and_self, if_true]

/-! ## The two fields of a line -/

/-- The code finds exactly these two fields: split at tabs, or, if that does not
give two, at spaces. -/
def TwoFields (line first second : QString) : Prop :=
  line.splitSkipEmpty '\t' = [first, second] ∨
    (line.splitSkipEmpty '\t').length ≠ 2 ∧ line.splitSkipEmpty ' ' = [first, second]

theorem dnsOfField_eq_some {field : QString} : dnsOfField field = some address ↔
    field.trimmed = address ∧ (address.splitSkipEmpty '.').length = 4 := by
  simp only [dnsOfField, Option.ite_none_right_eq_some, Option.some_inj]
  constructor
  · rintro ⟨hlen, rfl⟩
    exact ⟨rfl, hlen⟩
  · rintro ⟨rfl, hlen⟩
    exact ⟨hlen, rfl⟩

theorem secondOfTwo_eq_some {parts : List QString} :
    secondOfTwo parts = some second ↔ ∃ first, parts = [first, second] := by
  constructor
  · intro h
    match parts with
    | [first, field] => exact ⟨first, by simpa [secondOfTwo] using h⟩
  · rintro ⟨first, rfl⟩
    rfl

theorem secondOfTwo_eq_none {parts : List QString} :
    secondOfTwo parts = none ↔ parts.length ≠ 2 := by
  constructor
  · intro hnone hlen
    obtain ⟨first, second, rfl⟩ := List.length_eq_two.mp hlen
    cases hnone
  · intro hlen
    cases hfield : secondOfTwo parts with
    | none => rfl
    | some field =>
      obtain ⟨first, rfl⟩ := secondOfTwo_eq_some.mp hfield
      exact absurd rfl hlen

theorem secondField_eq_some :
    secondField line = some second ↔ ∃ first, TwoFields line first second := by
  rw [secondField, Option.or_eq_some_iff, secondOfTwo_eq_none, secondOfTwo_eq_some,
    secondOfTwo_eq_some]
  simp only [TwoFields, exists_or, exists_and_left]

/-- **What a line adds.** -/
theorem dnsOfLine_eq_some : dnsOfLine line = some address ↔
    line.head? ≠ some '#' ∧ keyword <:+: line ∧ ∃ first second, TwoFields line first second ∧
      second.trimmed = address ∧ (address.splitSkipEmpty '.').length = 4 := by
  rw [dnsOfLine, Option.ite_none_right_eq_some, QString.indexOf_ne_neg_one, and_assoc,
    Option.bind_eq_some_iff, exists_comm]
  simp only [secondField_eq_some, dnsOfField_eq_some, exists_and_right]

/-! ## Where code and format agree -/

/-- Two fields, and a separator between the keyword and the address. -/
def Separates (sep : Char) (line gap : QString) : Prop :=
  (line.splitSkipEmpty sep).length = 2 ∧ sep ∈ gap

/-- The tabs of a name server line, or else its spaces, separate the keyword
from the address and nothing more; the second field of any other line that
mentions the keyword has not four parts. -/
structure Regular (line : QString) : Prop where
  named : ∀ lead gap address trail, Spelled line lead gap address trail →
    Separates '\t' line gap ∨ (line.splitSkipEmpty '\t').length ≠ 2 ∧ Separates ' ' line gap
  unnamed : (∀ address, ¬ Directive line address) → line.head? ≠ some '#' → keyword <:+: line →
    ∀ first second, TwoFields line first second →
      (second.trimmed.splitSkipEmpty '.').length ≠ 4

theorem TwoFields.filter (h : TwoFields line first second) :
    line.filter (fun c => !isBlank c)
      = first.filter (fun c => !isBlank c) ++ second.filter fun c => !isBlank c := by
  have hparts : ∀ sep, isBlank sep = true → line.splitSkipEmpty sep = [first, second] →
      line.filter (fun c => !isBlank c)
        = first.filter (fun c => !isBlank c) ++ second.filter fun c => !isBlank c := by
    intro sep hsep hsplit
    have hflat := QString.flatten_splitSkipEmpty sep line
    rw [hsplit] at hflat
    have hkeep : line.filter (fun c => !isBlank c)
        = (line.filter (· ≠ sep)).filter fun c => !isBlank c := by
      rw [List.filter_filter]
      refine List.filter_congr fun c _ => ?_
      by_cases hc : c = sep
      · simp [hc, hsep]
      · simp [hc]
    rw [hkeep, ← hflat]
    simp
  obtain htabs | ⟨-, hspaces⟩ := h
  · exact hparts '\t' (by decide) htabs
  · exact hparts ' ' (by decide) hspaces

theorem keyword_letters : ∀ c ∈ keyword, isBlank c = false ∧ QString.isSpace c = false := by
  have hall : keyword.all (fun c => !isBlank c && !QString.isSpace c) = true := rfl
  simpa using hall

theorem Directive.filter (h : Directive line address) :
    line.filter (fun c => !isBlank c) = keyword ++ address := by
  obtain ⟨lead, gap, trail, rfl, -, hblank, hquad⟩ := h
  have hnone : ∀ s : QString, (∀ c ∈ s, isBlank c = true) → s.filter (fun c => !isBlank c) = [] :=
    fun s hs => List.filter_eq_nil_iff.mpr fun c hc => by simp [hs c hc]
  have hall : ∀ s : QString, (∀ c ∈ s, isBlank c = false) → s.filter (fun c => !isBlank c) = s :=
    fun s hs => List.filter_eq_self.mpr fun c hc => by simp [hs c hc]
  rw [List.filter_append, List.filter_append, List.filter_append, List.filter_append,
    hall keyword fun c hc => (keyword_letters c hc).1, hall address (isQuad_isBlank hquad),
    hnone lead fun c hc => hblank c (by simp [hc]), hnone gap fun c hc => hblank c (by simp [hc]),
    hnone trail fun c hc => hblank c (by simp [hc])]
  simp

/-- All white space of a name server line is blanks. -/
theorem Directive.isBlank_of_isSpace (h : Directive line address) {c : Char} (hc : c ∈ line)
    (hspace : QString.isSpace c = true) : isBlank c = true := by
  obtain ⟨lead, gap, trail, rfl, -, hblank, hquad⟩ := h
  simp only [List.mem_append] at hc hblank
  obtain (((hc | hc) | hc) | hc) | hc := hc
  · exact hblank c (.inl (.inl hc))
  · rw [(keyword_letters c hc).2] at hspace
    cases hspace
  · exact hblank c (.inl (.inr hc))
  · rw [not_isSpace_of_isQuad hquad c hc] at hspace
    cases hspace
  · exact hblank c (.inr hc)

theorem Directive.filter_second (h : Directive line address) (hfields : TwoFields line first second)
    (htrimmed : second.trimmed = address) : second.filter (fun c => !isBlank c) = address := by
  have hquad : isQuad address = true := by
    obtain ⟨_, _, _, -, -, -, hquad⟩ := h
    exact hquad
  have hmem : ∀ c ∈ second, c ∈ line := by
    have hpart : ∀ sep, second ∈ line.splitSkipEmpty sep → ∀ c ∈ second, c ∈ line :=
      fun sep hs c hc => (QString.splitOn_infix (List.mem_of_mem_filter hs)).subset hc
    obtain htabs | ⟨-, hspaces⟩ := hfields
    · exact hpart '\t' (by simp [htabs])
    · exact hpart ' ' (by simp [hspaces])
  obtain ⟨left, right, hsecond, hleft, hright⟩ := second.trimmed_spec
  rw [htrimmed] at hsecond
  have hblank : ∀ s : QString, (∀ c ∈ s, c ∈ second) → (∀ c ∈ s, QString.isSpace c = true) →
      s.filter (fun c => !isBlank c) = [] :=
    fun s hs hspace => List.filter_eq_nil_iff.mpr fun c hc => by
      simp [h.isBlank_of_isSpace (hmem c (hs c hc)) (hspace c hc)]
  have hkept : address.filter (fun c => !isBlank c) = address :=
    List.filter_eq_self.mpr fun c hc => by simp [isQuad_isBlank hquad c hc]
  have hleft' := hblank left (fun c hc => by rw [hsecond]; simp [hc]) hleft
  have hright' := hblank right (fun c hc => by rw [hsecond]; simp [hc]) hright
  rw [hsecond, List.filter_append, List.filter_append, hleft', hright', hkept]
  simp

/-- The line starts with a blank or the keyword. -/
theorem Directive.head (h : Directive line address) : line.head? ≠ some '#' := by
  obtain ⟨lead, gap, trail, rfl, -, hblank, -⟩ := h
  cases lead with
  | nil =>
    rw [List.nil_append, List.append_assoc, List.append_assoc, keyword_head]
    decide
  | cons c lead =>
    intro hhash
    obtain rfl : c = '#' := by simpa using hhash
    have hfalse := hblank '#' (by simp)
    revert hfalse
    decide

theorem Directive.mentions (h : Directive line address) : keyword <:+: line := by
  obtain ⟨lead, gap, trail, rfl, -, -, -⟩ := h
  exact ⟨lead, gap ++ address ++ trail, by simp⟩

theorem Directive.parts (h : Directive line address) : (address.splitSkipEmpty '.').length = 4 := by
  obtain ⟨_, _, _, -, -, -, hquad⟩ := h
  exact isQuad_splitSkipEmpty hquad

theorem keyword_ne {c sep : Char} (hc : c ∈ keyword) (hsep : isBlank sep = true) : c ≠ sep := by
  rintro rfl
  rw [(keyword_letters c hc).1] at hsep
  cases hsep

theorem isQuad_ne {c sep : Char} (h : isQuad address = true) (hc : c ∈ address)
    (hsep : isBlank sep = true) : c ≠ sep := by
  rintro rfl
  rw [isQuad_isBlank h c hc] at hsep
  cases hsep

/-- If the second field is the address, it is cut off between the two words. -/
theorem Spelled.sep_mem {sep : Char} (h : Spelled line lead gap address trail)
    (hsep : isBlank sep = true) (hfields : TwoFields line first second)
    (hsplit : line.splitSkipEmpty sep = [first, second]) (htrimmed : second.trimmed = address) :
    sep ∈ gap := by
  have hdir : Directive line address := ⟨lead, gap, trail, h⟩
  have hsecond := hdir.filter_second hfields htrimmed
  have hfirst : first.filter (fun c => !isBlank c) = keyword := by
    have hall := hfields.filter.symm.trans hdir.filter
    rw [hsecond] at hall
    exact List.append_cancel_right hall
  obtain ⟨rfl, hne, hblank, hquad⟩ := h
  by_contra hgap
  have hmid : sep ∉ keyword ++ gap ++ address := by
    rw [List.mem_append, List.mem_append, not_or, not_or]
    exact ⟨⟨fun hmem => keyword_ne hmem hsep rfl, hgap⟩, fun hmem => isQuad_ne hquad hmem hsep rfl⟩
  have hkept : (keyword ++ gap ++ address).filter (fun c => !isBlank c) = keyword ++ address :=
    Directive.filter ⟨[], gap, [], by simp, hne, fun c hc => hblank c (by simp_all), hquad⟩
  -- otherwise one field holds both words
  obtain ⟨part, hpart, hinside⟩ := QString.exists_part_infix (s := lead) (t := trail) hmid
  have hwords := (hinside.filter fun c => !isBlank c).length_le
  rw [hkept, List.length_append] at hwords
  have hkeyword : 0 < keyword.length := by decide
  have hfield : part ∈ [first, second] := by
    have hpartne : part ≠ [] := by
      rintro rfl
      have hnone := hinside.length_le
      simp only [List.length_append, List.length_nil] at hnone
      omega
    rw [← hsplit, QString.splitSkipEmpty, List.mem_filter]
    simp only [List.append_assoc] at hpart ⊢
    exact ⟨hpart, by simpa using hpartne⟩
  have haddress : 0 < address.length := List.length_pos_of_ne_nil (isQuad_ne_nil hquad)
  rcases List.mem_pair.mp hfield with rfl | rfl
  · rw [hfirst] at hwords
    omega
  · rw [hsecond] at hwords
    omega

/-- A separator between the two words cuts the address off. -/
theorem Spelled.splits {sep : Char} (h : Spelled line lead gap address trail)
    (hsep : isBlank sep = true) (hseparates : Separates sep line gap) :
    ∃ first second, line.splitSkipEmpty sep = [first, second] ∧ second.trimmed = address := by
  obtain ⟨rfl, -, hblank, hquad⟩ := h
  obtain ⟨hlen, hmem⟩ := hseparates
  obtain ⟨before, after, rfl⟩ := List.append_of_mem hmem
  have hline : lead ++ keyword ++ (before ++ sep :: after) ++ address ++ trail =
      (lead ++ keyword ++ before) ++ sep :: (after ++ (address ++ trail)) := by simp
  rw [hline, QString.splitSkipEmpty_append] at hlen ⊢
  have hfirst : QString.splitSkipEmpty sep (lead ++ keyword ++ before) ≠ [] := by
    rw [QString.splitSkipEmpty_ne_nil]
    obtain ⟨c, hc⟩ : ∃ c, c ∈ keyword := ⟨'n', by decide⟩
    exact ⟨c, by simp [hc], keyword_ne hc hsep⟩
  have hsecond : QString.splitSkipEmpty sep (after ++ (address ++ trail)) ≠ [] := by
    rw [QString.splitSkipEmpty_ne_nil]
    obtain ⟨c, hc⟩ := List.exists_mem_of_ne_nil _ (isQuad_ne_nil hquad)
    exact ⟨c, by simp [hc], isQuad_ne hquad hc hsep⟩
  have hone := List.length_pos_of_ne_nil hfirst
  have hother := List.length_pos_of_ne_nil hsecond
  rw [List.length_append] at hlen
  obtain ⟨first, hfirst⟩ := List.length_eq_one_iff.mp (by omega :
    (QString.splitSkipEmpty sep (lead ++ keyword ++ before)).length = 1)
  obtain ⟨second, hsecond⟩ := List.length_eq_one_iff.mp (by omega :
    (QString.splitSkipEmpty sep (after ++ (address ++ trail))).length = 1)
  refine ⟨first, second, by rw [hfirst, hsecond]; rfl, ?_⟩
  have hflat := QString.flatten_splitSkipEmpty sep (after ++ (address ++ trail))
  have hkept : address.filter (fun c => decide (c ≠ sep)) = address :=
    List.filter_eq_self.mpr fun c hc => decide_eq_true (isQuad_ne hquad hc hsep)
  rw [hsecond, List.flatten_singleton, List.filter_append, List.filter_append, hkept] at hflat
  rw [hflat]
  refine trimmed_append hquad (fun c hc => ?_) fun c hc => ?_
  · exact isSpace_of_isBlank (hblank c (by simp [List.mem_of_mem_filter hc]))
  · exact isSpace_of_isBlank (hblank c (by simp [List.mem_of_mem_filter hc]))

theorem Spelled.fields_iff (h : Spelled line lead gap address trail) :
    (∃ first second, TwoFields line first second ∧ second.trimmed = address) ↔
      Separates '\t' line gap ∨
        (line.splitSkipEmpty '\t').length ≠ 2 ∧ Separates ' ' line gap := by
  constructor
  · rintro ⟨first, second, hfields, htrimmed⟩
    rcases id hfields with htabs | ⟨hnot, hspaces⟩
    · exact .inl ⟨congrArg List.length htabs, h.sep_mem rfl hfields htabs htrimmed⟩
    · exact .inr ⟨hnot, congrArg List.length hspaces, h.sep_mem rfl hfields hspaces htrimmed⟩
  · rintro (htabs | ⟨hnot, hspaces⟩)
    · obtain ⟨first, second, hsplit, htrimmed⟩ := h.splits rfl htabs
      exact ⟨first, second, .inl hsplit, htrimmed⟩
    · obtain ⟨first, second, hsplit, htrimmed⟩ := h.splits rfl hspaces
      exact ⟨first, second, .inr ⟨hnot, hsplit⟩, htrimmed⟩

/-- Blanks of one kind separate the two words. -/
theorem Spelled.separates {sep : Char} (h : Spelled line lead gap address trail)
    (hsep : isBlank sep = true) (hone : ∀ c ∈ lead ++ gap ++ trail, c = sep) :
    Separates sep line gap := by
  obtain ⟨rfl, hne, -, hquad⟩ := h
  obtain ⟨c, gap, rfl⟩ := List.exists_cons_of_ne_nil hne
  obtain rfl : c = sep := hone c (by simp)
  have hkeyword : QString.splitSkipEmpty c (lead ++ (keyword ++ [])) = [keyword] :=
    QString.splitSkipEmpty_word (by decide) (fun hmem => keyword_ne hmem hsep rfl)
      (fun d hd => hone d (by simp [hd])) (by simp)
  have haddress : QString.splitSkipEmpty c (gap ++ (address ++ trail)) = [address] :=
    QString.splitSkipEmpty_word (isQuad_ne_nil hquad) (fun hmem => isQuad_ne hquad hmem hsep rfl)
      (fun d hd => hone d (by simp [hd])) (fun d hd => hone d (by simp [hd]))
  have hline : lead ++ keyword ++ c :: gap ++ address ++ trail =
      lead ++ (keyword ++ []) ++ c :: (gap ++ (address ++ trail)) := by simp
  refine ⟨?_, List.mem_cons_self⟩
  rw [hline, QString.splitSkipEmpty_append, hkeyword, haddress]
  rfl

/-- Tabs alone or spaces alone are read well. -/
theorem Spelled.regular (h : Spelled line lead gap address trail)
    (hone : (∀ c ∈ lead ++ gap ++ trail, c = '\t') ∨ ∀ c ∈ lead ++ gap ++ trail, c = ' ') :
    Regular line := by
  have hdir : directive line = some address := directive_eq_some.mpr ⟨lead, gap, trail, h⟩
  have hfields : Separates '\t' line gap ∨
      (line.splitSkipEmpty '\t').length ≠ 2 ∧ Separates ' ' line gap := by
    obtain htabs | hspaces := hone
    · exact .inl (h.separates rfl htabs)
    · refine .inr ⟨?_, h.separates rfl hspaces⟩
      have hnone : '\t' ∉ line := by
        obtain ⟨rfl, -, -, hquad⟩ := h
        have hblank : '\t' ∉ lead ++ gap ++ trail :=
          fun hmem => absurd (hspaces _ hmem) (by decide)
        have hkeyword : '\t' ∉ keyword := fun hmem => keyword_ne hmem rfl rfl
        have haddress : '\t' ∉ address := fun hmem => isQuad_ne hquad hmem rfl rfl
        simp only [List.mem_append, not_or] at hblank ⊢
        exact ⟨⟨⟨⟨hblank.1.1, hkeyword⟩, hblank.1.2⟩, haddress⟩, hblank.2⟩
      have hone : (line.splitSkipEmpty '\t').length ≤ (line.splitOn '\t').length :=
        List.length_filter_le _ _
      rw [List.splitOn_eq_singleton hnone, List.length_singleton] at hone
      omega
  refine ⟨fun lead' gap' address' trail' h' => ?_, fun hnot => ?_⟩
  · have hdir' : directive line = some address' := directive_eq_some.mpr ⟨lead', gap', trail', h'⟩
    obtain rfl := Option.some.inj (hdir.symm.trans hdir')
    exact h'.fields_iff.mp (h.fields_iff.mpr hfields)
  · exact absurd ⟨lead, gap, trail, h⟩ (hnot address)

/-- **One line.** -/
theorem dnsOfLine_iff_regular :
    (∀ address, dnsOfLine line = some address ↔ Directive line address) ↔ Regular line := by
  constructor
  · intro h
    refine ⟨fun lead gap address trail hspelled => ?_,
      fun hnone hhash hkeyword first second hfields hlen => ?_⟩
    · obtain ⟨-, -, first, second, hfields, htrimmed, -⟩ :=
        dnsOfLine_eq_some.mp ((h address).mpr ⟨lead, gap, trail, hspelled⟩)
      exact hspelled.fields_iff.mp ⟨first, second, hfields, htrimmed⟩
    · have hadds : dnsOfLine line = some second.trimmed :=
        dnsOfLine_eq_some.mpr ⟨hhash, hkeyword, first, second, hfields, rfl, hlen⟩
      exact hnone _ ((h _).mp hadds)
  · intro h
    have hadds : ∀ address, Directive line address → dnsOfLine line = some address := by
      rintro address ⟨lead, gap, trail, hspelled⟩
      have hdir : Directive line address := ⟨lead, gap, trail, hspelled⟩
      obtain ⟨first, second, hfields, htrimmed⟩ :=
        hspelled.fields_iff.mpr (h.named lead gap address trail hspelled)
      exact dnsOfLine_eq_some.mpr
        ⟨hdir.head, hdir.mentions, first, second, hfields, htrimmed, hdir.parts⟩
    intro address
    refine ⟨fun hsome => ?_, hadds address⟩
    by_cases hdir : ∃ other, Directive line other
    · obtain ⟨other, hdir⟩ := hdir
      obtain rfl := Option.some.inj (hsome.symm.trans (hadds other hdir))
      exact hdir
    · obtain ⟨hhash, hkeyword, first, second, hfields, rfl, hlen⟩ := dnsOfLine_eq_some.mp hsome
      exact absurd hlen (h.unnamed (not_exists.mp hdir) hhash hkeyword first second hfields)

/-- The list is that of the addresses of the name server lines, in their order,
and each line adds its own. -/
def Parses (text : QString) : Prop :=
  (∀ line ∈ linesOf text, ∀ address, dnsOfLine line = some address ↔ Directive line address) ∧
    getDnsListFromSysConfig (some text) = (linesOf text).filterMap directive

/-- **The file.** It is read as its format says exactly when every line is
regular. -/
theorem parses_iff (text : QString) : Parses text ↔ ∀ line ∈ linesOf text, Regular line := by
  have hlines : (∀ line ∈ linesOf text, ∀ address,
      dnsOfLine line = some address ↔ Directive line address) ↔
      ∀ line ∈ linesOf text, Regular line :=
    forall_congr' fun line => forall_congr' fun _ => dnsOfLine_iff_regular
  rw [Parses, hlines, and_iff_left_iff_imp]
  intro hregular
  refine List.filterMap_congr fun line hline => Option.ext fun address => ?_
  rw [dnsOfLine_iff_regular.mpr (hregular line hline) address, directive_eq_some]

/-- A line that is commented out with a semicolon adds its address. -/
theorem semicolon_not_parses : ¬ Parses ";nameserver 192.168.1.1\n".toList := by
  intro h
  exact absurd h.2 (by decide)

end KmreManager.ResolvConf
