import KmreManager.QString

/-! # `QString::arg`

A place marker is a percent sign with a number of one or two digits, and `arg`
replaces all markers with the lowest number. Digits of other scripts, which Qt
takes, too, are left aside. -/
namespace KmreManager.QString

inductive Piece
  | letter (c : Char)
  | marker (text : QString) (number : Nat)
  deriving DecidableEq, Repr

def digits : QString → Option (QString × Nat)
  | c :: d :: _ =>
    if c.isDigit && d.isDigit then some ([c, d], Nat.ofDigitChars 10 [c, d] 0)
    else if c.isDigit then some ([c], Nat.ofDigitChars 10 [c] 0)
    else none
  | [c] => if c.isDigit then some ([c], Nat.ofDigitChars 10 [c] 0) else none
  | [] => none

/-- What makes a percent sign before `s` a marker; `%L1` is one, too. -/
def markerAt (s : QString) : Option (QString × Nat) :=
  match s with
  | 'L' :: rest => (digits rest).map fun found => ('L' :: found.1, found.2)
  | _ => digits s

/-- The letters and the markers, with `skip` characters of a marker still to drop. -/
def pieces : Nat → QString → List Piece
  | _, [] => []
  | skip + 1, _ :: cs => pieces skip cs
  | 0, c :: cs =>
    match if c = '%' then markerAt cs else none with
    | some (text, number) => .marker (c :: text) number :: pieces text.length cs
    | none => .letter c :: pieces 0 cs

def Piece.number : Piece → Option Nat
  | .letter _ => none
  | .marker _ number => some number

def Piece.fill (lowest : Nat) (a : QString) : Piece → QString
  | .letter c => [c]
  | .marker text number => if number = lowest then a else text

/-- `s.arg(a)`. -/
def arg (s a : QString) : QString :=
  match ((pieces 0 s).filterMap Piece.number).min? with
  | some lowest => (pieces 0 s).flatMap (Piece.fill lowest a)
  | none => s

variable {s t a : QString} {c : Char} {n skip lowest : Nat}

theorem pieces_append (h : '%' ∉ s) : pieces 0 (s ++ t) = s.map .letter ++ pieces 0 t := by
  induction s with
  | nil => rfl
  | cons c s ih =>
    have hc : c ≠ '%' := fun heq => h (heq ▸ List.mem_cons_self)
    rw [List.cons_append, pieces, if_neg hc, ih fun hmem => h (List.mem_cons_of_mem c hmem)]
    rfl

theorem fill_letters (s : QString) : (s.map Piece.letter).flatMap (Piece.fill lowest a) = s := by
  induction s with
  | nil => rfl
  | cons c s ih =>
    rw [List.map_cons, List.flatMap_cons, ih]
    rfl

/-- A text whose only marker stands at its end. -/
theorem arg_marker {marker rest : QString} (h : '%' ∉ s)
    (hmarker : pieces 0 (marker ++ rest) = .marker marker n :: rest.map .letter) :
    (s ++ (marker ++ rest)).arg a = s ++ (a ++ rest) := by
  have hletters : ∀ s : QString, (s.map Piece.letter).filterMap Piece.number = [] := fun s =>
    List.filterMap_eq_nil_iff.mpr fun piece hpiece => by
      obtain ⟨c, -, rfl⟩ := List.mem_map.mp hpiece
      rfl
  have hpieces : pieces 0 (s ++ (marker ++ rest)) =
      s.map .letter ++ .marker marker n :: rest.map .letter := by rw [pieces_append h, hmarker]
  have hmin : ((pieces 0 (s ++ (marker ++ rest))).filterMap Piece.number).min? = some n := by
    rw [hpieces, List.filterMap_append, hletters, List.nil_append, List.filterMap_cons, hletters]
    rfl
  rw [arg, hmin]
  dsimp only
  rw [hpieces, List.flatMap_append, fill_letters, List.flatMap_cons, fill_letters, Piece.fill,
    if_pos rfl]

/-! ## A text before a slash -/

theorem digits_append_slash : digits (s ++ '/' :: t) = digits s := by
  have hslash : ('/' : Char).isDigit = false := rfl
  cases s with
  | nil => cases t <;> simp [digits, hslash]
  | cons c s =>
    cases s with
    | nil => simp [digits, hslash]
    | cons d s => rfl

theorem markerAt_L (s : QString) :
    markerAt ('L' :: s) = (digits s).map fun found => ('L' :: found.1, found.2) := rfl

theorem markerAt_cons (hc : c ≠ 'L') : markerAt (c :: s) = digits (c :: s) := by
  unfold markerAt
  split
  · rename_i heq
    exact absurd (List.cons.inj heq).1 hc
  · rfl

theorem markerAt_append_slash : markerAt (s ++ '/' :: t) = markerAt s := by
  cases s with
  | nil => exact (markerAt_cons (by decide)).trans (digits_append_slash (s := []))
  | cons c s =>
    by_cases hc : c = 'L'
    · subst hc
      rw [List.cons_append, markerAt_L, markerAt_L, digits_append_slash]
    · rw [List.cons_append, markerAt_cons hc, markerAt_cons hc, ← List.cons_append,
        digits_append_slash]

/-- What a marker is made of. -/
def isMarkerChar (c : Char) : Bool := c = '%' || c = 'L' || c.isDigit

theorem digits_text {text : QString} (h : digits s = some (text, n)) :
    text <+: s ∧ text.all isMarkerChar = true := by
  have hdigit : ∀ {c : Char}, c.isDigit = true → isMarkerChar c = true := fun hc => by
    rw [isMarkerChar, hc, Bool.or_true]
  revert h
  fun_cases digits s with
  | case1 c d s hdigits =>
    intro h
    obtain ⟨rfl, -⟩ := Prod.mk.inj (Option.some.inj h)
    obtain ⟨hc, hd⟩ := Bool.and_eq_true_iff.mp hdigits
    exact ⟨⟨s, rfl⟩, by simp [hdigit hc, hdigit hd]⟩
  | case2 c d s hdigits hc =>
    intro h
    obtain ⟨rfl, -⟩ := Prod.mk.inj (Option.some.inj h)
    exact ⟨⟨d :: s, rfl⟩, by simp [hdigit hc]⟩
  | case3 => nofun
  | case4 c hc =>
    intro h
    obtain ⟨rfl, -⟩ := Prod.mk.inj (Option.some.inj h)
    exact ⟨⟨[], rfl⟩, by simp [hdigit hc]⟩
  | case5 => nofun
  | case6 => nofun

theorem markerAt_text {text : QString} (h : markerAt s = some (text, n)) :
    text <+: s ∧ text.all isMarkerChar = true := by
  cases s with
  | nil => cases h
  | cons c s =>
    by_cases hc : c = 'L'
    · subst hc
      obtain ⟨⟨found, m⟩, hfound, heq⟩ := Option.map_eq_some_iff.mp h
      obtain ⟨rfl, -⟩ := Prod.mk.inj heq
      obtain ⟨hstart, hall⟩ := digits_text hfound
      exact ⟨List.cons_prefix_cons.mpr ⟨rfl, hstart⟩, by simpa [isMarkerChar] using hall⟩
    · exact digits_text (markerAt_cons hc ▸ h)

theorem pieces_append_slash (h : skip ≤ s.length) :
    pieces skip (s ++ '/' :: t) = pieces skip s ++ pieces 0 ('/' :: t) := by
  fun_induction pieces skip s with
  | case1 skip =>
    obtain rfl := Nat.le_zero.mp h
    rfl
  | case2 skip c s ih =>
    rw [List.cons_append, pieces]
    exact ih (Nat.le_of_succ_le_succ h)
  | case3 c s text n hmarker ih =>
    obtain ⟨hc, hfound⟩ := Option.ite_none_right_eq_some.mp hmarker
    rw [List.cons_append, pieces, markerAt_append_slash, hmarker]
    dsimp only
    rw [ih (markerAt_text hfound).1.length_le]
    rfl
  | case4 c s hmarker ih =>
    rw [List.cons_append, pieces, markerAt_append_slash, hmarker]
    dsimp only
    rw [ih (Nat.zero_le _)]
    rfl

/-! ## The characters of a filled text -/

def Piece.text : Piece → QString
  | .letter c => [c]
  | .marker text _ => text

theorem text_pieces : (pieces skip s).flatMap Piece.text = s.drop skip := by
  fun_induction pieces skip s with
  | case1 skip => simp
  | case2 skip c s ih => rw [ih, List.drop_succ_cons]
  | case3 c s text n hmarker ih =>
    obtain ⟨hc, hfound⟩ := Option.ite_none_right_eq_some.mp hmarker
    have htext := List.prefix_iff_eq_append.mp (markerAt_text hfound).1
    rw [List.flatMap_cons, ih, Piece.text, List.cons_append, htext]
    rfl
  | case4 c s hmarker ih =>
    rw [List.flatMap_cons, ih]
    rfl

theorem marker_chars {text : QString} (h : .marker text n ∈ pieces skip s) :
    ∀ c ∈ text, isMarkerChar c = true := by
  fun_induction pieces skip s with
  | case1 skip => cases h
  | case2 skip c s ih => exact ih h
  | case3 c s found m hmarker ih =>
    obtain ⟨rfl, hfound⟩ := Option.ite_none_right_eq_some.mp hmarker
    rcases List.mem_cons.mp h with heq | h
    · obtain ⟨rfl, -⟩ := Piece.marker.inj heq
      exact List.forall_mem_cons.mpr ⟨rfl, List.all_eq_true.mp (markerAt_text hfound).2⟩
    · exact ih h
  | case4 c s hmarker ih =>
    rcases List.mem_cons.mp h with heq | h
    · cases heq
    · exact ih h

theorem letter_mem (h : .letter c ∈ pieces 0 s) : c ∈ s := by
  rw [← List.drop_zero (l := s), ← text_pieces]
  exact List.mem_flatMap.mpr ⟨_, h, List.mem_singleton.mpr rfl⟩

/-- A property that the characters of markers have. -/
theorem forall_mem_fill {p : Char → Prop} (hmarker : ∀ c, isMarkerChar c = true → p c) :
    (∀ c ∈ (pieces 0 s).flatMap (Piece.fill lowest a), p c) ↔
      (∀ c ∈ s, p c) ∧ ((∃ text, .marker text lowest ∈ pieces 0 s) → ∀ c ∈ a, p c) := by
  constructor
  · intro h
    refine ⟨fun c hc => ?_, ?_⟩
    · rw [← List.drop_zero (l := s), ← text_pieces] at hc
      obtain ⟨piece, hpiece, hc⟩ := List.mem_flatMap.mp hc
      cases piece with
      | letter d => exact h c (List.mem_flatMap.mpr ⟨_, hpiece, hc⟩)
      | marker text n => exact hmarker c (marker_chars hpiece c hc)
    · rintro ⟨text, htext⟩ c hc
      refine h c (List.mem_flatMap.mpr ⟨_, htext, ?_⟩)
      rwa [Piece.fill, if_pos rfl]
  · rintro ⟨hs, ha⟩ c hc
    obtain ⟨piece, hpiece, hc⟩ := List.mem_flatMap.mp hc
    cases piece with
    | letter d =>
      obtain rfl := List.mem_singleton.mp hc
      exact hs c (letter_mem hpiece)
    | marker text n =>
      rw [Piece.fill] at hc
      split at hc
      · rename_i hn
        exact ha ⟨text, hn ▸ hpiece⟩ c hc
      · exact hmarker c (marker_chars hpiece c hc)

/-! ## Markers that `arg` leaves alone -/

/-- The numbers of the markers. -/
def markers (s : QString) : List Nat := (pieces 0 s).filterMap Piece.number

theorem fill_of_not_mem {s : QString} (h : lowest ∉ markers s) :
    (pieces 0 s).flatMap (Piece.fill lowest a) = s := by
  have htext : (pieces 0 s).flatMap Piece.text = s := by rw [text_pieces, List.drop_zero]
  refine Eq.trans (List.flatMap_congr fun piece hpiece => ?_) htext
  cases piece with
  | letter c => rfl
  | marker text n =>
    have hn : n ≠ lowest := fun heq => h (heq ▸ List.mem_filterMap.mpr ⟨_, hpiece, rfl⟩)
    rw [Piece.fill, if_neg hn, Piece.text]

/-- Markers before a slash stay if one after it has a lower number. -/
theorem arg_append_slash (ht : n ∈ markers ('/' :: t)) (hs : ∀ m ∈ markers s, n < m) :
    (s ++ '/' :: t).arg a = s ++ QString.arg ('/' :: t) a := by
  have hpieces : pieces 0 (s ++ '/' :: t) = pieces 0 s ++ pieces 0 ('/' :: t) :=
    pieces_append_slash (Nat.zero_le _)
  obtain ⟨lowest, hlowest⟩ : ∃ lowest, (markers ('/' :: t)).min? = some lowest :=
    Option.isSome_iff_exists.mp (by
      cases hmarkers : markers ('/' :: t) with
      | nil => rw [hmarkers] at ht; cases ht
      | cons m ms => rfl)
  obtain ⟨hmem, hle⟩ := List.min?_eq_some_iff.mp hlowest
  have hfront : ∀ m ∈ markers s, lowest < m := fun m hm =>
    Nat.lt_of_le_of_lt (hle n ht) (hs m hm)
  have hall : ((pieces 0 (s ++ '/' :: t)).filterMap Piece.number).min? = some lowest := by
    rw [hpieces, List.filterMap_append, List.min?_eq_some_iff]
    refine ⟨List.mem_append_right _ hmem, fun m hm => ?_⟩
    rcases List.mem_append.mp hm with hm | hm
    · exact Nat.le_of_lt (hfront m hm)
    · exact hle m hm
  have hback : QString.arg ('/' :: t) a = (pieces 0 ('/' :: t)).flatMap (Piece.fill lowest a) := by
    rw [markers] at hlowest
    rw [arg, hlowest]
  rw [arg, hall, hback]
  dsimp only
  rw [hpieces, List.flatMap_append,
    fill_of_not_mem fun hm => Nat.lt_irrefl _ (hfront lowest hm)]

end KmreManager.QString
