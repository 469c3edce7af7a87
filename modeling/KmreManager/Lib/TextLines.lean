import Mathlib.Data.List.Basic

/-! # Texts and their lines

A text is a list of symbols, two of which end a line: the line feed does, and
the carriage return before it is dropped with every other one. Reading the
lines that were written gives them back, unless one of them held such a symbol. -/
namespace KmreManager.Lib.TextLines

variable {α : Type} {lf cr : α} {line : List α} {lines : List (List α)}

/-- Each line with a line feed after it. -/
def unlines (lf : α) (lines : List (List α)) : List α := lines.flatMap fun line => line ++ [lf]

@[simp] theorem unlines_nil : unlines lf ([] : List (List α)) = [] := rfl

@[simp] theorem unlines_cons : unlines lf (line :: lines) = line ++ lf :: unlines lf lines := by
  simp [unlines]

theorem unlines_eq_nil : unlines lf lines = [] ↔ lines = [] := by
  cases lines <;> simp

variable [DecidableEq α]

/-- The lines of a text, the last one with or without a line feed. `line` is
the line being read. -/
def splitLines (lf : α) : List α → List α → List (List α)
  | line, [] => if line = [] then [] else [line]
  | line, c :: cs => if c = lf then line :: splitLines lf [] cs else splitLines lf (line ++ [c]) cs

/-- The lines of a text with the carriage returns taken out. -/
def readLines (lf cr : α) (text : List α) : List (List α) :=
  splitLines lf [] (text.filter fun c => c ≠ cr)

theorem splitLines_append {start rest : List α} (h : lf ∉ line) :
    splitLines lf start (line ++ rest) = splitLines lf (start ++ line) rest := by
  induction line generalizing start with
  | nil => simp
  | cons c line ih =>
    have hc : c ≠ lf := fun heq => h (heq ▸ List.mem_cons_self)
    rw [List.cons_append, splitLines, if_neg hc, ih (fun hmem => h (List.mem_cons_of_mem c hmem))]
    simp

theorem splitLines_unlines (h : ∀ line ∈ lines, lf ∉ line) :
    splitLines lf [] (unlines lf lines) = lines := by
  induction lines with
  | nil => rfl
  | cons line lines ih =>
    have hrest := ih fun other hmem => h other (List.mem_cons_of_mem line hmem)
    rw [unlines_cons, splitLines_append (h line List.mem_cons_self), List.nil_append, splitLines,
      if_pos rfl, hrest]

/-- What is written line by line is read line by line. -/
theorem readLines_unlines (hlf : ∀ line ∈ lines, lf ∉ line) (hcr : ∀ line ∈ lines, cr ∉ line)
    (hne : lf ≠ cr) : readLines lf cr (unlines lf lines) = lines := by
  have hkeep : (unlines lf lines).filter (fun c => c ≠ cr) = unlines lf lines := by
    rw [List.filter_eq_self]
    intro c hc
    obtain ⟨line, hline, hmem⟩ := List.mem_flatMap.mp hc
    rcases List.mem_append.mp hmem with hmem | hmem
    · have hcne : c ≠ cr := fun heq => hcr line hline (heq ▸ hmem)
      simpa using hcne
    · obtain rfl := List.mem_singleton.mp hmem
      simpa using hne
  rw [readLines, hkeep, splitLines_unlines hlf]

end KmreManager.Lib.TextLines
