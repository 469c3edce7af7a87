import Mathlib.Data.List.Basic
import Mathlib.Data.List.DropRight
import Mathlib.Algebra.Ring.Nat

/-! # The Desktop Entry format

A file is a group of entries, a line for each key. A backslash escapes in a
value, and the value of `Exec` is split into words at its blanks, unless these
stand between double quotes. What is pasted into a file is read back only if it
holds nothing that means something there. -/
namespace KmreManager.Lib.DesktopEntry

abbrev Text := List Char

def isBlank (c : Char) : Bool := c = ' ' || c = '\t'

/-! ## Lines -/

inductive Line
  | ignored
  | group (name : Text)
  | entry (key value : Text)
  deriving DecidableEq, Repr

/-- Blanks around the equals sign are ignored. -/
def readLine (line : Text) : Option Line :=
  if line.all isBlank || line.head? = some '#' then some .ignored
  else if line.head? = some '[' then
    if line.getLast? = some ']' then some (.group line.tail.dropLast) else none
  else if '=' ∈ line then
    some (.entry ((line.takeWhile fun c => c ≠ '=').rdropWhile isBlank)
      ((line.dropWhile fun c => c ≠ '=').tail.dropWhile isBlank))
  else none

/-- The entries of a group, up to the next one. -/
def readEntries : List Text → Option (List (Text × Text))
  | [] => some []
  | line :: lines =>
    match readLine line with
    | none => none
    | some .ignored => readEntries lines
    | some (.group _) => some []
    | some (.entry key value) => (readEntries lines).map ((key, value) :: ·)

/-- The group `[Desktop Entry]` stands first. -/
def readGroup : List Text → Option (List (Text × Text))
  | [] => none
  | line :: lines =>
    match readLine line with
    | some .ignored => readGroup lines
    | some (.group name) => if name = "Desktop Entry".toList then readEntries lines else none
    | some (.entry _ _) | none => none

def read (text : Text) : Option (List (Text × Text)) := readGroup (text.splitOn '\n')

/-! ## Values -/

def escaped (c : Char) : Option Char :=
  if c = 's' then some ' '
  else if c = 'n' then some '\n'
  else if c = 't' then some '\t'
  else if c = 'r' then some '\r'
  else if c = '\\' then some '\\'
  else none

/-- There are no other escapes than these five. -/
def unescape : Text → Option Text
  | [] => some []
  | [c] => if c = '\\' then none else some [c]
  | c :: d :: rest =>
    if c = '\\' then (escaped d).bind fun e => (unescape rest).map (e :: ·)
    else (unescape (d :: rest)).map (c :: ·)

def stringValue (entries : List (Text × Text)) (key : Text) : Option Text :=
  (entries.lookup key).bind unescape

/-- Where the splitting of a command line stands; the word read so far is in
reverse order. -/
inductive Word
  | between
  | bare (word : Text)
  | quoted (word : Text)

/-- A backslash escapes between quotes. -/
def words : Word → Text → Option (List Text)
  | .between, [] => some []
  | .bare word, [] => some [word.reverse]
  | .quoted _, [] => none
  | .between, c :: cs =>
    if isBlank c then words .between cs
    else if c = '"' then words (.quoted []) cs
    else words (.bare [c]) cs
  | .bare word, c :: cs =>
    if isBlank c then (words .between cs).map (word.reverse :: ·)
    else if c = '"' then words (.quoted word) cs
    else words (.bare (c :: word)) cs
  | .quoted word, [c] => if c = '"' then some [word.reverse] else none
  | .quoted word, c :: d :: cs =>
    if c = '"' then words (.bare word) (d :: cs)
    else if c = '\\' then words (.quoted (d :: word)) cs
    else words (.quoted (c :: word)) (d :: cs)

def commandLine (entries : List (Text × Text)) (key : Text) : Option (List Text) :=
  (stringValue entries key).bind (words .between)

/-! ## What a line is read as -/

variable {key value line first text s t : Text} {lines rest ws : List Text} {w : Word}

/-- A text that stands for itself as a value. -/
structure Literal (s : Text) : Prop where
  line : '\n' ∉ s
  plain : '\\' ∉ s
  head : ∀ c ∈ s.head?, isBlank c = false

theorem Literal.dropWhile (h : Literal s) : s.dropWhile isBlank = s := by
  cases s with
  | nil => rfl
  | cons c s => exact List.dropWhile_cons_of_neg (by simpa using h.head c rfl)

/-- The letters of the word read so far. -/
def Word.letters : Word → Text
  | .between => []
  | .bare word | .quoted word => word

/-- A word that stands for itself in a command line. -/
structure Plain (word : Text) : Prop where
  ne_nil : word ≠ []
  line : '\n' ∉ word
  plain : '\\' ∉ word
  quote : '"' ∉ word
  blank : ∀ c ∈ word, isBlank c = false

def isPlain (c : Char) : Bool := c ≠ '\n' && c ≠ '\\' && c ≠ '"' && !isBlank c

theorem Plain.of_all {word : Text} (h : word.all isPlain = true) (hne : word ≠ []) :
    Plain word := by
  have hletters : ∀ c ∈ word, c ≠ '\n' ∧ c ≠ '\\' ∧ c ≠ '"' ∧ isBlank c = false := by
    simpa [isPlain, and_assoc] using h
  exact ⟨hne, fun hmem => (hletters _ hmem).1 rfl, fun hmem => (hletters _ hmem).2.1 rfl,
    fun hmem => (hletters _ hmem).2.2.1 rfl, fun c hc => (hletters c hc).2.2.2⟩

theorem Plain.literal {word : Text} (h : Plain word) : Literal word :=
  ⟨h.line, h.plain, fun c hc => h.blank c (List.mem_of_mem_head? hc)⟩

end KmreManager.Lib.DesktopEntry
