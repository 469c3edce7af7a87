import Mathlib.Data.List.Basic
import Mathlib.Data.List.DropRight
import Mathlib.Algebra.Ring.Nat

/-! # Simple commands of the POSIX shell

A text is read letter by letter into words, quotes taken away. What would be
expanded, redirect or start another command is not read at all. A word that is
pasted after others is read back only if all of its letters stand for
themselves. -/
namespace KmreManager.Lib.PosixShell

abbrev Text := List Char

/-- A letter of a word, and whether it was quoted. -/
structure Letter where
  char : Char
  quoted : Bool
  deriving DecidableEq, Repr

inductive Token
  | word (letters : List Letter)
  | newline
  deriving DecidableEq, Repr

def isBlank (c : Char) : Bool := c = ' ' || c = '\t'

/-- Operators, and what starts an expansion. -/
def isSpecial (c : Char) : Bool := c ∈ "&;<>|()$`".toList

/-! ## Reading words -/

/-- The word read so far is in reverse order; `bare none` is between words. -/
inductive State
  | bare (word : Option (List Letter))
  | escaped (word : Option (List Letter))
  | single (word : List Letter)
  | double (word : List Letter)
  | doubleEscaped (word : List Letter)
  | comment
  deriving DecidableEq, Repr

def delimit : Option (List Letter) → List Token
  | none => []
  | some word => [.word word.reverse]

def step : State → Char → Option (State × List Token)
  | .bare word, c =>
    if isBlank c then some (.bare none, delimit word)
    else if c = '\n' then some (.bare none, delimit word ++ [.newline])
    else if c = '\\' then some (.escaped word, [])
    else if c = '\x27' then some (.single (word.getD []), [])
    else if c = '"' then some (.double (word.getD []), [])
    else if isSpecial c then none
    else if c = '#' ∧ word = none then some (.comment, [])
    else some (.bare (some (⟨c, false⟩ :: word.getD [])), [])
  -- an escaped line break continues the line
  | .escaped word, c =>
    if c = '\n' then some (.bare word, [])
    else some (.bare (some (⟨c, true⟩ :: word.getD [])), [])
  | .single word, c =>
    if c = '\x27' then some (.bare (some word), []) else some (.single (⟨c, true⟩ :: word), [])
  | .double word, c =>
    if c = '"' then some (.bare (some word), [])
    else if c = '\\' then some (.doubleEscaped word, [])
    else if c = '$' ∨ c = '\x60' then none
    else some (.double (⟨c, true⟩ :: word), [])
  | .doubleEscaped word, c =>
    if c = '\n' then some (.double word, [])
    else if c ∈ "$`\"\\".toList then some (.double (⟨c, true⟩ :: word), [])
    else some (.double (⟨c, true⟩ :: ⟨'\\', true⟩ :: word), [])
  | .comment, c => if c = '\n' then some (.bare none, [.newline]) else some (.comment, [])

def scan : State → Text → Option (State × List Token)
  | s, [] => some (s, [])
  | s, c :: cs => (step s c).bind fun r => (scan r.1 cs).map fun r' => (r'.1, r.2 ++ r'.2)

def finish : State → Option (List Token)
  | .bare word => some (delimit word)
  | .comment => some []
  | .escaped _ | .single _ | .double _ | .doubleEscaped _ => none

def lex (s : State) (text : Text) : Option (List Token) :=
  (scan s text).bind fun r => (finish r.1).map (r.2 ++ ·)

/-! ## Words that stand for themselves -/

/-- Does a bracket close before the next slash? -/
def closes : List Letter → Bool
  | [] => false
  | l :: ls =>
    if l.char = '/' then false else if l.char = ']' && !l.quoted then true else closes ls

/-- Is this what follows the opening bracket of a bracket expression? It has at
least one member. -/
def isBracket (ls : List Letter) : Bool :=
  match if ls.head? = some ⟨'!', false⟩ then ls.tail else ls with
  | [] => false
  | l :: ls => l.char ≠ '/' && closes ls

/-- Is the word subject to pathname expansion? -/
def isPattern : List Letter → Bool
  | [] => false
  | l :: ls =>
    (!l.quoted && (l.char = '*' || l.char = '?' || (l.char = '[' && isBracket ls))) || isPattern ls

def expands (word : List Letter) : Bool := word.head? = some ⟨'~', false⟩ || isPattern word

def literal : Token → Option Text
  | .newline => none
  | .word word => if expands word then none else some (word.map Letter.char)

def literals : List Token → Option (List Text)
  | [] => some []
  | token :: tokens => (literal token).bind fun word => (literals tokens).map (word :: ·)

def reserved : List Text :=
  ["!", "\x7b", "\x7d", "case", "do", "done", "elif", "else", "esac", "fi", "for", "if", "in",
    "then", "until", "while"].map String.toList

/-- `name=value`. -/
def isAssignment (word : Text) : Bool :=
  let name := word.takeWhile fun c => c ≠ '='
  '=' ∈ word && name.all (fun c => c.isAlphanum || c = '_') &&
    name.head?.any fun c => !c.isDigit

def startsCommand (words : List Text) : Bool :=
  words.head?.any fun name => decide (name ∉ reserved) && !isAssignment name

def isNewline (token : Token) : Bool := token = .newline

/-- The words of a command string, if all of it is one simple command without
expansions, redirections and assignments. The string ends at the first NUL. -/
def simpleCommand (text : Text) : Option (List Text) :=
  (lex (.bare none) (text.takeWhile fun c => c ≠ '\x00')).bind fun tokens =>
    (literals ((tokens.dropWhile isNewline).rdropWhile isNewline)).bind fun words =>
      if startsCommand words then some words else none

/-- A letter that has no meaning outside quotes, except at the start of a word or
in a pattern. -/
def isOrdinary (c : Char) : Bool :=
  !isBlank c && !isSpecial c && c ∉ "\n\\'\"\x00".toList

def unquoted (word : Text) : List Letter := word.map fun c => ⟨c, false⟩

/-- A word that stands for itself without quotes. -/
structure Bare (word : Text) : Prop where
  ne_nil : word ≠ []
  ordinary : ∀ c ∈ word, isOrdinary c = true
  start : ∀ c ∈ word.head?, c ≠ '#' ∧ c ≠ '~'
  pattern : isPattern (unquoted word) = false

/-! ## Patterns in two parts -/

section Patterns
variable {ls ms : List Letter} {l : Letter}

theorem closes_append (h : closes ms = false) : closes (ls ++ ms) = closes ls := by
  induction ls with
  | nil => rw [List.nil_append, h, closes]
  | cons l ls ih => rw [List.cons_append, closes, closes, ih]

theorem closes_append_of_closes (h : closes ls = true) : closes (ls ++ ms) = true := by
  induction ls with
  | nil => cases h
  | cons l ls ih =>
    rw [List.cons_append]
    rw [closes] at h ⊢
    split at h
    · cases h
    · rename_i hslash
      rw [if_neg hslash]
      split at h
      · rename_i hclose
        rw [if_pos hclose]
      · rename_i hopen
        rw [if_neg hopen, ih h]

/-- The first member may be a closing bracket. -/
def opens : List Letter → Bool
  | [] => false
  | l :: ls => l.char ≠ '/' && closes ls

theorem isBracket_cons : isBracket (l :: ls) =
    if l = ⟨'!', false⟩ then opens ls else opens (l :: ls) := by
  by_cases hl : l = ⟨'!', false⟩
  · rw [isBracket, if_pos hl, List.head?_cons, if_pos (congrArg some hl), List.tail_cons]
    cases ls with
    | nil => rfl
    | cons l ls => rfl
  · rw [isBracket, if_neg hl, List.head?_cons, if_neg fun h => hl (Option.some.inj h)]
    rfl

theorem opens_of_closes (h : closes ls = false) : opens ls = false := by
  cases ls with
  | nil => rfl
  | cons l ls =>
    by_cases hslash : l.char = '/'
    · simp [opens, hslash]
    · rw [closes, if_neg hslash] at h
      split at h
      · cases h
      · rw [opens, h, Bool.and_false]

theorem isBracket_of_closes (h : closes ls = false) : isBracket ls = false := by
  cases ls with
  | nil => rfl
  | cons l ls =>
    rw [isBracket_cons]
    split
    · rename_i hl
      subst hl
      rw [closes, if_neg (by decide), if_neg (by decide)] at h
      exact opens_of_closes h
    · exact opens_of_closes h

theorem opens_append (h : closes ms = false) : opens (ls ++ ms) = opens ls := by
  cases ls with
  | nil => exact opens_of_closes h
  | cons l ls => rw [List.cons_append, opens, opens, closes_append h]

theorem isBracket_append (h : closes ms = false) : isBracket (ls ++ ms) = isBracket ls := by
  cases ls with
  | nil => exact isBracket_of_closes h
  | cons l ls =>
    rw [List.cons_append, isBracket_cons, isBracket_cons, opens_append h, ← List.cons_append,
      opens_append h]

theorem isBracket_append_of_isBracket (h : isBracket ls = true) : isBracket (ls ++ ms) = true := by
  have hopens : ∀ {ls}, opens ls = true → opens (ls ++ ms) = true := by
    intro ls h
    cases ls with
    | nil => cases h
    | cons l ls =>
      rw [opens, Bool.and_eq_true] at h
      rw [List.cons_append, opens, Bool.and_eq_true]
      exact ⟨h.1, closes_append_of_closes h.2⟩
  cases ls with
  | nil => cases h
  | cons l ls =>
    rw [isBracket_cons] at h
    rw [List.cons_append, isBracket_cons]
    split at h
    · rename_i hl
      rw [if_pos hl, hopens h]
    · rename_i hl
      rw [if_neg hl, ← List.cons_append, hopens h]

/-- Nothing after `ls` closes a bracket of `ls`. -/
theorem isPattern_append (h : closes ms = false) :
    isPattern (ls ++ ms) = (isPattern ls || isPattern ms) := by
  induction ls with
  | nil => rfl
  | cons l ls ih =>
    rw [List.cons_append, isPattern, isPattern, ih, isBracket_append h]
    exact (Bool.or_assoc _ _ _).symm

theorem isPattern_append_left (h : isPattern ls = true) : isPattern (ls ++ ms) = true := by
  induction ls with
  | nil => cases h
  | cons l ls ih =>
    rw [isPattern, Bool.or_eq_true] at h
    rw [List.cons_append, isPattern, Bool.or_eq_true]
    rcases h with h | h
    · simp only [Bool.and_eq_true, Bool.or_eq_true] at h ⊢
      exact .inl ⟨h.1, h.2.imp_right fun hopen => ⟨hopen.1, isBracket_append_of_isBracket hopen.2⟩⟩
    · exact .inr (ih h)

theorem isPattern_append_right (h : isPattern ms = true) : isPattern (ls ++ ms) = true := by
  induction ls with
  | nil => exact h
  | cons l ls ih => rw [List.cons_append, isPattern, ih, Bool.or_true]

theorem closes_slash (text : Text) : closes (unquoted ('/' :: text)) = false := by
  simp [unquoted, closes]

end Patterns
/-! ## Reading a text in two parts -/

variable {s s' : State} {c : Char} {left right text word path : Text} {toks out : List Token}

theorem scan_append : scan s (left ++ right) =
    (scan s left).bind fun r => (scan r.1 right).map fun r' => (r'.1, r.2 ++ r'.2) := by
  induction left generalizing s with
  | nil => simp [scan]
  | cons c left ih =>
    rw [List.cons_append, scan, scan]
    cases step s c with
    | none => rfl
    | some r =>
      rw [Option.bind_some, Option.bind_some, ih]
      cases scan r.1 left with
      | none => rfl
      | some r' => simp [Function.comp_def]

theorem lex_append (h : scan s left = some (s', toks)) :
    lex s (left ++ right) = (lex s' right).map (toks ++ ·) := by
  rw [lex, lex, scan_append, h, Option.bind_some]
  cases scan s' right with
  | none => rfl
  | some r => simp [Function.comp_def]

theorem lex_cons : lex s (c :: text) =
    (step s c).bind fun r => (lex r.1 text).map (r.2 ++ ·) := by
  rw [lex, scan]
  cases step s c with
  | none => rfl
  | some r =>
    rw [Option.bind_some, Option.bind_some, lex]
    cases scan r.1 text with
    | none => rfl
    | some r' => simp [Function.comp_def]

/-! ## No letter is read twice -/

def Token.letters : Token → Nat
  | .word word => word.length
  | .newline => 0

def letters (toks : List Token) : Nat := (toks.map Token.letters).sum

/-- The letters of the word being read. A backslash between double quotes may
turn out to be one. -/
def State.letters : State → Nat
  | .bare word | .escaped word => (word.getD []).length
  | .single word | .double word => word.length
  | .doubleEscaped word => word.length + 1
  | .comment => 0

@[simp] theorem letters_nil : letters [] = 0 := rfl

@[simp] theorem letters_append (toks out : List Token) :
    letters (toks ++ out) = letters toks + letters out := by
  simp [letters]

theorem letters_delimit (w : Option (List Letter)) :
    letters (delimit w) = (w.getD []).length := by
  cases w with
  | none => rfl
  | some w => simp [letters, delimit, Token.letters]

@[simp] theorem letters_newline (w : Option (List Letter)) :
    letters (delimit w ++ [Token.newline]) = (w.getD []).length := by
  rw [letters_append, letters_delimit]
  rfl

theorem isOrdinary_iff : isOrdinary c = true ↔ isBlank c = false ∧ isSpecial c = false ∧
    c ≠ '\n' ∧ c ≠ '\\' ∧ c ≠ '\x27' ∧ c ≠ '"' ∧ c ≠ '\x00' := by
  simp [isOrdinary, and_assoc]

/-- The letters that are not ordinary. -/
def meaningful : Text := " \t&;<>|()$`\n\\'\"\x00".toList

theorem isOrdinary_iff_notMem : isOrdinary c = true ↔ c ∉ meaningful := by
  have hparts : meaningful =
      " \t".toList ++ ("&;<>|()$`".toList ++ "\n\\'\"\x00".toList) := by decide
  have hblank : c ∉ " \t".toList ↔ isBlank c = false := by simp [isBlank]
  have hspecial : c ∉ "&;<>|()$`".toList ↔ isSpecial c = false := by rw [isSpecial]; simp
  rw [hparts, List.mem_append, List.mem_append, not_or, not_or, hblank, hspecial, isOrdinary]
  simp [and_assoc]

/-- Outside quotes a letter is lost unless it is ordinary. -/
theorem step_bare_cases {w : Option (List Letter)} (h : step (.bare w) c = some (s', out)) :
    letters out + s'.letters = (w.getD []).length ∨
      (c ≠ '\x00' → isOrdinary c = true) ∧ (w = none → c ≠ '#') ∧
        s' = .bare (some (⟨c, false⟩ :: w.getD [])) ∧ out = [] := by
  rw [step] at h
  split at h
  · cases h
    exact .inl (letters_delimit w)
  split at h
  · cases h
    exact .inl (letters_newline w)
  split at h
  · cases h
    exact .inl (Nat.zero_add _)
  split at h
  · cases h
    exact .inl (Nat.zero_add _)
  split at h
  · cases h
    exact .inl (Nat.zero_add _)
  split at h
  · cases h
  split at h
  · rename_i hcomment
    cases h
    rw [hcomment.2]
    exact .inl rfl
  · rename_i hblank hline hbackslash hsingle hdouble hspecial hcomment
    cases h
    refine .inr ⟨fun hnul => ?_, fun hw hhash => hcomment ⟨hhash, hw⟩, rfl, rfl⟩
    simp [isOrdinary_iff, hblank, hline, hbackslash, hsingle, hdouble, hspecial, hnul]

theorem letters_step (h : step s c = some (s', out)) :
    letters out + s'.letters ≤ s.letters + 1 := by
  cases s with
  | bare w =>
    rcases step_bare_cases h with hlost | ⟨-, -, rfl, rfl⟩
    · simp only [State.letters] at hlost ⊢
      omega
    · simp [State.letters]
  | escaped w =>
    rw [step] at h
    split at h
    · cases h
      simp [State.letters]
    · cases h
      simp [State.letters]
  | single w =>
    rw [step] at h
    split at h
    · cases h
      simp [State.letters]
    · cases h
      simp [State.letters]
  | double w =>
    rw [step] at h
    split at h
    · cases h
      simp [State.letters]
    split at h
    · cases h
      simp [State.letters]
    split at h
    · cases h
    · cases h
      simp [State.letters]
  | doubleEscaped w =>
    rw [step] at h
    split at h
    · cases h
      simp only [State.letters, letters_nil]
      omega
    split at h
    · cases h
      simp [State.letters]
    · cases h
      simp [State.letters]
  | comment =>
    rw [step] at h
    split at h
    · cases h
      decide
    · cases h
      decide

theorem letters_finish (h : finish s = some toks) : letters toks ≤ s.letters := by
  cases s with
  | bare w =>
    obtain rfl := Option.some.inj h
    exact (letters_delimit w).le
  | comment =>
    obtain rfl := Option.some.inj h
    exact Nat.zero_le _
  | escaped w => cases h
  | single w => cases h
  | double w => cases h
  | doubleEscaped w => cases h

theorem lex_nil : lex s [] = finish s := by
  rw [lex, scan, Option.bind_some]
  simp

theorem letters_lex (h : lex s text = some toks) : letters toks ≤ s.letters + text.length := by
  induction text generalizing s toks with
  | nil => exact letters_finish (lex_nil ▸ h)
  | cons c text ih =>
    rw [lex_cons, Option.bind_eq_some_iff] at h
    obtain ⟨⟨s', out⟩, hstep, hrest⟩ := h
    obtain ⟨more, hmore, rfl⟩ := Option.map_eq_some_iff.mp hrest
    have hfirst := letters_step hstep
    have hlater := ih hmore
    rw [letters_append, List.length_cons]
    dsimp only at hlater ⊢
    omega

/-- If every letter is kept, all of them are ordinary. -/
theorem ordinary_of_letters {w : Option (List Letter)} (h : lex (.bare w) text = some toks)
    (hnul : '\x00' ∉ text) (hlen : (w.getD []).length + text.length ≤ letters toks) :
    (∀ c ∈ text, isOrdinary c = true) ∧ (w = none → ∀ c ∈ text.head?, c ≠ '#') := by
  induction text generalizing w toks with
  | nil => simp
  | cons c text ih =>
    rw [lex_cons, Option.bind_eq_some_iff] at h
    obtain ⟨⟨s', out⟩, hstep, hrest⟩ := h
    obtain ⟨more, hmore, rfl⟩ := Option.map_eq_some_iff.mp hrest
    have hlater := letters_lex hmore
    rw [letters_append, List.length_cons] at hlen
    dsimp only at hlater hlen
    rcases step_bare_cases hstep with hlost | ⟨hordinary, hhash, rfl, rfl⟩
    · omega
    · have hfirst := hordinary fun heq => hnul (heq ▸ List.mem_cons_self)
      obtain ⟨hall, -⟩ := ih hmore (fun hmem => hnul (List.mem_cons_of_mem c hmem)) (by
        simp only [letters_nil, Option.getD_some, List.length_cons] at hlen ⊢
        omega)
      exact ⟨List.forall_mem_cons.mpr ⟨hfirst, hall⟩, by simpa using hhash⟩

theorem step_ordinary {w : Option (List Letter)} (hc : isOrdinary c = true)
    (hhash : w = none → c ≠ '#') :
    step (.bare w) c = some (.bare (some (⟨c, false⟩ :: w.getD [])), []) := by
  obtain ⟨hblank, hspecial, hline, hbackslash, hsingle, hdouble, -⟩ := isOrdinary_iff.mp hc
  have hcomment : ¬ (c = '#' ∧ w = none) := fun h => hhash h.2 h.1
  rw [step, hblank, if_neg Bool.false_ne_true, if_neg hline, if_neg hbackslash, if_neg hsingle,
    if_neg hdouble, hspecial, if_neg Bool.false_ne_true, if_neg hcomment]

theorem lex_word {word : List Letter} (h : ∀ c ∈ text, isOrdinary c = true) :
    lex (.bare (some word)) text = some [.word (word.reverse ++ unquoted text)] := by
  induction text generalizing word with
  | nil => simp [lex_nil, finish, delimit, unquoted]
  | cons c text ih =>
    obtain ⟨hc, hrest⟩ := List.forall_mem_cons.mp h
    rw [lex_cons, step_ordinary hc (by simp), Option.bind_some, Option.getD_some, ih hrest]
    simp [unquoted]

/-- An ordinary text is read as one word. -/
theorem lex_ordinary (hne : text ≠ []) (h : ∀ c ∈ text, isOrdinary c = true)
    (hhash : ∀ c ∈ text.head?, c ≠ '#') :
    lex (.bare none) text = some [.word (unquoted text)] := by
  obtain ⟨c, text, rfl⟩ := List.exists_cons_of_ne_nil hne
  obtain ⟨hc, hrest⟩ := List.forall_mem_cons.mp h
  rw [lex_cons, step_ordinary hc fun _ => hhash c rfl, Option.bind_some, lex_word hrest]
  simp [unquoted]

/-! ## A word after a command -/

variable {words more : List Text}

theorem literals_cons {token : Token} (h : literals (token :: toks) = some words) :
    ∃ first more, words = first :: more ∧ literal token = some first ∧
      literals toks = some more := by
  obtain ⟨first, hfirst, hrest⟩ := Option.bind_eq_some_iff.mp h
  obtain ⟨more, hmore, rfl⟩ := Option.map_eq_some_iff.mp hrest
  exact ⟨first, more, rfl, hfirst, hmore⟩

theorem literals_append (h : literals toks = some words) :
    literals (toks ++ out) = (literals out).map (words ++ ·) := by
  induction toks generalizing words with
  | nil =>
    obtain rfl := Option.some.inj h
    simp
  | cons token toks ih =>
    obtain ⟨first, more, rfl, hfirst, hmore⟩ := literals_cons h
    rw [List.cons_append, literals, hfirst, Option.bind_some, ih hmore]
    simp [Function.comp_def]

theorem literal_eq_some {token : Token} : literal token = some word ↔
    ∃ ls, token = .word ls ∧ expands ls = false ∧ ls.map Letter.char = word := by
  cases token with
  | newline => simp [literal]
  | word ls => simp [literal]

theorem letters_literals (h : literals toks = some words) :
    letters toks = (words.map List.length).sum ∧ words.length = toks.length ∧
      ∀ token ∈ toks, isNewline token = false := by
  induction toks generalizing words with
  | nil =>
    obtain rfl := Option.some.inj h
    simp
  | cons token toks ih =>
    obtain ⟨first, more, rfl, hfirst, hmore⟩ := literals_cons h
    obtain ⟨ls, rfl, -, rfl⟩ := literal_eq_some.mp hfirst
    obtain ⟨hletters, hlength, hnone⟩ := ih hmore
    refine ⟨?_, by simp [hlength], List.forall_mem_cons.mpr ⟨by simp [isNewline], hnone⟩⟩
    rw [List.map_cons, List.sum_cons, ← hletters]
    simp [letters, Token.letters]

theorem letters_dropWhile : letters (toks.dropWhile isNewline) = letters toks := by
  induction toks with
  | nil => rfl
  | cons token toks ih =>
    rw [List.dropWhile_cons]
    split
    · rename_i hnewline
      obtain rfl : token = .newline := by simpa [isNewline] using hnewline
      rw [ih]
      simp [letters, Token.letters]
    · rfl

theorem letters_rdropWhile : letters (toks.rdropWhile isNewline) = letters toks := by
  have hreverse : ∀ toks : List Token, letters toks.reverse = letters toks := fun toks => by
    simp [letters, List.sum_reverse]
  rw [List.rdropWhile, hreverse, letters_dropWhile, hreverse]

theorem trim_eq_self (h : ∀ token ∈ toks, isNewline token = false) :
    (toks.dropWhile isNewline).rdropWhile isNewline = toks := by
  have hdrop : toks.dropWhile isNewline = toks := by
    cases toks with
    | nil => rfl
    | cons token toks =>
      exact List.dropWhile_cons_of_neg (by simpa using h token List.mem_cons_self)
  rw [hdrop, List.rdropWhile_eq_self_iff]
  intro hne
  simpa using h _ (List.getLast_mem hne)

/-! ## Quoted words -/

def quoted (word : Text) : List Letter := word.map fun c => ⟨c, true⟩

theorem scan_single {w : List Letter} (h : '\x27' ∉ text) :
    scan (.single w) text = some (.single ((quoted text).reverse ++ w), []) := by
  induction text generalizing w with
  | nil => rfl
  | cons c text ih =>
    have hc : c ≠ '\x27' := fun heq => h (heq ▸ List.mem_cons_self)
    rw [scan, step, if_neg hc, Option.bind_some, ih fun hmem => h (List.mem_cons_of_mem c hmem)]
    simp [quoted]

theorem literal_quoted (text : Text) : literal (.word (quoted text)) = some text := by
  have hpattern : isPattern (quoted text) = false := by
    induction text with
    | nil => rfl
    | cons c text ih => simpa [quoted, isPattern] using ih
  have htilde : (quoted text).head? ≠ some ⟨'~', false⟩ := by
    cases text with
    | nil => simp [quoted]
    | cons c text => simp [quoted]
  rw [literal, expands, hpattern, Bool.or_false, decide_eq_false htilde,
    if_neg Bool.false_ne_true]
  simp [quoted, Function.comp_def]

/-- A bare word is not expanded. -/
theorem bare_iff : Bare word ↔ word ≠ [] ∧ (∀ c ∈ word, isOrdinary c = true) ∧
    (∀ c ∈ word.head?, c ≠ '#') ∧ expands (unquoted word) = false := by
  have htilde : (unquoted word).head? = some ⟨'~', false⟩ ↔ '~' ∈ word.head? := by
    rw [unquoted, List.head?_map, Option.map_eq_some_iff]
    constructor
    · rintro ⟨c, hc, heq⟩
      rw [hc]
      exact congrArg some (Letter.mk.inj heq).1
    · intro h
      exact ⟨'~', h, rfl⟩
  rw [expands, Bool.or_eq_false_iff, decide_eq_false_iff_not, htilde]
  constructor
  · intro h
    exact ⟨h.ne_nil, h.ordinary, fun c hc => (h.start c hc).1, fun hmem => (h.start _ hmem).2 rfl,
      h.pattern⟩
  · intro h
    obtain ⟨hne, hordinary, hhash, htilde, hpattern⟩ := h
    refine ⟨hne, hordinary, fun c hc => ⟨hhash c hc, fun heq => htilde (heq ▸ hc)⟩, hpattern⟩

theorem literal_unquoted (h : expands (unquoted word) = false) :
    literals [.word (unquoted word)] = some [word] := by
  have hchars : (unquoted word).map Letter.char = word := by simp [unquoted, Function.comp_def]
  rw [literals, literal, h, if_neg Bool.false_ne_true, hchars]
  rfl

theorem takeWhile_command (hnul : '\x00' ∉ left) :
    (left ++ word).takeWhile (fun c => c ≠ '\x00') = left ++ word.takeWhile fun c => c ≠ '\x00' :=
  List.takeWhile_append_of_pos fun c hc => by
    have hne : c ≠ '\x00' := fun heq => hnul (heq ▸ hc)
    simpa using hne

/-- A command that is read with the word as its last argument reads all of it. -/
theorem reads_word (hpre : scan (.bare none) left = some (.bare none, toks))
    (hnul : '\x00' ∉ left) (hwords : literals toks = some words)
    (h : simpleCommand (left ++ word) = some (words ++ [word])) :
    '\x00' ∉ word ∧ ∃ more, lex (.bare none) word = some more ∧ letters more = word.length ∧
      literals (((toks ++ more).dropWhile isNewline).rdropWhile isNewline) =
        some (words ++ [word]) := by
  obtain ⟨tokens, htokens, hbind⟩ := Option.bind_eq_some_iff.mp h
  obtain ⟨all, hall, hif⟩ := Option.bind_eq_some_iff.mp hbind
  obtain rfl : all = words ++ [word] := by
    rw [Option.ite_none_right_eq_some] at hif
    exact Option.some.inj hif.2
  rw [takeWhile_command hnul, lex_append hpre, Option.map_eq_some_iff] at htokens
  obtain ⟨more, hmore, rfl⟩ := htokens
  have hlen : letters more = word.length := by
    have hsum := (letters_literals hall).1
    rw [letters_rdropWhile, letters_dropWhile, letters_append, (letters_literals hwords).1] at hsum
    simpa using hsum
  -- so the word has no NUL that would end the string
  have hself : word.takeWhile (fun c => c ≠ '\x00') = word := by
    refine (List.takeWhile_prefix _).eq_of_length_le ?_
    have hle := letters_lex hmore
    simp only [State.letters, Option.getD_none, List.length_nil] at hle
    omega
  rw [hself] at hmore
  refine ⟨fun hmem => ?_, more, hmore, hlen, hall⟩
  rw [← hself] at hmem
  simpa using List.mem_takeWhile_imp hmem

/-- A command that ends in a blank, with one more word pasted after it, is the
command with that argument exactly if the word is bare. -/
theorem simpleCommand_append_iff (hpre : scan (.bare none) left = some (.bare none, toks))
    (hnul : '\x00' ∉ left) (hwords : literals toks = some words)
    (hstart : startsCommand words = true) :
    simpleCommand (left ++ word) = some (words ++ [word]) ↔ Bare word := by
  obtain ⟨-, -, hnone⟩ := letters_literals hwords
  have hword : ∀ token ∈ toks ++ [.word (unquoted word)], isNewline token = false := by
    intro token htoken
    rcases List.mem_append.mp htoken with htoken | htoken
    · exact hnone token htoken
    · rw [List.mem_singleton.mp htoken]
      simp [isNewline]
  rw [bare_iff]
  constructor
  · intro h
    obtain ⟨hnulWord, more, hmore, hlen, hall⟩ := reads_word hpre hnul hwords h
    have hne : word ≠ [] := by
      rintro rfl
      rw [lex_nil] at hmore
      obtain rfl := Option.some.inj hmore
      rw [delimit, List.append_nil, trim_eq_self hnone, hwords, Option.some_inj] at hall
      simpa using congrArg List.length hall
    obtain ⟨hordinary, hhash⟩ := ordinary_of_letters hmore hnulWord (by simp [hlen])
    rw [lex_ordinary hne hordinary (hhash rfl), Option.some_inj] at hmore
    subst hmore
    rw [trim_eq_self hword, literals_append hwords, Option.map_eq_some_iff] at hall
    obtain ⟨rest, hrest, -⟩ := hall
    obtain ⟨first, _, rfl, hfirst, -⟩ := literals_cons hrest
    obtain ⟨ls, hls, hexpands, -⟩ := literal_eq_some.mp hfirst
    obtain rfl := Token.word.inj hls
    exact ⟨hne, hordinary, hhash rfl, hexpands⟩
  · intro h
    obtain ⟨hne, hordinary, hhash, hexpands⟩ := h
    have hself : word.takeWhile (fun c => c ≠ '\x00') = word :=
      List.takeWhile_eq_self_iff.mpr fun c hc => by
        simpa using (isOrdinary_iff.mp (hordinary c hc)).2.2.2.2.2.2
    have hstart' : startsCommand (words ++ [word]) = true := by
      cases words with
      | nil => cases hstart
      | cons first words => exact hstart
    rw [simpleCommand, takeWhile_command hnul, hself, lex_append hpre,
      lex_ordinary hne hordinary hhash, Option.map_some, Option.bind_some, trim_eq_self hword,
      literals_append hwords, literal_unquoted hexpands, Option.map_some, Option.bind_some,
      if_pos hstart']

end KmreManager.Lib.PosixShell
