import Mathlib.Data.List.Basic

/-!
The tokens of a configuration in the manner of C: words between blanks, quoted texts, braces and
semicolons, with comments to the end of a line and in blocks. A text that is clean says no more
than its words, wherever it is put.
-/

namespace SpatiumDdi.ConfText

abbrev Chars := List Char

inductive Token where
  | word (text : Chars)
  | quoted (text : Chars)
  | openBrace
  | closeBrace
  | semicolon
deriving DecidableEq

/-- Where the lexer stands: in the text, with the word so far reversed, in a comment or a quote. -/
inductive Mode where
  | text (word : Chars)
  | line
  | blockOpen
  | block (star : Bool)
  | quote (text : Chars)

def isBlank (c : Char) : Bool :=
  c = ' ' || c = '\t' || c = '\n' || c = '\r' || c = '\x0b' || c = '\x0c'

def flush (word : Chars) : List Token := if word = [] then [] else [.word word.reverse]

/-- One character, the next one being known: what it ends, and where the lexer stands then. -/
def step (c : Char) (next : Option Char) : Mode → List Token × Mode
  | .text word =>
    if c = '/' ∧ next = some '/' ∨ c = '#' then (flush word, .line)
    else if c = '/' ∧ next = some '*' then (flush word, .blockOpen)
    else if c = '"' then (flush word, .quote [])
    else if c = '\x7b' then (flush word ++ [.openBrace], .text [])
    else if c = '\x7d' then (flush word ++ [.closeBrace], .text [])
    else if c = ';' then (flush word ++ [.semicolon], .text [])
    else if isBlank c then (flush word, .text [])
    else ([], .text (c :: word))
  | .line => ([], if c = '\n' then .text [] else .line)
  | .blockOpen => ([], .block false)
  | .block star => ([], if star ∧ c = '/' then .text [] else .block (c = '*'))
  | .quote text => if c = '"' then ([.quoted text.reverse], .text []) else ([], .quote (c :: text))

def lexFrom (m : Mode) : Chars → List Token
  | [] =>
    match m with
    | .text word => flush word
    | _ => []
  | c :: rest => (step c rest.head? m).1 ++ lexFrom (step c rest.head? m).2 rest

def lex (s : Chars) : List Token := lexFrom (.text []) s

/-- A character that ends a word and more, or a line. -/
def isForeign (c : Char) : Bool :=
  c = ';' || c = '\x7b' || c = '\x7d' || c = '"' || c = '#' || c = '\n' || c = '\r'

def opensComment : Chars → Bool
  | [] => false
  | c :: rest =>
    (c = '/' && (rest.head? = some '/' || rest.head? = some '*')) || opensComment rest

def clean (s : Chars) : Bool := s.all (fun c => !isForeign c) && !opensComment s

def wordsFrom (word : Chars) : Chars → List Chars
  | [] => if word = [] then [] else [word.reverse]
  | c :: rest =>
    if isBlank c then (if word = [] then [] else [word.reverse]) ++ wordsFrom [] rest
    else wordsFrom (c :: word) rest

def words (s : Chars) : List Chars := wordsFrom [] s

theorem flush_eq (word : Chars) :
    flush word = (if word = [] then [] else [word.reverse]).map Token.word := by
  unfold flush
  split <;> rfl

variable {s : Chars}

theorem clean_iff : clean s = true ↔ (∀ c ∈ s, isForeign c = false) ∧ opensComment s = false := by
  simp [clean]

variable {c : Char}

theorem clean_cons (h : clean (c :: s) = true) :
    isForeign c = false ∧ ¬ (c = '/' ∧ (s.head? = some '/' ∨ s.head? = some '*')) ∧
      clean s = true := by
  obtain ⟨hforeign, hopens⟩ := clean_iff.1 h
  rw [opensComment, Bool.or_eq_false_iff] at hopens
  refine ⟨hforeign c List.mem_cons_self, ?_, ?_⟩
  · simpa using hopens.1
  · exact clean_iff.2 ⟨fun d hd => hforeign d (List.mem_cons_of_mem c hd), hopens.2⟩

theorem step_clean {next : Option Char} (hforeign : isForeign c = false)
    (hopens : ¬ (c = '/' ∧ (next = some '/' ∨ next = some '*'))) (word : Chars) :
    step c next (.text word) =
      if isBlank c then (flush word, .text []) else ([], .text (c :: word)) := by
  have hne : ∀ d, isForeign d = true → c ≠ d := by
    rintro d hd rfl
    rw [hforeign] at hd
    cases hd
  have hline : ¬ (c = '/' ∧ next = some '/' ∨ c = '#') := by
    rintro (⟨hc, hnext⟩ | hc)
    · exact hopens ⟨hc, .inl hnext⟩
    · exact hne '#' rfl hc
  have hblock : ¬ (c = '/' ∧ next = some '*') := fun h => hopens ⟨h.1, .inr h.2⟩
  rw [step, if_neg hline, if_neg hblock, if_neg (hne '"' rfl), if_neg (hne '\x7b' rfl),
    if_neg (hne '\x7d' rfl), if_neg (hne ';' rfl)]

theorem lexFrom_clean (h : clean s = true) (word rest : Chars) :
    lexFrom (.text word) (s ++ ';' :: rest) =
      (wordsFrom word s).map Token.word ++ .semicolon :: lexFrom (.text []) rest := by
  induction s generalizing word with
  | nil =>
    have hstep : step ';' rest.head? (.text word) = (flush word ++ [.semicolon], .text []) := by
      simp [step]
    rw [List.nil_append, lexFrom, hstep, flush_eq, wordsFrom, List.append_assoc]
    rfl
  | cons c s ih =>
    obtain ⟨hforeign, hopens, hclean⟩ := clean_cons h
    have hnext : ¬ (c = '/' ∧ ((s ++ ';' :: rest).head? = some '/' ∨
        (s ++ ';' :: rest).head? = some '*')) := by
      cases s with
      | nil => simp
      | cons d s => exact hopens
    rw [List.cons_append, lexFrom, step_clean hforeign hnext, wordsFrom]
    split
    · rw [ih hclean, flush_eq, List.map_append, List.append_assoc]
    · rw [ih hclean]
      rfl

def rendered (elements : List Chars) : Chars :=
  "\x7b ".toList ++ elements.flatMap (· ++ "; ".toList) ++ "\x7d".toList

def entryTokens (elements : List Chars) : List Token :=
  .openBrace :: (elements.flatMap fun e => (words e).map Token.word ++ [.semicolon]) ++
    [.closeBrace]

theorem lex_rendered {elements : List Chars} (h : ∀ e ∈ elements, clean e = true) :
    lex (rendered elements) = entryTokens elements := by
  have hlist : lexFrom (.text []) (elements.flatMap (· ++ "; ".toList) ++ "\x7d".toList) =
      (elements.flatMap fun e => (words e).map Token.word ++ [.semicolon]) ++ [.closeBrace] := by
    induction elements with
    | nil => rfl
    | cons e elements ih =>
      obtain ⟨he, hrest⟩ := List.forall_mem_cons.1 h
      have hblank : ∀ rest, lexFrom (.text []) (' ' :: rest) = lexFrom (.text []) rest := by
        intro rest
        rw [lexFrom, step_clean rfl (by simp)]
        rfl
      have hsplit : (e :: elements).flatMap (· ++ "; ".toList) ++ "\x7d".toList =
          e ++ ';' :: ' ' :: (elements.flatMap (· ++ "; ".toList) ++ "\x7d".toList) := by
        simp
      rw [hsplit, lexFrom_clean he, hblank, ih hrest, List.flatMap_cons, words]
      simp
  have hopen : ∀ rest, lexFrom (.text []) ('\x7b' :: ' ' :: rest) =
      .openBrace :: lexFrom (.text []) rest := fun _ => rfl
  rw [lex, rendered, List.append_assoc]
  exact (hopen _).trans (congrArg _ hlist)

theorem opensComment_of_not_mem (h : '/' ∉ s) : opensComment s = false := by
  induction s with
  | nil => rfl
  | cons c s ih =>
    obtain ⟨hc, hs⟩ := not_or.1 (mt List.mem_cons.2 h)
    rw [opensComment, ih hs]
    simp [Ne.symm hc]

theorem opensComment_append_left (h : '/' ∉ s) (t : Chars) :
    opensComment (s ++ t) = opensComment t := by
  induction s with
  | nil => rfl
  | cons c s ih =>
    obtain ⟨hc, hs⟩ := not_or.1 (mt List.mem_cons.2 h)
    rw [List.cons_append, opensComment, ih hs]
    simp [Ne.symm hc]

theorem opensComment_append_right {t : Chars} (h : ∀ c ∈ t, c ≠ '/' ∧ c ≠ '*') (s : Chars) :
    opensComment (s ++ t) = opensComment s := by
  induction s with
  | nil => exact opensComment_of_not_mem fun hmem => (h '/' hmem).1 rfl
  | cons c s ih =>
    rw [List.cons_append, opensComment, ih, opensComment]
    cases s with
    | cons d s => rfl
    | nil =>
      cases t with
      | nil => rfl
      | cons d t =>
        obtain ⟨hslash, hstar⟩ := h d List.mem_cons_self
        simp [hslash, hstar]

theorem opensComment_append_cons (hslash : c ≠ '/') (hstar : c ≠ '*') (s t : Chars) :
    opensComment (s ++ c :: t) = (opensComment s || opensComment t) := by
  induction s with
  | nil => simp [opensComment, hslash]
  | cons d s ih =>
    rw [List.cons_append, opensComment, ih, opensComment, Bool.or_assoc]
    cases s with
    | nil => simp [hslash, hstar]
    | cons e s => rfl

end SpatiumDdi.ConfText
