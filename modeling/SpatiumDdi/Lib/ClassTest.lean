import SpatiumDdi.Lib.AddressText

/-!
The class tests of Kea over the options of a packet: `option[n].exists`,
`option[n].hex == 0x…`, `not`, `and`, `or` and parentheses. A text is read into tokens, these
into a test, and a test holds of a packet or does not. A text that does not read is no test.
-/

namespace SpatiumDdi.ClassTest

abbrev Chars := List Char

abbrev Bytes := List UInt8

inductive Test where
  | exists (option : ℕ)
  | hexIs (option : ℕ) (bytes : Bytes)
  | not (t : Test)
  | and (t u : Test)
  | or (t u : Test)

abbrev Options := ℕ → Option Bytes

def Test.holds (options : Options) : Test → Bool
  | .exists n => (options n).isSome
  | .hexIs n bytes => (options n).getD [] = bytes
  | .not t => !t.holds options
  | .and t u => t.holds options && u.holds options
  | .or t u => t.holds options || u.holds options

inductive Token where
  | lpar
  | rpar
  | lbracket
  | rbracket
  | dot
  | equal
  | int (n : ℕ)
  | bytes (b : Bytes)
  | option
  | hex
  | exists
  | not
  | and
  | or
  deriving DecidableEq

def isHexDigit (c : Char) : Bool := (Ipaddress.hexValue c).isSome

def isLetter (c : Char) : Bool := 'a' ≤ c && c ≤ 'z'

/-- The bytes of an even number of hex digits. -/
def pairs : Chars → Bytes
  | a :: b :: rest =>
    UInt8.ofNat ((Ipaddress.hexValue a).getD 0 * 16 + (Ipaddress.hexValue b).getD 0) :: pairs rest
  | _ => []

/-- The bytes of a literal: an odd number of digits has a zero before it. -/
def literal (digits : Chars) : Bytes :=
  if digits.length % 2 = 0 then pairs digits else pairs ('0' :: digits)

def keyword (word : Chars) : Option Token :=
  if word = ['o', 'p', 't', 'i', 'o', 'n'] then some .option
  else if word = ['h', 'e', 'x'] then some .hex
  else if word = ['e', 'x', 'i', 's', 't', 's'] then some .exists
  else if word = ['n', 'o', 't'] then some .not
  else if word = ['a', 'n', 'd'] then some .and
  else if word = ['o', 'r'] then some .or
  else none

/-- The first token of a text, or a blank, and what follows. -/
def lexOne : Chars → Option (Option Token × Chars)
  | [] => none
  | ' ' :: rest => some (none, rest)
  | '(' :: rest => some (some .lpar, rest)
  | ')' :: rest => some (some .rpar, rest)
  | '[' :: rest => some (some .lbracket, rest)
  | ']' :: rest => some (some .rbracket, rest)
  | '.' :: rest => some (some .dot, rest)
  | '=' :: '=' :: rest => some (some .equal, rest)
  | '0' :: 'x' :: rest =>
    if rest.takeWhile isHexDigit = [] then none
    else some (some (.bytes (literal (rest.takeWhile isHexDigit))), rest.dropWhile isHexDigit)
  | c :: rest =>
    if c.isDigit then
      some (some (.int (Nat.ofDigitChars 10 (c :: rest.takeWhile Char.isDigit) 0)),
        rest.dropWhile Char.isDigit)
    else if isLetter c then
      (keyword (c :: rest.takeWhile isLetter)).map fun token => (some token, rest.dropWhile isLetter)
    else none

def lexAll : ℕ → Chars → Option (List Token)
  | _, [] => some []
  | 0, _ :: _ => none
  | n + 1, c :: s =>
    (lexOne (c :: s)).bind fun found => (lexAll n found.2).map fun tokens => found.1.toList ++ tokens

def lex (s : Chars) : Option (List Token) := lexAll s.length s

variable {s : Chars}

theorem lexOne_length {rest : Chars} {token : Option Token} (h : lexOne s = some (token, rest)) :
    rest.length < s.length := by
  have hdrop : ∀ (p : Char → Bool) (t : Chars), (t.dropWhile p).length < t.length + 1 := fun p t =>
    Nat.lt_succ_of_le (List.length_dropWhile_le p t)
  unfold lexOne at h
  split at h
  · cases h
  all_goals try
    obtain ⟨_, rfl⟩ := Prod.mk.inj (Option.some.inj h)
    simp
  · split at h
    · cases h
    · obtain ⟨_, rfl⟩ := Prod.mk.inj (Option.some.inj h)
      exact Nat.lt_succ_of_lt (hdrop _ _)
  · split at h
    · obtain ⟨_, rfl⟩ := Prod.mk.inj (Option.some.inj h)
      exact hdrop _ _
    · split at h
      · obtain ⟨_, _, heq⟩ := Option.map_eq_some_iff.mp h
        obtain ⟨_, rfl⟩ := Prod.mk.inj heq
        exact hdrop _ _
      · cases h

/-- From the first text the tokens are read, and the second is left. -/
inductive Reads : Chars → List Token → Chars → Prop
  | refl (s : Chars) : Reads s [] s
  | blank {s t u : Chars} {tokens : List Token} : lexOne s = some (none, t) → Reads t tokens u →
      Reads s tokens u
  | token {s t u : Chars} {token : Token} {tokens : List Token} :
      lexOne s = some (some token, t) → Reads t tokens u → Reads s (token :: tokens) u

variable {tokens factor : List Token}

theorem Reads.trans {t u : Chars} {tokens' : List Token} (h : Reads s tokens t)
    (h' : Reads t tokens' u) : Reads s (tokens ++ tokens') u := by
  induction h with
  | refl => exact h'
  | blank hone _ ih => exact .blank hone (ih h')
  | token hone _ ih => exact .token hone (ih h')

theorem lexAll_of_reads (h : Reads s tokens []) {n : ℕ} (hn : s.length ≤ n) :
    lexAll n s = some tokens := by
  generalize hend : ([] : Chars) = u at h
  induction h generalizing n with
  | refl =>
    subst hend
    cases n <;> rfl
  | @blank s t u tokens hone _ ih =>
    have hlen := lexOne_length hone
    cases s with
    | nil => cases hone
    | cons c s =>
      cases n with
      | zero => cases hn
      | succ n =>
        rw [List.length_cons] at hn hlen
        rw [lexAll, hone, Option.bind_some, ih (by omega) hend]
        rfl
  | @token s t u token tokens hone _ ih =>
    have hlen := lexOne_length hone
    cases s with
    | nil => cases hone
    | cons c s =>
      cases n with
      | zero => cases hn
      | succ n =>
        rw [List.length_cons] at hn hlen
        rw [lexAll, hone, Option.bind_some, ih (by omega) hend]
        rfl

theorem lex_of_reads (h : Reads s tokens []) : lex s = some tokens :=
  lexAll_of_reads h (Nat.le_refl _)

mutual

def orExpr : ℕ → List Token → Option (Test × List Token)
  | 0, _ => none
  | n + 1, tokens =>
    (andExpr n tokens).bind fun found =>
      match found.2 with
      | .or :: rest => (orExpr n rest).map fun right => (.or found.1 right.1, right.2)
      | _ => some found

def andExpr : ℕ → List Token → Option (Test × List Token)
  | 0, _ => none
  | n + 1, tokens =>
    (notExpr n tokens).bind fun found =>
      match found.2 with
      | .and :: rest => (andExpr n rest).map fun right => (.and found.1 right.1, right.2)
      | _ => some found

def notExpr : ℕ → List Token → Option (Test × List Token)
  | 0, _ => none
  | n + 1, .not :: rest => (notExpr n rest).map fun found => (.not found.1, found.2)
  | n + 1, .lpar :: rest =>
    (orExpr n rest).bind fun found =>
      match found.2 with
      | .rpar :: rest => some (found.1, rest)
      | _ => none
  | _ + 1, .option :: .lbracket :: .int k :: .rbracket :: .dot :: .exists :: rest =>
    some (.exists k, rest)
  | _ + 1, .option :: .lbracket :: .int k :: .rbracket :: .dot :: .hex :: .equal :: .bytes b :: rest =>
    some (.hexIs k b, rest)
  | _ + 1, _ => none

end

def parse (s : Chars) : Option Test :=
  (lex s).bind fun tokens =>
    match orExpr (4 * tokens.length + 16) tokens with
    | some (test, []) => some test
    | _ => none

/-- The class of a test: a text that is none has no members. -/
def Accepts (s : Chars) (options : Options) : Prop :=
  ∃ test, parse s = some test ∧ test.holds options = true

variable (n : ℕ) {test : Test} {rest : List (List Token)} {tests : List Test}

theorem notExpr_hexIs (k : ℕ) (b : Bytes) (rest : List Token) :
    notExpr (n + 1) (.option :: .lbracket :: .int k :: .rbracket :: .dot :: .hex :: .equal ::
      .bytes b :: rest) = some (.hexIs k b, rest) := by
  rw [notExpr]

theorem notExpr_exists (k : ℕ) (rest : List Token) :
    notExpr (n + 1) (.option :: .lbracket :: .int k :: .rbracket :: .dot :: .exists :: rest) =
      some (.exists k, rest) := by
  rw [notExpr]

theorem notExpr_not (rest : List Token) :
    notExpr (n + 1) (.not :: rest) =
      (notExpr n rest).map fun found => (.not found.1, found.2) := by
  rw [notExpr]

theorem notExpr_lpar (rest : List Token) :
    notExpr (n + 1) (.lpar :: rest) = (orExpr n rest).bind fun found =>
      match found.2 with
      | .rpar :: rest => some (found.1, rest)
      | _ => none := by
  rw [notExpr]

/-- The tokens read as one side of an `and`. -/
def Operand (tokens : List Token) (test : Test) : Prop :=
  ∀ n rest, notExpr (n + 2) (tokens ++ rest) = some (test, rest)

/-- The tokens read as a factor, whatever follows them. -/
def Factor (tokens : List Token) (test : Test) : Prop :=
  ∀ n rest, notExpr (n + 7) (tokens ++ rest) = some (test, rest)

theorem factor_and {left right : List Token} {l r : Test} (hl : Operand left l)
    (hr : Operand right r) :
    Factor (.lpar :: (left ++ .and :: (right ++ [.rpar]))) (.and l r) := by
  intro n rest
  have hright : andExpr (n + 4) (right ++ .rpar :: rest) = some (r, .rpar :: rest) := by
    rw [andExpr, hr (n + 1), Option.bind_some]
  have hand : andExpr (n + 5) (left ++ .and :: (right ++ .rpar :: rest)) =
      some (.and l r, .rpar :: rest) := by
    rw [andExpr, hl (n + 2), Option.bind_some]
    simp only [hright]
    rfl
  have hor : orExpr (n + 6) (left ++ .and :: (right ++ .rpar :: rest)) =
      some (.and l r, .rpar :: rest) := by
    rw [orExpr, hand, Option.bind_some]
  rw [List.cons_append, notExpr_lpar, List.append_assoc, List.cons_append, List.append_assoc,
    List.singleton_append, hor]
  rfl

def anyOf (test : Test) : List Test → Test
  | [] => test
  | next :: rest => .or test (anyOf next rest)

theorem anyOf_holds (options : Options) (test : Test) (rest : List Test) :
    (anyOf test rest).holds options = true ↔ ∃ t ∈ test :: rest, t.holds options = true := by
  induction rest generalizing test with
  | nil => simp [anyOf]
  | cons next rest ih =>
    rw [anyOf, Test.holds, Bool.or_eq_true, ih, List.exists_mem_cons_iff,
      List.exists_mem_cons_iff, List.exists_mem_cons_iff]

theorem Factor.andExpr (h : Factor tokens test) (n : ℕ) {rest : List Token}
    (hrest : rest.head? ≠ some .and) : andExpr (n + 8) (tokens ++ rest) = some (test, rest) := by
  rw [ClassTest.andExpr, h n rest, Option.bind_some]
  split
  next rest' heq =>
    rw [show rest = .and :: rest' from heq] at hrest
    exact absurd rfl hrest
  next => rfl

def joinOr (factor : List Token) : List (List Token) → List Token
  | [] => factor
  | next :: rest => factor ++ .or :: joinOr next rest

theorem orExpr_joinOr (h : Factor factor test) (hrest : List.Forall₂ Factor rest tests) :
    orExpr (n + tests.length + 9) (joinOr factor rest) = some (anyOf test tests, []) := by
  induction hrest generalizing factor test with
  | nil =>
    have hone : ClassTest.andExpr (n + 8) (factor ++ []) = some (test, []) := h.andExpr n nofun
    rw [List.append_nil] at hone
    rw [joinOr, orExpr, List.length_nil, Nat.add_zero, hone]
    rfl
  | @cons next test' rest tests hnext _ ih =>
    have hor : (Token.or :: joinOr next rest).head? ≠ some .and := by
      rw [List.head?_cons]
      decide
    have hone := h.andExpr (n + tests.length + 1) hor
    have hmore := ih hnext
    have hfuel : n + (test' :: tests).length + 9 = n + tests.length + 9 + 1 := by
      rw [List.length_cons]
      omega
    rw [joinOr, hfuel, orExpr, show n + tests.length + 9 = n + tests.length + 1 + 8 by omega, hone]
    simp only [Option.bind_some]
    rw [show n + tests.length + 1 + 8 = n + tests.length + 9 by omega, hmore]
    rfl

theorem length_le_joinOr (factor : List Token) (rest : List (List Token)) :
    rest.length ≤ (joinOr factor rest).length := by
  induction rest generalizing factor with
  | nil => exact Nat.zero_le _
  | cons next rest ih =>
    have hle := ih next
    rw [joinOr, List.length_append, List.length_cons, List.length_cons]
    omega

theorem parse_joinOr (hs : Reads s (joinOr factor rest) []) (h : Factor factor test)
    (hrest : List.Forall₂ Factor rest tests) : parse s = some (anyOf test tests) := by
  have hlen := length_le_joinOr factor rest
  have hcount := hrest.length_eq
  have hrun := orExpr_joinOr (4 * (joinOr factor rest).length + 7 - tests.length) h hrest
  have hfuel : 4 * (joinOr factor rest).length + 7 - tests.length + tests.length + 9 =
      4 * (joinOr factor rest).length + 16 := by omega
  rw [hfuel] at hrun
  rw [parse, lex_of_reads hs, Option.bind_some, hrun]

def hexChar (n : ℕ) : Char := (Nat.digitChar n).toUpper

/-- `f"{n:02X}"` of a number below 256. -/
def hexPair (n : ℕ) : Chars := [hexChar (n / 16), hexChar (n % 16)]

def hexText (bytes : Bytes) : Chars := bytes.flatMap fun b => hexPair b.toNat

theorem hexValue_hexChar {n : ℕ} (h : n < 16) : Ipaddress.hexValue (hexChar n) = some n := by
  have hall : ∀ n : Fin 16, Ipaddress.hexValue (hexChar n) = some n.val := by decide +kernel
  exact hall ⟨n, h⟩

variable (bytes : Bytes)

theorem isHexDigit_hexText : ∀ c ∈ hexText bytes, isHexDigit c = true := by
  intro c hc
  obtain ⟨b, _, hb⟩ := List.mem_flatMap.mp hc
  have hlt := b.toNat_lt
  rw [hexPair, List.mem_cons, List.mem_singleton] at hb
  rcases hb with rfl | rfl
  · rw [isHexDigit, hexValue_hexChar (by omega)]
    rfl
  · rw [isHexDigit, hexValue_hexChar (by omega)]
    rfl

theorem length_hexText : (hexText bytes).length = 2 * bytes.length := by
  induction bytes with
  | nil => rfl
  | cons b bytes ih =>
    rw [hexText, List.flatMap_cons, List.length_append, ← hexText, ih, List.length_cons]
    exact Nat.add_comm _ _

theorem hexText_ne_nil {bytes : Bytes} (h : bytes ≠ []) : hexText bytes ≠ [] := by
  intro hnil
  have hlen := length_hexText bytes
  rw [hnil, List.length_nil] at hlen
  exact h (List.length_eq_zero_iff.mp (by omega))

theorem pairs_hexText : pairs (hexText bytes) = bytes := by
  induction bytes with
  | nil => rfl
  | cons b bytes ih =>
    have hlt := b.toNat_lt
    have hvalue : b.toNat / 16 * 16 + b.toNat % 16 = b.toNat := by omega
    change UInt8.ofNat ((Ipaddress.hexValue (hexChar (b.toNat / 16))).getD 0 * 16 +
      (Ipaddress.hexValue (hexChar (b.toNat % 16))).getD 0) :: pairs (hexText bytes) = _
    rw [hexValue_hexChar (by omega), hexValue_hexChar (by omega), Option.getD_some,
      Option.getD_some, hvalue, UInt8.ofNat_toNat, ih]

theorem lexOne_hexText {bytes : Bytes} (h : bytes ≠ []) {c : Char} (hc : isHexDigit c = false)
    (rest : Chars) :
    lexOne ('0' :: 'x' :: (hexText bytes ++ c :: rest)) = some (some (.bytes bytes), c :: rest) := by
  have htake : (hexText bytes ++ c :: rest).takeWhile isHexDigit = hexText bytes := by
    rw [List.takeWhile_append_of_pos (isHexDigit_hexText bytes),
      List.takeWhile_cons_of_neg (by rw [hc]; exact Bool.false_ne_true), List.append_nil]
  have hdrop : (hexText bytes ++ c :: rest).dropWhile isHexDigit = c :: rest := by
    rw [List.dropWhile_append_of_pos (isHexDigit_hexText bytes),
      List.dropWhile_cons_of_neg (by rw [hc]; exact Bool.false_ne_true)]
  rw [lexOne, htake, hdrop, if_neg (hexText_ne_nil h), literal, length_hexText, if_pos (by omega),
    pairs_hexText]

end SpatiumDdi.ClassTest
