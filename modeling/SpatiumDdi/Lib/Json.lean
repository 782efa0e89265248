import Mathlib.Data.List.Basic

/-!
JSON texts and their decoder. A text is its list of code points. `rawDecode` returns
the longest value at the start of a text and what follows it. Its containers are
read from any source that can look at the next character that is no white space, so
another source that shows the same text reads the same containers.
-/

namespace SpatiumDdi

/-- Code points, surrogates among them. -/
abbrev Text.Points := List Nat

/-- A decoded value. A number is kept as it is spelled, `NaN` and the infinities too. -/
inductive Json where
  | null
  | bool (b : Bool)
  | number (spelling : Text.Points)
  | string (s : Text.Points)
  | array (items : List Json)
  | object (members : List (Text.Points × Json))

namespace Json

open Text (Points)

def quote : Nat := 0x22
def comma : Nat := 0x2C
def colon : Nat := 0x3A
def backslash : Nat := 0x5C
def leftBracket : Nat := 0x5B
def rightBracket : Nat := 0x5D
def leftBrace : Nat := 0x7B
def rightBrace : Nat := 0x7D

def isSpace (c : Nat) : Bool := c == 0x20 || c == 0x09 || c == 0x0A || c == 0x0D

def isDigit (c : Nat) : Bool := 0x30 ≤ c && c ≤ 0x39

def skipSpace (s : Points) : Points := s.dropWhile isSpace

/-- `d[key] = value` of a dictionary, as its items in order. -/
def setMember (members : List (Points × Json)) (key : Points) (value : Json) :
    List (Points × Json) :=
  match members with
  | [] => [(key, value)]
  | m :: rest => if m.1 = key then (key, value) :: rest else m :: setMember rest key value

/-- The dictionary of pairs, the last one of a key winning. -/
def dict (pairs : List (Points × Json)) : List (Points × Json) :=
  pairs.foldl (fun members pair => setMember members pair.1 pair.2) []

def hexValue (c : Nat) : Option Nat :=
  if isDigit c then some (c - 0x30)
  else if 0x41 ≤ c ∧ c ≤ 0x46 then some (c - 0x37)
  else if 0x61 ≤ c ∧ c ≤ 0x66 then some (c - 0x57)
  else none

def hexQuad : Points → Option (Nat × Points)
  | a :: b :: c :: d :: rest => do
    let a ← hexValue a
    let b ← hexValue b
    let c ← hexValue c
    let d ← hexValue d
    pure (((a * 16 + b) * 16 + c) * 16 + d, rest)
  | _ => none

def isHighSurrogate (c : Nat) : Bool := 0xD800 ≤ c && c ≤ 0xDBFF

def isLowSurrogate (c : Nat) : Bool := 0xDC00 ≤ c && c ≤ 0xDFFF

/-- What follows `\u`: a code point, or two surrogates that make one. -/
def unescapeUnicode (s : Points) : Option (Nat × Points) :=
  match hexQuad s with
  | none => none
  | some (high, rest) =>
    if isHighSurrogate high then
      match rest with
      | c :: d :: more =>
        if c = backslash ∧ d = 'u'.toNat then
          match hexQuad more with
          | none => none
          | some (low, rest') =>
            if isLowSurrogate low then
              some (0x10000 + (high - 0xD800) * 0x400 + (low - 0xDC00), rest')
            else
              some (high, rest)
        else
          some (high, rest)
      | _ => some (high, rest)
    else
      some (high, rest)

def simpleEscape (c : Nat) : Option Nat :=
  if c = quote ∨ c = backslash ∨ c = '/'.toNat then some c
  else if c = 'b'.toNat then some 0x08
  else if c = 'f'.toNat then some 0x0C
  else if c = 'n'.toNat then some 0x0A
  else if c = 'r'.toNat then some 0x0D
  else if c = 't'.toNat then some 0x09
  else none

def unescape : Points → Option (Nat × Points)
  | [] => none
  | c :: rest =>
    if c = 'u'.toNat then unescapeUnicode rest else (simpleEscape c).map fun code => (code, rest)

variable {s r : Points}

theorem hexQuad_length {code : Nat} (h : hexQuad s = some (code, r)) : r.length < s.length := by
  unfold hexQuad at h
  split at h
  next a b c d rest =>
    simp only [Option.bind_eq_bind, Option.bind_eq_some_iff, Option.pure_def,
      Option.some.injEq, Prod.mk.injEq] at h
    obtain ⟨_, _, _, _, _, _, _, _, _, rfl⟩ := h
    simp only [List.length_cons]
    omega
  · cases h

theorem unescape_length {code : Nat} (h : unescape s = some (code, r)) : r.length < s.length := by
  cases s with
  | nil => cases h
  | cons c rest =>
    simp only [unescape] at h
    split at h
    · unfold unescapeUnicode at h
      split at h
      · cases h
      next high rest₁ hquad =>
        have hlen := hexQuad_length hquad
        have hself : some (high, rest₁) = some (code, r) → r.length < (c :: rest).length := by
          intro heq
          simp only [Option.some.injEq, Prod.mk.injEq] at heq
          rw [← heq.2, List.length_cons]
          omega
        split at h
        · split at h
          next e d more =>
            split at h
            · split at h
              · cases h
              next low rest₂ hlow =>
                have hlen₂ := hexQuad_length hlow
                split at h
                · simp only [Option.some.injEq, Prod.mk.injEq] at h
                  rw [← h.2]
                  simp only [List.length_cons] at hlen ⊢
                  omega
                · exact hself h
            · exact hself h
          · exact hself h
        · exact hself h
    · obtain ⟨_, _, heq⟩ := Option.map_eq_some_iff.mp h
      simp only [Prod.mk.injEq] at heq
      rw [← heq.2, List.length_cons]
      omega

def scanString (s : Points) : Option (Points × Points) :=
  match s with
  | [] => none
  | c :: rest =>
    if c = quote then
      some ([], rest)
    else if c = backslash then
      match _h : unescape rest with
      | none => none
      | some (code, rest') => (scanString rest').map fun found => (code :: found.1, found.2)
    else if c < 0x20 then
      none
    else
      (scanString rest).map fun found => (c :: found.1, found.2)
termination_by s.length
decreasing_by
  · have := unescape_length _h
    simp only [List.length_cons]
    omega
  · simp

def scanInt : Points → Option (Points × Points)
  | [] => none
  | c :: rest =>
    if c = '0'.toNat then some ([c], rest)
    else if isDigit c then some (c :: rest.takeWhile isDigit, rest.dropWhile isDigit)
    else none

def scanFraction : Points → Points × Points
  | c :: d :: rest =>
    if c = '.'.toNat ∧ isDigit d then
      (c :: d :: rest.takeWhile isDigit, rest.dropWhile isDigit)
    else
      ([], c :: d :: rest)
  | s => ([], s)

def isSign (c : Nat) : Bool := c == '+'.toNat || c == '-'.toNat

def isExponent (c : Nat) : Bool := c == 'e'.toNat || c == 'E'.toNat

def scanExponent (s : Points) : Points × Points :=
  match s with
  | c :: d :: rest =>
    if isExponent c then
      if isDigit d then
        (c :: d :: rest.takeWhile isDigit, rest.dropWhile isDigit)
      else
        match rest with
        | e :: more =>
          if isSign d && isDigit e then
            (c :: d :: e :: more.takeWhile isDigit, more.dropWhile isDigit)
          else
            ([], s)
        | [] => ([], s)
    else
      ([], s)
  | _ => ([], s)

/-- A number without its sign. -/
def scanUnsigned (s : Points) : Option (Points × Points) :=
  (scanInt s).map fun (int, rest) =>
    let (fraction, rest) := scanFraction rest
    let (exponent, rest) := scanExponent rest
    (int ++ fraction ++ exponent, rest)

def scanNumber : Points → Option (Points × Points)
  | [] => none
  | c :: rest =>
    if c = '-'.toNat then (scanUnsigned rest).map fun found => (c :: found.1, found.2)
    else scanUnsigned (c :: rest)

def points (s : String) : Points := s.toList.map Char.toNat

/-- The names of the values that are neither strings, numbers nor containers. -/
def names : List (Points × Json) :=
  [(points "null", .null), (points "true", .bool true), (points "false", .bool false),
    (points "NaN", .number (points "NaN")), (points "Infinity", .number (points "Infinity"))]

def scanScalar : Points → Option (Json × Points)
  | [] => none
  | c :: rest =>
    match names.find? fun name => name.1.head? == some c with
    | some (name, value) =>
      if name.isPrefixOf (c :: rest) then some (value, (c :: rest).drop name.length) else none
    | none =>
      if c = '-'.toNat ∧ (points "Infinity").isPrefixOf rest then
        some (.number (points "-Infinity"), rest.drop (points "Infinity").length)
      else
        (scanNumber (c :: rest)).map fun found => (.number found.1, found.2)

structure Source (σ : Type) where
  /-- The next character that is no white space; what is before it is gone. -/
  peek : σ → Option Nat × σ
  /-- Past that character. -/
  drop : σ → σ

section Containers

variable {σ : Type} (S : Source σ)

def Source.take (expected : List Nat) (st : σ) : Option (Nat × σ) :=
  match S.peek st with
  | (some c, st) => if c ∈ expected then some (c, S.drop st) else none
  | (none, _) => none

def Source.items (value : σ → Option (Json × σ)) : Nat → σ → Option (List Json × σ)
  | 0, _ => none
  | fuel + 1, st => do
    let (item, st) ← value st
    let (c, st) ← S.take [comma, rightBracket] st
    if c = rightBracket then
      pure ([item], st)
    else
      let (rest, st) ← Source.items value fuel st
      pure (item :: rest, st)

def Source.members (key : σ → Option (Points × σ)) (value : Points → σ → Option (Json × σ)) :
    Nat → σ → Option (List (Points × Json) × σ)
  | 0, _ => none
  | fuel + 1, st => do
    let (name, st) ← key st
    let (_, st) ← S.take [colon] st
    let (member, st) ← value name st
    let (c, st) ← S.take [comma, rightBrace] st
    if c = rightBrace then
      pure ([(name, member)], st)
    else
      let (rest, st) ← Source.members key value fuel st
      pure ((name, member) :: rest, st)

def Source.array (value : σ → Option (Json × σ)) (fuel : Nat) (st : σ) :
    Option (List Json × σ) :=
  match S.peek st with
  | (c, st) => if c = some rightBracket then some ([], S.drop st) else Source.items S value fuel st

def Source.object (key : σ → Option (Points × σ)) (value : Points → σ → Option (Json × σ))
    (fuel : Nat) (st : σ) : Option (List (Points × Json) × σ) :=
  match S.peek st with
  | (c, st) =>
    if c = some rightBrace then some ([], S.drop st) else S.members key value fuel st

def Source.container (key : σ → Option (Points × σ)) (value : σ → Option (Json × σ))
    (fuel : Nat) (c : Nat) (st : σ) : Option (Json × σ) :=
  if c = leftBracket then
    (S.array value fuel (S.drop st)).map fun found => (.array found.1, found.2)
  else
    (S.object key (fun _ => value) fuel (S.drop st)).map fun found =>
      (.object (dict found.1), found.2)

end Containers

def textSource : Source Points where
  peek s := ((skipSpace s).head?, skipSpace s)
  drop s := s.tail

def scanKey (s : Points) : Option (Points × Points) :=
  match skipSpace s with
  | c :: rest => if c = quote then scanString rest else none
  | [] => none

def isOpening (c : Nat) : Bool := c == leftBracket || c == leftBrace

/-- The value at the start of a text, nested at most so deep. -/
def scan : Nat → Points → Option (Json × Points)
  | 0, _ => none
  | depth + 1, s =>
    match s with
    | [] => none
    | c :: rest =>
      if c = quote then
        (scanString rest).map fun found => (.string found.1, found.2)
      else if isOpening c then
        textSource.container scanKey (fun t => scan depth (skipSpace t)) rest.length c (c :: rest)
      else
        scanScalar (c :: rest)

def rawDecode (s : Points) : Option (Json × Points) := scan (s.length + 1) s

def decode (s : Points) : Option Json :=
  match rawDecode (skipSpace s) with
  | some (value, rest) => if skipSpace rest = [] then some value else none
  | none => none

def bom : Nat := 0xFEFF

def loads (s : Points) : Option Json := if s.head? = some bom then none else decode s

/-- What is left of a number that may go on. -/
def NumberTail (r : Points) : Prop := r.length ≤ 2 ∧ ∀ c ∈ r, c ∈ points ".eE+-"

instance (r : Points) : Decidable (NumberTail r) := inferInstanceAs (Decidable (_ ∧ _))

/-- Whether a value is a string or a container: a text shows which by its first
character. -/
def isScalar : Json → Bool
  | .string _ | .array _ | .object _ => false
  | _ => true

/-- The value is a number that may go on past the end of the text, `rest` being what it
leaves of it. -/
def cutOff (value : Json) (rest : Points) : Bool :=
  match value with
  | .number _ => decide (NumberTail rest)
  | _ => false

end Json

end SpatiumDdi
