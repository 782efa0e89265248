import SpatiumDdi.Dns.TxtRoundTrip

/-!
CAA values. A stored value is flags, a tag and a value part, which is bare text or one quoted
character-string, and `caaText` writes the quoted form. The agent and the control plane carry the
same copy.
-/

namespace SpatiumDdi.Dns.Caa

open Utf8
open Text (isSpace decimal_of_isDigit not_isSpace_of_isDigit)
open Txt (digitValue digit_spec decimal_digit encodeChar_ofNat)

/-- What `int` and `str` raise for a number of too many digits. -/
structure ValueError where
deriving DecidableEq

structure CaaRdata where
  flags : Nat
  tag : List Char
  raw : Octets
deriving DecidableEq

def isDecimal (c : Char) : Bool := (Text.decimal c).isSome

/-- The groups of `_FIELDS`. No character is of two kinds, so the greedy runs are the only match. -/
def fields (s : List Char) : Option (List Char × List Char × List Char) :=
  let flags := s.takeWhile isDecimal
  let afterFlags := s.dropWhile isDecimal
  let beforeTag := afterFlags.dropWhile isSpace
  let tag := beforeTag.takeWhile fun c => !isSpace c
  let afterTag := beforeTag.dropWhile fun c => !isSpace c
  if flags = [] ∨ afterFlags.head?.any isSpace = false ∨ tag = [] ∨
      afterTag.head?.any isSpace = false then none
  else some (flags, tag, afterTag.dropWhile isSpace)

/-- The octets of a quoted string, from past its first quote. -/
def unquoteLoop (s : List Char) : Option Octets :=
  match s with
  | [] => none
  | ch :: rest =>
    if ch = '\\' then
      match _h : Txt.decimal rest with
      | some (octet, after) =>
        if 255 < octet then none else (unquoteLoop after).map (UInt8.ofNat octet :: ·)
      | none =>
        match rest with
        | [] => none
        | c :: rest' =>
          if c.isDigit then none else (unquoteLoop rest').map (String.utf8EncodeChar c ++ ·)
    else if ch = '"' then
      if Text.stripChars rest = [] then some [] else none
    else (unquoteLoop rest).map (String.utf8EncodeChar ch ++ ·)
termination_by s.length
decreasing_by
  · have hlen := Txt.decimal_length _h
    simp only [List.length_cons]
    omega
  · simp only [List.length_cons]
    omega
  · simp only [List.length_cons]
    omega

def unquote (rest : List Char) : Option Octets :=
  match rest with
  | '"' :: s => if s = [] then none else unquoteLoop s
  | _ => none

def intOfDigits (digits : List Char) : Except ValueError Nat :=
  if Text.maxStrDigits < digits.length then .error ⟨⟩
  else .ok (digits.foldl (fun n c => n * 10 + (Text.decimal c).getD 0) 0)

def strOfInt (n : Nat) : Except ValueError (List Char) :=
  if Text.maxStrDigits < (Nat.toDigits 10 n).length then .error ⟨⟩ else .ok (Nat.toDigits 10 n)

def parseCaa (value : List Char) : Except ValueError (Option CaaRdata) :=
  match fields (Text.stripChars value) with
  | none => .ok none
  | some (flags, tag, rest) =>
    match if rest.head? = some '"' then unquote rest else some (encode rest) with
    | none => .ok none
    | some raw => (intOfDigits flags).map fun n => some ⟨n, tag, raw⟩

def escapeOctet (b : UInt8) : List Char :=
  if b = 0x22 ∨ b = 0x5C then ['\\', Char.ofNat b.toNat]
  else if 0x20 ≤ b ∧ b < 0x7F then [Char.ofNat b.toNat]
  else Txt.escapeOctet b

def escape (raw : Octets) : List Char := raw.flatMap escapeOctet

def caaText (flags : Nat) (tag : List Char) (raw : Octets) : Except ValueError (List Char) :=
  (strOfInt flags).map fun digits =>
    digits ++ ' ' :: (tag ++ ' ' :: '"' :: (escape raw ++ ['"']))

def caaPresentation (value : List Char) : Except ValueError (List Char) := do
  match ← parseCaa value with
  | none => return value
  | some ⟨flags, tag, raw⟩ => caaText flags tag raw

def splitSpace (s : List Char) : List (List Char) :=
  (s.splitOnP isSpace).filter fun word => word ≠ []

/-- `caa_key`, for what `str.lower` returns. -/
def caaKey (lower : List Char → List Char) (value : List Char) :
    Except ValueError (List Char) := do
  match ← parseCaa value with
  | none => return List.intercalate [' '] (splitSpace value)
  | some ⟨flags, tag, raw⟩ => caaText flags (lower tag) raw

variable {n : Nat} {s flags tag digits value : List Char}

theorem unquoteLoop_octet {after : List Char} (h : Txt.decimal s = some (n, after)) (hn : n ≤ 255) :
    unquoteLoop ('\\' :: s) = (unquoteLoop after).map (UInt8.ofNat n :: ·) := by
  rw [unquoteLoop.eq_def]
  simp only [if_true]
  split
  next octet after' h' =>
    rw [h, Option.some.injEq, Prod.mk.injEq] at h'
    obtain ⟨rfl, rfl⟩ := h'
    rw [if_neg (by omega)]
  next h' => rw [h] at h'; cases h'

theorem unquoteLoop_escape {c : Char} (hc : c.isDigit = false) (rest : List Char) :
    unquoteLoop ('\\' :: c :: rest) =
      (unquoteLoop rest).map (String.utf8EncodeChar c ++ ·) := by
  have hnone : Txt.decimal (c :: rest) = none := Txt.decimal_of_not_digit hc rest
  rw [unquoteLoop.eq_def]
  simp only [if_true]
  split
  next octet after h' => rw [hnone] at h'; cases h'
  next => rw [hc]; rfl

theorem unquoteLoop_plain {ch : Char} (hquote : ch ≠ '"') (hback : ch ≠ '\\')
    (rest : List Char) :
    unquoteLoop (ch :: rest) = (unquoteLoop rest).map (String.utf8EncodeChar ch ++ ·) := by
  rw [unquoteLoop.eq_def]
  simp only [if_neg hback, if_neg hquote]

theorem unquoteLoop_close : unquoteLoop ['"'] = some [] := by
  rw [unquoteLoop.eq_def]
  rfl

theorem unquoteLoop_escapeOctet (b : UInt8) (rest : List Char) :
    unquoteLoop (escapeOctet b ++ rest) = (unquoteLoop rest).map (b :: ·) := by
  unfold escapeOctet
  split
  · rename_i hb
    rcases hb with rfl | rfl
    · exact unquoteLoop_escape rfl rest
    · exact unquoteLoop_escape rfl rest
  · rename_i hb
    rw [not_or] at hb
    split
    · rename_i hprintable
      have hlt := UInt8.lt_iff_toNat_lt.mp hprintable.2
      obtain ⟨hchar, henc⟩ := encodeChar_ofNat (c := b) (Nat.lt_succ_of_lt hlt)
      have hne : ∀ d : UInt8, d.toNat < 0x80 → b ≠ d → Char.ofNat b.toNat ≠ Char.ofNat d.toNat := by
        intro d hd hbd heq
        have htoNat := congrArg Char.toNat heq
        rw [hchar, (encodeChar_ofNat hd).1] at htoNat
        exact hbd (UInt8.toNat_inj.mp htoNat)
      have hplain := unquoteLoop_plain (hne 0x22 (by decide) hb.1) (hne 0x5C (by decide) hb.2) rest
      rw [henc] at hplain
      exact hplain
    · have hlt := b.toNat_lt
      have hdecimal := decimal_digit (a := b.toNat / 100) (b := b.toNat / 10 % 10)
        (c := b.toNat % 10) (by omega) (by omega) (by omega) rest
      have hvalue : b.toNat / 100 * 100 + b.toNat / 10 % 10 * 10 + b.toNat % 10 = b.toNat := by
        omega
      rw [hvalue] at hdecimal
      have hoctet := unquoteLoop_octet hdecimal (by omega)
      rw [UInt8.ofNat_toNat] at hoctet
      exact hoctet

theorem unquoteLoop_escape_raw (raw : Octets) : unquoteLoop (escape raw ++ ['"']) = some raw := by
  induction raw with
  | nil => exact unquoteLoop_close
  | cons b raw ih =>
    rw [escape, List.flatMap_cons, List.append_assoc, unquoteLoop_escapeOctet, ← escape, ih]
    rfl

theorem unquote_quoted (raw : Octets) : unquote ('"' :: (escape raw ++ ['"'])) = some raw := by
  rw [unquote, if_neg (by simp), unquoteLoop_escape_raw]

structure IsTag (tag : List Char) : Prop where
  nonempty : tag ≠ []
  solid : ∀ c ∈ tag, isSpace c = false

instance (tag : List Char) : Decidable (IsTag tag) :=
  decidable_of_iff (tag ≠ [] ∧ tag.all (!isSpace ·) = true)
    ⟨fun h => ⟨h.1, by simpa using h.2⟩, fun h => ⟨h.nonempty, by simpa using h.solid⟩⟩

private theorem takeWhile_run {p : Char → Bool} {run : List Char} (rest : List Char)
    (hrun : ∀ c ∈ run, p c = true) (hrest : rest.head?.any p = false) :
    (run ++ rest).takeWhile p = run ∧ (run ++ rest).dropWhile p = rest := by
  have hstop : rest.takeWhile p = [] ∧ rest.dropWhile p = rest := by
    cases rest with
    | nil => exact ⟨rfl, rfl⟩
    | cons c rest =>
      have hc : p c = false := by simpa using hrest
      exact ⟨List.takeWhile_cons_of_neg (by simp [hc]), List.dropWhile_cons_of_neg (by simp [hc])⟩
  rw [List.takeWhile_append_of_pos hrun, List.dropWhile_append_of_pos hrun, hstop.1, hstop.2,
    List.append_nil]
  exact ⟨rfl, rfl⟩

theorem fields_of (rest : List Char) (hne : flags ≠ []) (hflags : ∀ c ∈ flags, isDecimal c = true)
    (htag : IsTag tag) (hrest : rest.head?.any isSpace = false) :
    fields (flags ++ ' ' :: (tag ++ ' ' :: rest)) = some (flags, tag, rest) := by
  have hspace : ∀ c ∈ [' '], isSpace c = true := by simp [show isSpace ' ' = true from rfl]
  have hsolid : ∀ c ∈ tag, (!isSpace c) = true := fun c hc => by rw [htag.solid c hc]; rfl
  obtain ⟨first, others, rfl⟩ := List.exists_cons_of_ne_nil htag.nonempty
  have hfirst : isSpace first = false := htag.solid first (by simp)
  obtain ⟨hdigits, hafter⟩ := takeWhile_run (' ' :: (first :: others ++ ' ' :: rest)) hflags rfl
  obtain ⟨-, htagged⟩ := takeWhile_run (first :: others ++ ' ' :: rest) hspace (by simp [hfirst])
  obtain ⟨hword, hafterTag⟩ := takeWhile_run (' ' :: rest) hsolid rfl
  obtain ⟨-, hlast⟩ := takeWhile_run rest hspace hrest
  simp only [List.cons_append, List.nil_append] at htagged hlast hafter hdigits hword hafterTag
  simp only [fields, List.cons_append, hdigits, hafter, htagged, hword, hafterTag, hlast]
  rw [if_neg]
  simp [hne, show isSpace ' ' = true from rfl]

theorem fields_spec {rest : List Char} (h : fields s = some (flags, tag, rest)) :
    flags ≠ [] ∧ (∀ c ∈ flags, isDecimal c = true) ∧ IsTag tag := by
  obtain ⟨hshape, h⟩ := Option.ite_none_left_eq_some.mp h
  simp only [not_or] at hshape
  obtain ⟨hflags, -, htag, -⟩ := hshape
  simp only [Option.some.injEq, Prod.mk.injEq] at h
  obtain ⟨rfl, rfl, -⟩ := h
  refine ⟨hflags, fun c hc => ?_, htag, fun c hc => ?_⟩
  · exact List.all_eq_true.mp List.all_takeWhile c hc
  · simpa using List.all_eq_true.mp List.all_takeWhile c hc

theorem intOfDigits_toDigits (h : (Nat.toDigits 10 n).length ≤ Text.maxStrDigits) :
    intOfDigits (Nat.toDigits 10 n) = .ok n := by
  have hdigits : ∀ (l : List Char) (init : Nat), (∀ c ∈ l, c.isDigit = true) →
      l.foldl (fun n c => n * 10 + (Text.decimal c).getD 0) init = Nat.ofDigitChars 10 l init := by
    intro l
    induction l with
    | nil => exact fun init _ => rfl
    | cons c l ih =>
      intro init hl
      rw [List.foldl_cons, Nat.ofDigitChars_cons, ih _ fun d hd => hl d (by simp [hd]),
        decimal_of_isDigit (hl c (by simp)), Nat.mul_comm]
      rfl
  rw [intOfDigits, if_neg (by omega), hdigits _ _ fun c hc =>
    Nat.isDigit_of_mem_toDigits (by decide) (by decide) hc, Nat.ofDigitChars_ten_toDigits]

theorem strOfInt_eq_ok :
    strOfInt n = .ok digits ↔
      (Nat.toDigits 10 n).length ≤ Text.maxStrDigits ∧ Nat.toDigits 10 n = digits := by
  unfold strOfInt
  split
  · simp only [reduceCtorEq, false_iff]
    omega
  · simp only [Except.ok.injEq]
    exact (and_iff_right (by omega)).symm

theorem decimal_lt {c : Char} {d : Nat} (h : Text.decimal c = some d) : d < 10 := by
  obtain ⟨z, hfind, rfl⟩ := Option.map_eq_some_iff.mp h
  have hz := List.find?_some hfind
  simp only [Bool.and_eq_true, decide_eq_true_eq] at hz
  omega

theorem foldl_decimal_lt (digits : List Char) (init : Nat) :
    digits.foldl (fun n c => n * 10 + (Text.decimal c).getD 0) init <
      (init + 1) * 10 ^ digits.length := by
  induction digits generalizing init with
  | nil => simp
  | cons c digits ih =>
    have hdigit : (Text.decimal c).getD 0 < 10 := by
      cases h : Text.decimal c with
      | none => decide
      | some d => exact decimal_lt h
    calc
      (c :: digits).foldl (fun n c => n * 10 + (Text.decimal c).getD 0) init
          < (init * 10 + (Text.decimal c).getD 0 + 1) * 10 ^ digits.length := ih _
      _ ≤ ((init + 1) * 10) * 10 ^ digits.length := Nat.mul_le_mul_right _ (by omega)
      _ = (init + 1) * 10 ^ (digits.length + 1) := by rw [Nat.mul_assoc, Nat.pow_succ']

theorem length_of_intOfDigits (h : intOfDigits digits = .ok n) :
    (Nat.toDigits 10 n).length ≤ Text.maxStrDigits := by
  unfold intOfDigits at h
  split at h
  · cases h
  · rename_i hlen
    cases h
    have hbound := foldl_decimal_lt digits 0
    rw [Nat.length_toDigits_le_iff (by decide) (by decide)]
    calc
      _ < (0 + 1) * 10 ^ digits.length := hbound
      _ ≤ 10 ^ Text.maxStrDigits := by
        rw [Nat.zero_add, Nat.one_mul]
        exact Nat.pow_le_pow_right (by decide) (by omega)

variable {r : CaaRdata}

theorem parseCaa_spec (h : parseCaa value = .ok (some r)) :
    IsTag r.tag ∧ (Nat.toDigits 10 r.flags).length ≤ Text.maxStrDigits := by
  unfold parseCaa at h
  split at h
  · simp at h
  · rename_i flags tag rest hfields
    split at h
    · simp at h
    · rename_i raw hraw
      cases hint : intOfDigits flags with
      | error e => rw [hint] at h; cases h
      | ok n =>
        rw [hint] at h
        cases h
        exact ⟨(fields_spec hfields).2.2, length_of_intOfDigits hint⟩

theorem parseCaa_caaText {flags : Nat} (raw : Octets)
    (hflags : (Nat.toDigits 10 flags).length ≤ Text.maxStrDigits) (htag : IsTag tag) :
    ∃ text, caaText flags tag raw = .ok text ∧ parseCaa text = .ok (some ⟨flags, tag, raw⟩) := by
  have hdigit : ∀ c ∈ Nat.toDigits 10 flags, c.isDigit = true := fun c hc =>
    Nat.isDigit_of_mem_toDigits (by decide) (by decide) hc
  refine ⟨_, by rw [caaText, strOfInt_eq_ok.mpr ⟨hflags, rfl⟩]; rfl, ?_⟩
  have hne : Nat.toDigits 10 flags ≠ [] := Nat.toDigits_ne_nil
  obtain ⟨first, others, hfirst⟩ := List.exists_cons_of_ne_nil hne
  have hlast : (Nat.toDigits 10 flags ++
      ' ' :: (tag ++ ' ' :: '"' :: (escape raw ++ ['"']))).getLast? = some '"' := by
    have hconcat : Nat.toDigits 10 flags ++ ' ' :: (tag ++ ' ' :: '"' :: (escape raw ++ ['"'])) =
        (Nat.toDigits 10 flags ++ ' ' :: (tag ++ ' ' :: '"' :: escape raw)) ++ ['"'] := by simp
    rw [hconcat, List.getLast?_concat]
  have hstrip : Text.stripChars (Nat.toDigits 10 flags ++
      ' ' :: (tag ++ ' ' :: '"' :: (escape raw ++ ['"']))) =
      Nat.toDigits 10 flags ++ ' ' :: (tag ++ ' ' :: '"' :: (escape raw ++ ['"'])) := by
    have hnone : ∀ c ∈ ([] : List Char), isSpace c = true := by simp
    have hsolid := not_isSpace_of_isDigit (hdigit first (by simp [hfirst]))
    have hkeep := Text.stripChars_of hnone hnone (by rw [hfirst]; rfl) hsolid hlast rfl
    simpa using hkeep
  have hfields := fields_of ('"' :: (escape raw ++ ['"'])) hne
    (fun c hc => by rw [isDecimal, decimal_of_isDigit (hdigit c hc)]; rfl) htag rfl
  rw [parseCaa, hstrip, hfields]
  simp only [List.head?_cons, if_true, unquote_quoted, intOfDigits_toDigits hflags]
  rfl

theorem caaPresentation_of_parses (h : parseCaa value = .ok (some r)) :
    ∃ text, caaPresentation value = .ok text ∧ parseCaa text = .ok (some r) := by
  obtain ⟨htag, hflags⟩ := parseCaa_spec h
  obtain ⟨text, htext, hparse⟩ := parseCaa_caaText r.raw hflags htag
  refine ⟨text, ?_, hparse⟩
  rw [caaPresentation, h]
  exact htext

theorem caaPresentation_idem {text : List Char} (h : caaPresentation value = .ok text) :
    caaPresentation text = .ok text := by
  cases hparse : parseCaa value with
  | error e => rw [caaPresentation, hparse] at h; cases h
  | ok parsed =>
    cases parsed with
    | none =>
      have heq : caaPresentation value = .ok value := by
        rw [caaPresentation, hparse]
        rfl
      rw [heq] at h
      cases h
      exact heq
    | some r =>
      obtain ⟨text', htext', hparse'⟩ := caaPresentation_of_parses hparse
      rw [h] at htext'
      cases htext'
      have htext : caaText r.flags r.tag r.raw = .ok text := by
        rw [← h, caaPresentation, hparse]
        rfl
      rw [caaPresentation, hparse']
      exact htext

section Key

variable {lower : List Char → List Char} (hlower : ∀ tag, IsTag tag → IsTag (lower tag))
include hlower

theorem caaKey_of_parses {value : List Char} (h : parseCaa value = .ok (some r)) :
    ∃ key, caaKey lower value = .ok key ∧
      parseCaa key = .ok (some ⟨r.flags, lower r.tag, r.raw⟩) := by
  obtain ⟨htag, hflags⟩ := parseCaa_spec h
  obtain ⟨key, hkey, hparse⟩ := parseCaa_caaText r.raw hflags (hlower _ htag)
  refine ⟨key, ?_, hparse⟩
  rw [caaKey, h]
  exact hkey

theorem caaKey_eq_iff {v w : List Char} {r' : CaaRdata} (hv : parseCaa v = .ok (some r))
    (hw : parseCaa w = .ok (some r')) :
    caaKey lower v = caaKey lower w ↔
      r.flags = r'.flags ∧ r.raw = r'.raw ∧ lower r.tag = lower r'.tag := by
  obtain ⟨key, hkey, hparse⟩ := caaKey_of_parses hlower hv
  obtain ⟨key', hkey', hparse'⟩ := caaKey_of_parses hlower hw
  rw [hkey, hkey', Except.ok.injEq]
  constructor
  · rintro rfl
    rw [hparse] at hparse'
    simp only [Except.ok.injEq, Option.some.injEq, CaaRdata.mk.injEq] at hparse'
    exact ⟨hparse'.1, hparse'.2.2, hparse'.2.1⟩
  · rintro ⟨hflags, hraw, htag⟩
    have hsame : caaKey lower v = caaKey lower w := by
      rw [caaKey, hv, caaKey, hw]
      change caaText r.flags (lower r.tag) r.raw = caaText r'.flags (lower r'.tag) r'.raw
      rw [hflags, hraw, htag]
    rw [hkey, hkey', Except.ok.injEq] at hsame
    exact hsame

end Key

def IsAscii (tag : List Char) : Prop := ∀ c ∈ tag, c.toNat < 0x80

instance (tag : List Char) : Decidable (IsAscii tag) :=
  decidable_of_iff (tag.all (·.toNat < 0x80) = true) (by simp [IsAscii])

/-- Records round trip through the text written for them, values through their presentation, and
two values have one key when they are one record up to the case of the tag. -/
theorem caa_codec (lower : List Char → List Char)
    (hlower : ∀ tag, IsTag tag → IsTag (lower tag))
    (hascii : ∀ tag, IsAscii tag → lower tag = tag.map Char.toLower) :
    (∀ flags tag raw, (Nat.toDigits 10 flags).length ≤ Text.maxStrDigits → IsTag tag →
      ∃ text, caaText flags tag raw = .ok text ∧
        parseCaa text = .ok (some ⟨flags, tag, raw⟩)) ∧
    (∀ v r, parseCaa v = .ok (some r) →
      ∃ text, caaPresentation v = .ok text ∧ parseCaa text = .ok (some r)) ∧
    (∀ v text, caaPresentation v = .ok text → caaPresentation text = .ok text) ∧
    ∀ v w r r', parseCaa v = .ok (some r) → parseCaa w = .ok (some r') →
      (∃ key, caaKey lower v = .ok key) ∧
      (caaKey lower v = caaKey lower w ↔
        r.flags = r'.flags ∧ r.raw = r'.raw ∧ lower r.tag = lower r'.tag) ∧
      (IsAscii r.tag → IsAscii r'.tag → (caaKey lower v = caaKey lower w ↔
        r.flags = r'.flags ∧ r.raw = r'.raw ∧ r.tag.map Char.toLower = r'.tag.map Char.toLower)) := by
  refine ⟨fun flags tag raw hflags htag => parseCaa_caaText raw hflags htag,
    fun v r h => caaPresentation_of_parses h, fun v text h => caaPresentation_idem h,
    fun v w r r' hv hw => ⟨?_, caaKey_eq_iff hlower hv hw, fun ht ht' => ?_⟩⟩
  · obtain ⟨key, hkey, -⟩ := caaKey_of_parses hlower hv
    exact ⟨key, hkey⟩
  · rw [← hascii _ ht, ← hascii _ ht']
    exact caaKey_eq_iff hlower hv hw

/-- `str.lower` of a character, within Latin-1. -/
def lowerLatinChar (c : Char) : Char :=
  if (0x41 ≤ c.toNat ∧ c.toNat ≤ 0x5A) ∨ (0xC0 ≤ c.toNat ∧ c.toNat ≤ 0xDE ∧ c.toNat ≠ 0xD7) then
    Char.ofNat (c.toNat + 0x20)
  else c

def lowerLatin (tag : List Char) : List Char := tag.map lowerLatinChar

private theorem isTag_lowerLatin (h : IsTag tag) : IsTag (lowerLatin tag) := by
  refine ⟨by simpa [lowerLatin] using h.nonempty, fun c hc => ?_⟩
  obtain ⟨d, hd, rfl⟩ := List.mem_map.mp hc
  unfold lowerLatinChar
  split
  · rename_i hupper
    have hall : ∀ k < 0xDF, (0x41 ≤ k ∧ k ≤ 0x5A) ∨ 0xC0 ≤ k →
        isSpace (Char.ofNat (k + 0x20)) = false := by decide +kernel
    exact hall d.toNat (by omega) (by omega)
  · exact h.solid d hd

private theorem lowerLatin_ascii (h : IsAscii tag) : lowerLatin tag = tag.map Char.toLower := by
  refine List.map_congr_left fun c hc => ?_
  have hall : ∀ k < 0x80, lowerLatinChar (Char.ofNat k) = (Char.ofNat k).toLower := by
    decide +kernel
  have hchar := hall c.toNat (h c hc)
  rwa [Char.ofNat_toNat] at hchar

theorem caa_codec_iodef :
    (∃ text, caaText 128 "iodef".toList [0x22, 0xFF, 0x3B] = .ok text ∧
      parseCaa text = .ok (some ⟨128, "iodef".toList, [0x22, 0xFF, 0x3B]⟩)) ∧
    caaKey lowerLatin "0 Issue ca.org".toList = caaKey lowerLatin "0 issue \"ca.org\"".toList := by
  obtain ⟨hwrite, -, -, hkey⟩ :=
    caa_codec lowerLatin (fun _ => isTag_lowerLatin) (fun _ => lowerLatin_ascii)
  refine ⟨hwrite 128 "iodef".toList [0x22, 0xFF, 0x3B] (by decide +kernel)
    (by decide +kernel), ?_⟩
  have hbare : parseCaa "0 Issue ca.org".toList =
      .ok (some ⟨0, "Issue".toList, encode "ca.org".toList⟩) := by decide +kernel
  have hquoted : parseCaa "0 issue \"ca.org\"".toList =
      .ok (some ⟨0, "issue".toList, encode "ca.org".toList⟩) := by decide +kernel
  obtain ⟨-, -, hcase⟩ := hkey _ _ _ _ hbare hquoted
  exact (hcase (by decide +kernel) (by decide +kernel)).mpr ⟨rfl, rfl, by decide +kernel⟩

/-- Two tags that differ in the case of a letter outside ASCII, and flags of too many digits. -/
theorem not_caa_codec_ascii :
    ¬ (∀ v w r r', parseCaa v = .ok (some r) → parseCaa w = .ok (some r') →
      (caaKey lowerLatin v = caaKey lowerLatin w ↔ r.flags = r'.flags ∧ r.raw = r'.raw ∧
        r.tag.map Char.toLower = r'.tag.map Char.toLower)) ∧
    ¬ ∃ text, caaText (10 ^ Text.maxStrDigits) "issue".toList [] = .ok text := by
  refine ⟨fun h => ?_, ?_⟩
  · have hupper : parseCaa "0 É x".toList = .ok (some ⟨0, "É".toList, [0x78]⟩) := by
      decide +kernel
    have hlower : parseCaa "0 é x".toList = .ok (some ⟨0, "é".toList, [0x78]⟩) := by
      decide +kernel
    have hkeys : caaKey lowerLatin "0 É x".toList = caaKey lowerLatin "0 é x".toList := by
      decide +kernel
    obtain ⟨-, -, htags⟩ := (h _ _ _ _ hupper hlower).mp hkeys
    exact absurd htags (by decide +kernel)
  · rintro ⟨text, htext⟩
    unfold caaText at htext
    cases hstr : strOfInt (10 ^ Text.maxStrDigits) with
    | error e => rw [hstr] at htext; cases htext
    | ok digits =>
      have hlen := (strOfInt_eq_ok.mp hstr).1
      rw [Nat.length_toDigits_le_iff (by decide) (by decide)] at hlen
      exact absurd hlen (Nat.lt_irrefl _)

end SpatiumDdi.Dns.Caa
