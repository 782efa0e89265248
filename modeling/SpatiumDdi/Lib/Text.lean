import Mathlib.Data.List.Basic

/-!
The text operations of Python the models use. A string is its list of code points.
-/

namespace SpatiumDdi.Text

def isSpace (c : Char) : Bool :=
  let n := c.toNat
  (0x09 ≤ n && n ≤ 0x0D) || (0x1C ≤ n && n ≤ 0x20) || n == 0x85 || n == 0xA0 ||
    n == 0x1680 || (0x2000 ≤ n && n ≤ 0x200A) || n == 0x2028 || n == 0x2029 ||
    n == 0x202F || n == 0x205F || n == 0x3000

def strip (s : String) : String :=
  String.ofList (((s.toList.dropWhile isSpace).reverse.dropWhile isSpace).reverse)

/-- `str.strip`, the string being its characters. -/
def stripChars (s : List Char) : List Char :=
  ((s.dropWhile isSpace).reverse.dropWhile isSpace).reverse

theorem strip_ofList (s : List Char) : strip (String.ofList s) = String.ofList (stripChars s) := by
  rw [strip, String.toList_ofList, stripChars]

private theorem exists_dropWhile (s : List Char) :
    ∃ lead, s = lead ++ s.dropWhile isSpace ∧ ∀ c ∈ lead, isSpace c = true :=
  ⟨s.takeWhile isSpace, List.takeWhile_append_dropWhile.symm, fun _ hc =>
    List.all_eq_true.mp List.all_takeWhile _ hc⟩

theorem exists_stripChars (s : List Char) :
    ∃ lead trail, s = lead ++ (stripChars s ++ trail) ∧ (∀ c ∈ lead, isSpace c = true) ∧
      ∀ c ∈ trail, isSpace c = true := by
  obtain ⟨lead, hlead, hspace⟩ := exists_dropWhile s
  obtain ⟨trail, htrail, hspace'⟩ := exists_dropWhile (s.dropWhile isSpace).reverse
  refine ⟨lead, trail.reverse, ?_, hspace, fun c hc => hspace' c (List.mem_reverse.mp hc)⟩
  rw [stripChars, ← List.reverse_append, ← htrail, List.reverse_reverse]
  exact hlead

private theorem dropWhile_of_head {lead core : List Char} {a : Char}
    (hlead : ∀ c ∈ lead, isSpace c = true) (hhead : core.head? = some a)
    (ha : isSpace a = false) :
    (lead ++ core).dropWhile isSpace = core := by
  rw [List.dropWhile_append_of_pos hlead]
  cases core with
  | nil => rfl
  | cons b core =>
    rw [List.head?_cons, Option.some.injEq] at hhead
    rw [List.dropWhile_cons_of_neg (by rw [hhead, ha]; exact Bool.false_ne_true)]

theorem stripChars_of {lead core trail : List Char} {a b : Char}
    (hlead : ∀ c ∈ lead, isSpace c = true) (htrail : ∀ c ∈ trail, isSpace c = true)
    (hhead : core.head? = some a) (ha : isSpace a = false)
    (hlast : core.getLast? = some b) (hb : isSpace b = false) :
    stripChars (lead ++ (core ++ trail)) = core := by
  have hhead' : (core ++ trail).head? = some a := by rw [List.head?_append, hhead]; rfl
  rw [stripChars, dropWhile_of_head hlead hhead' ha, List.reverse_append,
    dropWhile_of_head (fun c hc => htrail c (List.mem_reverse.mp hc))
      (by rw [List.head?_reverse, hlast]) hb, List.reverse_reverse]

theorem mem_intercalate {α : Type} {sep c : α} {parts : List (List α)}
    (h : c ∈ List.intercalate [sep] parts) : c = sep ∨ ∃ part ∈ parts, c ∈ part := by
  induction parts with
  | nil => cases h
  | cons part rest ih =>
    cases rest with
    | nil => exact .inr ⟨part, by simp, by simpa using h⟩
    | cons part' rest =>
      rw [List.intercalate_cons_cons, List.append_assoc, List.mem_append, List.mem_append,
        List.mem_singleton] at h
      rcases h with h | h | h
      · exact .inr ⟨part, List.mem_cons_self, h⟩
      · exact .inl h
      · rcases ih h with hsep | ⟨found, hfound, hc⟩
        · exact .inl hsep
        · exact .inr ⟨found, List.mem_cons_of_mem _ hfound, hc⟩

/-- `str.rstrip(".")`, the string being its characters. -/
def rstripDotsChars (s : List Char) : List Char := (s.reverse.dropWhile (· = '.')).reverse

def rstripDots (s : String) : String := String.ofList (rstripDotsChars s.toList)

def AsciiLower (lower : String → String) : Prop :=
  ∀ s : List Char, (∀ c ∈ s, c.toNat < 128) →
    lower (String.ofList s) = String.ofList (s.map Char.toLower)

/-- `str.lower` where nothing but ASCII letters has a lower case. -/
def asciiLower (s : String) : String := String.ofList (s.toList.map Char.toLower)

theorem asciiLower_ascii : AsciiLower asciiLower := by
  intro s _
  rw [asciiLower, String.toList_ofList]

def AsciiUpper (upper : String → String) : Prop :=
  ∀ s : List Char, (∀ c ∈ s, c.toNat < 128) →
    upper (String.ofList s) = String.ofList (s.map Char.toUpper)

/-- `str.upper` where nothing but ASCII letters has an upper case. -/
def asciiUpper (s : String) : String := String.ofList (s.toList.map Char.toUpper)

theorem asciiUpper_ascii : AsciiUpper asciiUpper := by
  intro s _
  rw [asciiUpper, String.toList_ofList]

private def newlines : List Char → List Char
  | [] => []
  | '\r' :: '\n' :: rest => '\n' :: newlines rest
  | '\r' :: rest => '\n' :: newlines rest
  | c :: rest => c :: newlines rest

/-- What `Path.read_text` returns for a file's text: every line ending reads `"\n"`. -/
def readText (s : String) : String := String.ofList (newlines s.toList)

private theorem newlines_of_not_mem (s : List Char) (h : '\r' ∉ s) : newlines s = s := by
  fun_induction newlines s with
  | case1 => rfl
  | case2 rest ih => simp at h
  | case3 rest hne ih => simp at h
  | case4 c rest hne hnl ih => rw [ih fun hmem => h (List.mem_cons_of_mem _ hmem)]

private theorem not_mem_newlines (s : List Char) : '\r' ∉ newlines s := by
  fun_induction newlines s with
  | case1 => exact List.not_mem_nil
  | case2 rest ih => simpa using ih
  | case3 rest hne ih => simpa using ih
  | case4 c rest hne hnl ih =>
    intro hmem
    rcases List.mem_cons.mp hmem with rfl | hmem
    · exact hnl rfl
    · exact ih hmem

variable {s : List Char}

theorem readText_ofList (h : '\r' ∉ s) : readText (String.ofList s) = String.ofList s := by
  rw [readText, String.toList_ofList, newlines_of_not_mem s h]

@[simp] theorem readText_readText (s : String) : readText (readText s) = readText s := by
  unfold readText
  rw [String.toList_ofList, newlines_of_not_mem _ (not_mem_newlines _)]

/-- The zero of each block of ten decimal digits. -/
def decimalZeros : List Nat :=
  [0x30, 0x660, 0x6F0, 0x7C0, 0x966, 0x9E6, 0xA66, 0xAE6, 0xB66, 0xBE6, 0xC66, 0xCE6, 0xD66, 0xDE6,
    0xE50, 0xED0, 0xF20, 0x1040, 0x1090, 0x17E0, 0x1810, 0x1946, 0x19D0, 0x1A80, 0x1A90, 0x1B50,
    0x1BB0, 0x1C40, 0x1C50, 0xA620, 0xA8D0, 0xA900, 0xA9D0, 0xA9F0, 0xAA50, 0xABF0, 0xFF10,
    0x104A0, 0x10D30, 0x11066, 0x110F0, 0x11136, 0x111D0, 0x112F0, 0x11450, 0x114D0, 0x11650,
    0x116C0, 0x11730, 0x118E0, 0x11950, 0x11C50, 0x11D50, 0x11DA0, 0x11F50, 0x16A60, 0x16AC0,
    0x16B50, 0x1D7CE, 0x1D7D8, 0x1D7E2, 0x1D7EC, 0x1D7F6, 0x1E140, 0x1E2F0, 0x1E4F0, 0x1E950,
    0x1FBF0]

def decimal (c : Char) : Option Nat :=
  (decimalZeros.find? fun z => z ≤ c.toNat && c.toNat < z + 10).map (c.toNat - ·)

/-- The digits of a literal: an underscore may stand between two of them. -/
def digits : List Char → Option (List Nat)
  | [] => none
  | [c] => (decimal c).map ([·])
  | c :: '_' :: rest => (decimal c).bind fun d => (digits rest).map (d :: ·)
  | c :: rest => (decimal c).bind fun d => (digits rest).map (d :: ·)

/-- The most digits `int` reads (`sys.int_info.default_max_str_digits`). -/
def maxStrDigits : Nat := 4300

def parseInt (s : String) : Option Int :=
  let (negative, body) := match (strip s).toList with
    | '-' :: body => (true, body)
    | '+' :: body => (false, body)
    | body => (false, body)
  match digits body with
  | none => none
  | some ds =>
    if ds.length ≤ maxStrDigits then
      let n : Int := ds.foldl (fun n d => n * 10 + d) 0
      some (if negative then -n else n)
    else none

variable {c : Char}

theorem isDigit_iff : c.isDigit = true ↔ '0' ≤ c ∧ c ≤ '9' := by
  change (decide ('0' ≤ c) && decide (c ≤ '9')) = true ↔ _
  rw [Bool.and_eq_true, decide_eq_true_iff, decide_eq_true_iff]

section

variable (h : c.isDigit = true)
include h

theorem toNat_of_isDigit : 48 ≤ c.toNat ∧ c.toNat ≤ 57 :=
  isDigit_iff.mp h

theorem decimal_of_isDigit : decimal c = some (c.toNat - '0'.toNat) := by
  have hbounds := toNat_of_isDigit h
  have hfind : decimalZeros.find? (fun z => z ≤ c.toNat && c.toNat < z + 10) = some 0x30 := by
    refine List.find?_cons_of_pos ?_
    simp only [Bool.and_eq_true, decide_eq_true_eq]
    omega
  rw [decimal, hfind]
  rfl

theorem not_isSpace_of_isDigit : isSpace c = false := by
  have hbounds := toNat_of_isDigit h
  simp only [isSpace, Bool.or_eq_false_iff, Bool.and_eq_false_iff, decide_eq_false_iff_not,
    beq_eq_false_iff_ne]
  omega

end

theorem digits_of_isDigit (hne : s ≠ []) (h : ∀ c ∈ s, c.isDigit = true) :
    digits s = some (s.map fun c => c.toNat - '0'.toNat) := by
  fun_induction digits s with
  | case1 => exact absurd rfl hne
  | case2 c =>
    rw [decimal_of_isDigit (h c List.mem_cons_self)]
    rfl
  | case3 c rest ih =>
    have hunder := h '_' (List.mem_cons_of_mem c List.mem_cons_self)
    cases hunder
  | case4 c rest hrest hunder ih =>
    rw [decimal_of_isDigit (h c List.mem_cons_self),
      ih hrest fun d hd => h d (List.mem_cons_of_mem c hd)]
    rfl

theorem foldl_digits (s : List Char) (init : Nat) :
    (s.map fun c => ((c.toNat - '0'.toNat : Nat) : Int)).foldl (fun n d => n * 10 + d)
      (init : Int) = ((Nat.ofDigitChars 10 s init : Nat) : Int) := by
  induction s generalizing init with
  | nil => rfl
  | cons c s ih =>
    have hnext : (init : Int) * 10 + ((c.toNat - '0'.toNat : Nat) : Int) =
        ((10 * init + (c.toNat - '0'.toNat) : Nat) : Int) := by omega
    rw [List.map_cons, List.foldl_cons, Nat.ofDigitChars_cons, hnext, ih]

theorem stripChars_of_isDigit (h : ∀ c ∈ s, c.isDigit = true) : stripChars s = s := by
  have hsolid : ∀ c ∈ s, isSpace c = false := fun c hc => not_isSpace_of_isDigit (h c hc)
  cases hhead : s.head? with
  | none => rw [List.head?_eq_none_iff.mp hhead]; rfl
  | some a =>
    cases hlast : s.getLast? with
    | none => rw [List.getLast?_eq_none_iff.mp hlast]; rfl
    | some b =>
      have hcore : stripChars ([] ++ (s ++ [])) = s := stripChars_of nofun nofun hhead
        (hsolid a (List.mem_of_head? hhead)) hlast (hsolid b (List.mem_of_getLast? hlast))
      rwa [List.nil_append, List.append_nil] at hcore

theorem unsigned : s.head? ≠ some '-' → s.head? ≠ some '+' →
    (match s with
      | '-' :: body => (true, body)
      | '+' :: body => (false, body)
      | body => (false, body)) = (false, s) := by
  intro hminus hplus
  split
  · exact absurd rfl hminus
  · exact absurd rfl hplus
  · rfl

theorem parseInt_of_isDigit (hne : s ≠ []) (h : ∀ c ∈ s, c.isDigit = true)
    (hlength : s.length ≤ maxStrDigits) :
    parseInt (String.ofList s) = some ((Nat.ofDigitChars 10 s 0 : Nat) : Int) := by
  have hminus : s.head? ≠ some '-' := by
    intro hs
    cases h '-' (List.mem_of_head? hs)
  have hplus : s.head? ≠ some '+' := by
    intro hs
    cases h '+' (List.mem_of_head? hs)
  have hfold := foldl_digits s 0
  rw [parseInt, strip_ofList, stripChars_of_isDigit h, String.toList_ofList,
    unsigned hminus hplus]
  simp only [digits_of_isDigit hne h, List.length_map, if_pos hlength, bind_pure_comp,
    List.map_eq_map, List.map_map, Bool.false_eq_true, if_false]
  exact congrArg some hfold

theorem parseInt_toDigits {n : Nat} (h : (Nat.toDigits 10 n).length ≤ maxStrDigits) :
    parseInt (String.ofList (Nat.toDigits 10 n)) = some (n : Int) := by
  have hdigit : ∀ c ∈ Nat.toDigits 10 n, c.isDigit = true := fun c hc =>
    Nat.isDigit_of_mem_toDigits (by decide) (by decide) hc
  rw [parseInt_of_isDigit Nat.toDigits_ne_nil hdigit h, Nat.ofDigitChars_ten_toDigits]

end SpatiumDdi.Text
