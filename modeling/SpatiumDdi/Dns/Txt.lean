import SpatiumDdi.Lib.Text
import SpatiumDdi.Lib.Utf8

/-!
TXT values. A stored value is plain text, or one or more quoted character-strings in
presentation form. `txtStrings` reads the character-strings off it, and `quoteStrings`
and `txtValue` write them back. The agent and the control plane carry the same copy.
-/

namespace SpatiumDdi.Dns.Txt

open Utf8
open Text (isSpace)

def maxStringOctets : Nat := 255

def stripControl (value : List Char) : List Char :=
  value.filter fun ch => decide (0x20 ≤ ch.toNat ∧ ch.toNat ≠ 0x7F)

def digitValue (c : Char) : Nat := c.toNat - 0x30

/-- The number of three digits, and what follows them. -/
def decimal : List Char → Option (Nat × List Char)
  | a :: b :: c :: rest =>
    if a.isDigit && b.isDigit && c.isDigit then
      some (digitValue a * 100 + digitValue b * 10 + digitValue c, rest)
    else
      none
  | _ => none

variable {s rest : List Char} {n : Nat} {c : Char}

theorem decimal_length (h : decimal s = some (n, rest)) : rest.length < s.length := by
  unfold decimal at h
  split at h
  · split at h
    · simp only [Option.some.injEq, Prod.mk.injEq] at h
      rw [← h.2]
      simp only [List.length_cons]
      omega
    · cases h
  · cases h

/-- The octets of a character-string and what follows it, from past its quote. -/
def parseString (s : List Char) : Option (Octets × List Char) :=
  match s with
  | [] => none
  | ch :: rest =>
    if ch = '\\' then
      match rest with
      | [] => none
      | c :: rest' =>
        match _h : decimal (c :: rest') with
        | some (octet, after) =>
          if 255 < octet then
            none
          else
            (parseString after).map fun found => (UInt8.ofNat octet :: found.1, found.2)
        | none =>
          (parseString rest').map fun found => (String.utf8EncodeChar c ++ found.1, found.2)
    else if ch = '"' then
      some ([], rest)
    else
      (parseString rest).map fun found => (String.utf8EncodeChar ch ++ found.1, found.2)
termination_by s.length
decreasing_by
  · have hlen := decimal_length _h
    simp only [List.length_cons] at hlen ⊢
    omega
  · simp only [List.length_cons]
    omega
  · simp only [List.length_cons]
    omega

theorem parseString_quote (rest : List Char) : parseString ('"' :: rest) = some ([], rest) := by
  rw [parseString.eq_def]
  rfl

theorem parseString_plain {ch : Char} (hquote : ch ≠ '"') (hback : ch ≠ '\\') (rest : List Char) :
    parseString (ch :: rest) =
      (parseString rest).map fun found => (String.utf8EncodeChar ch ++ found.1, found.2) := by
  rw [parseString.eq_def]
  simp only [if_neg hback, if_neg hquote]

theorem parseString_octet {after : List Char} (h : decimal s = some (n, after)) (hn : n ≤ 255) :
    parseString ('\\' :: s) =
      (parseString after).map fun found => (UInt8.ofNat n :: found.1, found.2) := by
  cases s with
  | nil => cases h
  | cons c rest =>
    rw [parseString.eq_def]
    simp only [if_true]
    split
    next octet after' h' =>
      rw [h, Option.some.injEq, Prod.mk.injEq] at h'
      obtain ⟨rfl, rfl⟩ := h'
      rw [if_neg (by omega)]
    next h' => rw [h] at h'; cases h'

theorem parseString_escape (h : decimal (c :: rest) = none) :
    parseString ('\\' :: c :: rest) =
      (parseString rest).map fun found => (String.utf8EncodeChar c ++ found.1, found.2) := by
  rw [parseString.eq_def]
  simp only [if_true]
  split
  next octet after h' => rw [h] at h'; cases h'
  next => rfl

theorem parseString_length {buf : Octets} (h : parseString s = some (buf, rest)) :
    rest.length < s.length := by
  fun_induction parseString s generalizing buf with
  | case1 => cases h
  | case2 => cases h
  | case3 => cases h
  | case4 c rest' octet after hdecimal hoctet ih =>
    obtain ⟨found, hfound, heq⟩ := Option.map_eq_some_iff.mp h
    have hlen := decimal_length hdecimal
    have := @ih found.1 (by rw [hfound, ← (Prod.mk.inj heq).2])
    simp only [List.length_cons] at hlen ⊢
    omega
  | case5 c rest' hdecimal ih =>
    obtain ⟨found, hfound, heq⟩ := Option.map_eq_some_iff.mp h
    have := @ih found.1 (by rw [hfound, ← (Prod.mk.inj heq).2])
    simp only [List.length_cons]
    omega
  | case6 rest' =>
    simp only [Option.some.injEq, Prod.mk.injEq] at h
    rw [h.2]
    exact Nat.lt_succ_self _
  | case7 ch rest' hback hquote ih =>
    obtain ⟨found, hfound, heq⟩ := Option.map_eq_some_iff.mp h
    have := @ih found.1 (by rw [hfound, ← (Prod.mk.inj heq).2])
    simp only [List.length_cons]
    omega

/-- The character-strings, with white space between any two. -/
def parseStrings (s : List Char) : Option (List Octets) :=
  match s with
  | [] => some []
  | ch :: rest =>
    if isSpace ch then
      parseStrings rest
    else if ch ≠ '"' then
      none
    else
      match _h : parseString rest with
      | none => none
      | some (buf, after) =>
        if after.head?.all isSpace then (parseStrings after).map fun parts => buf :: parts
        else none
termination_by s.length
decreasing_by
  · simp
  · have hlen := parseString_length _h
    simp only [List.length_cons]
    omega

def parseQuotedTxt (s : List Char) : Option (List Octets) :=
  (parseStrings s).filter fun parts => !parts.isEmpty

/-- Back from `stop` over at most three continuations, `k` being where it stands. -/
def backUp (data : Octets) (stop : Nat) : Nat → Nat
  | 0 => 0
  | k + 1 =>
    if stop - (k + 1) < 3 ∧ isContinuation (data.getD (k + 1) 0) = true then backUp data stop k
    else k + 1

/-- Where the next piece of `data` ends. -/
def chunkEnd (data : Octets) : Nat :=
  let stop := min maxStringOctets data.length
  if stop < data.length ∧ isContinuation (data.getD stop 0) = true then
    let k := backUp data stop stop
    if 0 < k ∧ data.getD k 0 &&& 0xC0 = 0xC0 then k else stop
  else
    stop

theorem chunkEnd_pos {data : Octets} (h : data ≠ []) : 0 < chunkEnd data := by
  have hlen := List.length_pos_iff.mpr h
  have hstop : 0 < min maxStringOctets data.length := by
    rw [maxStringOctets]
    omega
  unfold chunkEnd
  simp only
  split
  · split
    next hk => exact hk.1
    next => exact hstop
  · exact hstop

def chunks (data : Octets) : List Octets :=
  if _h : data = [] then
    []
  else
    data.take (chunkEnd data) :: chunks (data.drop (chunkEnd data))
termination_by data.length
decreasing_by
  have hpos := chunkEnd_pos _h
  have hlen := List.length_pos_iff.mpr _h
  rw [List.length_drop]
  omega

def chunkOctets (data : Octets) : List Octets := if data = [] then [[]] else chunks data

def txtStrings (value : List Char) : List Octets :=
  let s := stripControl value
  let stripped := Text.stripChars s
  let strings := if stripped.head? = some '"' then parseQuotedTxt stripped else none
  (strings.getD [encode s]).flatMap chunkOctets

def utf8SeqLen (lead : UInt8) : Nat :=
  if 0xC2 ≤ lead ∧ lead ≤ 0xDF then 2
  else if 0xE0 ≤ lead ∧ lead ≤ 0xEF then 3
  else if 0xF0 ≤ lead ∧ lead ≤ 0xF4 then 4
  else 0

def digit (n : Nat) : Char := Char.ofNat (0x30 + n)

def escapeOctet (c : UInt8) : List Char :=
  ['\\', digit (c.toNat / 100), digit (c.toNat / 10 % 10), digit (c.toNat % 10)]

section Printable

variable (isPrintable : Char → Bool)

/-- The printable text that the octets announced by the first one encode. -/
def printableText (c : UInt8) (rest : Octets) : Option (List Char) :=
  let seq := utf8SeqLen c
  if seq ≠ 0 ∧ seq ≤ (c :: rest).length then
    (decode ((c :: rest).take seq)).filter fun char => !char.isEmpty && char.all isPrintable
  else
    none

def escapeOctets (data : Octets) : List Char :=
  match data with
  | [] => []
  | c :: rest =>
    if c = 0x22 then
      '\\' :: '"' :: escapeOctets rest
    else if c = 0x5C then
      '\\' :: '\\' :: escapeOctets rest
    else if 0x20 ≤ c ∧ c < 0x7F then
      Char.ofNat c.toNat :: escapeOctets rest
    else
      match printableText isPrintable c rest with
      | some char => char ++ escapeOctets (rest.drop (utf8SeqLen c - 1))
      | none => escapeOctet c ++ escapeOctets rest
termination_by data.length
decreasing_by
  all_goals
    simp only [List.length_cons, List.length_drop]
    omega

def quoted (c : Octets) : List Char := '"' :: escapeOctets isPrintable c ++ ['"']

def quoteStrings (strings : List Octets) : List Char :=
  List.intercalate [' '] (strings.map (quoted isPrintable))

def txtValue (strings : List Octets) : List Char :=
  match decode strings.flatten with
  | none => quoteStrings isPrintable strings
  | some bare =>
    if strings ≠ [] ∧ txtStrings bare = strings then bare else quoteStrings isPrintable strings

def quoteTxt (value : List Char) : List Char := quoteStrings isPrintable (txtStrings value)

end Printable

open Utf8
open Text (isSpace)

/-- What stands between the quotes of a character-string, and the octets it spells. -/
inductive CharString : List Char → Octets → Prop
  | nil : CharString [] []
  | plain {c : Char} {s : List Char} {o : Octets} : c ≠ '"' → c ≠ '\\' → CharString s o →
      CharString (c :: s) (String.utf8EncodeChar c ++ o)
  | octet {s rest : List Char} {n : Nat} {o : Octets} : decimal s = some (n, rest) → n ≤ 255 →
      CharString rest o → CharString ('\\' :: s) (UInt8.ofNat n :: o)
  | escape {c : Char} {s : List Char} {o : Octets} : decimal (c :: s) = none → CharString s o →
      CharString ('\\' :: c :: s) (String.utf8EncodeChar c ++ o)

/-- Quoted character-strings with white space between any two, and perhaps after the last. -/
inductive Strings : List Char → List Octets → Prop
  | last {s sp : List Char} {o : Octets} : CharString s o → (∀ c ∈ sp, isSpace c = true) →
      Strings ('"' :: s ++ '"' :: sp) [o]
  | cons {s sp t : List Char} {o : Octets} {os : List Octets} : CharString s o → sp ≠ [] →
      (∀ c ∈ sp, isSpace c = true) → Strings t os → Strings ('"' :: s ++ '"' :: (sp ++ t)) (o :: os)

/-- A text in quoted presentation form, and its character-strings. -/
def Presents (v : List Char) (strings : List Octets) : Prop :=
  ∃ sp t, v = sp ++ t ∧ (∀ c ∈ sp, isSpace c = true) ∧ Strings t strings

def QuotedForm (v : List Char) : Prop := ∃ strings, Presents v strings

variable {v : List Char}

theorem not_quotedForm_of_head (hspace : isSpace c = false) (hquote : c ≠ '"') :
    ¬ QuotedForm (c :: v) := by
  rintro ⟨strings, sp, t, heq, hsp, ht⟩
  cases sp with
  | nil => cases ht <;> exact hquote (List.cons.inj heq).1
  | cons d sp =>
    rw [(List.cons.inj heq).1, hsp d List.mem_cons_self] at hspace
    cases hspace

theorem isSpace_quote : isSpace '"' = false := rfl

theorem decimal_of_not_digit (h : c.isDigit = false) (rest : List Char) :
    decimal (c :: rest) = none := by
  unfold decimal
  split
  next a b d rest' heq =>
    obtain ⟨rfl, _⟩ := List.cons.inj heq
    rw [h]
    rfl
  · rfl

theorem decimal_append (s rest : List Char) :
    decimal (s ++ '"' :: rest) = (decimal s).map fun found => (found.1, found.2 ++ '"' :: rest) := by
  rcases s with _ | ⟨a, _ | ⟨b, _ | ⟨c, s⟩⟩⟩
  · exact decimal_of_not_digit rfl rest
  · unfold decimal
    cases rest <;> simp
  · simp [decimal]
  · unfold decimal
    simp only [List.cons_append]
    split <;> rfl

variable {s : List Char}

theorem decimal_digits (h : decimal s = some (n, rest)) :
    ∃ ds, s = ds ++ rest ∧ ∀ rest', decimal (ds ++ rest') = some (n, rest') := by
  unfold decimal at h
  split at h
  next a b c rest' =>
    split at h
    next hdigits =>
      simp only [Option.some.injEq, Prod.mk.injEq] at h
      obtain ⟨rfl, rfl⟩ := h
      exact ⟨[a, b, c], rfl, fun _ => if_pos hdigits⟩
    · cases h
  · cases h

theorem parseString_of {o : Octets} (h : CharString s o) :
    parseString (s ++ '"' :: rest) = some (o, rest) := by
  induction h with
  | nil => exact parseString_quote rest
  | plain hquote hback _ ih =>
    rw [List.cons_append, parseString_plain hquote hback, ih]
    rfl
  | octet hdecimal hle _ ih =>
    rw [List.cons_append, parseString_octet (by rw [decimal_append, hdecimal]; rfl) hle, ih]
    rfl
  | @escape c s _ hdecimal _ ih =>
    have hlong : decimal (c :: (s ++ '"' :: rest)) = none := by
      rw [← List.cons_append, decimal_append, hdecimal]
      rfl
    rw [List.cons_append, List.cons_append, parseString_escape hlong, ih]
    rfl

theorem charString_of {o : Octets} (h : parseString s = some (o, rest)) :
    ∃ t, s = t ++ '"' :: rest ∧ CharString t o := by
  fun_induction parseString s generalizing o with
  | case1 => cases h
  | case2 => cases h
  | case3 => cases h
  | case4 c s octet after hdecimal hoctet ih =>
    obtain ⟨⟨o', rest'⟩, hfound, heq⟩ := Option.map_eq_some_iff.mp h
    obtain ⟨rfl, rfl⟩ := Prod.mk.inj heq
    obtain ⟨t, rfl, ht⟩ := ih hfound
    obtain ⟨ds, hds, hany⟩ := decimal_digits hdecimal
    rw [hds, ← List.append_assoc]
    exact ⟨'\\' :: (ds ++ t), rfl, .octet (hany t) (by omega) ht⟩
  | case5 c s hdecimal ih =>
    obtain ⟨⟨o', rest'⟩, hfound, heq⟩ := Option.map_eq_some_iff.mp h
    obtain ⟨rfl, rfl⟩ := Prod.mk.inj heq
    obtain ⟨t, rfl, ht⟩ := ih hfound
    have hshort := decimal_append (c :: t) rest'
    rw [List.cons_append, hdecimal, eq_comm, Option.map_eq_none_iff] at hshort
    exact ⟨'\\' :: c :: t, rfl, .escape hshort ht⟩
  | case6 s =>
    simp only [Option.some.injEq, Prod.mk.injEq] at h
    obtain ⟨rfl, rfl⟩ := h
    exact ⟨[], rfl, .nil⟩
  | case7 ch s hback hquote ih =>
    obtain ⟨⟨o', rest'⟩, hfound, heq⟩ := Option.map_eq_some_iff.mp h
    obtain ⟨rfl, rfl⟩ := Prod.mk.inj heq
    obtain ⟨t, rfl, ht⟩ := ih hfound
    exact ⟨ch :: t, rfl, .plain hquote hback ht⟩

variable {sp : List Char}

theorem parseStrings_space (h : ∀ c ∈ sp, isSpace c = true) (t : List Char) :
    parseStrings (sp ++ t) = parseStrings t := by
  induction sp with
  | nil => rfl
  | cons c sp ih =>
    rw [List.cons_append, parseStrings, if_pos (h c List.mem_cons_self),
      ih fun d hd => h d (List.mem_cons_of_mem _ hd)]

theorem parseStrings_quote (s : List Char) :
    parseStrings ('"' :: s) = (parseString s).bind fun found =>
      if found.2.head?.all isSpace then (parseStrings found.2).map fun parts => found.1 :: parts
      else none := by
  rw [parseStrings, isSpace_quote]
  simp only [Bool.false_eq_true, if_false, ne_eq, not_true_eq_false]
  split
  next h => rw [h]; rfl
  next buf after h => rw [h]; rfl

theorem head_all_of_space {t : List Char} (h : ∀ c ∈ sp, isSpace c = true) (ht : sp = [] → t = []) :
    (sp ++ t).head?.all isSpace = true := by
  cases sp with
  | nil =>
    rw [ht rfl]
    rfl
  | cons c sp => exact h c List.mem_cons_self

variable {strings : List Octets}

theorem parseStrings_of (h : Strings s strings) : parseStrings s = some strings := by
  induction h with
  | @last s sp o hs hsp =>
    have hhead := head_all_of_space (t := []) hsp fun _ => rfl
    have hrest := parseStrings_space hsp []
    rw [List.append_nil] at hhead hrest
    rw [List.cons_append, parseStrings_quote, parseString_of hs, Option.bind_some, if_pos hhead,
      hrest, parseStrings]
    rfl
  | @cons s sp t o os hs hne hsp _ ih =>
    have hhead := head_all_of_space (t := t) hsp fun hnil => absurd hnil hne
    rw [List.cons_append, parseStrings_quote, parseString_of hs, Option.bind_some, if_pos hhead,
      parseStrings_space hsp, ih]
    rfl

theorem presents_of (h : parseStrings s = some strings) :
    (strings = [] ∧ ∀ c ∈ s, isSpace c = true) ∨ Presents s strings := by
  fun_induction parseStrings s generalizing strings with
  | case1 =>
    rw [Option.some.injEq] at h
    exact .inl ⟨h.symm, fun _ hc => absurd hc List.not_mem_nil⟩
  | case2 ch rest hspace ih =>
    rcases ih h with ⟨hnil, hall⟩ | ⟨sp, t, rfl, hsp, ht⟩
    · exact .inl ⟨hnil, List.forall_mem_cons.mpr ⟨hspace, hall⟩⟩
    · exact .inr ⟨ch :: sp, t, rfl, List.forall_mem_cons.mpr ⟨hspace, hsp⟩, ht⟩
  | case3 => cases h
  | case4 => cases h
  | case5 ch rest hspace hquote buf after hbuf hhead ih =>
    rw [ne_eq, not_not] at hquote
    subst hquote
    obtain ⟨parts, hparts, rfl⟩ := Option.map_eq_some_iff.mp h
    obtain ⟨t, rfl, ht⟩ := charString_of hbuf
    right
    rcases ih hparts with ⟨rfl, hall⟩ | ⟨sp, u, rfl, hsp, hu⟩
    · exact ⟨[], _, rfl, nofun, .last ht hall⟩
    · refine ⟨[], _, rfl, nofun, .cons ht ?_ hsp hu⟩
      rintro rfl
      cases hu <;> cases hhead
  | case6 => cases h

section

variable (h : Strings s strings)
include h

theorem Strings.ne_nil : strings ≠ [] := by
  cases h <;> exact List.cons_ne_nil _ _

theorem Strings.append_space (hsp : ∀ c ∈ sp, isSpace c = true) : Strings (s ++ sp) strings := by
  induction h with
  | @last s trail o hs htrail =>
    rw [List.append_assoc, List.cons_append]
    exact .last hs (List.forall_mem_append.mpr ⟨htrail, hsp⟩)
  | @cons s mid t o os hs hne hmid _ ih =>
    have hassoc : '"' :: s ++ '"' :: (mid ++ t) ++ sp = '"' :: s ++ '"' :: (mid ++ (t ++ sp)) := by
      simp
    rw [hassoc]
    exact .cons hs hne hmid ih

theorem Strings.exists_core :
    ∃ core trail, s = core ++ trail ∧ Strings core strings ∧ core.head? = some '"' ∧
      core.getLast? = some '"' ∧ ∀ c ∈ trail, isSpace c = true := by
  induction h with
  | @last s trail o hs htrail =>
    exact ⟨'"' :: s ++ ['"'], trail, by simp, .last hs nofun, rfl, List.getLast?_concat, htrail⟩
  | @cons s mid t o os hs hne hmid _ ih =>
    obtain ⟨core, trail, rfl, hcore, hhead, hlast, htrail⟩ := ih
    refine ⟨'"' :: s ++ '"' :: (mid ++ core), trail, by simp, .cons hs hne hmid hcore, rfl, ?_,
      htrail⟩
    rw [List.getLast?_append, List.getLast?_cons, List.getLast?_append, hlast]
    rfl

end

theorem presents_stripChars : Presents (Text.stripChars s) strings ↔ Presents s strings := by
  constructor
  · rintro ⟨sp, t, ht, hsp, hstrings⟩
    obtain ⟨lead, trail, hs, hlead, htrail⟩ := Text.exists_stripChars s
    refine ⟨lead ++ sp, t ++ trail, ?_, List.forall_mem_append.mpr ⟨hlead, hsp⟩,
      hstrings.append_space htrail⟩
    rw [hs, ht]
    simp only [List.append_assoc]
  · rintro ⟨sp, t, rfl, hsp, hstrings⟩
    obtain ⟨core, trail, rfl, hcore, hhead, hlast, htrail⟩ := hstrings.exists_core
    rw [Text.stripChars_of hsp htrail hhead isSpace_quote hlast isSpace_quote]
    exact ⟨[], core, rfl, nofun, hcore⟩

theorem parseQuotedTxt_iff : parseQuotedTxt s = some strings ↔ Presents s strings := by
  rw [parseQuotedTxt, Option.filter_eq_some_iff]
  constructor
  · rintro ⟨hparse, hne⟩
    rcases presents_of hparse with ⟨rfl, _⟩ | h
    · cases hne
    · exact h
  · rintro ⟨sp, t, rfl, hsp, ht⟩
    refine ⟨?_, by simpa using ht.ne_nil⟩
    rw [parseStrings_space hsp]
    exact parseStrings_of ht

theorem head_of_presents (h : Presents (Text.stripChars s) strings) :
    (Text.stripChars s).head? = some '"' := by
  obtain ⟨sp, t, rfl, hsp, hstrings⟩ := presents_stripChars.mp h
  obtain ⟨core, trail, rfl, _, hhead, hlast, htrail⟩ := hstrings.exists_core
  rw [Text.stripChars_of hsp htrail hhead isSpace_quote hlast isSpace_quote, hhead]

theorem txtStrings_of_presents (h : Presents (stripControl v) strings) :
    txtStrings v = strings.flatMap chunkOctets := by
  have hstripped := presents_stripChars.mpr h
  have hparse : (if (Text.stripChars (stripControl v)).head? = some '"' then
      parseQuotedTxt (Text.stripChars (stripControl v)) else none) = some strings := by
    rw [if_pos (head_of_presents hstripped), parseQuotedTxt_iff.mpr hstripped]
  exact congrArg (fun found => (found.getD [encode (stripControl v)]).flatMap chunkOctets) hparse

theorem txtStrings_of_not (h : ¬ QuotedForm (stripControl v)) :
    txtStrings v = chunkOctets (encode (stripControl v)) := by
  have hnone : parseQuotedTxt (Text.stripChars (stripControl v)) = none := by
    cases hparse : parseQuotedTxt (Text.stripChars (stripControl v)) with
    | none => rfl
    | some strings =>
      exact absurd ⟨strings, presents_stripChars.mp (parseQuotedTxt_iff.mp hparse)⟩ h
  have hparse : (if (Text.stripChars (stripControl v)).head? = some '"' then
      parseQuotedTxt (Text.stripChars (stripControl v)) else none) = none := by
    rw [hnone, ite_self]
  calc txtStrings v
      = (Option.getD none [encode (stripControl v)]).flatMap chunkOctets :=
        congrArg (fun found => (found.getD [encode (stripControl v)]).flatMap chunkOctets) hparse
    _ = chunkOctets (encode (stripControl v)) := List.append_nil _

end SpatiumDdi.Dns.Txt
