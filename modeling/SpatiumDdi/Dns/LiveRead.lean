import Mathlib.Data.List.DropRight
import Mathlib.Data.List.Forall2
import SpatiumDdi.Dns.Caa
import SpatiumDdi.Lib.Lines

/-!
The records of a dynamic zone as the agent reads them off its own daemon
(`spatium_dns_agent/ingest.py`): BIND9 through a transfer printed by `dig`, PowerDNS through
the document of the zone.
-/

namespace SpatiumDdi.Dns.LiveRead

open Caa (splitSpace)
open Text (isSpace)

abbrev Chars := List Char

def ignoredTypes : List Chars :=
  ["SOA".toList, "RRSIG".toList, "NSEC".toList, "NSEC3".toList, "NSEC3PARAM".toList,
    "DNSKEY".toList, "CDS".toList, "CDNSKEY".toList, "TYPE65534".toList]

structure RecordData where
  name : Chars
  recordType : Chars
  ttl : Option ℤ
  priority : Option ℤ
  weight : Option ℤ
  port : Option ℤ
  value : Chars

/-- `_int_or_none`, and `int` where a `ValueError` is caught. -/
def intOrNone (v : Chars) : Option ℤ := Text.parseInt (String.ofList v)

section Fold

variable (lower upper : String → String)

def onChars (f : String → String) (s : Chars) : Chars := (f (String.ofList s)).toList

def relativeName (owner zone : Chars) : Chars :=
  let bare := Text.rstripDotsChars owner
  let o := onChars lower bare
  let z := onChars lower (Text.rstripDotsChars zone)
  if o = z then ['@']
  else if ('.' :: z) <:+ o then bare.take (bare.length - (z.length + 1))
  else bare

/-- The columns of a record out of its rdata tokens. -/
def readRdata (name rtype : Chars) (ttl : Option ℤ) (rdata : List Chars) : RecordData :=
  let whole : RecordData := ⟨name, rtype, ttl, none, none, none, List.intercalate [' '] rdata⟩
  match rdata with
  | r0 :: r1 :: rest =>
    if rtype = "MX".toList then
      { whole with priority := intOrNone r0, value := List.intercalate [' '] (r1 :: rest) }
    else if rtype = "SRV".toList then
      match rest with
      | r2 :: r3 :: rest' =>
        { whole with
          priority := intOrNone r0
          weight := intOrNone r1
          port := intOrNone r2
          value := List.intercalate [' '] (r3 :: rest') }
      | _ => whole
    else whole
  | _ => whole

theorem readRdata_whole {rtype : Chars} (hmx : rtype ≠ "MX".toList) (hsrv : rtype ≠ "SRV".toList)
    (name : Chars) (ttl : Option ℤ) (rdata : List Chars) :
    readRdata name rtype ttl rdata =
      ⟨name, rtype, ttl, none, none, none, List.intercalate [' '] rdata⟩ := by
  unfold readRdata
  split
  · rw [if_neg hmx, if_neg hsrv]
  · rfl

def readLine (zone raw : Chars) : Option RecordData :=
  let line := Text.stripChars raw
  if line = [] ∨ line.head? = some ';' then
    none
  else
    match splitSpace line with
    | owner :: ttl :: cls :: rtype :: r0 :: rdata =>
      let rtype := onChars upper rtype
      let name := relativeName lower owner zone
      if cls ≠ "IN".toList then none
      else if ignoredTypes.contains rtype then none
      else if rtype = "NS".toList ∧ name = ['@'] then none
      else some (readRdata name rtype (intOrNone ttl) (r0 :: rdata))
    | _ => none

def parseAxfr (text zone : Chars) : List RecordData :=
  (Text.splitLines text).filterMap (readLine lower upper zone)

/-- From past a quote: a match of `((?:\\.|[^"\\])*)"`, and what follows it. -/
def chunkBody : Chars → Option (Chars × Chars)
  | [] => none
  | '"' :: rest => some ([], rest)
  | ['\\'] => none
  | '\\' :: c :: rest =>
    if c = '\n' then none
    else (chunkBody rest).map fun found => ('\\' :: c :: found.1, found.2)
  | c :: rest => (chunkBody rest).map fun found => (c :: found.1, found.2)

theorem chunkBody_length {s body after : Chars} (h : chunkBody s = some (body, after)) :
    after.length < s.length := by
  fun_induction chunkBody s generalizing body with
  | case1 => cases h
  | case2 rest =>
    obtain ⟨_, rfl⟩ := Prod.mk.inj (Option.some.inj h)
    exact Nat.lt_succ_self _
  | case3 => cases h
  | case4 => cases h
  | case5 c rest _ ih =>
    obtain ⟨found, hfound, heq⟩ := Option.map_eq_some_iff.mp h
    have := @ih found.1 (by rw [hfound, ← (Prod.mk.inj heq).2])
    simp only [List.length_cons]
    omega
  | case6 c rest _ _ _ ih =>
    obtain ⟨found, hfound, heq⟩ := Option.map_eq_some_iff.mp h
    have := @ih found.1 (by rw [hfound, ← (Prod.mk.inj heq).2])
    simp only [List.length_cons]
    omega

def txtChunks (s : Chars) : List Chars :=
  match s with
  | [] => []
  | c :: rest =>
    if c = '"' then
      match _h : chunkBody rest with
      | some (body, after) => body :: txtChunks after
      | none => txtChunks rest
    else
      txtChunks rest
termination_by s.length
decreasing_by
  · have hlen := chunkBody_length _h
    simp only [List.length_cons]
    omega
  · simp
  · simp

def unquoteTxt (content : Chars) : Chars :=
  let chunks := txtChunks content
  if chunks = [] then content
  else
    chunks.flatMap fun c =>
      Text.replaceTwo '\\' '\\' ['\\'] (Text.replaceTwo '\\' '"' ['"'] c)

/-- Before and after the first space. -/
def cut (s : Chars) : Option (Chars × Chars) :=
  if ' ' ∈ s then some (s.takeWhile (· ≠ ' '), (s.dropWhile (· ≠ ' ')).drop 1) else none

structure PdnsEntry where
  disabled : Bool
  content : Option Chars

structure PdnsRrset where
  type : Option Chars
  name : Option Chars
  ttl : Option ℤ
  records : List PdnsEntry

def readEntry (name rtype : Chars) (ttl : Option ℤ) (entry : PdnsEntry) : RecordData :=
  let content := entry.content.getD []
  let whole : RecordData := ⟨name, rtype, ttl, none, none, none, content⟩
  if rtype = "MX".toList then
    let (first, rest) := (cut content).getD (content, [])
    if (intOrNone first).isSome ∧ rest ≠ [] then
      { whole with priority := intOrNone first, value := rest }
    else whole
  else if rtype = "SRV".toList then
    let parts := do
      let (p0, rest) ← cut content
      let (p1, rest) ← cut rest
      let (p2, rest) ← cut rest
      return (← intOrNone p0, ← intOrNone p1, ← intOrNone p2, rest)
    match parts with
    | some (priority, weight, port, rest) =>
      { whole with priority := some priority, weight := some weight, port := some port, value := rest }
    | none => whole
  else if rtype = "TXT".toList then { whole with value := unquoteTxt content }
  else whole

def PdnsRrset.rtype (rrset : PdnsRrset) : Chars := onChars upper (rrset.type.getD [])

def PdnsRrset.owner (rrset : PdnsRrset) (zname : Chars) : Chars :=
  relativeName lower (rrset.name.getD []) zname

/-- The apex SOA, which a zone that is not held is answered without. -/
def PdnsRrset.isApexSoa (rrset : PdnsRrset) (zname : Chars) : Bool :=
  rrset.rtype upper = "SOA".toList ∧ rrset.owner lower zname = ['@']

def readRrset (zname : Chars) (rrset : PdnsRrset) : List RecordData :=
  let rtype := rrset.rtype upper
  let name := rrset.owner lower zname
  if rtype = [] then []
  else if ignoredTypes.contains rtype then []
  else if rtype = "NS".toList ∧ name = ['@'] then []
  else (rrset.records.filter fun entry => !entry.disabled).map (readEntry name rtype rrset.ttl)

def parsePdnsZone (rrsets : List PdnsRrset) (zone : Chars) : Option (List RecordData) :=
  let zname := Text.rstripDotsChars zone
  if rrsets.any (PdnsRrset.isApexSoa lower upper · zname) then
    some (rrsets.flatMap (readRrset lower upper zname))
  else
    none

end Fold

end SpatiumDdi.Dns.LiveRead

namespace SpatiumDdi.Dns.LiveTxt

open Utf8 Txt LiveRead
open Caa (splitSpace)
open Text (isSpace isBreak squeeze Doubled)

structure TxtRecord where
  strings : List Octets
  nonempty : strings ≠ []
  short : ∀ s ∈ strings, s.length ≤ 255

def Printable (b : UInt8) : Prop := 0x20 ≤ b ∧ b < 0x7F

instance (b : UInt8) : Decidable (Printable b) := inferInstanceAs (Decidable (_ ∧ _))

/-- An octet inside the quotes of the master-file form. -/
def masterOctet (b : UInt8) : Chars :=
  if b = 0x22 then ['\\', '"']
  else if b = 0x5C then ['\\', '\\']
  else if Printable b then [Char.ofNat b.toNat]
  else escapeOctet b

def quotedString (s : Octets) : Chars := '"' :: (s.flatMap masterOctet ++ ['"'])

/-- Each string in quotes, one space between any two. -/
def masterForm (strings : List Octets) : Chars :=
  List.intercalate [' '] (strings.map quotedString)

/-- The value stands for the octets of the record. -/
def Keeps (r : TxtRecord) (v : Chars) : Prop := (txtStrings v).flatten = r.strings.flatten

theorem masterOctet_cases (b : UInt8) :
    (b = 0x22 ∧ masterOctet b = ['\\', '"']) ∨ (b = 0x5C ∧ masterOctet b = ['\\', '\\']) ∨
      (b ≠ 0x22 ∧ b ≠ 0x5C ∧ Printable b ∧ masterOctet b = [Char.ofNat b.toNat]) ∨
      (b ≠ 0x22 ∧ b ≠ 0x5C ∧ ¬ Printable b ∧ masterOctet b = escapeOctet b) := by
  unfold masterOctet
  by_cases hquote : b = 0x22
  · exact .inl ⟨hquote, if_pos hquote⟩
  · by_cases hback : b = 0x5C
    · exact .inr (.inl ⟨hback, by rw [if_neg hquote, if_pos hback]⟩)
    · by_cases hprint : Printable b
      · exact .inr (.inr (.inl ⟨hquote, hback, hprint, by
          rw [if_neg hquote, if_neg hback, if_pos hprint]⟩))
      · exact .inr (.inr (.inr ⟨hquote, hback, hprint, by
          rw [if_neg hquote, if_neg hback, if_neg hprint]⟩))

theorem printableText_none (c : UInt8) (rest : Octets) :
    printableText (fun _ => false) c rest = none := by
  unfold printableText
  dsimp only
  split
  · rw [Option.filter_eq_none_iff]
    intro char _
    cases char <;> simp
  · rfl

theorem escapeOctets_eq (s : Octets) : escapeOctets (fun _ => false) s = s.flatMap masterOctet := by
  fun_induction escapeOctets (fun _ => false) s with
  | case1 => rfl
  | case2 rest ih => rw [List.flatMap_cons, ← ih]; rfl
  | case3 rest _ ih => rw [List.flatMap_cons, ← ih]; rfl
  | case4 c rest hquote hback hprint ih =>
    have hform : masterOctet c = [Char.ofNat c.toNat] := by
      rw [masterOctet, if_neg hquote, if_neg hback]
      exact if_pos hprint
    rw [List.flatMap_cons, ← ih, hform]
    rfl
  | case5 c rest _ _ _ char hchar _ =>
    rw [printableText_none] at hchar
    cases hchar
  | case6 c rest hquote hback hprint _ ih =>
    rw [List.flatMap_cons, ← ih, masterOctet, if_neg hquote, if_neg hback]
    exact congrArg (· ++ _) (if_neg hprint).symm

theorem masterForm_eq (strings : List Octets) :
    masterForm strings = quoteStrings (fun _ => false) strings := by
  rw [masterForm, quoteStrings]
  congr 2
  funext s
  rw [quotedString, quoted, escapeOctets_eq]
  rfl

variable {strings : List Octets}

theorem txtStrings_masterForm (hne : strings ≠ []) (h : ∀ s ∈ strings, s.length ≤ 255) :
    txtStrings (masterForm strings) = strings := by
  rw [masterForm_eq, txtStrings_quoteStrings hne h]

theorem masterForm_cons (s t : Octets) (strings : List Octets) :
    masterForm (s :: t :: strings) = quotedString s ++ ' ' :: masterForm (t :: strings) :=
  rfl

theorem masterForm_singleton (s : Octets) : masterForm [s] = quotedString s := by
  rw [masterForm, List.map_singleton, List.intercalate_singleton]

variable {b : UInt8}

theorem toNat_ofNat (h : Printable b) :
    (Char.ofNat b.toNat).toNat = b.toNat ∧ 0x20 ≤ b.toNat ∧ b.toNat < 0x7F := by
  have hlt := UInt8.lt_iff_toNat_lt.mp h.2
  exact ⟨(encodeChar_ofNat (Nat.lt_succ_of_lt hlt)).1, UInt8.le_iff_toNat_le.mp h.1, hlt⟩

theorem ofNat_ne {d : UInt8} (h : Printable b) (hd : d.toNat < 0x80) (hne : b ≠ d) :
    Char.ofNat b.toNat ≠ Char.ofNat d.toNat := by
  intro heq
  have htoNat := congrArg Char.toNat heq
  rw [(toNat_ofNat h).1, (encodeChar_ofNat hd).1] at htoNat
  exact hne (UInt8.toNat_inj.mp htoNat)

/-- Printable, and no white space. -/
def Visible (c : Char) : Prop := 0x20 < c.toNat ∧ c.toNat < 0x7F

variable {c : Char} {word s : Chars}

theorem Visible.not_isSpace (h : Visible c) : isSpace c = false := by
  obtain ⟨hlow, hhigh⟩ := h
  simp only [isSpace, Bool.or_eq_false_iff, Bool.and_eq_false_iff, decide_eq_false_iff_not,
    beq_eq_false_iff_ne]
  omega

theorem visible_digit {n : Nat} (h : n < 10) : Visible (digit n) := by
  have hall : ∀ k < 10, 0x20 < (digit k).toNat ∧ (digit k).toNat < 0x7F := by decide
  exact hall n h

theorem visible_escapeOctet (b : UInt8) : ∀ c ∈ escapeOctet b, Visible c := by
  have hlt := b.toNat_lt
  simp only [escapeOctet, List.forall_mem_cons]
  exact ⟨⟨by decide, by decide⟩, visible_digit (by omega), visible_digit (by omega),
    visible_digit (by omega), List.forall_mem_nil _⟩

theorem visible_masterOctet (h : b ≠ 0x20) : ∀ c ∈ masterOctet b, Visible c := by
  rcases masterOctet_cases b with ⟨_, heq⟩ | ⟨_, heq⟩ | ⟨_, _, hprint, heq⟩ | ⟨_, _, _, heq⟩
  · rw [heq, List.forall_mem_cons, List.forall_mem_singleton]
    exact ⟨⟨by decide, by decide⟩, by decide, by decide⟩
  · rw [heq, List.forall_mem_cons, List.forall_mem_singleton]
    exact ⟨⟨by decide, by decide⟩, by decide, by decide⟩
  · obtain ⟨hchar, hlow, hhigh⟩ := toNat_ofNat hprint
    have hne : b.toNat ≠ 0x20 := fun hb => h (UInt8.toNat_inj.mp hb)
    rw [heq, List.forall_mem_singleton, Visible, hchar]
    omega
  · rw [heq]
    exact visible_escapeOctet b

theorem masterOctet_space : masterOctet 0x20 = [' '] := rfl

theorem masterOctet_ne_nil (b : UInt8) : masterOctet b ≠ [] := by
  rcases masterOctet_cases b with ⟨_, heq⟩ | ⟨_, heq⟩ | ⟨_, _, _, heq⟩ | ⟨_, _, _, heq⟩ <;>
    rw [heq] <;> exact List.cons_ne_nil _ _

/-- A space, or no white space. -/
def Plain (c : Char) : Prop := c = ' ' ∨ Visible c

theorem plain_flatMap (s : Octets) : ∀ c ∈ s.flatMap masterOctet, Plain c := by
  intro c hc
  obtain ⟨b, _, hb⟩ := List.mem_flatMap.mp hc
  by_cases hspace : b = 0x20
  · rw [hspace, masterOctet_space, List.mem_singleton] at hb
    exact .inl hb
  · exact .inr (visible_masterOctet hspace c hb)

theorem plain_quote : Plain '"' := .inr ⟨by decide, by decide⟩

theorem plain_masterForm (strings : List Octets) : ∀ c ∈ masterForm strings, Plain c := by
  intro c hc
  rcases Text.mem_intercalate hc with hspace | ⟨part, hpart, hmem⟩
  · exact .inl hspace
  · obtain ⟨s, _, rfl⟩ := List.mem_map.mp hpart
    rw [quotedString, List.mem_cons, List.mem_append, List.mem_singleton] at hmem
    rcases hmem with rfl | hmem | rfl
    · exact plain_quote
    · exact plain_flatMap s c hmem
    · exact plain_quote

theorem head_masterOctet (h : b ≠ 0x20) (rest : Chars) :
    (masterOctet b ++ rest).head? ≠ some ' ' := by
  obtain ⟨c, cs, heq⟩ := List.exists_cons_of_ne_nil (masterOctet_ne_nil b)
  rw [heq, List.cons_append, List.head?_cons, ne_eq, Option.some.injEq]
  rintro rfl
  have hvisible := visible_masterOctet h ' ' (by rw [heq]; exact List.mem_cons_self)
  exact absurd hvisible.1 (by decide)

theorem head_flatMap (s : Octets) (rest : Chars) :
    (s.flatMap masterOctet ++ '"' :: rest).head? = some ' ' ↔ s.head? = some 0x20 := by
  cases s with
  | nil => exact ⟨fun h => absurd (Option.some.inj h) (by decide), nofun⟩
  | cons b s =>
    rw [List.flatMap_cons, List.append_assoc, List.head?_cons, Option.some.injEq]
    by_cases hb : b = 0x20
    · rw [hb, masterOctet_space]
      exact ⟨fun _ => rfl, fun _ => rfl⟩
    · exact ⟨fun h => absurd h (head_masterOctet hb _), fun h => absurd h hb⟩

theorem squeeze_flatMap (s : Octets) (rest : Chars) :
    squeeze ' ' (s.flatMap masterOctet ++ '"' :: rest) =
      (squeeze 0x20 s).flatMap masterOctet ++ '"' :: squeeze ' ' rest := by
  induction s with
  | nil => exact Text.squeeze_of_ne (by decide) rest
  | cons b s ih =>
    rw [List.flatMap_cons, List.append_assoc]
    by_cases hb : b = 0x20
    · rw [hb, masterOctet_space, List.singleton_append]
      by_cases hhead : s.head? = some 0x20
      · rw [Text.squeeze_again ((head_flatMap s rest).mpr hhead), ih, Text.squeeze_again hhead]
      · rw [Text.squeeze_once (mt (head_flatMap s rest).mp hhead), ih, Text.squeeze_once hhead]
        rfl
    · have hnot : ' ' ∉ masterOctet b := fun hmem =>
        absurd (visible_masterOctet hb ' ' hmem).1 (by decide)
      rw [Text.squeeze_append_of_not_mem hnot, ih, Text.squeeze_of_ne hb, List.flatMap_cons,
        List.append_assoc]

theorem squeeze_quotedString (s : Octets) (rest : Chars) :
    squeeze ' ' (quotedString s ++ rest) = quotedString (squeeze 0x20 s) ++ squeeze ' ' rest := by
  rw [quotedString, List.cons_append, Text.squeeze_of_ne (by decide), List.append_assoc,
    List.singleton_append, squeeze_flatMap, quotedString, List.cons_append, List.append_assoc,
    List.singleton_append]

theorem masterForm_head (s : Octets) (strings : List Octets) :
    (masterForm (s :: strings)).head? = some '"' := by
  cases strings with
  | nil => rw [masterForm_singleton]; rfl
  | cons t strings => rw [masterForm_cons]; rfl

theorem squeeze_masterForm (h : strings ≠ []) :
    squeeze ' ' (masterForm strings) = masterForm (strings.map (squeeze 0x20)) := by
  cases strings with
  | nil => exact absurd rfl h
  | cons s strings =>
    induction strings generalizing s with
    | nil =>
      have hsingle := squeeze_quotedString s []
      rw [List.append_nil] at hsingle
      rw [masterForm_singleton, hsingle, List.map_singleton, masterForm_singleton]
      exact List.append_nil _
    | cons t strings ih =>
      have hhead : (masterForm (t :: strings)).head? ≠ some ' ' := by
        rw [masterForm_head]
        decide
      rw [masterForm_cons, squeeze_quotedString, Text.squeeze_once hhead,
        ih t (List.cons_ne_nil _ _)]
      rfl

theorem splitSpace_space (h : isSpace c = true) (s : Chars) :
    splitSpace (c :: s) = splitSpace s := by
  rw [splitSpace, List.splitOnP_cons_eq_if_modifyHead, if_pos h, List.filter_cons_of_neg (by simp),
    splitSpace]

theorem splitSpace_gap {gap : Chars} (h : ∀ c ∈ gap, isSpace c = true) (s : Chars) :
    splitSpace (gap ++ s) = splitSpace s := by
  induction gap with
  | nil => rfl
  | cons c gap ih =>
    obtain ⟨hc, hgap⟩ := List.forall_mem_cons.mp h
    rw [List.cons_append, splitSpace_space hc, ih hgap]

theorem splitSpace_word (hne : word ≠ []) (h : ∀ c ∈ word, isSpace c = false)
    (hc : isSpace c = true) (s : Chars) : splitSpace (word ++ c :: s) = word :: splitSpace s := by
  rw [splitSpace, List.splitOnP_append_cons_of_forall_mem h c hc,
    List.filter_cons_of_pos (by simpa using hne), splitSpace]

theorem splitSpace_last (hne : word ≠ []) (h : ∀ c ∈ word, isSpace c = false) :
    splitSpace word = [word] := by
  rw [splitSpace, List.splitOnP_eq_singleton h, List.filter_cons_of_pos (by simpa using hne),
    List.filter_nil]

theorem splitSpace_visible {d : Char} (hc : isSpace c = false) (hd : isSpace d = false)
    (s : Chars) :
    ∃ word words, splitSpace (d :: s) = word :: words ∧
      splitSpace (c :: d :: s) = (c :: word) :: words := by
  have hspec : ∃ word words, (d :: s).splitOnP isSpace = (d :: word) :: words := by
    rw [List.splitOnP_cons_eq_if_modifyHead, hd]
    obtain ⟨word, words, heq⟩ := List.exists_cons_of_ne_nil (List.splitOnP_ne_nil isSpace s)
    rw [heq]
    exact ⟨word, words, rfl⟩
  obtain ⟨word, words, heq⟩ := hspec
  refine ⟨d :: word, words.filter fun w => w ≠ [], ?_, ?_⟩
  · rw [splitSpace, heq, List.filter_cons_of_pos (by simp)]
  · rw [splitSpace, List.splitOnP_cons_eq_if_modifyHead, hc, heq]
    exact List.filter_cons_of_pos (by simp)

theorem splitSpace_ne_nil (hmem : c ∈ s) (hc : isSpace c = false) : splitSpace s ≠ [] := by
  induction s with
  | nil => cases hmem
  | cons a s ih =>
    cases ha : isSpace a with
    | true =>
      rw [splitSpace_space ha]
      rcases List.mem_cons.mp hmem with rfl | hs
      · rw [ha] at hc
        cases hc
      · exact ih hs
    | false =>
      rw [splitSpace, List.splitOnP_cons_eq_if_modifyHead, ha]
      obtain ⟨word, words, heq⟩ := List.exists_cons_of_ne_nil (List.splitOnP_ne_nil isSpace s)
      rw [heq]
      intro hnil
      have hhead : (a :: word) ∈ ([] : List Chars) := by
        rw [← hnil]
        exact List.mem_filter.mpr ⟨List.mem_cons_self, by simp⟩
      cases hhead

/-- A space, if the text starts with one. -/
def lead (s : Chars) : Chars := if s.head? = some ' ' then [' '] else []

theorem lead_space (s : Chars) : lead (' ' :: s) = [' '] := rfl

theorem lead_of_ne (h : c ≠ ' ') (s : Chars) : lead (c :: s) = [] :=
  if_neg fun heq => h (Option.some.inj heq)

theorem squeeze_eq_join (hplain : ∀ c ∈ s, Plain c)
    (hlast : ∀ c, s.getLast? = some c → isSpace c = false) :
    squeeze ' ' s = lead s ++ List.intercalate [' '] (splitSpace s) := by
  induction s with
  | nil => rfl
  | cons c s ih =>
    obtain ⟨hc, hs⟩ := List.forall_mem_cons.mp hplain
    cases s with
    | nil =>
      have hspace := hlast c rfl
      have hne : c ≠ ' ' := by
        rintro rfl
        cases hspace
      rw [splitSpace_last (List.cons_ne_nil _ _) (List.forall_mem_singleton.mpr hspace),
        lead_of_ne hne, List.intercalate_singleton, Text.squeeze_of_ne hne]
      rfl
    | cons d s =>
      have ih := ih hs fun a ha => hlast a (by rw [List.getLast?_cons_cons]; exact ha)
      obtain ⟨a, ha⟩ : ∃ a, (d :: s).getLast? = some a :=
        ⟨_, List.getLast?_eq_some_getLast (List.cons_ne_nil _ _)⟩
      have hsolid := hlast a (by rw [List.getLast?_cons_cons]; exact ha)
      have hwords := splitSpace_ne_nil (List.mem_of_getLast? ha) hsolid
      rcases hc with rfl | hc
      · -- a space adds no word
        rw [splitSpace_space (by rfl), lead_space]
        by_cases hd : d = ' '
        · have hhead : (d :: s).head? = some ' ' := congrArg some hd
          rw [Text.squeeze_again hhead, ih, hd, lead_space]
        · have hhead : (d :: s).head? ≠ some ' ' := fun heq => hd (Option.some.inj heq)
          rw [Text.squeeze_once hhead, ih, lead_of_ne hd]
          rfl
      · have hne : c ≠ ' ' := by
          rintro rfl
          exact absurd hc.1 (by decide)
        rw [Text.squeeze_of_ne hne, ih, lead_of_ne hne, List.nil_append]
        rcases (List.forall_mem_cons.mp hs).1 with rfl | hd
        · -- the word ends here
          have hword := splitSpace_word (List.cons_ne_nil c [])
            (List.forall_mem_singleton.mpr hc.not_isSpace) (c := ' ') rfl s
          rw [List.singleton_append] at hword
          rw [splitSpace_space (by rfl)] at hwords ⊢
          obtain ⟨word, words, heq⟩ := List.exists_cons_of_ne_nil hwords
          rw [lead_space, hword, heq, List.intercalate_cons_cons]
          rfl
        · have hdne : d ≠ ' ' := by
            rintro rfl
            exact absurd hd.1 (by decide)
          obtain ⟨word, words, htail, hall⟩ :=
            splitSpace_visible hc.not_isSpace hd.not_isSpace s
          rw [lead_of_ne hdne, htail, hall, List.nil_append]
          cases words with
          | nil => rw [List.intercalate_singleton, List.intercalate_singleton]
          | cons word' words => rw [List.intercalate_cons_cons, List.intercalate_cons_cons]; rfl

/-- What `dig` prints between white space. -/
structure Word where
  text : Chars
  nonempty : text ≠ []
  solid : ∀ c ∈ text, isSpace c = false

structure Gap where
  text : Chars
  nonempty : text ≠ []
  blank : ∀ c ∈ text, c = ' ' ∨ c = '\t'

def inWord : Word := ⟨"IN".toList, by decide, by simp [isSpace]⟩

def txtWord : Word := ⟨"TXT".toList, by decide, by simp [isSpace]⟩

structure TxtAnswer where
  owner : Word
  ttl : Word
  gaps : Fin 4 → Gap
  record : TxtRecord
  answer : owner.text.head? ≠ some ';'

def TxtAnswer.line (a : TxtAnswer) : Chars :=
  a.owner.text ++ ((a.gaps 0).text ++ (a.ttl.text ++ ((a.gaps 1).text ++ (inWord.text ++
    ((a.gaps 2).text ++ (txtWord.text ++ ((a.gaps 3).text ++ masterForm a.record.strings)))))))

theorem Gap.space (g : Gap) : ∀ c ∈ g.text, isSpace c = true := by
  intro c hc
  rcases g.blank c hc with rfl | rfl <;> rfl

theorem splitSpace_column (w : Word) (g : Gap) (rest : Chars) :
    splitSpace (w.text ++ (g.text ++ rest)) = w.text :: splitSpace rest := by
  obtain ⟨c, cs, heq⟩ := List.exists_cons_of_ne_nil g.nonempty
  have hspace := g.space
  rw [heq] at hspace
  obtain ⟨hc, hcs⟩ := List.forall_mem_cons.mp hspace
  rw [heq, List.cons_append, splitSpace_word w.nonempty w.solid hc, splitSpace_gap hcs]

theorem masterForm_last (h : strings ≠ []) : (masterForm strings).getLast? = some '"' := by
  cases strings with
  | nil => exact absurd rfl h
  | cons s strings =>
    induction strings generalizing s with
    | nil =>
      rw [masterForm_singleton, quotedString, ← List.cons_append]
      exact List.getLast?_concat
    | cons t strings ih =>
      rw [masterForm_cons, List.getLast?_append, List.getLast?_cons, ih t (List.cons_ne_nil _ _)]
      rfl

theorem join_masterForm (h : strings ≠ []) :
    List.intercalate [' '] (splitSpace (masterForm strings)) =
      masterForm (strings.map (squeeze 0x20)) := by
  have hlast : ∀ c, (masterForm strings).getLast? = some c → isSpace c = false := by
    intro c hc
    rw [masterForm_last h] at hc
    cases hc
    rfl
  have hjoin := squeeze_eq_join (plain_masterForm strings) hlast
  cases strings with
  | nil => exact absurd rfl h
  | cons s strings =>
    have hlead : lead (masterForm (s :: strings)) = [] := by
      rw [lead, masterForm_head]
      rfl
    rw [hlead, List.nil_append] at hjoin
    rw [← hjoin, squeeze_masterForm h]

variable (a : TxtAnswer)

theorem TxtAnswer.splitSpace_line :
    splitSpace a.line = a.owner.text :: a.ttl.text :: "IN".toList :: "TXT".toList ::
      splitSpace (masterForm a.record.strings) := by
  rw [TxtAnswer.line, splitSpace_column, splitSpace_column, splitSpace_column, splitSpace_column]
  rfl

theorem TxtAnswer.stripChars_line : Text.stripChars a.line = a.line := by
  obtain ⟨c, cs, heq⟩ := List.exists_cons_of_ne_nil a.owner.nonempty
  have hsolid := a.owner.solid
  rw [heq] at hsolid
  have hhead : a.line.head? = some c := by
    rw [TxtAnswer.line, heq]
    rfl
  have hlast : a.line.getLast? = some '"' := by
    simp only [TxtAnswer.line, List.getLast?_append, masterForm_last a.record.nonempty,
      Option.some_or]
  have hstrip : Text.stripChars ([] ++ (a.line ++ [])) = a.line :=
    Text.stripChars_of nofun nofun hhead (hsolid c List.mem_cons_self) hlast rfl
  rw [List.nil_append, List.append_nil] at hstrip
  exact hstrip

theorem TxtAnswer.no_break : ∀ c ∈ a.line, isBreak c = false := by
  have hword : ∀ w : Word, ∀ c ∈ w.text, isBreak c = false := by
    intro w c hc
    cases hbreak : isBreak c with
    | false => rfl
    | true =>
      have hspace := Text.isSpace_of_isBreak hbreak
      rw [w.solid c hc] at hspace
      cases hspace
  have hgap : ∀ g : Gap, ∀ c ∈ g.text, isBreak c = false := by
    intro g c hc
    rcases g.blank c hc with rfl | rfl <;> rfl
  have hform : ∀ c ∈ masterForm a.record.strings, isBreak c = false := by
    intro c hc
    rcases plain_masterForm _ c hc with rfl | hvisible
    · rfl
    · cases hbreak : isBreak c with
      | false => rfl
      | true =>
        have hspace := Text.isSpace_of_isBreak hbreak
        rw [hvisible.not_isSpace] at hspace
        cases hspace
  simp only [TxtAnswer.line, List.forall_mem_append]
  exact ⟨hword _, hgap _, hword _, hgap _, hword _, hgap _, hword _, hgap _, hform⟩

section Shipped

variable (lower upper : String → String)

/-- The record shipped for an answer, its runs of spaces written once. -/
def TxtAnswer.shipped (a : TxtAnswer) (zone : Chars) : RecordData :=
  ⟨relativeName lower a.owner.text zone, "TXT".toList, intOrNone a.ttl.text, none, none, none,
    masterForm (a.record.strings.map (squeeze 0x20))⟩

variable {upper} (hupper : Text.AsciiUpper upper)
include hupper

theorem onChars_txt : onChars upper "TXT".toList = "TXT".toList := by
  rw [onChars, hupper "TXT".toList (by simp), String.toList_ofList]
  rfl

theorem readLine_line (a : TxtAnswer) (zone : Chars) :
    readLine lower upper zone a.line = some (a.shipped lower zone) := by
  obtain ⟨c, cs, howner⟩ := List.exists_cons_of_ne_nil a.owner.nonempty
  have hline : ¬ (a.line = [] ∨ a.line.head? = some ';') := by
    have hanswer := a.answer
    rw [howner] at hanswer
    rw [TxtAnswer.line, howner]
    exact fun h => h.elim (List.cons_ne_nil _ _) hanswer
  have hjoin := join_masterForm a.record.nonempty
  have hne : splitSpace (masterForm a.record.strings) ≠ [] :=
    splitSpace_ne_nil (List.mem_of_getLast? (masterForm_last a.record.nonempty)) rfl
  obtain ⟨r0, rdata, hrdata⟩ := List.exists_cons_of_ne_nil hne
  rw [hrdata] at hjoin
  rw [readLine, a.stripChars_line]
  dsimp only
  rw [if_neg hline, a.splitSpace_line, hrdata]
  dsimp only
  rw [onChars_txt hupper, if_neg (by decide), if_neg (by decide), if_neg (by simp),
    readRdata_whole (by decide) (by decide), hjoin]
  rfl

theorem parseAxfr_answers (answers : List TxtAnswer) (zone : Chars) :
    parseAxfr lower upper ((answers.map TxtAnswer.line).flatMap fun line => line ++ ['\n']) zone =
      answers.map fun a => a.shipped lower zone := by
  rw [parseAxfr, Text.splitLines_flatMap, List.filterMap_map]
  · rw [← List.filterMap_eq_map]
    exact List.filterMap_congr fun a _ => readLine_line lower hupper a zone
  · intro line hline
    obtain ⟨a, _, rfl⟩ := List.mem_map.mp hline
    exact a.no_break

end Shipped

theorem keeps_squeezed {r : TxtRecord} :
    Keeps r (masterForm (r.strings.map (squeeze 0x20))) ↔ ∀ s ∈ r.strings, ¬ Doubled 0x20 s := by
  have hne : r.strings.map (squeeze 0x20) ≠ [] := by
    rw [ne_eq, List.map_eq_nil_iff]
    exact r.nonempty
  have hshort : ∀ s ∈ r.strings.map (squeeze 0x20), s.length ≤ 255 := by
    intro s hs
    obtain ⟨t, ht, rfl⟩ := List.mem_map.mp hs
    exact Nat.le_trans (Text.squeeze_length_le 0x20 t) (r.short t ht)
  rw [Keeps, txtStrings_masterForm hne hshort]
  exact Text.flatten_squeeze_eq_iff

end SpatiumDdi.Dns.LiveTxt
