import Mathlib.Data.List.Forall2
import Mathlib.Data.List.TakeWhile
import SpatiumDdi.Lib.FixedDigits
import SpatiumDdi.Lib.Ipaddress
import SpatiumDdi.Lib.Text

/-!
Addresses as texts, as Python's `ipaddress` reads and writes them: the parsers of both
versions and the reverse pointer. A text is its characters. The scope of an IPv6
address is read and dropped.
-/

namespace SpatiumDdi.Ipaddress

abbrev Chars := List Char

def octetText (n : Nat) : Chars := Nat.toDigits 10 n

def nibbleText (n : Nat) : Chars := [Nat.digitChar n]

def decimalValue (c : Char) : Option Nat :=
  if c.isDigit then some (c.toNat - '0'.toNat) else none

def hexValue (c : Char) : Option Nat :=
  if c.isDigit then some (c.toNat - '0'.toNat)
  else if 'a' ≤ c ∧ c ≤ 'f' then some (c.toNat - 'a'.toNat + 10)
  else if 'A' ≤ c ∧ c ≤ 'F' then some (c.toNat - 'A'.toNat + 10)
  else none

def parseOctet (octet : Chars) : Option Nat := do
  if octet = [] ∨ 3 < octet.length ∨ (octet ≠ ['0'] ∧ octet.head? = some '0') then
    none
  else
    let digits ← octet.mapM decimalValue
    let n := ofBigEndian 10 digits
    if n ≤ 255 then some n else none

def parseIPv4 (s : Chars) : Option Nat := do
  let octets := s.splitOn '.'
  if octets.length ≠ 4 then
    none
  else
    let values ← octets.mapM parseOctet
    some (ofBigEndian 256 values)

def parseHextet (hextet : Chars) : Option Nat :=
  if hextet = [] ∨ 4 < hextet.length then
    none
  else
    (hextet.mapM hexValue).map (ofBigEndian 16)

/-- The part after the last colon, an IPv4 suffix being two hextets. -/
def lastParts (last : Chars) : Option (List Chars) :=
  if '.' ∈ last then
    (parseIPv4 last).map fun v4 => [Nat.toDigits 16 (v4 / 65536 % 65536), Nat.toDigits 16 (v4 % 65536)]
  else
    some [last]

/-- The hextets before and after the `::` at an index, or all of them. -/
def hextetGroups (parts : List Chars) : Option (List Chars × List Chars) :=
  let inner := (List.range parts.length).filter fun i =>
    0 < i ∧ i < parts.length - 1 ∧ parts[i]? = some []
  match inner with
  | [] =>
    if parts.length ≠ 8 ∨ parts.head? = some [] ∨ parts.getLast? = some [] then none
    else some (parts, [])
  | [skip] =>
    let high := parts.take skip
    let low := parts.drop (skip + 1)
    if (high.head? = some [] ∧ high ≠ [[]]) ∨ (low.getLast? = some [] ∧ low ≠ [[]]) then none
    else
      let high := if high = [[]] then [] else high
      let low := if low = [[]] then [] else low
      if high.length + low.length < 8 then some (high, low) else none
  | _ => none

def parseIPv6 (s : Chars) : Option Nat := do
  let scope := s.dropWhile (· ≠ '%')
  if '/' ∈ s ∨ scope = ['%'] ∨ '%' ∈ scope.tail then
    none
  else
    let parts := (s.takeWhile (· ≠ '%')).splitOn ':'
    if parts.length < 3 then
      none
    else
      let tail ← lastParts (parts.getLast?.getD [])
      let parts := parts.dropLast ++ tail
      if 9 < parts.length then
        none
      else
        let (high, low) ← hextetGroups parts
        let highValues ← high.mapM parseHextet
        let lowValues ← low.mapM parseHextet
        some (ofBigEndian 65536
          (highValues ++ List.replicate (8 - (high.length + low.length)) 0 ++ lowValues))

def Version.labelBits : Version → Nat
  | .v4 => 8
  | .v6 => 4

def Version.labelCount : Version → Nat
  | .v4 => 4
  | .v6 => 32

def Version.labelText : Version → Nat → Chars
  | .v4 => octetText
  | .v6 => nibbleText

/-- The labels that end a reverse pointer. -/
def Version.suffix : Version → List Chars
  | .v4 => ["in-addr".toList, "arpa".toList]
  | .v6 => ["ip6".toList, "arpa".toList]

def Address.pointerLabels (a : Address) : List Chars :=
  (fixedDigits (2 ^ a.version.labelBits) a.version.labelCount a.value).map a.version.labelText ++
    a.version.suffix

def Address.reversePointer (a : Address) : Chars := List.intercalate ['.'] a.pointerLabels

variable {n : Nat}

theorem parseOctet_octetText (h : n < 256) : parseOctet (octetText n) = some n := by
  have hall : ∀ n : Fin 256, parseOctet (octetText n) = some n.val := by decide +kernel
  exact hall ⟨n, h⟩

variable {c : Char}

theorem isDigit_of_mem_octetText (h : c ∈ octetText n) : c.isDigit = true :=
  Nat.isDigit_of_mem_toDigits (by decide) (by decide) h

theorem length_octetText (h : n < 256) : (octetText n).length ≤ 3 := by
  rw [octetText, Nat.length_toDigits_le_iff (by decide) (by decide)]
  omega

theorem dot_not_mem_octetText (n : Nat) : '.' ∉ octetText n := by
  intro hdot
  cases isDigit_of_mem_octetText hdot

theorem hexValue_digitChar (h : n < 16) : hexValue (Nat.digitChar n) = some n := by
  have hall : ∀ n : Fin 16, hexValue (Nat.digitChar n) = some n.val := by decide +kernel
  exact hall ⟨n, h⟩

theorem digitChar_ne (h : n < 16) (hc : hexValue c = none) : Nat.digitChar n ≠ c := by
  rintro rfl
  rw [hexValue_digitChar h] at hc
  cases hc

theorem mapM_some {α β γ : Type} {f : β → Option γ} {g : α → β} {v : α → γ} {l : List α}
    (h : ∀ a ∈ l, f (g a) = some (v a)) : (l.map g).mapM f = some (l.map v) := by
  induction l with
  | nil => rfl
  | cons a l ih =>
    rw [List.map_cons, List.mapM_cons, h a List.mem_cons_self,
      ih fun b hb => h b (List.mem_cons_of_mem a hb)]
    rfl

theorem parseIPv4_octets {octets : List Nat} (hlen : octets.length = 4)
    (hlt : ∀ n ∈ octets, n < 256) :
    parseIPv4 (List.intercalate ['.'] (octets.map octetText)) = some (ofBigEndian 256 octets) := by
  have hne : octets.map octetText ≠ [] := by
    intro hnil
    rw [List.map_eq_nil_iff.mp hnil] at hlen
    cases hlen
  have hsplit : (List.intercalate ['.'] (octets.map octetText)).splitOn '.' =
      octets.map octetText := by
    refine List.splitOn_intercalate '.' ?_ hne
    intro text htext
    obtain ⟨n, hn, rfl⟩ := List.mem_map.mp htext
    exact dot_not_mem_octetText n
  have hvalues : (octets.map octetText).mapM parseOctet = some (octets.map id) :=
    mapM_some fun n hn => parseOctet_octetText (hlt n hn)
  rw [List.map_id] at hvalues
  simp [parseIPv4, hsplit, hlen, hvalues]

theorem parseHextet_nibbles {nibbles : List Nat} (hlen : nibbles.length = 4)
    (hlt : ∀ n ∈ nibbles, n < 16) :
    parseHextet (nibbles.map Nat.digitChar) = some (ofBigEndian 16 nibbles) := by
  have hvalues : (nibbles.map Nat.digitChar).mapM hexValue = some (nibbles.map id) :=
    mapM_some fun n hn => hexValue_digitChar (hlt n hn)
  have hne : nibbles.map Nat.digitChar ≠ [] := by
    intro hnil
    rw [List.map_eq_nil_iff.mp hnil] at hlen
    cases hlen
  have hshort : ¬(nibbles.map Nat.digitChar = [] ∨ 4 < (nibbles.map Nat.digitChar).length) := by
    rw [List.length_map, hlen]
    simpa using hne
  rw [parseHextet, if_neg hshort, hvalues, List.map_id]
  rfl

theorem hextetGroups_full {parts : List Chars} (hlen : parts.length = 8)
    (hne : ∀ part ∈ parts, part ≠ []) : hextetGroups parts = some (parts, []) := by
  have hget : ∀ i : Nat, parts[i]? ≠ some [] := by
    intro i hi
    exact hne [] (List.mem_of_getElem? hi) rfl
  have hinner : (List.range parts.length).filter (fun i =>
      0 < i ∧ i < parts.length - 1 ∧ parts[i]? = some []) = [] := by
    rw [List.filter_eq_nil_iff]
    intro i _ hi
    exact hget i (of_decide_eq_true hi).2.2
  have hhead : parts.head? ≠ some [] := fun h => hne [] (List.mem_of_head? h) rfl
  have hlast : parts.getLast? ≠ some [] := fun h => hne [] (List.mem_of_getLast? h) rfl
  have hall : ¬(parts.length ≠ 8 ∨ parts.head? = some [] ∨ parts.getLast? = some []) := by
    rintro (h | h | h)
    · exact h hlen
    · exact hhead h
    · exact hlast h
  simp only [hextetGroups, hinner, if_neg hall]

theorem ofBigEndian_flatten (groups : List (List Nat)) (hlen : ∀ g ∈ groups, g.length = 4) :
    ofBigEndian 65536 (groups.map (ofBigEndian 16)) = ofBigEndian 16 groups.flatten := by
  induction groups using List.reverseRecOn with
  | nil => rfl
  | append_singleton groups g ih =>
    have hg := hlen g (by simp)
    rw [List.map_append, ofBigEndian_append, ih fun g' hg' => hlen g' (by simp [hg']),
      List.flatten_append, ofBigEndian_append]
    simp [hg, ofBigEndian]

/-- Groups of four nibbles, written with colons. -/
def hextets (groups : List (List Nat)) : Chars :=
  List.intercalate [':'] (groups.map fun g => g.map Nat.digitChar)

section

variable {groups : List (List Nat)} (hlt : ∀ g ∈ groups, ∀ n ∈ g, n < 16)

include hlt

theorem not_mem_group {g : List Nat} (hg : g ∈ groups) (hc : hexValue c = none) :
    c ∉ g.map Nat.digitChar := by
  intro hmem
  obtain ⟨n, hn, hnc⟩ := List.mem_map.mp hmem
  exact digitChar_ne (hlt g hg n hn) hc hnc

theorem not_mem_hextets (hc : hexValue c = none) (hcolon : c ≠ ':') : c ∉ hextets groups := by
  intro hmem
  rcases Text.mem_intercalate hmem with hsep | ⟨part, hpart, hin⟩
  · exact hcolon hsep
  · obtain ⟨g, hg, rfl⟩ := List.mem_map.mp hpart
    exact not_mem_group hlt hg hc hin

theorem parseIPv6_hextets (hcount : groups.length = 8) (hlen : ∀ g ∈ groups, g.length = 4) :
    parseIPv6 (hextets groups) = some (ofBigEndian 16 groups.flatten) := by
  have hpercent : '%' ∉ hextets groups := not_mem_hextets hlt rfl (by decide)
  have hslash : '/' ∉ hextets groups := not_mem_hextets hlt rfl (by decide)
  have hdrop : (hextets groups).dropWhile (· ≠ '%') = [] := by
    rw [List.dropWhile_eq_nil_iff]
    intro c hc
    exact decide_eq_true fun h => hpercent (h ▸ hc)
  have htake : (hextets groups).takeWhile (· ≠ '%') = hextets groups := by
    rw [List.takeWhile_eq_self_iff]
    intro c hc
    exact decide_eq_true fun h => hpercent (h ▸ hc)
  have hparts : groups.map (fun g => g.map Nat.digitChar) ≠ [] := by
    intro hnil
    rw [List.map_eq_nil_iff.mp hnil] at hcount
    cases hcount
  have hsplit : (hextets groups).splitOn ':' = groups.map fun g => g.map Nat.digitChar := by
    refine List.splitOn_intercalate ':' ?_ hparts
    intro part hpart
    obtain ⟨g, hg, rfl⟩ := List.mem_map.mp hpart
    exact not_mem_group hlt hg rfl
  obtain ⟨init, last, hconcat⟩ := (List.eq_nil_or_concat' groups).resolve_left fun hnil => by
    rw [hnil] at hcount
    cases hcount
  have hdot : '.' ∉ last.map Nat.digitChar := not_mem_group hlt (by simp [hconcat]) rfl
  have htail : lastParts ((groups.map fun g => g.map Nat.digitChar).getLast?.getD []) =
      some [last.map Nat.digitChar] := by
    rw [hconcat, List.map_append, List.map_singleton, List.getLast?_concat, Option.getD_some,
      lastParts, if_neg hdot]
  have hwhole : (groups.map fun g => g.map Nat.digitChar).dropLast ++ [last.map Nat.digitChar] =
      groups.map fun g => g.map Nat.digitChar := by
    rw [hconcat, List.map_append, List.map_singleton, List.dropLast_concat]
  have hfull : hextetGroups (groups.map fun g => g.map Nat.digitChar) =
      some (groups.map fun g => g.map Nat.digitChar, []) := by
    refine hextetGroups_full (by simp [hcount]) ?_
    intro part hpart hnil
    obtain ⟨g, hg, rfl⟩ := List.mem_map.mp hpart
    have hglen := hlen g hg
    rw [List.map_eq_nil_iff.mp hnil] at hglen
    cases hglen
  have hvalues : (groups.map fun g => g.map Nat.digitChar).mapM parseHextet =
      some (groups.map (ofBigEndian 16)) :=
    mapM_some fun g hg => parseHextet_nibbles (hlen g hg) (hlt g hg)
  have hlength : (groups.map fun g => g.map Nat.digitChar).length = 8 := by
    rw [List.length_map, hcount]
  simp only [parseIPv6, hdrop, htake, hsplit]
  generalize groups.map (fun g => g.map Nat.digitChar) = parts at *
  simp [hslash, htail, hwhole, hfull, hvalues, hlength, ofBigEndian_flatten groups hlen]

end

theorem decimalValue_spec {c : Char} {n : ℕ} (h : decimalValue c = some n) :
    c.toNat = n + 48 ∧ n < 10 := by
  obtain ⟨hdigit, h⟩ := Option.ite_none_right_eq_some.mp h
  rw [Char.isDigit, Bool.and_eq_true, decide_eq_true_iff, decide_eq_true_iff] at hdigit
  have hlow : '0'.toNat ≤ c.toNat := hdigit.1
  have hhigh : c.toNat ≤ '9'.toNat := hdigit.2
  have hval := Option.some.inj h
  have hnine : '9'.toNat = 57 := rfl
  have hzero : '0'.toNat = 48 := rfl
  omega

variable {α β : Type} {f : α → Option β} {m : List β} {octet : Chars}

theorem forall₂_of_mapM {l : List α} (h : l.mapM f = some m) :
    List.Forall₂ (fun a b => f a = some b) l m := by
  induction l generalizing m with
  | nil =>
    rw [List.mapM_nil] at h
    cases Option.some.inj h
    exact .nil
  | cons a l ih =>
    rw [List.mapM_cons] at h
    obtain ⟨b, hb, h⟩ := Option.bind_eq_some_iff.mp h
    obtain ⟨m', hm', h⟩ := Option.bind_eq_some_iff.mp h
    cases Option.some.inj h
    exact .cons hb (ih hm')

theorem mapM_inj (hf : ∀ a a' b, f a = some b → f a' = some b → a = a') {l l' : List α}
    (h : l.mapM f = some m) (h' : l'.mapM f = some m) : l = l' := by
  have hl := forall₂_of_mapM h
  have hl' := forall₂_of_mapM h'
  clear h h'
  induction hl generalizing l' with
  | nil =>
    cases hl'
    rfl
  | cons hb _ ih =>
    cases hl' with
    | cons hb' hm' => rw [hf _ _ _ hb hb', ih hm']

theorem mapM_length {l : List α} (h : l.mapM f = some m) : m.length = l.length :=
  (forall₂_of_mapM h).length_eq.symm

theorem forall_of_mapM {P : β → Prop} (hf : ∀ a b, f a = some b → P b) {l : List α}
    (h : l.mapM f = some m) : ∀ b ∈ m, P b := by
  have hall := forall₂_of_mapM h
  clear h
  induction hall with
  | nil => exact nofun
  | cons hb _ ih => exact List.forall_mem_cons.mpr ⟨hf _ _ hb, ih⟩

theorem decimalValue_inj (c d : Char) (n : ℕ) (hc : decimalValue c = some n)
    (hd : decimalValue d = some n) : c = d :=
  Char.toNat_inj.mp ((decimalValue_spec hc).1.trans (decimalValue_spec hd).1.symm)

theorem parseOctet_eq {n : ℕ} (h : parseOctet octet = some n) :
    (∃ digits, octet.mapM decimalValue = some digits ∧ ofBigEndian 10 digits = n) ∧
      octet ≠ [] ∧ (octet = ['0'] ∨ octet.head? ≠ some '0') ∧ n < 256 := by
  obtain ⟨hshape, h⟩ := Option.ite_none_left_eq_some.mp h
  rw [not_or, not_or, not_and_or, not_not] at hshape
  obtain ⟨digits, hdigits, h⟩ := Option.bind_eq_some_iff.mp h
  obtain ⟨hle, h⟩ := Option.ite_none_right_eq_some.mp h
  have hn := Option.some.inj h
  exact ⟨⟨digits, hdigits, hn⟩, hshape.1, hshape.2.2, by omega⟩

theorem digits_of_head {digits : List ℕ} (hdigits : octet.mapM decimalValue = some digits)
    (hhead : octet.head? ≠ some '0') : Nat.digits 10 (ofBigEndian 10 digits) = digits.reverse := by
  have hlt : ∀ d ∈ digits, d < 10 :=
    forall_of_mapM (fun c d hc => (decimalValue_spec hc).2) hdigits
  rw [← List.reverse_reverse digits, ofBigEndian_reverse, List.reverse_reverse]
  refine Nat.digits_ofDigits 10 (by decide) digits.reverse
    (fun d hd => hlt d (List.mem_reverse.mp hd)) fun hne => ?_
  rw [List.getLast_reverse]
  cases octet with
  | nil =>
    rw [List.mapM_nil] at hdigits
    exact absurd (List.reverse_eq_nil_iff.mpr (Option.some.inj hdigits).symm) hne
  | cons c cs =>
    rw [List.mapM_cons] at hdigits
    obtain ⟨d, hd, hdigits⟩ := Option.bind_eq_some_iff.mp hdigits
    obtain ⟨rest, _, hdigits⟩ := Option.bind_eq_some_iff.mp hdigits
    obtain rfl := Option.some.inj hdigits
    rintro hzero
    rw [List.head_cons] at hzero
    rw [hzero] at hd
    exact hhead (congrArg some (decimalValue_inj c '0' 0 hd rfl))

theorem parseOctet_inj (s t : Chars) (n : ℕ) (hs : parseOctet s = some n)
    (ht : parseOctet t = some n) : s = t := by
  obtain ⟨⟨ds, hds, hsn⟩, hsne, hsz, _⟩ := parseOctet_eq hs
  obtain ⟨⟨dt, hdt, htn⟩, htne, htz, _⟩ := parseOctet_eq ht
  have hzero : ∀ {u : Chars} {du : List ℕ}, u.mapM decimalValue = some du → u ≠ [] →
      ofBigEndian 10 du = 0 → u.head? = some '0' := by
    intro u du hdu hne hval
    by_contra hhead
    have hdigits := digits_of_head hdu hhead
    rw [hval, Nat.digits_zero] at hdigits
    have hlength := mapM_length hdu
    rw [List.reverse_eq_nil_iff.mp hdigits.symm] at hlength
    exact hne (List.length_eq_zero_iff.mp hlength.symm)
  have hnone : ∀ {u : Chars} {du : List ℕ}, u = ['0'] → u.mapM decimalValue = some du →
      ofBigEndian 10 du = 0 := by
    rintro u du rfl hdu
    obtain rfl : [0] = du := Option.some.inj hdu
    rfl
  rcases hsz with hs0 | hshead
  · rcases htz with ht0 | hthead
    · rw [hs0, ht0]
    · exact absurd (hzero hdt htne (htn.trans (hsn.symm.trans (hnone hs0 hds)))) hthead
  · rcases htz with ht0 | hthead
    · exact absurd (hzero hds hsne (hsn.trans (htn.symm.trans (hnone ht0 hdt)))) hshead
    · have hsd := digits_of_head hds hshead
      have htd := digits_of_head hdt hthead
      rw [hsn] at hsd
      rw [htn, hsd] at htd
      rw [List.reverse_inj.mp htd] at hds
      exact mapM_inj decimalValue_inj hds hdt

theorem parseIPv4_inj {s t : Chars} {n : ℕ} (hs : parseIPv4 s = some n)
    (ht : parseIPv4 t = some n) : s = t := by
  have hoctets : ∀ {u : Chars}, parseIPv4 u = some n → ∃ values,
      (u.splitOn '.').mapM parseOctet = some values ∧ values.length = 4 ∧
        ofBigEndian 256 values = n := by
    intro u hu
    unfold parseIPv4 at hu
    obtain ⟨hlength, hu⟩ := Option.ite_none_left_eq_some.mp hu
    obtain ⟨values, hvalues, hu⟩ := Option.bind_eq_some_iff.mp hu
    exact ⟨values, hvalues, (mapM_length hvalues).trans (not_not.mp hlength),
      Option.some.inj hu⟩
  obtain ⟨vs, hvs, hslength, hsn⟩ := hoctets hs
  obtain ⟨vt, hvt, htlength, htn⟩ := hoctets ht
  have hlt : ∀ {l : List Chars} {vals : List ℕ}, l.mapM parseOctet = some vals →
      ∀ v ∈ vals.reverse, v < 256 := fun hm v hv =>
    forall_of_mapM (fun octet v hv => (parseOctet_eq hv).2.2.2) hm v (List.mem_reverse.mp hv)
  have hvalues : vs.reverse = vt.reverse := by
    refine Nat.ofDigits_inj_of_len_eq (b := 256) (by decide) ?_ (hlt hvs) (hlt hvt) ?_
    · rw [List.length_reverse, List.length_reverse, hslength, htlength]
    · rw [← ofBigEndian_reverse, ← ofBigEndian_reverse, List.reverse_reverse, List.reverse_reverse,
        hsn, htn]
  rw [List.reverse_inj.mp hvalues] at hvs
  have hsplit := mapM_inj parseOctet_inj hvs hvt
  have hwhole : ∀ u : Chars, List.intercalate ['.'] (u.splitOn '.') = u := fun _ =>
    List.intercalate_splitOn '.'
  rw [← hwhole s, hsplit, hwhole]

end SpatiumDdi.Ipaddress
