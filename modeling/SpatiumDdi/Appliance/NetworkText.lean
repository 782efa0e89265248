import SpatiumDdi.SupportBundle.Scrubber

/-!
`ipaddress.ip_network(s, strict=False)` with the text it prints. The network of an IPv6 address
keeps the zone of the address where no bit of it is masked away.
-/

namespace SpatiumDdi.Appliance

open Ipaddress (Version parseIPv4 parseIPv6 parseHextet decimalValue hexValue hextetGroups
  lastParts)
open SupportBundle.Scrub (ipv4Text ipv6Text zoneOf hextetsOf compressHextets)

abbrev Chars := List Char

def splitOptionalNetmask (s : Chars) : Option (Chars × Option Chars) :=
  match s.splitOn '/' with
  | [addr] => some (addr, none)
  | [addr, mask] => some (addr, some mask)
  | _ => none

def prefixFromString (maxPrefixlen : ℕ) (s : Chars) : Option ℕ :=
  if s = [] ∨ Text.maxStrDigits < s.length then none
  else ((s.mapM decimalValue).map (ofBigEndian 10)).filter fun p => p ≤ maxPrefixlen

def prefixFromIpInt (n : ℕ) : Option ℕ := (List.range 33).find? fun p => n = 2 ^ 32 - 2 ^ (32 - p)

/-- `_prefix_from_ip_string`: a netmask, or else a host mask. -/
def prefixFromIpString (s : Chars) : Option ℕ :=
  (parseIPv4 s).bind fun n => (prefixFromIpInt n).or (prefixFromIpInt (2 ^ 32 - 1 - n))

def makeNetmask (version : Version) : Option Chars → Option ℕ
  | none => some version.maxPrefixlen
  | some mask =>
    match version with
    | .v4 => (prefixFromString 32 mask).or (prefixFromIpString mask)
    | .v6 => prefixFromString 128 mask

/-- The network address of an address under a prefix. -/
def masked (version : Version) (n p : ℕ) : ℕ :=
  n / 2 ^ (version.maxPrefixlen - p) * 2 ^ (version.maxPrefixlen - p)

def ipv4Network (s : Chars) : Option Chars := do
  let (addr, mask) ← splitOptionalNetmask s
  let n ← parseIPv4 addr
  let p ← makeNetmask .v4 mask
  some (ipv4Text (masked .v4 n p) ++ '/' :: Nat.toDigits 10 p)

def ipv6Network (s : Chars) : Option Chars := do
  let (addr, mask) ← splitOptionalNetmask s
  let n ← parseIPv6 addr
  let p ← makeNetmask .v6 mask
  let net := masked .v6 n p
  some (ipv6Text net ++ (if net = n then zoneOf addr else []) ++ '/' :: Nat.toDigits 10 p)

def ipNetwork (s : String) : Option (String × Version) :=
  match ipv4Network s.toList with
  | some text => some (String.ofList text, .v4)
  | none => (ipv6Network s.toList).map fun text => (String.ofList text, .v6)

/-- An IPv6 address with a zone and no bit below its prefix. -/
def keepsZone (s : String) : Bool :=
  match splitOptionalNetmask s.toList with
  | none => false
  | some (addr, mask) =>
    match parseIPv6 addr, makeNetmask .v6 mask with
    | some n, some p => decide ('%' ∈ addr) && decide (n % 2 ^ (128 - p) = 0)
    | _, _ => false

/-- What a network without a zone is written with. -/
def isPlain (c : Char) : Bool :=
  c.isDigit || ('a' ≤ c && c ≤ 'f') || ('A' ≤ c && c ≤ 'F') || c = '.' || c = ':' || c = '/'

variable {c : Char}

theorem isPlain_of_isDigit (h : c.isDigit = true) : isPlain c = true := by
  simp [isPlain, h]

variable {n : ℕ} {part text : Chars}

theorem isPlain_digitChar (h : n < 16) : isPlain (Nat.digitChar n) = true := by
  have hall : ∀ n : Fin 16, isPlain (Nat.digitChar n.val) = true := by decide
  exact hall ⟨n, h⟩

theorem isPlain_toDigits (h : c ∈ Nat.toDigits 16 n) : isPlain c = true := by
  induction n using Nat.strongRecOn with
  | ind n ih =>
    rw [Nat.toDigits_eq_if (by decide)] at h
    split at h
    next hlt =>
      rw [List.mem_singleton.1 h]
      exact isPlain_digitChar hlt
    next hge =>
      rcases List.mem_append.1 h with h | h
      · exact ih (n / 16) (by omega) h
      · rw [List.mem_singleton.1 h]
        exact isPlain_digitChar (Nat.mod_lt _ (by decide))

theorem isPlain_decimal (h : c ∈ Nat.toDigits 10 n) : isPlain c = true :=
  isPlain_of_isDigit (Nat.isDigit_of_mem_toDigits (by decide) (by decide) h)

theorem isPlain_ipv4Text (h : c ∈ ipv4Text n) : isPlain c = true := by
  rcases Text.mem_intercalate h with rfl | ⟨part, hpart, hc⟩
  · rfl
  · obtain ⟨octet, -, rfl⟩ := List.mem_map.1 hpart
    exact isPlain_decimal hc

theorem mem_compressHextets {hextets : List ℕ} (h : part ∈ compressHextets hextets) :
    part = [] ∨ ∃ n, part = Nat.toDigits 16 n := by
  have htext : part ∈ hextets.map (Nat.toDigits 16) → ∃ n, part = Nat.toDigits 16 n := by
    intro hpart
    obtain ⟨n, -, rfl⟩ := List.mem_map.1 hpart
    exact ⟨n, rfl⟩
  have hempty : ∀ b : Prop, [Decidable b] → part ∈ (if b then [[]] else ([] : List Chars)) →
      part = [] := by
    intro b _ hpart
    split at hpart
    · exact List.mem_singleton.1 hpart
    · cases hpart
  unfold compressHextets at h
  dsimp only at h
  split at h
  · simp only [List.mem_append] at h
    rcases h with (((h | h) | h) | h) | h
    · exact .inl (hempty _ h)
    · exact .inr (htext (List.mem_of_mem_take h))
    · exact .inl (List.mem_singleton.1 h)
    · exact .inr (htext (List.mem_of_mem_drop h))
    · exact .inl (hempty _ h)
  · exact .inr (htext h)

theorem isPlain_ipv6Text (h : c ∈ ipv6Text n) : isPlain c = true := by
  rcases Text.mem_intercalate h with rfl | ⟨part, hpart, hc⟩
  · rfl
  · rcases mem_compressHextets hpart with rfl | ⟨m, rfl⟩
    · cases hc
    · exact isPlain_toDigits hc

variable {s : Chars}

theorem isPlain_ipv4Network (h : ipv4Network s = some text) (hc : c ∈ text) : isPlain c = true := by
  simp only [ipv4Network, Option.bind_eq_bind, Option.bind_eq_some_iff, Option.some.injEq] at h
  obtain ⟨_, -, n, -, p, -, rfl⟩ := h
  rw [List.mem_append, List.mem_cons] at hc
  rcases hc with hc | rfl | hc
  · exact isPlain_ipv4Text hc
  · rfl
  · exact isPlain_decimal hc

theorem masked_eq_iff {p : ℕ} : masked .v6 n p = n ↔ n % 2 ^ (128 - p) = 0 := by
  rw [masked]
  constructor
  · intro h
    exact Nat.mod_eq_zero_of_dvd ⟨n / 2 ^ (128 - p), by rw [Nat.mul_comm]; exact h.symm⟩
  · intro h
    exact Nat.div_mul_cancel (Nat.dvd_of_mod_eq_zero h)

variable {addr : Chars}

theorem zoneOf_of_not_mem (h : '%' ∉ addr) : zoneOf addr = [] := by
  rw [zoneOf, List.dropWhile_eq_nil_iff]
  intro c hc
  exact decide_eq_true fun heq => h (heq ▸ hc)

theorem mem_zoneOf (h : '%' ∈ addr) : '%' ∈ zoneOf addr := by
  induction addr with
  | nil => cases h
  | cons c addr ih =>
    by_cases hc : c = '%'
    · simp [zoneOf, hc]
    · have hmem : '%' ∈ addr := (List.mem_cons.1 h).resolve_left (Ne.symm hc)
      rw [zoneOf, List.dropWhile_cons_of_pos (by simpa using hc)]
      exact ih hmem

theorem ipv6Network_cases (h : ipv6Network s = some text) :
    (keepsZone (String.ofList s) = true ∧ '%' ∈ text) ∨
      keepsZone (String.ofList s) = false ∧ ∀ c ∈ text, isPlain c = true := by
  simp only [ipv6Network, Option.bind_eq_bind, Option.bind_eq_some_iff, Option.some.injEq] at h
  obtain ⟨⟨addr, mask⟩, hsplit, n, hn, p, hp, rfl⟩ := h
  have hkeeps : keepsZone (String.ofList s) =
      (decide ('%' ∈ addr) && decide (n % 2 ^ (128 - p) = 0)) := by
    simp only [keepsZone, String.toList_ofList, hsplit, hn, hp]
  have hplain : ∀ c, c ∈ ipv6Text (masked .v6 n p) ∨ c = '/' ∨ c ∈ Nat.toDigits 10 p →
      isPlain c = true := by
    rintro c (hc | rfl | hc)
    · exact isPlain_ipv6Text hc
    · rfl
    · exact isPlain_decimal hc
  by_cases hzone : '%' ∈ addr
  · by_cases hmask : masked .v6 n p = n
    · refine .inl ⟨?_, ?_⟩
      · simp [hkeeps, hzone, masked_eq_iff.1 hmask]
      · simp [hmask, mem_zoneOf hzone]
    · refine .inr ⟨?_, ?_⟩
      · simp [hkeeps, mt masked_eq_iff.2 hmask]
      · intro c hc
        simp only [if_neg hmask, List.append_nil, List.mem_append, List.mem_cons] at hc
        exact hplain c hc
  · refine .inr ⟨?_, ?_⟩
    · simp [hkeeps, hzone]
    · intro c hc
      simp only [zoneOf_of_not_mem hzone, ite_self, List.append_nil, List.mem_append,
        List.mem_cons] at hc
      exact hplain c hc

private theorem exists_of_mem_mapM {α β : Type} {f : α → Option β} {l : List α} {m : List β}
    (h : l.mapM f = some m) {a : α} (ha : a ∈ l) : ∃ b, f a = some b := by
  induction l generalizing m with
  | nil => cases ha
  | cons x l ih =>
    rw [List.mapM_cons] at h
    obtain ⟨b, hb, h⟩ := Option.bind_eq_some_iff.mp h
    obtain ⟨m', hm', -⟩ := Option.bind_eq_some_iff.mp h
    cases ha with
    | head => exact ⟨b, hb⟩
    | tail _ ha => exact ih hm' ha

theorem isDigit_of_mapM {digits : List ℕ} (h : s.mapM decimalValue = some digits) :
    ∀ c ∈ s, c.isDigit = true := by
  intro c hc
  obtain ⟨d, hd⟩ := exists_of_mem_mapM h hc
  obtain ⟨hdigit, hd⟩ := Option.ite_none_right_eq_some.mp hd
  exact hdigit

theorem isDigit_of_parseOctet {octet : Chars} (h : Ipaddress.parseOctet octet = some n) :
    ∀ c ∈ octet, c.isDigit = true := by
  obtain ⟨⟨digits, hdigits, -⟩, -⟩ := Ipaddress.parseOctet_eq h
  exact isDigit_of_mapM hdigits

theorem mem_of_parseIPv4 (h : parseIPv4 addr = some n) (hc : c ∈ addr) :
    c = '.' ∨ c.isDigit = true := by
  unfold parseIPv4 at h
  obtain ⟨-, h⟩ := Option.ite_none_left_eq_some.mp h
  obtain ⟨values, hvalues, -⟩ := Option.bind_eq_some_iff.mp h
  have hjoin : ['.'].intercalate (addr.splitOn '.') = addr := List.intercalate_splitOn '.'
  rw [← hjoin] at hc
  rcases Text.mem_intercalate hc with hdot | ⟨octet, hoctet, hc⟩
  · exact .inl hdot
  · obtain ⟨v, hv⟩ := exists_of_mem_mapM hvalues hoctet
    exact .inr (isDigit_of_parseOctet hv c hc)

theorem parseIPv6_of_parseIPv4 (h : parseIPv4 addr = some n) : parseIPv6 addr = none := by
  have hcolon : ':' ∉ addr.takeWhile (· ≠ '%') := by
    intro hmem
    rcases mem_of_parseIPv4 h (List.takeWhile_subset _ hmem) with heq | hdigit
    · exact absurd heq (by decide)
    · cases hdigit
  unfold parseIPv6
  dsimp only
  rw [List.splitOn_eq_singleton hcolon]
  split <;> rfl

theorem keepsZone_of_ipv4Network (h : ipv4Network s = some text) :
    keepsZone (String.ofList s) = false := by
  simp only [ipv4Network, Option.bind_eq_bind, Option.bind_eq_some_iff] at h
  obtain ⟨⟨addr, mask⟩, hsplit, n, hn, -⟩ := h
  simp only [keepsZone, String.toList_ofList, hsplit, parseIPv6_of_parseIPv4 hn]

theorem ipNetwork_cases {s text : String} {version : Version}
    (h : ipNetwork s = some (text, version)) :
    (keepsZone s = true ∧ version = .v6 ∧ '%' ∈ text.toList) ∨
      keepsZone s = false ∧ ∀ c ∈ text.toList, isPlain c = true := by
  unfold ipNetwork at h
  cases h4 : ipv4Network s.toList with
  | some text4 =>
    simp only [h4, Option.some.injEq, Prod.mk.injEq] at h
    obtain ⟨rfl, -⟩ := h
    refine .inr ⟨?_, ?_⟩
    · have hkeeps := keepsZone_of_ipv4Network h4
      rwa [String.ofList_toList] at hkeeps
    · intro c hc
      rw [String.toList_ofList] at hc
      exact isPlain_ipv4Network h4 hc
  | none =>
    simp only [h4, Option.map_eq_some_iff, Prod.mk.injEq] at h
    obtain ⟨text6, h6, rfl, rfl⟩ := h
    rw [String.toList_ofList]
    rcases ipv6Network_cases h6 with ⟨hkeeps, hzone⟩ | ⟨hkeeps, hplain⟩
    · rw [String.ofList_toList] at hkeeps
      exact .inl ⟨hkeeps, rfl, hzone⟩
    · rw [String.ofList_toList] at hkeeps
      exact .inr ⟨hkeeps, hplain⟩

theorem ipNetwork_of_keepsZone {s : String} (h : keepsZone s = true) :
    ∃ text, ipNetwork s = some (text, .v6) ∧ '%' ∈ text.toList := by
  have hread : ∃ text version, ipNetwork s = some (text, version) := by
    unfold ipNetwork
    cases h4 : ipv4Network s.toList with
    | some text => exact ⟨_, _, rfl⟩
    | none =>
      unfold keepsZone at h
      cases hsplit : splitOptionalNetmask s.toList with
      | none => simp [hsplit] at h
      | some parts =>
        obtain ⟨addr, mask⟩ := parts
        cases hn : parseIPv6 addr with
        | none => simp [hsplit, hn] at h
        | some n =>
          cases hp : makeNetmask .v6 mask with
          | none => simp [hsplit, hn, hp] at h
          | some p => simp [ipv6Network, hsplit, hn, hp]
  obtain ⟨text, version, hread⟩ := hread
  rcases ipNetwork_cases hread with ⟨-, rfl, hzone⟩ | ⟨hnot, -⟩
  · exact ⟨text, hread, hzone⟩
  · rw [h] at hnot
    cases hnot

theorem isPlain_of_parseIPv4 (h : parseIPv4 addr = some n) (hc : c ∈ addr) : isPlain c = true := by
  rcases mem_of_parseIPv4 h hc with rfl | hdigit
  · rfl
  · exact isPlain_of_isDigit hdigit

theorem isPlain_of_parseHextet {hextet : Chars} (h : parseHextet hextet = some n)
    (hc : c ∈ hextet) : isPlain c = true := by
  obtain ⟨-, h⟩ := Option.ite_none_left_eq_some.mp h
  obtain ⟨values, hvalues, -⟩ := Option.map_eq_some_iff.1 h
  obtain ⟨v, hv⟩ := exists_of_mem_mapM hvalues hc
  unfold hexValue at hv
  split at hv
  next hdigit => exact isPlain_of_isDigit hdigit
  next =>
    split at hv
    next hlow => simp [isPlain, hlow]
    next =>
      split at hv
      next hhigh => simp [isPlain, hhigh]
      next => cases hv

theorem mem_hextetGroups {parts high low : List Chars} (h : hextetGroups parts = some (high, low))
    (hpart : part ∈ parts) : part = [] ∨ part ∈ high ∨ part ∈ low := by
  have hkept : ∀ side : List Chars, part ∈ side →
      part = [] ∨ part ∈ (if side = [[]] then [] else side) := by
    intro side hside
    split
    next hempty =>
      rw [hempty] at hside
      exact .inl (List.mem_singleton.1 hside)
    next => exact .inr hside
  unfold hextetGroups at h
  dsimp only at h
  split at h
  · split at h
    next => cases h
    next =>
      obtain ⟨rfl, rfl⟩ : parts = high ∧ [] = low := by simpa using h
      exact .inr (.inl hpart)
  next skip hinner =>
    obtain ⟨-, h⟩ := Option.ite_none_left_eq_some.mp h
    obtain ⟨-, h⟩ := Option.ite_none_right_eq_some.1 h
    obtain ⟨rfl, rfl⟩ := Prod.mk.inj (Option.some.inj h)
    have hskip : parts[skip]? = some [] := by
      have hmem : skip ∈ (List.range parts.length).filter fun i =>
          0 < i ∧ i < parts.length - 1 ∧ parts[i]? = some [] := by
        rw [hinner]
        exact List.mem_singleton_self skip
      exact (of_decide_eq_true (List.mem_filter.1 hmem).2).2.2
    have hsplit : part ∈ parts.take skip ∨ part = [] ∨ part ∈ parts.drop (skip + 1) := by
      rw [← List.take_append_drop skip parts] at hpart
      rcases List.mem_append.1 hpart with htake | hdrop
      · exact .inl htake
      · obtain ⟨hlt, hget⟩ := List.getElem?_eq_some_iff.1 hskip
        rw [List.drop_eq_getElem_cons hlt, hget] at hdrop
        exact .inr (List.mem_cons.1 hdrop)
    rcases hsplit with hhigh | hnil | hlow
    · rcases hkept _ hhigh with hnil | hkeep
      · exact .inl hnil
      · exact .inr (.inl hkeep)
    · exact .inl hnil
    · rcases hkept _ hlow with hnil | hkeep
      · exact .inl hnil
      · exact .inr (.inr hkeep)
  · cases h

theorem isPlain_of_parseIPv6 (h : parseIPv6 addr = some n) :
    '/' ∉ addr ∧ ∀ c ∈ addr.takeWhile (· ≠ '%'), isPlain c = true := by
  unfold parseIPv6 at h
  dsimp only at h
  obtain ⟨hscope, h⟩ := Option.ite_none_left_eq_some.mp h
  refine ⟨fun hslash => hscope (.inl hslash), ?_⟩
  obtain ⟨-, h⟩ := Option.ite_none_left_eq_some.mp h
  obtain ⟨tail, htail, h⟩ := Option.bind_eq_some_iff.1 h
  obtain ⟨-, h⟩ := Option.ite_none_left_eq_some.mp h
  obtain ⟨⟨high, low⟩, hgroups, h⟩ := Option.bind_eq_some_iff.1 h
  obtain ⟨highValues, hhigh, h⟩ := Option.bind_eq_some_iff.1 h
  obtain ⟨lowValues, hlow, -⟩ := Option.bind_eq_some_iff.1 h
  have hparts : ∀ part ∈ ((addr.takeWhile (· ≠ '%')).splitOn ':').dropLast ++ tail,
      ∀ c ∈ part, isPlain c = true := by
    intro part hpart c hc
    rcases mem_hextetGroups hgroups hpart with rfl | hside | hside
    · cases hc
    · obtain ⟨v, hv⟩ := exists_of_mem_mapM hhigh hside
      exact isPlain_of_parseHextet hv hc
    · obtain ⟨v, hv⟩ := exists_of_mem_mapM hlow hside
      exact isPlain_of_parseHextet hv hc
  have hlast : ∀ c ∈ ((addr.takeWhile (· ≠ '%')).splitOn ':').getLast?.getD [],
      isPlain c = true := by
    intro c hc
    unfold lastParts at htail
    split at htail
    next =>
      obtain ⟨v4, hv4, -⟩ := Option.map_eq_some_iff.1 htail
      exact isPlain_of_parseIPv4 hv4 hc
    next =>
      rw [← Option.some.inj htail] at hparts
      exact hparts _ (List.mem_append_right _ (List.mem_singleton_self _)) c hc
  intro c hc
  have hjoin : [':'].intercalate ((addr.takeWhile (· ≠ '%')).splitOn ':') =
      addr.takeWhile (· ≠ '%') := List.intercalate_splitOn ':'
  rw [← hjoin] at hc
  rcases Text.mem_intercalate hc with rfl | ⟨part, hpart, hc⟩
  · rfl
  · have hne : (addr.takeWhile (· ≠ '%')).splitOn ':' ≠ [] := List.splitOn_ne_nil _ _
    rw [← List.dropLast_append_getLast hne] at hpart
    rcases List.mem_append.1 hpart with hpart | hpart
    · exact hparts part (List.mem_append_left _ hpart) c hc
    · rw [List.mem_singleton.1 hpart] at hc
      refine hlast c ?_
      rw [List.getLast?_eq_some_getLast hne]
      exact hc

end SpatiumDdi.Appliance
