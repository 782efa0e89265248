import Mathlib.Algebra.Group.Nat.Defs
import Mathlib.Data.List.Basic

/-!
UTF-8 over lists: encoding and strict decoding, what the octets of one character are,
and where a text's octets may be cut without cutting a character.
-/

namespace SpatiumDdi.Utf8

abbrev Octets := List UInt8

def encode (s : List Char) : Octets := s.flatMap String.utf8EncodeChar

def decode (data : Octets) : Option (List Char) :=
  data.toByteArray.utf8Decode?.map Array.toList

/-- `b & 0xC0 == 0x80`. -/
def isContinuation (b : UInt8) : Bool := b &&& 0xC0 == 0x80

@[simp] theorem encode_nil : encode [] = [] := rfl

@[simp] theorem encode_cons (c : Char) (s : List Char) :
    encode (c :: s) = String.utf8EncodeChar c ++ encode s :=
  rfl

@[simp] theorem encode_append (s t : List Char) : encode (s ++ t) = encode s ++ encode t :=
  List.flatMap_append

theorem encode_flatten (pieces : List (List Char)) :
    encode pieces.flatten = (pieces.map encode).flatten := by
  induction pieces with
  | nil => rfl
  | cons s pieces ih => rw [List.flatten_cons, encode_append, ih, List.map_cons, List.flatten_cons]

theorem encode_toByteArray (s : List Char) : (encode s).toByteArray = s.utf8Encode := rfl

variable {s : List Char} {c : Char}

theorem encode_of_decode {data : Octets} (h : decode data = some s) : encode s = data := by
  obtain ⟨chars, hchars, rfl⟩ := Option.map_eq_some_iff.mp h
  have hsome : data.toByteArray.utf8Decode?.isSome := by rw [hchars]; rfl
  have hback := ByteArray.utf8Encode_get_utf8Decode? (h := hsome)
  simp only [hchars, Option.get_some] at hback
  rw [← encode_toByteArray] at hback
  exact List.toByteArray_inj.mp hback

def leadSize (b : UInt8) : Nat :=
  if b < 0x80 then 1 else if b < 0xE0 then 2 else if b < 0xF0 then 3 else 4

structure CharOctets (c : Char) (lead : UInt8) (tails : Octets) : Prop where
  octets : String.utf8EncodeChar c = lead :: tails
  size : leadSize lead = tails.length + 1
  continues : ∀ b ∈ tails, isContinuation b = true
  ascii : tails = [] → c.toNat < 0x80 ∧ lead.toNat = c.toNat
  wide : tails ≠ [] → 0x80 ≤ c.toNat ∧ lead &&& 0xC0 = 0xC0

private theorem continuation_octet (n : Nat) :
    isContinuation (UInt8.ofNat (n % 0x40) + 0x80) = true := by
  have hall : ∀ k < 0x40, isContinuation (UInt8.ofNat k + 0x80) = true := by decide
  exact hall _ (Nat.mod_lt _ (by decide))

private theorem lead_of_two (n : Nat) :
    leadSize (UInt8.ofNat (n % 0x20 + 0xC0)) = 2 ∧
      UInt8.ofNat (n % 0x20 + 0xC0) &&& 0xC0 = 0xC0 := by
  have hall : ∀ k < 0x20, leadSize (UInt8.ofNat (k + 0xC0)) = 2 ∧
    UInt8.ofNat (k + 0xC0) &&& 0xC0 = 0xC0 := by decide
  exact hall _ (Nat.mod_lt _ (by decide))

private theorem lead_of_three (n : Nat) :
    leadSize (UInt8.ofNat (n % 0x10 + 0xE0)) = 3 ∧
      UInt8.ofNat (n % 0x10 + 0xE0) &&& 0xC0 = 0xC0 := by
  have hall : ∀ k < 0x10, leadSize (UInt8.ofNat (k + 0xE0)) = 3 ∧
    UInt8.ofNat (k + 0xE0) &&& 0xC0 = 0xC0 := by decide
  exact hall _ (Nat.mod_lt _ (by decide))

private theorem lead_of_four (n : Nat) :
    leadSize (UInt8.ofNat (n % 0x08 + 0xF0)) = 4 ∧
      UInt8.ofNat (n % 0x08 + 0xF0) &&& 0xC0 = 0xC0 := by
  have hall : ∀ k < 0x08, leadSize (UInt8.ofNat (k + 0xF0)) = 4 ∧
    UInt8.ofNat (k + 0xF0) &&& 0xC0 = 0xC0 := by decide
  exact hall _ (Nat.mod_lt _ (by decide))

theorem encodeChar_ascii (h : c.toNat ≤ 0x7F) : String.utf8EncodeChar c = [UInt8.ofNat c.toNat] :=
  if_pos h

theorem exists_charOctets (c : Char) : ∃ lead tails, CharOctets c lead tails := by
  by_cases h₁ : c.toNat ≤ 0x7F
  · have hsize : leadSize (UInt8.ofNat c.toNat) = 1 := by
      have hall : ∀ k < 0x80, leadSize (UInt8.ofNat k) = 1 := by decide
      exact hall _ (by omega)
    have hlead : (UInt8.ofNat c.toNat).toNat = c.toNat :=
      UInt8.toNat_ofNat_of_lt (by change c.toNat < 256; omega)
    exact ⟨_, _, encodeChar_ascii h₁, hsize, by simp, fun _ => ⟨by omega, hlead⟩,
      fun h => absurd rfl h⟩
  · by_cases h₂ : c.toNat ≤ 0x7FF
    · have hoctets : String.utf8EncodeChar c = [UInt8.ofNat (c.toNat / 64 % 0x20 + 0xC0),
          UInt8.ofNat (c.toNat % 0x40 + 0x80)] := (if_neg h₁).trans (if_pos h₂)
      obtain ⟨hsize, hlead⟩ := lead_of_two (c.toNat / 64)
      exact ⟨_, _, hoctets, hsize, by simp [continuation_octet], by simp,
        fun _ => ⟨by omega, hlead⟩⟩
    · by_cases h₃ : c.toNat ≤ 0xFFFF
      · have hoctets : String.utf8EncodeChar c = [UInt8.ofNat (c.toNat / 4096 % 0x10 + 0xE0),
            UInt8.ofNat (c.toNat / 64 % 0x40 + 0x80), UInt8.ofNat (c.toNat % 0x40 + 0x80)] :=
          (if_neg h₁).trans ((if_neg h₂).trans (if_pos h₃))
        obtain ⟨hsize, hlead⟩ := lead_of_three (c.toNat / 4096)
        exact ⟨_, _, hoctets, hsize, by simp [continuation_octet], by simp,
          fun _ => ⟨by omega, hlead⟩⟩
      · have hoctets : String.utf8EncodeChar c = [UInt8.ofNat (c.toNat / 262144 % 0x08 + 0xF0),
            UInt8.ofNat (c.toNat / 4096 % 0x40 + 0x80), UInt8.ofNat (c.toNat / 64 % 0x40 + 0x80),
            UInt8.ofNat (c.toNat % 0x40 + 0x80)] :=
          (if_neg h₁).trans ((if_neg h₂).trans (if_neg h₃))
        obtain ⟨hsize, hlead⟩ := lead_of_four (c.toNat / 262144)
        exact ⟨_, _, hoctets, hsize, by simp [continuation_octet], by simp,
          fun _ => ⟨by omega, hlead⟩⟩

theorem isContinuation_of_lt {b : UInt8} (h : b.toNat < 0x80) : isContinuation b = false := by
  have hall : ∀ k < 0x80, isContinuation (UInt8.ofNat k) = false := by decide
  rw [← UInt8.ofNat_toNat (x := b)]
  exact hall _ h

section CharOctets

variable {c : Char} {lead : UInt8} {tails : Octets}

theorem CharOctets.lead_not_continuation (h : CharOctets c lead tails) :
    isContinuation lead = false := by
  by_cases htails : tails = []
  · obtain ⟨hlt, hlead⟩ := h.ascii htails
    exact isContinuation_of_lt (hlead ▸ hlt)
  · rw [isContinuation, (h.wide htails).2]
    rfl

theorem CharOctets.tails_le_three (h : CharOctets c lead tails) : tails.length ≤ 3 := by
  have hsize := h.size
  unfold leadSize at hsize
  split at hsize
  · omega
  · split at hsize
    · omega
    · split at hsize <;> omega

end CharOctets

theorem eq_nil_of_encode (h : encode s = []) : s = [] := by
  cases s with
  | nil => rfl
  | cons c s =>
    obtain ⟨lead, tails, hc⟩ := exists_charOctets c
    rw [encode_cons, hc.octets] at h
    cases h

theorem encode_eq_announced {lead : UInt8} {rest : Octets} (h : encode s = lead :: rest)
    (hlen : rest.length + 1 = leadSize lead) : ∃ c, s = [c] ∧ CharOctets c lead rest := by
  cases s with
  | nil => cases h
  | cons c s =>
    obtain ⟨lead', tails, hc⟩ := exists_charOctets c
    rw [encode_cons, hc.octets, List.cons_append, List.cons.injEq] at h
    obtain ⟨rfl, rfl⟩ := h
    rw [List.length_append, hc.size] at hlen
    have hnil : encode s = [] := List.length_eq_zero_iff.mp (by omega)
    rw [eq_nil_of_encode hnil, encode_nil, List.append_nil]
    exact ⟨c, rfl, hc⟩

/-- A cut of a text's octets, at the end of a character or inside of one. -/
theorem cut_cases (s : List Char) {k : Nat} (hk : k ≤ (encode s).length) :
    (∃ t u, s = t ++ u ∧ (encode t).length = k) ∨
      ∃ t c lead tails u, s = t ++ c :: u ∧ CharOctets c lead tails ∧
        (encode t).length < k ∧ k ≤ (encode t).length + tails.length := by
  induction s generalizing k with
  | nil => exact .inl ⟨[], [], rfl, (Nat.le_zero.mp hk).symm⟩
  | cons c s ih =>
    obtain ⟨lead, tails, hc⟩ := exists_charOctets c
    rw [encode_cons, hc.octets, List.length_append, List.length_cons] at hk
    rcases Nat.eq_zero_or_pos k with rfl | hpos
    · exact .inl ⟨[], c :: s, rfl, rfl⟩
    · by_cases hin : k ≤ tails.length
      · exact .inr ⟨[], c, lead, tails, s, rfl, hc, hpos, by simpa using hin⟩
      · have hlen : ∀ t, (encode (c :: t)).length = tails.length + 1 + (encode t).length := by
          intro t
          rw [encode_cons, hc.octets, List.length_append, List.length_cons]
        rcases ih (k := k - (tails.length + 1)) (by omega) with
          ⟨t, u, rfl, ht⟩ | ⟨t, d, lead', tails', u, rfl, hd, hlt, hle⟩
        · exact .inl ⟨c :: t, u, rfl, by rw [hlen]; omega⟩
        · exact .inr ⟨c :: t, d, lead', tails', u, rfl, hd, by rw [hlen]; omega,
            by rw [hlen]; omega⟩

theorem not_continuation_after {t u : List Char} (hu : u ≠ []) :
    isContinuation ((encode (t ++ u)).getD (encode t).length 0) = false := by
  cases u with
  | nil => exact absurd rfl hu
  | cons c u =>
    obtain ⟨lead, tails, hc⟩ := exists_charOctets c
    have hget : (encode (t ++ c :: u)).getD (encode t).length 0 = lead := by
      simp [List.getD_eq_getElem?_getD, hc.octets]
    rw [hget]
    exact hc.lead_not_continuation

section Inside

variable {t u : List Char} {c : Char} {lead : UInt8} {tails : Octets}

theorem getD_lead (hc : CharOctets c lead tails) :
    (encode (t ++ c :: u)).getD (encode t).length 0 = lead := by
  simp [List.getD_eq_getElem?_getD, hc.octets]

theorem continuation_inside (hc : CharOctets c lead tails) {k : Nat}
    (hlt : (encode t).length < k) (hle : k ≤ (encode t).length + tails.length) :
    isContinuation ((encode (t ++ c :: u)).getD k 0) = true := by
  obtain ⟨j, rfl⟩ : ∃ j, k = (encode t).length + (j + 1) := ⟨k - (encode t).length - 1, by omega⟩
  have hj : j < tails.length := by omega
  have hget : (encode (t ++ c :: u)).getD ((encode t).length + (j + 1)) 0 = tails[j] := by
    simp [List.getD_eq_getElem?_getD, hc.octets, List.getElem?_append_right,
      List.getElem?_append_left, hj]
  rw [hget]
  exact hc.continues _ (List.getElem_mem hj)

end Inside

/-- The octets of a character read so far: how many are still to come, the value of those read,
and the range the next one has to be in. -/
structure Unfinished where
  left : Nat
  value : Nat
  low : UInt8
  high : UInt8
  continues : 0x80 ≤ low
  high_le : high ≤ 0xBF
  wide : 0x80 ≤ (value * 64 + low.toNat % 64) * 64 ^ (left - 1)

def announced (b : UInt8) : Option Unfinished :=
  if h : 0xC2 ≤ b ∧ b ≤ 0xDF then
    some ⟨1, b.toNat - 0xC0, 0x80, 0xBF, by decide, by decide, by
      have := UInt8.le_iff_toNat_le.mp h.1
      simp only [UInt8.reduceToNat] at this ⊢
      omega⟩
  else if b = 0xE0 then some ⟨2, 0, 0xA0, 0xBF, by decide, by decide, by decide⟩
  else if b = 0xED then some ⟨2, 0xD, 0x80, 0x9F, by decide, by decide, by decide⟩
  else if h : 0xE1 ≤ b ∧ b ≤ 0xEF then
    some ⟨2, b.toNat - 0xE0, 0x80, 0xBF, by decide, by decide, by
      have := UInt8.le_iff_toNat_le.mp h.1
      simp only [UInt8.reduceToNat] at this ⊢
      omega⟩
  else if b = 0xF0 then some ⟨3, 0, 0x90, 0xBF, by decide, by decide, by decide⟩
  else if h : 0xF1 ≤ b ∧ b ≤ 0xF3 then
    some ⟨3, b.toNat - 0xF0, 0x80, 0xBF, by decide, by decide, by
      have := UInt8.le_iff_toNat_le.mp h.1
      simp only [UInt8.reduceToNat] at this ⊢
      omega⟩
  else if b = 0xF4 then some ⟨3, 4, 0x80, 0x8F, by decide, by decide, by decide⟩
  else none

def replacement : Char := Char.ofNat 0xFFFD

/-- An octet between two characters. -/
def feedFirst (b : UInt8) : List Char × Option Unfinished :=
  if b < 0x80 then ([Char.ofNat b.toNat], none)
  else match announced b with
    | some u => ([], some u)
    | none => ([replacement], none)

/-- One of the octets a character still owes. -/
def Unfinished.take (u : Unfinished) (b : UInt8) (h : u.low ≤ b ∧ b ≤ u.high) :
    List Char × Option Unfinished :=
  let value := u.value * 64 + b.toNat % 64
  if hleft : u.left ≤ 1 then ([Char.ofNat value], none)
  else ([], some ⟨u.left - 1, value, 0x80, 0xBF, by decide, by decide, by
    have hlow := UInt8.le_iff_toNat_le.mp h.1
    have hhigh := UInt8.le_iff_toNat_le.mp (UInt8.le_trans h.2 u.high_le)
    have hcont := UInt8.le_iff_toNat_le.mp u.continues
    have hwide := u.wide
    simp only [UInt8.reduceToNat] at hhigh hcont ⊢
    calc 0x80 ≤ (u.value * 64 + u.low.toNat % 64) * 64 ^ (u.left - 1) := hwide
      _ ≤ (u.value * 64 + b.toNat % 64) * 64 ^ (u.left - 1) :=
        Nat.mul_le_mul_right _ (by omega)
      _ = (u.value * 64 + b.toNat % 64) * (64 * 64 ^ (u.left - 1 - 1)) := by
        rw [← Nat.pow_succ']
        congr 2
        omega
      _ = (value * 64 + 128 % 64) * 64 ^ (u.left - 1 - 1) := (Nat.mul_assoc ..).symm⟩)

/-- One octet: the characters it completes, and what is left unfinished after it. -/
def feed : Option Unfinished → UInt8 → List Char × Option Unfinished
  | none, b => feedFirst b
  | some u, b =>
    if h : u.low ≤ b ∧ b ≤ u.high then u.take b h
    else (replacement :: (feedFirst b).1, (feedFirst b).2)

def decodeFrom : Option Unfinished → Octets → List Char
  | none, [] => []
  | some _, [] => [replacement]
  | u, b :: data => (feed u b).1 ++ decodeFrom (feed u b).2 data

/-- `bytes.decode("utf-8", errors="replace")`. -/
def decodeReplace (data : Octets) : List Char := decodeFrom none data

variable {b : UInt8} {u : Option Unfinished}

theorem feedFirst_ascii (h : b < 0x80) : feedFirst b = ([Char.ofNat b.toNat], none) :=
  if_pos h

theorem Unfinished.not_take_ascii (u : Unfinished) (h : b < 0x80) : ¬ (u.low ≤ b ∧ b ≤ u.high) := by
  rintro ⟨hlow, -⟩
  have hcont := u.continues
  have hlt := UInt8.lt_iff_toNat_lt.mp h
  have hle := UInt8.le_iff_toNat_le.mp (UInt8.le_trans hcont hlow)
  omega

theorem decodeFrom_ascii (u : Option Unfinished) (h : b < 0x80) (data : Octets) :
    decodeFrom u (b :: data) = decodeFrom u [] ++ Char.ofNat b.toNat :: decodeReplace data := by
  cases u with
  | none => simp [decodeFrom, feed, feedFirst_ascii h, decodeReplace]
  | some u => simp [decodeFrom, feed, feedFirst_ascii h, u.not_take_ascii h, decodeReplace]

theorem decodeFrom_append_ascii (u : Option Unfinished) (before : Octets) (h : b < 0x80)
    (after : Octets) :
    decodeFrom u (before ++ b :: after) =
      decodeFrom u before ++ Char.ofNat b.toNat :: decodeReplace after := by
  induction before generalizing u with
  | nil => exact decodeFrom_ascii u h after
  | cons a before ih =>
    simp only [List.cons_append, decodeFrom, ih, List.append_assoc]

theorem decodeReplace_append_ascii (before : Octets) (h : b < 0x80) (after : Octets) :
    decodeReplace (before ++ b :: after) =
      decodeReplace before ++ Char.ofNat b.toNat :: decodeReplace after :=
  decodeFrom_append_ascii none before h after

/-- A character that only an octet of its own decodes to. -/
def Ascii (c : Char) : Prop := 0 < c.toNat ∧ c.toNat < 0x80

private theorem toNat_ofNat_of_valid {n : Nat} (h : n.isValidChar) :
    (Char.ofNat n).toNat = n := by
  rw [Char.ofNat, dif_pos h]
  rfl

private theorem not_ascii_ofNat {n : Nat} (h : 0x80 ≤ n) : ¬ Ascii (Char.ofNat n) := by
  rintro ⟨hpos, hlt⟩
  by_cases hvalid : n.isValidChar
  · rw [toNat_ofNat_of_valid hvalid] at hlt
    omega
  · rw [Char.ofNat, dif_neg hvalid] at hpos
    cases hpos

theorem not_ascii_replacement : ¬ Ascii replacement := not_ascii_ofNat (by decide)

theorem eq_of_ascii_feedFirst (hc : Ascii c) (hmem : c ∈ (feedFirst b).1) :
    b = UInt8.ofNat c.toNat := by
  unfold feedFirst at hmem
  split at hmem
  · next hlt =>
    obtain rfl := List.mem_singleton.mp hmem
    have hlt := UInt8.lt_iff_toNat_lt.mp hlt
    simp only [UInt8.reduceToNat] at hlt
    rw [toNat_ofNat_of_valid (Or.inl (by omega)), UInt8.ofNat_toNat]
  · split at hmem
    · cases hmem
    · obtain rfl := List.mem_singleton.mp hmem
      exact absurd hc not_ascii_replacement

theorem Unfinished.not_ascii_take (u : Unfinished) (h : u.low ≤ b ∧ b ≤ u.high)
    (hmem : c ∈ (u.take b h).1) : ¬ Ascii c := by
  unfold take at hmem
  dsimp only at hmem
  split at hmem
  · next hleft =>
    obtain rfl := List.mem_singleton.mp hmem
    apply not_ascii_ofNat
    have hlow := UInt8.le_iff_toNat_le.mp h.1
    have hhigh := UInt8.le_iff_toNat_le.mp (UInt8.le_trans h.2 u.high_le)
    have hcont := UInt8.le_iff_toNat_le.mp u.continues
    have hwide := u.wide
    have hzero : u.left - 1 = 0 := by omega
    simp only [UInt8.reduceToNat] at hhigh hcont
    rw [hzero, Nat.pow_zero, Nat.mul_one] at hwide
    omega
  · cases hmem

theorem eq_of_ascii_feed (hc : Ascii c) (hmem : c ∈ (feed u b).1) : b = UInt8.ofNat c.toNat := by
  cases u with
  | none => exact eq_of_ascii_feedFirst hc hmem
  | some u =>
    unfold feed at hmem
    dsimp only at hmem
    split at hmem
    · next h => exact absurd hc (u.not_ascii_take h hmem)
    · rcases List.mem_cons.mp hmem with rfl | hmem
      · exact absurd hc not_ascii_replacement
      · exact eq_of_ascii_feedFirst hc hmem

variable {data : Octets}

theorem mem_of_mem_decodeFrom (hc : Ascii c) (hmem : c ∈ decodeFrom u data) :
    UInt8.ofNat c.toNat ∈ data := by
  induction data generalizing u with
  | nil =>
    cases u with
    | none => cases hmem
    | some u =>
      obtain rfl := List.mem_singleton.mp hmem
      exact absurd hc not_ascii_replacement
  | cons b data ih =>
    rw [decodeFrom] at hmem
    rcases List.mem_append.mp hmem with hmem | hmem
    · exact List.mem_cons.mpr (Or.inl (eq_of_ascii_feed hc hmem).symm)
    · exact List.mem_cons_of_mem _ (ih hmem)

theorem mem_of_mem_decodeReplace (hc : Ascii c) (hmem : c ∈ decodeReplace data) :
    UInt8.ofNat c.toNat ∈ data :=
  mem_of_mem_decodeFrom hc hmem

private theorem not_ascii_head_decodeFrom (u : Unfinished) (data : Octets)
    (hhead : (decodeFrom (some u) data).head? = some c) : ¬ Ascii c := by
  induction data generalizing u with
  | nil =>
    obtain rfl := Option.some.inj hhead
    exact not_ascii_replacement
  | cons b data ih =>
    rw [decodeFrom, feed] at hhead
    split at hhead
    · next h =>
      cases htake : (u.take b h).1 with
      | cons d rest =>
        rw [htake] at hhead
        obtain rfl := Option.some.inj hhead
        exact u.not_ascii_take h (htake ▸ List.mem_cons_self)
      | nil =>
        unfold Unfinished.take at htake hhead
        dsimp only at htake hhead
        split at hhead
        · next hleft => rw [dif_pos hleft] at htake; cases htake
        · exact ih _ hhead
    · obtain rfl := Option.some.inj hhead
      exact not_ascii_replacement

theorem head_of_head_decodeReplace (hc : Ascii c) (hhead : (decodeReplace data).head? = some c) :
    data.head? = some (UInt8.ofNat c.toNat) := by
  cases data with
  | nil => cases hhead
  | cons b data =>
    rw [decodeReplace, decodeFrom, feed] at hhead
    cases hfirst : (feedFirst b).1 with
    | cons d rest =>
      rw [hfirst] at hhead
      obtain rfl := Option.some.inj hhead
      have hb : b = UInt8.ofNat d.toNat :=
        eq_of_ascii_feedFirst hc (hfirst ▸ List.mem_cons_self)
      rw [List.head?_cons, hb]
    | nil =>
      unfold feedFirst at hfirst hhead
      split at hfirst
      · cases hfirst
      · next hlt =>
        rw [if_neg hlt] at hhead
        split at hfirst
        · next u hu =>
          rw [hu] at hhead
          exact absurd hc (not_ascii_head_decodeFrom u data hhead)
        · cases hfirst

end SpatiumDdi.Utf8
