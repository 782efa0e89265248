import SpatiumDdi.Dns.ReverseZones

/-!
The labels of reverse names. A zone of whole labels covers an address exactly where its
network holds it, and the two texts say the same as the two numbers do.
-/

namespace SpatiumDdi.Dns.Reverse

open Ipaddress Text

theorem join_cons (label : Chars) {rest : List Chars} (h : rest ≠ []) :
    join (label :: rest) = label ++ '.' :: join rest := by
  rw [join, List.intercalate_cons_of_ne_nil h, List.append_assoc]
  rfl

theorem join_append {front rest : List Chars} (hfront : front ≠ []) (hrest : rest ≠ []) :
    join (front ++ rest) = join front ++ '.' :: join rest := by
  induction front with
  | nil => exact absurd rfl hfront
  | cons label front ih =>
    have hne : front ++ rest ≠ [] := fun hnil => hrest (List.append_eq_nil_iff.mp hnil).2
    rw [List.cons_append, join_cons label hne]
    cases front with
    | nil => simp [join]
    | cons label' front =>
      rw [ih (List.cons_ne_nil _ _), join_cons label (List.cons_ne_nil _ _), List.append_assoc]
      rfl

structure Labelled (labels : List Chars) : Prop where
  dotless : ∀ label ∈ labels, '.' ∉ label
  last : ∃ label, labels.getLast? = some label ∧ label ≠ []

namespace Labelled

variable {labels : List Chars}

section

variable (h : Labelled labels)
include h

theorem ne_nil : labels ≠ [] := by
  rintro rfl
  obtain ⟨label, hlabel, -⟩ := h.last
  cases hlabel

theorem split : (join labels).splitOn '.' = labels :=
  List.splitOn_intercalate '.' h.dotless h.ne_nil

theorem getLast?_join : ∃ c, (join labels).getLast? = some c ∧ c ≠ '.' := by
  obtain ⟨hdotless, label, hlast, hne⟩ := h
  obtain ⟨init, rfl⟩ := List.getLast?_eq_some_iff.mp hlast
  obtain ⟨c, hc⟩ := Option.ne_none_iff_exists'.mp (List.getLast?_eq_none_iff.not.mpr hne)
  refine ⟨c, ?_, fun hdot => hdotless label (by simp) (hdot ▸ List.mem_of_getLast? hc)⟩
  by_cases hinit : init = []
  · simpa [hinit, join] using hc
  · rw [join_append hinit (List.cons_ne_nil _ _), List.getLast?_append, List.getLast?_cons]
    simp [join, hc]

theorem rstrip_join : rstripDotsChars (join labels) = join labels := by
  obtain ⟨c, hc, hdot⟩ := h.getLast?_join
  have hhead : (join labels).reverse.head? = some c := by rw [List.head?_reverse, hc]
  obtain ⟨rest, hrest⟩ := List.head?_eq_some_iff.mp hhead
  rw [rstripDotsChars, hrest, List.dropWhile_cons_of_neg (by simpa using hdot), ← hrest,
    List.reverse_reverse]

theorem rstrip_dot : rstripDotsChars (join labels ++ ['.']) = join labels := by
  have hstrip := h.rstrip_join
  rw [rstripDotsChars] at hstrip ⊢
  rw [List.reverse_append, List.reverse_singleton, List.singleton_append,
    List.dropWhile_cons_of_pos (by simp), hstrip]

end

variable {other : List Chars}

section

variable (h : Labelled labels)
include h

theorem join_injective (h' : Labelled other) (heq : join labels = join other) : labels = other := by
  rw [← h.split, heq, h'.split]

theorem suffix_iff (h' : Labelled other) :
    ('.' :: join other <:+ join labels ∨ join labels = join other) ↔ other <:+ labels := by
  constructor
  · rintro (⟨front, hfront⟩ | heq)
    · have hsplit := h.split
      rw [← hfront, List.splitOn_append_cons_self, h'.split] at hsplit
      exact ⟨_, hsplit⟩
    · rw [h.join_injective h' heq]
  · rintro ⟨front, rfl⟩
    by_cases hfront : front = []
    · exact .inr (by rw [hfront, List.nil_append])
    · exact .inl ⟨join front, (join_append hfront h'.ne_nil).symm⟩

theorem of_suffix (hsuffix : other <:+ labels) (hne : other ≠ []) : Labelled other := by
  obtain ⟨front, rfl⟩ := hsuffix
  obtain ⟨label, hlast, hlabel⟩ := h.last
  refine ⟨fun l hl => h.dotless l (List.mem_append_right _ hl), label, ?_, hlabel⟩
  rwa [List.getLast?_append_of_ne_nil _ hne] at hlast

end

end Labelled

theorem labelBits_mul (v : Version) : v.labelBits * v.labelCount = v.maxPrefixlen := by
  cases v <;> rfl

theorem labelBits_pos (v : Version) : 0 < v.labelBits := by
  cases v <;> decide

theorem pow_labelBits_pos (v : Version) : 0 < 2 ^ v.labelBits := Nat.two_pow_pos _

variable {v : Version}

theorem labelText_dotless {d : Nat} (h : d < 2 ^ v.labelBits) : '.' ∉ v.labelText d := by
  cases v with
  | v4 => exact dot_not_mem_octetText _
  | v6 =>
    intro hdot
    exact digitChar_ne (c := '.') h rfl (List.mem_singleton.mp hdot).symm

theorem labelText_injective {d d' : Nat} (h : d < 2 ^ v.labelBits) (h' : d' < 2 ^ v.labelBits)
    (heq : v.labelText d = v.labelText d') : d = d' := by
  cases v with
  | v4 =>
    have hparse := parseOctet_octetText (n := d) h
    rw [show octetText d = octetText d' from heq, parseOctet_octetText h'] at hparse
    exact (Option.some.inj hparse).symm
  | v6 =>
    have hchar : Nat.digitChar d = Nat.digitChar d' := List.head_eq_of_cons_eq heq
    have hparse := hexValue_digitChar (n := d) h
    rw [hchar, hexValue_digitChar h'] at hparse
    exact (Option.some.inj hparse).symm

def digits (v : Version) (x : Nat) : List Nat := fixedDigits (2 ^ v.labelBits) v.labelCount x

theorem digits_length (v : Version) (x : Nat) : (digits v x).length = v.labelCount :=
  FixedDigits.length _ _ _

variable (a : Address) {net c : Net}

theorem pointerLabels_eq :
    a.pointerLabels = (digits a.version a.value).map a.version.labelText ++ a.version.suffix := rfl

theorem suffix_labelled (v : Version) : Labelled v.suffix := by
  cases v with
  | v4 => exact ⟨by decide, "arpa".toList, rfl, by decide⟩
  | v6 => exact ⟨by decide, "arpa".toList, rfl, by decide⟩

theorem pointerLabels_labelled : Labelled a.pointerLabels := by
  obtain ⟨hdotless, label, hlast, hne⟩ := suffix_labelled a.version
  refine ⟨?_, label, ?_, hne⟩
  · intro text htext
    rw [pointerLabels_eq, List.mem_append] at htext
    rcases htext with htext | htext
    · obtain ⟨d, hd, rfl⟩ := List.mem_map.mp htext
      exact labelText_dotless (FixedDigits.lt_base (pow_labelBits_pos _) hd)
    · exact hdotless text htext
  · rw [pointerLabels_eq, List.getLast?_append, hlast]
    rfl

theorem reversePointer_split : a.reversePointer.splitOn '.' = a.pointerLabels :=
  (pointerLabels_labelled a).split

theorem pointerLabels_length : a.pointerLabels.length = a.version.labelCount + 2 := by
  rw [pointerLabels_eq, List.length_append, List.length_map, digits_length]
  cases a.version <;> rfl

theorem suffix_injective {v' : Version} (h : v.suffix = v'.suffix) : v = v' := by
  cases v <;> cases v' <;> first | rfl | exact absurd h (by decide)

theorem suffix_length (v : Version) : v.suffix.length = 2 := by
  cases v <;> rfl

theorem map_labelText_injective {l l' : List Nat} (h : ∀ d ∈ l, d < 2 ^ v.labelBits)
    (h' : ∀ d ∈ l', d < 2 ^ v.labelBits) (heq : l.map v.labelText = l'.map v.labelText) :
    l = l' := by
  induction l generalizing l' with
  | nil => rw [List.map_nil, eq_comm, List.map_eq_nil_iff] at heq; exact heq.symm
  | cons d l ih =>
    cases l' with
    | nil => cases heq
    | cons d' l' =>
      rw [List.map_cons, List.map_cons, List.cons.injEq] at heq
      rw [labelText_injective (h d List.mem_cons_self) (h' d' List.mem_cons_self) heq.1,
        ih (fun e he => h e (List.mem_cons_of_mem _ he))
          (fun e he => h' e (List.mem_cons_of_mem _ he)) heq.2]

theorem hasValue_iff_div {x : Nat} :
    net.hasValue x ↔ x / net.numAddresses = net.networkAddress / net.numAddresses := by
  have hpos := net.numAddresses_pos
  obtain ⟨q, hq⟩ := net.numAddresses_dvd
  rw [Net.hasValue_iff, hq, Nat.mul_div_cancel_left q hpos]
  constructor
  · rintro ⟨hlow, hhigh⟩
    exact Nat.div_eq_of_lt_le (by rwa [Nat.mul_comm]) (by rw [Nat.succ_mul, Nat.mul_comm]; exact hhigh)
  · rintro hdiv
    have hle := Nat.mul_div_le x net.numAddresses
    have hlt := Nat.lt_mul_div_succ x hpos
    rw [hdiv] at hle hlt
    rw [Nat.mul_add, Nat.mul_one] at hlt
    exact ⟨hle, hlt⟩

/-- The network of a zone of so many labels before the version's suffix. -/
structure Aligned (net : Net) (k : Nat) : Prop where
  le : k ≤ net.version.labelCount
  prefixlen : net.prefixlen = net.version.labelBits * k

def zoneLabels (net : Net) (k : Nat) : List Chars :=
  (firstAddress net).pointerLabels.drop (net.version.labelCount - k)

def zoneName (net : Net) (k : Nat) : Chars := join (zoneLabels net k) ++ ['.']

namespace Aligned

variable {net : Net} {k : Nat}

section

variable (h : Aligned net k)
include h

theorem numAddresses :
    net.numAddresses = (2 ^ net.version.labelBits) ^ (net.version.labelCount - k) := by
  rw [Net.numAddresses, h.prefixlen, ← Nat.pow_mul, Nat.mul_sub, labelBits_mul]

theorem zoneLabels_eq :
    zoneLabels net k =
      (fixedDigits (2 ^ net.version.labelBits) k (net.networkAddress / net.numAddresses)).map
        net.version.labelText ++ net.version.suffix := by
  have hk : net.version.labelCount - (net.version.labelCount - k) = k := Nat.sub_sub_self h.le
  have hlen : net.version.labelCount - k ≤
      ((digits net.version net.networkAddress).map net.version.labelText).length := by
    rw [List.length_map, digits_length]
    omega
  have hfirst : zoneLabels net k =
      ((digits net.version net.networkAddress).map net.version.labelText ++
        net.version.suffix).drop (net.version.labelCount - k) := rfl
  rw [hfirst, List.drop_append_of_le_length hlen, ← List.map_drop, digits, FixedDigits.drop,
    h.numAddresses, hk]

theorem zoneLabels_length : (zoneLabels net k).length = k + 2 := by
  rw [h.zoneLabels_eq, List.length_append, List.length_map, FixedDigits.length]
  cases net.version <;> rfl

theorem labelled : Labelled (zoneLabels net k) := by
  refine (pointerLabels_labelled (firstAddress net)).of_suffix (List.drop_suffix _ _) ?_
  intro hnil
  have hlen := h.zoneLabels_length
  rw [hnil] at hlen
  cases hlen

theorem covers_iff_suffix : covers a (zoneName net k) ↔ zoneLabels net k <:+ a.pointerLabels := by
  have hlabels := h.labelled
  have hpointer := pointerLabels_labelled a
  have hdot : '.' :: (join (zoneLabels net k) ++ ['.']) <:+ a.reversePointer ++ ['.'] ↔
      '.' :: join (zoneLabels net k) <:+ join a.pointerLabels := by
    constructor
    · rintro ⟨front, hfront⟩
      rw [← List.cons_append, ← List.append_assoc] at hfront
      exact ⟨front, List.append_cancel_right hfront⟩
    · rintro ⟨front, hfront⟩
      exact ⟨front, by rw [Address.reversePointer, ← join, ← hfront]; simp⟩
  have heq : a.reversePointer ++ ['.'] = join (zoneLabels net k) ++ ['.'] ↔
      join a.pointerLabels = join (zoneLabels net k) :=
    List.append_left_inj ['.']
  rw [← hpointer.suffix_iff hlabels, covers, zoneName, hlabels.rstrip_dot]
  exact or_congr hdot heq

theorem div_lt {x : Nat} (hx : x < 2 ^ net.version.maxPrefixlen) :
    x / net.numAddresses < (2 ^ net.version.labelBits) ^ k := by
  rw [Nat.div_lt_iff_lt_mul net.numAddresses_pos, h.numAddresses, ← Nat.pow_add,
    Nat.add_sub_cancel' h.le, ← Nat.pow_mul, labelBits_mul]
  exact hx

theorem covers_iff : covers a (zoneName net k) ↔ net.contains a := by
  have hbase := pow_labelBits_pos net.version
  have hlen : net.version.suffix.length = a.version.suffix.length := by
    rw [suffix_length, suffix_length]
  rw [h.covers_iff_suffix, h.zoneLabels_eq, pointerLabels_eq,
    List.suffix_append_inj_of_length_eq hlen, Net.contains]
  constructor
  · rintro ⟨hlabels, hsuffix⟩
    have hv : a.version = net.version := (suffix_injective hsuffix).symm
    have hrange := a.inRange
    rw [hv] at hlabels hrange
    refine ⟨hv, hasValue_iff_div.mpr ?_⟩
    rw [List.suffix_iff_eq_drop, List.length_map, List.length_map, FixedDigits.length,
      digits_length, ← List.map_drop, digits, FixedDigits.drop, Nat.sub_sub_self h.le,
      ← h.numAddresses] at hlabels
    have hdigits := FixedDigits.inj (map_labelText_injective
      (fun d hd => FixedDigits.lt_base hbase hd) (fun d hd => FixedDigits.lt_base hbase hd) hlabels)
    rw [Nat.mod_eq_of_lt (h.div_lt net.inRange), Nat.mod_eq_of_lt (h.div_lt hrange)] at hdigits
    exact hdigits.symm
  · rintro ⟨hv, hvalue⟩
    refine ⟨?_, by rw [hv]⟩
    rw [hv, ← hasValue_iff_div.mp hvalue, List.suffix_iff_eq_drop, List.length_map, List.length_map,
      FixedDigits.length, digits_length, ← List.map_drop, digits, FixedDigits.drop,
      Nat.sub_sub_self h.le, ← h.numAddresses]

end

end Aligned

/-- The labels before the suffix in each zone of the network. -/
def unitLabels (net : Net) : Nat :=
  match net.version with
  | .v4 => if net.prefixlen > 16 then 3 else if net.prefixlen > 8 then 2 else 1
  | .v6 => if (net.prefixlen + 3) / 4 = 0 then 1 else (net.prefixlen + 3) / 4

theorem mem_pieces_of_unit {unit : Nat} (hunit : unit ≤ net.version.maxPrefixlen) :
    c ∈ (if net.prefixlen ≥ unit then
        if net.prefixlen > unit then [Net.ofValue net.version net.networkAddress unit] else [net]
      else net.subnets unit) ↔
      c.version = net.version ∧ c.prefixlen = unit ∧ c.overlaps net := by
  have hofValue : (Net.ofValue net.version net.networkAddress unit).prefixlen = unit :=
    Net.ofValue_prefixlen _ hunit
  split
  next hge =>
    split
    next hgt =>
      have hmeets : (Net.ofValue net.version net.networkAddress unit).overlaps net :=
        (Net.ofValue_hasValue unit net.inRange).overlaps (Net.hasValue_networkAddress net) rfl
      rw [List.mem_singleton]
      constructor
      · rintro rfl
        exact ⟨rfl, hofValue, hmeets⟩
      · rintro ⟨hv, hp, hc⟩
        have hinside := (Net.hasValue_networkAddress net).mono (hc.symm.subnetOf (by omega))
        exact Net.eq_of_hasValue hv (hp.trans hofValue.symm) hinside
          (Net.ofValue_hasValue unit net.inRange)
    next hle =>
      have hp : net.prefixlen = unit := by omega
      rw [List.mem_singleton]
      constructor
      · rintro rfl
        exact ⟨rfl, hp, (Net.subnetOf.refl _).overlaps⟩
      · rintro ⟨-, hcp, hc⟩
        exact Net.eq_of_overlaps_of_prefixlen hc (hcp.trans hp.symm)
  next hlt =>
    have hlt : net.prefixlen < unit := by omega
    rw [Net.mem_subnets (Nat.le_of_lt hlt) hunit]
    constructor
    · rintro ⟨hsub, hp⟩
      exact ⟨hsub.1, hp, hsub.overlaps⟩
    · rintro ⟨-, hp, hc⟩
      exact ⟨hc.subnetOf (by omega), hp⟩

theorem unitLabels_pos (net : Net) : 1 ≤ unitLabels net := by
  rw [unitLabels]
  split <;> (try split) <;> (try split) <;> omega

theorem unitLabels_le (net : Net) : unitLabels net ≤ net.version.labelCount := by
  have hle := net.prefixlen_le
  rw [unitLabels]
  cases hv : net.version with
  | v4 =>
    simp only [Version.labelCount]
    split <;> (try split) <;> omega
  | v6 =>
    rw [hv] at hle
    simp only [Version.labelCount, Version.maxPrefixlen] at hle ⊢
    split <;> omega

theorem unit_le (net : Net) :
    net.version.labelBits * unitLabels net ≤ net.version.maxPrefixlen := by
  rw [← labelBits_mul]
  exact Nat.mul_le_mul_left _ (unitLabels_le net)

theorem reverseZonePieces_eq (net : Net) :
    reverseZonePieces net =
      if net.prefixlen ≥ net.version.labelBits * unitLabels net then
        if net.prefixlen > net.version.labelBits * unitLabels net then
          [Net.ofValue net.version net.networkAddress (net.version.labelBits * unitLabels net)]
        else [net]
      else net.subnets (net.version.labelBits * unitLabels net) := by
  generalize hunit : net.version.labelBits * unitLabels net = unit
  rw [unitLabels] at hunit
  rw [reverseZonePieces]
  cases hv : net.version with
  | v4 =>
    simp only [hv, Version.labelBits] at hunit
    have hsame : (if net.prefixlen > 16 then 24 else if net.prefixlen > 8 then 16 else 8) =
        unit := by
      rw [← hunit]
      split
      · rfl
      · split <;> rfl
    simp only [hsame]
  | v6 =>
    simp only [hv, Version.labelBits] at hunit
    have hsame : (if (net.prefixlen + 3) / 4 * 4 = 0 then 4 else (net.prefixlen + 3) / 4 * 4) =
        unit := by
      rw [← hunit]
      split <;> split <;> omega
    have hnot : ¬net.prefixlen > unit := by
      rw [← hunit]
      split <;> omega
    simp only [hsame, if_neg hnot]

theorem mem_reverseZonePieces :
    c ∈ reverseZonePieces net ↔ c.version = net.version ∧
      c.prefixlen = net.version.labelBits * unitLabels net ∧ c.overlaps net := by
  rw [reverseZonePieces_eq]
  exact mem_pieces_of_unit (unit_le net)

theorem reverseZonePieces_sorted (net : Net) :
    (reverseZonePieces net).Pairwise fun a b => a.networkAddress < b.networkAddress := by
  rw [reverseZonePieces_eq]
  split
  · split <;> exact List.pairwise_singleton _ _
  next hlt => exact Net.subnets_sorted (by omega) (unit_le net)

theorem reverseZonePieces_version (hc : c ∈ reverseZonePieces net) : c.version = net.version :=
  (mem_reverseZonePieces.mp hc).1

section Piece

variable {net c : Net} (hc : c ∈ reverseZonePieces net)

include hc

theorem aligned_of_piece : Aligned c (unitLabels net) := by
  obtain ⟨hv, hp, -⟩ := mem_reverseZonePieces.mp hc
  exact ⟨hv ▸ unitLabels_le net, hv ▸ hp⟩

theorem piece_subnetOf : c.subnetOf net ∨ (net.version = .v4 ∧ 24 < net.prefixlen) := by
  obtain ⟨hv, hp, hmeets⟩ := mem_reverseZonePieces.mp hc
  by_cases hle : net.prefixlen ≤ c.prefixlen
  · exact .inl (hmeets.subnetOf hle)
  · rw [hp] at hle
    rw [unitLabels] at hle
    cases hnet : net.version with
    | v4 =>
      rw [hnet] at hle
      simp only [Version.labelBits] at hle
      refine .inr ⟨rfl, ?_⟩
      split at hle <;> (try split at hle) <;> omega
    | v6 =>
      rw [hnet] at hle
      simp only [Version.labelBits] at hle
      split at hle <;> omega

end Piece

theorem exists_piece {a : Address} (ha : net.contains a) :
    ∃ c ∈ reverseZonePieces net, c.contains a := by
  have hrange := a.inRange
  rw [ha.1] at hrange
  refine ⟨Net.ofValue net.version a.value (net.version.labelBits * unitLabels net), ?_, ha.1,
    Net.ofValue_hasValue _ hrange⟩
  exact mem_reverseZonePieces.mpr ⟨rfl, Net.ofValue_prefixlen _ (unit_le net),
    (Net.ofValue_hasValue _ hrange).overlaps ha.2 rfl⟩

variable {c' : Net}

theorem piece_unique (hc : c ∈ reverseZonePieces net) (hc' : c' ∈ reverseZonePieces net)
    {a : Address} (ha : c.contains a) (ha' : c'.contains a) : c = c' := by
  obtain ⟨hv, hp, -⟩ := mem_reverseZonePieces.mp hc
  obtain ⟨hv', hp', -⟩ := mem_reverseZonePieces.mp hc'
  exact Net.eq_of_hasValue (hv.trans hv'.symm) (hp.trans hp'.symm) ha.2 ha'.2

theorem keep_eq_drop {α : Type} {l : List α} {total j : Nat} (hj : j ≤ total)
    (hlen : total ≤ l.length) : (l.take total).drop j ++ l.drop total = l.drop j := by
  have htake : j ≤ (l.take total).length := by
    rw [List.length_take]
    omega
  rw [← List.drop_append_of_le_length htake, List.take_append_drop]

theorem computeReverseZoneNames_eq (net : Net) :
    computeReverseZoneNames net = (reverseZonePieces net).map (zoneName · (unitLabels net)) := by
  rw [computeReverseZoneNames]
  apply List.map_congr_left
  intro piece hpiece
  have haligned := aligned_of_piece hpiece
  have hv := reverseZonePieces_version hpiece
  have hdiv : piece.prefixlen / net.version.labelBits = unitLabels net := by
    rw [haligned.prefixlen, hv, Nat.mul_div_cancel_left _ (labelBits_pos _)]
  have hlen : net.version.labelCount ≤ (firstAddress piece).pointerLabels.length := by
    have hlength := pointerLabels_length (firstAddress piece)
    rw [show (firstAddress piece).version = net.version from hv] at hlength
    omega
  simp only [hdiv, reversePointer_split]
  rw [keep_eq_drop (Nat.sub_le _ _) hlen, zoneName, zoneLabels, hv]

theorem contains_firstAddress (net : Net) : net.contains (firstAddress net) :=
  ⟨rfl, Net.hasValue_networkAddress net⟩

theorem zoneName_injective (hc : c ∈ reverseZonePieces net) (hc' : c' ∈ reverseZonePieces net)
    (h : zoneName c (unitLabels net) = zoneName c' (unitLabels net)) : c = c' := by
  have hcovers := ((aligned_of_piece hc).covers_iff (firstAddress c)).mpr (contains_firstAddress c)
  rw [h, (aligned_of_piece hc').covers_iff] at hcovers
  exact piece_unique hc hc' (contains_firstAddress c) hcovers

theorem nodup_names (net : Net) : (computeReverseZoneNames net).Nodup := by
  rw [computeReverseZoneNames_eq]
  refine List.Nodup.map_on (fun c hc c' hc' h => zoneName_injective hc hc' h) ?_
  refine (reverseZonePieces_sorted net).imp ?_
  intro a b hab heq
  rw [heq] at hab
  exact Nat.lt_irrefl _ hab

theorem not_suffix (hc : c ∈ reverseZonePieces net) (hc' : c' ∈ reverseZonePieces net) :
    ¬ '.' :: zoneName c' (unitLabels net) <:+ zoneName c (unitLabels net) := by
  have hlabelled := (aligned_of_piece hc).labelled
  have hlabelled' := (aligned_of_piece hc').labelled
  intro hsuffix
  have hjoin : '.' :: join (zoneLabels c' (unitLabels net)) <:+
      join (zoneLabels c (unitLabels net)) := by
    rw [zoneName, zoneName, ← List.cons_append] at hsuffix
    exact List.suffix_append_self_iff.mp hsuffix
  have hlabels := (hlabelled.suffix_iff hlabelled').mp (.inl hjoin)
  have hsame : zoneLabels c' (unitLabels net) = zoneLabels c (unitLabels net) := by
    apply hlabels.eq_of_length
    rw [(aligned_of_piece hc).zoneLabels_length, (aligned_of_piece hc').zoneLabels_length]
  rw [hsame] at hjoin
  have hlen := hjoin.length_le
  rw [List.length_cons] at hlen
  omega

end SpatiumDdi.Dns.Reverse
