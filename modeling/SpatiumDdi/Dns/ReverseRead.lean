import SpatiumDdi.Dns.ReverseNames

/-!
Reverse names read back: a zone's name says its network, and the owner name of a PTR
under a zone says its address.
-/

namespace SpatiumDdi.Dns.Reverse

open Ipaddress Text

/-- A character that lower case leaves. -/
def Lowered (c : Char) : Prop := c.toNat < 128 ∧ c.toLower = c

variable {lower : String → String}

theorem lowerChars_self (hlower : AsciiLower lower) {s : Chars} (h : ∀ c ∈ s, Lowered c) :
    lowerChars lower s = s := by
  have hid : ∀ c ∈ s, c.toLower = c := fun c hc => (h c hc).2
  rw [lowerChars, hlower s fun c hc => (h c hc).1, String.toList_ofList, List.map_congr_left hid,
    List.map_id']

/-- Lower case leaves the text, and it has no `@`. -/
def plain (text : Chars) : Bool :=
  text.all fun c => decide (c.toNat < 128) && (c.toLower == c) && (c != '@')

theorem lowered_of_plain {text : Chars} (h : plain text = true) :
    ∀ c ∈ text, Lowered c ∧ c ≠ '@' := by
  intro c hc
  have hone := List.all_eq_true.mp h c hc
  simp only [Bool.and_eq_true, decide_eq_true_eq, beq_iff_eq, bne_iff_ne] at hone
  exact hone

theorem lowered_labelText {v : Version} {d : Nat} (h : d < 2 ^ v.labelBits) :
    ∀ c ∈ v.labelText d, Lowered c ∧ c ≠ '@' := by
  apply lowered_of_plain
  cases v with
  | v4 =>
    have hall : ∀ n : Fin 256, plain (octetText n) = true := by decide +kernel
    exact hall ⟨d, h⟩
  | v6 =>
    have hall : ∀ n : Fin 16, plain (nibbleText n) = true := by decide +kernel
    exact hall ⟨d, h⟩

theorem lowered_suffix (v : Version) : ∀ label ∈ v.suffix, ∀ c ∈ label, Lowered c := by
  have hall : v.suffix.all plain = true := by cases v <;> decide +kernel
  intro label hlabel c hc
  exact (lowered_of_plain (List.all_eq_true.mp hall label hlabel) c hc).1

theorem lowered_pointerLabels (a : Address) :
    ∀ label ∈ a.pointerLabels, ∀ c ∈ label, Lowered c := by
  intro label hlabel c hc
  rw [pointerLabels_eq, List.mem_append] at hlabel
  rcases hlabel with hlabel | hlabel
  · obtain ⟨d, hd, rfl⟩ := List.mem_map.mp hlabel
    exact (lowered_labelText (FixedDigits.lt_base (pow_labelBits_pos _) hd) c hc).1
  · exact lowered_suffix _ label hlabel c hc

theorem lowered_join {labels : List Chars} (h : ∀ label ∈ labels, ∀ c ∈ label, Lowered c) :
    ∀ c ∈ join labels, Lowered c := by
  intro c hc
  rcases mem_intercalate hc with rfl | ⟨label, hlabel, hin⟩
  · exact ⟨by decide, by decide⟩
  · exact h label hlabel c hin

variable {x k : Nat}

theorem parse_octets (hx : x < 2 ^ 32) :
    parseIPv4 (join ((digits .v4 x).reverse.map octetText)) = some x := by
  have hlt : ∀ n ∈ (digits .v4 x).reverse, n < 256 := fun n hn =>
    FixedDigits.lt_base (by decide) (List.mem_reverse.mp hn)
  have hvalue : x % 256 ^ 4 = x := Nat.mod_eq_of_lt hx
  rw [join, parseIPv4_octets (by rw [List.length_reverse]; exact digits_length .v4 x) hlt,
    ofBigEndian_reverse]
  exact congrArg some ((FixedDigits.ofDigits_eq 256 4 x).trans hvalue)

theorem flatten_fours {α : Type} (l : List α) (n : Nat) :
    ((List.range n).map fun i => (l.drop (4 * i)).take 4).flatten = l.take (4 * n) := by
  induction n with
  | zero => simp
  | succ n ih =>
    rw [List.range_succ, List.map_append, List.flatten_append, ih, Nat.mul_succ, List.take_add]
    simp

/-- The nibbles of a value in groups of four, the most significant first. -/
def nibbleGroups (x : Nat) : List (List Nat) :=
  (List.range 8).map fun i => ((digits .v6 x).reverse.drop (4 * i)).take 4

theorem colons_nibbles (x : Nat) :
    colons ((digits .v6 x).reverse.map Nat.digitChar) = hextets (nibbleGroups x) := by
  rw [colons, hextets, nibbleGroups, List.map_map]
  simp only [Function.comp_def, List.map_take, List.map_drop]

theorem nibbleGroups_lt (x : Nat) : ∀ g ∈ nibbleGroups x, ∀ n ∈ g, n < 16 := by
  intro g hg n hn
  obtain ⟨i, -, rfl⟩ := List.mem_map.mp hg
  have hmem := List.mem_of_mem_drop (List.mem_of_mem_take hn)
  exact FixedDigits.lt_base (b := 16) (by decide) (List.mem_reverse.mp hmem)

theorem parse_nibbles (hx : x < 2 ^ 128) :
    parseIPv6 (colons ((digits .v6 x).reverse.map Nat.digitChar)) = some x := by
  have hlength : (digits .v6 x).reverse.length = 32 := by
    rw [List.length_reverse]
    exact digits_length .v6 x
  have hflat : (nibbleGroups x).flatten = (digits .v6 x).reverse := by
    rw [nibbleGroups, flatten_fours, List.take_of_length_le (by rw [hlength])]
  have hcount : (nibbleGroups x).length = 8 := by simp [nibbleGroups]
  have hfours : ∀ g ∈ nibbleGroups x, g.length = 4 := by
    intro g hg
    obtain ⟨i, hi, rfl⟩ := List.mem_map.mp hg
    have := List.mem_range.mp hi
    rw [List.length_take, List.length_drop, hlength]
    omega
  rw [colons_nibbles, parseIPv6_hextets (nibbleGroups_lt x) hcount hfours, hflat,
    ofBigEndian_reverse]
  exact congrArg some ((FixedDigits.ofDigits_eq 16 32 x).trans (Nat.mod_eq_of_lt hx))

theorem parseIPv4_colons (x : Nat) :
    parseIPv4 (colons ((digits .v6 x).reverse.map Nat.digitChar)) = none := by
  have hdot : '.' ∉ colons ((digits .v6 x).reverse.map Nat.digitChar) := by
    rw [colons_nibbles]
    exact not_mem_hextets (nibbleGroups_lt x) rfl (by decide)
  have hone := List.splitOn_eq_singleton hdot
  generalize colons ((digits .v6 x).reverse.map Nat.digitChar) = s at hone ⊢
  simp [parseIPv4, hone]

theorem flatten_nibbles (l : List Nat) : (l.map nibbleText).flatten = l.map Nat.digitChar := by
  induction l with
  | nil => rfl
  | cons n l ih => rw [List.map_cons, List.flatten_cons, ih]; rfl

theorem lastTwo_append (front : List Chars) (v : Version) :
    lastTwo (front ++ v.suffix) = v.suffix := by
  rw [lastTwo, List.length_append, suffix_length, Nat.add_sub_cancel, List.drop_left]

theorem front_append (front : List Chars) (v : Version) :
    (front ++ v.suffix).take ((front ++ v.suffix).length - 2) = front := by
  rw [List.length_append, suffix_length, Nat.add_sub_cancel, List.take_left]

section Read

variable {lower : String → String} (hlower : AsciiLower lower) {net : Net} {k : Nat}

include hlower

theorem read_labels (h : Aligned net k) :
    (rstripDotsChars (lowerChars lower (zoneName net k))).splitOn '.' = zoneLabels net k := by
  have hlowered : ∀ c ∈ zoneName net k, Lowered c := by
    intro c hc
    rw [zoneName, List.mem_append, List.mem_singleton] at hc
    rcases hc with hc | rfl
    · refine lowered_join (fun label hlabel => ?_) c hc
      exact lowered_pointerLabels _ label (List.mem_of_mem_drop hlabel)
    · exact ⟨by decide, by decide⟩
  rw [lowerChars_self hlower hlowered, zoneName, h.labelled.rstrip_dot, h.labelled.split]

end Read

theorem octetsFit_texts {l : List Nat} (h : ∀ n ∈ l, n < 256) :
    octetsFit (l.map octetText) = .ok true := by
  induction l with
  | nil => rfl
  | cons n l ih =>
    have hn : n < 256 := h n List.mem_cons_self
    have hdigits : octetText n ≠ [] ∧ (octetText n).all Char.isDigit = true :=
      ⟨Nat.toDigits_ne_nil, List.all_eq_true.mpr fun c hc => isDigit_of_mem_octetText hc⟩
    have hparse : parseInt (String.ofList (octetText n)) = some (n : Int) :=
      parseInt_toDigits ((length_octetText hn).trans (by decide))
    have hle : (n : Int) ≤ 255 := by omega
    simp only [List.map_cons, octetsFit, if_pos hdigits, hparse, if_pos hle]
    exact ih fun m hm => h m (List.mem_cons_of_mem _ hm)

variable {net : Net}

theorem ipNetwork_v4 {addr : Chars} (hv : net.version = .v4)
    (h : parseIPv4 addr = some net.networkAddress) : ipNetwork addr net.prefixlen = .ok net := by
  have hfits := And.intro net.prefixlen_le (And.intro net.aligned net.inRange)
  rw [hv] at hfits
  simp only [ipNetwork, h, Option.map_some, Option.some_or, dif_pos hfits]
  exact congrArg _ (Net.ext_of_bounds hv.symm rfl rfl)

theorem ipNetwork_v6 {addr : Chars} (hv : net.version = .v6) (h4 : parseIPv4 addr = none)
    (h : parseIPv6 addr = some net.networkAddress) : ipNetwork addr net.prefixlen = .ok net := by
  have hfits := And.intro net.prefixlen_le (And.intro net.aligned net.inRange)
  rw [hv] at hfits
  simp only [ipNetwork, h4, h, Option.map_some, Option.map_none, Option.none_or, dif_pos hfits]
  exact congrArg _ (Net.ext_of_bounds hv.symm rfl rfl)

theorem Aligned.digits_eq (h : Aligned net k) :
    digits net.version net.networkAddress =
      List.replicate (net.version.labelCount - k) 0 ++
        fixedDigits (2 ^ net.version.labelBits) k (net.networkAddress / net.numAddresses) := by
  have hdvd := net.numAddresses_dvd
  rw [h.numAddresses] at hdvd ⊢
  rw [digits, FixedDigits.of_dvd (pow_labelBits_pos _) (Nat.sub_le _ _) hdvd,
    Nat.sub_sub_self h.le]

theorem Aligned.exists_digits (h : Aligned net k) :
    ∃ F : List Nat, F.length = k ∧ (∀ n ∈ F, n < 2 ^ net.version.labelBits) ∧
      zoneLabels net k = F.map net.version.labelText ++ net.version.suffix ∧
      digits net.version net.networkAddress =
        List.replicate (net.version.labelCount - k) 0 ++ F :=
  ⟨_, FixedDigits.length _ _ _, fun _ hn => FixedDigits.lt_base (pow_labelBits_pos _) hn,
    h.zoneLabels_eq, h.digits_eq⟩

section ReadNetwork

variable {lower : String → String} (hlower : AsciiLower lower) {net : Net} {k : Nat}

include hlower

theorem reverseZoneNetwork_v4 (h : Aligned net k) (hv : net.version = .v4) (hk : 1 ≤ k)
    (hk3 : k ≤ 3) : reverseZoneNetwork lower (zoneName net k) = .ok (some net) := by
  obtain ⟨F, hFlen, hFlt, hlabels, hdigits⟩ := h.exists_digits
  rw [hv] at hFlt hlabels hdigits
  have hrange := net.inRange
  rw [hv] at hrange
  have hoctets : (F.map Version.v4.labelText).reverse = F.reverse.map octetText :=
    (List.map_reverse).symm
  have hcount : ¬((F.reverse.map octetText).length < 1 ∨ 3 < (F.reverse.map octetText).length) := by
    rw [List.length_map, List.length_reverse, hFlen]
    omega
  have hfit : octetsFit (F.reverse.map octetText) = .ok true :=
    octetsFit_texts fun n hn => hFlt n (List.mem_reverse.mp hn)
  have haddr : F.reverse.map octetText ++
      List.replicate (4 - (F.reverse.map octetText).length) ['0'] =
      (digits .v4 net.networkAddress).reverse.map octetText := by
    rw [hdigits, List.reverse_append, List.map_append, List.reverse_replicate, List.map_replicate,
      List.length_map, List.length_reverse, hFlen]
    rfl
  have hbits : 8 * (F.reverse.map octetText).length = net.prefixlen := by
    rw [List.length_map, List.length_reverse, hFlen, h.prefixlen, hv]
    rfl
  have hnet : ipNetwork (join ((digits .v4 net.networkAddress).reverse.map octetText))
      net.prefixlen = .ok net :=
    ipNetwork_v4 hv (parse_octets hrange)
  have htwo : lastTwo (F.map Version.v4.labelText ++ Version.v4.suffix) =
      ["in-addr".toList, "arpa".toList] :=
    lastTwo_append _ .v4
  simp only [reverseZoneNetwork, read_labels hlower h, hlabels, htwo, if_true, front_append,
    hoctets, if_neg hcount, ok_bind hfit, haddr, hbits, ok_bind hnet]
  rfl

theorem reverseZoneNetwork_v6 (h : Aligned net k) (hv : net.version = .v6) (hk : 1 ≤ k) :
    reverseZoneNetwork lower (zoneName net k) = .ok (some net) := by
  have hle := h.le
  obtain ⟨F, hFlen, hFlt, hlabels, hdigits⟩ := h.exists_digits
  rw [hv] at hFlt hlabels hdigits hle
  have hrange := net.inRange
  rw [hv] at hrange
  have hnibbles : (F.map Version.v6.labelText).reverse = F.reverse.map nibbleText :=
    (List.map_reverse).symm
  have hone : ∀ n : Fin 16, isNibble (nibbleText n) = true := by decide +kernel
  have hall : (F.reverse.map nibbleText).all isNibble = true := by
    rw [List.all_eq_true]
    intro text htext
    obtain ⟨n, hn, rfl⟩ := List.mem_map.mp htext
    exact hone ⟨n, hFlt n (List.mem_reverse.mp hn)⟩
  have hcount : ¬((F.reverse.map nibbleText).length < 1 ∨ 32 < (F.reverse.map nibbleText).length ∨
      (!(F.reverse.map nibbleText).all isNibble) = true) := by
    rw [hall, List.length_map, List.length_reverse, hFlen]
    simp only [Version.labelCount] at hle
    simp
    omega
  have hhexstr : F.reverse.map Nat.digitChar ++
      List.replicate (32 - (F.reverse.map Nat.digitChar).length) '0' =
      (digits .v6 net.networkAddress).reverse.map Nat.digitChar := by
    rw [hdigits, List.reverse_append, List.map_append, List.reverse_replicate, List.map_replicate,
      List.length_map, List.length_reverse, hFlen]
    rfl
  have hbits : 4 * (F.reverse.map nibbleText).length = net.prefixlen := by
    rw [List.length_map, List.length_reverse, hFlen, h.prefixlen, hv]
    rfl
  have hnet : ipNetwork (colons ((digits .v6 net.networkAddress).reverse.map Nat.digitChar))
      net.prefixlen = .ok net :=
    ipNetwork_v6 hv (parseIPv4_colons _) (parse_nibbles hrange)
  have htwo : lastTwo (F.map Version.v6.labelText ++ Version.v6.suffix) =
      ["ip6".toList, "arpa".toList] :=
    lastTwo_append _ .v6
  have hother : ¬["ip6".toList, "arpa".toList] = ["in-addr".toList, "arpa".toList] := by decide
  simp only [reverseZoneNetwork, read_labels hlower h, hlabels, htwo, if_neg hother, if_true,
    front_append, hnibbles, if_neg hcount, flatten_nibbles, hhexstr, hbits, ok_bind hnet]
  rfl

end ReadNetwork

theorem reverseZoneNetwork_zoneName (hlower : AsciiLower lower) {c : Net}
    (hc : c ∈ reverseZonePieces net) :
    reverseZoneNetwork lower (zoneName c (unitLabels net)) = .ok (some c) := by
  have haligned := aligned_of_piece hc
  have hv := reverseZonePieces_version hc
  cases hnet : net.version with
  | v4 =>
    have hthree : unitLabels net ≤ 3 := by
      rw [unitLabels, hnet]
      dsimp only
      split <;> (try split) <;> omega
    exact reverseZoneNetwork_v4 hlower haligned (hv.trans hnet) (unitLabels_pos net) hthree
  | v6 => exact reverseZoneNetwork_v6 hlower haligned (hv.trans hnet) (unitLabels_pos net)

theorem labelText_ne_nil (v : Version) (d : Nat) : v.labelText d ≠ [] := by
  cases v with
  | v4 => exact Nat.toDigits_ne_nil
  | v6 => exact List.cons_ne_nil _ _

variable {a : Address}

theorem front_labels {front : List Chars} (h : Aligned net k)
    (hfront : front ++ zoneLabels net k = a.pointerLabels) :
    ∀ label ∈ front, ∃ d, d < 2 ^ a.version.labelBits ∧ label = a.version.labelText d := by
  have hlen := congrArg List.length hfront
  rw [List.length_append, h.zoneLabels_length, pointerLabels_length] at hlen
  have htake : front = ((digits a.version a.value).map a.version.labelText).take front.length := by
    have hprefix := List.prefix_append front (zoneLabels net k)
    rw [hfront, pointerLabels_eq, List.prefix_iff_eq_take, List.take_append_of_le_length] at hprefix
    · exact hprefix
    · rw [List.length_map, digits_length]
      omega
  intro label hlabel
  rw [htake] at hlabel
  obtain ⟨d, hd, rfl⟩ := List.mem_map.mp (List.mem_of_mem_take hlabel)
  exact ⟨d, FixedDigits.lt_base (pow_labelBits_pos _) hd, rfl⟩

theorem owner_eq (h : Aligned net k) (ha : covers a (zoneName net k)) :
    (if expectedPtr a (zoneName net k) = [] ∨ expectedPtr a (zoneName net k) = ['@'] then
        rstripDotsChars (zoneName net k)
      else rstripDotsChars (expectedPtr a (zoneName net k)) ++
        '.' :: rstripDotsChars (zoneName net k)) = a.reversePointer := by
  obtain ⟨front, hfront⟩ := (h.covers_iff_suffix a).mp ha
  have hstrip : rstripDotsChars (zoneName net k) = join (zoneLabels net k) := h.labelled.rstrip_dot
  have hpointer : a.reversePointer = join a.pointerLabels := rfl
  have hlabels := front_labels h hfront
  by_cases hnil : front = []
  · rw [hnil, List.nil_append] at hfront
    have hat : expectedPtr a (zoneName net k) = ['@'] := by
      rw [expectedPtr, hstrip, hpointer, hfront]
      exact if_pos rfl
    rw [hat, if_pos (.inr rfl), hstrip, hfront, hpointer]
  · have hjoin : join a.pointerLabels = join front ++ '.' :: join (zoneLabels net k) := by
      rw [← hfront, join_append hnil h.labelled.ne_nil]
    have hlonger : a.reversePointer ++ ['.'] ≠ join (zoneLabels net k) ++ ['.'] := by
      rw [hpointer, hjoin]
      intro heq
      have hlen := congrArg List.length heq
      simp only [List.length_append, List.length_cons] at hlen
      omega
    have hptr : expectedPtr a (zoneName net k) = join front := by
      have hcount : (join front ++ '.' :: join (zoneLabels net k) ++ ['.']).length -
          ((join (zoneLabels net k) ++ ['.']).length + 1) = (join front).length := by
        simp only [List.length_append, List.length_cons, List.length_nil]
        omega
      rw [expectedPtr, hstrip]
      simp only [if_neg hlonger]
      rw [hpointer, hjoin, hcount, List.append_assoc, List.take_left]
    have hfrontLabelled : Labelled front := by
      obtain ⟨label, hlast⟩ := Option.ne_none_iff_exists'.mp (List.getLast?_eq_none_iff.not.mpr hnil)
      refine ⟨fun text htext => ?_, label, hlast, ?_⟩
      · obtain ⟨d, hd, rfl⟩ := hlabels text htext
        exact labelText_dotless hd
      · obtain ⟨d, -, rfl⟩ := hlabels label (List.mem_of_getLast? hlast)
        exact labelText_ne_nil _ d
    have hnotEmpty : join front ≠ [] := by
      obtain ⟨c, hc, -⟩ := hfrontLabelled.getLast?_join
      intro hempty
      rw [hempty] at hc
      cases hc
    have hnotAt : join front ≠ ['@'] := by
      intro hat
      have hmem : '@' ∈ join front := by rw [hat]; exact List.mem_cons_self
      rcases mem_intercalate hmem with hdot | ⟨label, hlabel, hin⟩
      · exact absurd hdot (by decide)
      · obtain ⟨d, hd, rfl⟩ := hlabels label hlabel
        exact (lowered_labelText hd '@' hin).2 rfl
    rw [hptr, if_neg (not_or.mpr ⟨hnotEmpty, hnotAt⟩), hfrontLabelled.rstrip_join, hstrip, hpointer,
      hjoin]

theorem read_pointer (hlower : AsciiLower lower) (a : Address) :
    (lowerChars lower a.reversePointer).splitOn '.' = a.pointerLabels := by
  have hlowered : ∀ c ∈ a.reversePointer, Lowered c := lowered_join (lowered_pointerLabels a)
  rw [lowerChars_self hlower hlowered, reversePointer_split]

theorem addressOf_value (a : Address) : addressOf a.version (some a.value) = some a := by
  rw [addressOf, Option.bind_some, dif_pos a.inRange]

theorem ptrAddress_expectedPtr (hlower : AsciiLower lower) (h : Aligned net k)
    (ha : covers a (zoneName net k)) :
    ptrAddress lower (expectedPtr a (zoneName net k)) (zoneName net k) = some a := by
  have hlength := pointerLabels_length a
  have hrange := a.inRange
  have htake : a.pointerLabels.take a.version.labelCount =
      (digits a.version a.value).map a.version.labelText := by
    rw [pointerLabels_eq, List.take_left' (by rw [List.length_map, digits_length])]
  have htwo : lastTwo a.pointerLabels = a.version.suffix := lastTwo_append _ a.version
  have hvalue := addressOf_value a
  rw [ptrAddress, owner_eq h ha, read_pointer hlower]
  generalize a.pointerLabels = labels at *
  cases hv : a.version with
  | v4 =>
    rw [hv] at hlength hrange htake htwo hvalue
    rw [if_pos ⟨htwo, hlength⟩, show labels.take 4 = _ from htake, ← List.map_reverse]
    exact (congrArg _ (parse_octets hrange)).trans hvalue
  | v6 =>
    rw [hv] at hlength hrange htake htwo hvalue
    have hother : ¬(lastTwo labels = ["in-addr".toList, "arpa".toList] ∧ labels.length = 6) := by
      rintro ⟨-, hsix⟩
      rw [hlength] at hsix
      cases hsix
    rw [if_neg hother, if_pos ⟨htwo, hlength⟩, show labels.take 32 = _ from htake,
      ← List.map_reverse]
    have hflat := flatten_nibbles (digits .v6 a.value).reverse
    exact (congrArg (fun s => addressOf .v6 (parseIPv6 (colons s))) hflat).trans
      ((congrArg _ (parse_nibbles hrange)).trans hvalue)

/-- The reverse zones of a network: their names are different and none is under another,
each says its piece, each address of the network is under exactly one of them, and there
its PTR's owner name says the address. -/
theorem reverseZones_cover {lower : String → String} (hlower : AsciiLower lower) (net : Net) :
    (computeReverseZoneNames net).Nodup ∧
    (∀ name ∈ computeReverseZoneNames net, ∀ other ∈ computeReverseZoneNames net,
      ¬ '.' :: other <:+ name) ∧
    (computeReverseZoneNames net).map (reverseZoneNetwork lower) =
      (reverseZonePieces net).map (.ok ∘ some) ∧
    (∀ a : Address, net.contains a → ∃! name, name ∈ computeReverseZoneNames net ∧ covers a name) ∧
    (∀ piece ∈ reverseZonePieces net,
      piece.subnetOf net ∨ (net.version = .v4 ∧ 24 < net.prefixlen)) ∧
    (∀ a : Address, net.contains a → ∀ name ∈ computeReverseZoneNames net, covers a name →
      ptrAddress lower (expectedPtr a name) name = some a) := by
  refine ⟨nodup_names net, ?_, ?_, ?_, fun piece hpiece => piece_subnetOf hpiece, ?_⟩
  · rw [computeReverseZoneNames_eq]
    intro name hname other hother
    obtain ⟨c, hc, rfl⟩ := List.mem_map.mp hname
    obtain ⟨c', hc', rfl⟩ := List.mem_map.mp hother
    exact not_suffix hc hc'
  · rw [computeReverseZoneNames_eq, List.map_map]
    apply List.map_congr_left
    intro c hc
    exact reverseZoneNetwork_zoneName hlower hc
  · rw [computeReverseZoneNames_eq]
    intro a ha
    obtain ⟨c, hc, hac⟩ := exists_piece ha
    refine ⟨zoneName c (unitLabels net), ⟨List.mem_map_of_mem hc, ?_⟩, ?_⟩
    · exact ((aligned_of_piece hc).covers_iff a).mpr hac
    · rintro name ⟨hname, hcovers⟩
      obtain ⟨c', hc', rfl⟩ := List.mem_map.mp hname
      rw [piece_unique hc hc' hac (((aligned_of_piece hc').covers_iff a).mp hcovers)]
  · rw [computeReverseZoneNames_eq]
    intro a _ name hname hcovers
    obtain ⟨c, hc, rfl⟩ := List.mem_map.mp hname
    exact ptrAddress_expectedPtr hlower (aligned_of_piece hc) hcovers

def tenSlash12 : Net := .ofValue .v4 (10 * 2 ^ 24) 12

theorem reverseZones_cover_tenSlash12 :
    ∃! name, name ∈ computeReverseZoneNames tenSlash12 ∧
      covers (firstAddress tenSlash12) name :=
  (reverseZones_cover asciiLower_ascii tenSlash12).2.2.2.1 _ (contains_firstAddress _)

/-- As texts, without regard to labels, one name can end another. -/
theorem not_suffixFree_tenSlash12 :
    ¬∀ net : Net, ∀ name ∈ computeReverseZoneNames net, ∀ other ∈ computeReverseZoneNames net,
      name ≠ other → ¬other <:+ name := by
  have helevenOne : "11.10.in-addr.arpa.".toList ∈ computeReverseZoneNames tenSlash12 ∧
      "1.10.in-addr.arpa.".toList ∈ computeReverseZoneNames tenSlash12 ∧
      "11.10.in-addr.arpa.".toList ≠ "1.10.in-addr.arpa.".toList ∧
      "1.10.in-addr.arpa.".toList <:+ "11.10.in-addr.arpa.".toList := by
    decide +kernel
  intro hfree
  obtain ⟨hname, hother, hne, hsuffix⟩ := helevenOne
  exact hfree _ _ hname _ hother hne hsuffix

end SpatiumDdi.Dns.Reverse
