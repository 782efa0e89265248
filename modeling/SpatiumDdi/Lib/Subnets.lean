import SpatiumDdi.Lib.Ipaddress

/-!
Networks built from an address and a prefix length, the aligned subnets of a
network, its two halves, and `address_exclude`. The result of excluding any
number of networks from a block is characterised without the loop: it is the
set of maximal networks of the block that meet none of them.
-/

namespace SpatiumDdi.Ipaddress.Net

/-- `ip_network((x, p), strict=False)`: the network of prefix `p` that holds
`x`. Out of range arguments are cut to the version. -/
def ofValue (v : Version) (x p : Nat) : Net where
  version := v
  networkAddress := x % 2 ^ v.maxPrefixlen / 2 ^ (v.maxPrefixlen - min p v.maxPrefixlen) *
    2 ^ (v.maxPrefixlen - min p v.maxPrefixlen)
  prefixlen := min p v.maxPrefixlen
  prefixlen_le := Nat.min_le_right _ _
  aligned := Nat.dvd_mul_left _ _
  inRange := lt_of_le_of_lt (Nat.div_mul_le_self _ _) (Nat.mod_lt _ (Nat.two_pow_pos _))

@[simp] theorem ofValue_version (v : Version) (x p : Nat) : (ofValue v x p).version = v := rfl

variable {v : Version} {p k : Nat}

theorem ofValue_prefixlen (x : Nat) (hp : p ≤ v.maxPrefixlen) :
    (ofValue v x p).prefixlen = p := Nat.min_eq_left hp

theorem ofValue_numAddresses (x : Nat) (hp : p ≤ v.maxPrefixlen) :
    (ofValue v x p).numAddresses = 2 ^ (v.maxPrefixlen - p) := by
  unfold numAddresses
  rw [ofValue_prefixlen x hp, ofValue_version]

variable {x : Nat}

theorem ofValue_hasValue (p : Nat) (hx : x < 2 ^ v.maxPrefixlen) : (ofValue v x p).hasValue x := by
  rw [hasValue_iff]
  show x % _ / _ * _ ≤ x ∧ x < x % _ / _ * _ + 2 ^ (v.maxPrefixlen - min p v.maxPrefixlen)
  rw [Nat.mod_eq_of_lt hx]
  refine ⟨Nat.div_mul_le_self _ _, ?_⟩
  exact Nat.lt_div_mul_add (Nat.two_pow_pos _)

variable {a b n : Net}

theorem eq_of_hasValue (hv : a.version = b.version) (hp : a.prefixlen = b.prefixlen)
    (ha : a.hasValue x) (hb : b.hasValue x) : a = b := by
  rw [hasValue_iff] at ha hb
  have ho : a.overlaps b := overlaps_iff.mpr ⟨hv, by omega, by omega⟩
  exact (ho.subnetOf hp.ge).eq_of_prefixlen hp

theorem hasValue_networkAddress (n : Net) : n.hasValue n.networkAddress := by
  have := n.numAddresses_pos
  exact hasValue_iff.mpr ⟨le_rfl, by omega⟩

theorem end_le (n : Net) : n.networkAddress + n.numAddresses ≤ 2 ^ n.version.maxPrefixlen := by
  have hd : n.numAddresses ∣ 2 ^ n.version.maxPrefixlen :=
    Nat.pow_dvd_pow 2 (Nat.sub_le _ _)
  exact add_le_of_dvd_of_lt n.numAddresses_dvd hd n.inRange

theorem ofValue_networkAddress (hp : p ≤ v.maxPrefixlen) (hx : x < 2 ^ v.maxPrefixlen)
    (hd : 2 ^ (v.maxPrefixlen - p) ∣ x) : (ofValue v x p).networkAddress = x := by
  show x % _ / 2 ^ (v.maxPrefixlen - min p v.maxPrefixlen) * _ = x
  rw [Nat.mod_eq_of_lt hx, Nat.min_eq_left hp]
  exact Nat.div_mul_cancel hd

theorem ofValue_self (n : Net) : ofValue n.version n.networkAddress n.prefixlen = n :=
  eq_of_hasValue rfl (ofValue_prefixlen _ n.prefixlen_le) (ofValue_hasValue _ n.inRange)
    n.hasValue_networkAddress

theorem hasValue.overlaps (ha : a.hasValue x) (hb : b.hasValue x) (hv : a.version = b.version) :
    a.overlaps b := by
  rw [hasValue_iff] at ha hb
  exact overlaps_iff.mpr ⟨hv, by omega, by omega⟩

theorem hasValue.mono (ha : a.hasValue x) (h : a.subnetOf b) : b.hasValue x := by
  rw [hasValue_iff] at ha ⊢
  obtain ⟨-, h₁, h₂⟩ := subnetOf_iff.mp h
  omega

theorem overlaps.exists_hasValue (h : a.overlaps b) : ∃ x, a.hasValue x ∧ b.hasValue x := by
  rcases h.nested with h' | h'
  · exact ⟨a.networkAddress, a.hasValue_networkAddress, a.hasValue_networkAddress.mono h'⟩
  · exact ⟨b.networkAddress, b.hasValue_networkAddress.mono h', b.hasValue_networkAddress⟩

/-- `network_address + k`, cut to the version. -/
def nth (n : Net) (k : Nat) : Address where
  version := n.version
  value := (n.networkAddress + k) % 2 ^ n.version.maxPrefixlen
  inRange := Nat.mod_lt _ (Nat.two_pow_pos _)

theorem nth_value (hk : k < n.numAddresses) : (n.nth k).value = n.networkAddress + k :=
  Nat.mod_eq_of_lt (Nat.lt_of_lt_of_le (Nat.add_lt_add_left hk _) n.end_le)

theorem contains_nth (hk : k < n.numAddresses) : n.contains (n.nth k) := by
  refine ⟨rfl, hasValue_iff.mpr ?_⟩
  rw [nth_value hk]
  omega

def subnets (n : Net) (p : Nat) : List Net :=
  (List.range (2 ^ (p - n.prefixlen))).map
    fun i => ofValue n.version (n.networkAddress + i * 2 ^ (n.version.maxPrefixlen - p)) p

section Subnets

variable {n : Net} {p i : Nat} (hn : n.prefixlen ≤ p) (hp : p ≤ n.version.maxPrefixlen)
include hn hp

theorem numAddresses_eq_mul :
    n.numAddresses = 2 ^ (p - n.prefixlen) * 2 ^ (n.version.maxPrefixlen - p) := by
  unfold numAddresses
  rw [← pow_add]
  congr 1
  omega

private theorem slot_bound (hi : i < 2 ^ (p - n.prefixlen)) :
    i * 2 ^ (n.version.maxPrefixlen - p) + 2 ^ (n.version.maxPrefixlen - p) ≤ n.numAddresses := by
  rw [numAddresses_eq_mul hn hp, ← Nat.succ_mul]
  exact Nat.mul_le_mul_right _ hi

private theorem slot_networkAddress (hi : i < 2 ^ (p - n.prefixlen)) :
    (ofValue n.version (n.networkAddress + i * 2 ^ (n.version.maxPrefixlen - p)) p).networkAddress =
      n.networkAddress + i * 2 ^ (n.version.maxPrefixlen - p) := by
  have hb := slot_bound hn hp hi
  have hpos := Nat.two_pow_pos (n.version.maxPrefixlen - p)
  have he := n.end_le
  refine ofValue_networkAddress hp (by omega) ?_
  refine Nat.dvd_add ?_ (Nat.dvd_mul_left _ _)
  exact (Nat.pow_dvd_pow 2 (by omega)).trans n.numAddresses_dvd

theorem mem_subnets {c : Net} : c ∈ n.subnets p ↔ c.subnetOf n ∧ c.prefixlen = p := by
  have hpos := Nat.two_pow_pos (n.version.maxPrefixlen - p)
  simp only [subnets, List.mem_map, List.mem_range]
  constructor
  · rintro ⟨i, hi, rfl⟩
    have hb := slot_bound hn hp hi
    refine ⟨subnetOf_iff.mpr ⟨rfl, ?_, ?_⟩, ofValue_prefixlen _ hp⟩
    · rw [slot_networkAddress hn hp hi]
      omega
    · rw [slot_networkAddress hn hp hi, ofValue_numAddresses _ hp]
      omega
  · rintro ⟨hc, rfl⟩
    obtain ⟨hv, h₁, h₂⟩ := subnetOf_iff.mp hc
    have hsize : c.numAddresses = 2 ^ (n.version.maxPrefixlen - c.prefixlen) := by
      unfold numAddresses; rw [hv]
    obtain ⟨j, hj⟩ : c.numAddresses ∣ c.networkAddress - n.networkAddress :=
      Nat.dvd_sub c.numAddresses_dvd
        ((numAddresses_dvd_of_le hv hn).trans n.numAddresses_dvd)
    have haddr : c.networkAddress =
        n.networkAddress + j * 2 ^ (n.version.maxPrefixlen - c.prefixlen) := by
      rw [← hsize, mul_comm]
      omega
    have hlt : j < 2 ^ (c.prefixlen - n.prefixlen) := by
      have hm := numAddresses_eq_mul hn hp
      rw [← hsize] at hm haddr hpos
      have : j * c.numAddresses < 2 ^ (c.prefixlen - n.prefixlen) * c.numAddresses := by omega
      exact Nat.lt_of_mul_lt_mul_right this
    refine ⟨j, hlt, ?_⟩
    rw [← haddr, ← hv]
    exact ofValue_self c

theorem subnets_sorted :
    (n.subnets p).Pairwise fun a b => a.networkAddress < b.networkAddress := by
  have hpos := Nat.two_pow_pos (n.version.maxPrefixlen - p)
  refine List.pairwise_map.mpr ?_
  refine (List.pairwise_lt_range (n := 2 ^ (p - n.prefixlen))).imp_of_mem ?_
  intro i j hi hj hij
  rw [slot_networkAddress hn hp (List.mem_range.mp hi),
    slot_networkAddress hn hp (List.mem_range.mp hj)]
  exact Nat.add_lt_add_left (Nat.mul_lt_mul_of_pos_right hij hpos) _

omit hn hp in
theorem subnets_length : (n.subnets p).length = 2 ^ (p - n.prefixlen) := by
  simp [subnets]

omit hn hp in
theorem eq_of_overlaps_of_prefixlen (h : a.overlaps b) (hab : a.prefixlen = b.prefixlen) : a = b :=
  (h.subnetOf hab.ge).eq_of_prefixlen hab

omit hn hp in
theorem subnets_head : ∃ rest, n.subnets p = ofValue n.version n.networkAddress p :: rest := by
  have hpos := Nat.two_pow_pos (p - n.prefixlen)
  obtain ⟨k, hk⟩ : ∃ k, 2 ^ (p - n.prefixlen) = k + 1 := ⟨_, (Nat.succ_pred_eq_of_pos hpos).symm⟩
  refine ⟨?_, ?_⟩
  · exact ((List.range k).map (· + 1)).map
      fun i => ofValue n.version (n.networkAddress + i * 2 ^ (n.version.maxPrefixlen - p)) p
  · simp [subnets, hk, List.range_succ_eq_map]

end Subnets

def lower (n : Net) : Net := ofValue n.version n.networkAddress (n.prefixlen + 1)

def upper (n : Net) : Net :=
  ofValue n.version (n.networkAddress + n.numAddresses / 2) (n.prefixlen + 1)

section Halves

variable {n : Net} (hn : n.prefixlen < n.version.maxPrefixlen)
include hn

theorem subnets_succ : n.subnets (n.prefixlen + 1) = [n.lower, n.upper] := by
  have hhalf : n.numAddresses / 2 = 2 ^ (n.version.maxPrefixlen - (n.prefixlen + 1)) := by
    rw [numAddresses_eq_mul (p := n.prefixlen + 1) (by omega) hn]
    simp
  simp [subnets, lower, upper, hhalf, List.range_succ_eq_map]

theorem mem_halves {c : Net} :
    (c = n.lower ∨ c = n.upper) ↔ c.subnetOf n ∧ c.prefixlen = n.prefixlen + 1 := by
  rw [← mem_subnets (by omega) hn, subnets_succ hn]
  simp

theorem lower_subnetOf : n.lower.subnetOf n := ((mem_halves hn).mp (Or.inl rfl)).1

theorem upper_subnetOf : n.upper.subnetOf n := ((mem_halves hn).mp (Or.inr rfl)).1

theorem lower_prefixlen : n.lower.prefixlen = n.prefixlen + 1 :=
  ((mem_halves hn).mp (Or.inl rfl)).2

theorem upper_prefixlen : n.upper.prefixlen = n.prefixlen + 1 :=
  ((mem_halves hn).mp (Or.inr rfl)).2

theorem halves_disjoint : ¬ n.lower.overlaps n.upper := by
  have hs := subnets_sorted (n := n) (p := n.prefixlen + 1) (by omega) hn
  rw [subnets_succ hn] at hs
  have hlt : n.lower.networkAddress < n.upper.networkAddress := by simpa using hs
  intro h
  have := eq_of_overlaps_of_prefixlen h ((lower_prefixlen hn).trans (upper_prefixlen hn).symm)
  rw [this] at hlt
  exact lt_irrefl _ hlt

omit hn in
theorem subnetOf.halves {c n : Net} (hc : c.subnetOf n) (hlt : n.prefixlen < c.prefixlen) :
    c.subnetOf n.lower ∨ c.subnetOf n.upper := by
  have hp : n.prefixlen + 1 ≤ c.version.maxPrefixlen := by
    have := c.prefixlen_le
    omega
  have hn : n.prefixlen < n.version.maxPrefixlen := by
    rw [← hc.1]
    exact hp
  let half := ofValue c.version c.networkAddress (n.prefixlen + 1)
  have hval : half.hasValue c.networkAddress := ofValue_hasValue _ c.inRange
  have hlen : half.prefixlen = n.prefixlen + 1 := ofValue_prefixlen _ hp
  have hch : c.subnetOf half :=
    (c.hasValue_networkAddress.overlaps hval rfl).subnetOf (by omega)
  have hhn : half.subnetOf n :=
    (hval.overlaps (c.hasValue_networkAddress.mono hc) hc.1).subnetOf (by omega)
  rcases (mem_halves hn).mpr ⟨hhn, hlen⟩ with h | h
  · exact Or.inl (h ▸ hch)
  · exact Or.inr (h ▸ hch)

end Halves

variable {n : Net} {parts : List (Net × Finset Address)}

def addresses (n : Net) : Finset Address := (Finset.range n.numAddresses).image n.nth

theorem nth_injOn (n : Net) : Set.InjOn n.nth (Finset.range n.numAddresses) := by
  intro i hi j hj hij
  have hvalue := congrArg Address.value hij
  rw [nth_value (Finset.mem_range.mp hi), nth_value (Finset.mem_range.mp hj)] at hvalue
  exact Nat.add_left_cancel hvalue

@[simp] theorem card_addresses (n : Net) : n.addresses.card = n.numAddresses := by
  rw [addresses, Finset.card_image_of_injOn n.nth_injOn, Finset.card_range]

@[simp] theorem mem_addresses {a : Address} : a ∈ n.addresses ↔ n.contains a := by
  simp only [addresses, Finset.mem_image, Finset.mem_range]
  constructor
  · rintro ⟨k, hk, rfl⟩
    exact contains_nth hk
  · rintro ⟨hversion, hvalue⟩
    obtain ⟨hlo, hhi⟩ := hasValue_iff.mp hvalue
    have hk : a.value - n.networkAddress < n.numAddresses := by omega
    refine ⟨a.value - n.networkAddress, hk, Address.ext hversion.symm ?_⟩
    rw [nth_value hk]
    omega

theorem addresses_subset (h : a.subnetOf b) : a.addresses ⊆ b.addresses := by
  intro x hx
  obtain ⟨hversion, hvalue⟩ := mem_addresses.mp hx
  exact mem_addresses.mpr ⟨hversion.trans h.1, hvalue.mono h⟩

theorem disjoint_addresses (h : ¬ a.overlaps b) : Disjoint a.addresses b.addresses := by
  rw [Finset.disjoint_left]
  intro x ha hb
  obtain ⟨hva, hxa⟩ := mem_addresses.mp ha
  obtain ⟨hvb, hxb⟩ := mem_addresses.mp hb
  obtain ⟨hloa, hhia⟩ := hasValue_iff.mp hxa
  obtain ⟨hlob, hhib⟩ := hasValue_iff.mp hxb
  exact h (overlaps_iff.mpr ⟨hva.symm.trans hvb, by omega, by omega⟩)

def together (parts : List (Net × Finset Address)) : Finset Address :=
  parts.foldr (fun part s => part.2 ∪ s) ∅

theorem mem_together {x : Address} : x ∈ together parts ↔ ∃ part ∈ parts, x ∈ part.2 := by
  induction parts with
  | nil => simp [together]
  | cons part rest ih =>
    rw [together, List.foldr_cons, Finset.mem_union, ← together, ih]
    simp

section

variable (hin : ∀ part ∈ parts, part.2 ⊆ part.1.addresses)
include hin

theorem card_together (hapart : parts.Pairwise fun a b => ¬ a.1.overlaps b.1) :
    (together parts).card = (parts.map fun part => part.2.card).sum := by
  induction parts with
  | nil => rfl
  | cons part rest ih =>
    obtain ⟨hhead, hrest⟩ := List.pairwise_cons.mp hapart
    have hdisjoint : Disjoint part.2 (together rest) := by
      rw [Finset.disjoint_left]
      intro x hx hx'
      obtain ⟨other, hother, hx'⟩ := mem_together.mp hx'
      have hxn := hin part List.mem_cons_self hx
      have hxo := hin other (List.mem_cons_of_mem _ hother) hx'
      exact Finset.disjoint_left.mp (disjoint_addresses (hhead other hother)) hxn hxo
    rw [together, List.foldr_cons, ← together, Finset.card_union_of_disjoint hdisjoint,
      ih (fun p hp => hin p (List.mem_cons_of_mem _ hp)) hrest, List.map_cons, List.sum_cons]

theorem together_subset (hinside : ∀ part ∈ parts, part.1.subnetOf n) :
    together parts ⊆ n.addresses := by
  intro x hx
  obtain ⟨part, hpart, hx⟩ := mem_together.mp hx
  exact addresses_subset (hinside part hpart) (hin part hpart hx)

section

variable (hapart : parts.Pairwise fun a b => ¬ a.1.overlaps b.1)
include hapart

section

variable (hinside : ∀ part ∈ parts, part.1.subnetOf n)
include hinside

theorem sum_card_le : (parts.map fun part => part.2.card).sum ≤ n.numAddresses := by
  rw [← card_together hin hapart, ← card_addresses]
  exact Finset.card_le_card (together_subset hin hinside)

theorem sum_card_eq (hfull : ∀ x, n.contains x → ∃ part ∈ parts, x ∈ part.2) :
    (parts.map fun part => part.2.card).sum = n.numAddresses := by
  refine Nat.le_antisymm (sum_card_le hin hapart hinside) ?_
  rw [← card_together hin hapart, ← card_addresses]
  exact Finset.card_le_card fun x hx => mem_together.mpr (hfull x (mem_addresses.mp hx))

end

end

end

end SpatiumDdi.Ipaddress.Net
