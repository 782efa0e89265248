import Mathlib.Tactic

/-!
IP networks as Python's `ipaddress` builds them: a version, a network address
and a prefix length, with no host bits set. A value carries the proofs that the
prefix fits the version and that the address is aligned to it, so a network
with host bits cannot be built. Everything that follows from the alignment is
here: two networks are disjoint or nested, a network is the disjoint union of
its subnets, and a strictly smaller one lies in one of the two halves.
-/

namespace SpatiumDdi.Ipaddress

inductive Version where
  | v4
  | v6
deriving DecidableEq

def Version.maxPrefixlen : Version → Nat
  | .v4 => 32
  | .v6 => 128

/-- An address: what `ipaddress.ip_address` accepts. -/
@[ext]
structure Address where
  version : Version
  value : Nat
  inRange : value < 2 ^ version.maxPrefixlen
deriving DecidableEq

/-- A network: what `ipaddress.ip_network` returns. -/
structure Net where
  version : Version
  networkAddress : Nat
  prefixlen : Nat
  prefixlen_le : prefixlen ≤ version.maxPrefixlen
  aligned : 2 ^ (version.maxPrefixlen - prefixlen) ∣ networkAddress
  inRange : networkAddress < 2 ^ version.maxPrefixlen
deriving DecidableEq

namespace Net

def numAddresses (n : Net) : Nat := 2 ^ (n.version.maxPrefixlen - n.prefixlen)

def broadcastAddress (n : Net) : Nat := n.networkAddress + n.numAddresses - 1

/-- `x in n`, for an address of the network's own version. -/
def hasValue (n : Net) (x : Nat) : Prop := n.networkAddress ≤ x ∧ x ≤ n.broadcastAddress

/-- `address in n`: false across versions. -/
def contains (n : Net) (a : Address) : Prop := a.version = n.version ∧ n.hasValue a.value

/-- `a.subnet_of(b)`. Python raises `TypeError` across versions, which fails
the caller's request; here the comparison is false. -/
def subnetOf (a b : Net) : Prop :=
  a.version = b.version ∧ b.networkAddress ≤ a.networkAddress ∧
    a.broadcastAddress ≤ b.broadcastAddress

/-- `a.overlaps(b)`, and the `&&` operator of the `cidr` column type. -/
def overlaps (a b : Net) : Prop :=
  a.version = b.version ∧
    (a.hasValue b.networkAddress ∨ a.hasValue b.broadcastAddress ∨
      b.hasValue a.networkAddress ∨ b.hasValue a.broadcastAddress)

instance (n : Net) (x : Nat) : Decidable (n.hasValue x) := inferInstanceAs (Decidable (_ ∧ _))
instance (n : Net) (a : Address) : Decidable (n.contains a) := inferInstanceAs (Decidable (_ ∧ _))
instance (a b : Net) : Decidable (a.subnetOf b) := inferInstanceAs (Decidable (_ ∧ _))
instance (a b : Net) : Decidable (a.overlaps b) := inferInstanceAs (Decidable (_ ∧ _))

theorem numAddresses_pos (n : Net) : 0 < n.numAddresses := Nat.two_pow_pos _

theorem numAddresses_dvd (n : Net) : n.numAddresses ∣ n.networkAddress := n.aligned

variable {a b c : Net}

section

variable (hv : a.version = b.version)
include hv

theorem ext_of_bounds (ha : a.networkAddress = b.networkAddress) (hp : a.prefixlen = b.prefixlen) :
    a = b := by
  cases a
  cases b
  simp_all

/-- Of two networks of one version, the one with the shorter prefix has the
larger size, and that size is a multiple of the other. -/
theorem numAddresses_dvd_of_le (hp : b.prefixlen ≤ a.prefixlen) :
    a.numAddresses ∣ b.numAddresses := by
  unfold numAddresses
  rw [hv]
  exact Nat.pow_dvd_pow 2 (by omega)

theorem numAddresses_lt_of_lt (hp : b.prefixlen < a.prefixlen) :
    a.numAddresses < b.numAddresses := by
  have ha := a.prefixlen_le
  unfold numAddresses
  rw [hv] at ha ⊢
  exact Nat.pow_lt_pow_right (by omega) (by omega)

end

theorem add_le_of_dvd_of_lt {k x y : Nat} (hx : k ∣ x) (hy : k ∣ y) (h : x < y) :
    x + k ≤ y := by
  obtain ⟨i, rfl⟩ := hx
  obtain ⟨j, rfl⟩ := hy
  have hij : i < j := Nat.lt_of_mul_lt_mul_left h
  calc
    k * i + k = k * (i + 1) := by ring
    _ ≤ k * j := Nat.mul_le_mul_left k hij

/-- The numeric form of laminarity: the smaller of two networks lies before,
after or inside the larger one. -/
theorem before_after_inside (hv : a.version = b.version) (hp : b.prefixlen ≤ a.prefixlen) :
    a.networkAddress + a.numAddresses ≤ b.networkAddress ∨
      b.networkAddress + b.numAddresses ≤ a.networkAddress ∨
      (b.networkAddress ≤ a.networkAddress ∧
        a.networkAddress + a.numAddresses ≤ b.networkAddress + b.numAddresses) := by
  have hd := numAddresses_dvd_of_le hv hp
  have hb : a.numAddresses ∣ b.networkAddress := hd.trans b.numAddresses_dvd
  rcases Nat.lt_or_ge a.networkAddress b.networkAddress with h | h
  · exact Or.inl (add_le_of_dvd_of_lt a.numAddresses_dvd hb h)
  · rcases Nat.lt_or_ge a.networkAddress (b.networkAddress + b.numAddresses) with h' | h'
    · exact Or.inr (Or.inr ⟨h, add_le_of_dvd_of_lt a.numAddresses_dvd (hb.add hd) h'⟩)
    · exact Or.inr (Or.inl h')

theorem subnetOf_iff :
    a.subnetOf b ↔ a.version = b.version ∧ b.networkAddress ≤ a.networkAddress ∧
      a.networkAddress + a.numAddresses ≤ b.networkAddress + b.numAddresses := by
  have hb := b.numAddresses_pos
  unfold subnetOf broadcastAddress
  constructor <;> rintro ⟨hv, h₁, h₂⟩ <;> exact ⟨hv, h₁, by omega⟩

theorem overlaps_iff :
    a.overlaps b ↔ a.version = b.version ∧ a.networkAddress < b.networkAddress + b.numAddresses ∧
      b.networkAddress < a.networkAddress + a.numAddresses := by
  have ha := a.numAddresses_pos
  have hb := b.numAddresses_pos
  unfold overlaps hasValue broadcastAddress
  constructor
  · rintro ⟨hv, h⟩
    exact ⟨hv, by omega⟩
  · rintro ⟨hv, h₁, h₂⟩
    exact ⟨hv, by omega⟩

theorem hasValue_iff {n : Net} {x : Nat} :
    n.hasValue x ↔ n.networkAddress ≤ x ∧ x < n.networkAddress + n.numAddresses := by
  have hn := n.numAddresses_pos
  unfold hasValue broadcastAddress
  constructor <;> rintro ⟨h₁, h₂⟩ <;> exact ⟨h₁, by omega⟩

theorem subnetOf.refl (a : Net) : a.subnetOf a := ⟨rfl, le_rfl, le_rfl⟩

theorem subnetOf.trans (hab : a.subnetOf b) (hbc : b.subnetOf c) : a.subnetOf c :=
  ⟨hab.1.trans hbc.1, hbc.2.1.trans hab.2.1, hab.2.2.trans hbc.2.2⟩

theorem subnetOf.prefixlen_le (h : a.subnetOf b) : b.prefixlen ≤ a.prefixlen := by
  obtain ⟨hv, h₁, h₂⟩ := subnetOf_iff.mp h
  by_contra hlt
  have := numAddresses_lt_of_lt hv.symm (by omega : a.prefixlen < b.prefixlen)
  omega

theorem subnetOf.eq_of_prefixlen (h : a.subnetOf b) (hp : a.prefixlen = b.prefixlen) : a = b := by
  obtain ⟨hv, h₁, h₂⟩ := subnetOf_iff.mp h
  have hn : a.numAddresses = b.numAddresses := by unfold numAddresses; rw [hv, hp]
  exact ext_of_bounds hv (by omega) hp

theorem subnetOf.antisymm (hab : a.subnetOf b) (hba : b.subnetOf a) : a = b :=
  hab.eq_of_prefixlen (le_antisymm hba.prefixlen_le hab.prefixlen_le)

theorem subnetOf.overlaps (h : a.subnetOf b) : a.overlaps b := by
  obtain ⟨hv, h₁, h₂⟩ := subnetOf_iff.mp h
  have ha := a.numAddresses_pos
  exact overlaps_iff.mpr ⟨hv, by omega, by omega⟩

@[simp] theorem overlaps_self (a : Net) : a.overlaps a := (subnetOf.refl a).overlaps

section

variable (h : a.overlaps b)
include h

theorem overlaps.symm : b.overlaps a := by
  obtain ⟨hv, h₁, h₂⟩ := overlaps_iff.mp h
  exact overlaps_iff.mpr ⟨hv.symm, h₂, h₁⟩

/-- Laminarity: networks that share an address are nested. -/
theorem overlaps.nested : a.subnetOf b ∨ b.subnetOf a := by
  obtain ⟨hv, h₁, h₂⟩ := overlaps_iff.mp h
  rcases le_total b.prefixlen a.prefixlen with hp | hp
  · rcases before_after_inside hv hp with h' | h' | ⟨h', h''⟩
    · omega
    · omega
    · exact Or.inl (subnetOf_iff.mpr ⟨hv, h', h''⟩)
  · rcases before_after_inside hv.symm hp with h' | h' | ⟨h', h''⟩
    · omega
    · omega
    · exact Or.inr (subnetOf_iff.mpr ⟨hv.symm, h', h''⟩)

theorem overlaps.subnetOf (hp : b.prefixlen ≤ a.prefixlen) : a.subnetOf b := by
  rcases h.nested with h' | h'
  · exact h'
  · have he := h'.eq_of_prefixlen (le_antisymm hp h'.prefixlen_le)
    rw [he]
    exact subnetOf.refl a

theorem overlaps.mono_left {a' : Net} (ha : a.subnetOf a') : a'.overlaps b := by
  obtain ⟨hv, h₁, h₂⟩ := overlaps_iff.mp h
  obtain ⟨hv', h₃, h₄⟩ := subnetOf_iff.mp ha
  exact overlaps_iff.mpr ⟨hv'.symm.trans hv, by omega, by omega⟩

theorem overlaps.mono_right {b' : Net} (hb : b.subnetOf b') :
    a.overlaps b' := (h.symm.mono_left hb).symm

end

theorem overlaps_of_common (ha : c.subnetOf a) (hb : c.subnetOf b) : a.overlaps b :=
  (ha.overlaps.symm).mono_right hb

end Net

end SpatiumDdi.Ipaddress
