import SpatiumDdi.Lib.Collapse

/-!
Packing networks into free space. Free space is a list of disjoint networks; carving a prefix length
out of one replaces it by the carved network and what `address_exclude` leaves. A list of prefix
lengths fits when, up to every length, the networks asked for are no larger together than the free
networks that short. Carving the largest network asked for keeps that, wherever it is carved, so
taking the largest first always succeeds when any placement exists.
-/

namespace SpatiumDdi.Ipaddress.Net

variable {v : Version} {n o a : Net} {nets pieces occ occ' : List Net} {l : Nat} {ps : List Nat}

/-- The networks are disjoint and make up what `occ` leaves of `n`. -/
structure Parcels (n : Net) (occ nets : List Net) : Prop where
  disjoint : nets.Pairwise fun a b => ¬ a.overlaps b
  free : ∀ a ∈ nets, FreeIn n occ a
  covered : ∀ x, n.hasValue x →
    (∃ o ∈ occ, o.version = n.version ∧ o.hasValue x) ∨ ∃ a ∈ nets, a.hasValue x

theorem parcels_nil_iff : Parcels n [] nets ↔ Tiles n nets := by
  constructor
  · rintro ⟨hdisjoint, hfree, hcovered⟩
    refine ⟨hdisjoint, fun a ha => (hfree a ha).1, fun x hx => ?_⟩
    obtain ⟨a, ha, hax⟩ := (hcovered x hx).resolve_left (by simp)
    exact ⟨a, ha, (hfree a ha).1.1, hax⟩
  · rintro ⟨hdisjoint, hinside, hcovered⟩
    refine ⟨hdisjoint, fun a ha => ⟨hinside a ha, by simp⟩, fun x hx => ?_⟩
    obtain ⟨a, ha, -, hax⟩ := hcovered x hx
    exact Or.inr ⟨a, ha, hax⟩

namespace Parcels

theorem perm (h : Parcels n occ nets) (hperm : nets.Perm pieces) : Parcels n occ pieces where
  disjoint := hperm.pairwise h.disjoint fun hab ho => hab ho.symm
  free := fun a ha => h.free a (hperm.mem_iff.mpr ha)
  covered := fun x hx => (h.covered x hx).imp_right fun ⟨a, ha, hax⟩ =>
    ⟨a, hperm.mem_iff.mp ha, hax⟩

theorem flatMap {f : Net → List Net} (h : Parcels n occ nets)
    (hf : ∀ a ∈ nets, Parcels a occ' (f a)) : Parcels n (occ ++ occ') (nets.flatMap f) := by
  refine ⟨?_, fun c hc => ?_, fun x hx => ?_⟩
  · refine List.pairwise_flatMap.mpr ⟨fun a ha => (hf a ha).disjoint, ?_⟩
    refine h.disjoint.imp_of_mem fun {a b} ha hb hab c hc d hd hcd => hab ?_
    exact (hcd.mono_left ((hf a ha).free c hc).1).mono_right ((hf b hb).free d hd).1
  · obtain ⟨a, ha, hca⟩ := List.mem_flatMap.mp hc
    obtain ⟨hsub, hoff⟩ := (hf a ha).free c hca
    obtain ⟨han, hocc⟩ := h.free a ha
    refine ⟨hsub.trans han, fun o ho => ?_⟩
    rcases List.mem_append.mp ho with ho | ho
    · exact fun hco => hocc o ho (hco.mono_left hsub)
    · exact hoff o ho
  · rcases h.covered x hx with ⟨o, ho, hox⟩ | ⟨a, ha, hax⟩
    · exact Or.inl ⟨o, by simp [ho], hox⟩
    · rcases (hf a ha).covered x hax with ⟨o, ho, hv, hox⟩ | ⟨c, hc, hcx⟩
      · exact Or.inl ⟨o, by simp [ho], hv.trans (h.free a ha).1.1, hox⟩
      · exact Or.inr ⟨c, List.mem_flatMap.mpr ⟨a, ha, hc⟩, hcx⟩

theorem replace (h : Parcels n occ (a :: nets)) (hpieces : Tiles a pieces) :
    Parcels n occ (pieces ++ nets) := by
  obtain ⟨ha, -⟩ := List.pairwise_cons.mp h.disjoint
  have hself : ∀ b, Parcels b [] [b] := fun b => parcels_nil_iff.mpr
    ⟨List.pairwise_singleton _ b, by simpa using subnetOf.refl b, covered_of_mem (by simp)⟩
  have hcut : ∀ b ∈ a :: nets, Parcels b [] (if b = a then pieces else [b]) := by
    intro b _
    split
    case isTrue he => exact he ▸ parcels_nil_iff.mpr hpieces
    case isFalse => exact hself b
  have hrest : nets.flatMap (fun b => if b = a then pieces else [b]) = nets := by
    have hne : ∀ b ∈ nets, (if b = a then pieces else [b]) = [b] := by
      intro b hb
      refine if_neg fun he => ha b hb ?_
      rw [he]
      exact overlaps_self a
    rw [List.flatMap_congr hne, List.flatMap_singleton']
  simpa [hrest] using h.flatMap hcut

end Parcels

theorem tiles_halves (hn : n.prefixlen < n.version.maxPrefixlen) : Tiles n [n.lower, n.upper] :=
  subnets_succ hn ▸ Tiles.subnets (Nat.le_succ _) hn

private theorem tiles_addressExcludeLoop {fuel : Nat} (ho : o.subnetOf n) (hne : o ≠ n)
    (hfuel : o.prefixlen - n.prefixlen = fuel) : Tiles n (o :: addressExcludeLoop fuel n o) := by
  induction fuel generalizing n with
  | zero =>
    have := ho.prefixlen_lt hne
    omega
  | succ fuel ih =>
    have hlt := ho.prefixlen_lt hne
    have hn : n.prefixlen < n.version.maxPrefixlen := by
      have := o.prefixlen_le
      rw [ho.1] at this
      omega
    have hhalves := tiles_halves hn
    unfold addressExcludeLoop
    split
    case isTrue hel => exact hel ▸ hhalves
    split
    case isTrue heu => exact heu ▸ hhalves.perm (List.Perm.swap _ _ _)
    split
    case isTrue hel heu hol =>
      have hrest := ih hol hel (by rw [lower_prefixlen hn]; omega)
      refine (parcels_nil_iff.mp ((parcels_nil_iff.mpr hhalves).replace hrest)).perm ?_
      exact (List.perm_append_singleton _ _).trans (List.Perm.swap _ _ _)
    case isFalse hel heu hol =>
      have hou : o.subnetOf n.upper := (ho.halves hlt).resolve_left hol
      have hrest := ih hou heu (by rw [upper_prefixlen hn]; omega)
      have hswap := hhalves.perm (List.Perm.swap n.upper n.lower [])
      refine (parcels_nil_iff.mp ((parcels_nil_iff.mpr hswap).replace hrest)).perm ?_
      exact (List.perm_append_singleton _ _).trans (List.Perm.swap _ _ _)

theorem tiles_addressExclude (ho : o.subnetOf n) : Tiles n (o :: addressExclude n o) := by
  unfold addressExclude
  split
  case isTrue he =>
    subst he
    exact ⟨List.pairwise_singleton _ o, by simpa using subnetOf.refl o, covered_of_mem (by simp)⟩
  case isFalse hne => exact tiles_addressExcludeLoop ho hne rfl

theorem prefixlen_le_of_mem_addressExclude (ho : o.subnetOf n) {c : Net}
    (hc : c ∈ addressExclude n o) : c.prefixlen ≤ o.prefixlen := by
  obtain ⟨⟨hcn, hco⟩, hmax⟩ := (mem_addressExclude ho).mp hc
  by_contra hlt
  have hlen := supernet_prefixlen c
  have hne : c ≠ n := fun he => by
    have := ho.prefixlen_le
    rw [he] at hlt
    omega
  have hfree : FreeIn n [o] c.supernet := by
    refine ⟨supernet_subnetOf hcn hne, ?_⟩
    simp only [List.mem_singleton, forall_eq]
    intro hover
    have hsub : c.supernet.subnetOf o := hover.subnetOf (by omega)
    exact hco o (by simp) (c.subnetOf_supernet.trans hsub).overlaps
  have heq := hmax c.supernet hfree c.subnetOf_supernet
  rw [heq] at hlen
  omega

theorem parcels_exclude : Parcels n [o] (exclude n o) := by
  unfold exclude
  split
  case isTrue he => exact ⟨List.Pairwise.nil, by simp, fun x hx => Or.inl ⟨o, by simp [he, hx]⟩⟩
  split
  case isTrue ho =>
    have htiles := tiles_addressExclude ho
    obtain ⟨hoff, hrest⟩ := List.pairwise_cons.mp htiles.disjoint
    refine ⟨hrest, fun c hc => ⟨htiles.inside c (by simp [hc]), ?_⟩, fun x hx => ?_⟩
    · simpa using fun hco => hoff c hc hco.symm
    · obtain ⟨a, ha, hv, hax⟩ := htiles.covered x hx
      rcases List.mem_cons.mp ha with rfl | ha
      · exact Or.inl ⟨a, by simp, hv, hax⟩
      · exact Or.inr ⟨a, ha, hax⟩
  split
  case isTrue hno =>
    exact ⟨List.Pairwise.nil, by simp, fun x hx => Or.inl ⟨o, by simp, hno.1.symm, hx.mono hno⟩⟩
  case isFalse hon hno =>
    refine ⟨List.pairwise_singleton _ n, fun c hc => ?_, fun x hx => Or.inr ⟨n, by simp, hx⟩⟩
    rw [List.mem_singleton.mp hc]
    exact ⟨subnetOf.refl n, by simpa using fun ho => ho.nested.elim hno hon⟩

theorem parcels_excludeAll : Parcels n occ (excludeAll n occ) := by
  suffices h : ∀ (rest done working : List Net), Parcels n done working →
      Parcels n (done ++ rest)
        (rest.foldl (fun working o => working.flatMap fun w => exclude w o) working) by
    refine h occ [] [n] (parcels_nil_iff.mpr ⟨?_, ?_, ?_⟩)
    · exact List.pairwise_singleton _ n
    · simpa using subnetOf.refl n
    · exact covered_of_mem (by simp)
  intro rest
  induction rest with
  | nil => simp
  | cons o rest ih =>
    intro done working hworking
    have hnext := ih (done ++ [o]) _ (hworking.flatMap fun w _ => parcels_exclude (o := o))
    simpa using hnext

/-- The size of a network of a version and prefix length. -/
def sizeFor (v : Version) (p : Nat) : Nat := 2 ^ (v.maxPrefixlen - p)

/-- The addresses of the networks whose prefix is `l` at the longest. -/
def room (nets : List Net) (l : Nat) : Nat :=
  ((nets.filter fun a => a.prefixlen ≤ l).map numAddresses).sum

/-- The addresses asked for by the prefix lengths that are `l` at the longest. -/
def demand (v : Version) (ps : List Nat) (l : Nat) : Nat :=
  ((ps.filter (· ≤ l)).map (sizeFor v)).sum

/-- At every length the networks that short have room for what is asked for. -/
def Fits (v : Version) (nets : List Net) (ps : List Nat) : Prop :=
  ∀ l, demand v ps l ≤ room nets l

theorem room_perm (h : nets.Perm pieces) (l : Nat) : room nets l = room pieces l :=
  ((h.filter _).map _).sum_eq

theorem room_append (l : Nat) : room (nets ++ pieces) l = room nets l + room pieces l := by
  simp [room]

theorem room_cons_of_le (h : a.prefixlen ≤ l) :
    room (a :: nets) l = a.numAddresses + room nets l := by
  simp [room, h]

theorem room_of_le (h : ∀ a ∈ nets, a.prefixlen ≤ l) :
    room nets l = (nets.map numAddresses).sum := by
  rw [room, List.filter_eq_self.mpr (by simpa using h)]

theorem demand_cons_of_le {p : Nat} (h : p ≤ l) :
    demand v (p :: ps) l = sizeFor v p + demand v ps l := by
  simp [demand, h]

theorem demand_perm {ps' : List Nat} (h : ps.Perm ps') (l : Nat) : demand v ps l = demand v ps' l :=
  ((h.filter _).map _).sum_eq

theorem demand_of_lt (h : ∀ p ∈ ps, l < p) : demand v ps l = 0 := by
  rw [demand, List.filter_eq_nil_iff.mpr (by simpa using h)]
  rfl

namespace Fits

variable {p : Nat} {ps : List Nat}

theorem exists_le (h : Fits v nets (p :: ps)) : ∃ a ∈ nets, a.prefixlen ≤ p := by
  by_contra hnone
  have hroom : room nets p = 0 := by
    rw [room, List.filter_eq_nil_iff.mpr fun a ha => by simpa using fun hle => hnone ⟨a, ha, hle⟩]
    rfl
  have hpos : 0 < sizeFor v p := Nat.two_pow_pos _
  have hle := h p
  rw [hroom, demand_cons_of_le le_rfl] at hle
  omega

theorem carve (h : Fits v (a :: nets) (p :: ps)) (hps : ∀ q ∈ ps, p ≤ q) (ho : o.subnetOf a)
    (hv : o.version = v) (hp : o.prefixlen = p) : Fits v (addressExclude a o ++ nets) ps := by
  intro l
  rcases Nat.lt_or_ge l p with hlt | hge
  · rw [demand_of_lt fun q hq => lt_of_lt_of_le hlt (hps q hq)]
    exact Nat.zero_le _
  · have hshort : ∀ c ∈ addressExclude a o, c.prefixlen ≤ l := fun c hc => by
      have := prefixlen_le_of_mem_addressExclude ho hc
      omega
    have hle := h l
    have hsum := (tiles_addressExclude ho).sum_eq
    have hsize : o.numAddresses = sizeFor v p := by rw [numAddresses, sizeFor, hv, hp]
    have hap := ho.prefixlen_le
    rw [demand_cons_of_le hge, room_cons_of_le (by omega)] at hle
    rw [List.map_cons, List.sum_cons] at hsum
    rw [room_append, room_of_le hshort]
    omega

end Fits

/-- Disjoint free networks fit into the maximal ones. -/
theorem fits_of_placement {placement : List Net} (hfree : ∀ a ∈ placement, FreeIn n occ a)
    (hdisjoint : placement.Pairwise fun a b => ¬ a.overlaps b) :
    Fits n.version (excludeAll n occ) (placement.map prefixlen) := by
  intro l
  have hversion : ∀ a ∈ placement, a.version = n.version := fun a ha => (hfree a ha).1.1
  have hdemand : demand n.version (placement.map prefixlen) l =
      ((placement.filter fun a => a.prefixlen ≤ l).map numAddresses).sum := by
    rw [demand, List.filter_map, List.map_map]
    refine congrArg List.sum (List.map_congr_left fun a ha => ?_)
    simp only [Function.comp_apply, sizeFor, numAddresses]
    rw [hversion a (List.mem_filter.mp ha).1]
  rw [hdemand, room]
  refine sum_le_of_covered (v := n.version) (fun a ha => hversion a (List.mem_filter.mp ha).1)
    (fun b hb => ?_) (hdisjoint.sublist List.filter_sublist) fun a ha x hx => ?_
  · exact (mem_excludeAll.mp (List.mem_filter.mp hb).1).1.1.1
  · obtain ⟨hmem, hle⟩ := List.mem_filter.mp ha
    obtain ⟨d, hd, had⟩ := (hfree a hmem).exists_maximalFree
    have hdl : d.prefixlen ≤ l := le_trans had.prefixlen_le (by simpa using hle)
    exact ⟨d, List.mem_filter.mpr ⟨mem_excludeAll.mpr hd, by simpa using hdl⟩, had.1.symm,
      hx.mono had⟩

end SpatiumDdi.Ipaddress.Net
