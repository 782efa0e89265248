import SpatiumDdi.Lib.Exclude

/-!
`collapse_addresses` for networks of one version: the worklist loop with its
table of half-merged supernets, and the final sweep that drops what an earlier
network contains. Whatever comes out is covered by the input, and a network cut
into subnets of one size collapses back to itself.
-/

namespace SpatiumDdi.Ipaddress.Net

/-- `n.supernet()`; the network itself at prefix length zero. -/
def supernet (n : Net) : Net := ofValue n.version n.networkAddress (n.prefixlen - 1)

/-- The loop's worklist, its end first, and its dictionary, which maps a
supernet to the half that waits for the other. -/
structure MergeState where
  toMerge : List Net
  subnets : List (Net × Net)

/-- One turn of the loop on the popped network. -/
def mergeStep (net : Net) (rest : List Net) (subnets : List (Net × Net)) : MergeState :=
  match subnets.lookup net.supernet with
  | none => ⟨rest, (net.supernet, net) :: subnets⟩
  | some existing =>
    if existing ≠ net then
      ⟨net.supernet :: rest, subnets.filter fun e => e.1 ≠ net.supernet⟩
    else ⟨rest, subnets⟩

def mergeLoop : Nat → MergeState → MergeState
  | 0, s => s
  | fuel + 1, s =>
    match s.toMerge with
    | [] => s
    | net :: rest => mergeLoop fuel (mergeStep net rest s.subnets)

/-- Drops the networks that the last one kept contains. -/
def skipSubsumed : Option Net → List Net → List Net
  | _, [] => []
  | none, net :: rest => net :: skipSubsumed (some net) rest
  | some last, net :: rest =>
    if net.broadcastAddress ≤ last.broadcastAddress then skipSubsumed (some last) rest
    else net :: skipSubsumed (some net) rest

def collapseAddresses (nets : List Net) : List Net :=
  skipSubsumed none
    (((mergeLoop (2 * nets.length) ⟨nets.reverse, []⟩).subnets.map Prod.snd).insertionSort
      fun a b => a.networkAddress < b.networkAddress ∨
        a.networkAddress = b.networkAddress ∧ a.prefixlen ≤ b.prefixlen)

@[simp] theorem supernet_version (n : Net) : n.supernet.version = n.version := rfl

theorem supernet_prefixlen (n : Net) : n.supernet.prefixlen = n.prefixlen - 1 :=
  ofValue_prefixlen _ ((Nat.sub_le _ _).trans n.prefixlen_le)

theorem subnetOf_supernet (n : Net) : n.subnetOf n.supernet := by
  have hval : n.supernet.hasValue n.networkAddress := ofValue_hasValue _ n.inRange
  refine (n.hasValue_networkAddress.overlaps hval rfl).subnetOf ?_
  rw [supernet_prefixlen]
  omega

variable {n a b net : Net} {x fuel : Nat}

theorem supernet_of_prefixlen_zero (h : n.prefixlen = 0) : n.supernet = n :=
  (n.subnetOf_supernet.eq_of_prefixlen (by rw [supernet_prefixlen]; omega)).symm

theorem supernet_subnetOf {d : Net} (h : n.subnetOf d) (hne : n ≠ d) : n.supernet.subnetOf d := by
  have hlt := h.prefixlen_lt hne
  refine overlaps.subnetOf ?_ (by rw [supernet_prefixlen]; omega)
  exact overlaps_of_common n.subnetOf_supernet h

theorem hasValue_supernet (h : a.supernet = b.supernet) (hne : a ≠ b) (ha : a.prefixlen ≠ 0)
    (hb : b.prefixlen ≠ 0) : a.supernet.hasValue x ↔ a.hasValue x ∨ b.hasValue x := by
  have hlen := congrArg Net.prefixlen h
  rw [supernet_prefixlen, supernet_prefixlen] at hlen
  have hlt : a.supernet.prefixlen < a.supernet.version.maxPrefixlen := by
    have := a.prefixlen_le
    rw [supernet_prefixlen, supernet_version]
    omega
  have hma := (mem_halves hlt).mpr
    ⟨a.subnetOf_supernet, by rw [supernet_prefixlen]; omega⟩
  have hmb := (mem_halves hlt).mpr
    ⟨h ▸ b.subnetOf_supernet, by rw [supernet_prefixlen]; omega⟩
  have hcover : a.supernet.hasValue x → a.supernet.lower.hasValue x ∨ a.supernet.upper.hasValue x := by
    intro hx
    have hxr : x < 2 ^ a.supernet.version.maxPrefixlen :=
      lt_of_lt_of_le (hasValue_iff.mp hx).2 a.supernet.end_le
    let host := ofValue a.supernet.version x a.supernet.version.maxPrefixlen
    have hhost : host.hasValue x := ofValue_hasValue _ hxr
    have hlenh : host.prefixlen = a.supernet.version.maxPrefixlen := ofValue_prefixlen _ le_rfl
    have hsub : host.subnetOf a.supernet := (hhost.overlaps hx rfl).subnetOf (by omega)
    exact (hsub.halves (by omega)).imp hhost.mono hhost.mono
  constructor
  · intro hx
    rcases hma with ha' | ha' <;> rcases hmb with hb' | hb'
    · exact absurd (ha'.trans hb'.symm) hne
    · rw [ha', hb']
      exact hcover hx
    · rw [ha', hb']
      exact (hcover hx).symm
    · exact absurd (ha'.trans hb'.symm) hne
  · rintro (hx | hx)
    · exact hx.mono a.subnetOf_supernet
    · exact hx.mono (h ▸ b.subnetOf_supernet)

/-- Every address of `n` is in one of the networks. -/
def Covered (nets : List Net) (n : Net) : Prop :=
  ∀ x, n.hasValue x → ∃ m ∈ nets, m.version = n.version ∧ m.hasValue x

variable {nets l rest : List Net} {α β : Type}

theorem covered_of_mem (h : n ∈ nets) : Covered nets n :=
  fun _ hx => ⟨n, h, rfl, hx⟩

theorem Covered.exists_overlaps {c : Net} (h : Covered nets n) (ho : c.overlaps n) :
    ∃ m ∈ nets, c.overlaps m := by
  obtain ⟨x, hc, hn⟩ := ho.exists_hasValue
  obtain ⟨m, hm, hv, hx⟩ := h x hn
  exact ⟨m, hm, hc.overlaps hx (ho.1.trans hv.symm)⟩

theorem Covered.subnetOf {q : Net} (h : Covered nets n) (hq : ∀ m ∈ nets, m.subnetOf q) :
    n.subnetOf q := by
  have hend : n.hasValue (n.networkAddress + n.numAddresses - 1) := by
    have := n.numAddresses_pos
    exact hasValue_iff.mpr ⟨by omega, by omega⟩
  obtain ⟨a, ha, hav, hax⟩ := h _ n.hasValue_networkAddress
  obtain ⟨b, hb, -, hbx⟩ := h _ hend
  have hlo := hasValue_iff.mp (hax.mono (hq a ha))
  have hhi := hasValue_iff.mp (hbx.mono (hq b hb))
  exact subnetOf_iff.mpr ⟨hav.symm.trans (hq a ha).1, hlo.1, by omega⟩

def Waiting (subnets : List (Net × Net)) : Prop :=
  ∀ e ∈ subnets, e.1 = e.2.supernet

theorem Waiting.cons {subnets : List (Net × Net)} (h : Waiting subnets) (net : Net) :
    Waiting ((net.supernet, net) :: subnets) := by
  intro e he
  rcases List.mem_cons.mp he with rfl | he
  · rfl
  · exact h e he

theorem Waiting.filter {subnets : List (Net × Net)} (h : Waiting subnets) (p : Net × Net → Bool) :
    Waiting (subnets.filter p) :=
  fun e he => h e (List.mem_of_mem_filter he)

theorem nodup_keys_cons_of_lookup_eq_none [BEq α] [LawfulBEq α] {l : List (α × β)} {a : α}
    (hkeys : (l.map Prod.fst).Nodup) (h : l.lookup a = none) (b : β) :
    (((a, b) :: l).map Prod.fst).Nodup := by
  refine List.nodup_cons.mpr ⟨fun hmem => ?_, hkeys⟩
  obtain ⟨e, he, hek⟩ := List.mem_map.mp hmem
  have hnone := List.lookup_eq_none_iff.mp h e he
  simp [hek] at hnone

theorem mem_of_lookup [BEq α] [LawfulBEq α] {l : List (α × β)} {a : α} {b : β}
    (h : l.lookup a = some b) : (a, b) ∈ l := by
  induction l with
  | nil => simp at h
  | cons e l ih =>
    obtain ⟨a', b'⟩ := e
    rw [List.lookup_cons] at h
    split at h
    · rename_i he
      rw [beq_iff_eq] at he
      simp_all
    · exact List.mem_cons_of_mem _ (ih h)

section Covering

variable {nets : List Net}

private theorem covered_supernet {a b : Net} (h : a.supernet = b.supernet) (hne : a ≠ b)
    (ha : Covered nets a) (hb : Covered nets b) : Covered nets a.supernet := by
  by_cases ha0 : a.prefixlen = 0
  · rwa [supernet_of_prefixlen_zero ha0]
  by_cases hb0 : b.prefixlen = 0
  · rwa [h, supernet_of_prefixlen_zero hb0]
  have hv : a.version = b.version := by
    have := congrArg Net.version h
    rwa [supernet_version, supernet_version] at this
  intro x hx
  rcases (hasValue_supernet h hne ha0 hb0).mp hx with hx | hx
  · exact ha x hx
  · obtain ⟨m, hm, hmv, hmx⟩ := hb x hx
    exact ⟨m, hm, hmv.trans hv.symm, hmx⟩

private theorem covered_mergeLoop {fuel : Nat} {s : MergeState}
    (hwork : ∀ n ∈ s.toMerge, Covered nets n) (hwait : Waiting s.subnets)
    (hdict : ∀ e ∈ s.subnets, Covered nets e.2) :
    ∀ e ∈ (mergeLoop fuel s).subnets, Covered nets e.2 := by
  induction fuel generalizing s with
  | zero => exact hdict
  | succ fuel ih =>
    obtain ⟨toMerge, subnets⟩ := s
    cases toMerge with
    | nil => exact hdict
    | cons net rest =>
      have hnet := hwork net (by simp)
      have hrest : ∀ n ∈ rest, Covered nets n := fun n hn => hwork n (by simp [hn])
      simp only [mergeLoop, mergeStep]
      split
      · refine ih hrest (hwait.cons net) fun e he => ?_
        rcases List.mem_cons.mp he with rfl | he
        · exact hnet
        · exact hdict e he
      · rename_i existing hlookup
        have hmem := mem_of_lookup hlookup
        split
        · rename_i hne
          refine ih ?_ (hwait.filter _) (fun e he => hdict e (List.mem_of_mem_filter he))
          intro n hn
          rcases List.mem_cons.mp hn with rfl | hn
          · exact covered_supernet (hwait _ hmem) (Ne.symm hne) hnet (hdict _ hmem)
          · exact hrest n hn
        · exact ih hrest hwait hdict

end Covering

theorem mem_skipSubsumed {last : Option Net} (h : n ∈ skipSubsumed last l) : n ∈ l := by
  induction l generalizing last with
  | nil => cases last <;> simp [skipSubsumed] at h
  | cons a l ih =>
    cases last with
    | none =>
      rcases List.mem_cons.mp h with rfl | h
      · simp
      · exact List.mem_cons_of_mem _ (ih h)
    | some last =>
      unfold skipSubsumed at h
      split at h
      · exact List.mem_cons_of_mem _ (ih h)
      · rcases List.mem_cons.mp h with rfl | h
        · simp
        · exact List.mem_cons_of_mem _ (ih h)

theorem covered_collapseAddresses (h : n ∈ collapseAddresses nets) : Covered nets n := by
  have hs := mem_skipSubsumed h
  rw [List.mem_insertionSort] at hs
  obtain ⟨e, he, rfl⟩ := List.mem_map.mp hs
  exact covered_mergeLoop (fun n hn => covered_of_mem (List.mem_reverse.mp hn)) (by simp [Waiting])
    (by simp) e he

/-- The networks are disjoint and make up `n`. -/
structure Tiles (n : Net) (nets : List Net) : Prop where
  disjoint : nets.Pairwise fun a b => ¬ a.overlaps b
  inside : ∀ a ∈ nets, a.subnetOf n
  covered : Covered nets n

namespace Tiles

variable {n : Net} {nets nets' : List Net}

theorem perm (h : Tiles n nets) (hperm : nets.Perm nets') : Tiles n nets' where
  disjoint := hperm.pairwise h.disjoint fun hab ho => hab ho.symm
  inside := fun a ha => h.inside a (hperm.mem_iff.mpr ha)
  covered := fun x hx => by
    obtain ⟨m, hm, hv, hmx⟩ := h.covered x hx
    exact ⟨m, hperm.mem_iff.mp hm, hv, hmx⟩

theorem eq_of_overlaps (h : Tiles n nets) (ha : a ∈ nets) (hb : b ∈ nets) (ho : a.overlaps b) :
    a = b := by
  by_contra hne
  have : Std.Symm fun a b : Net => ¬ a.overlaps b := ⟨fun _ _ hab ho => hab ho.symm⟩
  exact h.disjoint.forall ha hb hne ho

theorem prefixlen_ne_zero (hsup : a.supernet = b.supernet) (ho : ¬ a.overlaps b) :
    a.prefixlen ≠ 0 := by
  intro ha
  rw [supernet_of_prefixlen_zero ha] at hsup
  exact ho (hsup ▸ b.subnetOf_supernet.overlaps.symm)

theorem merge (h : Tiles n (a :: b :: nets)) (hsup : a.supernet = b.supernet) :
    Tiles n (a.supernet :: nets) := by
  obtain ⟨hdisjoint, hinside, hcovered⟩ := h
  obtain ⟨ha, hb, hrest⟩ : (¬ a.overlaps b ∧ ∀ m ∈ nets, ¬ a.overlaps m) ∧
      (∀ m ∈ nets, ¬ b.overlaps m) ∧ nets.Pairwise fun a b => ¬ a.overlaps b := by
    simpa [List.pairwise_cons] using hdisjoint
  have hne : a ≠ b := fun he => ha.1 (he ▸ overlaps_self a)
  have hval : ∀ x, a.supernet.hasValue x ↔ a.hasValue x ∨ b.hasValue x := fun x =>
    hasValue_supernet hsup hne (prefixlen_ne_zero hsup ha.1)
      (prefixlen_ne_zero hsup.symm fun ho => ha.1 ho.symm)
  have hv : a.version = b.version := (hinside a (by simp)).1.trans (hinside b (by simp)).1.symm
  refine ⟨List.pairwise_cons.mpr ⟨fun m hm ho => ?_, hrest⟩, fun m hm => ?_, fun x hx => ?_⟩
  · obtain ⟨x, hx, hmx⟩ := ho.exists_hasValue
    rcases (hval x).mp hx with hx | hx
    · exact ha.2 m hm (hx.overlaps hmx ho.1)
    · exact hb m hm (hx.overlaps hmx (hv.symm.trans ho.1))
  · rcases List.mem_cons.mp hm with rfl | hm
    · refine supernet_subnetOf (hinside a (by simp)) fun he => ha.1 ?_
      exact he ▸ (hinside b (by simp)).overlaps.symm
    · exact hinside m (by simp [hm])
  · obtain ⟨m, hm, hmv, hmx⟩ := hcovered x hx
    simp only [List.mem_cons] at hm
    rcases hm with rfl | rfl | hm
    · exact ⟨m.supernet, by simp, hmv, (hval x).mpr (Or.inl hmx)⟩
    · exact ⟨a.supernet, by simp, hv.trans hmv, (hval x).mpr (Or.inr hmx)⟩
    · exact ⟨m, by simp [hm], hmv, hmx⟩

theorem exists_sibling (ha : a.prefixlen ≠ 0) :
    ∃ b : Net, b ≠ a ∧ b.prefixlen = a.prefixlen ∧ b.supernet = a.supernet := by
  have hlen := supernet_prefixlen a
  have hlt : a.supernet.prefixlen < a.supernet.version.maxPrefixlen := by
    have := a.prefixlen_le
    rw [hlen, supernet_version]
    omega
  have hsup : ∀ b : Net, b.subnetOf a.supernet → b.prefixlen = a.prefixlen →
      b.supernet = a.supernet := by
    intro b hb hp
    have hne : b ≠ a.supernet := fun he => by
      rw [he, hlen] at hp
      omega
    exact (supernet_subnetOf hb hne).eq_of_prefixlen (by rw [supernet_prefixlen, hlen, hp])
  have hlower := lower_prefixlen hlt
  have hupper := upper_prefixlen hlt
  rcases (mem_halves hlt).mpr ⟨a.subnetOf_supernet, by omega⟩ with he | he
  · refine ⟨a.supernet.upper, fun h => halves_disjoint hlt ?_, by omega,
      hsup _ (upper_subnetOf hlt) (by omega)⟩
    rw [h, ← he]
    exact overlaps_self a
  · refine ⟨a.supernet.lower, fun h => halves_disjoint hlt ?_, by omega,
      hsup _ (lower_subnetOf hlt) (by omega)⟩
    rw [h, ← he]
    exact overlaps_self a

theorem exists_supernet_eq (h : Tiles n nets) (ha : a ∈ nets)
    (hmax : ∀ b ∈ nets, b.prefixlen ≤ a.prefixlen) (hne : a ≠ n) :
    ∃ b ∈ nets, b ≠ a ∧ b.supernet = a.supernet := by
  have hlt := (h.inside a ha).prefixlen_lt hne
  obtain ⟨b, hba, hlen, hsup⟩ := exists_sibling (a := a) (by omega)
  have hbn : b.overlaps n := by
    have hbsup : b.subnetOf a.supernet := hsup ▸ b.subnetOf_supernet
    exact (hbsup.trans (supernet_subnetOf (h.inside a ha) hne)).overlaps
  obtain ⟨m, hm, ho⟩ := h.covered.exists_overlaps hbn
  have hbm : b.subnetOf m := ho.subnetOf (by have := hmax m hm; omega)
  by_cases he : b = m
  · exact ⟨b, he ▸ hm, hba, hsup⟩
  · exfalso
    have hasup : a.subnetOf m :=
      a.subnetOf_supernet.trans (hsup ▸ supernet_subnetOf hbm he)
    obtain rfl := h.eq_of_overlaps ha hm hasup.overlaps
    exact he (hbm.eq_of_prefixlen hlen)

theorem eq_singleton (h : Tiles n nets) (hsup : (nets.map supernet).Nodup) : nets = [n] := by
  obtain ⟨a₀, ha₀, -⟩ := h.covered _ n.hasValue_networkAddress
  obtain ⟨a, hmax⟩ : ∃ a, a ∈ nets.argmax prefixlen := by
    apply Option.ne_none_iff_exists'.mp
    exact mt List.argmax_eq_none.mp (List.ne_nil_of_mem ha₀)
  have ha := List.argmax_mem hmax
  obtain rfl : a = n := by
    by_contra hne
    obtain ⟨b, hb, hba, he⟩ := h.exists_supernet_eq ha (fun b hb => List.le_of_mem_argmax hb hmax) hne
    exact hba (List.inj_on_of_nodup_map hsup hb ha he)
  have hall : ∀ b ∈ nets, b = a := fun b hb => h.eq_of_overlaps hb ha (h.inside b hb).overlaps
  have hnodup : nets.Nodup := List.Nodup.of_map _ hsup
  exact List.perm_singleton.mp ((List.perm_ext_iff_of_nodup hnodup (List.nodup_singleton a)).mpr
    fun b => by simpa using ⟨hall b, fun he => he ▸ ha⟩)

theorem subnets {p : Nat} (hn : n.prefixlen ≤ p) (hp : p ≤ n.version.maxPrefixlen) :
    Tiles n (n.subnets p) where
  disjoint := by
    refine (subnets_sorted hn hp).imp_of_mem fun {a b} ha hb hlt ho => ?_
    have hlen := ((mem_subnets hn hp).mp ha).2.trans ((mem_subnets hn hp).mp hb).2.symm
    rw [eq_of_overlaps_of_prefixlen ho hlen] at hlt
    exact lt_irrefl _ hlt
  inside := fun a ha => ((mem_subnets hn hp).mp ha).1
  covered := fun x hx => by
    have hxr : x < 2 ^ n.version.maxPrefixlen := lt_of_lt_of_le (hasValue_iff.mp hx).2 n.end_le
    have hval : (ofValue n.version x p).hasValue x := ofValue_hasValue _ hxr
    have hlen : (ofValue n.version x p).prefixlen = p := ofValue_prefixlen _ hp
    refine ⟨ofValue n.version x p, (mem_subnets hn hp).mpr ⟨?_, hlen⟩, rfl, hval⟩
    exact (hval.overlaps hx rfl).subnetOf (by omega)

end Tiles

/-- What the loop still holds: its worklist and the waiting halves. -/
def MergeState.pieces (s : MergeState) : List Net := s.toMerge ++ s.subnets.map Prod.snd

theorem perm_of_lookup [DecidableEq α] {l : List (α × β)} {a : α} {b : β}
    (hnodup : (l.map Prod.fst).Nodup) (h : l.lookup a = some b) :
    l.Perm ((a, b) :: l.filter fun e => e.1 ≠ a) := by
  induction l with
  | nil => simp at h
  | cons e l ih =>
    obtain ⟨a', b'⟩ := e
    simp only [List.map_cons, List.nodup_cons] at hnodup
    obtain ⟨hnot, hnodup⟩ := hnodup
    by_cases ha : a' = a
    · subst ha
      have hkeep : (l.filter fun e => e.1 ≠ a') = l := by
        refine List.filter_eq_self.mpr fun e he => ?_
        have hne : e.1 ≠ a' := fun hea => hnot (List.mem_map.mpr ⟨e, he, hea⟩)
        simpa using hne
      simp only [List.lookup_cons_self, Option.some.injEq] at h
      rw [List.filter_cons_of_neg (by simp), hkeep, h]
    · have h' : l.lookup a = some b := by
        simpa [List.lookup_cons, beq_false_of_ne (Ne.symm ha)] using h
      rw [List.filter_cons_of_pos (by simpa using ha)]
      exact ((ih hnodup h').cons _).trans (List.Perm.swap _ _ _)

structure Collapsing (n : Net) (s : MergeState) : Prop where
  tiles : Tiles n s.pieces
  waiting : Waiting s.subnets
  keys : (s.subnets.map Prod.fst).Nodup

theorem Collapsing.step {subnets : List (Net × Net)} (h : Collapsing n ⟨net :: rest, subnets⟩) :
    Collapsing n (mergeStep net rest subnets) := by
  obtain ⟨htiles, hwait, hkeys⟩ := h
  unfold mergeStep
  split
  · rename_i hlookup
    have hparked := nodup_keys_cons_of_lookup_eq_none hkeys hlookup net
    refine ⟨htiles.perm ?_, hwait.cons net, hparked⟩
    simpa [MergeState.pieces] using List.perm_middle.symm
  · rename_i existing hlookup
    have hmem := mem_of_lookup hlookup
    have hsup : net.supernet = existing.supernet := hwait _ hmem
    have hperm := perm_of_lookup hkeys hlookup
    have hpieces : (net :: rest ++ subnets.map Prod.snd).Perm (net :: existing ::
        (rest ++ (subnets.filter fun e => e.1 ≠ net.supernet).map Prod.snd)) := by
      refine List.Perm.cons _ ?_
      exact ((hperm.map Prod.snd).append_left rest).trans List.perm_middle
    split
    · exact ⟨(htiles.perm hpieces).merge hsup,
        hwait.filter _, hkeys.sublist (List.filter_sublist.map _)⟩
    · rename_i hne
      rw [not_not] at hne
      have hdisjoint := (htiles.perm hpieces).disjoint
      rw [List.pairwise_cons] at hdisjoint
      exact absurd (hne ▸ overlaps_self existing) (hdisjoint.1 existing (by simp))

/-- What each turn keeps holds when the loop is done. A turn shortens the worklist or the
dictionary. -/
theorem mergeLoop_of_step {P : MergeState → Prop}
    (hstep : ∀ {net rest subnets}, P ⟨net :: rest, subnets⟩ → P (mergeStep net rest subnets))
    (hkeys : ∀ {s}, P s → (s.subnets.map Prod.fst).Nodup) {s : MergeState} (h : P s)
    (hfuel : 2 * s.toMerge.length + s.subnets.length ≤ fuel) :
    P (mergeLoop fuel s) ∧ (mergeLoop fuel s).toMerge = [] := by
  induction fuel generalizing s with
  | zero =>
    have hzero : s.toMerge.length = 0 := by omega
    exact ⟨h, List.length_eq_zero_iff.mp hzero⟩
  | succ fuel ih =>
    obtain ⟨toMerge, subnets⟩ := s
    cases toMerge with
    | nil => exact ⟨h, rfl⟩
    | cons net rest =>
      refine ih (hstep h) ?_
      simp only [List.length_cons] at hfuel
      unfold mergeStep
      split
      · simp only [List.length_cons]
        omega
      · rename_i existing hlookup
        have hlen := (perm_of_lookup (hkeys h) hlookup).length_eq
        simp only [List.length_cons] at hlen
        split
        · simp only [List.length_cons]
          omega
        · simp only
          omega

/-- A tiling collapses to the network it tiles, whatever the order. -/
theorem collapseAddresses_of_tiles (h : Tiles n nets) : collapseAddresses nets = [n] := by
  have hstart : Collapsing n ⟨nets.reverse, []⟩ :=
    ⟨h.perm (by simp [MergeState.pieces]), by simp [Waiting],
      by simp⟩
  have hfuel : 2 * nets.reverse.length + ([] : List (Net × Net)).length ≤ 2 * nets.length := by simp
  obtain ⟨⟨htiles, hwait, hkeys⟩, hdone⟩ :=
    mergeLoop_of_step Collapsing.step Collapsing.keys hstart hfuel
  have hvalues : (mergeLoop (2 * nets.length) ⟨nets.reverse, []⟩).subnets.map Prod.snd = [n] := by
    rw [MergeState.pieces, hdone, List.nil_append] at htiles
    refine htiles.eq_singleton ?_
    rw [List.map_map]
    exact List.map_congr_left hwait ▸ hkeys
  simp [collapseAddresses, hvalues, skipSubsumed]

theorem sum_numAddresses_subnets {p : Nat} (hn : n.prefixlen ≤ p) (hp : p ≤ n.version.maxPrefixlen) :
    ((n.subnets p).map numAddresses).sum = n.numAddresses := by
  have hsize : (n.subnets p).map numAddresses =
      List.replicate (2 ^ (p - n.prefixlen)) (2 ^ (n.version.maxPrefixlen - p)) := by
    refine List.eq_replicate_iff.mpr ⟨by simp [subnets_length], fun k hk => ?_⟩
    obtain ⟨c, hc, rfl⟩ := List.mem_map.mp hk
    obtain ⟨hsub, hlen⟩ := (mem_subnets hn hp).mp hc
    rw [numAddresses, hsub.1, hlen]
  rw [hsize, List.sum_replicate_nat, numAddresses_eq_mul hn hp]

variable {v : Version} {n : Net} {nets others : List Net}

/-- How many of the networks have the address. -/
def holders (nets : List Net) (x : Nat) : Nat := nets.countP fun a => decide (a.hasValue x)

theorem numAddresses_eq_sum (hv : n.version = v) :
    n.numAddresses = ∑ x ∈ Finset.range (2 ^ v.maxPrefixlen), if n.hasValue x then 1 else 0 := by
  rw [Finset.sum_boole]
  have hfilter : (Finset.range (2 ^ v.maxPrefixlen)).filter (fun x => n.hasValue x) =
      Finset.Ico n.networkAddress (n.networkAddress + n.numAddresses) := by
    ext x
    have hend := n.end_le
    rw [hv] at hend
    simp only [Finset.mem_filter, Finset.mem_range, Finset.mem_Ico, hasValue_iff]
    constructor
    · exact fun h => h.2
    · exact fun h => ⟨by omega, h⟩
  rw [hfilter, Nat.card_Ico]
  simp

theorem sum_numAddresses (hv : ∀ a ∈ nets, a.version = v) :
    (nets.map numAddresses).sum = ∑ x ∈ Finset.range (2 ^ v.maxPrefixlen), holders nets x := by
  induction nets with
  | nil => simp [holders]
  | cons a nets ih =>
    have ha := hv a List.mem_cons_self
    have hrest := ih fun b hb => hv b (List.mem_cons_of_mem a hb)
    simp only [holders] at hrest
    simp only [List.map_cons, List.sum_cons, holders, List.countP_cons, decide_eq_true_eq]
    rw [hrest, numAddresses_eq_sum ha, ← Finset.sum_add_distrib]
    exact Finset.sum_congr rfl fun x _ => Nat.add_comm _ _

theorem holders_pos : 0 < holders nets x ↔ ∃ a ∈ nets, a.hasValue x := by
  simp [holders, List.countP_pos_iff]

theorem holders_le_one (hv : ∀ a ∈ nets, a.version = v)
    (h : nets.Pairwise fun a b => ¬ a.overlaps b) (x : Nat) : holders nets x ≤ 1 := by
  induction nets with
  | nil => simp [holders]
  | cons a nets ih =>
    obtain ⟨ha, hrest⟩ := List.pairwise_cons.mp h
    have hle := ih (fun b hb => hv b (List.mem_cons_of_mem a hb)) hrest
    by_cases hx : a.hasValue x
    · have hnone : holders nets x = 0 := by
        by_contra hne
        obtain ⟨b, hb, hbx⟩ := holders_pos.mp (Nat.pos_of_ne_zero hne)
        refine ha b hb (hx.overlaps hbx ?_)
        rw [hv a List.mem_cons_self, hv b (List.mem_cons_of_mem a hb)]
      simp only [holders] at hnone ⊢
      simp [hx, hnone]
    · simp only [holders] at hle ⊢
      simpa [List.countP_cons, hx] using hle

theorem disjoint_of_holders (h : ∀ x, holders nets x ≤ 1) :
    nets.Pairwise fun a b => ¬ a.overlaps b := by
  induction nets with
  | nil => exact List.Pairwise.nil
  | cons a nets ih =>
    refine List.pairwise_cons.mpr ⟨fun b hb ho => ?_, ih fun x => ?_⟩
    · obtain ⟨x, hax, hbx⟩ := ho.exists_hasValue
      have hone := h x
      have hpos : 0 < holders nets x := holders_pos.mpr ⟨b, hb, hbx⟩
      simp only [holders] at hone hpos
      rw [List.countP_cons_of_pos (by simpa using hax)] at hone
      omega
    · refine Nat.le_trans ?_ (h x)
      simp only [holders, List.countP_cons]
      exact Nat.le_add_right _ _

theorem sum_le_of_covered (hv : ∀ a ∈ nets, a.version = v) (hv' : ∀ b ∈ others, b.version = v)
    (hdisjoint : nets.Pairwise fun a b => ¬ a.overlaps b)
    (hcovered : ∀ a ∈ nets, Covered others a) :
    (nets.map numAddresses).sum ≤ (others.map numAddresses).sum := by
  rw [sum_numAddresses hv, sum_numAddresses hv']
  refine Finset.sum_le_sum fun x _ => ?_
  have hone := holders_le_one hv hdisjoint x
  by_cases hpos : 0 < holders nets x
  · obtain ⟨a, ha, hx⟩ := holders_pos.mp hpos
    obtain ⟨b, hb, -, hbx⟩ := hcovered a ha x hx
    have := holders_pos.mpr ⟨b, hb, hbx⟩
    omega
  · omega

theorem tiles_of_sum_le (hinside : ∀ a ∈ nets, a.subnetOf n) (hcovered : Covered nets n)
    (hsum : (nets.map numAddresses).sum ≤ n.numAddresses) : Tiles n nets := by
  refine ⟨disjoint_of_holders fun x => ?_, hinside, hcovered⟩
  have hpoint : ∀ x ∈ Finset.range (2 ^ n.version.maxPrefixlen),
      (if n.hasValue x then 1 else 0) ≤ holders nets x := by
    intro x _
    split
    case isTrue hx =>
      obtain ⟨a, ha, -, hax⟩ := hcovered x hx
      exact holders_pos.mpr ⟨a, ha, hax⟩
    case isFalse => exact Nat.zero_le _
  rw [sum_numAddresses fun a ha => (hinside a ha).1, numAddresses_eq_sum rfl] at hsum
  have heq := (Finset.sum_eq_sum_iff_of_le hpoint).mp (Nat.le_antisymm (Finset.sum_le_sum hpoint) hsum)
  by_cases hpos : 0 < holders nets x
  · obtain ⟨a, ha, hax⟩ := holders_pos.mp hpos
    have hx := hax.mono (hinside a ha)
    have hend := n.end_le
    have hlt := (hasValue_iff.mp hx).2
    rw [← heq x (Finset.mem_range.mpr (by omega)), if_pos hx]
  · omega

theorem Tiles.sum_eq (h : Tiles n nets) : (nets.map numAddresses).sum = n.numAddresses := by
  have hv : ∀ a ∈ nets, a.version = n.version := fun a ha => (h.inside a ha).1
  apply Nat.le_antisymm
  · have hcovered : ∀ a ∈ nets, Covered [n] a := fun a ha x hx =>
      ⟨n, List.mem_cons_self, (hv a ha).symm, hx.mono (h.inside a ha)⟩
    simpa using sum_le_of_covered hv (by simp) h.disjoint hcovered
  · have hself : ∀ a ∈ [n], Covered nets a := by simpa using h.covered
    simpa using sum_le_of_covered (by simp) hv (List.pairwise_singleton _ n) hself

variable {n : Net} {nets : List Net}

theorem Covered.trans {pieces pieces' : List Net} (h : Covered pieces n)
    (hpieces : ∀ m ∈ pieces, Covered pieces' m) : Covered pieces' n := by
  intro x hx
  obtain ⟨m, hm, hv, hmx⟩ := h x hx
  obtain ⟨m', hm', hv', hmx'⟩ := hpieces m hm x hmx
  exact ⟨m', hm', hv'.trans hv, hmx'⟩

theorem covered_of_subnetOf {m : Net} (hm : m ∈ nets) (h : n.subnetOf m) : Covered nets n :=
  fun _ hx => ⟨m, hm, h.1.symm, hx.mono h⟩

/-- The loop holds every address it was given. -/
structure Keeping (nets : List Net) (s : MergeState) : Prop where
  covered : ∀ a ∈ nets, Covered s.pieces a
  waiting : Waiting s.subnets
  keys : (s.subnets.map Prod.fst).Nodup

theorem Keeping.step {subnets : List (Net × Net)} (h : Keeping nets ⟨net :: rest, subnets⟩) :
    Keeping nets (mergeStep net rest subnets) := by
  obtain ⟨hcovered, hwait, hkeys⟩ := h
  unfold mergeStep
  split
  · rename_i hlookup
    have hparked := nodup_keys_cons_of_lookup_eq_none hkeys hlookup net
    refine ⟨fun a ha => (hcovered a ha).trans fun m hm => covered_of_mem ?_, hwait.cons net,
      hparked⟩
    simp only [MergeState.pieces, List.cons_append, List.mem_cons, List.map_cons,
      List.mem_append] at hm ⊢
    tauto
  · rename_i existing hlookup
    have hsup : net.supernet = existing.supernet := hwait _ (mem_of_lookup hlookup)
    have hperm := (perm_of_lookup hkeys hlookup).map Prod.snd
    have hcases : ∀ m ∈ MergeState.pieces ⟨net :: rest, subnets⟩, m = net ∨ m ∈ rest ∨
        m = existing ∨ m ∈ (subnets.filter fun e => e.1 ≠ net.supernet).map Prod.snd := by
      intro m hm
      rcases List.mem_append.mp hm with hm | hm
      · rcases List.mem_cons.mp hm with rfl | hm
        · exact Or.inl rfl
        · exact Or.inr (Or.inl hm)
      · exact Or.inr (Or.inr (List.mem_cons.mp (hperm.mem_iff.mp hm)))
    split
    · refine ⟨fun a ha => (hcovered a ha).trans fun m hm => ?_,
        hwait.filter _, hkeys.sublist (List.filter_sublist.map _)⟩
      have hhead : net.supernet ∈ MergeState.pieces
          ⟨net.supernet :: rest, subnets.filter fun e => e.1 ≠ net.supernet⟩ := by
        simp [MergeState.pieces]
      rcases hcases m hm with rfl | hm | rfl | hm
      · exact covered_of_subnetOf hhead m.subnetOf_supernet
      · exact covered_of_mem (List.mem_append_left _ (List.mem_cons_of_mem _ hm))
      · exact covered_of_subnetOf hhead (hsup ▸ m.subnetOf_supernet)
      · exact covered_of_mem (List.mem_append_right _ hm)
    · rename_i hne
      rw [not_not] at hne
      refine ⟨fun a ha => (hcovered a ha).trans fun m hm => covered_of_mem ?_, hwait, hkeys⟩
      have hexisting : existing ∈ subnets.map Prod.snd :=
        List.mem_map.mpr ⟨_, mem_of_lookup hlookup, rfl⟩
      rcases List.mem_append.mp hm with hm | hm
      · rcases List.mem_cons.mp hm with rfl | hm
        · exact List.mem_append_right _ (hne ▸ hexisting)
        · exact List.mem_append_left _ hm
      · exact List.mem_append_right _ hm

theorem subnetOf_skipSubsumed {last : Net} (hv : ∀ a ∈ l, a.version = last.version)
    (hsorted : l.Pairwise fun a b => a.networkAddress ≤ b.networkAddress)
    (hlast : ∀ a ∈ l, last.networkAddress ≤ a.networkAddress) (ha : a ∈ l) :
    ∃ b ∈ last :: skipSubsumed (some last) l, a.subnetOf b := by
  induction l generalizing last with
  | nil => cases ha
  | cons net rest ih =>
    obtain ⟨hnet, hrest⟩ := List.pairwise_cons.mp hsorted
    have hvrest : ∀ b ∈ rest, b.version = last.version :=
      fun b hb => hv b (List.mem_cons_of_mem net hb)
    have hvnet := hv net List.mem_cons_self
    unfold skipSubsumed
    split
    · rename_i hle
      rcases List.mem_cons.mp ha with rfl | ha
      · exact ⟨last, List.mem_cons_self, hvnet, hlast a List.mem_cons_self, hle⟩
      · exact ih hvrest hrest (fun b hb => hlast b (List.mem_cons_of_mem net hb)) ha
    · rcases List.mem_cons.mp ha with rfl | ha
      · exact ⟨a, by simp, subnetOf.refl a⟩
      · obtain ⟨b, hb, hab⟩ := ih (fun b hb => (hvrest b hb).trans hvnet.symm) hrest hnet ha
        exact ⟨b, List.mem_cons_of_mem last hb, hab⟩

theorem mergeLoop_version {s : MergeState} (hwork : ∀ m ∈ s.toMerge, m.version = v)
    (hdict : ∀ e ∈ s.subnets, e.2.version = v) :
    ∀ e ∈ (mergeLoop fuel s).subnets, e.2.version = v := by
  induction fuel generalizing s with
  | zero => exact hdict
  | succ fuel ih =>
    obtain ⟨toMerge, subnets⟩ := s
    cases toMerge with
    | nil => exact hdict
    | cons net rest =>
      have hnet := hwork net List.mem_cons_self
      have hrest : ∀ m ∈ rest, m.version = v := fun m hm => hwork m (List.mem_cons_of_mem net hm)
      simp only [mergeLoop, mergeStep]
      split
      · refine ih hrest fun e he => ?_
        rcases List.mem_cons.mp he with rfl | he
        · exact hnet
        · exact hdict e he
      · split
        · refine ih (fun m hm => ?_) fun e he => hdict e (List.mem_of_mem_filter he)
          rcases List.mem_cons.mp hm with rfl | hm
          · exact hnet
          · exact hrest m hm
        · exact ih hrest hdict

def SortsBefore (a b : Net) : Prop :=
  a.networkAddress < b.networkAddress ∨
    a.networkAddress = b.networkAddress ∧ a.prefixlen ≤ b.prefixlen

instance : Std.Total SortsBefore := ⟨fun a b => by unfold SortsBefore; omega⟩

instance : IsTrans Net SortsBefore := ⟨fun a b c hab hbc => by unfold SortsBefore at *; omega⟩

instance : DecidableRel SortsBefore := fun _ _ => inferInstanceAs (Decidable (_ ∨ _))

theorem SortsBefore.le (h : SortsBefore a b) : a.networkAddress ≤ b.networkAddress := by
  rcases h with h | h
  · exact h.le
  · exact h.1.le

/-- Where a list collapses to one network, that network contains every one of them. -/
theorem subnetOf_of_collapseAddresses (hv : ∀ a ∈ nets, a.version = v)
    (h : collapseAddresses nets = [n]) : ∀ a ∈ nets, a.subnetOf n := by
  have hstart : Keeping nets ⟨nets.reverse, []⟩ :=
    ⟨fun a ha => covered_of_mem (by simpa [MergeState.pieces] using ha), by simp [Waiting], by simp⟩
  have hfuel : 2 * nets.reverse.length + ([] : List (Net × Net)).length ≤ 2 * nets.length := by simp
  obtain ⟨hkeeping, hdone⟩ := mergeLoop_of_step Keeping.step Keeping.keys hstart hfuel
  have hversion : ∀ e ∈ (mergeLoop (2 * nets.length) ⟨nets.reverse, []⟩).subnets,
      e.2.version = v :=
    mergeLoop_version (fun m hm => hv m (List.mem_reverse.mp hm)) (by simp)
  have hpieces := hkeeping.covered
  rw [MergeState.pieces, hdone, List.nil_append] at hpieces
  unfold collapseAddresses at h
  generalize (mergeLoop (2 * nets.length) ⟨nets.reverse, []⟩).subnets = subnets at hversion hpieces h
  change skipSubsumed none ((subnets.map Prod.snd).insertionSort SortsBefore) = [n] at h
  have hmem : ∀ m, m ∈ (subnets.map Prod.snd).insertionSort SortsBefore ↔
      m ∈ subnets.map Prod.snd :=
    fun m => List.mem_insertionSort _
  have hsorted := List.pairwise_insertionSort SortsBefore (subnets.map Prod.snd)
  generalize (subnets.map Prod.snd).insertionSort SortsBefore = sorted at h hmem hsorted
  cases sorted with
  | nil => cases h
  | cons first rest =>
    obtain ⟨rfl, hrest⟩ : first = n ∧ skipSubsumed (some first) rest = [] := by
      simpa [skipSubsumed] using h
    have hvsorted : ∀ m ∈ first :: rest, m.version = v := by
      intro m hm
      obtain ⟨e, he, rfl⟩ := List.mem_map.mp ((hmem m).mp hm)
      exact hversion e he
    obtain ⟨hfirst, htail⟩ := List.pairwise_cons.mp hsorted
    have hfound : ∀ m ∈ first :: rest, m.subnetOf first := by
      intro m hm
      rcases List.mem_cons.mp hm with rfl | hm
      · exact subnetOf.refl m
      · obtain ⟨b, hb, hmb⟩ := subnetOf_skipSubsumed
          (fun a ha => (hvsorted a (List.mem_cons_of_mem first ha)).trans
            (hvsorted first List.mem_cons_self).symm)
          (htail.imp SortsBefore.le) (fun a ha => (hfirst a ha).le) hm
        rw [hrest, List.mem_singleton] at hb
        exact hb ▸ hmb
    intro a ha
    exact (hpieces a ha).subnetOf fun m hm => hfound m ((hmem m).mpr hm)

/-- A list that collapses to one network of its own total size tiles it. -/
theorem tiles_of_collapseAddresses (hv : ∀ a ∈ nets, a.version = v)
    (h : collapseAddresses nets = [n]) (hsum : (nets.map numAddresses).sum = n.numAddresses) :
    Tiles n nets :=
  tiles_of_sum_le (subnetOf_of_collapseAddresses hv h)
    (covered_collapseAddresses (by rw [h]; exact List.mem_cons_self)) hsum.le

end SpatiumDdi.Ipaddress.Net
