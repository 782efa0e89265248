import SpatiumDdi.Lib.Subnets

/-!
`address_exclude`, and subtracting a list of networks from one by repeating it.
What is left is described without the loop: the maximal networks of the
original that meet none of the subtracted ones.
-/

namespace SpatiumDdi.Ipaddress.Net

/-- A network inside `n` that overlaps none of `occ`. -/
def FreeIn (n : Net) (occ : List Net) (c : Net) : Prop :=
  c.subnetOf n ∧ ∀ o ∈ occ, ¬ c.overlaps o

/-- A free network that no larger free network contains. -/
def MaximalFree (n : Net) (occ : List Net) (c : Net) : Prop :=
  FreeIn n occ c ∧ ∀ d, FreeIn n occ d → c.subnetOf d → d = c

variable {occ : List Net} {n c d o : Net}

theorem FreeIn.mono (h : FreeIn n occ d) (hc : c.subnetOf d) : FreeIn n occ c :=
  ⟨hc.trans h.1, fun o ho hco => h.2 o ho (hco.mono_left hc)⟩

theorem subnetOf.prefixlen_lt {a b : Net} (h : a.subnetOf b) (hne : a ≠ b) :
    b.prefixlen < a.prefixlen :=
  lt_of_le_of_ne h.prefixlen_le fun he => hne (h.eq_of_prefixlen he.symm)

theorem FreeIn.exists_maximalFree (h : FreeIn n occ c) :
    ∃ d, MaximalFree n occ d ∧ c.subnetOf d := by
  induction hp : c.prefixlen using Nat.strong_induction_on generalizing c with
  | _ p ih =>
    by_cases hmax : ∀ d, FreeIn n occ d → c.subnetOf d → d = c
    · exact ⟨c, ⟨h, hmax⟩, subnetOf.refl c⟩
    · push Not at hmax
      obtain ⟨d, hd, hcd, hne⟩ := hmax
      obtain ⟨e, he, hde⟩ := ih d.prefixlen (hp ▸ hcd.prefixlen_lt hne.symm) hd rfl
      exact ⟨e, he, hcd.trans hde⟩

theorem MaximalFree.eq_of_overlaps (hc : MaximalFree n occ c) (hd : MaximalFree n occ d)
    (h : c.overlaps d) : c = d := by
  rcases h.nested with hcd | hdc
  · exact (hc.2 d hd.1 hcd).symm
  · exact hd.2 c hc.1 hdc

/-- The loop of `address_exclude`: of the two halves of `n` the one without
`o` is free, and the search goes on in the other. -/
def addressExcludeLoop : Nat → Net → Net → List Net
  | 0, _, _ => []
  | fuel + 1, n, o =>
    if o = n.lower then [n.upper]
    else if o = n.upper then [n.lower]
    else if o.subnetOf n.lower then n.upper :: addressExcludeLoop fuel n.lower o
    else n.lower :: addressExcludeLoop fuel n.upper o

/-- `n.address_exclude(o)` for `o` in `n`. -/
def addressExclude (n o : Net) : List Net :=
  if o = n then [] else addressExcludeLoop (o.prefixlen - n.prefixlen) n o

theorem not_maximalFree_self : ¬ MaximalFree n [n] c := fun h =>
  h.1.2 n (by simp) h.1.1.overlaps

section Halving

variable {n h h' o : Net}
  (hcover : ∀ c : Net, c.subnetOf n → c = n ∨ c.subnetOf h ∨ c.subnetOf h')
  (hh : h.subnetOf n) (hh' : h'.subnetOf n) (hapart : ¬ h.overlaps h') (ho : o.subnetOf h)
include hcover hh hh' hapart ho

private theorem maximalFree_halves {c : Net} :
    MaximalFree n [o] c ↔ c = h' ∨ MaximalFree h [o] c := by
  have hn : ∀ c : Net, FreeIn n [o] c → c.subnetOf h ∨ c.subnetOf h' := by
    intro c hc
    rcases hcover c hc.1 with rfl | hch
    · exact absurd (ho.trans hh).overlaps.symm (hc.2 o (by simp))
    · exact hch
  have hfree : FreeIn n [o] h' := by
    refine ⟨hh', ?_⟩
    simp only [List.mem_singleton, forall_eq]
    exact fun hoh' => hapart (hoh'.symm.mono_left ho)
  have hlift : ∀ d, FreeIn h [o] d → FreeIn n [o] d := fun d hd => ⟨hd.1.trans hh, hd.2⟩
  constructor
  · rintro ⟨hc, hmax⟩
    rcases hn c hc with hch | hch'
    · exact Or.inr ⟨⟨hch, hc.2⟩, fun d hd hcd => hmax d (hlift d hd) hcd⟩
    · exact Or.inl (hmax h' hfree hch').symm
  · rintro (rfl | ⟨hc, hmax⟩)
    · refine ⟨hfree, fun d hd hcd => ?_⟩
      rcases hn d hd with hdh | hdh'
      · exact absurd (hcd.trans hdh).overlaps.symm hapart
      · exact hdh'.antisymm hcd
    · refine ⟨hlift c hc, fun d hd hcd => ?_⟩
      rcases hn d hd with hdh | hdh'
      · exact hmax d ⟨hdh, hd.2⟩ hcd
      · exact absurd (overlaps_of_common hc.1 (hcd.trans hdh')) hapart

end Halving

private theorem halves_cover (c : Net) (hc : c.subnetOf n) :
    c = n ∨ c.subnetOf n.lower ∨ c.subnetOf n.upper := by
  by_cases he : c = n
  · exact Or.inl he
  · exact Or.inr (hc.halves (hc.prefixlen_lt he))

private theorem mem_addressExcludeLoop {fuel : Nat} (ho : o.subnetOf n) (hne : o ≠ n)
    (hfuel : o.prefixlen - n.prefixlen = fuel) :
    c ∈ addressExcludeLoop fuel n o ↔ MaximalFree n [o] c := by
  induction fuel generalizing n with
  | zero =>
    have := ho.prefixlen_lt hne
    omega
  | succ fuel ih =>
    have hlt := ho.prefixlen_lt hne
    have hn : n.prefixlen < n.version.maxPrefixlen := by
      have := o.prefixlen_le
      rw [ho.1] at this
      omega
    have hlower := lower_subnetOf hn
    have hupper := upper_subnetOf hn
    have hapart := halves_disjoint hn
    have inLower := fun ho' : o.subnetOf n.lower =>
      maximalFree_halves (c := c) halves_cover hlower hupper hapart ho'
    have inUpper := fun ho' : o.subnetOf n.upper =>
      maximalFree_halves (c := c) (fun c hc => (halves_cover c hc).imp_right Or.symm)
        hupper hlower (fun h => hapart h.symm) ho'
    unfold addressExcludeLoop
    by_cases hel : o = n.lower
    · rw [if_pos hel, inLower (hel ▸ subnetOf.refl _), ← hel]
      simp [not_maximalFree_self]
    by_cases heu : o = n.upper
    · rw [if_neg hel, if_pos heu, inUpper (heu ▸ subnetOf.refl _), ← heu]
      simp [not_maximalFree_self]
    by_cases hol : o.subnetOf n.lower
    · rw [if_neg hel, if_neg heu, if_pos hol, List.mem_cons, inLower hol,
        ih hol hel (by rw [lower_prefixlen hn]; omega)]
    · have hou : o.subnetOf n.upper := (ho.halves hlt).resolve_left hol
      rw [if_neg hel, if_neg heu, if_neg hol, List.mem_cons, inUpper hou,
        ih hou heu (by rw [upper_prefixlen hn]; omega)]

theorem mem_addressExclude (ho : o.subnetOf n) : c ∈ addressExclude n o ↔ MaximalFree n [o] c := by
  unfold addressExclude
  split
  · rename_i he
    subst he
    simp [not_maximalFree_self]
  · exact mem_addressExcludeLoop ho ‹_› rfl

/-- What is left of `n` without `o`, for any two networks. -/
def exclude (n o : Net) : List Net :=
  if o = n then []
  else if o.subnetOf n then addressExclude n o
  else if n.subnetOf o then []
  else [n]

theorem mem_exclude : c ∈ exclude n o ↔ MaximalFree n [o] c := by
  unfold exclude
  split
  · rename_i he
    subst he
    simp [not_maximalFree_self]
  split
  · exact mem_addressExclude ‹_›
  split
  · rename_i hno
    exact iff_of_false (by simp) fun h => h.1.2 o (by simp) (h.1.1.trans hno).overlaps
  · rename_i hon hno
    have hapart : ¬ n.overlaps o := fun h => h.nested.elim hno hon
    have hfree : FreeIn n [o] n := ⟨subnetOf.refl n, by simpa using hapart⟩
    rw [List.mem_singleton]
    constructor
    · rintro rfl
      exact ⟨hfree, fun d hd hcd => hd.1.antisymm hcd⟩
    · rintro ⟨hc, hmax⟩
      exact (hmax n hfree hc.1).symm

/-- What is left of `n` after each of `occ` in turn is excluded from every
piece. -/
def excludeAll (n : Net) (occ : List Net) : List Net :=
  occ.foldl (fun working o => working.flatMap fun w => exclude w o) [n]

/-- The maximal networks free of one more occupant are those free of it inside
the pieces that were left before. -/
theorem maximalFree_append :
    MaximalFree n (occ ++ [o]) c ↔ ∃ w, MaximalFree n occ w ∧ MaximalFree w [o] c := by
  constructor
  · rintro ⟨⟨hcn, hfree⟩, hmax⟩
    obtain ⟨w, hw, hcw⟩ : ∃ d, MaximalFree n occ d ∧ c.subnetOf d :=
      FreeIn.exists_maximalFree ⟨hcn, fun o' ho' => hfree o' (by simp [ho'])⟩
    refine ⟨w, hw, ⟨hcw, fun o' ho' => hfree o' (by simp_all)⟩, fun d hd hcd => ?_⟩
    refine hmax d ⟨hd.1.trans hw.1.1, fun o' ho' => ?_⟩ hcd
    rcases List.mem_append.mp ho' with ho' | ho'
    · exact (hw.1.mono hd.1).2 o' ho'
    · exact hd.2 o' ho'
  · rintro ⟨w, hw, ⟨hcw, hco⟩, hmax⟩
    refine ⟨⟨hcw.trans hw.1.1, fun o' ho' => ?_⟩, fun d hd hcd => ?_⟩
    · rcases List.mem_append.mp ho' with ho' | ho'
      · exact (hw.1.mono hcw).2 o' ho'
      · exact hco o' ho'
    · have hdo : ∀ o' ∈ [o], ¬ d.overlaps o' := fun o' ho' => hd.2 o' (by simp_all)
      have hdocc : FreeIn n occ d := ⟨hd.1, fun o' ho' => hd.2 o' (by simp [ho'])⟩
      rcases (overlaps_of_common hcd hcw).nested with hdw | hwd
      · exact hmax d ⟨hdw, hdo⟩ hcd
      · have hdw : d = w := hw.2 d hdocc hwd
        exact hmax d ⟨hdw ▸ subnetOf.refl d, hdo⟩ hcd

/-- Subtracting a list leaves the maximal networks free of all of it. -/
theorem mem_excludeAll : c ∈ excludeAll n occ ↔ MaximalFree n occ c := by
  suffices h : ∀ (rest done : List Net) (working : List Net),
      (∀ w, w ∈ working ↔ MaximalFree n done w) →
      (c ∈ rest.foldl (fun working o => working.flatMap fun w => exclude w o) working ↔
        MaximalFree n (done ++ rest) c) by
    refine h occ [] [n] fun w => ?_
    rw [List.mem_singleton]
    constructor
    · rintro rfl
      exact ⟨⟨subnetOf.refl w, by simp⟩, fun d hd hwd => hd.1.antisymm hwd⟩
    · rintro ⟨hw, hmax⟩
      exact (hmax n ⟨subnetOf.refl n, by simp⟩ hw.1).symm
  intro rest
  induction rest with
  | nil =>
    intro done working hworking
    simpa using hworking c
  | cons o rest ih =>
    intro done working hworking
    have hstep : ∀ w, w ∈ working.flatMap (fun w => exclude w o) ↔
        MaximalFree n (done ++ [o]) w := by
      intro w
      rw [maximalFree_append, List.mem_flatMap]
      exact exists_congr fun v => and_congr (hworking v) mem_exclude
    rw [List.foldl_cons, ih (done ++ [o]) _ hstep, List.append_assoc, List.singleton_append]

end SpatiumDdi.Ipaddress.Net
