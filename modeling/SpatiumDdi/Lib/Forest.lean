import Mathlib.Order.CompletePartialOrder
import Mathlib.Data.Set.Lattice
import Mathlib.Data.List.Chain
import Mathlib.Data.List.Nodup
import Mathlib.Data.List.Perm.Subperm

/-!
Forests given by a parent pointer, as a self-referencing foreign key stores
them. `Rooted` says that following the pointers from a node ends, `Above` that
one node is another or one of its ancestors. The first part says which pointer
rewrites keep every node rooted; the second is about forests whose nodes own a
region, where a child lies inside its parent and siblings are apart; the third
gives the two recursive walks over the nodes below a given one and says what
they return.
-/

namespace SpatiumDdi.Forest

universe u v

variable {ι α : Type u} {parent parent' : ι → Option ι} {i j k : ι} {β : Type v}
  {f : α → Option (List β)} {as : List α} {xs : List β}

/-- `j` is `i` or an ancestor of `i`. -/
def Above (parent : ι → Option ι) : ι → ι → Prop :=
  Relation.ReflTransGen fun i j => parent i = some j

/-- Following the parent pointers from `i` ends. -/
def Rooted (parent : ι → Option ι) : ι → Prop := Acc fun j i => parent i = some j

def climb (parent : ι → Option ι) : Nat → ι → Option ι
  | 0, i => some i
  | n + 1, i => (parent i).bind (climb parent n)

theorem Above.refl (parent : ι → Option ι) (i : ι) : Above parent i i :=
  Relation.ReflTransGen.refl

theorem Above.head (h : parent i = some j) (hj : Above parent j k) :
    Above parent i k := Relation.ReflTransGen.head h hj

theorem Above.trans (h : Above parent i j) (hj : Above parent j k) :
    Above parent i k := Relation.ReflTransGen.trans h hj

theorem Above.tail (h : Above parent i j) (hk : parent j = some k) :
    Above parent i k := Relation.ReflTransGen.tail h hk

theorem Above.cases (h : Above parent i k) : i = k ∨ ∃ j, parent i = some j ∧ Above parent j k :=
  Relation.ReflTransGen.cases_head h

theorem Above.cases_child (h : Above parent i k) :
    i = k ∨ ∃ c, Above parent i c ∧ parent c = some k := by
  rcases Relation.ReflTransGen.cases_tail h with rfl | ⟨c, hic, hck⟩
  · exact Or.inl rfl
  · exact Or.inr ⟨c, hic, hck⟩

theorem Rooted.of_parent (h : ∀ j, parent i = some j → Rooted parent j) :
    Rooted parent i := Acc.intro i h

theorem Rooted.exists_climb_eq_none (h : Rooted parent i) : ∃ n, climb parent n i = none := by
  induction h with
  | intro i _ ih =>
    cases hp : parent i with
    | none => exact ⟨1, by simp [climb, hp]⟩
    | some j =>
      obtain ⟨n, hn⟩ := ih j hp
      exact ⟨n + 1, by simp [climb, hp, hn]⟩

theorem Rooted.exists_root (h : Rooted parent i) : ∃ r, Above parent i r ∧ parent r = none := by
  induction h with
  | intro i _ ih =>
    cases hp : parent i with
    | none => exact ⟨i, Above.refl _ _, hp⟩
    | some j =>
      obtain ⟨r, hjr, hr⟩ := ih j hp
      exact ⟨r, hjr.head hp, hr⟩

theorem Rooted.not_above (h : Rooted parent i) (hp : parent i = some j) : ¬ Above parent j i := by
  induction h generalizing j with
  | intro i _ ih =>
    intro hji
    rcases hji.cases with rfl | ⟨k, hjk, hki⟩
    · exact ih j hp hp (Above.refl _ _)
    · exact ih j hp hjk (hki.tail hp)

/-- Pointing `m` at `t`, and some nodes that pointed where `m` now points at
`m`, leaves every node rooted when `m` is not above its new parent. -/
theorem Rooted.repoint {m : ι} (h : ∀ i, Rooted parent i)
    (hother : ∀ i, i ≠ m → parent' i = parent i ∨ parent' i = some m ∧ parent i = parent' m)
    (hm : ∀ t, parent' m = some t → ¬ Above parent t m) : ∀ i, Rooted parent' i := by
  have hroot : Rooted parent' m := by
    refine Rooted.of_parent fun t ht => ?_
    suffices habove : ∀ j, Rooted parent j → Above parent t j → Rooted parent' j from
      habove t (h t) (Above.refl _ _)
    intro j hj
    induction hj with
    | intro j _ ih =>
      intro htj
      have hjm : j ≠ m := fun e => hm t ht (e ▸ htj)
      rcases hother j hjm with he | ⟨-, he⟩
      · refine Rooted.of_parent fun k hk => ?_
        rw [he] at hk
        exact ih k hk (htj.tail hk)
      · exact absurd htj ((h j).not_above (he.trans ht))
  intro i
  induction h i with
  | intro i _ ih =>
    by_cases him : i = m
    · exact him ▸ hroot
    · refine Rooted.of_parent fun k hk => ?_
      rcases hother i him with he | ⟨he, -⟩
      · exact ih k (he ▸ hk)
      · rw [he] at hk
        exact Option.some.inj hk ▸ hroot

theorem Rooted.congr (h : ∀ i, parent' i = parent i) (hi : Rooted parent i) : Rooted parent' i := by
  have : parent' = parent := funext h
  rwa [this]

/-- A set of nodes closed under parents in which a child's region lies in its
parent's and the regions of siblings are apart. -/
structure Nested {α : Type v} (S : Set ι) (parent : ι → Option ι) (region : ι → Set α) :
    Prop where
  rooted : ∀ i ∈ S, Rooted parent i
  closed : ∀ i ∈ S, ∀ j, parent i = some j → j ∈ S
  inside : ∀ i ∈ S, ∀ j, parent i = some j → region i ⊆ region j
  apart : ∀ i ∈ S, ∀ j ∈ S, i ≠ j → parent i = parent j → Disjoint (region i) (region j)

namespace Nested

variable {α : Type v} {S : Set ι} {parent : ι → Option ι} {region : ι → Set α}

section

variable (h : Nested S parent region)
include h

section

variable (hi : i ∈ S)
include hi

theorem closed_above (hij : Above parent i j) : j ∈ S := by
  induction hij with
  | refl => exact hi
  | tail _ hjk ih => exact h.closed _ ih _ hjk

theorem inside_above (hij : Above parent i j) : region i ⊆ region j := by
  induction hij with
  | refl => exact subset_rfl
  | tail hij hjk ih => exact ih.trans (h.inside _ (h.closed_above hi hij) _ hjk)

private theorem comparable_root {r : ι} (hr : r ∈ S) (hroot : parent r = none)
    (hmeet : ¬ Disjoint (region i) (region r)) : Above parent i r ∨ Above parent r i := by
  induction h.rooted i hi with
  | intro i _ ih =>
    cases hp : parent i with
    | none =>
      by_cases he : i = r
      · exact Or.inl (he ▸ Above.refl _ _)
      · exact absurd (h.apart i hi r hr he (hp.trans hroot.symm)) hmeet
    | some p =>
      have hpr : ¬ Disjoint (region p) (region r) :=
        fun hd => hmeet (hd.mono_left (h.inside i hi p hp))
      rcases ih p hp (h.closed i hi p hp) hpr with hab | hab
      · exact Or.inl (hab.head hp)
      · rcases hab.cases with rfl | ⟨q, hq, -⟩
        · exact Or.inl ((Above.refl _ _).head hp)
        · simp [hroot] at hq

theorem comparable (hj : j ∈ S) (hmeet : ¬ Disjoint (region i) (region j)) :
    Above parent i j ∨ Above parent j i := by
  induction h.rooted j hj with
  | intro j _ ih =>
    cases hp : parent j with
    | none => exact h.comparable_root hi hj hp hmeet
    | some q =>
      have hq : q ∈ S := h.closed j hj q hp
      have hmeetq : ¬ Disjoint (region i) (region q) :=
        fun hd => hmeet (hd.mono_right (h.inside j hj q hp))
      rcases ih q hp hq hmeetq with hiq | hqi
      · rcases hiq.cases_child with rfl | ⟨c, hic, hcq⟩
        · exact Or.inr ((Above.refl _ _).head hp)
        · have hc : c ∈ S := h.closed_above hi hic
          by_cases hcj : c = j
          · exact Or.inl (hcj ▸ hic)
          · have hmeetc : ¬ Disjoint (region c) (region j) :=
              fun hd => hmeet (hd.mono_left (h.inside_above hi hic))
            exact absurd (h.apart c hc j hj hcj (hcq.trans hp.symm)) hmeetc
      · exact Or.inr (hqi.head hp)

theorem exists_child (hj : j ∈ S) (hmeet : ¬ Disjoint (region i) (region j))
    (hab : ¬ Above parent j i) : ∃ c ∈ S, Above parent i c ∧ parent c = some j := by
  rcases h.comparable hi hj hmeet with hij | hji
  · rcases hij.cases_child with rfl | ⟨c, hic, hcj⟩
    · exact absurd (Above.refl _ _) hab
    · exact ⟨c, h.closed_above hi hic, hic, hcj⟩
  · exact absurd hji hab

end

end

end Nested

/-- The nodes of `frontier` and everything below them, a level at a time, as a
recursive query with `UNION ALL` returns them; `none` when the levels do not
run out within the fuel. -/
def below (children : ι → List ι) : Nat → List ι → Option (List ι)
  | 0, frontier => if frontier.isEmpty then some [] else none
  | n + 1, frontier => (below children n (frontier.flatMap children)).map (frontier ++ ·)

/-- Appends the lists that `f` returns for each element. -/
def gather {α : Type u} {β : Type v} (f : α → Option (List β)) : List α → Option (List β)
  | [] => some []
  | a :: as => (f a).bind fun x => (gather f as).map (x ++ ·)

/-- A depth first walk: for each child what lies below it and then the child
itself, and last what `visit` adds for the node; `none` when the fuel runs out. -/
def walk {β : Type v} (children : ι → List ι) (visit : ι → List β) (node : ι → β) :
    Nat → ι → Option (List β)
  | 0, _ => none
  | n + 1, i =>
    (gather (fun c => (walk children visit node n c).map (· ++ [node c])) (children i)).map
      (· ++ visit i)

theorem mem_gather (h : gather f as = some xs) {b : β} :
    b ∈ xs ↔ ∃ a ∈ as, ∃ x, f a = some x ∧ b ∈ x := by
  induction as generalizing xs with
  | nil => simp_all [gather]
  | cons a as ih =>
    simp only [gather, Option.bind_eq_some_iff, Option.map_eq_some_iff] at h
    obtain ⟨x, hx, ys, hys, rfl⟩ := h
    simp [ih hys, hx]

theorem gather_some (h : gather f as = some xs) {a : α} (ha : a ∈ as) : ∃ x, f a = some x := by
  induction as generalizing xs with
  | nil => simp at ha
  | cons a' as ih =>
    simp only [gather, Option.bind_eq_some_iff, Option.map_eq_some_iff] at h
    obtain ⟨x, hx, ys, hys, -⟩ := h
    rcases List.mem_cons.mp ha with rfl | ha
    · exact ⟨x, hx⟩
    · exact ih hys ha

section Walks

variable {parent : ι → Option ι} {children : ι → List ι}
  (hchild : ∀ i j, j ∈ children i ↔ parent j = some i) {n : Nat} {frontier U : List ι}
include hchild

theorem mem_below {xs : List ι} (h : below children n frontier = some xs) {x : ι} :
    x ∈ xs ↔ ∃ y ∈ frontier, Above parent x y := by
  induction n generalizing frontier xs with
  | zero =>
    cases frontier with
    | nil => simp_all [below]
    | cons a as => simp [below] at h
  | succ n ih =>
    simp only [below, Option.map_eq_some_iff] at h
    obtain ⟨ys, hys, rfl⟩ := h
    rw [List.mem_append, ih hys]
    constructor
    · rintro (hx | ⟨y, hy, hxy⟩)
      · exact ⟨x, hx, Above.refl _ _⟩
      · obtain ⟨z, hz, hyz⟩ := List.mem_flatMap.mp hy
        exact ⟨z, hz, hxy.tail ((hchild z y).mp hyz)⟩
    · rintro ⟨y, hy, hxy⟩
      rcases hxy.cases_child with rfl | ⟨c, hxc, hcy⟩
      · exact Or.inl hy
      · exact Or.inr ⟨c, List.mem_flatMap.mpr ⟨y, hy, (hchild y c).mpr hcy⟩, hxc⟩

theorem mem_walk {β : Type v} {visit : ι → List β} {node : ι → β} {i : ι} {xs : List β}
    (h : walk children visit node n i = some xs) {b : β} :
    b ∈ xs ↔ (∃ j, Above parent j i ∧ b ∈ visit j) ∨
      ∃ j k, parent j = some k ∧ Above parent k i ∧ b = node j := by
  induction n generalizing i xs with
  | zero => simp [walk] at h
  | succ n ih =>
    simp only [walk, Option.map_eq_some_iff] at h
    obtain ⟨ys, hys, rfl⟩ := h
    rw [List.mem_append, mem_gather hys]
    constructor
    · rintro (⟨c, hc, z, hz, hb⟩ | hb)
      · obtain ⟨zs, hzs, rfl⟩ := Option.map_eq_some_iff.mp hz
        have hci := (hchild i c).mp hc
        rcases List.mem_append.mp hb with hb | hb
        · rcases (ih hzs).mp hb with ⟨j, hj, hbj⟩ | ⟨j, k, hjk, hk, hbj⟩
          · exact Or.inl ⟨j, hj.tail hci, hbj⟩
          · exact Or.inr ⟨j, k, hjk, hk.tail hci, hbj⟩
        · exact Or.inr ⟨c, i, hci, Above.refl _ _, List.mem_singleton.mp hb⟩
      · exact Or.inl ⟨i, Above.refl _ _, hb⟩
    · have hsome : ∀ c ∈ children i, ∃ zs, walk children visit node n c = some zs := by
        intro c hc
        obtain ⟨x, hx⟩ := gather_some hys hc
        obtain ⟨zs, hzs, -⟩ := Option.map_eq_some_iff.mp hx
        exact ⟨zs, hzs⟩
      have hdown : ∀ c, parent c = some i → ∀ b, (b = node c ∨ ∃ zs,
          walk children visit node n c = some zs ∧ b ∈ zs) →
          ∃ a ∈ children i, ∃ x, (walk children visit node n a).map (· ++ [node a]) = some x ∧
            b ∈ x := by
        rintro c hci b (hb | ⟨zs, hzs, hb⟩)
        · obtain ⟨zs, hzs⟩ := hsome c ((hchild i c).mpr hci)
          exact ⟨c, (hchild i c).mpr hci, zs ++ [node c], by simp [hzs], by simp [hb]⟩
        · exact ⟨c, (hchild i c).mpr hci, zs ++ [node c], by simp [hzs], by simp [hb]⟩
      rintro (⟨j, hj, hb⟩ | ⟨j, k, hjk, hk, hb⟩)
      · rcases hj.cases_child with rfl | ⟨c, hjc, hci⟩
        · exact Or.inr hb
        · obtain ⟨zs, hzs⟩ := hsome c ((hchild i c).mpr hci)
          exact Or.inl (hdown c hci b (Or.inr ⟨zs, hzs, (ih hzs).mpr (Or.inl ⟨j, hjc, hb⟩)⟩))
      · rcases hk.cases_child with rfl | ⟨c, hkc, hci⟩
        · exact Or.inl (hdown j hjk b (Or.inl hb))
        · obtain ⟨zs, hzs⟩ := hsome c ((hchild i c).mpr hci)
          exact Or.inl (hdown c hci b
            (Or.inr ⟨zs, hzs, (ih hzs).mpr (Or.inr ⟨j, k, hjk, hkc, hb⟩)⟩))

private theorem chain_of_below_eq_none (h : below children n frontier = none) :
    ∃ y, ∃ l : List ι, l.length = n ∧ (y :: l).IsChain fun a b => parent b = some a := by
  suffices hs : ∃ y ∈ frontier, ∃ l : List ι,
      l.length = n ∧ (y :: l).IsChain fun a b => parent b = some a from
    let ⟨y, _, l, hl⟩ := hs
    ⟨y, l, hl⟩
  induction n generalizing frontier with
  | zero =>
    cases frontier with
    | nil => simp [below] at h
    | cons a as => exact ⟨a, by simp, [], rfl, by simp⟩
  | succ n ih =>
    obtain ⟨c, hc, l, hl, hchain⟩ := ih (Option.map_eq_none_iff.mp h)
    obtain ⟨y, hy, hyc⟩ := List.mem_flatMap.mp hc
    exact ⟨y, hy, c :: l, by simp [hl], List.isChain_cons_cons.mpr ⟨(hchild y c).mp hyc, hchain⟩⟩

omit hchild in
private theorem chain_length_le (hrooted : ∀ i, Rooted parent i)
    (hU : ∀ i j, parent i = some j → i ∈ U) {i : ι} {l : List ι}
    (h : (i :: l).IsChain fun a b => parent b = some a) : l.length ≤ U.length := by
  let strict : ι → ι → Prop := fun a b => ∃ k, parent b = some k ∧ Above parent k a
  have htrans : IsTrans ι strict := ⟨by
    rintro a b c ⟨k, hk, hka⟩ ⟨m, hm, hmb⟩
    exact ⟨m, hm, (hmb.tail hk).trans hka⟩⟩
  have hpair : (i :: l).Pairwise strict :=
    (h.imp fun a b hab => ⟨a, hab, Above.refl _ _⟩).pairwise
  have hnodup : l.Nodup := by
    refine (List.pairwise_cons.mp hpair).2.imp ?_
    rintro a b ⟨k, hk, hka⟩ rfl
    exact (hrooted a).not_above hk hka
  have hsub : l ⊆ U := by
    intro x hx
    obtain ⟨k, hk, -⟩ := (List.pairwise_cons.mp hpair).1 x hx
    exact hU x k hk
  exact (List.subperm_of_subset hnodup hsub).length_le

theorem below_isSome (hrooted : ∀ i, Rooted parent i) (hU : ∀ i j, parent i = some j → i ∈ U)
    (frontier : List ι) : ∃ xs, below children (U.length + 1) frontier = some xs := by
  cases h : below children (U.length + 1) frontier with
  | some xs => exact ⟨xs, rfl⟩
  | none =>
    obtain ⟨y, l, hl, hchain⟩ := chain_of_below_eq_none hchild h
    have := chain_length_le hrooted hU hchain
    omega

end Walks

end SpatiumDdi.Forest
