import Mathlib.Data.Fintype.Card
import Mathlib.Data.List.Sort

/-!
Union-find by parent pointers with path halving, and no ranks. A root points at itself. `Path` says
that a root is reached, and in how many steps; from it come the fuel a `find` needs, that halving
moves no root, and that the classes after a list of unions are the equivalence its pairs generate.
-/

namespace SpatiumDdi.UnionFind

/-- The root above `i` is `r`, `k` steps away. -/
inductive Path (parent : ℕ → ℕ) : ℕ → ℕ → ℕ → Prop
  | root {r : ℕ} (h : parent r = r) : Path parent r r 0
  | up {i r k : ℕ} (h : parent i ≠ i) (above : Path parent (parent i) r k) :
      Path parent i r (k + 1)

/-- The loop of a `find`, each node on the way being pointed at its grandparent. -/
def find : ℕ → (ℕ → ℕ) → ℕ → ℕ × (ℕ → ℕ)
  | 0, parent, i => (i, parent)
  | fuel + 1, parent, i =>
    if parent i = i then (i, parent)
    else find fuel (Function.update parent i (parent (parent i))) (parent (parent i))

/-- The root of `j` is pointed at that of `i`. -/
def union (fuel : ℕ) (parent : ℕ → ℕ) (i j : ℕ) : ℕ → ℕ :=
  let a := find fuel parent i
  let b := find fuel a.2 j
  Function.update b.2 b.1 a.1

/-- Below `n` every pointer stays below `n` and every node has a root. -/
structure Forest (n : ℕ) (parent : ℕ → ℕ) : Prop where
  inside : ∀ i < n, parent i < n
  rooted : ∀ i < n, ∃ r k, Path parent i r k

def Same (parent : ℕ → ℕ) (i j : ℕ) : Prop :=
  ∃ r k l, Path parent i r k ∧ Path parent j r l

variable {parent : ℕ → ℕ} {i j r s k l n : ℕ}

theorem Path.root_eq (h : Path parent i r k) : parent r = r := by
  induction h with
  | root h => exact h
  | up _ _ ih => exact ih

theorem Path.unique (h : Path parent i r k) (h' : Path parent i s l) : r = s ∧ k = l := by
  induction h generalizing l with
  | root hr =>
    cases h' with
    | root => exact ⟨rfl, rfl⟩
    | up hne _ => exact absurd hr hne
  | up hne _ ih =>
    cases h' with
    | root hr => exact absurd hr hne
    | up _ above =>
      obtain ⟨hrs, hkl⟩ := ih above
      exact ⟨hrs, congrArg (· + 1) hkl⟩

section

variable (hinside : ∀ i < n, parent i < n)
include hinside

section

variable (h : Path parent i r k)
include h

theorem Path.lt (hi : i < n) : r < n := by
  induction h with
  | root _ => exact hi
  | up _ _ ih => exact ih (hinside _ hi)

theorem Path.exists_at (hi : i < n) (hl : l ≤ k) : ∃ j < n, Path parent j r l := by
  induction h with
  | root hr => exact ⟨_, hi, Nat.le_zero.mp hl ▸ .root hr⟩
  | up hne above ih =>
    rcases Nat.lt_or_eq_of_le hl with hl | rfl
    · exact ih (hinside _ hi) (Nat.le_of_lt_succ hl)
    · exact ⟨_, hi, .up hne above⟩

theorem Path.length_lt (hi : i < n) : k < n := by
  choose node hnode hpath using fun l : Fin (k + 1) =>
    h.exists_at hinside hi (Nat.le_of_lt_succ l.isLt)
  have hinjective : Function.Injective fun l => (⟨node l, hnode l⟩ : Fin n) := by
    intro a b hab
    have hpaths := hpath a
    rw [show node a = node b from congrArg Fin.val hab] at hpaths
    exact Fin.ext (hpaths.unique (hpath b)).2
  have hcard := Fintype.card_le_of_injective _ hinjective
  rw [Fintype.card_fin, Fintype.card_fin] at hcard
  exact hcard

end

end

theorem Path.update_far (h : Path parent j s l) (hi : Path parent i r k) (hlk : l < k) (v : ℕ) :
    Path (Function.update parent i v) j s l := by
  have hne : ∀ {m t d}, Path parent m t d → d < k → m ≠ i := by
    rintro m t d hm hd rfl
    exact absurd (hm.unique hi).2 (Nat.ne_of_lt hd)
  induction h with
  | root hroot =>
    have hupdate := Function.update_of_ne (hne (.root hroot) hlk) v parent
    exact .root (hupdate.trans hroot)
  | up hup above ih =>
    have hupdate := Function.update_of_ne (hne (.up hup above) hlk) v parent
    refine .up (fun hself => hup (hupdate.symm.trans hself)) ?_
    rw [hupdate]
    exact ih (Nat.lt_of_succ_lt hlk)

theorem Path.halve (h : Path parent i r k) (hne : parent i ≠ i) (hj : Path parent j s l) :
    ∃ l' ≤ l, Path (Function.update parent i (parent (parent i))) j s l' := by
  induction hj with
  | @root t hroot =>
    have hti : t ≠ i := fun heq => hne (heq ▸ hroot)
    exact ⟨0, Nat.le_refl 0, .root ((Function.update_of_ne hti _ parent).trans hroot)⟩
  | @up m t d hup above ih =>
    by_cases hmi : m = i
    · subst hmi
      have hself : Function.update parent m (parent (parent m)) m = parent (parent m) :=
        Function.update_self _ _ _
      cases above with
      | root hroot =>
        have hkeep : Function.update parent m (parent (parent m)) (parent m) = parent m :=
          (Function.update_of_ne hup _ parent).trans hroot
        refine ⟨1, Nat.le_refl 1, .up ?_ ?_⟩
        · rw [hself, hroot]
          exact hup
        · rw [hself, hroot]
          rw [hroot] at hkeep
          exact .root hkeep
      | @up _ _ d hup' above =>
        have hpath : Path parent m t (d + 1 + 1) := .up hup (.up hup' above)
        have hnext : parent (parent m) ≠ m := by
          intro heq
          rw [heq] at above
          exact absurd (above.unique hpath).2 (by omega)
        refine ⟨d + 1, Nat.le_succ _, .up ?_ ?_⟩
        · rw [hself]
          exact hnext
        · rw [hself]
          exact above.update_far hpath (by omega) _
    · obtain ⟨l', hl', hpath⟩ := ih
      have hkeep := Function.update_of_ne hmi (parent (parent i)) parent
      refine ⟨l' + 1, Nat.succ_le_succ hl', .up ?_ ?_⟩
      · rw [hkeep]
        exact hup
      · rw [hkeep]
        exact hpath

def Keeps (parent parent' : ℕ → ℕ) : Prop :=
  ∀ j s l, Path parent j s l → ∃ l', Path parent' j s l'

theorem Keeps.refl (parent : ℕ → ℕ) : Keeps parent parent := fun _ _ l h => ⟨l, h⟩

theorem Keeps.trans {a b c : ℕ → ℕ} (h : Keeps a b) (h' : Keeps b c) : Keeps a c := by
  intro j s l hpath
  obtain ⟨l', hb⟩ := h j s l hpath
  exact h' j s l' hb

section

variable (hf : Forest n parent)
include hf

theorem Forest.halve (hi : i < n) (hne : parent i ≠ i) :
    Forest n (Function.update parent i (parent (parent i))) ∧
      Keeps parent (Function.update parent i (parent (parent i))) := by
  obtain ⟨r, k, hpath⟩ := hf.rooted i hi
  have hkeeps : Keeps parent (Function.update parent i (parent (parent i))) := by
    intro j s l hj
    obtain ⟨l', _, h⟩ := hpath.halve hne hj
    exact ⟨l', h⟩
  refine ⟨⟨fun j hj => ?_, fun j hj => ?_⟩, hkeeps⟩
  · by_cases hji : j = i
    · rw [hji, Function.update_self]
      exact hf.inside _ (hf.inside i hi)
    · rw [Function.update_of_ne hji]
      exact hf.inside j hj
  · obtain ⟨s, l, hj⟩ := hf.rooted j hj
    obtain ⟨l', h⟩ := hkeeps j s l hj
    exact ⟨s, l', h⟩

theorem find_path (hi : i < n) (h : Path parent i r k) (fuel : ℕ) (hk : k ≤ fuel) :
    (find fuel parent i).1 = r ∧ Forest n (find fuel parent i).2 ∧
      Keeps parent (find fuel parent i).2 := by
  induction fuel generalizing parent i k with
  | zero =>
    rw [Nat.le_zero.mp hk] at h
    cases h with
    | root _ => exact ⟨rfl, hf, Keeps.refl parent⟩
  | succ fuel ih =>
    rw [find]
    split
    next hroot =>
      cases h with
      | root _ => exact ⟨rfl, hf, Keeps.refl parent⟩
      | up hne _ => exact absurd hroot hne
    next hne =>
      obtain ⟨hf', hkeeps⟩ := hf.halve hi hne
      have hnext : ∃ k' ≤ fuel, Path (Function.update parent i (parent (parent i)))
          (parent (parent i)) r k' := by
        cases h with
        | root hroot => exact absurd hroot hne
        | up _ above =>
          cases above with
          | root hroot =>
            rw [hroot]
            exact ⟨0, Nat.zero_le _, .root ((Function.update_of_ne hne _ parent).trans hroot)⟩
          | @up _ _ d hup' above =>
            have hpath : Path parent i r (d + 1 + 1) := .up hne (.up hup' above)
            exact ⟨d, by omega, above.update_far hpath (by omega) _⟩
      obtain ⟨k', hk', hpath⟩ := hnext
      obtain ⟨hr, hforest, hmore⟩ := ih hf' (hf.inside _ (hf.inside i hi)) hpath hk'
      exact ⟨hr, hforest, hkeeps.trans hmore⟩

theorem find_spec (hi : i < n) :
    (∃ k, Path parent i (find n parent i).1 k) ∧ Forest n (find n parent i).2 ∧
      Keeps parent (find n parent i).2 := by
  obtain ⟨r, k, hpath⟩ := hf.rooted i hi
  obtain ⟨hr, hforest, hkeeps⟩ :=
    find_path hf hi hpath n (Nat.le_of_lt (hpath.length_lt hf.inside hi))
  exact ⟨⟨k, hr ▸ hpath⟩, hforest, hkeeps⟩

end

variable {parent' : ℕ → ℕ} {m a b : ℕ} {pairs : List (ℕ × ℕ)}

section

variable (hf : Forest n parent)
include hf

theorem find_of_keeps (hf' : Forest n parent') (h : Keeps parent parent') (hi : i < n) :
    (find n parent' i).1 = (find n parent i).1 := by
  obtain ⟨⟨k, hpath⟩, _⟩ := find_spec hf hi
  obtain ⟨⟨k', hpath'⟩, _⟩ := find_spec hf' hi
  obtain ⟨l, hkept⟩ := h i _ k hpath
  exact (hpath'.unique hkept).1

theorem find_eq_iff_same (hi : i < n) (hj : j < n) :
    (find n parent i).1 = (find n parent j).1 ↔ Same parent i j := by
  obtain ⟨⟨k, hpath⟩, _⟩ := find_spec hf hi
  obtain ⟨⟨l, hpath'⟩, _⟩ := find_spec hf hj
  constructor
  · intro heq
    exact ⟨_, k, l, hpath, heq ▸ hpath'⟩
  · rintro ⟨r, k', l', hir, hjr⟩
    rw [(hpath.unique hir).1, (hpath'.unique hjr).1]

theorem Forest.same_refl (hi : i < n) : Same parent i i := by
  obtain ⟨r, k, h⟩ := hf.rooted i hi
  exact ⟨r, k, k, h, h⟩

end

theorem Same.symm (h : Same parent i j) : Same parent j i := by
  obtain ⟨r, k, l, hi, hj⟩ := h
  exact ⟨r, l, k, hj, hi⟩

theorem Same.trans (h : Same parent i j) (h' : Same parent j m) : Same parent i m := by
  obtain ⟨r, k, l, hi, hj⟩ := h
  obtain ⟨s, k', l', hj', hm⟩ := h'
  obtain ⟨rfl, _⟩ := hj.unique hj'
  exact ⟨r, k, l', hi, hm⟩

theorem Keeps.same (h : Keeps parent parent') (hij : Same parent i j) : Same parent' i j := by
  obtain ⟨r, k, l, hi, hj⟩ := hij
  obtain ⟨k', hi'⟩ := h i r k hi
  obtain ⟨l', hj'⟩ := h j r l hj
  exact ⟨r, k', l', hi', hj'⟩

theorem Keeps.same_iff (hf : Forest n parent) (h : Keeps parent parent') (hi : i < n) (hj : j < n) :
    Same parent' i j ↔ Same parent i j := by
  refine ⟨?_, h.same⟩
  rintro ⟨r, k, l, hi', hj'⟩
  obtain ⟨a, p, hia⟩ := hf.rooted i hi
  obtain ⟨b, q, hjb⟩ := hf.rooted j hj
  obtain ⟨_, ha⟩ := h i a p hia
  obtain ⟨_, hb⟩ := h j b q hjb
  refine ⟨r, p, q, ?_, ?_⟩
  · rw [← (ha.unique hi').1]
    exact hia
  · rw [← (hb.unique hj').1]
    exact hjb

theorem Path.link {t d : ℕ} (hm : Path parent m t d) (hr : parent r = r) (hs : parent s = s)
    (hne : s ≠ r) : ∃ d', Path (Function.update parent s r) m (if t = s then r else t) d' := by
  have hrkeep : Function.update parent s r r = r := (Function.update_of_ne hne.symm r parent).trans hr
  induction hm with
  | @root t hroot =>
    by_cases hts : t = s
    · subst hts
      rw [if_pos rfl]
      refine ⟨1, .up ?_ ?_⟩
      · rw [Function.update_self]
        exact hne.symm
      · rw [Function.update_self]
        exact .root hrkeep
    · rw [if_neg hts]
      exact ⟨0, .root ((Function.update_of_ne hts r parent).trans hroot)⟩
  | @up m t d hup _ ih =>
    obtain ⟨d', hpath⟩ := ih
    have hms : m ≠ s := fun heq => hup (heq ▸ hs)
    have hkeep := Function.update_of_ne hms r parent
    refine ⟨d' + 1, .up ?_ ?_⟩
    · rw [hkeep]
      exact hup
    · rw [hkeep]
      exact hpath

def Joined (parent : ℕ → ℕ) (i j a b : ℕ) : Prop :=
  Same parent a b ∨ Same parent a i ∧ Same parent j b ∨ Same parent a j ∧ Same parent i b

theorem Forest.link (hf : Forest n parent) (hr : parent r = r) (hs : parent s = s)
    (hrn : r < n) :
    Forest n (Function.update parent s r) ∧ ∀ a < n, ∀ b < n,
      (Same (Function.update parent s r) a b ↔ Joined parent r s a b) := by
  have hrootr : Path parent r r 0 := .root hr
  have hroots : Path parent s s 0 := .root hs
  by_cases hne : s = r
  · subst hne
    have hupdate : Function.update parent s s = parent := by
      rw [Function.update_eq_self_iff]
      exact hs.symm
    rw [hupdate]
    refine ⟨hf, fun a _ b _ => ⟨.inl, ?_⟩⟩
    rintro (hab | ⟨ha, hb⟩ | ⟨ha, hb⟩)
    · exact hab
    · exact ha.trans hb
    · exact ha.trans hb
  refine ⟨⟨fun a ha => ?_, fun a ha => ?_⟩, fun a ha b hb => ?_⟩
  · by_cases has : a = s
    · rw [has, Function.update_self]
      exact hrn
    · rw [Function.update_of_ne has]
      exact hf.inside a ha
  · obtain ⟨t, d, hpath⟩ := hf.rooted a ha
    obtain ⟨d', hlink⟩ := hpath.link hr hs hne
    exact ⟨_, d', hlink⟩
  · obtain ⟨t, d, hat⟩ := hf.rooted a ha
    obtain ⟨u, e, hbu⟩ := hf.rooted b hb
    obtain ⟨d', hat'⟩ := hat.link hr hs hne
    obtain ⟨e', hbu'⟩ := hbu.link hr hs hne
    have hsame : ∀ {x y p q : ℕ} {z w : ℕ}, Path parent x p z → Path parent y q w →
        (Same parent x y ↔ p = q) := by
      intro x y p q z w hx hy
      constructor
      · rintro ⟨v, k, l, hxv, hyv⟩
        rw [(hx.unique hxv).1, (hy.unique hyv).1]
      · rintro rfl
        exact ⟨p, z, w, hx, hy⟩
    have hsame' : Same (Function.update parent s r) a b ↔
        (if t = s then r else t) = if u = s then r else u := by
      constructor
      · rintro ⟨v, k, l, hav, hbv⟩
        rw [(hat'.unique hav).1, (hbu'.unique hbv).1]
      · intro heq
        rw [heq] at hat'
        exact ⟨_, d', e', hat', hbu'⟩
    rw [hsame', Joined, hsame hat hbu, hsame hat hrootr, hsame hroots hbu, hsame hat hroots,
      hsame hrootr hbu]
    split <;> split <;> omega

theorem union_spec (hf : Forest n parent) (hi : i < n) (hj : j < n) :
    Forest n (union n parent i j) ∧ ∀ a < n, ∀ b < n,
      (Same (union n parent i j) a b ↔ Joined parent i j a b) := by
  obtain ⟨⟨k, hri⟩, hf₁, hkeeps₁⟩ := find_spec hf hi
  obtain ⟨⟨l, hrj⟩, hf₂, hkeeps₂⟩ := find_spec hf₁ hj
  have hkeeps := hkeeps₁.trans hkeeps₂
  obtain ⟨k', hri₂⟩ := hkeeps i _ k hri
  obtain ⟨l', hrj₂⟩ := hkeeps₂ j _ l hrj
  obtain ⟨hforest, hsame⟩ := hf₂.link hri₂.root_eq hrj₂.root_eq (hri₂.lt hf₂.inside hi)
  refine ⟨hforest, fun a ha b hb => (hsame a ha b hb).trans ?_⟩
  -- A root is in the class it is the root of.
  have hi₂ : ∀ c, Same (find n (find n parent i).2 j).2 c (find n parent i).1 ↔
      Same (find n (find n parent i).2 j).2 c i := by
    have hroot : Same (find n (find n parent i).2 j).2 i (find n parent i).1 :=
      ⟨_, k', 0, hri₂, .root hri₂.root_eq⟩
    exact fun c => ⟨fun h => h.trans hroot.symm, fun h => h.trans hroot⟩
  have hj₂ : ∀ c, Same (find n (find n parent i).2 j).2 c (find n (find n parent i).2 j).1 ↔
      Same (find n (find n parent i).2 j).2 c j := by
    have hroot : Same (find n (find n parent i).2 j).2 j (find n (find n parent i).2 j).1 :=
      ⟨_, l', 0, hrj₂, .root hrj₂.root_eq⟩
    exact fun c => ⟨fun h => h.trans hroot.symm, fun h => h.trans hroot⟩
  have hsymm : ∀ {parent : ℕ → ℕ} {c d : ℕ}, Same parent c d ↔ Same parent d c :=
    ⟨Same.symm, Same.symm⟩
  unfold Joined
  rw [hi₂, hj₂, hsymm (c := (find n (find n parent i).2 j).1), hj₂,
    hsymm (c := (find n parent i).1), hi₂, hkeeps.same_iff hf ha hb, hkeeps.same_iff hf ha hi,
    hkeeps.same_iff hf hb hj, hkeeps.same_iff hf ha hj, hkeeps.same_iff hf hb hi,
    hsymm (c := b) (d := j), hsymm (c := b) (d := i)]

def unions (n : ℕ) (pairs : List (ℕ × ℕ)) (parent : ℕ → ℕ) : ℕ → ℕ :=
  pairs.foldl (fun parent pair => union n parent pair.1 pair.2) parent

theorem forest_id (n : ℕ) : Forest n id := ⟨fun _ h => h, fun i _ => ⟨i, 0, .root rfl⟩⟩

theorem same_id : Same id a b ↔ a = b := by
  constructor
  · rintro ⟨r, k, l, ha, hb⟩
    have hself : ∀ c, Path id c c 0 := fun c => .root rfl
    rw [(ha.unique (hself a)).1] at hb
    exact (hb.unique (hself b)).1
  · rintro rfl
    exact ⟨a, 0, 0, .root rfl, .root rfl⟩

/-- What the unions join: pairs of the list, and what is one class before. -/
def Tied (n : ℕ) (parent : ℕ → ℕ) (pairs : List (ℕ × ℕ)) (a b : ℕ) : Prop :=
  a < n ∧ b < n ∧ Same parent a b ∨ (a, b) ∈ pairs

theorem eqvGen_of_forall {α : Type} {p q : α → α → Prop}
    (h : ∀ a b, p a b → Relation.EqvGen q a b) {a b : α} (hab : Relation.EqvGen p a b) :
    Relation.EqvGen q a b := by
  induction hab with
  | rel a b hab => exact h a b hab
  | refl a => exact .refl a
  | symm a b _ ih => exact ih.symm
  | trans a b c _ _ ih ih' => exact ih.trans _ _ _ ih'

theorem unions_spec (hf : Forest n parent) (hpairs : ∀ e ∈ pairs, e.1 < n ∧ e.2 < n) :
    Forest n (unions n pairs parent) ∧
      (∀ a < n, ∀ b < n, Same parent a b → Same (unions n pairs parent) a b) ∧
      (∀ e ∈ pairs, Same (unions n pairs parent) e.1 e.2) ∧
      ∀ a < n, ∀ b < n, Same (unions n pairs parent) a b →
        Relation.EqvGen (Tied n parent pairs) a b := by
  induction pairs generalizing parent with
  | nil => exact ⟨hf, fun _ _ _ _ h => h, nofun, fun a ha b hb h => .rel a b (.inl ⟨ha, hb, h⟩)⟩
  | cons e pairs ih =>
    obtain ⟨⟨he₁, he₂⟩, hrest⟩ := List.forall_mem_cons.mp hpairs
    obtain ⟨hforest, hsame⟩ := union_spec hf he₁ he₂
    obtain ⟨hforest', hmono, hjoin, hsound⟩ := ih hforest hrest
    have hself : Same (union n parent e.1 e.2) e.1 e.2 :=
      (hsame _ he₁ _ he₂).mpr (.inr (.inl ⟨hf.same_refl he₁, hf.same_refl he₂⟩))
    refine ⟨hforest', fun a ha b hb h => hmono a ha b hb ((hsame a ha b hb).mpr (.inl h)),
      List.forall_mem_cons.mpr ⟨hmono _ he₁ _ he₂ hself, hjoin⟩, fun a ha b hb h => ?_⟩
    have hpair : Relation.EqvGen (Tied n parent (e :: pairs)) e.1 e.2 :=
      .rel _ _ (.inr List.mem_cons_self)
    have htied : ∀ {x y : ℕ}, x < n → y < n → Same parent x y →
        Relation.EqvGen (Tied n parent (e :: pairs)) x y :=
      fun hx hy hxy => .rel _ _ (.inl ⟨hx, hy, hxy⟩)
    refine eqvGen_of_forall ?_ (hsound a ha b hb h)
    rintro x y (⟨hx, hy, hxy⟩ | hmem)
    · rcases (hsame x hx y hy).mp hxy with hxy | ⟨hxi, hjy⟩ | ⟨hxj, hiy⟩
      · exact htied hx hy hxy
      · exact ((htied hx he₁ hxi).trans _ _ _ hpair).trans _ _ _ (htied he₂ hy hjy)
      · exact ((htied hx he₂ hxj).trans _ _ _ hpair.symm).trans _ _ _ (htied he₁ hy hiy)
    · exact .rel _ _ (.inr (List.mem_cons_of_mem _ hmem))

/-- The classes after the unions are what their pairs generate. -/
theorem same_unions_iff (hpairs : ∀ e ∈ pairs, e.1 < n ∧ e.2 < n) (ha : a < n) (hb : b < n) :
    Same (unions n pairs id) a b ↔ Relation.EqvGen (fun x y => (x, y) ∈ pairs) a b := by
  obtain ⟨hforest, _, hjoin, hsound⟩ := unions_spec (forest_id n) hpairs
  constructor
  · intro h
    refine eqvGen_of_forall ?_ (hsound a ha b hb h)
    rintro x y (⟨_, _, hxy⟩ | hmem)
    · rw [same_id.mp hxy]
      exact .refl y
    · exact .rel x y hmem
  · intro h
    have hclass : a = b ∨ a < n ∧ b < n ∧ Same (unions n pairs id) a b := by
      clear ha hb
      induction h with
      | rel x y hmem => exact .inr ⟨(hpairs _ hmem).1, (hpairs _ hmem).2, hjoin _ hmem⟩
      | refl x => exact .inl rfl
      | symm x y _ ih =>
        rcases ih with rfl | ⟨hx, hy, hxy⟩
        · exact .inl rfl
        · exact .inr ⟨hy, hx, hxy.symm⟩
      | trans x y z _ _ ih ih' =>
        rcases ih with rfl | ⟨hx, hy, hxy⟩
        · exact ih'
        · rcases ih' with rfl | ⟨_, hz, hyz⟩
          · exact .inr ⟨hx, hy, hxy⟩
          · exact .inr ⟨hx, hz, hxy.trans hyz⟩
    rcases hclass with rfl | ⟨_, _, hab⟩
    · exact hforest.same_refl ha
    · exact hab

end SpatiumDdi.UnionFind
