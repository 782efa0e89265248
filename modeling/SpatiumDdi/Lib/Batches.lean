import Mathlib.Data.Option.Basic
import Mathlib.Data.List.Basic

/-!
Deleting in batches and restoring them. Keys hang under parents; a deletion
stamps live keys with a fresh batch number and takes with a key its live
children and the live keys it owns. A restore clears one batch; a key whose
owner is deleted under another batch joins that batch instead. A key is never
deleted after its parent, so batches are nested upwards, the latest one can
always be restored, and rounds of attempts, in any order, bring back the stamps
from before.
-/

namespace SpatiumDdi.Batches

variable {K : Type}

/-- The batch each key is deleted under; `none` is a live key. -/
abbrev Stamps (K : Type) := K → Option Nat

/-- What a key hangs under and what owns it. Neither parents nor owners are
owned. -/
structure Links (K : Type) where
  parent : K → K → Prop
  owner : K → Option K
  parent_free : ∀ p k, parent p k → owner p = none
  owner_free : ∀ k s, owner k = some s → owner s = none

variable (L : Links K)

/-- No live key hangs under a deleted one, or is owned by one. -/
structure Coherent (d : Stamps K) : Prop where
  parent : ∀ k p, L.parent p k → d k = none → d p = none
  owner : ∀ k s, L.owner k = some s → d k = none → d s = none

/-- The live keys `S` become batch `b`. -/
structure Deletes (b : Nat) (S : K → Prop) (d d' : Stamps K) : Prop where
  live : ∀ k, S k → d k = none
  children : ∀ k p, L.parent p k → S p → d k = none → S k
  owned : ∀ k s, L.owner k = some s → S s → d k = none → S k
  inside : ∀ k, S k → d' k = some b
  outside : ∀ k, ¬ S k → d' k = d k

def restored (b : Nat) (d : Stamps K) : Stamps K := fun k =>
  if d k = some b then
    match (L.owner k).bind d with
    | some c => if c = b then none else some c
    | none => none
  else d k

/-- No key of the batch hangs under a key of another one. -/
def Clear (b : Nat) (d : Stamps K) : Prop :=
  ∀ k p, L.parent p k → d k = some b → d p = none ∨ d p = some b

def attempt (accepts : Nat → Stamps K → Bool) (d : Stamps K) (b : Nat) : Stamps K :=
  if accepts b d then restored L b d else d

def attempts (accepts : Nat → Stamps K → Bool) (d : Stamps K) (order : List Nat) : Stamps K :=
  order.foldl (attempt L accepts) d

/-- What deletions and restores keep: the old batches are there, the new ones
lie between `n₀` and `n`, and a key's batch is at most its parent's. -/
structure Nested (d₀ : Stamps K) (n₀ n : Nat) (d : Stamps K) : Prop where
  coherent : Coherent L d
  old : ∀ k b, d₀ k = some b → d k = some b
  new : ∀ k, d₀ k = none → d k = none ∨ ∃ b, d k = some b ∧ n₀ ≤ b ∧ b < n
  upward : ∀ k p b, L.parent p k → d₀ k = none → d k = some b →
    d p = none ∨ ∃ c, d p = some c ∧ b ≤ c

variable {L} {d₀ d d' : Stamps K} {n₀ n b : Nat} {k : K}

theorem restored_none (h : d k = none) : restored L b d k = none := by
  simp [restored, h]

theorem restored_of_ne (h : d k ≠ some b) : restored L b d k = d k := if_neg h

theorem restored_of_free (hk : L.owner k = none) (h : d k = some b) : restored L b d k = none := by
  simp [restored, h, hk]

theorem restored_eq_some {c : Nat} (h : restored L b d k = some c) :
    (d k = some c ∧ c ≠ b) ∨ (d k = some b ∧ c ≠ b ∧ ∃ s, L.owner k = some s ∧ d s = some c) := by
  unfold restored at h
  split at h
  · rename_i hk
    split at h
    · rename_i c' hbind
      obtain ⟨hne, h⟩ := Option.ite_none_left_eq_some.mp h
      obtain rfl := Option.some.inj h
      obtain ⟨s, hs, hd⟩ := Option.bind_eq_some_iff.mp hbind
      exact Or.inr ⟨hk, hne, s, hs, hd⟩
    · simp at h
  · rename_i hk
    exact Or.inl ⟨h, fun hc => hk (hc ▸ h)⟩

theorem restored_eq_none (h : restored L b d k = none) :
    d k = none ∨ (d k = some b ∧ ∀ s, L.owner k = some s → d s = none ∨ d s = some b) := by
  unfold restored at h
  split at h
  · rename_i hk
    refine Or.inr ⟨hk, fun s hs => ?_⟩
    cases hd : d s with
    | none => exact Or.inl rfl
    | some c =>
      rw [hs, Option.bind_some, hd] at h
      by_cases hc : c = b
      · exact Or.inr (hc ▸ rfl)
      · simp [hc] at h
  · exact Or.inl h

namespace Nested

theorem refl (h : Coherent L d₀) : Nested L d₀ n₀ n₀ d₀ where
  coherent := h
  old := fun _ _ h => h
  new := fun _ h => Or.inl h
  upward := fun k p b _ hk hb => by simp [hk] at hb

theorem delete (h : Nested L d₀ n₀ n d) (hn : n₀ ≤ n) {S : K → Prop}
    (hdel : Deletes L n S d d') : Nested L d₀ n₀ (n + 1) d' := by
  have hlive : ∀ k, d' k = none → d k = none ∧ ¬ S k := by
    intro k hk
    have hnot : ¬ S k := fun hS => by simp [hdel.inside k hS] at hk
    exact ⟨hdel.outside k hnot ▸ hk, hnot⟩
  -- A live key is live afterwards or in the new batch.
  have hafter : ∀ k, d k = none → d' k = none ∨ d' k = some n := by
    intro k hk
    by_cases hS : S k
    · exact Or.inr (hdel.inside k hS)
    · exact Or.inl ((hdel.outside k hS).trans hk)
  have hstays : ∀ k c, d k = some c → d' k = some c := by
    intro k c hk
    have hnot : ¬ S k := fun hS => by simp [hdel.live k hS] at hk
    rw [hdel.outside k hnot, hk]
  constructor
  · constructor
    · intro k p hp hk
      obtain ⟨hk, hnot⟩ := hlive k hk
      have hnotp : ¬ S p := fun hS => hnot (hdel.children k p hp hS hk)
      rw [hdel.outside p hnotp]
      exact h.coherent.parent k p hp hk
    · intro k s hs hk
      obtain ⟨hk, hnot⟩ := hlive k hk
      have hnots : ¬ S s := fun hS => hnot (hdel.owned k s hs hS hk)
      rw [hdel.outside s hnots]
      exact h.coherent.owner k s hs hk
  · exact fun k b hb => hstays k b (h.old k b hb)
  · intro k hk
    rcases h.new k hk with hd | ⟨b, hb, hle, hlt⟩
    · rcases hafter k hd with hd | hd
      · exact Or.inl hd
      · exact Or.inr ⟨n, hd, hn, by omega⟩
    · exact Or.inr ⟨b, hstays k b hb, hle, by omega⟩
  · intro k p b hp hk hb
    by_cases hS : S k
    · obtain rfl : n = b := by
        have := hdel.inside k hS
        rw [hb] at this
        exact (Option.some.inj this).symm
      rcases hafter p (h.coherent.parent k p hp (hdel.live k hS)) with hp | hp
      · exact Or.inl hp
      · exact Or.inr ⟨n, hp, Nat.le_refl n⟩
    · rw [hdel.outside k hS] at hb
      rcases h.upward k p b hp hk hb with hd | ⟨c, hc, hle⟩
      · rcases hafter p hd with hd | hd
        · exact Or.inl hd
        · rcases h.new k hk with hnone | ⟨b', hb', -, hlt⟩
          · simp [hb] at hnone
          · obtain rfl := Option.some.inj (hb.symm.trans hb')
            exact Or.inr ⟨n, hd, Nat.le_of_lt hlt⟩
      · exact Or.inr ⟨c, hstays p c hc, hle⟩

theorem restore (h : Nested L d₀ n₀ n d) (h₀ : Coherent L d₀) (hold : ∀ k c, d₀ k = some c → c < n₀)
    (hb : n₀ ≤ b) (hclear : Clear L b d) : Nested L d₀ n₀ n (restored L b d) := by
  have hparent : ∀ p k, L.parent p k → d p = none ∨ d p = some b → restored L b d p = none := by
    rintro p k hp (hd | hd)
    · exact restored_none hd
    · exact restored_of_free (L.parent_free p k hp) hd
  constructor
  · constructor
    · intro k p hp hk
      rcases restored_eq_none hk with hd | ⟨hd, -⟩
      · exact restored_none (h.coherent.parent k p hp hd)
      · exact hparent p k hp (hclear k p hp hd)
    · intro k s hs hk
      rcases restored_eq_none hk with hd | ⟨-, hd⟩
      · exact restored_none (h.coherent.owner k s hs hd)
      · rcases hd s hs with hd | hd
        · exact restored_none hd
        · exact restored_of_free (L.owner_free k s hs) hd
  · intro k c hc
    rw [restored_of_ne, h.old k c hc]
    rw [h.old k c hc]
    have := hold k c hc
    simp only [ne_eq, Option.some.injEq]
    omega
  · intro k hk
    cases hr : restored L b d k with
    | none => exact Or.inl rfl
    | some c =>
      right
      rcases restored_eq_some hr with ⟨hd, -⟩ | ⟨-, -, s, hs, hd⟩
      · rcases h.new k hk with hnone | ⟨c', hc', hle, hlt⟩
        · simp [hd] at hnone
        · obtain rfl := Option.some.inj (hd.symm.trans hc')
          exact ⟨c, rfl, hle, hlt⟩
      · rcases h.new s (h₀.owner k s hs hk) with hnone | ⟨c', hc', hle, hlt⟩
        · simp [hd] at hnone
        · obtain rfl := Option.some.inj (hd.symm.trans hc')
          exact ⟨c, rfl, hle, hlt⟩
  · intro k p c hp hk hc
    rcases restored_eq_some hc with ⟨hd, -⟩ | ⟨hd, -⟩
    · rcases h.upward k p c hp hk hd with hpd | ⟨c', hc', hle⟩
      · exact Or.inl (restored_none hpd)
      · by_cases hcb : c' = b
        · exact Or.inl (hparent p k hp (Or.inr (hcb ▸ hc')))
        · refine Or.inr ⟨c', ?_, hle⟩
          rw [restored_of_ne (by simpa [hc'] using hcb), hc']
    · exact Or.inl (hparent p k hp (hclear k p hp hd))

theorem clear_last (h : Nested L d₀ n₀ (n + 1) d) (h₀ : Coherent L d₀)
    (hold : ∀ k c, d₀ k = some c → c < n₀) (hn : n₀ ≤ n) : Clear L n d := by
  intro k p hp hk
  have hk₀ : d₀ k = none := by
    cases hd : d₀ k with
    | none => rfl
    | some c =>
      have hc := h.old k c hd
      rw [hk, Option.some.injEq] at hc
      have := hold k c hd
      omega
  rcases h.upward k p n hp hk₀ hk with hd | ⟨c, hc, hle⟩
  · exact Or.inl hd
  · rcases h.new p (h₀.parent k p hp hk₀) with hnone | ⟨c', hc', -, hlt⟩
    · simp [hc] at hnone
    · obtain rfl := Option.some.inj (hc.symm.trans hc')
      obtain rfl : c = n := by omega
      exact Or.inr hc

theorem restore_last (h : Nested L d₀ n₀ (n + 1) d) (h₀ : Coherent L d₀)
    (hold : ∀ k c, d₀ k = some c → c < n₀) (hn : n₀ ≤ n) :
    Nested L d₀ n₀ n (restored L n d) := by
  have hr := h.restore h₀ hold hn (h.clear_last h₀ hold hn)
  refine ⟨hr.coherent, hr.old, fun k hk => ?_, hr.upward⟩
  rcases hr.new k hk with hd | ⟨c, hc, hle, hlt⟩
  · exact Or.inl hd
  · refine Or.inr ⟨c, hc, hle, ?_⟩
    rcases restored_eq_some hc with ⟨-, hne⟩ | ⟨-, hne, -⟩ <;> omega

theorem eq_old (h : Nested L d₀ n₀ n₀ d) : d = d₀ := by
  funext k
  cases hk : d₀ k with
  | some b => exact h.old k b hk
  | none =>
    rcases h.new k hk with hd | ⟨b, -, hle, hlt⟩
    · exact hd
    · omega

end Nested

section Rounds

variable {accepts : Nat → Stamps K → Bool} (h₀ : Coherent L d₀)
  (hold : ∀ k c, d₀ k = some c → c < n₀) (hclear : ∀ b d, accepts b d = true → Clear L b d)
  {order : List Nat}
include h₀ hold hclear

theorem Nested.attempts (h : Nested L d₀ n₀ n d) (horder : ∀ b ∈ order, n₀ ≤ b) :
    Nested L d₀ n₀ n (attempts L accepts d order) := by
  induction order generalizing d with
  | nil => exact h
  | cons b rest ih =>
    refine ih ?_ fun c hc => horder c (by simp [hc])
    unfold attempt
    split
    · exact h.restore h₀ hold (horder b (by simp)) (hclear b d ‹_›)
    · exact h

section

variable (haccepts : ∀ b d, Nested L d₀ n₀ (b + 1) d → n₀ ≤ b → accepts b d = true)
include haccepts

theorem Nested.round (h : Nested L d₀ n₀ (n + 1) d) (hn : n₀ ≤ n) (horder : ∀ b ∈ order, n₀ ≤ b)
    (hmem : n ∈ order) : Nested L d₀ n₀ n (Batches.attempts L accepts d order) := by
  induction order generalizing d with
  | nil => simp at hmem
  | cons b rest ih =>
    have hrest : ∀ c ∈ rest, n₀ ≤ c := fun c hc => horder c (by simp [hc])
    rcases List.mem_cons.mp hmem with rfl | hmem
    · have hstep : attempt L accepts d n = restored L n d := if_pos (haccepts n d h hn)
      rw [Batches.attempts, List.foldl_cons, hstep]
      exact (h.restore_last h₀ hold hn).attempts h₀ hold hclear hrest
    · have hb : ∀ c ∈ [b], n₀ ≤ c := by simpa using horder b (by simp)
      exact ih (h.attempts h₀ hold hclear hb) hrest hmem

theorem Nested.rounds {rounds : List (List Nat)} {m : Nat}
    (hround : ∀ order ∈ rounds, (∀ b ∈ order, n₀ ≤ b) ∧
      ∀ b, n₀ ≤ b → b < m → b ∈ order) (hnm : n ≤ m) (hlen : n ≤ n₀ + rounds.length)
    (h : Nested L d₀ n₀ n d) (hn : n₀ ≤ n) : rounds.foldl (Batches.attempts L accepts) d = d₀ := by
  induction rounds generalizing d n with
  | nil =>
    obtain rfl : n = n₀ := by simp at hlen; omega
    exact h.eq_old
  | cons order rest ih =>
    obtain ⟨horder, hall⟩ := hround order (by simp)
    have hrest : ∀ o ∈ rest, (∀ b ∈ o, n₀ ≤ b) ∧ ∀ b, n₀ ≤ b → b < m → b ∈ o :=
      fun o ho => hround o (by simp [ho])
    simp only [List.length_cons] at hlen
    rw [List.foldl_cons]
    rcases Nat.lt_or_ge n₀ n with hlt | hge
    · obtain ⟨n', rfl⟩ : ∃ n', n = n' + 1 := ⟨n - 1, by omega⟩
      exact ih hrest (by omega) (by omega)
        (h.round h₀ hold hclear haccepts (by omega) horder (hall n' (by omega) (by omega)))
        (by omega)
    · obtain rfl : n = n₀ := by omega
      exact ih hrest hnm (by omega) (h.attempts h₀ hold hclear horder) hn

end

end Rounds

end SpatiumDdi.Batches
