import Mathlib.Data.Nat.Notation
import Mathlib.Logic.Function.Basic

/-!
Runs of an executable step function that may refuse an action: what holds in every state of a run, a
condition on each of its steps, and how the second gives the first.
-/

namespace SpatiumDdi.Runs

universe u v

variable {σ : Type u} {α : Type v} {step : σ → α → Option σ} {s s' : σ}

variable (step) in
def run (s : σ) : List α → Option σ
  | [] => some s
  | a :: as => (step s a).bind (run · as)

variable (step) in
/-- The property holds in every state of the run. -/
def Along (P : σ → Prop) (s : σ) : List α → Prop
  | [] => P s
  | a :: as => P s ∧ ∀ s', step s a = some s' → Along P s' as

variable (step) in
def Meets (C : σ → α → Prop) (s : σ) : List α → Prop
  | [] => True
  | a :: as => ∀ s', step s a = some s' → C s a ∧ Meets C s' as

variable {I P : σ → Prop} {C : σ → α → Prop} {a : α} {as : List α}

theorem Along.start (h : Along step P s as) : P s := by
  cases as with
  | nil => exact h
  | cons a as => exact h.1

theorem Meets.cons (hC : C s a) (hstep : step s a = some s') (hrest : Meets step C s' as) :
    Meets step C s (a :: as) := by
  intro mid hmid
  rw [hstep, Option.some.injEq] at hmid
  exact hmid ▸ ⟨hC, hrest⟩

theorem Meets.of_forall (h : ∀ a ∈ as, ∀ s, C s a) : Meets step C s as := by
  induction as generalizing s with
  | nil => trivial
  | cons a as ih =>
    intro s' _
    exact ⟨h a List.mem_cons_self s, ih fun b hb => h b (List.mem_cons_of_mem a hb)⟩

theorem Meets.append {bs : List α} (has : Meets step C s as)
    (hbs : ∀ s', run step s as = some s' → Meets step C s' bs) : Meets step C s (as ++ bs) := by
  induction as generalizing s with
  | nil => exact hbs s rfl
  | cons a as ih =>
    intro mid hmid
    obtain ⟨hC, hrest⟩ := has mid hmid
    refine ⟨hC, ih hrest fun s' hs' => hbs s' ?_⟩
    rw [run, hmid, Option.bind_some, hs']

section

variable (hstep : ∀ {s a s'}, I s → C s a → step s a = some s' → I s')
include hstep

/-- What every step that meets the condition preserves holds at the end of the run. -/
theorem run_of_step (hs : I s) (hmeets : Meets step C s as) (hrun : run step s as = some s') :
    I s' := by
  induction as generalizing s with
  | nil =>
    cases hrun
    exact hs
  | cons a as ih =>
    rw [run, Option.bind_eq_some_iff] at hrun
    obtain ⟨mid, hmid, hrest⟩ := hrun
    obtain ⟨hC, hmeets⟩ := hmeets mid hmid
    exact ih (hstep hs hC hmid) hmeets hrest

theorem along_of_step (hP : ∀ {s}, I s → P s) (hs : I s) (hmeets : Meets step C s as) :
    Along step P s as := by
  induction as generalizing s with
  | nil => exact hP hs
  | cons a as ih =>
    refine ⟨hP hs, fun s' hs' => ?_⟩
    obtain ⟨hC, hrest⟩ := hmeets s' hs'
    exact ih (hstep hs hC hs') hrest

end

/-- A property that a step keeps exactly when it meets the condition. -/
theorem along_iff_meets
    (hstep : ∀ {s a s'}, I s → P s → step s a = some s' → I s' ∧ (P s' ↔ C s a)) (hI : I s)
    (hP : P s) : Along step P s as ↔ Meets step C s as := by
  induction as generalizing s with
  | nil => exact iff_of_true hP trivial
  | cons a as ih =>
    have htail : ∀ s', step s a = some s' → (Along step P s' as ↔ C s a ∧ Meets step C s' as) := by
      intro s' hs'
      obtain ⟨hI', hiff⟩ := hstep hI hP hs'
      constructor
      · intro halong
        exact ⟨hiff.mp halong.start, (ih hI' halong.start).mp halong⟩
      · rintro ⟨hC, hmeets⟩
        exact (ih hI' (hiff.mpr hC)).mpr hmeets
    constructor
    · rintro ⟨-, hrest⟩ s' hs'
      exact (htail s' hs').mp (hrest s' hs')
    · intro hmeets
      exact ⟨hP, fun s' hs' => (htail s' hs').mpr (hmeets s' hs')⟩

theorem update_some {β : Type u} {f : ℕ → Option β} {t t' : ℕ} {o : Option β} {b : β}
    (h : Function.update f t o t' = some b) : (t' = t ∧ o = some b) ∨ (t' ≠ t ∧ f t' = some b) := by
  by_cases ht : t' = t
  · rw [ht, Function.update_self] at h
    exact Or.inl ⟨ht, h⟩
  · rw [Function.update_of_ne ht] at h
    exact Or.inr ⟨ht, h⟩

end SpatiumDdi.Runs
