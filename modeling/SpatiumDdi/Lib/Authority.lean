import Mathlib.Logic.Relation
import Mathlib.Data.List.Basic

/-!
Authority held through patterns, and what becomes of it when it is delegated.

A grant is a pattern over requests. Whether one finite list of patterns allows
everything another one does is a question about all requests, but it comes down
to comparing single patterns as soon as every pattern has a generic request: one
it allows, and which another pattern allows only when it is at least as broad.

When every step of a system gives a principal only what it or the acting
principal held before the step, no run of any length creates authority.
-/

namespace SpatiumDdi.Authority

section Coverage

variable {Pattern Request : Type*} (Allows : Pattern → Request → Prop)

/-- `q` allows everything `p` does. -/
def Covers (q p : Pattern) : Prop := ∀ r, Allows p r → Allows q r

/-- A request `p` allows and, among `qs`, only patterns at least as broad as `p`
allow. -/
def Generic (qs : List Pattern) (p : Pattern) (r : Request) : Prop :=
  Allows p r ∧ ∀ q ∈ qs, Allows q r → Covers Allows q p

/-- With a generic request for each pattern, one list of patterns allows all that
another does exactly when each single pattern is covered by a single one. -/
theorem subset_iff_covers {ps qs : List Pattern}
    (hgen : ∀ p ∈ ps, ∃ r, Generic Allows qs p r) :
    (∀ r, (∃ p ∈ ps, Allows p r) → ∃ q ∈ qs, Allows q r) ↔
      ∀ p ∈ ps, ∃ q ∈ qs, Covers Allows q p := by
  constructor
  · intro hsub p hp
    obtain ⟨r, hr, honly⟩ := hgen p hp
    obtain ⟨q, hq, hqr⟩ := hsub r ⟨p, hp, hr⟩
    exact ⟨q, hq, honly q hq hqr⟩
  · rintro hcov r ⟨p, hp, hr⟩
    obtain ⟨q, hq, hqp⟩ := hcov p hp
    exact ⟨q, hq, hqp r hr⟩

end Coverage

section Delegation

variable {State Principal Permission : Type*} (Holds : State → Principal → Permission → Prop)
  (Among : Principal → Prop) {s s' : State}

/-- From `s` to `s'`, nobody among the principals gains a permission that none of
them held. -/
def NothingGained (s s' : State) : Prop :=
  ∀ v, Among v → ∀ p, Holds s' v p → ∃ w, Among w ∧ Holds s w p

theorem nothingGained_trans {s'' : State} (h : NothingGained Holds Among s s')
    (h' : NothingGained Holds Among s' s'') : NothingGained Holds Among s s'' := by
  intro v hv p hp
  obtain ⟨w, hw, hpw⟩ := h' v hv p hp
  exact h w hw p hpw

theorem nothingGained_of_actor {actor : Principal} (ha : Among actor)
    (h : ∀ v, Among v → ∀ p, Holds s' v p → Holds s v p ∨ Holds s actor p) :
    NothingGained Holds Among s s' := by
  intro v hv p hp
  rcases h v hv p hp with hold | hactor
  · exact ⟨v, hv, hold⟩
  · exact ⟨actor, ha, hactor⟩

theorem nothingGained_of_run {Step : State → State → Prop}
    (hstep : ∀ s s', Step s s' → NothingGained Holds Among s s')
    (hrun : Relation.ReflTransGen Step s s') : NothingGained Holds Among s s' := by
  induction hrun with
  | refl => exact fun v hv p hp => ⟨v, hv, hp⟩
  | tail _ hlast ih => exact nothingGained_trans Holds Among ih (hstep _ _ hlast)

end Delegation

end SpatiumDdi.Authority
