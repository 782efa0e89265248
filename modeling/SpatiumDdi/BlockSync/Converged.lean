import SpatiumDdi.BlockSync.Ownership

/-!
What a pass that reports success leaves loaded. Every member SpatiumDDI added is
named by a push row, so a pass that reloads the ruleset loads what it should. One
that finds nothing to apply does not reload: a removal whose reload failed earlier
is then still loaded, and no row remembers it.
-/

namespace SpatiumDdi.BlockSync

open State

variable {env : Env} {d : Device} {blocks : List NetworkBlock} {onDevice : Finset String}
  {p : Pass}

/-- The members SpatiumDDI added last. -/
def Device.kept (d : Device) : Set String := { v | v ∈ d.sent ∧ v ∈ d.members }

theorem Device.kept_edit (d : Device) (e : Edit) : (d.edit e).kept ⊆ d.kept := by
  rintro v ⟨hsent, hmem⟩
  cases e with
  | add value =>
    obtain ⟨hne, hsent⟩ := Finset.mem_erase.mp hsent
    exact ⟨hsent, Finset.mem_of_mem_insert_of_ne hmem hne⟩
  | remove value => exact ⟨hsent, Finset.mem_of_mem_erase hmem⟩

theorem Device.kept_edits (d : Device) (es : List Edit) :
    (es.foldl Device.edit d).kept ⊆ d.kept := by
  induction es generalizing d with
  | nil => exact Set.Subset.rfl
  | cons e es ih => exact (ih (d.edit e)).trans (d.kept_edit e)

def Call.adds : Call → Set String
  | .add value => {value}
  | .list | .delete _ | .reconfigure => ∅

theorem Device.kept_perform (d : Device) (c : Call) : (d.perform c).kept ⊆ d.kept ∪ c.adds := by
  rintro v ⟨hsent, hmem⟩
  cases c with
  | list => exact .inl ⟨hsent, hmem⟩
  | reconfigure => exact .inl ⟨hsent, hmem⟩
  | delete value =>
    simp only [Device.perform] at hsent hmem
    split at hsent
    next hmember =>
      rw [if_pos hmember] at hmem
      exact .inl ⟨hsent, Finset.mem_of_mem_erase hmem⟩
    next hmember =>
      rw [if_neg hmember] at hmem
      exact .inl ⟨hsent, hmem⟩
  | add value =>
    by_cases heq : v = value
    · exact .inr heq
    simp only [Device.perform] at hsent hmem
    split at hsent
    next hmember =>
      rw [if_pos hmember] at hmem
      exact .inl ⟨Finset.mem_of_mem_insert_of_ne hsent heq, hmem⟩
    next hmember =>
      rw [if_neg hmember] at hmem
      exact .inl ⟨Finset.mem_of_mem_insert_of_ne hsent heq,
        Finset.mem_of_mem_insert_of_ne hmem heq⟩

theorem Device.kept_call (d : Device) (env : Env) (c : Call) :
    (d.call env c).2.kept ⊆ d.kept ∪ c.adds := by
  have hedits := d.kept_edits (env.edits c)
  have hperform := Device.kept_perform ((env.edits c).foldl Device.edit d) c
  have hboth := hperform.trans (Set.union_subset_union_left c.adds hedits)
  simp only [Device.call]
  split
  next => exact hboth
  next landed _ _ =>
    cases landed with
    | true => exact hboth
    | false => exact hedits.trans Set.subset_union_left

variable {d' : Device}

theorem Device.not_kept_of_deleted {value : String}
    (h : d.call env (.delete value) = (.ok (), d')) : value ∉ d'.members := by
  have hanswer := answer_of_call h
  simp only [Device.call, hanswer, Prod.mk.injEq, true_and] at h
  rw [← h]
  simp only [Device.perform]
  split
  · exact Finset.notMem_erase _ _
  · assumption

variable {pushes : List NetworkBlockPush} {blockId : Nat} {v : String}

theorem mem_namesIn_filter (h : v ∈ namesIn blocks pushes)
    (hother : ∀ b, blockById blocks blockId = some b → b.value ≠ v) :
    v ∈ namesIn blocks (pushes.filter fun push => push.blockId ≠ blockId) := by
  obtain ⟨push, hpush, b, hfind, hvalue⟩ := h
  refine ⟨push, List.mem_filter.mpr ⟨hpush, ?_⟩, b, hfind, hvalue⟩
  refine decide_eq_true fun heq => hother b (heq ▸ hfind) hvalue

theorem mem_namesIn_map {g : NetworkBlockPush → NetworkBlockPush}
    (hg : ∀ push, (g push).blockId = push.blockId) (h : v ∈ namesIn blocks pushes) :
    v ∈ namesIn blocks (pushes.map g) := by
  obtain ⟨push, hpush, b, hfind, hvalue⟩ := h
  exact ⟨g push, List.mem_map_of_mem hpush, b, (hg push).symm ▸ hfind, hvalue⟩

theorem mem_namesIn_upsert {b : NetworkBlock} (hkeyed : Keyed blocks) (hb : b ∈ blocks) (now : Time)
    (status : PushStatus) (error : Option String) (h : v ∈ namesIn blocks pushes ∨ b.value = v) :
    v ∈ namesIn blocks (upsertPush pushes b.id now status error) := by
  have hfind := hkeyed.blockById_eq hb
  unfold upsertPush
  split
  next hsome =>
    have hg : ∀ push : NetworkBlockPush,
        (if push.blockId = b.id then push.write now status error else push).blockId =
          push.blockId := by
      intro push
      split
      · rfl
      · rfl
    rcases h with h | hvalue
    · exact mem_namesIn_map hg h
    · obtain ⟨push, hpush⟩ := Option.isSome_iff_exists.mp hsome
      have hid := List.find?_some hpush
      refine mem_namesIn_map hg ⟨push, List.mem_of_find?_eq_some hpush, b, ?_, hvalue⟩
      rw [of_decide_eq_true hid, hfind]
  next =>
    rcases h with ⟨push, hpush, hrest⟩ | hvalue
    · exact ⟨push, List.mem_append_left _ hpush, hrest⟩
    · exact ⟨_, List.mem_append_right _ (List.mem_singleton.mpr rfl), b, hfind, hvalue⟩

/-- What a pass has put on the device is named by a row, or will be. -/
def PassTracked (blocks : List NetworkBlock) (p : Pass) : Prop :=
  ∀ v ∈ p.device.kept, v ∈ namesIn blocks p.pushes ∨ ∃ b ∈ p.toConfirm, b.value = v

/-- While nothing is added, it was there when the pass read the device. -/
def LiftTracked (blocks : List NetworkBlock) (onDevice : Finset String) (p : Pass) : Prop :=
  ∀ v ∈ p.device.kept, v ∈ onDevice ∧ v ∈ namesIn blocks p.pushes

section

variable (h : LiftTracked blocks onDevice p) {value : String}
include h

theorem LiftTracked.dropPush
    (hgone : ∀ b, blockById blocks blockId = some b → b.value ∉ p.device.kept) :
    LiftTracked blocks onDevice (p.dropPush blockId) := by
  intro v hv
  obtain ⟨hon, hnamed⟩ := h v hv
  exact ⟨hon, mem_namesIn_filter hnamed fun b hfind heq => hgone b hfind (heq ▸ hv)⟩

theorem LiftTracked.dropOff (hnone : liftValue blocks onDevice blockId = none) :
    LiftTracked blocks onDevice (p.dropPush blockId) := by
  refine h.dropPush fun b hfind hkept => ?_
  rw [liftValue, hfind] at hnone
  simp [b.value_ne, (h _ hkept).1] at hnone

theorem LiftTracked.deleted (hvalue : liftValue blocks onDevice blockId = some value)
    (hcall : p.device.call env (.delete value) = (.ok (), d)) :
    LiftTracked blocks onDevice (p.lifted d value blockId) := by
  have hkept : d.kept ⊆ p.device.kept := by
    have hsub := p.device.kept_call env (.delete value)
    rw [hcall] at hsub
    exact hsub.trans (by simp [Call.adds])
  have hstay : LiftTracked blocks onDevice
      { p with device := d, changed := true, removedVals := p.removedVals ++ [value] } :=
    fun v hv => h v (hkept hv)
  refine hstay.dropPush fun b hfind hmem => ?_
  obtain ⟨b', hfind', heq, _⟩ := liftValue_eq_some hvalue
  obtain rfl : b = b' := Option.some.inj (hfind.symm.trans hfind')
  exact Device.not_kept_of_deleted hcall (heq ▸ hmem.2)

theorem LiftTracked.failed {e : String} (hcall : p.device.call env (.delete value) = (.error e, d)) :
    LiftTracked blocks onDevice { p with device := d } := by
  have hsub := p.device.kept_call env (.delete value)
  rw [hcall] at hsub
  exact fun v hv => h v ((hsub.trans (by simp [Call.adds])) hv)

theorem LiftTracked.liftPush (env : Env) (push : NetworkBlockPush) :
    LiftTracked blocks onDevice (p.liftPush env blocks onDevice push) := by
  unfold Pass.liftPush
  split
  · exact h
  split
  next hnone => exact h.dropOff hnone
  next value hvalue =>
    split
    next d hcall => exact h.deleted hvalue hcall
    next e d hcall =>
      intro v hv
      obtain ⟨hon, hnamed⟩ := h.failed hcall v hv
      refine ⟨hon, mem_namesIn_map (fun row => ?_) hnamed⟩
      split
      · rfl
      · rfl

theorem LiftTracked.liftRows (env : Env) (rows : List NetworkBlockPush) :
    LiftTracked blocks onDevice (liftRows env blocks onDevice rows p).2 := by
  induction rows generalizing p with
  | nil => exact h
  | cons push rest ih =>
    rw [State.liftRows]
    split
    next hnone => exact ih (h.dropOff hnone)
    next value hvalue =>
      split
      next e d hcall => exact h.failed hcall
      next d hcall => exact ih (h.deleted hvalue hcall)

theorem LiftTracked.tracked : PassTracked blocks p :=
  fun v hv => .inl (h v hv).2

end

section

variable (h : PassTracked blocks p) {b : NetworkBlock}
include h

section

variable (hkeyed : Keyed blocks)
include hkeyed

theorem PassTracked.upsert (hb : b ∈ blocks) (env : Env) (status : PushStatus)
    (error : Option String) : PassTracked blocks (p.upsert env status error b) := by
  intro v hv
  rcases h v hv with hnamed | hconfirm
  · exact .inl (mem_namesIn_upsert hkeyed hb _ _ _ (.inl hnamed))
  · exact .inr hconfirm

theorem PassTracked.upsert_added (hb : b ∈ blocks) {r : Except String Unit}
    (hcall : p.device.call env (.add b.value) = (r, d)) {q : Pass} (hdevice : q.device = d)
    (hpushes : q.pushes = p.pushes) (hconfirm : q.toConfirm = p.toConfirm) (status : PushStatus)
    (error : Option String) : PassTracked blocks (q.upsert env status error b) := by
  intro v hv
  have hsub := p.device.kept_call env (.add b.value)
  rw [hcall] at hsub
  change v ∈ q.device.kept at hv
  rw [hdevice] at hv
  change v ∈ namesIn blocks (upsertPush q.pushes _ _ _ _) ∨ ∃ a ∈ q.toConfirm, a.value = v
  rw [hpushes, hconfirm]
  rcases hsub hv with hold | hnew
  · rcases h v hold with hnamed | hconfirm
    · exact .inl (mem_namesIn_upsert hkeyed hb _ _ _ (.inl hnamed))
    · exact .inr hconfirm
  · exact .inl (mem_namesIn_upsert hkeyed hb _ _ _ (.inr hnew.symm))

theorem PassTracked.assertBlock (hb : b ∈ blocks) {confirm : Pass → NetworkBlock → Pass}
    {loadedPushes : List NetworkBlockPush} (hpresent : PassTracked blocks (confirm p b))
    (hadded : ∀ d, p.device.call env (.add b.value) = (.ok (), d) → PassTracked blocks (confirm (p.asserted d b.value) b)) :
    PassTracked blocks (p.assertBlock env confirm loadedPushes onDevice b) := by
  unfold Pass.assertBlock
  split
  · exact h
  split
  · exact hpresent
  split
  next d hcall => exact hadded d hcall
  next e d hcall =>
    rw [Pass.notAsserted]
    apply h.upsert_added hkeyed hb hcall
    · rfl
    · rfl
    · rfl

end

theorem PassTracked.deferConfirm (b : NetworkBlock) : PassTracked blocks (p.deferConfirm b) := by
  intro v hv
  rcases h v hv with hnamed | ⟨a, ha, heq⟩
  · exact .inl hnamed
  · exact .inr ⟨a, List.mem_append_left _ ha, heq⟩

theorem PassTracked.deferConfirm_added (hcall : p.device.call env (.add b.value) = (.ok (), d)) :
    PassTracked blocks ((p.asserted d b.value).deferConfirm b) := by
  intro v hv
  have hsub := p.device.kept_call env (.add b.value)
  rw [hcall] at hsub
  rcases hsub hv with hold | hnew
  · rcases h v hold with hnamed | ⟨a, ha, heq⟩
    · exact .inl hnamed
    · exact .inr ⟨a, List.mem_append_left _ ha, heq⟩
  · exact .inr ⟨b, List.mem_append_right _ (List.mem_singleton.mpr rfl), hnew.symm⟩

theorem PassTracked.onto (hkept : d.kept ⊆ p.device.kept) :
    PassTracked blocks { p with device := d } :=
  fun v hv => h v (hkept hv)

end

namespace State

variable {s : State} {confirm : Pass → NetworkBlock → Pass}

/-- Between passes, every member SpatiumDDI added last is named by a row. -/
structure Tracked (s : State) : Prop where
  keyed : Keyed s.blocks
  kept : s.device.kept ⊆ s.Names

section

variable (h : Tracked s)
include h

theorem Tracked.liftTracked (env : Env) :
    LiftTracked s.blocks (s.readBy env).members { device := s.readBy env, pushes := s.pushes } :=
  fun _ hv => ⟨hv.2, h.kept (s.device.kept_edits (env.edits .list) hv)⟩

theorem Tracked.lifted (env : Env) :
    LiftTracked s.blocks (s.readBy env).members
      (s.pushes.foldl (Pass.liftPush env s.blocks (s.readBy env).members)
        { device := s.readBy env, pushes := s.pushes }) :=
  List.foldlRecOn s.pushes _ (h.liftTracked env) fun _ hp push _ => hp.liftPush env push

theorem Tracked.sweep (env : Env)
    (hpresent : ∀ p, ∀ b ∈ s.activeBlocks env.now, PassTracked s.blocks p →
      PassTracked s.blocks (confirm p b))
    (hadded : ∀ p d, ∀ b ∈ s.activeBlocks env.now, PassTracked s.blocks p →
      p.device.call env (.add b.value) = (.ok (), d) →
      PassTracked s.blocks (confirm (p.asserted d b.value) b)) :
    PassTracked s.blocks (s.sweep env confirm (s.readBy env)) :=
  List.foldlRecOn (s.activeBlocks env.now) _ (h.lifted env).tracked fun p hp b hb =>
    hp.assertBlock h.keyed (mem_of_mem_activeBlocks hb) (hpresent p b hb hp)
      fun d hcall => hadded p d b hb hp hcall

theorem Tracked.sweep_deferConfirm (env : Env) :
    PassTracked s.blocks (s.sweep env Pass.deferConfirm (s.readBy env)) :=
  h.sweep env (fun _ b _ hp => hp.deferConfirm b) fun _ _ _ _ hp hcall =>
    hp.deferConfirm_added hcall

theorem Tracked.sweep_confirmPushed (env : Env) :
    PassTracked s.blocks (s.sweep env (Pass.confirmPushed env) (s.readBy env)) := by
  refine h.sweep env (fun p b hb hp => ?_) fun p d b hb hp hcall => ?_
  · exact hp.upsert h.keyed (mem_of_mem_activeBlocks hb) env _ _
  · rw [Pass.confirmPushed]
    apply hp.upsert_added h.keyed (mem_of_mem_activeBlocks hb) hcall
    · rfl
    · rfl
    · rfl

end

variable {t : State}

theorem Tracked.of_pass (h : Tracked s) (hp : PassTracked s.blocks p)
    (hblocks : t.blocks = s.blocks) (hpushes : t.pushes = p.pushes) (hdevice : t.device = p.device)
    (hconfirm : p.toConfirm = []) : Tracked t := by
  refine ⟨hblocks ▸ h.keyed, fun v hv => ?_⟩
  rw [hdevice] at hv
  rw [Names, hblocks, hpushes]
  rcases hp v hv with hnamed | ⟨b, hb, _⟩
  · exact hnamed
  · rw [hconfirm] at hb
    cases hb

theorem mem_namesIn_confirmAll (hkeyed : Keyed s.blocks) (hp : PassTracked s.blocks p)
    (hconfirm : ∀ b ∈ p.toConfirm, b ∈ s.blocks) (env : Env) (status : PushStatus)
    (error : Option String) :
    ∀ v ∈ p.device.kept, v ∈ namesIn s.blocks (confirmAll env p status error).pushes := by
  have hall : ∀ (bs : List NetworkBlock) (q : Pass), (∀ b ∈ bs, b ∈ s.blocks) →
      ∀ v, v ∈ namesIn s.blocks q.pushes ∨ (∃ b ∈ bs, b.value = v) →
        v ∈ namesIn s.blocks (bs.foldl (fun p b => p.upsert env status error b) q).pushes := by
    intro bs
    induction bs with
    | nil => exact fun q _ v hv => hv.elim id fun ⟨b, hb, _⟩ => absurd hb List.not_mem_nil
    | cons b bs ih =>
      intro q hbs v hv
      refine ih _ (fun a ha => hbs a (List.mem_cons_of_mem _ ha)) v ?_
      have hb := hbs b List.mem_cons_self
      rcases hv with hnamed | ⟨a, ha, heq⟩
      · exact .inl (mem_namesIn_upsert hkeyed hb _ _ _ (.inl hnamed))
      · rcases List.mem_cons.mp ha with rfl | ha
        · exact .inl (mem_namesIn_upsert hkeyed hb _ _ _ (.inr heq))
        · exact .inr ⟨a, ha, heq⟩
  exact fun v hv => hall p.toConfirm p hconfirm v (hp v hv)

theorem confirmAll_device (env : Env) (p : Pass) (status : PushStatus) (error : Option String) :
    (confirmAll env p status error).device = p.device := by
  rw [confirmAll]
  induction p.toConfirm generalizing p with
  | nil => rfl
  | cons b bs ih => exact ih (p.upsert env status error b)

theorem liftPush_toConfirm (env : Env) (push : NetworkBlockPush) :
    (p.liftPush env blocks onDevice push).toConfirm = p.toConfirm := by
  unfold Pass.liftPush
  split
  · rfl
  split
  · rfl
  split
  · rfl
  · rfl

theorem toConfirm_sweep {Q : List NetworkBlock → Prop} (hnil : Q []) (env : Env) (d : Device)
    (hconfirm : ∀ p, ∀ b ∈ s.activeBlocks env.now, Q p.toConfirm → Q (confirm p b).toConfirm) :
    Q (s.sweep env confirm d).toConfirm := by
  have hlifted := List.foldlRecOn (motive := fun p : Pass => Q p.toConfirm) s.pushes
    (Pass.liftPush env s.blocks d.members) (b := { device := d, pushes := s.pushes }) hnil
    fun p hp push _ => (liftPush_toConfirm env push).symm ▸ hp
  refine List.foldlRecOn (motive := fun p : Pass => Q p.toConfirm) _ _ hlifted fun p hp b hb => ?_
  unfold Pass.assertBlock
  split
  · exact hp
  split
  · exact hconfirm p b hb hp
  split
  · exact hconfirm _ b hb hp
  · exact hp

theorem mem_toConfirm_sweep (s : State) (env : Env) (d : Device) :
    ∀ b ∈ (s.sweep env Pass.deferConfirm d).toConfirm, b ∈ s.activeBlocks env.now := by
  refine toConfirm_sweep (Q := fun bs => ∀ b ∈ bs, b ∈ s.activeBlocks env.now) nofun env d ?_
  intro p b hb hp a ha
  rcases List.mem_append.mp ha with ha | ha
  · exact hp a ha
  · rw [List.mem_singleton.mp ha]
    exact hb

theorem toConfirm_sweep_confirmPushed (s : State) (env : Env) (d : Device) :
    (s.sweep env (Pass.confirmPushed env) d).toConfirm = [] :=
  toConfirm_sweep (Q := fun bs => bs = []) rfl env d fun _ _ _ hp => hp

theorem liftRows_toConfirm (env : Env) (blocks : List NetworkBlock) (onDevice : Finset String)
    (rows : List NetworkBlockPush) (p : Pass) :
    (liftRows env blocks onDevice rows p).2.toConfirm = p.toConfirm := by
  induction rows generalizing p with
  | nil => rfl
  | cons push rest ih =>
    rw [State.liftRows]
    split
    · exact ih _
    split
    · rfl
    · exact ih _

theorem kept_reconfigure {r : Except String Unit} (h : d.call env .reconfigure = (r, d')) :
    d'.kept ⊆ d.kept := by
  have hsub := d.kept_call env .reconfigure
  rw [h] at hsub
  exact hsub.trans (by simp [Call.adds])

section

variable (h : Tracked s)
include h

theorem Tracked.confirmed (env : Env)
    (hkept : d.kept ⊆ (s.sweep env Pass.deferConfirm (s.readBy env)).device.kept)
    (status : PushStatus) (error : Option String) (hblocks : t.blocks = s.blocks)
    (hpushes : t.pushes = (confirmAll env { s.sweep env Pass.deferConfirm (s.readBy env) with device := d } status error).pushes)
    (hdevice : t.device = d) : Tracked t := by
  have hp := (h.sweep_deferConfirm env).onto hkept
  have hconfirm := fun b hb =>
    mem_of_mem_activeBlocks (mem_toConfirm_sweep s env (s.readBy env) b hb)
  refine ⟨hblocks ▸ h.keyed, fun v hv => ?_⟩
  rw [Names, hblocks, hpushes]
  exact mem_namesIn_confirmAll h.keyed hp hconfirm env status error v (hdevice ▸ hv)

theorem Tracked.refused (env : Env) (error : String) : Tracked (s.refused (s.readBy env) error).2 :=
  ⟨h.keyed, (s.device.kept_edits (env.edits .list)).trans h.kept⟩

theorem Tracked.reconcile (env : Env) : Tracked (s.reconcile env).2 := by
  unfold State.reconcile
  split
  next router htarget =>
    unfold reconcileOpnsense
    split
    next => exact ⟨h.keyed, h.kept⟩
    split
    next e d heq =>
      obtain rfl := eq_readBy_of_call heq
      exact h.refused env e
    next d heq =>
      obtain rfl := eq_readBy_of_call heq
      simp only
      split
      next =>
        split
        next e d heq =>
          exact h.confirmed env (kept_reconfigure heq) _ _ rfl rfl (confirmAll_device ..)
        next d heq =>
          exact h.confirmed env (kept_reconfigure heq) _ _ rfl rfl (confirmAll_device ..)
      next hnothing =>
        have hnone := not_or.mp hnothing
        exact h.of_pass (h.sweep_deferConfirm env) rfl rfl rfl (not_not.mp hnone.2)
  next fw htarget =>
    unfold reconcilePanos
    split
    next => exact ⟨h.keyed, h.kept⟩
    split
    next e d heq =>
      obtain rfl := eq_readBy_of_call heq
      exact h.refused env e
    next d heq =>
      obtain rfl := eq_readBy_of_call heq
      exact h.of_pass (h.sweep_confirmPushed env) rfl rfl rfl (toConfirm_sweep_confirmPushed ..)

theorem Tracked.liftAllForTarget (env : Env) : Tracked (s.liftAllForTarget env).2 := by
  unfold State.liftAllForTarget
  split
  · exact h
  split
  next e d heq =>
    obtain rfl := eq_readBy_of_call heq
    exact h.of_pass (h.liftTracked env).tracked rfl rfl rfl rfl
  next d heq =>
    obtain rfl := eq_readBy_of_call heq
    have hlifted := ((h.liftTracked env).liftRows env s.pushes).tracked
    have hconfirm := liftRows_toConfirm env s.blocks (s.readBy env).members s.pushes
      { device := s.readBy env, pushes := s.pushes }
    split
    next e p heq' =>
      rw [heq'] at hlifted hconfirm
      exact h.of_pass hlifted rfl rfl rfl hconfirm
    next p heq' =>
      rw [heq'] at hlifted hconfirm
      split
      next =>
        split
        next e d heq => exact h.of_pass (hlifted.onto (kept_reconfigure heq)) rfl rfl rfl hconfirm
        next d heq => exact h.of_pass (hlifted.onto (kept_reconfigure heq)) rfl rfl rfl hconfirm
      next => exact h.of_pass hlifted rfl rfl rfl hconfirm

theorem Tracked.sameBlocks (hsame : SameBlocks s t) : Tracked t := by
  obtain ⟨blocks, rfl, hkeyed, hfound⟩ := hsame
  refine ⟨hkeyed, fun v hv => ?_⟩
  obtain ⟨push, hpush, b, hfind, hvalue⟩ := h.kept hv
  obtain ⟨b', hfind', heq⟩ := hfound _ b hfind
  exact ⟨push, hpush, b', hfind', heq.trans hvalue⟩

theorem Tracked.apply {op : Op} (henabled : op.enabled s) : Tracked (s.apply op) := by
  cases op with
  | createNetworkBlock new => exact h.sameBlocks (sameBlocks_createNetworkBlock h.keyed henabled)
  | liftBlock blockId => exact h.sameBlocks (sameBlocks_liftBlock h.keyed blockId)
  | arm target => exact ⟨h.keyed, h.kept⟩
  | edit e => exact ⟨h.keyed, (s.device.kept_edit e).trans h.kept⟩
  | reconcile env => exact h.reconcile env
  | liftAllForTarget env => exact h.liftAllForTarget env

end

theorem Reachable.tracked {guard : State → Op → Prop} {target : Target}
    {members : Finset String} (h : Reachable guard target members s) :
    Tracked s := by
  induction h with
  | refl => exact ⟨.nil, fun v hv => absurd hv.1 (Finset.notMem_empty v)⟩
  | tail _ hstep ih =>
    obtain ⟨op, henabled, _, rfl⟩ := hstep
    exact ih.apply henabled

end State

/-- The operator leaves the device alone once the pass has read it. -/
def Env.Quiet (env : Env) : Prop := ∀ c, c ≠ .list → env.edits c = []

theorem Env.Quiet.call (h : env.Quiet) {c : Call} (hcall : d.call env c = (.ok (), d'))
    (hc : c ≠ .list) : d' = d.perform c := by
  have hanswer := answer_of_call hcall
  simp only [Device.call, hanswer, h c hc, List.foldl_nil, Prod.mk.injEq, true_and] at hcall
  exact hcall.symm

namespace State

variable {s : State} {rows : List NetworkBlockPush} {push : NetworkBlockPush} {b : NetworkBlock}

def Lapsed (s : State) (env : Env) (push : NetworkBlockPush) : Prop :=
  (blockById s.blocks push.blockId).any (fun b => blockIsActive b env.now) = false

/-- What the lifts of a pass without errors have done, once `rows` are handled. -/
structure Lifted (s : State) (env : Env) (d : Device) (rows : List NetworkBlockPush) (p : Pass) :
    Prop where
  members : ∀ v ∈ d.members, v ∈ p.device.members ∨
    ∃ push ∈ rows, s.Lapsed env push ∧ liftValue s.blocks d.members push.blockId = some v
  left : ∀ push ∈ p.pushes, push ∈ s.pushes ∧ (push ∈ rows → ¬ s.Lapsed env push)
  changed : p.changed = true ↔
    ∃ push ∈ rows, s.Lapsed env push ∧ (liftValue s.blocks d.members push.blockId).isSome
  device : p.changed = false → p.device = d

theorem Lifted.left_append (h : Lifted s env d rows p) {row : NetworkBlockPush}
    (hrow : row ∈ p.pushes) (hlast : row = push → ¬ s.Lapsed env row) :
    row ∈ s.pushes ∧ (row ∈ rows ++ [push] → ¬ s.Lapsed env row) := by
  obtain ⟨hold, hstay⟩ := h.left row hrow
  refine ⟨hold, fun hmem => ?_⟩
  rcases List.mem_append.mp hmem with hmem | hmem
  · exact hstay hmem
  · exact hlast (List.mem_singleton.mp hmem)

theorem exists_handled_iff {P : NetworkBlockPush → Prop} (hlast : ¬ P push) :
    (∃ row ∈ rows, P row) ↔ ∃ row ∈ rows ++ [push], P row := by
  constructor
  · rintro ⟨row, hrow, hP⟩
    exact ⟨row, List.mem_append_left _ hrow, hP⟩
  · rintro ⟨row, hrow, hP⟩
    rcases List.mem_append.mp hrow with hrow | hrow
    · exact ⟨row, hrow, hP⟩
    · exact absurd (List.mem_singleton.mp hrow ▸ hP) hlast

section

variable (h : Lifted s env d rows p)
include h

theorem Lifted.drop (hnone : liftValue s.blocks d.members push.blockId = none) :
    Lifted s env d (rows ++ [push]) (p.dropPush push.blockId) := by
  refine ⟨fun v hv => ?_, fun row hrow => ?_, h.changed.trans ?_, h.device⟩
  · rcases h.members v hv with hmem | ⟨row, hrow, hrest⟩
    · exact .inl hmem
    · exact .inr ⟨row, List.mem_append_left _ hrow, hrest⟩
  · obtain ⟨hold, hne⟩ := List.mem_filter.mp hrow
    exact h.left_append hold fun heq => absurd (congrArg (·.blockId) heq) (by simpa using hne)
  · apply exists_handled_iff
    rintro ⟨-, hsome⟩
    rw [hnone] at hsome
    cases hsome

theorem Lifted.lift {value : String} (hlapsed : s.Lapsed env push)
    (hvalue : liftValue s.blocks d.members push.blockId = some value)
    (hd' : d' = p.device.perform (.delete value)) :
    Lifted s env d (rows ++ [push]) (p.lifted d' value push.blockId) := by
  have hself : push ∈ rows ++ [push] := List.mem_append_right _ (List.mem_singleton.mpr rfl)
  refine ⟨fun v hv => ?_, fun row hrow => ?_, ?_, nofun⟩
  · by_cases heq : v = value
    · exact .inr ⟨push, hself, hlapsed, heq ▸ hvalue⟩
    rcases h.members v hv with hmem | ⟨row, hrow, hrest⟩
    · refine .inl ?_
      change v ∈ d'.members
      rw [hd']
      simp only [Device.perform]
      split
      · exact Finset.mem_erase.mpr ⟨heq, hmem⟩
      · exact hmem
    · exact .inr ⟨row, List.mem_append_left _ hrow, hrest⟩
  · obtain ⟨hold, hne⟩ := List.mem_filter.mp hrow
    exact h.left_append hold fun heq => absurd (congrArg (·.blockId) heq) (by simpa using hne)
  · exact ⟨fun _ => ⟨push, hself, hlapsed, by rw [hvalue]; rfl⟩, fun _ => rfl⟩

theorem Lifted.keep (hactive : ¬ s.Lapsed env push) : Lifted s env d (rows ++ [push]) p := by
  refine ⟨fun v hv => ?_, fun row hrow => ?_, h.changed.trans ?_, h.device⟩
  · rcases h.members v hv with hmem | ⟨row, hrow, hrest⟩
    · exact .inl hmem
    · exact .inr ⟨row, List.mem_append_left _ hrow, hrest⟩
  · exact h.left_append hrow fun heq => heq ▸ hactive
  · apply exists_handled_iff
    rintro ⟨hlapsed, -⟩
    exact hactive hlapsed

end

theorem Lifted.step (hquiet : env.Quiet) (h : p.summary.errors = 0 → Lifted s env d rows p)
    (push : NetworkBlockPush)
    (hend : (p.liftPush env s.blocks d.members push).summary.errors = 0) :
    Lifted s env d (rows ++ [push]) (p.liftPush env s.blocks d.members push) := by
  unfold Pass.liftPush at hend ⊢
  split at hend
  next hactive =>
    rw [if_pos hactive]
    exact (h hend).keep (by simp [Lapsed, hactive])
  next hlapsed =>
    rw [if_neg hlapsed]
    split at hend
    next hnone => exact (h hend).drop hnone
    next value hvalue =>
      split at hend
      next d' hcall =>
        have hd' := hquiet.call hcall nofun
        exact (h hend).lift (by simpa [Lapsed] using hlapsed) hvalue hd'
      next e d' hcall => exact absurd hend (Nat.succ_ne_zero _)

theorem lifted_foldl (hquiet : env.Quiet) (rows : List NetworkBlockPush)
    (hend : (rows.foldl (Pass.liftPush env s.blocks d.members)
      { device := d, pushes := s.pushes }).summary.errors = 0) :
    Lifted s env d rows (rows.foldl (Pass.liftPush env s.blocks d.members)
      { device := d, pushes := s.pushes }) := by
  induction rows using List.reverseRecOn with
  | nil =>
    refine ⟨fun v hv => .inl hv, fun push hpush => ⟨hpush, nofun⟩, ?_, fun _ => rfl⟩
    exact ⟨nofun, fun ⟨_, hmem, _⟩ => absurd hmem List.not_mem_nil⟩
  | append_singleton rows push ih =>
    rw [List.foldl_append, List.foldl_cons, List.foldl_nil] at hend ⊢
    exact Lifted.step hquiet ih push hend

def Missing (s : State) (d : Device) (b : NetworkBlock) : Prop :=
  ¬ (isConfirmed s.pushes b ∧ b.value ∈ d.members)

/-- What the assertions of a pass without errors have done, once `bs` are handled. -/
structure Asserted (s : State) (d : Device) (p₀ : Pass) (bs : List NetworkBlock) (p : Pass) :
    Prop where
  start : p₀.summary.errors = 0
  members : ∀ v ∈ p₀.device.members, v ∈ p.device.members
  values : ∀ b ∈ bs, b.value ∈ d.members ∨ b.value ∈ p.device.members
  pushes : p.pushes = p₀.pushes
  pending : (p.changed = true ∨ p.toConfirm ≠ []) ↔
    p₀.changed = true ∨ ∃ b ∈ bs, s.Missing d b
  device : p.changed = false → p.device = p₀.device

theorem exists_mem_append_singleton {bs : List NetworkBlock} :
    (∃ a ∈ bs ++ [b], s.Missing d a) ↔ (∃ a ∈ bs, s.Missing d a) ∨ s.Missing d b := by
  simp only [List.mem_append, List.mem_singleton, or_and_right, exists_or, exists_eq_left]

variable {p₀ : Pass} {bs : List NetworkBlock} {b : NetworkBlock}

section

variable (h : Asserted s d p₀ bs p)
include h

theorem Asserted.keep (hpresent : ¬ s.Missing d b) : Asserted s d p₀ (bs ++ [b]) p := by
  refine ⟨h.start, h.members, fun a ha => ?_, h.pushes, ?_, h.device⟩
  · rcases List.mem_append.mp ha with ha | ha
    · exact h.values a ha
    · rw [List.mem_singleton.mp ha]
      exact .inl (not_not.mp hpresent).2
  · rw [h.pending, exists_mem_append_singleton]
    simp only [hpresent, or_false]

theorem Asserted.confirm (hmissing : s.Missing d b) (hmember : b.value ∈ d.members) :
    Asserted s d p₀ (bs ++ [b]) (p.deferConfirm b) := by
  refine ⟨h.start, h.members, fun a ha => ?_, h.pushes, ?_, h.device⟩
  · rcases List.mem_append.mp ha with ha | ha
    · exact h.values a ha
    · rw [List.mem_singleton.mp ha]
      exact .inl hmember
  · rw [exists_mem_append_singleton]
    simp only [hmissing, or_true, iff_true]
    exact .inr (List.append_ne_nil_of_right_ne_nil _ (List.cons_ne_nil _ _))

theorem Asserted.add (hmissing : s.Missing d b) (hd' : d' = p.device.perform (.add b.value)) :
    Asserted s d p₀ (bs ++ [b]) ((p.asserted d' b.value).deferConfirm b) := by
  have hmem : ∀ v, v = b.value ∨ v ∈ p.device.members → v ∈ d'.members := by
    intro v hv
    rw [hd']
    simp only [Device.perform]
    split
    next hold => exact hv.elim (fun heq => heq ▸ hold) id
    next => exact Finset.mem_insert.mpr hv
  refine ⟨h.start, fun v hv => hmem v (.inr (h.members v hv)), fun a ha => ?_, h.pushes, ?_, fun h => by cases h⟩
  · rcases List.mem_append.mp ha with ha | ha
    · exact (h.values a ha).imp_right fun hv => hmem _ (.inr hv)
    · rw [List.mem_singleton.mp ha]
      exact .inr (hmem _ (.inl rfl))
  · rw [exists_mem_append_singleton]
    simp only [hmissing, or_true, iff_true]
    exact .inl rfl

end

section

variable (hquiet : env.Quiet)
include hquiet

theorem Asserted.step (h : p.summary.errors = 0 → Asserted s d p₀ bs p) (b : NetworkBlock)
    (hend : (p.assertBlock env Pass.deferConfirm s.pushes d.members b).summary.errors = 0) :
    Asserted s d p₀ (bs ++ [b])
      (p.assertBlock env Pass.deferConfirm s.pushes d.members b) := by
  unfold Pass.assertBlock at hend ⊢
  split at hend
  next hpresent =>
    rw [if_pos hpresent]
    exact (h hend).keep (not_not.mpr hpresent)
  next hmissing =>
    rw [if_neg hmissing]
    split at hend
    next hmember =>
      rw [if_pos hmember]
      exact (h hend).confirm hmissing hmember
    next hmember =>
      rw [if_neg hmember]
      split at hend
      next d' hcall => exact (h hend).add hmissing (hquiet.call hcall nofun)
      next e d' hcall => exact absurd hend (Nat.succ_ne_zero _)

theorem asserted_foldl (hconfirm : p₀.toConfirm = []) (bs : List NetworkBlock)
    (hend : (bs.foldl (Pass.assertBlock env Pass.deferConfirm s.pushes d.members)
      p₀).summary.errors = 0) :
    Asserted s d p₀ bs
      (bs.foldl (Pass.assertBlock env Pass.deferConfirm s.pushes d.members) p₀) := by
  induction bs using List.reverseRecOn with
  | nil =>
    refine ⟨hend, fun v hv => hv, nofun, rfl, ?_, fun _ => rfl⟩
    simp [hconfirm]
  | append_singleton bs b ih =>
    rw [List.foldl_append, List.foldl_cons, List.foldl_nil] at hend ⊢
    exact Asserted.step hquiet ih b hend

theorem sweep_ok (hend : (s.sweep env Pass.deferConfirm d).summary.errors = 0) :
    ∃ p₀, Lifted s env d s.pushes p₀ ∧
      Asserted s d p₀ (s.activeBlocks env.now) (s.sweep env Pass.deferConfirm d) := by
  have hconfirm : (s.pushes.foldl (Pass.liftPush env s.blocks d.members)
      { device := d, pushes := s.pushes }).toConfirm = [] :=
    List.foldlRecOn (motive := fun p : Pass => p.toConfirm = []) s.pushes _ rfl
      fun _ hp push _ => (liftPush_toConfirm env push).trans hp
  have hasserted := asserted_foldl hquiet hconfirm (s.activeBlocks env.now) hend
  exact ⟨_, lifted_foldl hquiet s.pushes hasserted.start, hasserted⟩

end

def Applies (s : State) (env : Env) : Prop :=
  (∃ push ∈ s.pushes, s.Lapsed env push ∧
    (liftValue s.blocks (s.readBy env).members push.blockId).isSome) ∨
  ∃ b ∈ s.activeBlocks env.now, s.Missing (s.readBy env) b

/-- No change of the members waits for a reload: the members that are values of active
blocks are loaded, and what SpatiumDDI added and is loaded is still a member. -/
def NothingWaits (s : State) (env : Env) : Prop :=
  (∀ b ∈ s.activeBlocks env.now, b.value ∈ (s.readBy env).members →
    b.value ∈ (s.readBy env).loaded) ∧
  ∀ v ∈ (s.readBy env).loaded, v ∈ (s.readBy env).sent → v ∈ (s.readBy env).members

/-- The loaded ruleset has the value of every active block, and nothing SpatiumDDI added
for a block that is not. -/
def Converged (s : State) (now : Time) : Prop :=
  (∀ b ∈ s.activeBlocks now, b.value ∈ s.device.loaded) ∧
  ∀ v ∈ s.device.loaded, v ∈ s.device.sent → ∃ b ∈ s.activeBlocks now, b.value = v

theorem Lifted.pending (hlifted : Lifted s env (s.readBy env) s.pushes p₀)
    (h : Asserted s (s.readBy env) p₀ (s.activeBlocks env.now) p) :
    (p.changed = true ∨ p.toConfirm ≠ []) ↔ s.Applies env := by
  rw [h.pending, hlifted.changed, Applies]

theorem exists_active (hlapsed : ¬ s.Lapsed env push)
    (hfind : blockById s.blocks push.blockId = some b) : b ∈ s.activeBlocks env.now := by
  refine List.mem_filter.mpr ⟨(blockById_eq_some hfind).1, ?_⟩
  simpa [Lapsed, hfind] using hlapsed

theorem liftValue_ne (hkeyed : Keyed s.blocks) (hlapsed : s.Lapsed env push)
    (hvalue : liftValue s.blocks onDevice push.blockId = some v) (hb : b ∈ s.activeBlocks env.now) :
    b.value ≠ v := by
  rintro rfl
  obtain ⟨a, hfind, heq, _⟩ := liftValue_eq_some hvalue
  obtain rfl := hkeyed.eq_of_value (blockById_eq_some hfind).1 (mem_of_mem_activeBlocks hb) heq
  have hactive := (List.mem_filter.mp hb).2
  simp [Lapsed, hfind, hactive] at hlapsed

theorem mem_members_of_active (hkeyed : Keyed s.blocks) (hlifted : Lifted s env d s.pushes p₀)
    (h : Asserted s d p₀ (s.activeBlocks env.now) p) (hb : b ∈ s.activeBlocks env.now) :
    b.value ∈ p.device.members := by
  rcases h.values b hb with hmem | hmem
  · rcases hlifted.members _ hmem with hstay | ⟨push, _, hlapsed, hvalue⟩
    · exact h.members _ hstay
    · exact absurd rfl (liftValue_ne hkeyed hlapsed hvalue hb)
  · exact hmem

theorem exists_active_of_kept (hp : PassTracked s.blocks p) (hlifted : Lifted s env d s.pushes p₀)
    (h : Asserted s d p₀ (s.activeBlocks env.now) p)
    (hconfirm : ∀ b ∈ p.toConfirm, b ∈ s.activeBlocks env.now) (hv : v ∈ p.device.kept) :
    ∃ b ∈ s.activeBlocks env.now, b.value = v := by
  rcases hp v hv with ⟨push, hpush, b, hfind, heq⟩ | ⟨b, hb, heq⟩
  · rw [h.pushes] at hpush
    obtain ⟨hrow, hstay⟩ := hlifted.left push hpush
    exact ⟨b, exists_active (hstay hrow) hfind, heq⟩
  · exact ⟨b, hconfirm b hb, heq⟩

theorem confirmAll_summary (env : Env) (p : Pass) (status : PushStatus) (error : Option String) :
    (confirmAll env p status error).summary = p.summary := by
  rw [confirmAll]
  induction p.toConfirm generalizing p with
  | nil => rfl
  | cons b bs ih => exact ih (p.upsert env status error b)

theorem reconcileOpnsense_ok {router : OPNsenseRouter}
    (hok : (s.reconcileOpnsense router env).1.ok = true) :
    (s.sweep env Pass.deferConfirm (s.readBy env)).summary.errors = 0 ∧
      (s.reconcileOpnsense router env).2.blocks = s.blocks ∧
      let q := s.sweep env Pass.deferConfirm (s.readBy env)
      if q.changed = true ∨ q.toConfirm ≠ [] then
        ∃ d', q.device.call env .reconfigure = (.ok (), d') ∧
          (s.reconcileOpnsense router env).2.device = d'
      else (s.reconcileOpnsense router env).2.device = q.device := by
  unfold reconcileOpnsense at hok ⊢
  split at hok
  next => cases hok
  split at hok
  next => cases hok
  next d heq =>
    obtain rfl := eq_readBy_of_call heq
    simp only
    simp only at hok
    split at hok
    next hpending =>
      rw [if_pos hpending, if_pos hpending]
      split at hok
      next => cases hok
      next d' hcall =>
        simp only [hcall]
        have herrors := of_decide_eq_true hok
        rw [confirmAll_summary] at herrors
        exact ⟨herrors, rfl, d', rfl, confirmAll_device ..⟩
    next hnothing =>
      rw [if_neg hnothing, if_neg hnothing]
      exact ⟨of_decide_eq_true hok, rfl, rfl⟩

/-- After a pass that reports success, with no edit of the device since it read the alias,
the ruleset is right exactly when the pass had something to apply or nothing waited. -/
theorem converged_iff_of_reachable {guard : State → Op → Prop} {target : Target}
    {members : Finset String} (h : Reachable guard target members s) {router : OPNsenseRouter}
    (hquiet : env.Quiet) (hok : (s.reconcileOpnsense router env).1.ok = true) :
    (s.reconcileOpnsense router env).2.Converged env.now ↔ s.Applies env ∨ s.NothingWaits env := by
  have htracked := h.tracked
  obtain ⟨herrors, hblocks, hdevice⟩ := reconcileOpnsense_ok hok
  obtain ⟨p₀, hlifted, hasserted⟩ := sweep_ok hquiet herrors
  have hactive : (s.reconcileOpnsense router env).2.activeBlocks env.now =
      s.activeBlocks env.now := by
    rw [activeBlocks, hblocks, activeBlocks]
  have hmembers := fun b hb => mem_members_of_active htracked.keyed hlifted hasserted (b := b) hb
  have hkept := fun v hv => exists_active_of_kept (htracked.sweep_deferConfirm env) hlifted
    hasserted (mem_toConfirm_sweep s env (s.readBy env)) (v := v) hv
  have hpending := hlifted.pending hasserted
  rw [Converged, hactive]
  simp only at hdevice
  split at hdevice
  next happlies =>
    obtain ⟨d', hcall, heq⟩ := hdevice
    rw [heq, hquiet.call hcall nofun]
    refine iff_of_true ⟨hmembers, fun v hv hsent => hkept v ⟨hsent, hv⟩⟩ ?_
    exact .inl (hpending.mp happlies)
  next hnothing =>
    have hsame : (s.sweep env Pass.deferConfirm (s.readBy env)).device = s.readBy env := by
      have hunchanged := Bool.eq_false_iff.mpr (not_or.mp hnothing).1
      have hp₀ : p₀.changed = false := by
        by_contra hne
        exact hnothing (hasserted.pending.mpr (.inl (Bool.not_eq_false _ ▸ hne)))
      rw [hasserted.device hunchanged, hlifted.device hp₀]
    rw [hsame] at hmembers hkept hdevice
    rw [hdevice, or_iff_right fun happlies => hnothing (hpending.mpr happlies)]
    constructor
    · rintro ⟨hloaded, hleft⟩
      refine ⟨fun b hb _ => hloaded b hb, fun v hv hsent => ?_⟩
      obtain ⟨b, hb, rfl⟩ := hleft v hv hsent
      exact hmembers b hb
    · rintro ⟨hloaded, hleft⟩
      exact ⟨fun b hb => hloaded b hb (hmembers b hb),
        fun v hv hsent => hkept v ⟨hsent, hleft v hv hsent⟩⟩

theorem calmEnv_quiet : calmEnv.Quiet := fun _ _ => rfl

def armedOpnsense : OPNsenseRouter := ⟨true, "blocked", "key", "secret"⟩

def oneBlock : State := (initial armedRouter ∅).apply (.createNetworkBlock blockedHost)

theorem reachable_oneBlock : Reachable (fun _ _ => True) armedRouter ∅ oneBlock :=
  Reachable.next .refl _ nofun trivial

theorem converged_iff_oneBlock :
    (oneBlock.reconcileOpnsense armedOpnsense calmEnv).1.ok = true ∧
      ((oneBlock.reconcileOpnsense armedOpnsense calmEnv).2.Converged 0 ↔
        oneBlock.Applies calmEnv ∨ oneBlock.NothingWaits calmEnv) :=
  ⟨by rfl, converged_iff_of_reachable reachable_oneBlock calmEnv_quiet (by rfl)⟩

/-- Every call is answered but the reload. -/
def reloadFails : Env :=
  { calmEnv with answer := fun c => if c = .reconfigure then .failed false "timeout" else .ok }

def unloadedLift : State :=
  ((oneBlock.apply (.reconcile calmEnv)).apply (.liftBlock 0)).apply (.reconcile reloadFails)

/-- The next pass has nothing left to do and reports success, with the value still loaded. -/
theorem not_converged_unloadedLift :
    ¬ ∀ target members s router env, Reachable (fun _ _ => True) target members s →
      env.Quiet → (s.reconcileOpnsense router env).1.ok = true →
      (s.reconcileOpnsense router env).2.Converged env.now := by
  intro h
  have hpass := reachable_oneBlock.next (.reconcile calmEnv) trivial trivial
  have hlift := hpass.next (.liftBlock 0) trivial trivial
  have hfailed := hlift.next (.reconcile reloadFails) trivial trivial
  have hend := h _ _ unloadedLift armedOpnsense calmEnv hfailed calmEnv_quiet (by rfl)
  obtain ⟨b, hb, _⟩ := hend.2 "10.0.0.5" (by decide) (by decide)
  have hnone : (unloadedLift.reconcileOpnsense armedOpnsense calmEnv).2.activeBlocks 0 = [] := by
    rfl
  rw [show calmEnv.now = 0 from rfl, hnone] at hb
  cases hb

end State

end SpatiumDdi.BlockSync
