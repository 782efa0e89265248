import SpatiumDdi.BlockSync.Reconcile

/-!
What block sync takes off a device is what it put there, as long as no push row
comes to name a value of the operator's: a pass finds none of an active block on the
device, and the operator adds none that a row already names.
-/

namespace SpatiumDdi.BlockSync

open State

/-- Members among `W` are SpatiumDDI's, and so was every deleted one. -/
structure Clean (W : Set String) (d : Device) : Prop where
  ours : ∀ v ∈ W, v ∈ d.members → v ∈ d.ours
  deletions : ∀ e ∈ d.deletions, e.ours = true

/-- By hand, no value of `W` is added before a call. -/
def Env.Spares (env : Env) (W : Set String) : Prop :=
  ∀ c v, Edit.add v ∈ env.edits c → v ∉ W

variable {W : Set String} {d : Device} {env : Env}

section

variable (h : Clean W d)
include h

theorem Clean.mono {W' : Set String} (hsub : W' ⊆ W) : Clean W' d :=
  ⟨fun v hv => h.ours v (hsub hv), h.deletions⟩

theorem Clean.edit {e : Edit} (he : ∀ v, e = .add v → v ∉ W) : Clean W (d.edit e) := by
  cases e with
  | add value =>
    refine ⟨fun v hv hmem => ?_, h.deletions⟩
    have hne : v ≠ value := fun heq => he value rfl (heq ▸ hv)
    have hold : v ∈ d.members := Finset.mem_of_mem_insert_of_ne hmem hne
    exact Finset.mem_erase.mpr ⟨hne, h.ours v hv hold⟩
  | remove value =>
    exact ⟨fun v hv hmem => h.ours v hv (Finset.mem_of_mem_erase hmem), h.deletions⟩

theorem Clean.edits {es : List Edit} (he : ∀ v, Edit.add v ∈ es → v ∉ W) :
    Clean W (es.foldl Device.edit d) := by
  refine List.foldlRecOn es Device.edit h fun d hd e hmem => ?_
  exact hd.edit fun v heq => he v (heq ▸ hmem)

theorem Clean.perform {c : Call} (hc : ∀ v, c = .delete v → v ∈ W) : Clean W (d.perform c) := by
  cases c with
  | list => exact h
  | reconfigure => exact ⟨h.ours, h.deletions⟩
  | delete value =>
    simp only [Device.perform]
    split
    next hmember =>
      have hours : value ∈ d.ours := h.ours value (hc value rfl) hmember
      refine ⟨fun v hv hmem => h.ours v hv (Finset.mem_of_mem_erase hmem), ?_⟩
      intro e he
      rcases List.mem_cons.mp he with rfl | he
      · exact decide_eq_true hours
      · exact h.deletions e he
    next => exact h
  | add value =>
    simp only [Device.perform]
    split
    next => exact ⟨h.ours, h.deletions⟩
    next =>
      refine ⟨fun v hv hmem => ?_, h.deletions⟩
      rcases Finset.mem_insert.mp hmem with rfl | hold
      · exact Finset.mem_insert_self _ _
      · exact Finset.mem_insert_of_mem (h.ours v hv hold)

theorem Clean.call (hspares : env.Spares W) {c : Call} (hc : ∀ v, c = .delete v → v ∈ W) :
    Clean W (d.call env c).2 := by
  have hedits := h.edits (hspares c)
  simp only [Device.call]
  split
  next => exact hedits.perform hc
  next landed _ _ =>
    cases landed with
    | true => exact hedits.perform hc
    | false => exact hedits

end

structure PassClean (blocks : List NetworkBlock) (W : Set String) (p : Pass) : Prop where
  device : Clean W p.device
  rows : RowsIn blocks W p.pushes
  confirm : ∀ b ∈ p.toConfirm, b ∈ blocks ∧ b.value ∈ W

section Passes

variable {blocks : List NetworkBlock} {onDevice : Finset String} {p : Pass}
  {push : NetworkBlockPush} {b : NetworkBlock}

section

variable (h : PassClean blocks W p)
include h

theorem PassClean.onto {d : Device} (hd : Clean W d) : PassClean blocks W { p with device := d } :=
  ⟨hd, h.rows, h.confirm⟩

theorem PassClean.dropPush (blockId : Nat) : PassClean blocks W (p.dropPush blockId) :=
  ⟨h.device, h.rows.filter _, h.confirm⟩

theorem PassClean.upsert (hkeyed : Keyed blocks) (hb : b ∈ blocks) (hvalue : b.value ∈ W)
    (status : PushStatus) (error : Option String) :
    PassClean blocks W (p.upsert env status error b) :=
  ⟨h.device, h.rows.upsert hkeyed hb hvalue _ _ _, h.confirm⟩

end

variable {v : String}

theorem liftValue_eq_some {blockId : Nat} (h : liftValue blocks onDevice blockId = some v) :
    ∃ b, blockById blocks blockId = some b ∧ b.value = v ∧ v ∈ onDevice := by
  unfold liftValue at h
  split at h
  next => cases h
  next b hb =>
    split at h
    next hon => exact ⟨b, hb, Option.some.inj h, Option.some.inj h ▸ hon.2⟩
    next => cases h

theorem RowsIn.liftValue {pushes : List NetworkBlockPush} (h : RowsIn blocks W pushes)
    (hpush : push ∈ pushes) (hv : liftValue blocks onDevice push.blockId = some v) : v ∈ W := by
  obtain ⟨b, hfind, rfl, _⟩ := liftValue_eq_some hv
  obtain ⟨b', hfind', hW⟩ := h push hpush
  obtain rfl : b = b' := Option.some.inj (hfind.symm.trans hfind')
  exact hW

section

variable (h : PassClean blocks W p)
include h

theorem PassClean.liftPush (hspares : env.Spares W)
    (hv : ∀ v, liftValue blocks onDevice push.blockId = some v → v ∈ W) :
    PassClean blocks W (p.liftPush env blocks onDevice push) := by
  unfold Pass.liftPush
  split
  · exact h
  split
  next => exact h.dropPush _
  next value hvalue =>
    have hcall : Clean W (p.device.call env (.delete value)).2 :=
      h.device.call hspares fun v heq => by
        cases heq
        exact hv value hvalue
    split
    next d heq =>
      rw [heq] at hcall
      exact ⟨hcall, h.rows.filter _, h.confirm⟩
    next e d heq =>
      rw [heq] at hcall
      refine ⟨hcall, h.rows.map fun row => ?_, h.confirm⟩
      split
      · rfl
      · rfl

theorem PassClean.assertBlock (hspares : env.Spares W) (hkeyed : Keyed blocks) (hb : b ∈ blocks)
    (hvalue : b.value ∈ W) {confirm : Pass → NetworkBlock → Pass}
    {loadedPushes : List NetworkBlockPush}
    (hconfirm : ∀ p, PassClean blocks W p → PassClean blocks W (confirm p b)) :
    PassClean blocks W (p.assertBlock env confirm loadedPushes onDevice b) := by
  have hcall : Clean W (p.device.call env (.add b.value)).2 := h.device.call hspares nofun
  unfold Pass.assertBlock
  split
  · exact h
  split
  · exact hconfirm p h
  split
  next d heq =>
    rw [heq] at hcall
    exact hconfirm _ ⟨hcall, h.rows, h.confirm⟩
  next e d heq =>
    rw [heq] at hcall
    exact ⟨hcall, h.rows.upsert hkeyed hb hvalue _ _ _, h.confirm⟩

theorem PassClean.deferConfirm (hb : b ∈ blocks) (hvalue : b.value ∈ W) :
    PassClean blocks W (p.deferConfirm b) := by
  refine ⟨h.device, h.rows, fun a ha => ?_⟩
  rcases List.mem_append.mp ha with ha | ha
  · exact h.confirm a ha
  · rw [List.mem_singleton.mp ha]
    exact ⟨hb, hvalue⟩

theorem PassClean.confirmAll (hkeyed : Keyed blocks) (env : Env) (status : PushStatus)
    (error : Option String) : PassClean blocks W (confirmAll env p status error) :=
  List.foldlRecOn p.toConfirm _ h fun _ hq b hb =>
    hq.upsert hkeyed (h.confirm b hb).1 (h.confirm b hb).2 status error

theorem PassClean.liftRows {rows : List NetworkBlockPush} (onDevice : Finset String)
    (hspares : env.Spares W) (hrows : RowsIn blocks W rows) :
    PassClean blocks W (liftRows env blocks onDevice rows p).2 := by
  induction rows generalizing p with
  | nil => exact h
  | cons push rest ih =>
    have hrest : RowsIn blocks W rest := fun row hrow => hrows row (List.mem_cons_of_mem _ hrow)
    rw [State.liftRows]
    split
    next => exact ih (h.dropPush _) hrest
    next value hvalue =>
      have hcall : Clean W (p.device.call env (.delete value)).2 :=
        h.device.call hspares fun v heq => by
          cases heq
          exact hrows.liftValue List.mem_cons_self hvalue
      split
      next e d heq =>
        rw [heq] at hcall
        exact ⟨hcall, h.rows, h.confirm⟩
      next d heq =>
        rw [heq] at hcall
        exact ih ⟨hcall, h.rows.filter _, h.confirm⟩ hrest

end

end Passes

namespace State

variable {s : State}

def Names (s : State) : Set String := namesIn s.blocks s.pushes

/-- What rows name or a pass may have them name. -/
def Claims (s : State) (now : Time) : Set String :=
  s.Names ∪ { v | ∃ b ∈ s.activeBlocks now, b.value = v }

def readBy (s : State) (env : Env) : Device := (env.edits .list).foldl Device.edit s.device

/-- No active block's value is on the device unless SpatiumDDI put it there. -/
def FindsOurs (s : State) (env : Env) : Prop :=
  ∀ b ∈ s.activeBlocks env.now, b.value ∈ (s.readBy env).members →
    b.value ∈ (s.readBy env).ours

instance (s : State) (env : Env) : Decidable (s.FindsOurs env) :=
  inferInstanceAs (Decidable (∀ b ∈ s.activeBlocks env.now, _))

/-- What keeps rows off the operator's values: nobody adds by hand what a row names,
and a pass that reads the device finds no active block's value that is not ours. -/
def Careful (s : State) : Op → Prop
  | .edit (.add v) => v ∉ s.Names
  | .reconcile env => s.target.configError = none →
      env.Spares (s.Claims env.now) ∧ (env.answer .list = .ok → s.FindsOurs env)
  | .liftAllForTarget env => env.Spares s.Names
  | .edit (.remove _) | .createNetworkBlock _ | .liftBlock _ | .arm _ => True

structure Owned (s : State) : Prop where
  keyed : Keyed s.blocks
  rows : RowsIn s.blocks s.Names s.pushes
  device : Clean s.Names s.device

variable {t : State}

theorem Owned.of_pass (h : Owned s) {p : Pass} (hp : PassClean s.blocks W p)
    (hblocks : t.blocks = s.blocks) (hpushes : t.pushes = p.pushes) (hdevice : t.device = p.device) :
    Owned t := by
  have hsub : t.Names ⊆ W := by
    rintro v ⟨push, hpush, b, hfind, rfl⟩
    rw [hpushes] at hpush
    rw [hblocks] at hfind
    obtain ⟨b', hfind', hvalue⟩ := hp.rows push hpush
    obtain rfl : b = b' := Option.some.inj (hfind.symm.trans hfind')
    exact hvalue
  refine ⟨hblocks ▸ h.keyed, ?_, hdevice ▸ hp.device.mono hsub⟩
  intro push hpush
  obtain ⟨b, hfind, _⟩ := hp.rows push (hpushes ▸ hpush)
  rw [← hblocks] at hfind
  exact ⟨b, hfind, push, hpush, b, hfind, rfl⟩

theorem Owned.refused (h : Owned s) (hd : Clean s.Names d) (error : String) :
    Owned (s.refused d error).2 :=
  ⟨h.keyed, h.rows, hd⟩

theorem rowsIn_claims (h : Owned s) (now : Time) : RowsIn s.blocks (s.Claims now) s.pushes := by
  intro push hpush
  obtain ⟨b, hfind, hvalue⟩ := h.rows push hpush
  exact ⟨b, hfind, .inl hvalue⟩

theorem mem_of_mem_activeBlocks {now : Time} {b : NetworkBlock} (hb : b ∈ s.activeBlocks now) :
    b ∈ s.blocks :=
  List.mem_of_mem_filter hb

theorem Owned.sweep (h : Owned s) (hspares : env.Spares (s.Claims env.now))
    (hd : Clean (s.Claims env.now) d) {confirm : Pass → NetworkBlock → Pass}
    (hconfirm : ∀ p, ∀ b ∈ s.activeBlocks env.now, PassClean s.blocks (s.Claims env.now) p →
      PassClean s.blocks (s.Claims env.now) (confirm p b)) :
    PassClean s.blocks (s.Claims env.now) (s.sweep env confirm d) := by
  have hrows := rowsIn_claims h env.now
  have hstart : PassClean s.blocks (s.Claims env.now) { device := d, pushes := s.pushes } :=
    ⟨hd, hrows, nofun⟩
  have hlifted := List.foldlRecOn s.pushes (Pass.liftPush env s.blocks d.members) hstart
    fun p hp push hpush => hp.liftPush hspares fun v hv => hrows.liftValue hpush hv
  exact List.foldlRecOn (s.activeBlocks env.now) _ hlifted fun p hp b hb =>
    hp.assertBlock hspares h.keyed (mem_of_mem_activeBlocks hb) (.inr ⟨b, hb, rfl⟩)
      fun q hq => hconfirm q b hb hq

theorem Owned.clean_list (h : Owned s) (hspares : env.Spares (s.Claims env.now)) :
    Clean s.Names (s.readBy env) :=
  h.device.edits fun v hv hmem => hspares .list v hv (.inl hmem)

theorem Owned.clean_read (h : Owned s) (hspares : env.Spares (s.Claims env.now))
    (hread : s.FindsOurs env) :
    Clean (s.Claims env.now) (s.readBy env) := by
  have hnames := h.clean_list hspares
  refine ⟨?_, hnames.deletions⟩
  rintro v (hv | ⟨b, hb, rfl⟩) hmem
  · exact hnames.ours v hv hmem
  · exact hread b hb hmem

theorem answer_of_call {c : Call} {d' : Device} (h : d.call env c = (.ok (), d')) :
    env.answer c = .ok := by
  simp only [Device.call] at h
  split at h
  next hanswer => exact hanswer
  next => cases h

theorem call_list (s : State) (env : Env) : (s.device.call env .list).2 = s.readBy env := by
  simp only [Device.call, readBy]
  split
  · rfl
  · simp [Device.perform]

theorem eq_readBy_of_call {answer : Except String Unit}
    (heq : s.device.call env .list = (answer, d)) : d = s.readBy env :=
  (congrArg Prod.snd heq).symm.trans (call_list s env)

section

variable (h : Owned s)
include h

theorem Owned.clean_of_unread (hspares : env.Spares (s.Claims env.now)) {e : String}
    (heq : s.device.call env .list = (.error e, d)) : Clean s.Names d := by
  obtain rfl := eq_readBy_of_call heq
  exact h.clean_list hspares

theorem Owned.clean_of_read (hspares : env.Spares (s.Claims env.now))
    (hread : env.answer .list = .ok → s.FindsOurs env) (heq : s.device.call env .list = (.ok (), d)) :
    d = s.readBy env ∧ Clean (s.Claims env.now) d := by
  obtain rfl := eq_readBy_of_call heq
  exact ⟨rfl, h.clean_read hspares (hread (answer_of_call heq))⟩

theorem Owned.reconcile (hcareful : s.target.configError = none → env.Spares (s.Claims env.now) ∧
      (env.answer .list = .ok → s.FindsOurs env)) : Owned (s.reconcile env).2 := by
  have hblocks : ∀ b ∈ s.activeBlocks env.now, b ∈ s.blocks ∧ b.value ∈ s.Claims env.now :=
    fun b hb => ⟨mem_of_mem_activeBlocks hb, .inr ⟨b, hb, rfl⟩⟩
  unfold State.reconcile
  split
  next router htarget =>
    unfold reconcileOpnsense
    split
    next => exact h.refused h.device _
    next hconfig =>
      obtain ⟨hspares, hread⟩ := hcareful (by rw [htarget]; exact hconfig)
      split
      next e d heq => exact h.refused (h.clean_of_unread hspares heq) _
      next d heq =>
        obtain ⟨rfl, hclean⟩ := h.clean_of_read hspares hread heq
        have hsweep : PassClean s.blocks (s.Claims env.now)
            (s.sweep env Pass.deferConfirm (s.readBy env)) :=
          h.sweep hspares hclean fun p b hb hp => hp.deferConfirm (hblocks b hb).1 (hblocks b hb).2
        simp only
        split
        next =>
          have hreload := hsweep.device.call hspares (c := .reconfigure) nofun
          split
          next e d' heq' =>
            rw [heq'] at hreload
            have hend := (hsweep.onto hreload).confirmAll h.keyed env .error
              (some s!"reconfigure failed: {e}")
            exact h.of_pass hend rfl rfl rfl
          next d' heq' =>
            rw [heq'] at hreload
            have hend := (hsweep.onto hreload).confirmAll h.keyed env .pushed none
            exact h.of_pass hend rfl rfl rfl
        next => exact h.of_pass hsweep rfl rfl rfl
  next fw htarget =>
    unfold reconcilePanos
    split
    next => exact h.refused h.device _
    next hconfig =>
      obtain ⟨hspares, hread⟩ := hcareful (by rw [htarget]; exact hconfig)
      split
      next e d heq => exact h.refused (h.clean_of_unread hspares heq) _
      next d heq =>
        obtain ⟨rfl, hclean⟩ := h.clean_of_read hspares hread heq
        have hsweep : PassClean s.blocks (s.Claims env.now)
            (s.sweep env (Pass.confirmPushed env) (s.readBy env)) :=
          h.sweep hspares hclean fun p b hb hp =>
            hp.upsert h.keyed (hblocks b hb).1 (hblocks b hb).2 .pushed none
        exact h.of_pass hsweep rfl rfl rfl

theorem Owned.liftAllForTarget (hspares : env.Spares s.Names) :
    Owned (s.liftAllForTarget env).2 := by
  have hlist : Clean s.Names (s.device.call env .list).2 := h.device.call hspares nofun
  unfold State.liftAllForTarget
  split
  · exact h
  split
  next e d heq =>
    rw [heq] at hlist
    have hstart : PassClean s.blocks s.Names { device := d, pushes := s.pushes } :=
      ⟨hlist, h.rows, nofun⟩
    exact h.of_pass hstart rfl rfl rfl
  next d heq =>
    rw [heq] at hlist
    have hstart : PassClean s.blocks s.Names { device := d, pushes := s.pushes } :=
      ⟨hlist, h.rows, nofun⟩
    have hlifted := hstart.liftRows d.members hspares h.rows
    split
    next e p heq' =>
      rw [heq'] at hlifted
      exact h.of_pass hlifted rfl rfl rfl
    next p heq' =>
      rw [heq'] at hlifted
      split
      next =>
        have hreload := hlifted.device.call hspares (c := .reconfigure) nofun
        split
        next e d' heq'' =>
          rw [heq''] at hreload
          exact h.of_pass (hlifted.onto hreload) rfl rfl rfl
        next d' heq'' =>
          rw [heq''] at hreload
          exact h.of_pass (hlifted.onto hreload) rfl rfl rfl
      next => exact h.of_pass hlifted rfl rfl rfl

end

/-- Other rows, with the keys and values the old ones had. -/
def SameBlocks (s : State) (t : State) : Prop :=
  ∃ blocks, t = { s with blocks := blocks } ∧ Keyed blocks ∧
    ∀ blockId b, blockById s.blocks blockId = some b →
      ∃ b', blockById blocks blockId = some b' ∧ b'.value = b.value

section

variable (hkeyed : Keyed s.blocks)
include hkeyed

theorem sameBlocks_map {f : NetworkBlock → NetworkBlock} (hid : ∀ b, (f b).id = b.id)
    (hvalue : ∀ b, (f b).value = b.value) : SameBlocks s { s with blocks := s.blocks.map f } := by
  refine ⟨_, rfl, hkeyed.map hid hvalue, fun blockId b hfind => ⟨f b, ?_, hvalue b⟩⟩
  rw [blockById_map hid, hfind]
  rfl

theorem sameBlocks_liftBlock (blockId : Nat) : SameBlocks s (s.liftBlock blockId) := by
  apply sameBlocks_map hkeyed
  · intro b
    split
    · rfl
    · rfl
  · intro b
    split
    · rfl
    · rfl

theorem sameBlocks_createNetworkBlock {new : NetworkBlock} (hnew : ∀ b ∈ s.blocks, b.id ≠ new.id) :
    SameBlocks s (s.createNetworkBlock new) := by
  unfold State.createNetworkBlock
  split
  next =>
    apply sameBlocks_map hkeyed
    · intro b
      split
      · rfl
      · rfl
    · intro b
      split
      · rfl
      · rfl
  next hfree =>
    refine ⟨_, rfl, ?_, fun blockId b hfind => ⟨b, ?_, rfl⟩⟩
    · refine List.pairwise_append.mpr ⟨hkeyed, List.pairwise_singleton _ _, ?_⟩
      intro a ha b hb
      rw [List.mem_singleton.mp hb]
      refine ⟨hnew a ha, fun heq => hfree ?_⟩
      exact List.any_eq_true.mpr ⟨a, ha, decide_eq_true heq⟩
    · rw [blockById, List.find?_append]
      change (blockById s.blocks blockId).or _ = _
      rw [hfind]
      rfl

end

theorem Owned.sameBlocks (h : Owned s) (hsame : SameBlocks s t) : Owned t := by
  obtain ⟨blocks, rfl, hkeyed, hfound⟩ := hsame
  have hnames : { s with blocks := blocks }.Names = s.Names := by
    ext v
    constructor
    · rintro ⟨push, hpush, b, hfind, rfl⟩
      obtain ⟨a, hfinda, _⟩ := h.rows push hpush
      obtain ⟨b', hfind', heq⟩ := hfound _ a hfinda
      obtain rfl : b = b' := Option.some.inj (hfind.symm.trans hfind')
      exact ⟨push, hpush, a, hfinda, heq.symm⟩
    · rintro ⟨push, hpush, b, hfind, rfl⟩
      obtain ⟨b', hfind', heq⟩ := hfound _ b hfind
      exact ⟨push, hpush, b', hfind', heq⟩
  refine ⟨hkeyed, ?_, hnames ▸ h.device⟩
  intro push hpush
  obtain ⟨b, hfind, hvalue⟩ := h.rows push hpush
  obtain ⟨b', hfind', heq⟩ := hfound _ b hfind
  exact ⟨b', hfind', hnames ▸ heq ▸ hvalue⟩

theorem Owned.apply (h : Owned s) {op : Op} (henabled : op.enabled s) (hcareful : s.Careful op) :
    Owned (s.apply op) := by
  cases op with
  | createNetworkBlock new => exact h.sameBlocks (sameBlocks_createNetworkBlock h.keyed henabled)
  | liftBlock blockId => exact h.sameBlocks (sameBlocks_liftBlock h.keyed blockId)
  | arm target => exact ⟨h.keyed, h.rows, h.device⟩
  | edit e =>
    refine ⟨h.keyed, h.rows, h.device.edit fun v heq => ?_⟩
    subst heq
    exact hcareful
  | reconcile env => exact h.reconcile hcareful
  | liftAllForTarget env => exact h.liftAllForTarget hcareful

variable {target : Target} {members : Finset String}

theorem Reachable.owned (h : Reachable Careful target members s) : Owned s := by
  induction h with
  | refl => exact ⟨.nil, nofun, ⟨fun _ ⟨_, hpush, _⟩ => (List.not_mem_nil hpush).elim, nofun⟩⟩
  | tail _ hstep ih =>
    obtain ⟨op, henabled, hcareful, rfl⟩ := hstep
    exact ih.apply henabled hcareful

/-- In a careful run, everything deleted from the device was put there by SpatiumDDI. -/
theorem deletes_ours {target : Target} {members : Finset String}
    (h : Reachable Careful target members s) :
    ∀ e ∈ s.device.deletions, e.ours = true :=
  h.owned.device.deletions

def armedRouter : Target :=
  .opnsense ⟨true, "blocked", "key", "secret"⟩

/-- Every call is answered, and nobody edits the device meanwhile. -/
def calmEnv : Env := { now := 0, edits := fun _ => [], answer := fun _ => .ok }

def blockedHost : NetworkBlock := ⟨0, "10.0.0.5", true, none, by decide⟩

def blockAndLift (s : State) : State :=
  (((s.apply (.createNetworkBlock blockedHost)).apply (.reconcile calmEnv)).apply
    (.liftBlock 0)).apply (.reconcile calmEnv)

theorem Reachable.next {guard : State → Op → Prop} (h : Reachable guard target members s) (op : Op)
    (henabled : op.enabled s) (hguard : guard s op) : Reachable guard target members (s.apply op) :=
  h.tail ⟨op, henabled, hguard, rfl⟩

theorem calmEnv_spares : calmEnv.Spares W :=
  fun _ _ h => absurd h List.not_mem_nil

theorem deletes_ours_blockAndLift :
    (blockAndLift (initial armedRouter ∅)).device.deletions = [⟨"10.0.0.5", true⟩] ∧
      ∀ e ∈ (blockAndLift (initial armedRouter ∅)).device.deletions, e.ours = true := by
  have hcreate : Reachable Careful armedRouter ∅
      ((initial armedRouter ∅).apply (.createNetworkBlock blockedHost)) :=
    Reachable.next .refl _ nofun trivial
  have hpass := hcreate.next (.reconcile calmEnv) trivial
    fun _ => ⟨calmEnv_spares, fun _ => by decide⟩
  have hlift := hpass.next (.liftBlock 0) trivial trivial
  have hend := hlift.next (.reconcile calmEnv) trivial
    fun _ => ⟨calmEnv_spares, fun _ => by decide⟩
  exact ⟨by rfl, deletes_ours hend⟩

/-- The operator adds a host by hand, then blocks it and lifts the block: the first
pass writes a push row for the member it finds, and the second one deletes it. -/
theorem not_deletes_ours_handAdded :
    ¬ ∀ target members s, Reachable (fun _ _ => True) target members s →
      ∀ e ∈ s.device.deletions, e.ours = true := by
  intro h
  have hadd : Reachable (fun _ _ => True) armedRouter ∅
      ((initial armedRouter ∅).apply (.edit (.add "10.0.0.5"))) :=
    Reachable.next .refl _ trivial trivial
  have hcreate := hadd.next (.createNetworkBlock blockedHost) nofun trivial
  have hpass := hcreate.next (.reconcile calmEnv) trivial trivial
  have hlift := hpass.next (.liftBlock 0) trivial trivial
  have hend := hlift.next (.reconcile calmEnv) trivial trivial
  have hours := h _ _ _ hend ⟨"10.0.0.5", false⟩ (by decide)
  cases hours

end State

end SpatiumDdi.BlockSync
