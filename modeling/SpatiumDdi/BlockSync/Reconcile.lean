import Mathlib.Data.Finset.Insert
import Mathlib.Data.Finset.Erase
import Mathlib.Data.List.Pairwise
import SpatiumDdi.Lib.Text

/-!
Block sync of one target: an OPNsense alias or a PAN-OS tag. A pass reads the
members the device has, takes out those whose block is no longer active and puts
in those that are missing, one call each; OPNsense then reloads its ruleset. Any
call may fail, with or without its effect, and the operator may edit the members
before any call.
-/

namespace SpatiumDdi.BlockSync

open Text

abbrev Time := ℤ

/-- A row of `network_block` for an address, in the form `normalize_block_value`
gives it. -/
structure NetworkBlock where
  id : Nat
  value : String
  enabled : Bool
  expiresAt : Option Time
  value_ne : value ≠ ""

def blockIsActive (block : NetworkBlock) (now : Time) : Bool :=
  if !block.enabled then false
  else if block.expiresAt.any fun expiresAt => decide (expiresAt ≤ now) then false
  else true

inductive PushStatus where
  | pending
  | pushed
  | removing
  | error
  deriving DecidableEq

structure NetworkBlockPush where
  blockId : Nat
  pushStatus : PushStatus := .pending
  lastError : Option String := none
  lastPushedAt : Option Time := none

structure OPNsenseRouter where
  blockSyncEnabled : Bool
  blockAliasName : String
  blockSyncApiKey : String
  blockSyncApiSecretEncrypted : String

def opnsenseConfigError (router : OPNsenseRouter) : Option String :=
  if !router.blockSyncEnabled then some "block sync not armed on this target"
  else if strip router.blockAliasName = "" then
    some "no firewall alias configured (block_alias_name)"
  else if strip router.blockSyncApiKey = "" ∨ router.blockSyncApiSecretEncrypted = "" then
    some "write-scoped credentials not configured"
  else none

structure PANOSFirewall where
  blockSyncEnabled : Bool
  isPanorama : Bool
  blockTagName : String
  blockSyncApiKeyEncrypted : String

def panosConfigError (fw : PANOSFirewall) : Option String :=
  if !fw.blockSyncEnabled then some "block sync not armed on this target"
  else if fw.isPanorama then
    some "DAG enforcement requires a standalone firewall (vsys), not a Panorama target"
  else if strip fw.blockTagName = "" then some "no DAG tag configured (block_tag_name)"
  else if fw.blockSyncApiKeyEncrypted = "" then
    some "User-ID write-scoped API key not configured"
  else none

inductive Target where
  | opnsense (router : OPNsenseRouter)
  | paloalto (fw : PANOSFirewall)

namespace Target

def configError : Target → Option String
  | .opnsense router => opnsenseConfigError router
  | .paloalto fw => panosConfigError fw

/-- Whether the target still has what `lift_all_for_target` needs. -/
def liftable : Target → Bool
  | .opnsense router => strip router.blockAliasName ≠ "" ∧ router.blockSyncApiKey ≠ ""
  | .paloalto fw => strip fw.blockTagName ≠ "" ∧ fw.blockSyncApiKeyEncrypted ≠ ""

def reloads : Target → Bool
  | .opnsense _ => true
  | .paloalto _ => false

def memberSet : Target → String ⊕ String
  | .opnsense router => .inl (strip router.blockAliasName)
  | .paloalto fw => .inr (strip fw.blockTagName)

end Target

inductive Edit where
  | add (value : String)
  | remove (value : String)

/-- A call of a pass: `alias_*` of OPNsense, `*_ip_tag` of PAN-OS. -/
inductive Call where
  | list
  | delete (value : String)
  | add (value : String)
  | reconfigure
  deriving DecidableEq

/-- A deletion, with whether SpatiumDDI had put the member there. -/
structure Deletion where
  value : String
  ours : Bool
  deriving DecidableEq

structure Device where
  members : Finset String
  loaded : Finset String := ∅
  /-- The values SpatiumDDI's calls added after the operator last did. -/
  sent : Finset String := ∅
  /-- Those among them that were no members before the call. -/
  ours : Finset String := ∅
  deletions : List Deletion := []

def Device.edit (d : Device) : Edit → Device
  | .add value => { d with
      members := insert value d.members
      sent := d.sent.erase value
      ours := d.ours.erase value }
  | .remove value => { d with members := d.members.erase value }

def Device.perform (d : Device) : Call → Device
  | .list => d
  | .delete value =>
    if value ∈ d.members then
      { d with
        members := d.members.erase value
        deletions := ⟨value, decide (value ∈ d.ours)⟩ :: d.deletions }
    else d
  | .add value =>
    if value ∈ d.members then { d with sent := insert value d.sent }
    else { d with
      members := insert value d.members
      sent := insert value d.sent
      ours := insert value d.ours }
  | .reconfigure => { d with loaded := d.members }

inductive Answer where
  | ok
  | failed (landed : Bool) (message : String)

/-- What a pass meets. It makes no call twice. -/
structure Env where
  now : Time
  /-- The operator's edits just before the call. -/
  edits : Call → List Edit
  answer : Call → Answer

def Device.call (env : Env) (d : Device) (c : Call) : Except String Unit × Device :=
  let d := (env.edits c).foldl Device.edit d
  match env.answer c with
  | .ok => (.ok (), d.perform c)
  | .failed landed message => (.error message, if landed then d.perform c else d)

structure BlockSyncSummary where
  ok : Bool := true
  error : Option String := none
  added : Nat := 0
  removed : Nat := 0
  errors : Nat := 0

structure Pass where
  device : Device
  pushes : List NetworkBlockPush
  summary : BlockSyncSummary := {}
  changed : Bool := false
  addedVals : List String := []
  removedVals : List String := []
  toConfirm : List NetworkBlock := []

def blockById (blocks : List NetworkBlock) (blockId : Nat) : Option NetworkBlock :=
  blocks.find? fun b => b.id = blockId

def pushOf (pushes : List NetworkBlockPush) (blockId : Nat) : Option NetworkBlockPush :=
  pushes.find? fun push => push.blockId = blockId

def NetworkBlockPush.write (push : NetworkBlockPush) (now : Time) (status : PushStatus)
    (error : Option String) : NetworkBlockPush :=
  { push with
    pushStatus := status
    lastError := error
    lastPushedAt := if status = .pushed then some now else push.lastPushedAt }

def upsertPush (pushes : List NetworkBlockPush) (blockId : Nat) (now : Time)
    (status : PushStatus) (error : Option String) : List NetworkBlockPush :=
  if (pushOf pushes blockId).isSome then
    pushes.map fun push => if push.blockId = blockId then push.write now status error else push
  else pushes ++ [{ blockId : NetworkBlockPush }.write now status error]

def Pass.upsert (p : Pass) (env : Env) (status : PushStatus) (error : Option String)
    (b : NetworkBlock) : Pass :=
  { p with pushes := upsertPush p.pushes b.id env.now status error }

def Pass.dropPush (p : Pass) (blockId : Nat) : Pass :=
  { p with
    pushes := p.pushes.filter fun push => push.blockId ≠ blockId
    summary := { p.summary with removed := p.summary.removed + 1 } }

def liftValue (blocks : List NetworkBlock) (onDevice : Finset String) (blockId : Nat) :
    Option String :=
  match blockById blocks blockId with
  | none => none
  | some b => if b.value ≠ "" ∧ b.value ∈ onDevice then some b.value else none

def Pass.lifted (p : Pass) (d : Device) (value : String) (blockId : Nat) : Pass :=
  { p with device := d, changed := true, removedVals := p.removedVals ++ [value] }.dropPush
    blockId

def Pass.notLifted (p : Pass) (d : Device) (blockId : Nat) (e : String) : Pass :=
  { p with
    device := d
    pushes := p.pushes.map fun row =>
      if row.blockId = blockId then { row with pushStatus := .error, lastError := some e }
      else row
    summary := { p.summary with errors := p.summary.errors + 1 } }

/-- The lift of one row whose block is no longer active, or gone. -/
def Pass.liftPush (env : Env) (blocks : List NetworkBlock) (onDevice : Finset String) (p : Pass)
    (push : NetworkBlockPush) : Pass :=
  if (blockById blocks push.blockId).any fun b => blockIsActive b env.now then p
  else
    match liftValue blocks onDevice push.blockId with
    | none => p.dropPush push.blockId
    | some value =>
      match p.device.call env (.delete value) with
      | (.ok (), d) => p.lifted d value push.blockId
      | (.error e, d) => p.notLifted d push.blockId e

def Pass.asserted (p : Pass) (d : Device) (value : String) : Pass :=
  { p with
    device := d
    changed := true
    addedVals := p.addedVals ++ [value]
    summary := { p.summary with added := p.summary.added + 1 } }

def Pass.notAsserted (p : Pass) (env : Env) (d : Device) (b : NetworkBlock) (e : String) : Pass :=
  { p with
    device := d
    summary := { p.summary with errors := p.summary.errors + 1 } }.upsert env .error (some e) b

/-- Whether a row says that the block is on the device. -/
def isConfirmed (pushes : List NetworkBlockPush) (b : NetworkBlock) : Bool :=
  (pushOf pushes b.id).any fun push => push.pushStatus = .pushed

/-- The assertion of one active block. `confirm` is what becomes of its row once its
value is on the device. -/
def Pass.assertBlock (env : Env) (confirm : Pass → NetworkBlock → Pass)
    (loadedPushes : List NetworkBlockPush) (onDevice : Finset String) (p : Pass)
    (b : NetworkBlock) : Pass :=
  if isConfirmed loadedPushes b ∧ b.value ∈ onDevice then p
  else if b.value ∈ onDevice then confirm p b
  else
    match p.device.call env (.add b.value) with
    | (.ok (), d) => confirm (p.asserted d b.value) b
    | (.error e, d) => p.notAsserted env d b e

/-- OPNsense marks a row as pushed only after the reload. -/
def Pass.deferConfirm (p : Pass) (b : NetworkBlock) : Pass :=
  { p with toConfirm := p.toConfirm ++ [b] }

/-- PAN-OS has nothing to reload. -/
def Pass.confirmPushed (env : Env) (p : Pass) (b : NetworkBlock) : Pass :=
  p.upsert env .pushed none b

structure DevicePush where
  added : List String
  removed : List String

structure State where
  target : Target
  blocks : List NetworkBlock := []
  pushes : List NetworkBlockPush := []
  device : Device
  lastBlockSyncAt : Option Time := none
  lastBlockSyncError : Option String := none
  audit : List DevicePush := []

def auditDevicePush (audit : List DevicePush) (added removed : List String) : List DevicePush :=
  if added = [] ∧ removed = [] then audit else audit ++ [⟨added, removed⟩]

namespace State

variable (s : State)

def activeBlocks (now : Time) : List NetworkBlock := s.blocks.filter fun b => blockIsActive b now

/-- A pass that stopped before it changed anything. -/
def refused (device : Device) (error : String) : BlockSyncSummary × State :=
  ({ ok := false, error := some error },
    { s with device := device, lastBlockSyncError := some error })

def passed (env : Env) (p : Pass) : BlockSyncSummary × State :=
  ({ p.summary with ok := p.summary.errors = 0 },
    { s with
      pushes := p.pushes
      device := p.device
      lastBlockSyncAt := some env.now
      lastBlockSyncError :=
        if p.summary.errors = 0 then none else some s!"{p.summary.errors} push error(s)"
      audit := auditDevicePush s.audit p.addedVals p.removedVals })

def sweep (env : Env) (confirm : Pass → NetworkBlock → Pass) (device : Device) : Pass :=
  let onDevice := device.members
  let lifted := s.pushes.foldl (Pass.liftPush env s.blocks onDevice)
    { device := device, pushes := s.pushes }
  (s.activeBlocks env.now).foldl (Pass.assertBlock env confirm s.pushes onDevice) lifted

def confirmAll (env : Env) (p : Pass) (status : PushStatus) (error : Option String) : Pass :=
  p.toConfirm.foldl (fun p b => p.upsert env status error b) p

def reloadFailed (env : Env) (p : Pass) (error : String) : BlockSyncSummary × State :=
  let q := confirmAll env p .error (some s!"reconfigure failed: {error}")
  ({ q.summary with
      errors := q.summary.errors + p.toConfirm.length, ok := false, error := some error },
    { s with
      pushes := q.pushes
      device := q.device
      lastBlockSyncAt := some env.now
      lastBlockSyncError := some s!"reconfigure failed: {error}" })

def reconcileOpnsense (router : OPNsenseRouter) (env : Env) : BlockSyncSummary × State :=
  match opnsenseConfigError router with
  | some cfgErr => s.refused s.device cfgErr
  | none =>
    match s.device.call env .list with
    | (.error e, d) => s.refused d e
    | (.ok (), d) =>
      let p := s.sweep env Pass.deferConfirm d
      if p.changed ∨ p.toConfirm ≠ [] then
        match p.device.call env .reconfigure with
        | (.error e, d) => s.reloadFailed env { p with device := d } e
        | (.ok (), d) => s.passed env (confirmAll env { p with device := d } .pushed none)
      else s.passed env p

def reconcilePanos (fw : PANOSFirewall) (env : Env) : BlockSyncSummary × State :=
  match panosConfigError fw with
  | some cfgErr => s.refused s.device cfgErr
  | none =>
    match s.device.call env .list with
    | (.error e, d) => s.refused d e
    | (.ok (), d) => s.passed env (s.sweep env (Pass.confirmPushed env) d)

def reconcile (env : Env) : BlockSyncSummary × State :=
  match s.target with
  | .opnsense router => s.reconcileOpnsense router env
  | .paloalto fw => s.reconcilePanos fw env

def liftRows (env : Env) (blocks : List NetworkBlock) (onDevice : Finset String) :
    List NetworkBlockPush → Pass → Except String Unit × Pass
  | [], p => (.ok (), p)
  | push :: rest, p =>
    match liftValue blocks onDevice push.blockId with
    | none => liftRows env blocks onDevice rest (p.dropPush push.blockId)
    | some value =>
      match p.device.call env (.delete value) with
      | (.error e, d) => (.error e, { p with device := d })
      | (.ok (), d) => liftRows env blocks onDevice rest (p.lifted d value push.blockId)

/-- The end of a lift whose last call has failed. -/
def liftFailed (p : Pass) (error : String) : BlockSyncSummary × State :=
  ({ p.summary with ok := false, error := some error },
    { s with
      pushes := p.pushes
      device := p.device
      lastBlockSyncError := some s!"disarm-lift failed: {error}" })

def liftDone (env : Env) (p : Pass) : BlockSyncSummary × State :=
  (p.summary,
    { s with
      pushes := p.pushes
      device := p.device
      lastBlockSyncAt := some env.now
      audit := auditDevicePush s.audit [] p.removedVals })

def liftAllForTarget (env : Env) : BlockSyncSummary × State :=
  if s.pushes = [] ∨ !s.target.liftable then ({}, s)
  else
    match s.device.call env .list with
    | (.error e, d) => s.liftFailed { device := d, pushes := s.pushes } e
    | (.ok (), d) =>
      match liftRows env s.blocks d.members s.pushes { device := d, pushes := s.pushes } with
      | (.error e, p) => s.liftFailed p e
      | (.ok (), p) =>
        if p.changed ∧ s.target.reloads then
          match p.device.call env .reconfigure with
          | (.error e, d) => s.liftFailed { p with device := d } e
          | (.ok (), d) => s.liftDone env { p with device := d }
        else s.liftDone env p

/-- `create_network_block`: a block with that value is armed again. -/
def createNetworkBlock (new : NetworkBlock) : State :=
  if s.blocks.any fun b => b.value = new.value then
    { s with blocks := s.blocks.map fun b =>
        if b.value = new.value then { b with enabled := true, expiresAt := new.expiresAt }
        else b }
  else { s with blocks := s.blocks ++ [{ new with enabled := true }] }

def liftBlock (blockId : Nat) : State :=
  { s with blocks := s.blocks.map fun b =>
      if b.id = blockId then { b with enabled := false } else b }

inductive Op where
  | createNetworkBlock (new : NetworkBlock)
  | liftBlock (blockId : Nat)
  /-- The target is armed or disarmed, and its credentials are edited. -/
  | arm (target : Target)
  | edit (e : Edit)
  | reconcile (env : Env)
  | liftAllForTarget (env : Env)

/-- A new row has a new key, and a run is about one set of members. -/
def Op.enabled : Op → Prop
  | .createNetworkBlock new => ∀ b ∈ s.blocks, b.id ≠ new.id
  | .arm target => target.memberSet = s.target.memberSet
  | .liftBlock _ | .edit _ | .reconcile _ | .liftAllForTarget _ => True

def apply : Op → State
  | .createNetworkBlock new => s.createNetworkBlock new
  | .liftBlock blockId => s.liftBlock blockId
  | .arm target => { s with target := target }
  | .edit e => { s with device := s.device.edit e }
  | .reconcile env => (s.reconcile env).2
  | .liftAllForTarget env => (s.liftAllForTarget env).2

def initial (target : Target) (members : Finset String) : State :=
  { target := target, device := { members := members } }

/-- The states a run reaches whose steps all meet `guard`. -/
def Reachable (guard : State → Op → Prop) (target : Target) (members : Finset String) :
    State → Prop :=
  Relation.ReflTransGen (fun s t => ∃ op, Op.enabled s op ∧ guard s op ∧ t = s.apply op)
    (initial target members)

end State

section Rows

variable {blocks : List NetworkBlock} {pushes : List NetworkBlockPush} {b a : NetworkBlock}
  {f : NetworkBlock → NetworkBlock}

/-- The constraints of `network_block`. -/
def Keyed (blocks : List NetworkBlock) : Prop :=
  blocks.Pairwise fun a b => a.id ≠ b.id ∧ a.value ≠ b.value

theorem Keyed.eq_of_id (h : Keyed blocks) (ha : a ∈ blocks) (hb : b ∈ blocks) (hid : a.id = b.id) :
    a = b := by
  by_contra hne
  have : Std.Symm fun a b : NetworkBlock => a.id ≠ b.id ∧ a.value ≠ b.value :=
    ⟨fun _ _ hab => ⟨hab.1.symm, hab.2.symm⟩⟩
  exact (List.Pairwise.forall h ha hb hne).1 hid

theorem Keyed.eq_of_value (h : Keyed blocks) (ha : a ∈ blocks) (hb : b ∈ blocks)
    (hvalue : a.value = b.value) : a = b := by
  by_contra hne
  have : Std.Symm fun a b : NetworkBlock => a.id ≠ b.id ∧ a.value ≠ b.value :=
    ⟨fun _ _ hab => ⟨hab.1.symm, hab.2.symm⟩⟩
  exact (List.Pairwise.forall h ha hb hne).2 hvalue

theorem blockById_eq_some {blockId : Nat} (h : blockById blocks blockId = some b) :
    b ∈ blocks ∧ b.id = blockId := by
  have hid := List.find?_some h
  exact ⟨List.mem_of_find?_eq_some h, of_decide_eq_true hid⟩

theorem Keyed.blockById_eq (h : Keyed blocks) (hb : b ∈ blocks) :
    blockById blocks b.id = some b := by
  cases hfind : blockById blocks b.id with
  | none =>
    have hid := List.find?_eq_none.mp hfind b hb
    simp at hid
  | some a =>
    obtain ⟨ha, hid⟩ := blockById_eq_some hfind
    rw [h.eq_of_id ha hb hid]

theorem blockById_map (hid : ∀ b, (f b).id = b.id) (blockId : Nat) :
    blockById (blocks.map f) blockId = (blockById blocks blockId).map f := by
  simp only [blockById, List.find?_map]
  congr 2
  funext b
  simp only [Function.comp_apply, hid]

theorem Keyed.map (h : Keyed blocks) (hid : ∀ b, (f b).id = b.id)
    (hvalue : ∀ b, (f b).value = b.value) : Keyed (blocks.map f) := by
  rw [Keyed, List.pairwise_map]
  simp only [hid, hvalue]
  exact h

/-- The rows name blocks with values in `W`, and no row is without its block. -/
def RowsIn (blocks : List NetworkBlock) (W : Set String) (pushes : List NetworkBlockPush) :
    Prop :=
  ∀ push ∈ pushes, ∃ b, blockById blocks push.blockId = some b ∧ b.value ∈ W

def namesIn (blocks : List NetworkBlock) (pushes : List NetworkBlockPush) : Set String :=
  { v | ∃ push ∈ pushes, ∃ b, blockById blocks push.blockId = some b ∧ b.value = v }

variable {W : Set String}

section

variable (h : RowsIn blocks W pushes)
include h

theorem RowsIn.map {g : NetworkBlockPush → NetworkBlockPush}
    (hg : ∀ push, (g push).blockId = push.blockId) : RowsIn blocks W (pushes.map g) := by
  intro push hpush
  obtain ⟨push, hmem, rfl⟩ := List.mem_map.mp hpush
  rw [hg]
  exact h push hmem

theorem RowsIn.filter (keep : NetworkBlockPush → Bool) : RowsIn blocks W (pushes.filter keep) :=
  fun push hpush => h push (List.mem_of_mem_filter hpush)

theorem RowsIn.upsert (hkeyed : Keyed blocks) (hb : b ∈ blocks) (hvalue : b.value ∈ W) (now : Time)
    (status : PushStatus) (error : Option String) :
    RowsIn blocks W (upsertPush pushes b.id now status error) := by
  unfold upsertPush
  split
  · refine h.map fun push => ?_
    split
    · rfl
    · rfl
  · intro push hpush
    rcases List.mem_append.mp hpush with hold | hnew
    · exact h push hold
    · rw [List.mem_singleton.mp hnew]
      exact ⟨b, hkeyed.blockById_eq hb, hvalue⟩

end

end Rows

end SpatiumDdi.BlockSync
