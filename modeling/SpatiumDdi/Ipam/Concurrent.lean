import SpatiumDdi.Ipam.SubnetsApart

/-!
Concurrent subnet creation. A request is a READ COMMITTED transaction: each of
its reads sees what is committed at that moment, and its row becomes visible
when it commits. `allocate_subnet` holds the lock of its block's row from its
first step on; `create_subnet` holds none until it inserts. The overlap check is
a read like any other, so what it has seen can be out of date at the commit:
only the block's lock keeps two carves of one block apart.
-/

namespace SpatiumDdi.Ipam

open Ipaddress Trash

inductive SubnetRequest where
  | create (body : SubnetCreate)
  | allocate (blockId : Nat) (body : SubnetAllocate)

/-- How far a transaction has come. -/
inductive TxnPhase where
  | begun
  /-- `SELECT … FOR UPDATE` on the block has returned. -/
  | locked
  /-- The networks of the child blocks have been read. -/
  | sawBlocks (childBlocks : List Net)
  | chosen (body : SubnetCreate)
  /-- Every check of `create_subnet` has passed. -/
  | checked (body : SubnetCreate)
  | inserted (body : SubnetCreate)
  | ended

def TxnPhase.inFlight : TxnPhase → Option SubnetCreate
  | .checked body | .inserted body => some body
  | _ => none

def SubnetRequest.lockedBlock : SubnetRequest → TxnPhase → Option Nat
  | .create _, _ => none
  | .allocate _ _, .begun => none
  | .allocate _ _, .ended => none
  | .allocate blockId _, _ => some blockId

def SubnetCreate.row (body : SubnetCreate) : Subnet :=
  { spaceId := body.spaceId, blockId := body.blockId, network := body.network,
    kind := subnetKindFor body.network, gateway := body.options.gateway,
    settings := body.options.settings }

def SubnetCreate.placeholders (body : SubnetCreate) : Bool :=
  hasBoundaryRows body.network (subnetKindFor body.network) && !body.options.skipAutoAddresses

variable {σ σ' : Store} {subnetId : Nat}

theorem createSubnet_eq_insert {body : SubnetCreate}
    (h : createSubnet σ body = .ok (subnetId, σ')) :
    subnetId = σ.subnets.next ∧ σ' = insertSubnet σ body.row body.placeholders := by
  simp only [createSubnet, bind_eq_ok, require_eq_ok, orRefuse_eq_ok, exists_const,
    pure_eq_ok, Prod.mk.injEq] at h
  obtain ⟨-, _, -, _, -, -, -, _, -, _, -, rfl, rfl⟩ := h
  exact ⟨rfl, rfl⟩

structure CarveState (ι : Type) where
  committed : Store
  phase : ι → TxnPhase

namespace CarveState

variable {ι : Type} [DecidableEq ι]

def enter (s : CarveState ι) (i : ι) (p : TxnPhase) : CarveState ι :=
  { s with phase := Function.update s.phase i p }

/-- One step of transaction `i`. `guard` restricts the overlap checks. -/
inductive Step (txn : ι → SubnetRequest) (guard : CarveState ι → ι → SubnetCreate → Prop)
    (s : CarveState ι) : CarveState ι → Prop where
  | lockBlock (i : ι) (blockId : Nat) (body : SubnetAllocate) (block : IPBlock) :
      txn i = .allocate blockId body → s.phase i = .begun →
      s.committed.getBlock blockId = some block →
      (∀ j, (txn j).lockedBlock (s.phase j) ≠ some blockId) → Step txn guard s (s.enter i .locked)
  | readChildBlocks (i : ι) (blockId : Nat) (body : SubnetAllocate) :
      txn i = .allocate blockId body → s.phase i = .locked →
      Step txn guard s (s.enter i (.sawBlocks
        ((s.committed.liveBlocks fun _ b => b.parentBlockId == some blockId).map (·.2.network))))
  | readChildSubnets (i : ι) (blockId : Nat) (body : SubnetAllocate) (childBlocks : List Net)
      (block : IPBlock) (chosen : Net) :
      txn i = .allocate blockId body → s.phase i = .sawBlocks childBlocks →
      s.committed.getBlock blockId = some block →
      checkPrefixLen block.network body.prefixLen = .ok () →
      chooseSubnet block.network (childBlocks ++
        (s.committed.liveSubnets fun _ t => t.blockId == blockId).map (·.2.network))
        body.prefixLen body.network = .ok chosen →
      Step txn guard s (s.enter i (.chosen
        { spaceId := block.spaceId, blockId, network := chosen, options := body.options }))
  | start (i : ι) (body : SubnetCreate) : txn i = .create body → s.phase i = .begun →
      Step txn guard s (s.enter i (.chosen body))
  | check (i : ι) (body : SubnetCreate) (subnetId : Nat) (σ' : Store) :
      s.phase i = .chosen body → createSubnet s.committed body = .ok (subnetId, σ') →
      guard s i body → Step txn guard s (s.enter i (.checked body))
  /-- The foreign key of the new row waits for a locked block. -/
  | insert (i : ι) (body : SubnetCreate) : s.phase i = .checked body →
      (∀ j, j ≠ i → (txn j).lockedBlock (s.phase j) ≠ some body.blockId) →
      Step txn guard s (s.enter i (.inserted body))
  | commit (i : ι) (body : SubnetCreate) : s.phase i = .inserted body →
      Step txn guard s
        { s.enter i .ended with committed := insertSubnet s.committed body.row body.placeholders }
  | rollback (i : ι) : Step txn guard s (s.enter i .ended)

/-- The states that the transactions can reach from the committed state `σ`. -/
def Reachable (txn : ι → SubnetRequest) (guard : CarveState ι → ι → SubnetCreate → Prop)
    (σ : Store) : CarveState ι → Prop :=
  Relation.ReflTransGen (Step txn guard) { committed := σ, phase := fun _ => .begun }

/-- No other transaction is between its overlap check and its end with a subnet
that overlaps this one, unless both are carves of one block. -/
def NoRace (txn : ι → SubnetRequest) (s : CarveState ι) (i : ι) (body : SubnetCreate) : Prop :=
  ∀ j other, j ≠ i → (s.phase j).inFlight = some other → other.spaceId = body.spaceId →
    other.network.overlaps body.network →
    ∃ blockId, (txn i).lockedBlock (s.phase i) = some blockId ∧
      (txn j).lockedBlock (s.phase j) = some blockId

/-- What the transactions keep: the committed subnets are apart, a block has one
lock, and the subnets in flight meet neither a committed one nor each other. -/
structure Inv (txn : ι → SubnetRequest) (s : CarveState ι) : Prop where
  committed : LiveSubnetsApart s.committed
  locks : ∀ i j blockId, i ≠ j → (txn i).lockedBlock (s.phase i) = some blockId →
    (txn j).lockedBlock (s.phase j) ≠ some blockId
  fresh : ∀ i body, (s.phase i).inFlight = some body → ∀ k t, s.committed.getSubnet k = some t →
    t.spaceId = body.spaceId → ¬ t.network.overlaps body.network
  flying : ∀ i j body other, i ≠ j → (s.phase i).inFlight = some body →
    (s.phase j).inFlight = some other → other.spaceId = body.spaceId →
    ¬ other.network.overlaps body.network

variable {txn : ι → SubnetRequest} {s : CarveState ι}

theorem enter_self (s : CarveState ι) (i : ι) (p : TxnPhase) : (s.enter i p).phase i = p :=
  Function.update_self ..

variable {i : ι} {guard : CarveState ι → ι → SubnetCreate → Prop} {body : SubnetCreate}

theorem enter_of_ne (s : CarveState ι) {j : ι} (p : TxnPhase) (h : j ≠ i) :
    (s.enter i p).phase j = s.phase j :=
  Function.update_of_ne h ..

namespace Inv

theorem advance (h : Inv txn s) {p : TxnPhase}
    (hlock : ∀ blockId, (txn i).lockedBlock p = some blockId → (txn i).lockedBlock (s.phase i) = some blockId)
    (hflight : ∀ body, p.inFlight = some body → (s.phase i).inFlight = some body) :
    Inv txn (s.enter i p) := by
  have hlocks : ∀ j blockId, (txn j).lockedBlock ((s.enter i p).phase j) = some blockId →
      (txn j).lockedBlock (s.phase j) = some blockId := by
    intro j blockId hj
    by_cases hji : j = i
    · subst hji
      rw [enter_self] at hj
      exact hlock blockId hj
    · rwa [enter_of_ne s p hji] at hj
  have hflights : ∀ j body, ((s.enter i p).phase j).inFlight = some body →
      (s.phase j).inFlight = some body := by
    intro j body hj
    by_cases hji : j = i
    · subst hji
      rw [enter_self] at hj
      exact hflight body hj
    · rwa [enter_of_ne s p hji] at hj
  constructor
  · exact h.committed
  · exact fun j k blockId hjk hj hk => h.locks j k blockId hjk (hlocks j _ hj) (hlocks k _ hk)
  · exact fun j body hj => h.fresh j body (hflights j body hj)
  · exact fun j k body other hjk hj hk =>
      h.flying j k body other hjk (hflights j body hj) (hflights k other hk)

theorem lockBlock (h : Inv txn s) {blockId : Nat} {body : SubnetAllocate}
    (htxn : txn i = .allocate blockId body)
    (hfree : ∀ j, (txn j).lockedBlock (s.phase j) ≠ some blockId) :
    Inv txn (s.enter i .locked) := by
  have hflights : ∀ j b, ((s.enter i .locked).phase j).inFlight = some b →
      (s.phase j).inFlight = some b := by
    intro j b hj
    by_cases hji : j = i
    · subst hji
      simp [enter_self, TxnPhase.inFlight] at hj
    · rwa [enter_of_ne s _ hji] at hj
  have hlocks : ∀ j b, (txn j).lockedBlock ((s.enter i .locked).phase j) = some b →
      (j = i ∧ b = blockId) ∨ (txn j).lockedBlock (s.phase j) = some b := by
    intro j b hj
    by_cases hji : j = i
    · subst hji
      rw [enter_self, htxn] at hj
      exact Or.inl ⟨rfl, (Option.some.inj hj).symm⟩
    · rw [enter_of_ne s _ hji] at hj
      exact Or.inr hj
  constructor
  · exact h.committed
  · intro j k b hjk hj hk
    rcases hlocks j b hj with ⟨rfl, rfl⟩ | hj'
    · rcases hlocks k b hk with ⟨rfl, -⟩ | hk'
      · exact hjk rfl
      · exact hfree k hk'
    · rcases hlocks k b hk with ⟨rfl, rfl⟩ | hk'
      · exact hfree j hj'
      · exact h.locks j k b hjk hj' hk'
  · exact fun j b hj => h.fresh j b (hflights j b hj)
  · exact fun j k b other hjk hj hk =>
      h.flying j k b other hjk (hflights j b hj) (hflights k other hk)

variable {body : SubnetCreate}

theorem check (h : Inv txn s) (hphase : s.phase i = .chosen body)
    (hcheck : createSubnet s.committed body = .ok (subnetId, σ')) (hrace : NoRace txn s i body) :
    Inv txn (s.enter i (.checked body)) := by
  obtain ⟨_, _, _, -, -, -, -, hfree, -⟩ := createSubnet_ok hcheck
  have hlock : ∀ blockId, (txn i).lockedBlock (.checked body) = some blockId →
      (txn i).lockedBlock (s.phase i) = some blockId := by
    intro blockId hi
    rw [hphase]
    cases htxn : txn i with
    | create body => simp [htxn, SubnetRequest.lockedBlock] at hi
    | allocate b body => simpa [htxn, SubnetRequest.lockedBlock] using hi
  have hapart : ∀ j other, j ≠ i → (s.phase j).inFlight = some other →
      other.spaceId = body.spaceId → ¬ other.network.overlaps body.network := by
    intro j other hji hj hsp ho
    obtain ⟨blockId, hi, hj⟩ := hrace j other hji hj hsp ho
    exact h.locks j i blockId hji hj hi
  have hflight : ∀ j other, ((s.enter i (.checked body)).phase j).inFlight = some other →
      (j = i ∧ other = body) ∨ j ≠ i ∧ (s.phase j).inFlight = some other := by
    intro j other hj
    by_cases hji : j = i
    · subst hji
      rw [enter_self] at hj
      exact Or.inl ⟨rfl, (Option.some.inj hj).symm⟩
    · rw [enter_of_ne s _ hji] at hj
      exact Or.inr ⟨hji, hj⟩
  constructor
  · exact h.committed
  · intro j k blockId hjk hj hk
    refine h.locks j k blockId hjk ?_ ?_
    · by_cases hji : j = i
      · subst hji
        exact hlock blockId (by rwa [enter_self] at hj)
      · rwa [enter_of_ne s _ hji] at hj
    · by_cases hki : k = i
      · subst hki
        exact hlock blockId (by rwa [enter_self] at hk)
      · rwa [enter_of_ne s _ hki] at hk
  · intro j other hj
    rcases hflight j other hj with ⟨rfl, rfl⟩ | ⟨-, hj⟩
    · exact hfree
    · exact h.fresh j other hj
  · intro j k b other hjk hj hk hsp
    rcases hflight j b hj with ⟨rfl, rfl⟩ | ⟨hji, hj'⟩
    · rcases hflight k other hk with ⟨rfl, -⟩ | ⟨hki, hk'⟩
      · exact absurd rfl hjk
      · exact hapart k other hki hk' hsp
    · rcases hflight k other hk with ⟨rfl, rfl⟩ | ⟨-, hk'⟩
      · exact fun ho => hapart j b hji hj' hsp.symm ho.symm
      · exact h.flying j k b other hjk hj' hk' hsp

theorem getSubnet_insertSubnet {k : Nat} {t : Subnet}
    (h : (insertSubnet σ body.row body.placeholders).getSubnet k = some t) :
    σ.getSubnet k = some t ∨
      k = σ.subnets.next ∧ t.spaceId = body.spaceId ∧ t.network = body.network := by
  obtain ⟨h, hlive⟩ := Store.getSubnet_eq_some.mp h
  obtain ⟨gateway, hrows⟩ := insertSubnet_subnets σ body.row body.placeholders
  rw [hrows] at h
  rcases Table.get?_insert_cases h with ⟨rfl, rfl⟩ | h
  · exact Or.inr ⟨rfl, rfl, rfl⟩
  · exact Or.inl (Store.getSubnet_eq_some.mpr ⟨h, hlive⟩)

theorem commit (h : Inv txn s) (hphase : s.phase i = .inserted body) :
    Inv txn { s.enter i .ended with
      committed := insertSubnet s.committed body.row body.placeholders } := by
  have hi : (s.phase i).inFlight = some body := by rw [hphase]; rfl
  have hended : Inv txn (s.enter i .ended) := by
    refine h.advance (fun blockId hb => ?_) fun b hb => by simp [TxnPhase.inFlight] at hb
    cases htxn : txn i <;> simp [htxn, SubnetRequest.lockedBlock] at hb
  have hflight : ∀ j other, ((s.enter i .ended).phase j).inFlight = some other →
      j ≠ i ∧ (s.phase j).inFlight = some other := by
    intro j other hj
    by_cases hji : j = i
    · subst hji
      simp [enter_self, TxnPhase.inFlight] at hj
    · rw [enter_of_ne s _ hji] at hj
      exact ⟨hji, hj⟩
  constructor
  · intro j k t u ht hu hjk hsp
    rcases getSubnet_insertSubnet ht with ht | ⟨rfl, htsp, htnet⟩
    · rcases getSubnet_insertSubnet hu with hu | ⟨rfl, husp, hunet⟩
      · exact h.committed j k t u ht hu hjk hsp
      · rw [hunet]
        exact h.fresh i body hi j t ht (hsp.trans husp)
    · rcases getSubnet_insertSubnet hu with hu | ⟨rfl, -, -⟩
      · rw [htnet]
        exact fun ho => h.fresh i body hi k u hu (hsp.symm.trans htsp) ho.symm
      · exact absurd rfl hjk
  · exact hended.locks
  · intro j other hj k t ht hsp
    obtain ⟨hji, hj⟩ := hflight j other hj
    rcases getSubnet_insertSubnet ht with ht | ⟨rfl, htsp, htnet⟩
    · exact h.fresh j other hj k t ht hsp
    · rw [htnet]
      exact h.flying j i other body hji hj hi (htsp.symm.trans hsp)
  · exact hended.flying

theorem step {s' : CarveState ι} (h : Inv txn s) (hstep : Step txn (NoRace txn) s s') :
    Inv txn s' := by
  cases hstep with
  | lockBlock i blockId body block htxn _ _ hfree => exact h.lockBlock htxn hfree
  | readChildBlocks i blockId body htxn hphase =>
    refine h.advance (fun b hb => ?_) fun b hb => by simp [TxnPhase.inFlight] at hb
    simpa [htxn, hphase, SubnetRequest.lockedBlock] using hb
  | readChildSubnets i blockId body childBlocks block chosen htxn hphase =>
    refine h.advance (fun b hb => ?_) fun b hb => by simp [TxnPhase.inFlight] at hb
    simpa [htxn, hphase, SubnetRequest.lockedBlock] using hb
  | start i body htxn hphase =>
    refine h.advance (fun b hb => ?_) fun b hb => by simp [TxnPhase.inFlight] at hb
    simp [htxn, SubnetRequest.lockedBlock] at hb
  | check i body subnetId σ' hphase hcheck hrace => exact h.check hphase hcheck hrace
  | insert i body hphase _ =>
    refine h.advance (fun b hb => ?_) fun b hb => by rw [hphase]; exact hb
    rw [hphase]
    cases htxn : txn i with
    | create _ => simp [htxn, SubnetRequest.lockedBlock] at hb
    | allocate _ _ => simpa [htxn, SubnetRequest.lockedBlock] using hb
  | commit i body hphase => exact h.commit hphase
  | rollback i =>
    refine h.advance (fun b hb => ?_) fun b hb => by simp [TxnPhase.inFlight] at hb
    cases htxn : txn i <;> simp [htxn, SubnetRequest.lockedBlock] at hb

omit [DecidableEq ι] in
theorem start (hσ : LiveSubnetsApart σ) :
    Inv txn { committed := σ, phase := fun _ => .begun } where
  committed := hσ
  locks i _ _ _ hi := by cases htxn : txn i <;> simp [htxn, SubnetRequest.lockedBlock] at hi
  fresh _ _ hi := by simp [TxnPhase.inFlight] at hi
  flying _ _ _ _ _ hi := by simp [TxnPhase.inFlight] at hi

end Inv

theorem Reachable.check (h : Reachable txn guard σ s) (htxn : txn i = .create body)
    (hphase : s.phase i = .begun) (hcheck : createSubnet s.committed body = .ok (subnetId, σ'))
    (hguard : guard (s.enter i (.chosen body)) i body) :
    Reachable txn guard σ ((s.enter i (.chosen body)).enter i (.checked body)) := by
  have hchosen : Reachable txn guard σ (s.enter i (.chosen body)) :=
    Relation.ReflTransGen.tail h (.start i body htxn hphase)
  exact hchosen.tail (.check i body subnetId σ' (enter_self s i _) hcheck hguard)

theorem Reachable.commit (h : Reachable txn guard σ s) (hphase : s.phase i = .checked body)
    (hlocks : ∀ j, j ≠ i → (txn j).lockedBlock (s.phase j) ≠ some body.blockId) :
    Reachable txn guard σ
      { (s.enter i (.inserted body)).enter i .ended with
        committed := insertSubnet s.committed body.row body.placeholders } := by
  have hinserted : Reachable txn guard σ (s.enter i (.inserted body)) :=
    Relation.ReflTransGen.tail h (.insert i body hphase hlocks)
  exact hinserted.tail (.commit i body (enter_self s i _))

def emptyBlock : List Op :=
  [.createSpace "left",
    .createBlock { spaceId := 0, network := Net.ofValue .v4 (10 * 2 ^ 24) 8 }]

def sameSubnet : SubnetCreate :=
  { spaceId := 0, blockId := 0, network := Net.ofValue .v4 (10 * 2 ^ 24) 24 }

theorem liveSubnetsApart_of_rows (h : σ.subnets.rows = []) : LiveSubnetsApart σ := by
  intro i _ s _ hs
  have := Table.mem_rows_iff.mpr (Store.getSubnet_eq_some.mp hs).1
  simp [h] at this

end CarveState

end SpatiumDdi.Ipam
