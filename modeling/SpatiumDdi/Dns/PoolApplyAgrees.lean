import SpatiumDdi.Dns.PoolApply

/-!
What one pass over a pool leaves, after any edits since the last: the records, the operations that
are queued, and what a server that takes them has.
-/

namespace SpatiumDdi.Dns.PoolApply

def Pool.held (pool : Pool) (id : Nat) : Option Member :=
  (pool.members.find? (·.id = id)).filter (pool.shouldRender ·)

/-- A member that renders as before: nothing of it is taken from a server or added. -/
def Stays (old new : Pool) (m : Member) : Prop :=
  new.shouldRender m = true ∧ (old.held m.id).map Member.address = some m.address ∧
    old.recordName = new.recordName ∧ old.recordType = new.recordType

def Arrives (old new : Pool) (m : Member) : Prop := new.shouldRender m = true ∧ ¬ Stays old new m

def Leaves (old new : Pool) (m : Member) (v : String) : Prop :=
  (old.held m.id).map Member.address = some v ∧ ¬ Stays old new m

/-- The pool was not renamed or retyped while a member that renders was given another address; and
no member comes to an address before a later member gives it up, or else the TTL changed beside a
member that stays. -/
structure Orderly (old new : Pool) : Prop where
  identity : ∀ m ∈ new.members, new.shouldRender m = true → ∀ p, old.held m.id = some p →
    p.address ≠ m.address → old.recordName = new.recordName ∧ old.recordType = new.recordType
  order : old.key = new.key →
    new.members.Pairwise (fun m m' => ¬ (Arrives old new m ∧ Leaves old new m' m.address)) ∨
      ∃ m ∈ new.members, Stays old new m ∧ old.ttl ≠ new.ttl

instance (old new : Pool) (m : Member) : Decidable (Stays old new m) :=
  inferInstanceAs (Decidable (_ ∧ _))

instance (old new : Pool) (m : Member) : Decidable (Arrives old new m) :=
  inferInstanceAs (Decidable (_ ∧ _))

instance (old new : Pool) (m : Member) (v : String) : Decidable (Leaves old new m v) :=
  inferInstanceAs (Decidable (_ ∧ _))

structure Edited (zoneName : String) (old new : Pool) (memberRows : List Nat)
    (records : List Record) (s : Served) : Prop where
  oldIds : (old.members.map Member.id).Nodup
  newIds : (new.members.map Member.id).Nodup
  oldAddresses : (old.members.map Member.address).Nodup
  newAddresses : (new.members.map Member.address).Nodup
  oldRows : ∀ m ∈ old.members, m.id ∈ memberRows
  newRows : ∀ m ∈ new.members, m.id ∈ memberRows
  desired : Desired zoneName old memberRows records
  /-- The pool's names hold no other records. -/
  alone : ∀ r ∈ records, r.key = old.key ∨ r.key = new.key →
    ∃ id ∈ memberRows, r.poolMemberId = some id
  serves : Serves s records old.key
  servesNew : Serves s records new.key

variable {zoneName : String} {old new : Pool} {memberRows : List Nat} {records : List Record}
  {s : Served}

variable {id : Nat} {p : Member}

theorem Pool.held_some {pool : Pool} (h : pool.held id = some p) :
    p ∈ pool.members ∧ p.id = id ∧ pool.shouldRender p = true := by
  rw [held, Option.filter_eq_some_iff] at h
  exact ⟨List.mem_of_find?_eq_some h.1, by simpa using List.find?_some h.1, h.2⟩

theorem Pool.held_of_mem {pool : Pool} (hids : (pool.members.map Member.id).Nodup)
    (hp : p ∈ pool.members) (hrender : pool.shouldRender p = true) : pool.held p.id = some p := by
  have hfind : pool.members.find? (·.id = p.id) = some p := by
    cases hf : pool.members.find? (·.id = p.id) with
    | none => simpa using List.find?_eq_none.mp hf p hp
    | some q =>
      have hq := List.mem_of_find?_eq_some hf
      have hid : q.id = p.id := by simpa using List.find?_some hf
      rw [List.inj_on_of_nodup_map hids hq hp hid]
  rw [held, hfind, Option.filter_some, if_pos hrender]

theorem Edited.existing (h : Edited zoneName old new memberRows records s) (hid : id ∈ memberRows) :
    records.filter (·.poolMemberId = some id) = ((old.held id).map (old.record zoneName)).toList ∧
      existing records id = (old.held id).map (old.record zoneName) := by
  have hrows := h.desired id hid
  rw [← Pool.held] at hrows
  refine ⟨hrows, ?_⟩
  rw [PoolApply.existing, hrows]
  cases old.held id <;> rfl

def after (zoneName : String) (old new : Pool) (m : Member) : Option Record :=
  if new.shouldRender m = true then
    match old.held m.id with
    | none => some (new.record zoneName m)
    | some p =>
      if p.address = m.address then some (new.record zoneName m)
      else some { old.record zoneName p with value := m.address, ttl := new.ttl }
  else none

def memberOps (zoneName : String) (old new : Pool) (m : Member) : List Op :=
  if Stays old new m then []
  else ((old.held m.id).map (old.record zoneName)).toList.map deleteOp ++
    if new.shouldRender m = true then [createOp new m] else []

/-- The records of a member, or with `none` those of no member. -/
def of (o : Option Nat) (records : List Record) : List Record :=
  records.filter (·.poolMemberId = o)

theorem of_append (o : Option Nat) (l l' : List Record) : of o (l ++ l') = of o l ++ of o l' :=
  List.filter_append ..

theorem State.of_modify (s : State) {f : Record → Record}
    (hf : ∀ r, (f r).poolMemberId = r.poolMemberId) (o : Option Nat) :
    of o (s.modify id f).records = if o = some id then (of o s.records).map f else of o s.records := by
  simp only [of, State.modify]
  induction s.records with
  | nil => simp
  | cons r l ih =>
    have hkeep : (if r.poolMemberId = some id then f r else r).poolMemberId = r.poolMemberId := by
      split
      · exact hf r
      · rfl
    rw [List.map_cons, List.filter_cons, List.filter_cons, hkeep, ih]
    by_cases ho : r.poolMemberId = o
    · by_cases hid : o = some id
      · simp [ho, hid]
      · simp [ho, hid]
    · simp [ho]

theorem State.of_deleteRecord (s : State) (r : Record) (o : Option Nat) :
    of o (s.deleteRecord r).records = if o = r.poolMemberId then [] else of o s.records := by
  simp only [of, State.deleteRecord, List.filter_filter]
  by_cases ho : o = r.poolMemberId
  · subst ho
    simp
  · rw [if_neg ho]
    refine List.filter_congr fun x _ => ?_
    by_cases hx : x.poolMemberId = o
    · simp [hx, ho]
    · simp [hx]

structure Turn (zoneName : String) (old new : Pool) (m : Member) (s s' : State) : Prop where
  ops : s'.ops = s.ops ++ memberOps zoneName old new m
  own : of (some m.id) s'.records = (after zoneName old new m).toList
  others : ∀ o, o ≠ some m.id → of o s'.records = of o s.records
  ttlChanged : s'.ttlChanged =
    if Stays old new m ∧ old.ttl ≠ new.ttl then some m else s.ttlChanged

variable {m : Member} {ms : List Member}

theorem turn_of_modify {s s' : State} (f : Record → Record)
    (hf : ∀ r, (f r).poolMemberId = r.poolMemberId)
    (hown : of (some m.id) s.records = [old.record zoneName p])
    (hrecords : s'.records = (s.modify m.id f).records)
    (hafter : after zoneName old new m = some (f (old.record zoneName p)))
    (hops : s'.ops = s.ops ++ memberOps zoneName old new m)
    (httl : s'.ttlChanged = if Stays old new m ∧ old.ttl ≠ new.ttl then some m else s.ttlChanged) :
    Turn zoneName old new m s s' where
  ops := hops
  own := by
    rw [hrecords, s.of_modify hf, if_pos rfl, hown, hafter]
    rfl
  others := by
    intro o ho
    rw [hrecords, s.of_modify hf, if_neg ho]
  ttlChanged := httl

theorem turn (zoneName : String) (old new : Pool) (m : Member) (s : State)
    (hown : of (some m.id) s.records = ((old.held m.id).map (old.record zoneName)).toList) :
    Turn zoneName old new m s
      (applyMember zoneName new ((old.held m.id).map (old.record zoneName)) s m) := by
  cases hheld : old.held m.id with
  | none =>
    rw [hheld] at hown
    have hstays : ¬ Stays old new m := by simp [Stays, hheld]
    cases hrender : new.shouldRender m with
    | false =>
      exact {
        ops := by simp [applyMember, hrender, memberOps, hstays, hheld]
        own := by simpa [applyMember, hrender, after] using hown
        others := by simp [applyMember, hrender]
        ttlChanged := by simp [applyMember, hrender, hstays] }
    | true =>
      exact {
        ops := by simp [applyMember, hrender, memberOps, hstays, hheld]
        own := by
          simp only [applyMember, hrender, Option.map_none, of_append, hown]
          simp [of, after, hrender, hheld, Pool.record]
        others := by
          intro o ho
          simp [applyMember, hrender, of, Pool.record, Ne.symm ho]
        ttlChanged := by simp [applyMember, hrender, hstays] }
  | some p =>
    rw [hheld] at hown
    have hid := (Pool.held_some hheld).2.1
    cases hrender : new.shouldRender m with
    | false =>
      have hstays : ¬ Stays old new m := by simp [Stays, hrender]
      exact {
        ops := by simp [applyMember, hrender, memberOps, hstays, hheld, State.deleteRecord]
        own := by
          simp only [applyMember, hrender, Option.map_some, State.of_deleteRecord]
          simp [Pool.record, hid, after, hrender]
        others := by
          intro o ho
          simp only [applyMember, hrender, Option.map_some, State.of_deleteRecord]
          rw [if_neg (by simpa [Pool.record, hid] using ho)]
        ttlChanged := by simp [applyMember, hrender, hstays, State.deleteRecord] }
    | true =>
      by_cases haddress : p.address = m.address
      · by_cases hname : old.recordName = new.recordName ∧ old.recordType = new.recordType
        · have hstays : Stays old new m := ⟨hrender, by simp [hheld, haddress], hname⟩
          have hafter : after zoneName old new m =
              some { old.record zoneName p with ttl := new.ttl } := by
            simp [after, hrender, hheld, haddress, Pool.record, hname, hid]
          by_cases httl : old.ttl = new.ttl
          · have hstep : applyMember zoneName new (some (old.record zoneName p)) s m = s := by
              simp [applyMember, hrender, Pool.record, haddress, hname, httl]
            have hsame : { old.record zoneName p with ttl := new.ttl } = old.record zoneName p := by
              simp [Pool.record, httl]
            rw [Option.map_some, hstep]
            exact {
              ops := by simp [memberOps, hstays]
              own := by rw [hown, hafter, hsame]; rfl
              others := fun _ _ => rfl
              ttlChanged := by simp [httl] }
          · refine turn_of_modify (fun r => { r with ttl := new.ttl }) (fun _ => rfl) hown ?_ hafter
              ?_ ?_
            · simp [applyMember, hrender, Pool.record, haddress, hname, httl]
            · simp [applyMember, hrender, Pool.record, haddress, hname, httl, memberOps, hstays,
                State.modify]
            · simp [applyMember, hrender, Pool.record, haddress, hname, httl, hstays]
        · have hstays : ¬ Stays old new m := fun h => hname h.2.2
          have hrename : old.recordName ≠ new.recordName ∨ old.recordType ≠ new.recordType := by
            by_contra hne
            exact hname (by simpa using hne)
          have hafter : after zoneName old new m =
              some { old.record zoneName p with
                name := new.recordName
                type := new.recordType
                fqdn := fqdn zoneName new.recordName
                ttl := new.ttl } := by
            simp [after, hrender, hheld, haddress, Pool.record, hid]
          refine turn_of_modify (fun r =>
            { r with
              name := new.recordName
              type := new.recordType
              fqdn := fqdn zoneName new.recordName
              ttl := new.ttl }) (fun _ => rfl) hown ?_ hafter ?_ ?_
          · simp [applyMember, hrender, Pool.record, haddress, hrename, State.modify]
          · simp [applyMember, hrender, Pool.record, haddress, hrename, memberOps, hstays, hheld,
              State.modify]
          · simp [applyMember, hrender, Pool.record, haddress, hrename, hstays, State.modify]
      · have hstays : ¬ Stays old new m := by simp [Stays, hheld, haddress]
        have hafter : after zoneName old new m =
            some { old.record zoneName p with value := m.address, ttl := new.ttl } := by
          simp [after, hrender, hheld, haddress]
        refine turn_of_modify (fun r => { r with value := m.address, ttl := new.ttl })
          (fun _ => rfl) hown ?_ hafter ?_ ?_
        · simp [applyMember, hrender, Pool.record, haddress, State.modify]
        · simp [applyMember, hrender, Pool.record, haddress, memberOps, hstays, hheld, State.modify]
        · simp [applyMember, hrender, Pool.record, haddress, hstays, State.modify]

structure Turns (zoneName : String) (old new : Pool) (ms : List Member) (s s' : State) : Prop where
  ops : s'.ops = s.ops ++ ms.flatMap (memberOps zoneName old new)
  own : ∀ m ∈ ms, of (some m.id) s'.records = (after zoneName old new m).toList
  others : ∀ o, (∀ m ∈ ms, o ≠ some m.id) → of o s'.records = of o s.records
  ttlChanged : ∀ m, s'.ttlChanged = some m →
    s.ttlChanged = some m ∨ m ∈ ms ∧ Stays old new m ∧ old.ttl ≠ new.ttl
  ttlSeen : ∀ m ∈ ms, Stays old new m → old.ttl ≠ new.ttl → s'.ttlChanged ≠ none
  ttlKept : s.ttlChanged ≠ none → s'.ttlChanged ≠ none

theorem turns (hids : (ms.map Member.id).Nodup)
    (hrec : ∀ m ∈ ms, existing records m.id = (old.held m.id).map (old.record zoneName)) (s : State)
    (hown : ∀ m ∈ ms,
      of (some m.id) s.records = ((old.held m.id).map (old.record zoneName)).toList) :
    Turns zoneName old new ms s
      (ms.foldl (fun s m => applyMember zoneName new (existing records m.id) s m) s) := by
  induction ms generalizing s with
  | nil =>
    exact {
      ops := by simp
      own := by simp
      others := fun _ _ => rfl
      ttlChanged := fun _ h => Or.inl h
      ttlSeen := by simp
      ttlKept := id }
  | cons m ms ih =>
    rw [List.map_cons, List.nodup_cons] at hids
    have hne : ∀ m' ∈ ms, m'.id ≠ m.id := fun m' hm' h => hids.1 (h ▸ List.mem_map_of_mem hm')
    rw [List.foldl_cons, hrec m (by simp)]
    have hturn := turn zoneName old new m s (hown m (by simp))
    generalize applyMember zoneName new _ s m = s₁ at hturn ⊢
    have hrest := ih hids.2 (fun m' hm' => hrec m' (List.mem_cons_of_mem _ hm')) s₁ fun m' hm' => by
      rw [hturn.others _ (by simpa using hne m' hm')]
      exact hown m' (List.mem_cons_of_mem _ hm')
    exact {
      ops := by rw [hrest.ops, hturn.ops, List.flatMap_cons, List.append_assoc]
      own := by
        intro m' hm'
        rcases List.mem_cons.mp hm' with rfl | hm'
        · rw [hrest.others _ fun m'' hm'' => by simpa using (hne m'' hm'').symm]
          exact hturn.own
        · exact hrest.own m' hm'
      others := by
        intro o ho
        rw [hrest.others o fun m' hm' => ho m' (List.mem_cons_of_mem _ hm')]
        exact hturn.others o (ho m (by simp))
      ttlChanged := by
        intro m' hm'
        rcases hrest.ttlChanged m' hm' with h | ⟨hmem, h⟩
        · rw [hturn.ttlChanged] at h
          split at h
          · obtain rfl := Option.some.inj h
            exact Or.inr ⟨by simp, ‹_›⟩
          · exact Or.inl h
        · exact Or.inr ⟨List.mem_cons_of_mem _ hmem, h⟩
      ttlSeen := by
        intro m' hm' hstays httl
        rcases List.mem_cons.mp hm' with rfl | hm'
        · exact hrest.ttlKept (by simp [hturn.ttlChanged, hstays, httl])
        · exact hrest.ttlSeen m' hm' hstays httl
      ttlKept := by
        intro h
        refine hrest.ttlKept ?_
        rw [hturn.ttlChanged]
        split
        · simp
        · exact h }

theorem foldl_deleteRecord (l : List Record) (s : State) :
    (l.foldl State.deleteRecord s).ops = s.ops ++ l.map deleteOp ∧
      (∀ o, of o (l.foldl State.deleteRecord s).records =
        if o ∈ l.map Record.poolMemberId then [] else of o s.records) ∧
      (l.foldl State.deleteRecord s).ttlChanged = s.ttlChanged := by
  induction l generalizing s with
  | nil => simp
  | cons r l ih =>
    obtain ⟨hops, hof, httl⟩ := ih (s.deleteRecord r)
    rw [List.foldl_cons]
    refine ⟨?_, fun o => ?_, httl⟩
    · rw [hops]
      simp [State.deleteRecord]
    rw [hof, s.of_deleteRecord]
    by_cases ho : o = r.poolMemberId
    · simp [ho]
    · by_cases hl : o ∈ l.map Record.poolMemberId <;> simp [ho, hl]

def pass (zoneName : String) (pool : Pool) (memberRows : List Nat) (records : List Record) : State :=
  pool.members.foldl (fun s m => applyMember zoneName pool (existing records m.id) s m)
    ((orphans pool memberRows records).foldl State.deleteRecord { records })

theorem mem_orphans {r : Record} : r ∈ orphans new memberRows records ↔
    r ∈ records ∧ ∃ id ∈ memberRows, r.poolMemberId = some id ∧ ∀ m ∈ new.members, m.id ≠ id := by
  rw [orphans, List.mem_filter]
  cases r.poolMemberId with
  | none => simp
  | some id => simp

section

variable (h : Edited zoneName old new memberRows records s)
include h

theorem Edited.turns :
    Turns zoneName old new new.members
      ((orphans new memberRows records).foldl State.deleteRecord { records })
      (pass zoneName new memberRows records) := by
  obtain ⟨-, hof, -⟩ := foldl_deleteRecord (orphans new memberRows records) { records }
  refine PoolApply.turns h.newIds (fun m hm => (h.existing (h.newRows m hm)).2) _ fun m hm => ?_
  rw [hof, if_neg, ← (h.existing (h.newRows m hm)).1]
  · rfl
  · intro hin
    obtain ⟨r, hr, hid⟩ := List.mem_map.mp hin
    obtain ⟨-, id, -, hid', hno⟩ := mem_orphans.mp hr
    exact hno m hm (Option.some.inj (hid.symm.trans hid'))

theorem Edited.of_gone (hid : id ∈ memberRows) (hgone : ∀ m ∈ new.members, m.id ≠ id) :
    of (some id) (pass zoneName new memberRows records).records = [] := by
  obtain ⟨-, hof, -⟩ := foldl_deleteRecord (orphans new memberRows records) { records }
  rw [h.turns.others _ fun m hm => by simpa using (hgone m hm).symm, hof]
  split
  · rfl
  · rw [of, List.filter_eq_nil_iff]
    intro r hr hrid
    refine ‹some id ∉ _› (List.mem_map.mpr ⟨r, mem_orphans.mpr ⟨hr, id, hid, ?_, hgone⟩, ?_⟩)
    · simpa using hrid
    · simpa using hrid

theorem Edited.of_other {o : Option Nat} (ho : ∀ id ∈ memberRows, o ≠ some id) :
    of o (pass zoneName new memberRows records).records = of o records := by
  obtain ⟨-, hof, -⟩ := foldl_deleteRecord (orphans new memberRows records) { records }
  rw [h.turns.others _ fun m hm => ho m.id (h.newRows m hm), hof, if_neg]
  intro hin
  obtain ⟨r, hr, hro⟩ := List.mem_map.mp hin
  obtain ⟨-, id, hid, hrid, -⟩ := mem_orphans.mp hr
  exact ho id hid (hro.symm.trans hrid)

end

theorem after_eq_iff (zoneName : String) (hheld : ∀ p, old.held m.id = some p → p.id = m.id) :
    after zoneName old new m = (if new.shouldRender m = true then some (new.record zoneName m)
      else none) ↔
      (new.shouldRender m = true → ∀ p, old.held m.id = some p → p.address ≠ m.address →
        old.recordName = new.recordName ∧ old.recordType = new.recordType) := by
  unfold after
  by_cases hrender : new.shouldRender m = true
  · simp only [hrender, if_true, forall_const]
    cases hp : old.held m.id with
    | none => simp
    | some p =>
      have hid := hheld p hp
      by_cases haddress : p.address = m.address
      · simp [haddress]
      · simp only [haddress, if_false, Option.some.injEq, Pool.record, Record.mk.injEq, hid]
        constructor
        · rintro ⟨hname, -, htype, -⟩ q rfl -
          exact ⟨hname, htype⟩
        · intro h
          obtain ⟨hname, htype⟩ := h p rfl haddress
          simp [hname, htype]
  · simp [hrender]

theorem Edited.desired_iff (h : Edited zoneName old new memberRows records s) :
    Desired zoneName new memberRows (pass zoneName new memberRows records).records ↔
      ∀ m ∈ new.members, new.shouldRender m = true → ∀ p, old.held m.id = some p →
        p.address ≠ m.address → old.recordName = new.recordName ∧ old.recordType = new.recordType := by
  have hfind : ∀ m ∈ new.members, new.members.find? (·.id = m.id) = some m := by
    intro m hm
    cases hf : new.members.find? (·.id = m.id) with
    | none => simpa using List.find?_eq_none.mp hf m hm
    | some q =>
      have hid : q.id = m.id := by simpa using List.find?_some hf
      rw [List.inj_on_of_nodup_map h.newIds (List.mem_of_find?_eq_some hf) hm hid]
  have hone : ∀ m ∈ new.members, ((((new.members.find? (·.id = m.id)).filter
      (new.shouldRender ·)).map (new.record zoneName)).toList =
        (if new.shouldRender m = true then some (new.record zoneName m) else none).toList) := by
    intro m hm
    rw [hfind m hm, Option.filter_some]
    split <;> rfl
  have hlist : ∀ o o' : Option Record, o.toList = o'.toList ↔ o = o' := by
    intro o o'
    cases o <;> cases o' <;> simp
  constructor
  · intro hd m hm
    refine (after_eq_iff zoneName fun p hp => (Pool.held_some hp).2.1).mp ?_
    have hrow := hd m.id (h.newRows m hm)
    rw [hone m hm] at hrow
    exact (hlist _ _).mp ((h.turns.own m hm).symm.trans hrow)
  · intro hsafe id hid
    by_cases hgone : ∀ m ∈ new.members, m.id ≠ id
    · have hnone : new.members.find? (·.id = id) = none := by
        simpa [List.find?_eq_none] using hgone
      rw [hnone]
      exact h.of_gone hid hgone
    · obtain ⟨m, hm, rfl⟩ : ∃ m ∈ new.members, m.id = id := by simpa using hgone
      rw [hone m hm, ← (after_eq_iff zoneName
        fun p hp => (Pool.held_some hp).2.1).mpr (hsafe m hm)]
      exact h.turns.own m hm

theorem touches_memberOps (m : Member) (key : Key) (v : String) :
    (memberOps zoneName old new m).filterMap (touch key v) =
      (if old.key = key ∧ Leaves old new m v then [none] else []) ++
        if new.key = key ∧ Arrives old new m ∧ m.address = v then [some new.ttl] else [] := by
  unfold memberOps Leaves Arrives
  by_cases hstays : Stays old new m
  · simp [hstays]
  · rw [if_neg hstays, List.filterMap_append]
    congr 1
    · obtain ⟨o, hheld⟩ : ∃ o, old.held m.id = o := ⟨_, rfl⟩
      cases o with
      | none => simp [hheld]
      | some p =>
        by_cases hkey : old.key = key <;> by_cases hv : p.address = v <;>
          simp_all [touch, deleteOp, Pool.record, Pool.key]
    · by_cases hrender : new.shouldRender m = true
      · by_cases hkey : new.key = key <;> by_cases hv : m.address = v <;>
          simp_all [touch, createOp, Pool.key]
      · simp [hrender]

theorem touches_orphans (l : List Record) (key : Key) (v : String) :
    ∀ x ∈ (l.map deleteOp).filterMap (touch key v), x = none := by
  intro x hx
  obtain ⟨op, hop, htouch⟩ := List.mem_filterMap.mp hx
  obtain ⟨r, -, rfl⟩ := List.mem_map.mp hop
  unfold touch at htouch
  split at htouch
  · simpa [deleteOp, eq_comm] using htouch
  · cases htouch

section

variable (h : Edited zoneName old new memberRows records s)
include h

theorem Edited.ops :
    (pass zoneName new memberRows records).ops =
      (orphans new memberRows records).map deleteOp ++
        new.members.flatMap (memberOps zoneName old new) := by
  obtain ⟨hops, -, -⟩ := foldl_deleteRecord (orphans new memberRows records) { records }
  rw [h.turns.ops, hops]
  rfl

theorem Edited.rrset_none : ∀ op ∈ (pass zoneName new memberRows records).ops, op.rrset = none := by
  intro op hop
  rw [h.ops] at hop
  rcases List.mem_append.mp hop with hop | hop
  · obtain ⟨r, -, rfl⟩ := List.mem_map.mp hop
    rfl
  · obtain ⟨m, -, hop⟩ := List.mem_flatMap.mp hop
    unfold memberOps at hop
    split at hop
    · cases hop
    · rcases List.mem_append.mp hop with hop | hop
      · obtain ⟨r, -, rfl⟩ := List.mem_map.mp hop
        rfl
      · split at hop
        · obtain rfl := List.mem_singleton.mp hop
          rfl
        · cases hop

end

def touches (zoneName : String) (old new : Pool) (memberRows : List Nat) (records : List Record)
    (key : Key) (v : String) : List (Option Nat) :=
  ((orphans new memberRows records).map deleteOp).filterMap (touch key v) ++
    new.members.flatMap fun m => (memberOps zoneName old new m).filterMap (touch key v)

theorem Edited.mem_served (h : Edited zoneName old new memberRows records s) (key : Key)
    (v : String) (t : Nat) :
    (v, t) ∈ serveAll s (pass zoneName new memberRows records).ops key ↔
      (touches zoneName old new memberRows records key v).getLast?.elim ((v, t) ∈ s key)
        (· = some t) := by
  rw [mem_serveAll h.rrset_none, h.ops, List.filterMap_append, List.filterMap_flatMap]
  rfl

variable {v : String}

theorem flatMap_touches_of_none (zoneName : String) {key : Key}
    (hno : ∀ m ∈ ms, ¬ (new.key = key ∧ Arrives old new m ∧ m.address = v)) :
    ∀ x ∈ ms.flatMap (fun m => (memberOps zoneName old new m).filterMap (touch key v)),
      x = none := by
  intro x hx
  obtain ⟨m, hm, hx⟩ := List.mem_flatMap.mp hx
  rw [touches_memberOps, if_neg (hno m hm), List.append_nil] at hx
  split at hx
  · simpa using hx
  · cases hx

section

variable (h : Edited zoneName old new memberRows records s) {key : Key}
include h

theorem Edited.mem_served_of_none
    (hno : ∀ m ∈ new.members, ¬ (new.key = key ∧ Arrives old new m ∧ m.address = v)) (t : Nat) :
    (v, t) ∈ serveAll s (pass zoneName new memberRows records).ops key ↔
      touches zoneName old new memberRows records key v = [] ∧ (v, t) ∈ s key := by
  rw [h.mem_served]
  have hall : ∀ x ∈ touches zoneName old new memberRows records key v, x = none := by
    intro x hx
    rcases List.mem_append.mp hx with hx | hx
    · exact touches_orphans _ key v x hx
    · exact flatMap_touches_of_none zoneName hno x hx
  cases hlast : (touches zoneName old new memberRows records key v).getLast? with
  | none => simp [List.getLast?_eq_none_iff.mp hlast]
  | some x =>
    obtain rfl := hall x (List.mem_of_getLast? hlast)
    have hne : touches zoneName old new memberRows records key v ≠ [] := by
      intro hnil
      simp [hnil] at hlast
    simp [hne]

theorem Edited.mem_served_of_arrives {l l' : List Member} (hsplit : new.members = l ++ m :: l')
    (harrives : Arrives old new m) (t : Nat) :
    (m.address, t) ∈ serveAll s (pass zoneName new memberRows records).ops new.key ↔
      (∀ m' ∈ l', ¬ (old.key = new.key ∧ Leaves old new m' m.address)) ∧ new.ttl = t := by
  have hnodup := h.newAddresses
  rw [hsplit, List.map_append, List.map_cons, List.nodup_append] at hnodup
  have hno : ∀ m' ∈ l', ¬ (new.key = new.key ∧ Arrives old new m' ∧ m'.address = m.address) := by
    rintro m' hm' ⟨-, -, heq⟩
    exact (List.nodup_cons.mp hnodup.2.1).1 (heq ▸ List.mem_map_of_mem hm')
  rw [h.mem_served, touches, hsplit, List.flatMap_append, List.flatMap_cons, touches_memberOps,
    if_pos (show new.key = new.key ∧ Arrives old new m ∧ m.address = m.address from
      ⟨rfl, harrives, rfl⟩)]
  have hnone := flatMap_touches_of_none zoneName hno
  generalize hrest : l'.flatMap
    (fun m' => (memberOps zoneName old new m').filterMap (touch new.key m.address)) = rest at hnone ⊢
  cases hlast : rest.getLast? with
  | none =>
    obtain rfl := List.getLast?_eq_none_iff.mp hlast
    have hkeep : ∀ m' ∈ l', ¬ (old.key = new.key ∧ Leaves old new m' m.address) := by
      intro m' hm' hleaves
      have hempty := List.flatMap_eq_nil_iff.mp hrest m' hm'
      rw [touches_memberOps, if_pos hleaves] at hempty
      simp at hempty
    rw [eq_true hkeep]
    simp [eq_comm]
  | some x =>
    obtain rfl := hnone x (List.mem_of_getLast? hlast)
    have hgone : ¬ ∀ m' ∈ l', ¬ (old.key = new.key ∧ Leaves old new m' m.address) := by
      intro hkeep
      obtain ⟨m', hm', hx⟩ := List.mem_flatMap.mp (hrest ▸ List.mem_of_getLast? hlast)
      rw [touches_memberOps, if_neg (hkeep m' hm'), if_neg (hno m' hm')] at hx
      cases hx
    rw [eq_false hgone]
    simp [List.getLast?_append, List.getLast?_cons, hlast]

theorem Edited.record_of_key {r : Record} (hr : r ∈ records)
    (hkey : r.key = old.key ∨ r.key = new.key) :
    ∃ p, old.held p.id = some p ∧ r = old.record zoneName p := by
  obtain ⟨id, hid, hrid⟩ := h.alone r hr hkey
  have hin : r ∈ records.filter (·.poolMemberId = some id) := List.mem_filter.mpr ⟨hr, by simpa⟩
  rw [(h.existing hid).1] at hin
  cases hheld : old.held id with
  | none => simp [hheld] at hin
  | some p =>
    have hp := (Pool.held_some hheld).2.1
    refine ⟨p, by rw [hp]; exact hheld, ?_⟩
    simpa [hheld] using hin

theorem Edited.touches_ne_nil (hp : old.held p.id = some p)
    (hgives : ∀ m ∈ new.members, m.id = p.id → ¬ Stays old new m) :
    touches zoneName old new memberRows records old.key p.address ≠ [] := by
  intro hnil
  obtain ⟨horphans, hmembers⟩ := List.append_eq_nil_iff.mp hnil
  by_cases hgone : ∀ m ∈ new.members, m.id ≠ p.id
  · have hpm := (Pool.held_some hp).1
    have hin : old.record zoneName p ∈ records.filter (·.poolMemberId = some p.id) := by
      rw [(h.existing (h.oldRows p hpm)).1, hp]
      simp
    have horphan : old.record zoneName p ∈ orphans new memberRows records :=
      mem_orphans.mpr ⟨(List.mem_filter.mp hin).1, p.id, h.oldRows p hpm, rfl, hgone⟩
    have htouch : touch old.key p.address (deleteOp (old.record zoneName p)) = some none := by
      simp [touch, deleteOp, Pool.record, Pool.key]
    have hmem := List.mem_filterMap.mpr ⟨_, List.mem_map_of_mem horphan, htouch⟩
    rw [horphans] at hmem
    cases hmem
  · obtain ⟨m, hm, hid⟩ : ∃ m ∈ new.members, m.id = p.id := by simpa using hgone
    have hempty := List.flatMap_eq_nil_iff.mp hmembers m hm
    rw [touches_memberOps, if_pos ⟨rfl, by simp [hid, hp], hgives m hm hid⟩] at hempty
    simp at hempty

theorem Edited.touches_eq_nil (hm : m ∈ new.members) (hstays : Stays old new m) :
    touches zoneName old new memberRows records new.key m.address = [] := by
  obtain ⟨p, hp, haddress⟩ := Option.map_eq_some_iff.mp hstays.2.1
  have hpm := Pool.held_some hp
  have hsame : ∀ q id, old.held id = some q → q.address = m.address → id = m.id := by
    intro q id hq hqa
    obtain ⟨hqm, hqid, -⟩ := Pool.held_some hq
    have hpq := List.inj_on_of_nodup_map h.oldAddresses hqm hpm.1 (hqa.trans haddress.symm)
    rw [← hqid, hpq, hpm.2.1]
  refine List.append_eq_nil_iff.mpr ⟨?_, List.flatMap_eq_nil_iff.mpr fun m' hm' => ?_⟩
  · rw [List.filterMap_eq_nil_iff]
    intro op hop
    obtain ⟨r, hr, rfl⟩ := List.mem_map.mp hop
    obtain ⟨hrin, id, hid, hrid, hno⟩ := mem_orphans.mp hr
    have hin : r ∈ records.filter (·.poolMemberId = some id) := List.mem_filter.mpr ⟨hrin, by simpa⟩
    rw [(h.existing hid).1] at hin
    obtain ⟨q, hq, rfl⟩ : ∃ q, old.held id = some q ∧ old.record zoneName q = r := by
      simpa using hin
    unfold touch
    rw [if_neg]
    rintro ⟨-, hv⟩
    exact hno m hm (hsame q id hq hv).symm
  · rw [touches_memberOps, if_neg, if_neg]
    · rfl
    · rintro ⟨-, harrives, hv⟩
      have hmm := List.inj_on_of_nodup_map h.newAddresses hm' hm hv
      exact harrives.2 (hmm ▸ hstays)
    · rintro ⟨-, hleaves, hnot⟩
      obtain ⟨q, hq, hqa⟩ := Option.map_eq_some_iff.mp hleaves
      have hmm := List.inj_on_of_nodup_map h.newIds hm' hm (hsame q m'.id hq hqa)
      exact hnot (hmm ▸ hstays)

theorem Edited.record_iff
    (hdesired : Desired zoneName new memberRows (pass zoneName new memberRows records).records)
    (hkey : key = old.key ∨ key = new.key) (v : String) (t : Nat) :
    (∃ r ∈ (pass zoneName new memberRows records).records, r.key = key ∧ r.value = v ∧ r.ttl = t) ↔
      key = new.key ∧ new.ttl = t ∧
        ∃ m ∈ new.members, new.shouldRender m = true ∧ m.address = v := by
  constructor
  · rintro ⟨r, hr, hrkey, rfl, rfl⟩
    by_cases hpool : ∃ id ∈ memberRows, r.poolMemberId = some id
    · obtain ⟨id, hid, hrid⟩ := hpool
      have hrow := hdesired id hid
      have hin : r ∈ (pass zoneName new memberRows records).records.filter
          (·.poolMemberId = some id) := List.mem_filter.mpr ⟨hr, by simpa⟩
      rw [hrow, ← Pool.held] at hin
      obtain ⟨m, hm, rfl⟩ : ∃ m, new.held id = some m ∧ new.record zoneName m = r := by
        simpa using hin
      obtain ⟨hmem, -, hrender⟩ := Pool.held_some hm
      exact ⟨hrkey.symm, rfl, m, hmem, hrender, rfl⟩
    · have hother := @Edited.of_other _ _ _ _ _ _ h r.poolMemberId fun id hid hrid => hpool ⟨id, hid, hrid⟩
      have hin : r ∈ of r.poolMemberId records := by
        rw [← hother]
        exact List.mem_filter.mpr ⟨hr, by simp⟩
      refine absurd (h.alone r (List.mem_filter.mp hin).1 ?_) hpool
      rcases hkey with rfl | rfl
      · exact Or.inl hrkey
      · exact Or.inr hrkey
  · rintro ⟨rfl, rfl, m, hm, hrender, rfl⟩
    have hrow := hdesired m.id (h.newRows m hm)
    rw [← Pool.held, Pool.held_of_mem h.newIds hm hrender] at hrow
    have hin : new.record zoneName m ∈ (pass zoneName new memberRows records).records.filter
        (·.poolMemberId = some m.id) := by
      rw [hrow]
      simp
    exact ⟨_, (List.mem_filter.mp hin).1, rfl, rfl, rfl⟩

theorem Edited.mem_old (hp : old.held p.id = some p) : (p.address, old.ttl) ∈ s old.key := by
  obtain ⟨hpm, -, -⟩ := Pool.held_some hp
  have hrow := (h.existing (h.oldRows p hpm)).1
  rw [hp] at hrow
  have hin : old.record zoneName p ∈ records.filter (·.poolMemberId = some p.id) := by
    rw [hrow]
    simp
  exact (h.serves _ _).mpr ⟨_, (List.mem_filter.mp hin).1, rfl, rfl, rfl⟩

theorem Edited.mem_served_iff (hkey : key = old.key ∨ key = new.key)
    (hno : ∀ m ∈ new.members, ¬ (new.key = key ∧ Arrives old new m ∧ m.address = v)) (t : Nat) :
    (v, t) ∈ serveAll s (pass zoneName new memberRows records).ops key ↔
      key = new.key ∧ old.ttl = t ∧ ∃ m ∈ new.members, Stays old new m ∧ m.address = v := by
  rw [h.mem_served_of_none hno]
  constructor
  · rintro ⟨hnil, hmem⟩
    have hrecord : ∃ r ∈ records, r.key = key ∧ r.value = v ∧ r.ttl = t := by
      rcases hkey with rfl | rfl
      · exact (h.serves v t).mp hmem
      · exact (h.servesNew v t).mp hmem
    obtain ⟨r, hr, rfl, rfl, rfl⟩ := hrecord
    obtain ⟨p, hp, rfl⟩ := h.record_of_key hr hkey
    have hstay : ∃ m ∈ new.members, m.id = p.id ∧ Stays old new m := by
      by_contra hnone
      refine h.touches_ne_nil hp (fun m hm hid hstays => hnone ⟨m, hm, hid, hstays⟩) hnil
    obtain ⟨m, hm, hid, hstays⟩ := hstay
    have haddress : m.address = p.address := by
      have hheld := hstays.2.1
      rw [hid, hp] at hheld
      exact (Option.some.inj hheld).symm
    refine ⟨?_, rfl, m, hm, hstays, haddress⟩
    exact congrArg₂ rrsetKey hstays.2.2.1 hstays.2.2.2
  · rintro ⟨rfl, rfl, m, hm, hstays, rfl⟩
    obtain ⟨p, hp, haddress⟩ := Option.map_eq_some_iff.mp hstays.2.1
    have hkeys : old.key = new.key := congrArg₂ rrsetKey hstays.2.2.1 hstays.2.2.2
    have hp' : old.held p.id = some p := by rw [(Pool.held_some hp).2.1]; exact hp
    refine ⟨h.touches_eq_nil hm hstays, ?_⟩
    rw [← hkeys, ← haddress]
    exact h.mem_old hp'

end

theorem pairwise_of_split {α : Type} {R : α → α → Prop} {l : List α}
    (h : ∀ l₁ a l₂, l = l₁ ++ a :: l₂ → ∀ b ∈ l₂, R a b) : l.Pairwise R := by
  rw [List.pairwise_iff_forall_sublist]
  intro a b hab
  obtain ⟨r₁, r₂, rfl, ha, hb⟩ := List.cons_sublist_iff.mp hab
  obtain ⟨x, y, rfl⟩ := List.append_of_mem ha
  refine h x a (y ++ r₂) (by simp) b ?_
  exact List.mem_append_right _ (List.singleton_sublist.mp hb)

section

variable (h : Edited zoneName old new memberRows records s)
include h

section

variable (hdesired : Desired zoneName new memberRows (pass zoneName new memberRows records).records)
include hdesired

/-- Without an operation for the TTL, the server has the records where no member comes to an
address before a later one gives it up. -/
theorem Edited.serves_iff (httl : ∀ m ∈ new.members, Stays old new m → old.ttl = new.ttl) :
    (Serves (serveAll s (pass zoneName new memberRows records).ops)
        (pass zoneName new memberRows records).records old.key ∧
      Serves (serveAll s (pass zoneName new memberRows records).ops)
        (pass zoneName new memberRows records).records new.key) ↔
      (old.key = new.key → new.members.Pairwise
        fun m m' => ¬ (Arrives old new m ∧ Leaves old new m' m.address)) := by
  -- A value that no member comes to is there where it should be, in either case.
  have hquiet : ∀ key, key = old.key ∨ key = new.key → ∀ v t,
      (∀ m ∈ new.members, ¬ (new.key = key ∧ Arrives old new m ∧ m.address = v)) →
      ((v, t) ∈ serveAll s (pass zoneName new memberRows records).ops key ↔
        ∃ r ∈ (pass zoneName new memberRows records).records,
          r.key = key ∧ r.value = v ∧ r.ttl = t) := by
    intro key hkey v t hno
    rw [h.mem_served_iff hkey hno, h.record_iff hdesired hkey]
    constructor
    · rintro ⟨rfl, rfl, m, hm, hstays, rfl⟩
      exact ⟨rfl, (httl m hm hstays).symm, m, hm, hstays.1, rfl⟩
    · rintro ⟨rfl, rfl, m, hm, hrender, rfl⟩
      have hstays : Stays old new m := by
        by_contra hnot
        exact hno m hm ⟨rfl, ⟨hrender, hnot⟩, rfl⟩
      exact ⟨rfl, httl m hm hstays, m, hm, hstays, rfl⟩
  constructor
  · rintro ⟨-, hnew⟩ hkeys
    refine pairwise_of_split fun l m l' hsplit m' hm' ⟨harrives, hleaves⟩ => ?_
    have hm : m ∈ new.members := hsplit ▸ by simp
    have hserved := (hnew m.address new.ttl).mpr
      ((h.record_iff hdesired (Or.inr rfl) _ _).mpr ⟨rfl, rfl, m, hm, harrives.1, rfl⟩)
    exact ((h.mem_served_of_arrives hsplit harrives _).mp hserved).1 m' hm' ⟨hkeys, hleaves⟩
  · intro horder
    have hserves : ∀ key, key = old.key ∨ key = new.key →
        Serves (serveAll s (pass zoneName new memberRows records).ops)
          (pass zoneName new memberRows records).records key := by
      intro key hkey v t
      by_cases hno : ∀ m ∈ new.members, ¬ (new.key = key ∧ Arrives old new m ∧ m.address = v)
      · exact hquiet key hkey v t hno
      · obtain ⟨m, hm, rfl, harrives, rfl⟩ : ∃ m ∈ new.members,
            new.key = key ∧ Arrives old new m ∧ m.address = v := by simpa using hno
        obtain ⟨l, l', hsplit⟩ := List.append_of_mem hm
        rw [h.mem_served_of_arrives hsplit harrives, h.record_iff hdesired (Or.inr rfl)]
        have hkeep : ∀ m' ∈ l', ¬ (old.key = new.key ∧ Leaves old new m' m.address) := by
          rintro m' hm' ⟨hkeys, hleaves⟩
          have hpair := horder hkeys
          rw [hsplit] at hpair
          exact (List.pairwise_cons.mp (List.pairwise_append.mp hpair).2.1).1 m' hm'
            ⟨harrives, hleaves⟩
        exact ⟨fun ⟨_, ht⟩ => ⟨rfl, ht, m, hm, harrives.1, rfl⟩, fun ⟨_, ht, _⟩ => ⟨hkeep, ht⟩⟩
    exact ⟨hserves _ (Or.inl rfl), hserves _ (Or.inr rfl)⟩

theorem Edited.serves_stamped (hm : m ∈ new.members) (hrender : new.shouldRender m = true)
    (s₀ : Served) :
    Serves (serve s₀ (stamp (pass zoneName new memberRows records).records (ttlOp new m)))
      (pass zoneName new memberRows records).records new.key := by
  intro v t
  rw [h.record_iff hdesired (Or.inr rfl)]
  have hmember : ∀ v t, (v, t) ∈ membersAt (pass zoneName new memberRows records).records new.key ↔
      new.ttl = t ∧ ∃ m ∈ new.members, new.shouldRender m = true ∧ m.address = v := by
    intro v t
    have hiff := h.record_iff hdesired (Or.inr rfl) v t
    simp only [true_and] at hiff
    rw [← hiff]
    simp [membersAt, and_assoc]
  have hfold : ∀ v t, (v, t) ∈ fold (ttlOp new m)
      (membersAt (pass zoneName new memberRows records).records new.key) ↔
        new.ttl = t ∧ ∃ m ∈ new.members, new.shouldRender m = true ∧ m.address = v := by
    intro v t
    simp only [fold, List.mem_append, List.mem_filter, hmember, List.mem_singleton,
      Prod.mk.injEq, ttlOp, createOp]
    constructor
    · rintro (⟨h, -⟩ | ⟨rfl, rfl⟩)
      · exact h
      · exact ⟨rfl, m, hm, hrender, rfl⟩
    · rintro ⟨rfl, m', hm', hrender', rfl⟩
      by_cases heq : m'.address = m.address
      · exact Or.inr ⟨heq, rfl⟩
      · exact Or.inl ⟨⟨rfl, m', hm', hrender', rfl⟩, decide_eq_true heq⟩
  generalize hset : fold (ttlOp new m)
    (membersAt (pass zoneName new memberRows records).records new.key) = set at hfold
  have hmin : (set.map Prod.snd).min?.getD 0 = new.ttl := by
    have hmem : new.ttl ∈ set.map Prod.snd :=
      List.mem_map.mpr ⟨(m.address, new.ttl), (hfold _ _).mpr ⟨rfl, m, hm, hrender, rfl⟩, rfl⟩
    have hall : ∀ t ∈ set.map Prod.snd, t = new.ttl := by
      intro t ht
      obtain ⟨⟨v, t'⟩, hin, rfl⟩ := List.mem_map.mp ht
      exact ((hfold v t').mp hin).1.symm
    rw [List.min?_eq_some_iff.mpr ⟨hmem, fun t ht => Nat.le_of_eq (hall t ht).symm⟩]
    rfl
  have hserve : serve s₀ (stamp (pass zoneName new memberRows records).records (ttlOp new m))
      new.key = (rrsetPayload set).members.map (·, (rrsetPayload set).ttl) := by
    rw [← hset]
    simp [serve, stamp, ttlOp, createOp, Pool.key]
  rw [hserve]
  simp only [rrsetPayload, hmin, List.mem_map, List.mem_eraseDups, Prod.mk.injEq, true_and]
  constructor
  · rintro ⟨w, ⟨⟨w', t'⟩, hin, rfl⟩, rfl, rfl⟩
    exact ⟨rfl, ((hfold _ _).mp hin).2⟩
  · rintro ⟨rfl, hex⟩
    exact ⟨v, ⟨(v, new.ttl), (hfold _ _).mpr ⟨rfl, hex⟩, rfl⟩, rfl, rfl⟩

end

end

theorem applyPoolState_eq (zoneName : String) (pool : Pool) (memberRows : List Nat)
    (records : List Record) :
    applyPoolState zoneName pool memberRows records =
      match (pass zoneName pool memberRows records).ttlChanged with
      | none => pass zoneName pool memberRows records
      | some m => (pass zoneName pool memberRows records).enqueue (ttlOp pool m) :=
  rfl

/-- After one pass the records are the pool's and a server that took the operations has them at the
old and the new name, exactly where the edits were orderly. -/
theorem Edited.agrees_iff (h : Edited zoneName old new memberRows records s) :
    (Desired zoneName new memberRows (applyPoolState zoneName new memberRows records).records ∧
      Serves (serveAll s (applyPoolState zoneName new memberRows records).ops)
        (applyPoolState zoneName new memberRows records).records old.key ∧
      Serves (serveAll s (applyPoolState zoneName new memberRows records).ops)
        (applyPoolState zoneName new memberRows records).records new.key) ↔
      Orderly old new := by
  rw [applyPoolState_eq]
  cases httl : (pass zoneName new memberRows records).ttlChanged with
  | none =>
    have hquiet : ∀ m ∈ new.members, Stays old new m → old.ttl = new.ttl := by
      intro m hm hstays
      by_contra hne
      exact h.turns.ttlSeen m hm hstays hne httl
    constructor
    · rintro ⟨hdesired, hserves⟩
      exact {
        identity := h.desired_iff.mp hdesired
        order := fun hkeys => Or.inl ((h.serves_iff hdesired hquiet).mp hserves hkeys) }
    · intro horderly
      have hdesired := h.desired_iff.mpr horderly.identity
      refine ⟨hdesired, (h.serves_iff hdesired hquiet).mpr fun hkeys => ?_⟩
      rcases horderly.order hkeys with horder | ⟨m, hm, hstays, hne⟩
      · exact horder
      · exact absurd (hquiet m hm hstays) hne
  | some m =>
    obtain ⟨hm, hstays, hne⟩ : m ∈ new.members ∧ Stays old new m ∧ old.ttl ≠ new.ttl := by
      rcases h.turns.ttlChanged m httl with hstart | hm
      · rw [(foldl_deleteRecord _ _).2.2] at hstart
        cases hstart
      · exact hm
    have hkeys : old.key = new.key := congrArg₂ rrsetKey hstays.2.2.1 hstays.2.2.2
    constructor
    · rintro ⟨hdesired, -⟩
      exact {
        identity := h.desired_iff.mp hdesired
        order := fun _ => Or.inr ⟨m, hm, hstays, hne⟩ }
    · intro horderly
      have hdesired := h.desired_iff.mpr horderly.identity
      have hserves := h.serves_stamped hdesired hm hstays.1
        (serveAll s (pass zoneName new memberRows records).ops)
      simp only [State.enqueue, serveAll, List.foldl_append, List.foldl_cons, List.foldl_nil, hkeys]
      exact ⟨hdesired, hserves, hserves⟩

theorem serves_membersAt (records : List Record) (key : Key) :
    Serves (membersAt records) records key := by
  intro v t
  simp [membersAt, and_assoc]

def twoMembers (first second : String) : Pool where
  recordName := "www"
  recordType := .a
  ttl := 30
  enabled := true
  members := [⟨1, first, true, some .healthy⟩, ⟨2, second, true, some .healthy⟩]

def twoRecords (first second : String) : List Record :=
  (twoMembers first second).members.map ((twoMembers first second).record "example.com")

theorem twoMembers_edited (new : Pool) (hids : (new.members.map Member.id).Nodup)
    (haddresses : (new.members.map Member.address).Nodup)
    (hrows : ∀ m ∈ new.members, m.id ∈ [1, 2]) :
    Edited "example.com" (twoMembers "10.0.0.1" "10.0.0.2") new [1, 2]
      (twoRecords "10.0.0.1" "10.0.0.2") (membersAt (twoRecords "10.0.0.1" "10.0.0.2")) where
  oldIds := by decide
  newIds := hids
  oldAddresses := by decide
  newAddresses := haddresses
  oldRows := by decide
  newRows := hrows
  desired := by
    unfold Desired
    decide
  alone := by
    intro r hr _
    have hid : r.poolMemberId = some 1 ∨ r.poolMemberId = some 2 := by
      obtain ⟨m, hm, rfl⟩ := List.mem_map.mp hr
      rcases List.mem_cons.mp hm with rfl | hm
      · exact Or.inl rfl
      · obtain rfl := List.mem_singleton.mp hm
        exact Or.inr rfl
    rcases hid with hid | hid
    · exact ⟨1, by simp, hid⟩
    · exact ⟨2, by simp, hid⟩
  serves := serves_membersAt _ _
  servesNew := serves_membersAt _ _

/-- A member that takes over the address of one that was removed. -/
def secondAlone : Pool :=
  { twoMembers "10.0.0.1" "10.0.0.2" with members := [⟨2, "10.0.0.1", true, some .healthy⟩] }

theorem Edited.agrees_iff_secondAlone :
    (Desired "example.com" secondAlone [1, 2]
        (applyPoolState "example.com" secondAlone [1, 2] (twoRecords "10.0.0.1" "10.0.0.2")).records ∧
      Serves (serveAll (membersAt (twoRecords "10.0.0.1" "10.0.0.2"))
          (applyPoolState "example.com" secondAlone [1, 2]
            (twoRecords "10.0.0.1" "10.0.0.2")).ops)
        (applyPoolState "example.com" secondAlone [1, 2] (twoRecords "10.0.0.1" "10.0.0.2")).records
        (twoMembers "10.0.0.1" "10.0.0.2").key ∧
      Serves (serveAll (membersAt (twoRecords "10.0.0.1" "10.0.0.2"))
          (applyPoolState "example.com" secondAlone [1, 2]
            (twoRecords "10.0.0.1" "10.0.0.2")).ops)
        (applyPoolState "example.com" secondAlone [1, 2] (twoRecords "10.0.0.1" "10.0.0.2")).records
        secondAlone.key) :=
  (twoMembers_edited secondAlone (by decide) (by decide) (by decide)).agrees_iff.mpr {
    identity := fun _ _ _ _ _ _ => ⟨rfl, rfl⟩
    order := fun _ => Or.inl (by simp [secondAlone]) }

/-- Two members that swap their addresses: the second address is taken off the server after it was
added, and the records still have it. -/
theorem swap_disagrees :
    Edited "example.com" (twoMembers "10.0.0.1" "10.0.0.2") (twoMembers "10.0.0.2" "10.0.0.1") [1, 2]
        (twoRecords "10.0.0.1" "10.0.0.2") (membersAt (twoRecords "10.0.0.1" "10.0.0.2")) ∧
      ¬ Serves (serveAll (membersAt (twoRecords "10.0.0.1" "10.0.0.2"))
          (applyPoolState "example.com" (twoMembers "10.0.0.2" "10.0.0.1") [1, 2]
            (twoRecords "10.0.0.1" "10.0.0.2")).ops)
        (applyPoolState "example.com" (twoMembers "10.0.0.2" "10.0.0.1") [1, 2]
          (twoRecords "10.0.0.1" "10.0.0.2")).records
        (twoMembers "10.0.0.2" "10.0.0.1").key := by
  have hedited := twoMembers_edited (twoMembers "10.0.0.2" "10.0.0.1") (by decide) (by decide)
    (by decide)
  refine ⟨hedited, fun hserves => ?_⟩
  have hrecord := (hserves "10.0.0.2" 30).mpr
    ⟨(twoMembers "10.0.0.2" "10.0.0.1").record "example.com" ⟨1, "10.0.0.2", true, some .healthy⟩,
      by decide, rfl, rfl, rfl⟩
  have hsplit : (twoMembers "10.0.0.2" "10.0.0.1").members =
      [] ++ ⟨1, "10.0.0.2", true, some .healthy⟩ :: [⟨2, "10.0.0.1", true, some .healthy⟩] := rfl
  have hkept := (hedited.mem_served_of_arrives hsplit (by decide) 30).mp hrecord
  exact hkept.1 ⟨2, "10.0.0.1", true, some .healthy⟩ (by simp) ⟨rfl, by decide⟩

end SpatiumDdi.Dns.PoolApply
