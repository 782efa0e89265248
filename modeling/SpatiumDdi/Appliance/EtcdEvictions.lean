import Mathlib.Data.Rat.Init
import Mathlib.Algebra.Order.Ring.Rat
import Mathlib.Data.List.Dedup
import Mathlib.Data.List.Sort
import Mathlib.Data.String.Basic
import SpatiumDdi.Lib.Lines
import SpatiumDdi.Lib.Runs

/-!
`EtcdEvictions` (`spatium_supervisor/etcd_evict.py`): which evictions a seed's etcd has agreed to,
by the answers that a runner on the host leaves in a file. An answer counts for the request that is
out, and stays there when the names it is about have left; a name asked for again finds it.
-/

namespace SpatiumDdi.Appliance.Evictions

open Text

abbrev Name := List Char

local instance : LawfulBEq Name := inferInstance

/-- What the runner says: a request, and the state and the detail of names. The last line of a name
stands first. -/
structure Answer where
  id : List Char := []
  results : List (Name × List Char × List Char) := []
deriving DecidableEq

def parseLine (answer : Answer) (line : List Char) : Answer :=
  if line.take 3 = "id ".toList then { answer with id := stripChars (line.drop 3) }
  else
    match line.splitOn '\t' with
    | name :: state :: rest =>
      if name = [] ∨ state = [] then answer
      else { answer with results := (name, state, rest.headD []) :: answer.results }
    | _ => answer

def parseState (text : List Char) : Answer := (splitLines text).foldl parseLine {}

/-- The state is one of `DONE_STATES`. -/
def Answer.done (answer : Answer) (name : Name) : Bool :=
  (answer.results.lookup name).any fun result =>
    result.1 = "absent".toList || result.1 = "removed".toList

abbrev Nodes := List (Name × List (List Char))

/-- The times at which names were first asked for are read nowhere and left out, and so is what is
only logged. -/
structure EtcdEvictions where
  pending : List Name := []
  watch : List (Name × ℚ) := []
  wanted : List Name := []
  addresses : Nodes := []
  requestId : List Char := []
  requestedAt : ℚ := 0
  unansweredSince : ℚ := 0

/-- Why a name is still waiting. -/
inductive Reason where
  | refused (state detail : List Char)
  | silent (seconds : ℚ)
  | checking

/-- What one heartbeat is given, with the clock as it is read one time after the other, the id that
a request would get, and the file at the first and at the last look at it. A request that cannot be
stored is one that nobody answers. -/
structure Input where
  asked : Nodes
  wanted : List Name
  available : Bool
  now : ℚ
  applied : ℚ
  written : ℚ
  appliedAgain : ℚ
  id : List Char
  state : Option (List Char)
  awaited : Option (List Char)

structure Report where
  confirmed : List Name
  reasons : List (Name × Reason)
  /-- The nodes of a request, with the state it was written in. -/
  written : Option (EtcdEvictions × Nodes) := none

def Input.names (i : Input) : List Name := i.asked.map Prod.fst

namespace EtcdEvictions

variable (e : EtcdEvictions) (i : Input)

def WATCH_S : ℚ := 5 * 60

def RUNNER_SILENT_S : ℚ := 90

def watched : List Name := e.watch.map Prod.fst

def results (text : Option (List Char)) : Option Answer :=
  if e.requestId = [] then none
  else (text.map parseState).filter fun answer => answer.id = e.requestId

def reason (answer : Option Answer) (now : ℚ) (name : Name) : Reason :=
  match answer.bind fun answer => answer.results.lookup name with
  | some (state, detail) => .refused state detail
  | none =>
    if answer.isNone ∧ e.unansweredSince ≠ 0 ∧ RUNNER_SILENT_S < now - e.unansweredSince then
      .silent (now - e.unansweredSince)
    else .checking

def apply (answer : Option Answer) (now : ℚ) : EtcdEvictions × List Name × List (Name × Reason) :=
  let e := if answer.isSome then { e with unansweredSince := 0 } else e
  let names := e.pending.insertionSort (· ≤ ·)
  let done := fun name => answer.any fun answer => answer.done name
  let settled := fun name => done name && name ∈ e.pending && name ∉ e.wanted
  ({ e with
      pending := e.pending.filter fun name => !done name
      watch := e.watch.filter (fun w => !settled w.1) ++
        (names.filter settled).map fun name => (name, now + WATCH_S) },
    names.filter done,
    (names.filter fun name => !done name).map fun name => (name, e.reason answer now name))

def writeRequest : EtcdEvictions :=
  { e with
    requestId := i.id
    requestedAt := i.written
    unansweredSince := if e.unansweredSince = 0 then i.written else e.unansweredSince }

def endWatches : EtcdEvictions :=
  let wanted := i.wanted.filter (· ≠ [])
  { e with wanted := wanted, watch := e.watch.filter fun w => w.1 ∉ wanted }

def prepare : EtcdEvictions :=
  let pending := (e.pending ++ i.names.filter (· ∉ e.pending)).filter (· ∈ i.names)
  let watch := e.watch.filter fun w => i.now < w.2
  let addresses := i.asked.foldl
    (fun known (name, ips) =>
      if ips = [] then known else (name, ips) :: known.filter fun node => node.1 ≠ name)
    e.addresses
  { e with
    pending := pending
    watch := watch
    addresses := addresses.filter fun node => node.1 ∈ pending ∨ node.1 ∈ watch.map Prod.fst }

def active : Nodes :=
  (e.pending ++ e.watched).dedup.map fun name => (name, (e.addresses.lookup name).getD [])

/-- The request of a heartbeat and what comes of it, after the answer to the one before. -/
def request (confirmed : List Name) (reasons : List (Name × Reason)) : EtcdEvictions × Report :=
  let out := e.writeRequest i
  match out.results i.awaited with
  | none => (out, ⟨confirmed, reasons, some (e, e.active)⟩)
  | some answer =>
    let (after, more, fresher) := out.apply (some answer) i.appliedAgain
    (after, ⟨confirmed ++ more, (fresher ++ reasons).filter fun r => r.1 ∈ after.pending,
      some (e, e.active)⟩)

def tick : EtcdEvictions × Report :=
  if !i.available then
    ({ e.endWatches i with pending := [] }, ⟨i.names.insertionSort (· ≤ ·), [], none⟩)
  else
    let ready := (e.endWatches i).prepare i
    let answer := ready.results i.state
    let (after, confirmed, reasons) := ready.apply answer i.applied
    if after.active ≠ [] ∧
        (answer.isSome ∨ after.requestId = [] ∨ RUNNER_SILENT_S < i.now - after.requestedAt) then
      after.request i confirmed reasons
    else (after, ⟨confirmed, reasons, none⟩)

end EtcdEvictions

structure Request where
  id : List Char
  names : List Name
  /-- The heartbeat it was written in. -/
  tick : ℕ
deriving DecidableEq

structure State where
  e : EtcdEvictions := {}
  ticks : ℕ := 0
  asked : List Name := []
  /-- The heartbeat in which a name was last newly asked for. -/
  since : Name → ℕ := fun _ => 0
  issued : List Request := []
  /-- The contents of the state file that the last heartbeat saw. -/
  read : List (List Char) := []
  report : Report := ⟨[], [], none⟩

namespace State

def Newly (s : State) (i : Input) (name : Name) : Prop := name ∈ i.names ∧ name ∉ s.asked

instance (s : State) (i : Input) (name : Name) : Decidable (s.Newly i name) :=
  inferInstanceAs (Decidable (_ ∧ _))

def next (s : State) (i : Input) : State where
  e := (s.e.tick i).1
  ticks := s.ticks + 1
  asked := i.names
  since name := if s.Newly i name then s.ticks else s.since name
  issued :=
    ((s.e.tick i).2.written.map fun w => ⟨i.id, w.2.map Prod.fst, s.ticks⟩).toList ++ s.issued
  read := i.state.toList ++ i.awaited.toList
  report := (s.e.tick i).2

def step (s : State) (i : Input) : Option State := some (s.next i)

/-- Every confirmed name is asked for, and an answer in the file lists it as gone, to a request not
older than the name's asking. -/
def Evident (s : State) : Prop :=
  ∀ name ∈ s.report.confirmed, name ∈ s.asked ∧ ∃ text ∈ s.read, ∃ r ∈ s.issued,
    (parseState text).id = r.id ∧ (parseState text).done name = true ∧ s.since name ≤ r.tick

/-- A request lists what is pending or watched as it is written, and nothing that the backend asks
to join and does not ask to evict. -/
def Listed (s : State) : Prop :=
  ∀ e nodes, s.report.written = some (e, nodes) →
    (∀ name, name ∈ nodes.map Prod.fst ↔ name ∈ e.pending ∨ name ∈ e.watched) ∧
    ∀ name ∈ nodes.map Prod.fst, name ∈ s.e.wanted → name ∈ s.asked

/-- The runner is installed, and an answer is about names of the request that it answers. -/
def Answered (s : State) (i : Input) : Prop :=
  i.available = true ∧ ∀ text ∈ (s.next i).read, ∀ r ∈ (s.next i).issued,
    (parseState text).id = r.id → ∀ name, (parseState text).done name = true → name ∈ r.names

/-- No name is newly asked for that the request that is out lists. -/
def Unlisted (s : State) (i : Input) : Prop :=
  ∀ name, s.Newly i name → ∀ r ∈ s.issued, r.id = s.e.requestId → name ∉ r.names

end State

namespace EtcdEvictions

variable {e : EtcdEvictions} {i : Input} {answer : Option Answer} {now : ℚ} {name : Name}

theorem mem_confirmed : name ∈ (e.apply answer now).2.1 ↔
    name ∈ e.pending ∧ ∃ a, answer = some a ∧ a.done name = true := by
  simp only [apply]
  split <;> simp [(List.perm_insertionSort _ _).mem_iff, Option.any_eq_true]

theorem apply_requestId : (e.apply answer now).1.requestId = e.requestId := by
  simp only [apply]
  split <;> rfl

theorem apply_wanted : (e.apply answer now).1.wanted = e.wanted := by
  simp only [apply]
  split <;> rfl

theorem apply_pending (h : name ∈ (e.apply answer now).1.pending) : name ∈ e.pending := by
  simp only [apply] at h
  split at h <;> exact List.mem_of_mem_filter h

theorem apply_watched (h : name ∈ (e.apply answer now).1.watched) :
    name ∈ e.watched ∨ name ∉ e.wanted := by
  obtain ⟨w, hw, rfl⟩ := List.mem_map.mp h
  have hmem : w ∈ e.watch ∨ w.1 ∉ e.wanted := by
    simp only [apply] at hw
    split at hw
    all_goals
      rcases List.mem_append.mp hw with hw | hw
      · exact .inl (List.mem_of_mem_filter hw)
      · obtain ⟨name, hname, rfl⟩ := List.mem_map.mp hw
        exact .inr (of_decide_eq_true ((Bool.and_eq_true_iff.mp (List.mem_filter.mp hname).2).2))
  exact hmem.imp (List.mem_map_of_mem) id

theorem mem_active : name ∈ e.active.map Prod.fst ↔ name ∈ e.pending ∨ name ∈ e.watched := by
  rw [active, List.map_map, show Prod.fst ∘ _ = id from rfl, List.map_id, List.mem_dedup,
    List.mem_append]

theorem of_results {text : Option (List Char)} {a : Answer} (h : e.results text = some a) :
    e.requestId ≠ [] ∧ ∃ t ∈ text, parseState t = a ∧ a.id = e.requestId := by
  obtain ⟨hid, h⟩ := Option.ite_none_left_eq_some.mp h
  obtain ⟨hmap, heq⟩ := Option.filter_eq_some_iff.mp h
  obtain ⟨t, ht, rfl⟩ := Option.map_eq_some_iff.mp hmap
  exact ⟨hid, t, ht, rfl, of_decide_eq_true heq⟩

theorem prepare_pending (h : name ∈ (e.prepare i).pending) : name ∈ i.names :=
  of_decide_eq_true (List.mem_filter.mp h).2

theorem prepare_watched (h : name ∈ ((e.endWatches i).prepare i).watched) :
    name ∉ (e.endWatches i).wanted := by
  obtain ⟨w, hw, rfl⟩ := List.mem_map.mp h
  exact of_decide_eq_true (List.mem_filter.mp (List.mem_of_mem_filter hw)).2

/-- The state in which a heartbeat reads the file for the first time. -/
def ready (e : EtcdEvictions) (i : Input) : EtcdEvictions := (e.endWatches i).prepare i

def first (e : EtcdEvictions) (i : Input) : EtcdEvictions × List Name × List (Name × Reason) :=
  (e.ready i).apply ((e.ready i).results i.state) i.applied

theorem tick_cases (h : i.available = true) :
    e.tick i = ((e.first i).1, ⟨(e.first i).2.1, (e.first i).2.2, none⟩) ∨
      e.tick i = (e.first i).1.request i (e.first i).2.1 (e.first i).2.2 := by
  simp only [tick, h, Bool.not_true, Bool.false_eq_true, if_false]
  split
  · exact .inr rfl
  · exact .inl rfl

theorem request_spec (e : EtcdEvictions) (i : Input) (confirmed : List Name)
    (reasons : List (Name × Reason)) : (e.request i confirmed reasons).1.requestId = i.id ∧
      (e.request i confirmed reasons).1.wanted = e.wanted ∧
      (e.request i confirmed reasons).2.written = some (e, e.active) ∧
      ∀ name ∈ (e.request i confirmed reasons).2.confirmed, name ∈ confirmed ∨
        name ∈ e.pending ∧ ∃ text ∈ i.awaited, (parseState text).id = i.id ∧
          (parseState text).done name = true := by
  rw [request]
  dsimp only
  cases h : (e.writeRequest i).results i.awaited with
  | none => exact ⟨rfl, rfl, rfl, fun name hname => .inl hname⟩
  | some answer =>
    refine ⟨apply_requestId, apply_wanted, rfl, fun name hname => ?_⟩
    refine (List.mem_append.mp hname).imp_right fun hmore => ?_
    obtain ⟨hpending, _, heq, hdone⟩ := mem_confirmed.mp hmore
    cases heq
    obtain ⟨-, text, htext, rfl, hid⟩ := of_results h
    exact ⟨hpending, text, htext, hid, hdone⟩

end EtcdEvictions

namespace State

open EtcdEvictions (mem_confirmed apply_requestId apply_wanted apply_pending apply_watched
  mem_active of_results prepare_pending prepare_watched tick_cases request_spec)

structure Inv (s : State) : Prop where
  since : ∀ name, s.since name ≤ s.ticks
  current : s.e.requestId ≠ [] → ∃ r ∈ s.issued, r.id = s.e.requestId ∧
    ∀ name ∈ r.names, name ∈ s.asked → s.since name ≤ r.tick

variable {s : State} {i : Input} {name : Name}

theorem next_since_le (h : s.Inv) (name : Name) : (s.next i).since name ≤ s.ticks := by
  simp only [next]
  split
  · exact le_rfl
  · exact h.since name

theorem current_next (h : s.Inv) (hunlisted : s.Unlisted i) (hid : s.e.requestId ≠ []) :
    ∃ r ∈ s.issued, r.id = s.e.requestId ∧
      ∀ name ∈ r.names, name ∈ i.names → (s.next i).since name ≤ r.tick := by
  obtain ⟨r, hr, hrid, hcurrent⟩ := h.current hid
  refine ⟨r, hr, hrid, fun name hname hasked => ?_⟩
  by_cases hnewly : s.Newly i name
  · exact absurd hname (hunlisted name hnewly r hr hrid)
  · have hbefore : name ∈ s.asked := by
      by_contra hbefore
      exact hnewly ⟨hasked, hbefore⟩
    simp only [next, if_neg hnewly]
    exact hcurrent name hname hbefore

theorem first_evident (h : s.Inv) (hanswered : s.Answered i) (hunlisted : s.Unlisted i)
    (hissued : ∀ r ∈ s.issued, r ∈ (s.next i).issued)
    (hname : name ∈ (s.e.first i).2.1) : name ∈ i.names ∧ ∃ text ∈ (s.next i).read,
      ∃ r ∈ (s.next i).issued, (parseState text).id = r.id ∧
        (parseState text).done name = true ∧ (s.next i).since name ≤ r.tick := by
  obtain ⟨hpending, _, hanswer, hdone⟩ := mem_confirmed.mp hname
  obtain ⟨hid, text, htext, rfl, heq⟩ := of_results hanswer
  have hasked := prepare_pending hpending
  have hread : text ∈ (s.next i).read := List.mem_append_left _ (Option.mem_toList.mpr htext)
  obtain ⟨r, hr, hrid, hfresh⟩ := current_next h hunlisted hid
  have hlisted := hanswered.2 text hread r (hissued r hr) (heq.trans hrid.symm) name hdone
  exact ⟨hasked, text, hread, r, hissued r hr, heq.trans hrid.symm, hdone,
    hfresh name hlisted hasked⟩

theorem inv_next (h : s.Inv) (hanswered : s.Answered i) (hunlisted : s.Unlisted i) :
    (s.next i).Inv ∧ (s.next i).Evident ∧ (s.next i).Listed := by
  have hsince : ∀ name, (s.next i).since name ≤ s.ticks := next_since_le h
  have hwanted : ∀ name ∈ (s.e.first i).1.watched, name ∉ (s.e.first i).1.wanted := by
    intro name hname
    rw [EtcdEvictions.first, apply_wanted]
    exact (apply_watched hname).elim prepare_watched id
  have hissued : ∀ r ∈ s.issued, r ∈ (s.next i).issued := fun r hr => List.mem_append_right _ hr
  rcases tick_cases (e := s.e) hanswered.1 with htick | htick
  · refine ⟨⟨fun name => (hsince name).trans (Nat.le_succ _), fun hid => ?_⟩, ?_, ?_⟩
    · have heq : (s.next i).e.requestId = s.e.requestId := by
        rw [next, htick]
        exact apply_requestId
      rw [heq] at hid ⊢
      obtain ⟨r, hr, hrest⟩ := current_next h hunlisted hid
      exact ⟨r, hissued r hr, hrest⟩
    · intro name hname
      rw [next, htick] at hname
      exact first_evident h hanswered hunlisted hissued hname
    · intro e nodes hwritten
      rw [next, htick] at hwritten
      cases hwritten
  · obtain ⟨hid, hwantedEq, hwritten, hconfirmed⟩ :=
      request_spec (s.e.first i).1 i (s.e.first i).2.1 (s.e.first i).2.2
    rw [← htick] at hid hwantedEq hwritten hconfirmed
    have hnew : ⟨i.id, (s.e.first i).1.active.map Prod.fst, s.ticks⟩ ∈ (s.next i).issued := by
      simp [next, hwritten]
    refine ⟨⟨fun name => (hsince name).trans (Nat.le_succ _), fun _ => ?_⟩, ?_, ?_⟩
    · exact ⟨_, hnew, hid.symm, fun name _ _ => hsince name⟩
    · intro name hname
      rcases hconfirmed name hname with hname | ⟨hpending, text, htext, htextId, hdone⟩
      · exact first_evident h hanswered hunlisted hissued hname
      · exact ⟨prepare_pending (apply_pending hpending), text,
          List.mem_append_right _ (Option.mem_toList.mpr htext), _, hnew, htextId, hdone,
          hsince name⟩
    · intro e nodes heq
      rw [next, hwritten] at heq
      cases heq
      refine ⟨fun name => mem_active, fun name hname hwant => ?_⟩
      rcases mem_active.mp hname with hpending | hwatched
      · exact prepare_pending (apply_pending hpending)
      · refine absurd ?_ (hwanted name hwatched)
        rw [← hwantedEq]
        exact hwant

/-- **Where no name is newly asked for under a request that lists it, an eviction is reported on an
answer to a request not older than its asking, all along a run.** -/
theorem evictions_evident (inputs : List Input)
    (h : Runs.Meets step (fun s i => s.Answered i ∧ s.Unlisted i) {} inputs) :
    Runs.Along step (fun s => s.Evident ∧ s.Listed) {} inputs := by
  refine Runs.along_of_step (I := fun s => s.Inv ∧ s.Evident ∧ s.Listed) ?_ (fun hs => hs.2) ?_ h
  · rintro s i s' ⟨hinv, -⟩ ⟨hanswered, hunlisted⟩ hstep
    cases hstep
    exact inv_next hinv hanswered hunlisted
  · exact ⟨⟨fun _ => le_rfl, fun hid => absurd rfl hid⟩, nofun, nofun⟩

def node : Name := ['n']

def gone : List Char := "id 1\nn\tremoved\n".toList

theorem parseState_gone : parseState gone = ⟨['1'], [(node, "removed".toList, [])]⟩ := by
  decide +kernel

theorem eq_node_of_done {name : Name} (h : (parseState gone).done name = true) : name = node := by
  rw [parseState_gone] at h
  by_contra hne
  have hlookup : (name == node) = false := beq_eq_false_iff_ne.mpr hne
  simp [Answer.done, List.lookup_cons, hlookup] at h

def evicted : Input where
  asked := [(node, [])]
  wanted := []
  available := true
  now := 0
  applied := 0
  written := 0
  appliedAgain := 0
  id := ['1']
  state := none
  awaited := some gone

/-- The node is asked to join again, which ends the watch. -/
def promoted : Input :=
  { evicted with asked := [], wanted := [node], state := some gone, awaited := none }

/-- It is to be evicted again, and the answer from before is still in the file. -/
def evictedAgain : Input := { evicted with id := ['2'], state := some gone, awaited := none }

theorem answered_gone {s : State} {i : Input} (havailable : i.available = true)
    (hread : ∀ text ∈ (s.next i).read, text = gone)
    (hissued : ∀ r ∈ (s.next i).issued, r.names = [node]) : s.Answered i := by
  refine ⟨havailable, fun text htext r hr _ name hdone => ?_⟩
  rw [hread text htext] at hdone
  rw [hissued r hr, eq_node_of_done hdone]
  exact List.mem_singleton_self node

theorem evictions_evident_once :
    Runs.Along step (fun s => s.Evident ∧ s.Listed) {} [evicted, promoted] := by
  refine evictions_evident [evicted, promoted] ?_
  rintro _ ⟨⟩
  refine ⟨⟨answered_gone rfl (by decide +kernel) (by decide +kernel), nofun⟩, ?_⟩
  rintro _ ⟨⟩
  exact ⟨⟨answered_gone rfl (by decide +kernel) (by decide +kernel),
    fun _ hnewly => nomatch hnewly.1⟩, trivial⟩

/-- The second eviction is confirmed by the answer about the first. -/
theorem not_evident_again :
    Runs.Meets step State.Answered {} [evicted, promoted, evictedAgain] ∧
      ¬ Runs.Along step (fun s => s.Evident ∧ s.Listed) {} [evicted, promoted, evictedAgain] := by
  constructor
  · rintro _ ⟨⟩
    refine ⟨answered_gone rfl (by decide +kernel) (by decide +kernel), ?_⟩
    rintro _ ⟨⟩
    refine ⟨answered_gone rfl (by decide +kernel) (by decide +kernel), ?_⟩
    rintro _ ⟨⟩
    exact ⟨answered_gone rfl (by decide +kernel) (by decide +kernel), trivial⟩
  · rintro ⟨-, hrest⟩
    obtain ⟨-, hrest⟩ := hrest _ rfl
    obtain ⟨-, hrest⟩ := hrest _ rfl
    have hevident := (hrest _ rfl).1
    exact absurd hevident (by unfold Evident; decide +kernel)

end State

end SpatiumDdi.Appliance.Evictions
