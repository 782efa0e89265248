import SpatiumDdi.Dhcp.LeaseSnapshotWalk

/-!
The lease watcher around the two snapshots: a tick tails Kea's lease files into the buffers, sends
or spools what is buffered or replays the spool, and then lets the snapshots walk on if nothing is
left to send. The requests come of a recovery of the control plane and of a new registration.
-/

namespace SpatiumDdi.Dhcp.LeaseSnapshot

open Agent (Spool.Env Spool.State Spool.Act Spool.Outcome)

def batchMaxSeconds : Time := 5

def drainInterval : Time := 5

def drainBudget : Time := 5

structure WatcherConfig where
  v4 : Config
  v6 : Config
  spool : Agent.Spool.Config
  spoolEnabled : Bool

structure Queue where
  pending : List LeaseEvent := []
  pendingV6 : List LeaseEvent := []
  lastFlush : Time := 0
  lastDrain : Time := 0
  spool : Spool.State
  degraded : Bool := false
  recovered : Bool := false

def Queue.buffer (q : Queue) : Family → List LeaseEvent
  | .v4 => q.pending
  | .v6 => q.pendingV6

def Queue.setBuffer (q : Queue) (family : Family) (events : List LeaseEvent) : Queue :=
  match family with
  | .v4 => { q with pending := events }
  | .v6 => { q with pendingV6 := events }

/-- Nothing waits to be sent, in memory or in the spool. -/
def Queue.Empty (q : Queue) : Prop := q.pending = [] ∧ q.pendingV6 = [] ∧ q.spool.entries = []

/-- What `_post_events` notes of the answer to a POST. -/
def Queue.note (q : Queue) (status : Option ℕ) : Queue :=
  match Agent.Spool.outcomeOf status with
  | .sent => if q.degraded then { q with degraded := false, recovered := true } else q
  | .retry => { q with degraded := true }
  | .rejected => q

def postStatus : Agent.Spool.Event → Option (Option ℕ)
  | .posted _ status => some status
  | .gone _ _ => none

def Queue.act {α : Type} (q : Queue) (p : Spool.Act α) : α × Queue :=
  let (a, spool) := p.run q.spool
  let posts := (spool.log.take (spool.log.length - q.spool.log.length)).filterMap postStatus
  (a, posts.foldr (fun status q => q.note status) { q with spool })

section Config

variable (cfg : WatcherConfig) (env : Spool.Env)

/-- `ship`, of a spool that is disabled. -/
def shipUnspooled : Spool.Act Spool.Outcome := do
  let s ← Prog.get
  Prog.modify fun s => { s with shipped := s.shipped + 1 }
  Agent.Spool.send cfg.spool env s.shipped

def Queue.ship (q : Queue) : Spool.Outcome × Queue :=
  q.act (if cfg.spoolEnabled then Agent.Spool.ship cfg.spool env else shipUnspooled cfg env)

/-- `_flush_list`. Every batch that leaves shortens the buffer, so its length bounds them. -/
def Queue.flushList (family : Family) : ℕ → Queue → Queue
  | 0, q => q
  | n + 1, q =>
    let pending := q.buffer family
    if pending = [] then q
    else
      let rest := pending.drop (pending.take batchMaxEvents).length
      if cfg.spoolEnabled then ((q.setBuffer family rest).ship cfg env).2.flushList family n
      else
        let (outcome, q) := q.ship cfg env
        if outcome = .retry then q else (q.setBuffer family rest).flushList family n

def Queue.flush (q : Queue) : Queue :=
  let q := q.flushList cfg env .v4 q.pending.length
  let q := q.flushList cfg env .v6 q.pendingV6.length
  let (now, q) := q.act (Agent.Spool.draw env.monotonic)
  { q with lastFlush := now }

/-- `drain_for`. Every pass but the last shortens the spool, so its length bounds them. -/
def drainFor (deadline : Time) : ℕ → Spool.Act Bool
  | 0 => pure false
  | passes + 1 => do
    let s ← Prog.get
    if s.entries = [] then pure true
    else do
      let drained ← Agent.Spool.idleDrain cfg.spool env
      if drained then pure true
      else do
        let t ← Prog.get
        let now ← Agent.Spool.draw env.monotonic
        if s.entries.length ≤ t.entries.length ∨ deadline ≤ now then pure false
        else drainFor deadline passes

def Queue.maybeDrain (q : Queue) : Queue :=
  if q.spool.entries = [] then q
  else
    let (now, q) := q.act (Agent.Spool.draw env.monotonic)
    if now - q.lastDrain < drainInterval then q
    else
      let q := { q with lastDrain := now }
      let (start, q) := q.act (Agent.Spool.draw env.monotonic)
      (q.act (drainFor cfg env (start + drainBudget) (q.spool.entries.length + 1))).2

/-- The body of `_tail`'s loop, after the row was parsed. -/
def Queue.take (family : Family) (q : Queue) (event : Option LeaseEvent) : Queue :=
  let q := match event with
    | some event => q.setBuffer family ((⟨q.buffer family, [], []⟩ : Buffer).push event).pending
    | none => q
  if batchMaxEvents ≤ (q.buffer family).length ∧ cfg.spoolEnabled then q.flush cfg env else q

/-- `_tail` over the rows it read, and whether it raised. -/
def Queue.tail (family : Family) : Queue → List (List String) → Queue × Bool
  | q, [] => (q, false)
  | q, row :: rows =>
    match family.parse row with
    | .error _ => (q, true)
    | .ok event => (q.take cfg env family event).tail family rows

/-- `tick` between the tails and the snapshots. -/
def Queue.deliver (q : Queue) : Queue :=
  let buffered := q.pending.length + q.pendingV6.length
  let (now, q') := q.act (Agent.Spool.draw env.monotonic)
  if buffered ≠ 0 then
    if batchMaxEvents ≤ buffered then q.flush cfg env
    else if batchMaxSeconds ≤ now - q.lastFlush then q'.flush cfg env
    else q'.maybeDrain cfg env
  else q.maybeDrain cfg env

end Config

structure Watcher (cfg : WatcherConfig) where
  queue : Queue
  reauthGen : ℕ
  reregistered : Bool := false
  snapshot : Trace cfg.v4.order := {}
  snapshotV6 : Trace cfg.v6.order := {}
  fetched : List Queue := []

/-- What the snapshots meet in a tick: the deadlines of their steps, and their pages. -/
structure Slice (cfg : WatcherConfig) where
  deadline : Time
  rounds : List (Round cfg.v4.order)
  deadlineV6 : Time
  roundsV6 : List (Round cfg.v6.order)

structure Tick (cfg : WatcherConfig) where
  reauthGeneration : ℕ
  rows : List (List String)
  rowsV6 : List (List String)
  env : Spool.Env
  slice : Slice cfg

def fetches {order : String → ℕ} : List (Entry order) → ℕ
  | [] => 0
  | .stepped (.failed _) _ :: log | .stepped (.read _ _) _ :: log => fetches log + 1
  | _ :: log => fetches log

section Watcher

variable {cfg : WatcherConfig}

def Watcher.request (w : Watcher cfg) : Watcher cfg :=
  { w with snapshot := w.snapshot.request cfg.v4, snapshotV6 := w.snapshotV6.request cfg.v6 }

def Watcher.start (cfg : WatcherConfig) (queue : Queue) (gen : ℕ) : Watcher cfg :=
  Watcher.request { queue, reauthGen := gen }

/-- The requests of `_maybe_snapshot`. -/
def Watcher.trigger (w : Watcher cfg) : Watcher cfg :=
  let w :=
    if w.queue.recovered then
      Watcher.request { w with queue := { w.queue with recovered := false } }
    else w
  if w.reregistered then Watcher.request { w with reregistered := false } else w

/-- `self.snapshot.step()`, and whether an exception left it. -/
def Watcher.stepV4 (w : Watcher cfg) (slice : Slice cfg) : Watcher cfg × Bool :=
  let (t, raised) := w.snapshot.step cfg.v4 slice.deadline slice.rounds
  let moments := List.replicate (fetches t.log - fetches w.snapshot.log) w.queue
  ({ w with snapshot := t, fetched := moments ++ w.fetched }, raised)

/-- `self.snapshot_v6.step()`, and whether an exception left it. -/
def Watcher.stepV6 (w : Watcher cfg) (slice : Slice cfg) : Watcher cfg × Bool :=
  let (t, raised) := w.snapshotV6.step cfg.v6 slice.deadlineV6 slice.roundsV6
  let moments := List.replicate (fetches t.log - fetches w.snapshotV6.log) w.queue
  ({ w with snapshotV6 := t, fetched := moments ++ w.fetched }, raised)

def Watcher.maybeSnapshot (w : Watcher cfg) (slice : Slice cfg) : Watcher cfg × Bool :=
  if w.queue.pending ≠ [] ∨ w.queue.pendingV6 ≠ [] ∨ w.queue.spool.entries.length ≠ 0 then (w, false)
  else
    match w.trigger.stepV4 slice with
    | (w, true) => (w, true)
    | (w, false) => w.stepV6 slice

/-- `tick`, and whether an exception left it. -/
def Watcher.tick (w : Watcher cfg) (i : Tick cfg) : Watcher cfg × Bool :=
  let w :=
    if i.reauthGeneration ≠ w.reauthGen then
      { w with reauthGen := i.reauthGeneration, reregistered := true }
    else w
  match w.queue.tail cfg i.env .v4 i.rows with
  | (queue, true) => ({ w with queue }, true)
  | (queue, false) =>
    match queue.tail cfg i.env .v6 i.rowsV6 with
    | (queue, true) => ({ w with queue }, true)
    | (queue, false) =>
      Watcher.maybeSnapshot { w with queue := queue.deliver cfg i.env } i.slice

def Watcher.run : Watcher cfg → List (Tick cfg) → Watcher cfg
  | w, [] => w
  | w, i :: ticks =>
    match w.tick i with
    | (w, true) => w
    | (w, false) => w.run ticks

end Watcher

/-- Calls of a snapshot lead from one trace to the other. -/
def Calls (cfg : Config) (t t' : Trace cfg.order) : Prop := ∃ calls, t' = t.run cfg calls

section Calls

variable {cfg : Config} {t t' t'' : Trace cfg.order}

theorem Calls.refl (t : Trace cfg.order) : Calls cfg t t := ⟨[], rfl⟩

theorem run_append (t : Trace cfg.order) (calls more : List (Call cfg.order)) :
    t.run cfg (calls ++ more) = (t.run cfg calls).run cfg more := by
  induction calls generalizing t with
  | nil => rfl
  | cons c calls ih => exact ih (t.call cfg c)

theorem Calls.trans (h : Calls cfg t t') (h' : Calls cfg t' t'') : Calls cfg t t'' := by
  obtain ⟨calls, rfl⟩ := h
  obtain ⟨more, rfl⟩ := h'
  exact ⟨calls ++ more, (run_append t calls more).symm⟩

theorem calls_request (t : Trace cfg.order) : Calls cfg t (t.request cfg) := ⟨[.request], rfl⟩

theorem calls_step (t : Trace cfg.order) (deadline : Time) (rounds : List (Round cfg.order)) :
    Calls cfg t (t.step cfg deadline rounds).1 :=
  ⟨[.step deadline rounds], rfl⟩

end Calls

/-- Each snapshot is driven by calls, and nothing was waiting at a page that was fetched. -/
structure Watcher.Guarded {cfg : WatcherConfig} (w : Watcher cfg) : Prop where
  called : Calls cfg.v4 {} w.snapshot
  calledV6 : Calls cfg.v6 {} w.snapshotV6
  fetched : ∀ queue ∈ w.fetched, queue.Empty

section Watcher

variable {cfg : WatcherConfig} {w : Watcher cfg}

theorem Watcher.Guarded.request (h : w.Guarded) : w.request.Guarded where
  called := h.called.trans (calls_request _)
  calledV6 := h.calledV6.trans (calls_request _)
  fetched := h.fetched

theorem Watcher.guarded_start (cfg : WatcherConfig) (queue : Queue) (gen : ℕ) :
    (Watcher.start cfg queue gen).Guarded :=
  Watcher.Guarded.request ⟨Calls.refl _, Calls.refl _, fun _ hq => absurd hq List.not_mem_nil⟩

theorem Watcher.Guarded.trigger (h : w.Guarded) : w.trigger.Guarded := by
  have hrecovered : (if w.queue.recovered = true then
      Watcher.request { w with queue := { w.queue with recovered := false } } else w).Guarded := by
    split
    · exact Watcher.Guarded.request ⟨h.called, h.calledV6, h.fetched⟩
    · exact h
  have hreregistered : ∀ u : Watcher cfg, u.Guarded → (if u.reregistered = true then
      Watcher.request { u with reregistered := false } else u).Guarded := by
    intro u hu
    split
    · exact Watcher.Guarded.request ⟨hu.called, hu.calledV6, hu.fetched⟩
    · exact hu
  exact hreregistered _ hrecovered

theorem Watcher.trigger_empty (h : w.queue.Empty) : w.trigger.queue.Empty := by
  rw [Watcher.trigger]
  split <;> split <;> exact h

theorem fetched_append {queue : Queue} {fetched : List Queue} (hempty : queue.Empty)
    (hfetched : ∀ q ∈ fetched, q.Empty) (n : ℕ) :
    ∀ q ∈ List.replicate n queue ++ fetched, q.Empty := by
  intro q hq
  rcases List.mem_append.mp hq with hq | hq
  · rw [List.eq_of_mem_replicate hq]
    exact hempty
  · exact hfetched q hq

section

variable (h : w.Guarded)
include h

theorem Watcher.Guarded.stepV4 (hempty : w.queue.Empty) (slice : Slice cfg) :
    (w.stepV4 slice).1.Guarded where
  called := h.called.trans (calls_step _ _ _)
  calledV6 := h.calledV6
  fetched := fetched_append hempty h.fetched _

theorem Watcher.Guarded.stepV6 (hempty : w.queue.Empty) (slice : Slice cfg) :
    (w.stepV6 slice).1.Guarded where
  called := h.called
  calledV6 := h.calledV6.trans (calls_step _ _ _)
  fetched := fetched_append hempty h.fetched _

theorem Watcher.Guarded.maybeSnapshot (slice : Slice cfg) : (w.maybeSnapshot slice).1.Guarded := by
  rw [Watcher.maybeSnapshot]
  split
  · exact h
  · rename_i hwaiting
    have hempty : w.queue.Empty := by
      rw [not_or, not_or, not_not, not_not, not_not] at hwaiting
      exact ⟨hwaiting.1, hwaiting.2.1, List.eq_nil_of_length_eq_zero hwaiting.2.2⟩
    have hv4 := h.trigger.stepV4 (Watcher.trigger_empty hempty) slice
    have hqueue : (w.trigger.stepV4 slice).1.queue.Empty := Watcher.trigger_empty hempty
    cases hstep : w.trigger.stepV4 slice with
    | mk u raised =>
      rw [hstep] at hv4 hqueue
      cases raised with
      | true => exact hv4
      | false => exact hv4.stepV6 hqueue slice

theorem Watcher.Guarded.queue (queue : Queue) : { w with queue }.Guarded :=
  ⟨h.called, h.calledV6, h.fetched⟩

theorem Watcher.Guarded.tick (i : Tick cfg) : (w.tick i).1.Guarded := by
  have hgen : (if i.reauthGeneration ≠ w.reauthGen then
      { w with reauthGen := i.reauthGeneration, reregistered := true } else w).Guarded := by
    split
    · exact ⟨h.called, h.calledV6, h.fetched⟩
    · exact h
  rw [Watcher.tick]
  split
  · exact hgen.queue _
  · split
    · exact hgen.queue _
    · exact (hgen.queue _).maybeSnapshot i.slice

theorem Watcher.Guarded.run (ticks : List (Tick cfg)) : (w.run ticks).Guarded := by
  induction ticks generalizing w with
  | nil => exact h
  | cons i ticks ih =>
    have htick := h.tick i
    rw [Watcher.run]
    cases hi : w.tick i with
    | mk u raised =>
      rw [hi] at htick
      cases raised with
      | true => exact htick
      | false => exact ih htick

end

end Watcher

/-- A snapshot's finished walks cover the table, and an abandoned one is due again. -/
structure Trace.Sound {cfg : Config} (t : Trace cfg.order) : Prop where
  covers : ∀ walk ∈ finishedWalks t.log, Covers cfg walk
  dueAgain : DueAgain failuresInARow t.log

/-- Every walk that reaches `_finish` covers the table, every abandoned walk leaves its snapshot due
unless Kea failed a first page with more than the allowed number of failures in a row, and a page
is fetched only when nothing waits to be sent or is spooled. -/
theorem lease_snapshot_sound :
    (∀ (cfg : Config) (calls : List (Call cfg.order)), (Trace.run cfg {} calls).Sound) ∧
      ∀ (cfg : WatcherConfig) (queue : Queue) (gen : ℕ) (ticks : List (Tick cfg)),
        ((Watcher.start cfg queue gen).run ticks).Guarded := by
  refine ⟨fun cfg calls => ?_, fun cfg queue gen ticks => ?_⟩
  · have hinv := Trace.inv_init.run calls
    exact ⟨hinv.covers, hinv.dueAgain⟩
  · exact (Watcher.guarded_start cfg queue gen).run ticks

def twoPlaces (ip : String) : ℕ := if ip = "10.0.0.2" then 1 else 0

def leaseAt (ip : String) : KeaLease := { ipAddress := ip, hwAddress := "02:00:00:00:00:01" }

def twoLeases : Table twoPlaces where
  leases := [leaseAt "10.0.0.1", leaseAt "10.0.0.2"]
  ordered := by unfold PageWalk.Ordered; decide
  written := by decide

def onePage : Config where
  family := .v4
  order := twoPlaces
  pageSize := 1
  pageSize_pos := Nat.one_pos
  minInterval := 300

/-- A page that Kea answers, and the POST with it. -/
def answeredAt (now : Time) : Round twoPlaces := ⟨now, some twoLeases, some 200, now⟩

def failedAt (now : Time) : Round twoPlaces := ⟨now, none, none, now⟩

/-- A walk of the two leases and of the empty page behind them. -/
def walkOfTwo : List (Call twoPlaces) :=
  [.request, .step 5 [answeredAt 0, answeredAt 1, answeredAt 2]]

theorem lease_snapshot_sound_walkOfTwo :
    ∃ walk ∈ finishedWalks (Trace.run onePage {} walkOfTwo).log,
      (posted walk).map LeaseEvent.ipAddress = ["10.0.0.1", "10.0.0.2"] ∧ Covers onePage walk := by
  have hwalk : ∃ walk ∈ finishedWalks (Trace.run onePage {} walkOfTwo).log,
      (posted walk).map LeaseEvent.ipAddress = ["10.0.0.1", "10.0.0.2"] := by decide +kernel
  obtain ⟨walk, hfinished, hposted⟩ := hwalk
  exact ⟨walk, hfinished, hposted, (lease_snapshot_sound.1 onePage walkOfTwo).covers walk hfinished⟩

/-- A walk whose second page Kea fails, and twenty more that it fails at their first. -/
def keaGoesDown : List (Call twoPlaces) :=
  [.request, .step 0 [answeredAt 0], .step 0 [failedAt 1]] ++
    (List.range 20).map fun (n : ℕ) => .step 0 [failedAt (1000 * (n + 1))]

/-- The failure of a later page counts: Kea has failed its first page twenty times, and the snapshot
is not due again. -/
theorem not_dueAgain_keaGoesDown :
    ¬ ∀ (cfg : Config) (calls : List (Call cfg.order)),
      DueAgain firstPageFailures (Trace.run cfg {} calls).log := by
  intro h
  have hgave : gaveUp (Trace.run onePage {} keaGoesDown).log = true := by decide +kernel
  have hcount : firstPageFailures (Trace.run onePage {} keaGoesDown).log = keaMaxAttempts := by
    decide +kernel
  have hlt := (h onePage keaGoesDown).lt_of_gaveUp hgave
  rw [hcount] at hlt
  exact absurd hlt (lt_irrefl _)

end SpatiumDdi.Dhcp.LeaseSnapshot
