import Mathlib.Data.List.MinMax
import SpatiumDdi.Agent.State
import SpatiumDdi.Lib.Dict

/-!
The crash-loop guard of config applies: a marker file that says which bundle is
being applied or settling, and how often a process ended on each. A process may
end after any write, and what it kept in memory goes with it. Writes that the file
system refuses are left out.
-/

namespace SpatiumDdi.Agent.ApplyGuard

def maxTracked : Nat := 4

def quarantineAfterDeaths : Nat := 2

abbrev Counts := Dict Etag Nat

/-- `counts.get(etag, 0)` -/
def of (counts : Counts) (etag : Etag) : Nat := (counts.get? etag).getD 0

/-- What the file and the memory both keep of the bundles. -/
structure Record where
  armed : Option Etag := none
  deaths : Counts := .empty
  observed : Counts := .empty

structure Marker extends Record where
  lastDeathAt : Option Time
  oomCount : Option Int
  oomEtag : Option Etag
  oomLimitBytes : Option Int

structure Memory extends Record where
  oomCount : Option Int := none
  diedOomKilled : Bool := false
  oomLimitBytes : Option Int := none
  oomEtag : Option Etag := none
  oomEtagLimit : Option Int := none
  lastDeathAt : Option Time := none
  appliedAt : Option Time := none

/-- `str(etag) if etag else None` -/
def named (etag : Option Etag) : Option Etag := etag.filter (· ≠ "")

def load : Option Marker → Memory
  | none => {}
  | some data =>
    { armed := named data.armed
      deaths := data.deaths.keep fun _ n => 0 < n
      observed := data.observed.keep fun _ n => 0 < n
      oomCount := data.oomCount.filter (0 ≤ ·)
      oomEtag := named data.oomEtag
      oomEtagLimit := data.oomLimitBytes.filter (0 < ·)
      lastDeathAt := data.lastDeathAt }

def Memory.save (m : Memory) : Option Marker :=
  if named m.armed = none ∧ m.deaths.items = [] ∧ m.observed.items = [] ∧ m.oomCount = none ∧
      m.oomEtag = none then
    none
  else
    some
      { armed := m.armed
        deaths := m.deaths
        observed := m.observed
        lastDeathAt := m.lastDeathAt
        oomCount := m.oomCount
        oomEtag := m.oomEtag
        oomLimitBytes := m.oomEtagLimit }

/-- The bundle with the fewest deaths goes, never the one that just died. -/
def victim (died : Etag) (deaths : Counts) : Option Etag :=
  (deaths.keys.filter (· ≠ died)).argmin (of deaths)

/-- The loop that bounds the record. -/
def evict (died : Etag) : Nat → Counts → Counts
  | 0, deaths => deaths
  | n + 1, deaths =>
    if maxTracked < deaths.items.length then
      match victim died deaths with
      | none => deaths
      | some etag => evict died n (deaths.erase etag)
    else
      deaths

/-- One death more, as `startup` counts it. -/
def Record.count (r : Record) (died : Etag) : Record :=
  let counted := r.deaths.set died (of r.deaths died + 1)
  let deaths := evict died counted.items.length counted
  { armed := none
    deaths := deaths
    observed := r.observed.keep fun etag _ => etag ∈ deaths.keys }

def Record.watch (r : Record) (etag : Etag) : Record :=
  { r with observed := r.observed.set etag (of r.observed etag + 1) }

def Record.settle (r : Record) (etag : Etag) : Record where
  armed := none
  deaths := r.deaths.erase etag
  observed := r.observed.erase etag

/-- What happened, beside the code's own state. -/
inductive Event where
  /-- A startup found the bundle armed. -/
  | found (etag : Etag)
  /-- The startup that found it saved its count. -/
  | counted (etag : Etag)
  /-- The daemon was seen to die while it was armed. -/
  | watched (etag : Etag)
  /-- It settled, and that was saved. -/
  | settled (etag : Etag)
  deriving DecidableEq

/-- The last saved file, the memory, and what happened, the newest first. -/
structure State where
  disk : Option Marker := none
  mem : Memory := {}
  log : List Event := []

/-- What the end of a process leaves to the next one. -/
def State.restart (s : State) : State := { s with mem := load s.disk }

def State.note (s : State) (event : Event) : State := { s with log := event :: s.log }

def State.saved (s : State) : State := { s with disk := s.mem.save }

def State.assign (s : State) (f : Memory → Memory) : State := { s with mem := f s.mem }

abbrev Act := Prog State

def assign (f : Memory → Memory) : Act Unit := Prog.modify (·.assign f)

/-- The evidence for an out of memory kill, as `startup` reads it. -/
def Memory.readOom (m : Memory) (nowCount limit : Option Int) : Memory :=
  let risen : Memory :=
    match m.armed, nowCount, m.oomCount with
    | some _, some now, some before =>
      { m with
        diedOomKilled := before < now
        oomLimitBytes := if before < now then limit else m.oomLimitBytes }
    | _, _, _ => m
  let watched : Memory :=
    if m.armed ≠ none ∧ m.oomEtag = m.armed then
      { risen with diedOomKilled := true, oomLimitBytes := m.oomEtagLimit }
    else
      risen
  { watched with oomEtag := none, oomEtagLimit := none }

/-- The first save of `startup`, where the evidence was used or the counter moved. -/
def saveOomCount (before : Memory) (nowCount : Option Int) : Act Unit :=
  if before.oomEtag ≠ none ∨ (nowCount ≠ none ∧ nowCount ≠ before.oomCount) then do
    assign fun m => { m with oomCount := nowCount.or m.oomCount }
    Prog.modify State.saved
  else
    pure ()

/-- `startup`: `nowCount`, `limit` and `now` are what it reads of the cgroup and the
clock. -/
def startup (nowCount limit : Option Int) (now : Time) : Act (Option Etag) := do
  let s ← Prog.get
  match s.mem.armed with
  | none => pure ()
  | some died => Prog.modify (·.note (.found died))
  assign fun m => m.readOom nowCount limit
  saveOomCount s.mem nowCount
  match s.mem.armed with
  | none => return none
  | some died =>
    assign fun m => { m with toRecord := m.toRecord.count died, lastDeathAt := some now }
    Prog.modify fun s => s.saved.note (.counted died)
    return some died

def daemonDied (oomKilled : Bool) (limit : Option Int) : Act (Option Etag) := do
  let s ← Prog.get
  match s.mem.armed with
  | none => return none
  | some etag =>
    Prog.modify (·.note (.watched etag))
    assign fun m =>
      if oomKilled then
        { m with toRecord := m.toRecord.watch etag, oomEtag := some etag, oomEtagLimit := limit }
      else
        { m with toRecord := m.toRecord.watch etag }
    Prog.modify State.saved
    return some etag

def arm (etag : Option Etag) (count : Option Int) : Act Unit :=
  match named etag with
  | none => return
  | some etag => do
    assign fun m =>
      { m with armed := some etag, appliedAt := none, oomCount := count.or m.oomCount }
    Prog.modify State.saved

def applied (now : Time) : Act Unit :=
  assign fun m => if m.armed = none then m else { m with appliedAt := some now }

def disarm : Act Unit := do
  let s ← Prog.get
  match s.mem.armed with
  | none => return
  | some _ =>
    assign fun m => { m with armed := none, appliedAt := none }
    Prog.modify State.saved

def settled : Act (Option Etag) := do
  let s ← Prog.get
  match s.mem.armed with
  | none => return none
  | some etag =>
    assign fun m => { m with toRecord := m.toRecord.settle etag, appliedAt := none }
    Prog.modify fun s => s.saved.note (.settled etag)
    return some etag

def deathsFor (m : Memory) (etag : Option Etag) : Nat :=
  match named etag with
  | none => 0
  | some etag => of m.deaths etag

def observedFor (m : Memory) (etag : Option Etag) : Nat :=
  match named etag with
  | none => 0
  | some etag => of m.observed etag

def condemned (m : Memory) (etag : Option Etag) : Bool :=
  quarantineAfterDeaths ≤ observedFor m etag

inductive Op where
  | startup (nowCount limit : Option Int) (now : Time)
  | arm (etag : Option Etag) (count : Option Int)
  | applied (now : Time)
  | daemonDied (oomKilled : Bool) (limit : Option Int)
  | disarm
  | settled

def Op.prog : Op → Act Unit
  | .startup nowCount limit now => do let _ ← ApplyGuard.startup nowCount limit now
  | .arm etag count => ApplyGuard.arm etag count
  | .applied now => ApplyGuard.applied now
  | .daemonDied oomKilled limit => do let _ ← ApplyGuard.daemonDied oomKilled limit
  | .disarm => ApplyGuard.disarm
  | .settled => do let _ ← ApplyGuard.settled

/-- An operation that returned, or one that the process ended in after so many of its
actions: after none of them, it ended between two operations. -/
inductive Step where
  | returned (op : Op)
  | ended (op : Op) (actions : Nat)

def Step.op : Step → Op
  | .returned op => op
  | .ended op _ => op

def State.after (s : State) : Step → State
  | .returned op => (op.prog.run s).2
  | .ended op actions => (((op.prog.states s).take actions).getLast?.getD s).restart

def State.run (s : State) (steps : List Step) : State := steps.foldl State.after s

/-- How often it happened to the bundle since it last settled. -/
def tally (event : Etag → Event) (etag : Etag) (log : List Event) : Nat :=
  (log.takeWhile (· ≠ .settled etag)).count (event etag)

/-- At most as many bundles as the record keeps have a recorded death. -/
def FewDeaths (log : List Event) : Prop :=
  ∃ etags : List Etag, etags.length ≤ maxTracked ∧
    ∀ etag, 0 < tally .counted etag log → etag ∈ etags

def FewAlong (steps : List Step) : Prop :=
  ∀ before, before <+: steps → FewDeaths (State.run {} before).log

end SpatiumDdi.Agent.ApplyGuard
