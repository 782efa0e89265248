import Mathlib.Data.List.Dedup
import Mathlib.Data.List.Infix

/-!
Which agent process owns a server's row (`services/agents/instance_ownership.py`). Times are in
microseconds. The decision is made on the locked row, and the row is there.
-/

namespace SpatiumDdi.Agent.Ownership

abbrev Instance := String

structure Row where
  agentInstance : Option Instance := none
  seenAt : Option ℤ := none
  displaced : List Instance := []
  duplicateFirstAt : Option ℤ := none
  duplicateLastAt : Option ℤ := none
  duplicateIp : Option String := none

def seconds (n : ℤ) : ℤ := 1000000 * n

def ownerGoneAfter : ℤ := seconds 300
def seenRefresh : ℤ := seconds 15
def displacedKeep : ℕ := 16
def duplicateWindow : ℤ := seconds 600

def isDisplaced (row : Row) (inst : Instance) : Bool :=
  row.agentInstance.isSome && row.agentInstance ≠ some inst && row.displaced.contains inst

def ownerLive (row : Row) (now : ℤ) : Bool :=
  row.agentInstance.isSome && row.seenAt.any fun seen => now - seen ≤ ownerGoneAfter

def isRefused (row : Row) (inst : Instance) (now : ℤ) : Bool :=
  isDisplaced row inst && ownerLive row now

def recordRefusal (row : Row) (now : ℤ) (clientIp : Option String) : Row :=
  let last := row.duplicateLastAt
  let row :=
    if last.all fun last => duplicateWindow < now - last then
      { row with duplicateFirstAt := some now }
    else row
  if last.all fun last => seenRefresh ≤ now - last then
    { row with duplicateLastAt := some now, duplicateIp := clientIp }
  else row

def refuseRegistration (row : Row) (inst : Option Instance) (now : ℤ) (clientIp : Option String) :
    Bool × Row :=
  match inst with
  | none => (false, row)
  | some inst =>
    if isRefused row inst now then (true, recordRefusal row now clientIp) else (false, row)

def lastOf {α : Type} (n : ℕ) (l : List α) : List α := l.drop (l.length - n)

def claimPoll (row : Row) (inst : Instance) (now : ℤ) (clientIp : Option String) : Bool × Row :=
  if row.agentInstance = some inst ∧ (row.seenAt.any fun seen => now - seen < seenRefresh) = true
  then (true, row)
  else
    match row.agentInstance with
    | none => (true, { row with agentInstance := some inst, seenAt := some now })
    | some owner =>
      if owner = inst then (true, { row with agentInstance := some inst, seenAt := some now })
      else if inst ∈ row.displaced ∧ ownerLive row now = true then
        (false, recordRefusal row now clientIp)
      else
        let displaced := row.displaced.filter (fun d => d ≠ inst ∧ d ≠ owner) ++ [owner]
        (true, { row with
          displaced := lastOf displacedKeep displaced
          agentInstance := some inst
          seenAt := some now })

inductive Event where
  | poll (inst : Instance) (now : ℤ) (clientIp : Option String)
  | register (inst : Option Instance) (now : ℤ) (clientIp : Option String)

def Event.now : Event → ℤ
  | .poll _ now _ => now
  | .register _ now _ => now

def Event.apply (row : Row) : Event → Row
  | .poll inst now clientIp => (claimPoll row inst now clientIp).2
  | .register inst now clientIp => (refuseRegistration row inst now clientIp).2

/-- The row after a history, whose last event comes first. -/
def rowAfter : List Event → Row
  | [] => {}
  | e :: past => e.apply (rowAfter past)

/-- Who lost the row to whom. -/
def handovers : List Event → List (Instance × Instance)
  | [] => []
  | e :: past =>
    match (rowAfter past).agentInstance, (rowAfter (e :: past)).agentInstance with
    | some owner, some inst =>
      if owner = inst then handovers past else (owner, inst) :: handovers past
    | _, _ => handovers past

def everDisplaced (history : List Event) : List Instance := ((handovers history).map Prod.fst).dedup

def Clock (history : List Event) : Prop := history.Pairwise fun e past => past.now ≤ e.now

def PollAt (history : List Event) (inst : Instance) (time : ℤ) : Prop :=
  ∃ clientIp, Event.poll inst time clientIp ∈ history

/-- A process that has polled has done so a short while before every later event. -/
def KeepsPolling (history : List Event) (inst : Instance) : Prop :=
  ∀ e past, e :: past <:+ history → (∃ time, PollAt past inst time) →
    ∃ time, PollAt past inst time ∧ e.now - time ≤ ownerGoneAfter - seenRefresh

def handoversBetween (history : List Event) (a b : Instance) : List (Instance × Instance) :=
  (handovers history).filter fun pair => pair = (a, b) ∨ pair = (b, a)

structure Settled (history : List Event) : Prop where
  ownerApart : ∀ past, past <:+ history → ∀ owner, (rowAfter past).agentInstance = some owner →
    owner ∉ (rowAfter past).displaced
  nodup : ∀ past, past <:+ history → (rowAfter past).displaced.Nodup
  newcomer : ∀ inst now clientIp past, .poll inst now clientIp :: past <:+ history →
    (∀ time, ¬ PollAt past inst time) →
    (rowAfter (.poll inst now clientIp :: past)).agentInstance = some inst
  returns : ∀ e past inst, e :: past <:+ history → inst ∈ everDisplaced past →
    (rowAfter past).agentInstance ≠ some inst →
    (rowAfter (e :: past)).agentInstance = some inst →
    ∃ seen, (rowAfter past).seenAt = some seen ∧ ownerGoneAfter < e.now - seen
  once : ∀ a b, a ≠ b → KeepsPolling history a → KeepsPolling history b →
    (handoversBetween history a b).length ≤ 1
  refused : ∀ inst now clientIp past, .register (some inst) now clientIp :: past <:+ history →
    isRefused (rowAfter past) inst now = true →
    (refuseRegistration (rowAfter past) (some inst) now clientIp).1 = true

end SpatiumDdi.Agent.Ownership
