import SpatiumDdi.Lib.Crash
import SpatiumDdi.Lib.FixedDigits

/-!
The agent's spool of one stream and the shipper over it. A batch is sent live, or
kept as a file and sent later; a file leaves when it is sent or refused, at the byte
cap, by age, or to the poison directory.
-/

namespace SpatiumDdi.Agent.Spool

abbrev Time := ℚ

/-- A payload, by its number among those passed to `ship`. -/
abbrev Batch := Nat

structure File where
  seq : Nat
  batch : Batch
  size : Nat
  spooledAt : Time
  deriving DecidableEq

structure Entry where
  seq : Nat
  size : Nat
  batch : Batch
  deriving DecidableEq

def File.entry (f : File) : Entry := ⟨f.seq, f.size, f.batch⟩

structure Counters where
  trimmedEntries : Nat := 0
  expiredEntries : Nat := 0
  rejectedEntries : Nat := 0
  writeFailures : Nat := 0
  counted : List Batch := []
  deriving DecidableEq

inductive Outcome where
  | sent
  | retry
  | rejected
  deriving DecidableEq

def classifyStatus (status : Nat) : Outcome :=
  if 200 ≤ status ∧ status < 300 then .sent
  else if status ∈ [401, 404, 408, 425, 429] ∨ 500 ≤ status then .retry
  else .rejected

/-- The outcome of a POST, `none` being a transport error. -/
def outcomeOf : Option Nat → Outcome
  | some status => classifyStatus status
  | none => .retry

/-- Why a file left the directory. -/
inductive Reason where
  | sent
  | rejected
  | trimmed
  | expired
  | poisoned
  | unusable
  deriving DecidableEq

inductive Event where
  | posted (batch : Batch) (status : Option Nat)
  | gone (batch : Batch) (reason : Reason)
  deriving DecidableEq

/-- The entry that draws 500s: its number, how many in a row, and when the first was. -/
structure HeadFailures where
  seq : Nat
  count : Nat
  first : Time
  deriving DecidableEq

structure State where
  /-- The entries in the stream's directory. -/
  files : List File := []
  poison : List File := []
  /-- `_state.json`. -/
  saved : Counters := {}
  /-- A process runs. -/
  up : Bool := false
  entries : List Entry := []
  lastSeq : Nat := 0
  counters : Counters := {}
  headFailures : Option HeadFailures := none
  retryAfter : Time := 0
  lastStatus : Option Nat := none
  /-- The inputs read so far, which number them. -/
  ticks : Nat := 0
  /-- The payloads passed to `ship`, and those it returned for. -/
  shipped : Nat := 0
  returned : List Batch := []
  /-- The batches whose files the cap, the age limit or the quarantine takes, from before
  the file goes until a count of them is saved. -/
  uncounted : List Batch := []
  log : List Event := []
  deriving DecidableEq

/-- What a call meets: the clocks, the answers to its POSTs, and what the disk does. -/
structure Env where
  post : Batch → Nat → Option Nat
  time : Nat → Time
  timeNs : Nat → Int
  monotonic : Nat → Time
  /-- How long the body of a payload is. -/
  size : Nat → Nat
  /-- Whether an entry is written, `_state.json` is, and a file is moved to `poison/`. -/
  writes : Nat → Bool
  saves : Nat → Bool
  moves : Nat → Bool

structure Config where
  capBytes : Nat
  maxAgeSeconds : Option Time
  retryBackoff : Time

abbrev Act := Prog State

def draw {α : Type} (input : Nat → α) : Act α := do
  let s ← Prog.get
  Prog.modify fun s => { s with ticks := s.ticks + 1 }
  pure (input s.ticks)

def drainBatchesPerCall : Nat := 50

def poisonAttempts : Nat := 5

def poisonMinSeconds : Time := 600

def poisonKeep : Nat := 20

/-- `f"{seq:020d}"`, as its digits. -/
def stem (seq : Nat) : List Nat := padded 20 seq

def sortByName (files : List File) : List File :=
  files.mergeSort fun f g => decide (¬ stem g.seq < stem f.seq)

def start : Act Unit :=
  Prog.modify fun s => { s with
    up := true
    entries := (sortByName s.files).map File.entry
    lastSeq := ((sortByName s.files).getLast?.map File.seq).getD 0
    counters := s.saved
    headFailures := none
    retryAfter := 0
    lastStatus := none }

def saveState (env : Env) : Act Unit := do
  let saved ← draw env.saves
  if saved then
    Prog.modify fun s => { s with
      saved := s.counters
      uncounted := s.uncounted.filter fun b => decide (b ∉ s.counters.counted) }
  else
    pure ()

def nextSeq (env : Env) : Act Nat := do
  let ns ← draw env.timeNs
  let s ← Prog.get
  let seq := if ns ≤ (s.lastSeq : Int) then s.lastSeq + 1 else ns.toNat
  Prog.modify fun s => { s with lastSeq := seq }
  pure seq

def unlink (seq : Nat) (reason : Reason) : Act Unit :=
  Prog.modify fun s => { s with
    files := s.files.filter fun f => decide (f.seq ≠ seq)
    log := ((s.files.filter fun f => decide (f.seq = seq)).map fun f =>
      .gone f.batch reason) ++ s.log }

/-- The batch is about to go with no count of it saved. -/
def leave (b : Batch) : Act Unit :=
  Prog.modify fun s => { s with uncounted := b :: s.uncounted }

def count (env : Env) (move : Counters → Counters) (batches : List Batch) : Act Unit := do
  Prog.modify fun s => { s with
    counters := { move s.counters with counted := batches ++ s.counters.counted } }
  saveState env

def countTrimmed (env : Env) (dropped : List Batch) : Act Unit :=
  count env (fun c => { c with trimmedEntries := c.trimmedEntries + dropped.length }) dropped

def countExpired (env : Env) (expired : List Batch) : Act Unit :=
  count env (fun c => { c with expiredEntries := c.expiredEntries + expired.length }) expired

def countRejected (env : Env) (b : Batch) : Act Unit :=
  count env (fun c => { c with rejectedEntries := c.rejectedEntries + 1 }) [b]

def countWriteFailure (env : Env) (b : Batch) : Act Unit :=
  count env (fun c => { c with writeFailures := c.writeFailures + 1 }) [b]

def totalBytes (entries : List Entry) : Nat := (entries.map Entry.size).sum

/-- The loop of `_enforce_cap_locked`: the entries it drops, oldest first. The entries
there are bound how many rounds it takes. -/
def trim (cap : Nat) : Nat → Act (List Batch)
  | 0 => pure []
  | rounds + 1 => do
    let s ← Prog.get
    match s.entries with
    | e :: next :: rest =>
      if cap < totalBytes s.entries then do
        leave e.batch
        Prog.modify fun s => { s with entries := next :: rest }
        unlink e.seq .trimmed
        let dropped ← trim cap rounds
        pure (e.batch :: dropped)
      else
        pure []
    | _ => pure []

section Config

variable (cfg : Config)

def enforceCap (env : Env) : Act Unit := do
  let s ← Prog.get
  if cfg.capBytes = 0 ∨ totalBytes s.entries ≤ cfg.capBytes then
    pure ()
  else do
    let dropped ← trim cfg.capBytes s.entries.length
    if dropped = [] then pure () else countTrimmed env dropped

def writeEntry (env : Env) (f : File) : Act Bool := do
  let written ← draw env.writes
  if written then do
    Prog.modify fun s => { s with files := s.files.filter (fun g => decide (g.seq ≠ f.seq)) ++ [f] }
    Prog.modify fun s => { s with entries := s.entries ++ [f.entry] }
    enforceCap cfg env
    pure true
  else do
    countWriteFailure env f.batch
    pure false

def append (env : Env) (b : Batch) : Act Bool := do
  let spooledAt ← draw env.time
  let size ← draw env.size
  if cfg.capBytes ≠ 0 ∧ cfg.capBytes < size then do
    countTrimmed env [b]
    pure false
  else do
    let seq ← nextSeq env
    writeEntry cfg env ⟨seq, b, size, spooledAt⟩

def State.read (s : State) (seq : Nat) : Option File := s.files.find? fun f => f.seq = seq

def remove (seq : Nat) (reason : Reason) : Act Unit := do
  Prog.modify fun s => { s with entries := s.entries.filter fun e => decide (e.seq ≠ seq) }
  unlink seq reason

/-- What `_usable` returns: the payload, or none of an entry it removed. -/
inductive Usable where
  | payload (b : Batch)
  | expired (b : Batch)
  | unusable

def usable (env : Env) (seq : Nat) (data : Option File) : Act Usable :=
  match data with
  | none => do
    remove seq .unusable
    pure .unusable
  | some f =>
    match cfg.maxAgeSeconds with
    | none => pure (.payload f.batch)
    | some maxAge => do
      let now ← draw env.time
      if maxAge < now - f.spooledAt then do
        leave f.batch
        remove seq .expired
        pure (.expired f.batch)
      else
        pure (.payload f.batch)

/-- After a RETRY: no more attempts for a while. -/
def backOff (env : Env) (outcome : Outcome) : Act Unit :=
  if outcome = .retry ∧ 0 < cfg.retryBackoff then do
    let now ← draw env.monotonic
    Prog.modify fun s => { s with retryAfter := now + cfg.retryBackoff }
  else
    pure ()

def send (env : Env) (b : Batch) : Act Outcome := do
  Prog.modify fun s => { s with lastStatus := none }
  let status ← draw (env.post b)
  Prog.modify fun s => { s with lastStatus := status, log := .posted b status :: s.log }
  backOff cfg env (outcomeOf status)
  pure (outcomeOf status)

def setHeadFailures (failures : Option HeadFailures) : Act Unit :=
  Prog.modify fun s => { s with headFailures := failures }

def poisonDue (env : Env) (seq : Nat) : Act Bool := do
  let now ← draw env.monotonic
  let s ← Prog.get
  let before := (s.headFailures.filter fun hf => decide (hf.seq = seq)).getD ⟨seq, 0, now⟩
  setHeadFailures (some { before with count := before.count + 1 })
  pure (decide (poisonAttempts ≤ before.count + 1 ∧ poisonMinSeconds ≤ now - before.first))

def behind (seq : Nat) (entries : List Entry) : Option Entry :=
  (entries.dropWhile fun e => decide (e.seq ≠ seq)).tail.head?

/-- An entry that was answered goes, one that was refused after it is counted. -/
def answered (env : Env) (e : Entry) (b : Batch) (outcome : Outcome) : Act Unit :=
  match outcome with
  | .sent => remove e.seq .sent
  | .rejected => do
    countRejected env b
    remove e.seq .rejected
  | .retry => pure ()

/-- `_probe_behind`. Every round removes an entry, so the entries there are bound them. -/
def probeBehind (env : Env) (head : Nat) : Nat → List Batch → Act (Option Outcome × List Batch)
  | 0, expired => pure (none, expired)
  | rounds + 1, expired => do
    let s ← Prog.get
    match behind head s.entries with
    | none => pure (none, expired)
    | some e => do
      match ← usable cfg env e.seq (s.read e.seq) with
      | .unusable => probeBehind env head rounds expired
      | .expired b => probeBehind env head rounds (b :: expired)
      | .payload b => do
        let outcome ← send cfg env b
        answered env e b outcome
        pure (some outcome, expired)

/-- `poison/` with its newest files. -/
def prunePoison (files : List File) : List File :=
  (sortByName files).drop (files.length - poisonKeep)

/-- `os.replace` into `poison/`. -/
def moveToPoison (seq : Nat) : Act Unit :=
  Prog.modify fun s => { s with
    files := s.files.filter fun f => decide (f.seq ≠ seq)
    poison := prunePoison (s.poison ++ s.files.filter fun f => decide (f.seq = seq))
    log := ((s.files.filter fun f => decide (f.seq = seq)).map fun f =>
      .gone f.batch .poisoned) ++ s.log }

/-- The move of an entry to `poison/`, and its removal whether or not that worked. -/
def evict (env : Env) (seq : Nat) : Act Unit := do
  let moved ← draw env.moves
  if moved then do
    moveToPoison seq
    remove seq .poisoned
  else
    remove seq .poisoned

def quarantine (env : Env) (e : Entry) : Act Unit := do
  setHeadFailures none
  leave e.batch
  evict env e.seq
  countRejected env e.batch

/-- A drain after the probe behind its head: whether it goes on. -/
def drainProbed (env : Env) (e : Entry) (probe : Option Outcome) (expired : List Batch) :
    Act (Bool × List Batch) :=
  if probe = some .sent ∨ probe = some .rejected then do
    quarantine env e
    pure (true, expired)
  else
    pure (false, expired)

/-- A drain whose head drew a RETRY. -/
def drainRetried (env : Env) (e : Entry) (expired : List Batch) : Act (Bool × List Batch) := do
  let s ← Prog.get
  if s.lastStatus = some 500 then do
    let due ← poisonDue env e.seq
    if due then do
      let s ← Prog.get
      let (probe, expired) ← probeBehind cfg env e.seq s.entries.length expired
      drainProbed env e probe expired
    else
      pure (false, expired)
  else do
    setHeadFailures none
    pure (false, expired)

def drainAnswered (env : Env) (e : Entry) (b : Batch) (outcome : Outcome)
    (expired : List Batch) : Act (Bool × List Batch) :=
  if outcome = .retry then
    drainRetried cfg env e expired
  else do
    setHeadFailures none
    answered env e b outcome
    pure (true, expired)

def drainRound (env : Env) (expired : List Batch) : Act (Bool × List Batch) := do
  let s ← Prog.get
  match s.entries with
  | [] => pure (false, expired)
  | e :: _ => do
    match ← usable cfg env e.seq (s.read e.seq) with
    | .unusable => pure (true, expired)
    | .expired b => pure (true, b :: expired)
    | .payload b => do
      let outcome ← send cfg env b
      drainAnswered cfg env e b outcome expired

def drainRounds (env : Env) : Nat → List Batch → Act (List Batch)
  | 0, expired => pure expired
  | rounds + 1, expired => do
    let (more, expired) ← drainRound cfg env expired
    if more then drainRounds env rounds expired else pure expired

def countIfAny (env : Env) (expired : List Batch) : Act Unit :=
  if expired = [] then pure () else countExpired env expired

def drain (env : Env) : Act Bool := do
  let expired ← drainRounds cfg env drainBatchesPerCall []
  countIfAny env expired
  let s ← Prog.get
  pure s.entries.isEmpty

def backingOff (env : Env) : Act Bool :=
  if 0 < cfg.retryBackoff then do
    let now ← draw env.monotonic
    let s ← Prog.get
    pure (decide (now < s.retryAfter))
  else
    pure false

/-- Whether nothing is queued, after a drain where something was. -/
def drained (env : Env) : Act Bool := do
  let s ← Prog.get
  if s.entries = [] then pure true else drain cfg env

/-- The rest of `ship` where no append has kept the batch. -/
def shipNow (env : Env) (b : Batch) : Act Outcome := do
  let empty ← drained cfg env
  if empty then do
    let outcome ← send cfg env b
    if outcome = .retry then do
      let _ ← append cfg env b
      pure outcome
    else
      pure outcome
  else do
    let _ ← append cfg env b
    pure .retry

/-- Whether the back-off keeps the batch from being sent, and an append kept it. -/
def appendedWaiting (env : Env) (b : Batch) : Act Bool := do
  let waiting ← backingOff cfg env
  if waiting then append cfg env b else pure false

def shipUnless (env : Env) (kept : Bool) (b : Batch) : Act Outcome :=
  if kept then pure .retry else shipNow cfg env b

def ship (env : Env) : Act Outcome := do
  let s ← Prog.get
  Prog.modify fun s => { s with shipped := s.shipped + 1 }
  let kept ← appendedWaiting cfg env s.shipped
  let outcome ← shipUnless cfg env kept s.shipped
  Prog.modify fun t => { t with returned := s.shipped :: t.returned }
  pure outcome

def idleDrain (env : Env) : Act Bool := do
  let s ← Prog.get
  if s.entries = [] then
    pure true
  else do
    let waiting ← backingOff cfg env
    if waiting then pure false else drain cfg env

/-- What the agent asks of a shipper. -/
inductive Call where
  | ship (env : Env)
  | drain (env : Env)

def Call.prog : Call → Act Unit
  | .ship env => do
    let _ ← Spool.ship cfg env
    pure ()
  | .drain env => do
    let _ ← idleDrain cfg env
    pure ()

end Config

end SpatiumDdi.Agent.Spool
