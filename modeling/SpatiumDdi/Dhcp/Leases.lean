import SpatiumDdi.Lib.Csv

/-!
The DHCP agent's lease watcher between a row of Kea's lease file and the control plane: a row
read as a lease event, and the buffer of events `_tail` fills and `_flush_list` empties.
-/

namespace SpatiumDdi.Dhcp

open Text

inductive LeaseState where
  | active
  | declined
  | expired
  | released
  deriving DecidableEq

def stateMap (s : String) : LeaseState :=
  if s = "1" then .declined
  else if s = "2" then .expired
  else if s = "3" then .released
  else .active

/-- An aware UTC `datetime`, by its seconds since the epoch: the years 1 to 9999. -/
structure Timestamp where
  epoch : Int
  yearMin : -62135596800 ≤ epoch
  yearMax : epoch ≤ 253402300799
  deriving DecidableEq

/-- What `datetime.fromtimestamp` raises: `ValueError`, or for a time the platform has no
calendar for `OverflowError` or `OSError`. -/
inductive TimeError where
  | value
  | platform
  deriving DecidableEq

/-- `datetime.fromtimestamp(t, tz=timezone.utc)`. -/
def fromtimestamp (t : Int) : Except TimeError Timestamp :=
  if h : -62135596800 ≤ t ∧ t ≤ 253402300799 then .ok ⟨t, h.1, h.2⟩
  else if -67768040609740800 ≤ t ∧ t ≤ 67768036191676799 then .error .value
  else .error .platform

def times (expireEpoch validLifetime : Int) :
    Except TimeError (Option Timestamp × Option Timestamp) := do
  let startsAt ←
    if expireEpoch ≠ 0 ∧ validLifetime ≠ 0 then
      (fromtimestamp (expireEpoch - validLifetime)).map some
    else .ok none
  let endsAt ← if expireEpoch ≠ 0 then (fromtimestamp expireEpoch).map some else .ok none
  return (startsAt, endsAt)

/-- A lease event as the control plane takes it. A v4 event has no `duid` and no `iaid`. -/
structure LeaseEvent where
  ipAddress : String
  macAddress : Option String
  duid : Option String := none
  iaid : Option Int := none
  hostname : Option String
  state : LeaseState
  startsAt : Option Timestamp
  endsAt : Option Timestamp
  expiresAt : Option Timestamp
  deriving DecidableEq

def orNone (s : String) : Option String := if s = "" then none else some s

def intOrZero (s : String) : Option Int := if s = "" then some 0 else parseInt s

def isHeader (first : String) : Bool := "address".toList.isPrefixOf first.toList

/-- One row of `kea-leases4.csv` as an event, or none to skip it. -/
def parseRow (row : List String) : Except TimeError (Option LeaseEvent) :=
  if row = [] ∨ isHeader (row.getD 0 "") then .ok none
  else if row.length < 10 then .ok none
  else
    let ip := strip (row.getD 0 "")
    let mac := orNone (strip (row.getD 1 ""))
    if ip = "" ∨ mac = none then .ok none
    else match intOrZero (row.getD 3 ""), intOrZero (row.getD 4 "") with
      | some validLifetime, some expireEpoch =>
        match times expireEpoch validLifetime with
        | .ok (startsAt, endsAt) =>
          .ok (some {
            ipAddress := ip
            macAddress := mac
            hostname := orNone (strip (row.getD 8 ""))
            state := stateMap (strip (row.getD 9 ""))
            startsAt, endsAt, expiresAt := endsAt })
        -- inside the `try`: a year out of range skips the row
        | .error .value => .ok none
        | .error .platform => .error .platform
      | _, _ => .ok none

/-- One row of `kea-leases6.csv` as an event, or none to skip it: IA_NA leases only. -/
def parseRowV6 (row : List String) : Except TimeError (Option LeaseEvent) :=
  if row = [] ∨ isHeader (row.getD 0 "") then .ok none
  else if row.length < 14 then .ok none
  else
    let ip := strip (row.getD 0 "")
    let duid := strip (row.getD 1 "")
    if ip = "" ∨ duid = "" ∨ strip (row.getD 6 "") ≠ "0" then .ok none
    else
      let iaid := if strip (row.getD 7 "") = "" then some none else (parseInt (row.getD 7 "")).map some
      match intOrZero (row.getD 2 ""), intOrZero (row.getD 3 ""), iaid with
      | some validLifetime, some expireEpoch, some iaid =>
        -- `_times` is called after the `try`
        (times expireEpoch validLifetime).map fun (startsAt, endsAt) =>
          some {
            ipAddress := ip
            macAddress := orNone (strip (row.getD 12 ""))
            duid := some duid
            iaid
            hostname := orNone (strip (row.getD 11 ""))
            state := stateMap (strip (row.getD 13 ""))
            startsAt, endsAt, expiresAt := endsAt }
      | _, _, _ => .ok none

inductive Family where
  | v4
  | v6
  deriving DecidableEq

def Family.parse : Family → List String → Except TimeError (Option LeaseEvent)
  | .v4 => parseRow
  | .v6 => parseRowV6

def Family.event (family : Family) (row : List String) : Option LeaseEvent :=
  match family.parse row with
  | .ok event => event
  | .error _ => none

def batchMaxEvents : Nat := 100
def batchMaxBuffer : Nat := 5000

inductive Answer where
  | sent
  | retry
  | rejected
  deriving DecidableEq

/-- The events of one family waiting to be sent. `built` is every event `_tail` made, `handed`
those the shipper took. -/
structure Buffer where
  pending : List LeaseEvent := []
  built : List LeaseEvent := []
  handed : List LeaseEvent := []

/-- `_flush_list`'s loop, the answers being those of the batches that are left. With the spool a
batch leaves the buffer whatever becomes of it. -/
def Buffer.flushSlices (spool : Bool) (answer : Nat → Answer) : Nat → Buffer → Buffer
  | 0, b => b
  | n + 1, b =>
    if b.pending = [] then b
    else if spool = false ∧ answer n = .retry then b
    else
      let batch := b.pending.take batchMaxEvents
      flushSlices spool answer n
        { b with pending := b.pending.drop batch.length, handed := b.handed ++ batch }

def Buffer.flushList (b : Buffer) (spool : Bool) (answer : Nat → Answer) : Buffer :=
  b.flushSlices spool answer b.pending.length

/-- An event joins the buffer, which has dropped its older half first if it was full. -/
def Buffer.push (b : Buffer) (event : LeaseEvent) : Buffer :=
  let pending :=
    if batchMaxBuffer ≤ b.pending.length then b.pending.drop (batchMaxBuffer / 2) else b.pending
  { b with pending := pending ++ [event], built := b.built ++ [event] }

/-- The body of `_tail`'s loop, after the row was parsed. -/
def Buffer.take (b : Buffer) (spool : Bool) (event : Option LeaseEvent) : Buffer :=
  let b := match event with
    | some event => b.push event
    | none => b
  if batchMaxEvents ≤ b.pending.length ∧ spool then b.flushList spool fun _ => .sent else b

/-- `_tail` over the rows it read, and what it raised if it did. -/
def Buffer.tail (b : Buffer) (family : Family) (spool : Bool) :
    List (List String) → Buffer × Option TimeError
  | [] => (b, none)
  | row :: rows =>
    match family.parse row with
    | .error e => (b, some e)
    | .ok event => (b.take spool event).tail family spool rows

theorem Buffer.built_flushSlices (spool : Bool) (answer : Nat → Answer) (n : Nat) (b : Buffer) :
    (b.flushSlices spool answer n).built = b.built := by
  induction n generalizing b with
  | zero => rfl
  | succ n ih =>
    rw [flushSlices]
    split
    · rfl
    · split
      · rfl
      · rw [ih]

variable (b : Buffer) {rows : List (List String)}

@[simp] theorem Buffer.built_flushList (spool : Bool) (answer : Nat → Answer) :
    (b.flushList spool answer).built = b.built :=
  built_flushSlices ..

theorem Buffer.built_take (spool : Bool) (event : Option LeaseEvent) :
    (b.take spool event).built = b.built ++ event.toList := by
  unfold take
  cases event with
  | none =>
    dsimp only
    split <;> simp
  | some event =>
    dsimp only
    split <;> simp [push]

theorem Buffer.built_tail (family : Family) (spool : Bool)
    (h : ∀ row ∈ rows, ∀ e, family.parse row ≠ .error e) :
    (b.tail family spool rows).1.built = b.built ++ rows.filterMap family.event := by
  induction rows generalizing b with
  | nil => simp [tail]
  | cons row rows ih =>
    have hrow := h row List.mem_cons_self
    rw [tail]
    cases hparse : family.parse row with
    | error e => exact absurd hparse (hrow e)
    | ok event =>
      have hevent : family.event row = event := by simp [Family.event, hparse]
      dsimp only
      rw [ih _ fun row hmem => h row (List.mem_cons_of_mem _ hmem), built_take, List.append_assoc]
      cases event with
      | none => rw [List.filterMap_cons_none hevent, Option.toList_none, List.nil_append]
      | some event => rw [List.filterMap_cons_some hevent, Option.toList_some, List.singleton_append]

theorem Buffer.tail_snd (family : Family) (spool : Bool)
    (h : ∀ row ∈ rows, ∀ e, family.parse row ≠ .error e) : (b.tail family spool rows).2 = none := by
  induction rows generalizing b with
  | nil => rfl
  | cons row rows ih =>
    rw [tail]
    cases hparse : family.parse row with
    | error e => exact absurd hparse (h row List.mem_cons_self e)
    | ok event => exact ih _ fun row hmem => h row (List.mem_cons_of_mem _ hmem)

/-- Every event is with the shipper or waiting, and the buffer is never full. -/
structure Buffer.Kept (b : Buffer) : Prop where
  accounted : b.handed ++ b.pending = b.built
  short : b.pending.length < batchMaxEvents

theorem Buffer.flushSlices_spool (answer : Nat → Answer) {n : Nat} {b : Buffer}
    (h : b.pending.length ≤ n) :
    (b.flushSlices true answer n).pending = [] ∧
      (b.flushSlices true answer n).handed = b.handed ++ b.pending := by
  induction n generalizing b with
  | zero =>
    have hnil := List.eq_nil_of_length_eq_zero (Nat.le_zero.mp h)
    rw [flushSlices, hnil, List.append_nil]
    exact ⟨rfl, rfl⟩
  | succ n ih =>
    rw [flushSlices]
    split
    · next hnil => exact ⟨hnil, by rw [hnil, List.append_nil]⟩
    · next hne =>
      rw [if_neg (by simp)]
      have hpos := List.length_pos_of_ne_nil hne
      obtain ⟨hpending, hhanded⟩ := ih (b := { b with
        pending := b.pending.drop (b.pending.take batchMaxEvents).length
        handed := b.handed ++ b.pending.take batchMaxEvents }) (by
          simp only [List.length_drop, List.length_take, batchMaxEvents]
          omega)
      refine ⟨hpending, hhanded.trans ?_⟩
      rw [List.append_assoc, List.length_take]
      congr 1
      rcases Nat.le_total batchMaxEvents b.pending.length with hle | hle
      · rw [Nat.min_eq_left hle, List.take_append_drop]
      · rw [Nat.min_eq_right hle, List.take_of_length_le hle, List.drop_length, List.append_nil]

theorem Buffer.kept_flushList {b : Buffer} (answer : Nat → Answer)
    (h : b.handed ++ b.pending = b.built) : (b.flushList true answer).Kept := by
  obtain ⟨hpending, hhanded⟩ := flushSlices_spool answer (Nat.le_refl b.pending.length)
  refine ⟨?_, ?_⟩
  · rw [built_flushList, ← h]
    unfold flushList
    rw [hpending, hhanded, List.append_nil]
  · unfold flushList
    rw [hpending]
    decide

theorem Buffer.Kept.take {b : Buffer} (h : b.Kept) (event : Option LeaseEvent) :
    (b.take true event).Kept := by
  have hshort := h.short
  have hroom : ¬ batchMaxBuffer ≤ b.pending.length := by
    simp only [batchMaxEvents, batchMaxBuffer] at hshort ⊢
    omega
  unfold Buffer.take
  cases event with
  | none =>
    dsimp only
    rw [if_neg (by omega)]
    exact h
  | some event =>
    have hpush : (b.push event).handed ++ (b.push event).pending = (b.push event).built := by
      simp only [push, if_neg hroom]
      rw [← List.append_assoc, h.accounted]
    dsimp only
    split
    · exact kept_flushList _ hpush
    · next hfull => exact ⟨hpush, by simpa using hfull⟩

theorem Buffer.Kept.tail {b : Buffer} (h : b.Kept) (family : Family) (rows : List (List String)) :
    (b.tail family true rows).1.Kept := by
  induction rows generalizing b with
  | nil => exact h
  | cons row rows ih =>
    rw [Buffer.tail]
    split
    · exact h
    · next event _ => exact ih (h.take event)

open Utf8

/-- A row as Kea writes it: a newline ends it, and no field needs quotes. -/
structure Row where
  fields : List Octets
  two : 2 ≤ fields.length
  plain : ∀ f ∈ fields, 0x2C ∉ f ∧ 0x0A ∉ f ∧ 0x0D ∉ f ∧ f.head? ≠ some 0x22

def Row.octets (r : Row) : Octets := Csv.joined 0x2C 0x0A r.fields

def Row.chars (r : Row) : List (List Char) := r.fields.map decodeReplace

def Row.text (r : Row) : List String := r.chars.map String.ofList

/-- The rows `csv.reader` makes of what was read from the file. -/
def readRows (data : Octets) : Except Csv.ReadError (List (List String)) :=
  (Csv.rows (Text.readText (String.ofList (decodeReplace data))).toList).map fun rows =>
    rows.map fun fields => fields.map String.ofList

/-- A row that neither `csv.reader` nor the parser of its family raises on. -/
structure Row.Readable (family : Family) (r : Row) : Prop where
  short : ∀ f ∈ r.chars, f.length ≤ Csv.fieldLimit
  parses : ∀ e, family.parse r.text ≠ .error e

theorem Row.fields_ne_nil (r : Row) : r.fields ≠ [] := by
  intro h
  have := r.two
  rw [h] at this
  exact absurd this (by decide)

theorem Row.not_mem_chars {r : Row} {f : List Char} (hf : f ∈ r.chars) {c : Char}
    (hc : c = ',' ∨ c = '\n' ∨ c = '\r') : c ∉ f := by
  obtain ⟨data, hdata, rfl⟩ := List.mem_map.mp hf
  obtain ⟨hcomma, hnewline, hreturn, -⟩ := r.plain data hdata
  intro hmem
  rcases hc with rfl | rfl | rfl
  · exact hcomma (mem_of_mem_decodeReplace (c := ',') ⟨by decide, by decide⟩ hmem)
  · exact hnewline (mem_of_mem_decodeReplace (c := '\n') ⟨by decide, by decide⟩ hmem)
  · exact hreturn (mem_of_mem_decodeReplace (c := '\r') ⟨by decide, by decide⟩ hmem)

theorem Row.plainRow {r : Row} (h : ∀ f ∈ r.chars, f.length ≤ Csv.fieldLimit) :
    Csv.PlainRow r.chars := by
  refine ⟨by rw [chars, List.length_map]; exact r.two, fun f hf => ⟨?_, ?_, ?_, h f hf⟩⟩
  · exact not_mem_chars hf (Or.inl rfl)
  · intro c hc
    have hn : c ≠ '\n' := fun hn => not_mem_chars hf (Or.inr (Or.inl rfl)) (hn ▸ hc)
    have hr : c ≠ '\r' := fun hr => not_mem_chars hf (Or.inr (Or.inr rfl)) (hr ▸ hc)
    simp [Csv.isNewline, hn, hr]
  · obtain ⟨data, hdata, rfl⟩ := List.mem_map.mp hf
    intro hquote
    exact (r.plain data hdata).2.2.2
      (head_of_head_decodeReplace (c := '"') ⟨by decide, by decide⟩ hquote)

theorem decodeReplace_rows (rows : List Row) :
    decodeReplace (rows.flatMap Row.octets) =
      (rows.map Row.chars).flatMap (Csv.joined ',' '\n') := by
  induction rows with
  | nil => rfl
  | cons r rows ih =>
    rw [List.flatMap_cons, Row.octets, Csv.decodeReplace_joined (by decide) (by decide) _ _
      r.fields_ne_nil, ih, List.map_cons, List.flatMap_cons]
    rfl

theorem not_mem_lines (rows : List Row) :
    '\r' ∉ (rows.map Row.chars).flatMap (Csv.joined ',' '\n') := by
  intro hmem
  obtain ⟨chars, hchars, hin⟩ := List.mem_flatMap.mp hmem
  obtain ⟨r, -, rfl⟩ := List.mem_map.mp hchars
  obtain ⟨body, hbody, hfrom⟩ := Csv.exists_joined_eq ',' '\n' r.chars
  rw [hbody] at hin
  rcases List.mem_append.mp hin with hin | hin
  · obtain hcomma | ⟨f, hf, hin⟩ := hfrom _ hin
    · exact absurd hcomma (by decide)
    · exact Row.not_mem_chars hf (Or.inr (Or.inr rfl)) hin
  · exact absurd (List.mem_singleton.mp hin) (by decide)

/-- **Whole rows are read back**, each as its own fields. -/
theorem readRows_rows {rows : List Row}
    (h : ∀ r ∈ rows, ∀ f ∈ r.chars, f.length ≤ Csv.fieldLimit) :
    readRows (rows.flatMap Row.octets) = .ok (rows.map Row.text) := by
  have hplain : ∀ fields ∈ rows.map Row.chars, Csv.PlainRow fields := by
    intro fields hfields
    obtain ⟨r, hr, rfl⟩ := List.mem_map.mp hfields
    exact r.plainRow (h r hr)
  rw [readRows, decodeReplace_rows, Text.readText_ofList (not_mem_lines rows),
    String.toList_ofList, Csv.rows_flatMap _ hplain]
  simp [Except.map, Row.text]

/-- A lease file. `torn` is the row Kea is in the middle of and how many of its octets are
visible. `seen` counts the rows that were complete when the tailer last read the file. -/
structure LeaseFile where
  generation : Nat
  rows : List Row
  torn : Option (Row × Nat)
  seen : Nat

def LeaseFile.octets (f : LeaseFile) : Octets :=
  f.rows.flatMap Row.octets ++
    match f.torn with
    | none => []
    | some (r, k) => r.octets.take k

def LeaseFile.size (f : LeaseFile) : Nat := f.octets.length

/-- The octets of the rows that were complete when the tailer last read. -/
def LeaseFile.seenSize (f : LeaseFile) : Nat := ((f.rows.take f.seen).flatMap Row.octets).length

inductive Write where
  | row (r : Row)
  | start (r : Row) (k : Nat)
  | more (k : Nat)
  | rest

def LeaseFile.write (f : LeaseFile) : Write → Option LeaseFile
  | .row r => if f.torn.isNone then some { f with rows := f.rows ++ [r] } else none
  | .start r k =>
    if f.torn.isNone ∧ 0 < k ∧ k < r.octets.length then some { f with torn := some (r, k) } else none
  | .more k =>
    match f.torn with
    | none => none
    | some (r, j) => if j < k ∧ k < r.octets.length then some { f with torn := some (r, k) } else none
  | .rest =>
    match f.torn with
    | none => none
    | some (r, _) => some { f with rows := f.rows ++ [r], torn := none }

/-- Where `_read_new_rows` is. `sized` holds the file's generation beside the local offset,
`opened` the file the tailer has open if it was renamed since. `dead` is a thread an exception
ended. -/
inductive Phase where
  | idle
  | sized (generation offset : Nat)
  | opened (offset : Nat) (renamed : Option LeaseFile)
  | dead

/-- `lastRead` is the generation `offset` was taken from, and `due` every row that was complete
at a read and at no read before it. -/
structure State where
  file : Option LeaseFile
  nextGeneration : Nat
  offset : Nat := 0
  lastRead : Option Nat := none
  phase : Phase := .idle
  buffer : Buffer := {}
  due : List Row := []

inductive Action where
  | kea (w : Write)
  | rename
  | create
  | stat
  | open
  | read
  | flush (answer : Nat → Answer)

section Step

variable (family : Family) (spool : Bool)

/-- Cleanup renames the file away between two rows: whoever has it open keeps it. -/
def State.rename (s : State) : Option State :=
  match s.file with
  | none => none
  | some f =>
    if f.torn.isNone then
      let phase := match s.phase with
        | .opened offset none => .opened offset (some f)
        | phase => phase
      some { s with file := none, phase := phase }
    else none

def State.create (s : State) : Option State :=
  match s.file with
  | some _ => none
  | none => some { s with
      file := some { generation := s.nextGeneration, rows := [], torn := none, seen := 0 }
      nextGeneration := s.nextGeneration + 1 }

/-- `path.exists()`, `path.stat()` and what is decided on the size. -/
def State.stat (s : State) : Option State :=
  match s.phase, s.file with
  | .idle, none => some s
  | .idle, some f =>
    -- rotated / truncated by Kea LFC
    let offset := if f.size < s.offset then 0 else s.offset
    if f.size = offset then some { s with offset := offset }
    else some { s with phase := .sized f.generation offset }
  | _, _ => none

/-- `path.open()`: nothing catches its exception. -/
def State.open (s : State) : Option State :=
  match s.phase, s.file with
  | .sized _ _, none => some { s with phase := .dead }
  | .sized _ offset, some _ => some { s with phase := .opened offset none }
  | _, _ => none

/-- `f.seek`, `f.read`, `f.tell`, and `_tail` over the rows. -/
def State.readFrom (s : State) (f : LeaseFile) (offset : Nat) : State :=
  let data := f.octets.drop offset
  let s := { s with
    offset := offset + data.length
    lastRead := some f.generation
    due := s.due ++ f.rows.drop f.seen }
  match readRows data with
  | .error _ => { s with phase := .dead }
  | .ok rows =>
    let (buffer, raised) := s.buffer.tail family spool rows
    { s with buffer := buffer, phase := if raised.isSome then .dead else .idle }

def State.read (s : State) : Option State :=
  match s.phase, s.file with
  | .opened offset (some renamed), _ => some (s.readFrom family spool renamed offset)
  | .opened offset none, some f =>
    let s := s.readFrom family spool f offset
    some { s with file := some { f with seen := f.rows.length } }
  | _, _ => none

def State.step (s : State) : Action → Option State
  | .kea w => (s.file.bind fun f => f.write w).map fun f => { s with file := some f }
  | .rename => s.rename
  | .create => s.create
  | .stat => s.stat
  | .open => s.open
  | .read => s.read family spool
  | .flush answer => some { s with buffer := s.buffer.flushList spool answer }

def State.run (s : State) : List Action → Option State
  | [] => some s
  | a :: actions => (s.step family spool a).bind fun s => s.run actions

end Step

/-- The tailer starts: it has read nothing, over whatever file is there. -/
structure State.Started (family : Family) (s : State) : Prop where
  offset : s.offset = 0
  lastRead : s.lastRead = none
  phase : s.phase = .idle
  buffer : s.buffer = {}
  due : s.due = []
  file : ∀ f, s.file = some f → f.seen = 0 ∧ f.generation < s.nextGeneration ∧
    (∀ r ∈ f.rows, r.Readable family) ∧ ∀ t ∈ f.torn, t.1.Readable family

/-- Every due row has given its event, in order, and there is no other event. -/
def State.Tailed (family : Family) (s : State) : Prop :=
  s.buffer.built = s.due.filterMap fun r => family.event r.text

end SpatiumDdi.Dhcp
