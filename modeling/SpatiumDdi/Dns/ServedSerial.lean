import Mathlib.Data.Finset.Basic
import SpatiumDdi.Lib.SerialOrder

/-!
The serial a rendered zone is served under.

The staged file carries the control plane's serial. Named may have moved past it, so before the tree is
swapped the agent settles the serial against the one named served: on a running named once the zone is
frozen and written out, at a start from the copy the last tree left. A secondary transfers the zone only
under a later serial, so the settled serial has to move exactly when the records do.

The records of a zone are read with the serial of the SOA left out; both readers of a file, the one
after a freeze and the one at a start, give the same records of it.
-/

namespace SpatiumDdi.Dns.ServedSerial

open SerialOrder

universe u

variable {ρ : Type u}

abbrev SerialLater (new old : Nat) : Prop := Later (2 ^ 31) new old

/-- A zone file: what `_soa_serial` reads of it, its records if it can be read, and whether it carries
the SOA line the renderer writes. -/
structure ZoneFile (ρ : Type u) where
  serial : Option Nat
  records : Option (Finset ρ)
  renderedSoa : Bool

def setRenderedSerial (file : ZoneFile ρ) (serial : Nat) : ZoneFile ρ :=
  if file.renderedSoa then { file with serial := some serial } else file

def sameZoneData [DecidableEq ρ] (staged dumped : ZoneFile ρ) : Bool :=
  staged.records.isSome && staged.records == dumped.records

/-- `(serving + 1) % 2**32 or 1`. -/
def serialPast (serving : Nat) : Nat :=
  if (serving + 1) % 2 ^ 32 = 0 then 1 else (serving + 1) % 2 ^ 32

/-- What `_freeze_and_wait` does to the staged file of one frozen zone. `serving` is the serial of
`rndc zonestatus`, `polls` the serials read from the live file until the deadline. -/
def freezeAndWait [DecidableEq ρ] (serving : Option Nat) (polls : List (Option Nat))
    (staged live : ZoneFile ρ) : ZoneFile ρ :=
  match serving, staged.serial with
  | some serving, some serial =>
    if SerialLater serial serving then staged
    else
      let pending := some serving ∉ polls
      let same := !pending && sameZoneData staged live
      if same ∧ serial = serving then staged
      else if same then setRenderedSerial staged serving
      else setRenderedSerial staged (serialPast serving)
  | _, _ => staged

structure NamedZoneState (ρ : Type u) where
  serial : Option Nat
  records : Finset ρ

/-- The copy of a zone the last tree left: the serial in its file, whether it has a journal, the file
with the journal applied if that can be read, and the serial of its signed copy if it has one. -/
structure LiveCopy (ρ : Type u) where
  fileSerial : Option Nat
  journal : Bool
  state : Option (NamedZoneState ρ)
  signed : Option (Option Nat)

/-- The serial named last served, as `_settle_serial` reads it. -/
def LiveCopy.served (live : LiveCopy ρ) : Option Nat :=
  let served := if live.journal then live.state.bind (·.serial) else live.fileSerial
  match served, live.signed with
  | some served, some (some signed) => if SerialLater signed served then some signed else some served
  | served, _ => served

def settleSerial [DecidableEq ρ] (staged : ZoneFile ρ) (live : LiveCopy ρ) : ZoneFile ρ :=
  match live.served with
  | none => staged
  | some served =>
    match staged.serial with
    | some rendered =>
      if SerialLater rendered served then staged
      -- the records are not read back here
      else if rendered = served then staged
      else settle served
    | none => settle served
where
  settle (served : Nat) : ZoneFile ρ :=
    let same := live.state.isSome && staged.records == live.state.map (·.records)
    setRenderedSerial staged (if same then served else serialPast served)

/-- The settled serial `m`, the served one being `n` and the render's `r`, moves with the records and
never back. -/
structure MovesWithData (n r m : Nat) (served staged : Finset ρ) : Prop where
  forward : m = n ∨ SerialLater m n
  moved : m = n → staged = served
  kept : staged = served → ¬ SerialLater r n → m = n

theorem serialPast_later (n : Nat) : SerialLater (serialPast n) n := by
  have hone : SerialLater _ n := later_add n 1 (by decide) (by decide)
  rw [serialPast]
  split
  · -- the last serial: the next one is skipped
    rename_i hzero
    have htwo : SerialLater _ n := later_add n 2 (by decide) (by decide)
    have hwrap : (n + 2) % (2 * 2 ^ 31) = 1 := by omega
    rwa [hwrap] at htwo
  · exact hone

variable {n r : Nat} {served staged : Finset ρ}

theorem movesWithData_later {m : Nat} (h : SerialLater m n) : MovesWithData n m m served staged :=
  ⟨.inr h, fun hm => absurd hm h.ne, fun _ hnot => absurd h hnot⟩

theorem movesWithData_past (n r : Nat) (hne : staged ≠ served) :
    MovesWithData n r (serialPast n) served staged := by
  have hlater := serialPast_later n
  exact ⟨.inr hlater, fun hm => absurd hm hlater.ne, fun hsame => absurd hsame hne⟩

theorem movesWithData_kept (n r : Nat) (served : Finset ρ) : MovesWithData n r n served served :=
  ⟨.inl rfl, fun _ => rfl, fun _ _ => rfl⟩

/-- A staged file as the renderer and the carrying of records leave it. -/
def stagedFile (r : Nat) (records : Finset ρ) : ZoneFile ρ := ⟨some r, some records, true⟩

@[simp] theorem stagedFile_serial (r : Nat) (records : Finset ρ) :
    (stagedFile r records).serial = some r := rfl

@[simp] theorem stagedFile_records (r : Nat) (records : Finset ρ) :
    (stagedFile r records).records = some records := rfl

@[simp] theorem setRenderedSerial_stagedFile (r m : Nat) (records : Finset ρ) :
    setRenderedSerial (stagedFile r records) m = stagedFile m records := rfl

variable [DecidableEq ρ]

/-- The live file of a frozen zone: once it carries the serial named serves, named has written out the
records it serves. -/
def WrittenOut (n : Nat) (served : Finset ρ) (polls : List (Option Nat)) (live : ZoneFile ρ) : Prop :=
  some n ∈ polls → live.records = some served

variable {live : ZoneFile ρ}

theorem sameZoneData_iff (hlive : live.records = some served) :
    sameZoneData (stagedFile r staged) live = true ↔ staged = served := by
  simp [sameZoneData, hlive]

theorem freezeAndWait_stagedFile (r : Nat) (staged : Finset ρ) {polls : List (Option Nat)}
    (hlive : WrittenOut n served polls live) :
    ∃ m, freezeAndWait (some n) polls (stagedFile r staged) live = stagedFile m staged ∧
      (m = n ∨ SerialLater m n) ∧ (m = n → staged = served) ∧
      (some n ∈ polls → MovesWithData n r m served staged) := by
  simp only [freezeAndWait, stagedFile_serial, setRenderedSerial_stagedFile]
  by_cases hlater : SerialLater r n
  · have hmoves : MovesWithData n r r served staged := movesWithData_later hlater
    rw [if_pos hlater]
    exact ⟨r, rfl, hmoves.forward, hmoves.moved, fun _ => hmoves⟩
  · rw [if_neg hlater]
    by_cases hpolls : some n ∈ polls
    · have hsame : sameZoneData (stagedFile r staged) live = true ↔ staged = served :=
        sameZoneData_iff (hlive hpolls)
      by_cases heq : staged = served
      · subst heq
        have hmoves := movesWithData_kept n r staged
        by_cases hr : r = n
        · subst hr
          rw [if_pos (by simp [hpolls, hsame])]
          exact ⟨r, rfl, hmoves.forward, hmoves.moved, fun _ => hmoves⟩
        · rw [if_neg (by simp [hr]), if_pos (by simp [hpolls, hsame])]
          exact ⟨n, rfl, hmoves.forward, hmoves.moved, fun _ => hmoves⟩
      · have hmoves := movesWithData_past n r heq
        rw [if_neg (by simp [hsame, heq]), if_neg (by simp [hsame, heq])]
        exact ⟨_, rfl, hmoves.forward, hmoves.moved, fun _ => hmoves⟩
    · have hpast := serialPast_later n
      rw [if_neg (by simp [hpolls]), if_neg (by simp [hpolls])]
      exact ⟨_, rfl, .inr hpast, fun hm => absurd hm hpast.ne,
        fun h => absurd h hpolls⟩

/-- A zone that is not signed inline, whose last serial and records can be read. -/
structure LiveCopy.Holds (live : LiveCopy ρ) (n : Nat) (served : Finset ρ) : Prop where
  unsigned : live.signed = none
  serial : live.served = some n
  records : live.state.map (·.records) = some served

theorem settleSerial_later (staged : Finset ρ) {live : LiveCopy ρ} (hlive : live.Holds n served)
    (hlater : SerialLater r n) : settleSerial (stagedFile r staged) live = stagedFile r staged := by
  simp only [settleSerial, hlive.serial, stagedFile_serial, if_pos hlater]

theorem settleSerial_equal (staged : Finset ρ) {live : LiveCopy ρ} (hlive : live.Holds n served) :
    settleSerial (stagedFile n staged) live = stagedFile n staged := by
  simp only [settleSerial, hlive.serial, stagedFile_serial, if_true, ite_self]

theorem settleSerial_behind (staged : Finset ρ) {live : LiveCopy ρ} (hlive : live.Holds n served)
    (hlater : ¬ SerialLater r n) (hne : r ≠ n) :
    settleSerial (stagedFile r staged) live =
      stagedFile (if staged = served then n else serialPast n) staged := by
  have hsome : live.state.isSome := by
    have hmap := congrArg Option.isSome hlive.records
    simpa using hmap
  simp only [settleSerial, hlive.serial, stagedFile_serial, if_neg hlater, if_neg hne,
    settleSerial.settle, stagedFile_records, hlive.records, hsome, setRenderedSerial_stagedFile]
  congr 1
  simp

theorem settleSerial_stagedFile (r : Nat) (staged : Finset ρ) {live : LiveCopy ρ}
    (hlive : live.Holds n served) :
    ∃ m, settleSerial (stagedFile r staged) live = stagedFile m staged ∧
      (m = n ∨ SerialLater m n) ∧ (r = n → m = n) ∧
      (MovesWithData n r m served staged ↔ (r = n → staged = served)) := by
  by_cases hlater : SerialLater r n
  · have hmoves : MovesWithData n r r served staged := movesWithData_later hlater
    exact ⟨r, settleSerial_later staged hlive hlater, hmoves.forward, id,
      iff_of_true hmoves fun hr => absurd hr hlater.ne⟩
  · by_cases hr : r = n
    · subst hr
      refine ⟨r, settleSerial_equal staged hlive, .inl rfl, id, ?_⟩
      exact ⟨fun hmoves _ => hmoves.moved rfl, fun h => ⟨.inl rfl, fun _ => h rfl, fun _ _ => rfl⟩⟩
    · have hsettled := settleSerial_behind staged hlive hlater hr
      by_cases heq : staged = served
      · subst heq
        have hmoves := movesWithData_kept n r staged
        rw [if_pos rfl] at hsettled
        exact ⟨n, hsettled, hmoves.forward, fun _ => rfl, iff_of_true hmoves fun h => absurd h hr⟩
      · have hmoves := movesWithData_past n r heq
        rw [if_neg heq] at hsettled
        exact ⟨_, hsettled, hmoves.forward, fun h => absurd h hr,
          iff_of_true hmoves fun h => absurd h hr⟩

end SpatiumDdi.Dns.ServedSerial

/-!
A zone and its secondary over a run of updates, applies and restarts.

The secondary looks at the zone after every move and transfers it when the serial is later than its own.
-/

namespace SpatiumDdi.Dns.ServedSerial

open SerialOrder Runs

universe u

variable {ρ : Type u} [DecidableEq ρ]

structure System (ρ : Type u) where
  named : Copy Nat (Finset ρ)
  secondary : Copy Nat (Finset ρ)

/-- What moves a zone: an update named takes (a record op, an RFC 2136 client), an apply on a running
named that froze the zone, and a start. The last two come with the render's serial, the staged records,
carried ones included, and what the agent reads of named's copy. -/
inductive Event (ρ : Type u) where
  | update (copy : Copy Nat (Finset ρ))
  | apply (rendered : Nat) (staged : Finset ρ) (polls : List (Option Nat)) (live : ZoneFile ρ)
  | start (rendered : Nat) (staged : Finset ρ) (live : LiveCopy ρ)

def ZoneFile.copy (file : ZoneFile ρ) : Option (Copy Nat (Finset ρ)) :=
  match file.serial, file.records with
  | some serial, some records => some ⟨serial, records⟩
  | _, _ => none

omit [DecidableEq ρ] in
@[simp] theorem copy_stagedFile (m : Nat) (records : Finset ρ) :
    (stagedFile m records).copy = some ⟨m, records⟩ := rfl

def System.serve (s : System ρ) (copy : Copy Nat (Finset ρ)) : System ρ :=
  ⟨copy, follow SerialLater copy s.secondary⟩

instance (n : Nat) (served : Finset ρ) (polls : List (Option Nat)) (live : ZoneFile ρ) :
    Decidable (WrittenOut n served polls live) :=
  inferInstanceAs (Decidable (_ → _))

instance (live : LiveCopy ρ) (n : Nat) (served : Finset ρ) : Decidable (live.Holds n served) :=
  decidable_of_iff
    (live.signed = none ∧ live.served = some n ∧ live.state.map (·.records) = some served)
    ⟨fun h => ⟨h.1, h.2.1, h.2.2⟩, fun h => ⟨h.unsigned, h.serial, h.records⟩⟩

def step (s : System ρ) : Event ρ → Option (System ρ)
  | .update copy =>
    -- named numbers every change past the serial it served
    if copy = s.named ∨ SerialLater copy.version s.named.version then some (s.serve copy) else none
  | .apply rendered staged polls live =>
    if WrittenOut s.named.version s.named.data polls live then
      (freezeAndWait (some s.named.version) polls (stagedFile rendered staged) live).copy.map s.serve
    else none
  | .start rendered staged live =>
    if live.Holds s.named.version s.named.data then
      (settleSerial (stagedFile rendered staged) live).copy.map s.serve
    else none

/-- A start whose render carries the served serial brings the served records. -/
def StartsAlike (s : System ρ) : Event ρ → Prop
  | .start rendered staged _ => rendered = s.named.version → staged = s.named.data
  | _ => True

def SameVersion (s : System ρ) : Prop := s.secondary.version = s.named.version

def InStep (s : System ρ) : Prop := s.secondary.data = s.named.data

instance (s : System ρ) : Decidable (InStep s) := inferInstanceAs (Decidable (_ = _))

omit [DecidableEq ρ] in
variable {s : System ρ}

theorem serve_inStep {copy : Copy Nat (Finset ρ)} {C : Prop} (hversion : SameVersion s)
    (hdata : InStep s)
    (hmove : copy.version = s.named.version ∨ SerialLater copy.version s.named.version)
    (hC : (copy.version = s.named.version → copy.data = s.named.data) ↔ C) :
    SameVersion (s.serve copy) ∧ (InStep (s.serve copy) ↔ C) := by
  have hirrefl : ∀ n, ¬ SerialLater n n := not_later_self _
  have hsame : s.secondary = s.named := Copy.ext hversion hdata
  exact ⟨follow_version hirrefl hversion hmove, (follow_data hirrefl hsame hmove).trans hC⟩

theorem step_inStep {s' : System ρ} {e : Event ρ} (hversion : SameVersion s) (hdata : InStep s)
    (hstep : step s e = some s') : SameVersion s' ∧ (InStep s' ↔ StartsAlike s e) := by
  cases e with
  | update copy =>
    obtain ⟨hcopy, rfl⟩ : (copy = s.named ∨ SerialLater copy.version s.named.version) ∧
        s.serve copy = s' := by simpa [step] using hstep
    refine serve_inStep hversion hdata ?_ (iff_true_intro fun hsame => ?_)
    · exact hcopy.imp_left (congrArg Copy.version)
    · rcases hcopy with rfl | hlater
      · rfl
      · exact absurd hsame hlater.ne
  | apply rendered staged polls live =>
    obtain ⟨hlive, hstep⟩ := Option.ite_none_right_eq_some.mp hstep
    obtain ⟨m, hsettled, hforward, hmoved, _⟩ := freezeAndWait_stagedFile rendered staged hlive
    rw [hsettled, copy_stagedFile, Option.map_some, Option.some.injEq] at hstep
    subst hstep
    exact serve_inStep hversion hdata hforward (iff_true_intro hmoved)
  | start rendered staged live =>
    obtain ⟨hlive, hstep⟩ := Option.ite_none_right_eq_some.mp hstep
    obtain ⟨m, hsettled, hforward, hequal, hmoves⟩ :=
      settleSerial_stagedFile rendered staged hlive
    rw [hsettled, copy_stagedFile, Option.map_some, Option.some.injEq] at hstep
    subst hstep
    refine serve_inStep hversion hdata hforward ⟨fun h hr => h (hequal hr), fun h => ?_⟩
    exact (hmoves.mpr h).moved

theorem inStep_iff_startsAlike (hs : s.secondary = s.named) (es : List (Event ρ)) :
    Along step InStep s es ↔ Meets step StartsAlike s es :=
  along_iff_meets step_inStep (congrArg Copy.version hs) (congrArg Copy.data hs)

/-- On a running named the settled serial moves with the records and never back, as far as the agent can
read the frozen copy. At a start it does exactly when the render does not bring other records under the
served serial, and so a secondary is in step with the zone in exactly the runs without such a start. -/
theorem settled_serial_moves_with_data_iff :
    (∀ (n r : Nat) (served staged : Finset ρ) (polls : List (Option Nat)) (live : ZoneFile ρ),
      WrittenOut n served polls live →
      ∃ m, freezeAndWait (some n) polls (stagedFile r staged) live = stagedFile m staged ∧
        (m = n ∨ SerialLater m n) ∧ (m = n → staged = served) ∧
        (some n ∈ polls → MovesWithData n r m served staged)) ∧
    (∀ (n r : Nat) (served staged : Finset ρ) (live : LiveCopy ρ), live.Holds n served →
      ∃ m, settleSerial (stagedFile r staged) live = stagedFile m staged ∧
        (MovesWithData n r m served staged ↔ (r = n → staged = served))) ∧
    (∀ (s : System ρ) (es : List (Event ρ)), s.secondary = s.named →
      (Along step InStep s es ↔ Meets step StartsAlike s es)) := by
  refine ⟨?_, ?_, ?_⟩
  · intro n r served staged polls live hlive
    exact freezeAndWait_stagedFile r staged hlive
  · intro n r served staged live hlive
    obtain ⟨m, hsettled, _, _, hmoves⟩ := settleSerial_stagedFile r staged hlive
    exact ⟨m, hsettled, hmoves⟩
  · intro s es hs
    exact inStep_iff_startsAlike hs es

theorem settled_serial_moves_with_data_iff_behind :
    ∃ m, settleSerial (stagedFile 4 {"a", "b"}) ⟨some 5, true, some ⟨some 7, {"a"}⟩, none⟩ =
        stagedFile m {"a", "b"} ∧
      (MovesWithData 7 4 m {"a"} {"a", "b"} ↔ (4 = 7 → ({"a", "b"} : Finset String) = {"a"})) :=
  settled_serial_moves_with_data_iff.2.1 7 4 {"a"} {"a", "b"} _ ⟨rfl, rfl, rfl⟩

/-- A client's update and a change of the control plane have each moved the serial to 5; the restart
serves the other records under it, and the secondary keeps what it had. -/
theorem settled_serial_stale :
    settleSerial (stagedFile 5 {"a", "b", "c"}) ⟨some 4, true, some ⟨some 5, {"a", "b"}⟩, none⟩ =
        stagedFile 5 {"a", "b", "c"} ∧
      ¬ MovesWithData 5 5 5 {"a", "b"} ({"a", "b", "c"} : Finset String) ∧
      ¬ Along step InStep (⟨⟨4, {"a"}⟩, ⟨4, {"a"}⟩⟩ : System String)
        [.update ⟨5, {"a", "b"}⟩,
          .start 5 {"a", "b", "c"} ⟨some 4, true, some ⟨some 5, {"a", "b"}⟩, none⟩] := by
  refine ⟨rfl, fun h => absurd (h.moved rfl) (by decide), fun h => ?_⟩
  have hend := ((h.2 _ rfl).2 _ rfl).start
  exact absurd hend (by decide +kernel)

end SpatiumDdi.Dns.ServedSerial
