import Mathlib.Logic.Relation
import SpatiumDdi.Dhcp.Leases

/-!
What the tailer needs of a run to lose and corrupt no row: every read finds the file at the end
of a row, and starts where the tailer stopped in that very file.
-/

namespace SpatiumDdi.Dhcp

open Utf8

def Write.begun : Write → Option Row
  | .row r => some r
  | .start r _ => some r
  | _ => none

def State.reading (s : State) : Option LeaseFile :=
  match s.phase with
  | .opened _ (some renamed) => some renamed
  | .opened _ none => s.file
  | _ => none

/-- What a step must find. A row begun is readable. When the size is looked at, the file is the
one last read, or it is shorter than the old offset, or there is no old offset. When the file is
opened it is the one looked at, or it is read from its start. When it is read, no row is torn. -/
def State.Settled (family : Family) (s : State) : Action → Prop
  | .kea w => ∀ r, w.begun = some r → r.Readable family
  | .stat => ∀ f, s.file = some f →
      s.lastRead = some f.generation ∨ f.size < s.offset ∨ s.offset = 0
  | .open => ∀ f g offset, s.file = some f → s.phase = .sized g offset →
      f.generation = g ∨ offset = 0
  | .read => ∀ f, s.reading = some f → f.torn = none
  | _ => True

structure LeaseFile.Sound (family : Family) (f : LeaseFile) : Prop where
  seen : f.seen ≤ f.rows.length
  rows : ∀ r ∈ f.rows, r.Readable family
  torn : ∀ r k, f.torn = some (r, k) → r.Readable family

/-- The offset is that of the rows seen, in the file it was taken from; every other file has not
been read. -/
structure State.Inv (family : Family) (s : State) : Prop where
  tailed : s.Tailed family
  sound : ∀ f, s.file = some f → f.Sound family
  fresh : ∀ f, s.file = some f → f.generation < s.nextGeneration
  old : ∀ g, s.lastRead = some g → g < s.nextGeneration
  same : ∀ f, s.file = some f → s.lastRead = some f.generation → s.offset = f.seenSize
  other : ∀ f, s.file = some f → s.lastRead ≠ some f.generation → f.seen = 0
  sized : ∀ g offset, s.phase = .sized g offset → g < s.nextGeneration ∧
    ∀ f, s.file = some f → (f.generation = g → offset = f.seenSize) ∧ (f.generation ≠ g → f.seen = 0)
  opened : ∀ offset, s.phase = .opened offset none → ∃ f, s.file = some f ∧ offset = f.seenSize
  renamed : ∀ offset f, s.phase = .opened offset (some f) → f.Sound family ∧
    f.generation < s.nextGeneration ∧ offset = f.seenSize ∧
    ∀ f', s.file = some f' → f'.generation ≠ f.generation ∧ f'.seen = 0

variable {family : Family}

theorem LeaseFile.write_cases {f f' : LeaseFile} {w : Write} (hw : f.write w = some f')
    (hf : f.Sound family) (hr : ∀ r, w.begun = some r → r.Readable family) :
    f'.generation = f.generation ∧ f'.seen = f.seen ∧ f'.seenSize = f.seenSize ∧
      f'.Sound family := by
  have happend : ∀ r : Row, ((f.rows ++ [r]).take f.seen) = f.rows.take f.seen := fun r =>
    List.take_append_of_le_length hf.seen
  have hseen : ∀ r : Row, f.seen ≤ (f.rows ++ [r]).length := fun r => by
    rw [List.length_append]
    exact Nat.le_add_right_of_le hf.seen
  have hrows : ∀ r : Row, r.Readable family → ∀ r' ∈ f.rows ++ [r], r'.Readable family := by
    intro r hr r' hmem
    rcases List.mem_append.mp hmem with hmem | hmem
    · exact hf.rows r' hmem
    · exact List.mem_singleton.mp hmem ▸ hr
  cases w with
  | row r =>
    obtain ⟨-, hw⟩ := Option.ite_none_right_eq_some.mp hw
    next hnone =>
    obtain rfl := Option.some.inj hw
    exact ⟨rfl, rfl, by simp only [seenSize, happend], hseen r, hrows r (hr r rfl), hf.torn⟩
  | start r k =>
    obtain ⟨-, hw⟩ := Option.ite_none_right_eq_some.mp hw
    obtain rfl := Option.some.inj hw
    refine ⟨rfl, rfl, rfl, hf.seen, hf.rows, ?_⟩
    intro r' k' htorn
    cases htorn
    exact hr r rfl
  | more k =>
    simp only [write] at hw
    split at hw
    · cases hw
    · next r j htorn =>
      split at hw
      · obtain rfl := Option.some.inj hw
        refine ⟨rfl, rfl, rfl, hf.seen, hf.rows, ?_⟩
        intro r' k' htorn'
        cases htorn'
        exact hf.torn r j htorn
      · cases hw
  | rest =>
    simp only [write] at hw
    split at hw
    · cases hw
    · next r k htorn =>
      obtain rfl := Option.some.inj hw
      refine ⟨rfl, rfl, by simp only [seenSize, happend], hseen r,
        hrows r (hf.torn r k htorn), ?_⟩
      intro r' k' htorn'
      cases htorn'

section Steps

variable {family : Family} {spool : Bool} {s s' : State}

theorem State.Inv.kea (h : s.Inv family) {w : Write}
    (hr : ∀ r, w.begun = some r → r.Readable family)
    (hs : s.step family spool (.kea w) = some s') : s'.Inv family := by
  simp only [step] at hs
  obtain ⟨f', hf', rfl⟩ := Option.map_eq_some_iff.mp hs
  obtain ⟨f, hf, hw⟩ := Option.bind_eq_some_iff.mp hf'
  obtain ⟨hgen, hseen, hsize, hsound⟩ := LeaseFile.write_cases hw (h.sound f hf) hr
  constructor
  · exact h.tailed
  · intro f'' hf''
    cases hf''
    exact hsound
  · intro f'' hf''
    cases hf''
    exact hgen ▸ h.fresh f hf
  · exact h.old
  · intro f'' hf'' hlast
    cases hf''
    exact (h.same f hf (hgen ▸ hlast)).trans hsize.symm
  · intro f'' hf'' hlast
    cases hf''
    exact hseen.trans (h.other f hf (hgen ▸ hlast))
  · intro g offset hphase
    obtain ⟨hg, hsized⟩ := h.sized g offset hphase
    refine ⟨hg, ?_⟩
    intro f'' hf''
    cases hf''
    obtain ⟨hsame, hother⟩ := hsized f hf
    exact ⟨fun heq => (hsame (hgen ▸ heq)).trans hsize.symm,
      fun hne => hseen.trans (hother (hgen ▸ hne))⟩
  · intro offset hphase
    obtain ⟨f'', hf'', hoffset⟩ := h.opened offset hphase
    cases hf.symm.trans hf''
    exact ⟨f', rfl, hoffset.trans hsize.symm⟩
  · intro offset fr hphase
    obtain ⟨hfr, hlt, hoffset, hcurrent⟩ := h.renamed offset fr hphase
    refine ⟨hfr, hlt, hoffset, ?_⟩
    intro f'' hf''
    cases hf''
    rw [hgen, hseen]
    exact hcurrent f hf

theorem State.Inv.rename (h : s.Inv family) (hs : s.rename = some s') : s'.Inv family := by
  unfold State.rename at hs
  split at hs
  · cases hs
  · next f hf =>
    obtain ⟨-, hs⟩ := Option.ite_none_right_eq_some.mp hs
    obtain rfl := Option.some.inj hs
    constructor
    · exact h.tailed
    · exact nofun
    · exact nofun
    · exact h.old
    · exact nofun
    · exact nofun
    · intro g offset hphase
      dsimp only at hphase
      split at hphase
      · cases hphase
      · exact ⟨(h.sized g offset hphase).1, nofun⟩
    · intro offset hphase
      dsimp only at hphase
      split at hphase
      · cases hphase
      · next hne => exact absurd hphase (hne offset)
    · intro offset fr hphase
      dsimp only at hphase
      split at hphase
      · next offset' hopened =>
        obtain ⟨f'', hf'', hoffset⟩ := h.opened offset' hopened
        cases hf.symm.trans hf''
        cases hphase
        exact ⟨h.sound f hf, h.fresh f hf, hoffset, nofun⟩
      · obtain ⟨hfr, hlt, hoffset, -⟩ := h.renamed offset fr hphase
        exact ⟨hfr, hlt, hoffset, nofun⟩

theorem State.Inv.create (h : s.Inv family) (hs : s.create = some s') : s'.Inv family := by
  unfold State.create at hs
  split at hs
  · cases hs
  · next hnone =>
    obtain rfl := Option.some.inj hs
    constructor
    · exact h.tailed
    · intro f hf
      cases hf
      exact ⟨Nat.le_refl 0, nofun, nofun⟩
    · intro f hf
      cases hf
      exact Nat.lt_succ_self _
    · intro g hg
      exact Nat.lt_succ_of_lt (h.old g hg)
    · intro f hf hlast
      cases hf
      exact absurd (h.old _ hlast) (Nat.lt_irrefl _)
    · intro f hf _
      cases hf
      rfl
    · intro g offset hphase
      obtain ⟨hg, -⟩ := h.sized g offset hphase
      refine ⟨Nat.lt_succ_of_lt hg, ?_⟩
      intro f hf
      cases hf
      exact ⟨fun heq => absurd (heq ▸ hg) (Nat.lt_irrefl _), fun _ => rfl⟩
    · intro offset hphase
      obtain ⟨f, hf, -⟩ := h.opened offset hphase
      cases hnone.symm.trans hf
    · intro offset fr hphase
      obtain ⟨hfr, hlt, hoffset, -⟩ := h.renamed offset fr hphase
      refine ⟨hfr, Nat.lt_succ_of_lt hlt, hoffset, ?_⟩
      intro f hf
      cases hf
      exact ⟨fun heq => absurd (heq ▸ hlt) (Nat.lt_irrefl _), rfl⟩

variable (f : LeaseFile)

theorem LeaseFile.seenSize_le : f.seenSize ≤ f.size := by
  have hrows : f.rows.flatMap Row.octets =
      (f.rows.take f.seen).flatMap Row.octets ++ (f.rows.drop f.seen).flatMap Row.octets := by
    rw [← List.flatMap_append, List.take_append_drop]
  rw [size, octets, hrows, seenSize, List.append_assoc, List.length_append]
  exact Nat.le_add_right _ _

theorem LeaseFile.seenSize_of_seen {f : LeaseFile} (h : f.seen = 0) : f.seenSize = 0 := by
  rw [seenSize, h]
  rfl

theorem State.Inv.offset_eq (h : s.Inv family) (hset : s.Settled family .stat) {f : LeaseFile}
    (hf : s.file = some f) :
    (if f.size < s.offset then 0 else s.offset) = f.seenSize := by
  by_cases hlast : s.lastRead = some f.generation
  · have hoffset := h.same f hf hlast
    have hle := f.seenSize_le
    rw [if_neg (by omega), hoffset]
  · have hzero := f.seenSize_of_seen (h.other f hf hlast)
    rw [hzero]
    rcases hset f hf with hsame | hshort | hnone
    · exact absurd hsame hlast
    · rw [if_pos hshort]
    · rw [hnone, ite_self]

theorem State.Inv.stat (h : s.Inv family) (hset : s.Settled family .stat)
    (hs : s.stat = some s') : s'.Inv family := by
  unfold State.stat at hs
  split at hs
  · obtain rfl := Option.some.inj hs
    exact h
  · next f hidle hf =>
    have hoffset := h.offset_eq hset hf
    dsimp only at hs
    rw [hoffset] at hs
    split at hs
    · obtain rfl := Option.some.inj hs
      refine ⟨h.tailed, h.sound, h.fresh, h.old, ?_, h.other, h.sized, h.opened, h.renamed⟩
      intro f' hf' _
      cases hf.symm.trans hf'
      rfl
    · obtain rfl := Option.some.inj hs
      refine ⟨h.tailed, h.sound, h.fresh, h.old, h.same, h.other, ?_, ?_, ?_⟩
      · intro g offset hphase
        cases hphase
        refine ⟨h.fresh f hf, ?_⟩
        intro f' hf'
        cases hf.symm.trans hf'
        exact ⟨fun _ => rfl, fun hne => absurd rfl hne⟩
      · exact nofun
      · exact nofun
  · cases hs

theorem State.Inv.open (h : s.Inv family) (hset : s.Settled family .open)
    (hs : s.open = some s') : s'.Inv family := by
  unfold State.open at hs
  split at hs
  · obtain rfl := Option.some.inj hs
    exact ⟨h.tailed, h.sound, h.fresh, h.old, h.same, h.other, nofun, nofun, nofun⟩
  · next g offset f hphase hf =>
    obtain rfl := Option.some.inj hs
    refine ⟨h.tailed, h.sound, h.fresh, h.old, h.same, h.other, nofun, ?_, nofun⟩
    intro offset' hopened
    cases hopened
    refine ⟨f, hf, ?_⟩
    obtain ⟨hsame, hother⟩ := (h.sized g offset hphase).2 f hf
    by_cases hgen : f.generation = g
    · exact hsame hgen
    · rcases hset f g offset hf hphase with heq | hzero
      · exact absurd heq hgen
      · rw [hzero, f.seenSize_of_seen (hother hgen)]
  · cases hs

theorem LeaseFile.octets_drop_seenSize {f : LeaseFile} (h : f.torn = none) :
    f.octets.drop f.seenSize = (f.rows.drop f.seen).flatMap Row.octets := by
  have hrows : f.octets =
      (f.rows.take f.seen).flatMap Row.octets ++ (f.rows.drop f.seen).flatMap Row.octets := by
    rw [octets, h, List.append_nil, ← List.flatMap_append, List.take_append_drop]
  rw [hrows, seenSize, List.drop_left]

theorem LeaseFile.size_of_seen {f : LeaseFile} (h : f.torn = none) :
    f.size = ({ f with seen := f.rows.length } : LeaseFile).seenSize := by
  rw [size, octets, h, List.append_nil, seenSize, List.take_length]

theorem State.readFrom_settled {f : LeaseFile} (hf : f.Sound family) (htorn : f.torn = none) :
    (s.readFrom family spool f f.seenSize).buffer.built =
        s.buffer.built ++ (f.rows.drop f.seen).filterMap (fun r => family.event r.text) ∧
      (s.readFrom family spool f f.seenSize).phase = .idle ∧
      (s.readFrom family spool f f.seenSize).offset = f.size := by
  have hmem : ∀ r ∈ f.rows.drop f.seen, r.Readable family := fun r hr =>
    hf.rows r (List.mem_of_mem_drop hr)
  have hread := readRows_rows fun r hr => (hmem r hr).short
  have hparse : ∀ row ∈ (f.rows.drop f.seen).map Row.text, ∀ e, family.parse row ≠ .error e := by
    intro row hrow
    obtain ⟨r, hr, rfl⟩ := List.mem_map.mp hrow
    exact (hmem r hr).parses
  have hsize : f.seenSize + (f.octets.drop f.seenSize).length = f.size := by
    have := f.seenSize_le
    rw [List.length_drop]
    unfold LeaseFile.size at this ⊢
    omega
  unfold readFrom
  dsimp only
  rw [hsize, LeaseFile.octets_drop_seenSize htorn, hread]
  dsimp only
  refine ⟨?_, ?_, rfl⟩
  · rw [Buffer.built_tail _ _ _ hparse, List.filterMap_map]
    rfl
  · rw [Buffer.tail_snd _ _ _ hparse]
    rfl

variable (offset : Nat)

@[simp] theorem State.readFrom_due :
    (s.readFrom family spool f offset).due = s.due ++ f.rows.drop f.seen := by
  unfold readFrom
  dsimp only
  split <;> rfl

@[simp] theorem State.readFrom_lastRead :
    (s.readFrom family spool f offset).lastRead = some f.generation := by
  unfold readFrom
  dsimp only
  split <;> rfl

@[simp] theorem State.readFrom_file : (s.readFrom family spool f offset).file = s.file := by
  unfold readFrom
  dsimp only
  split <;> rfl

@[simp] theorem State.readFrom_nextGeneration :
    (s.readFrom family spool f offset).nextGeneration = s.nextGeneration := by
  unfold readFrom
  dsimp only
  split <;> rfl

theorem State.tailed_readFrom (h : s.Tailed family) {f : LeaseFile} (hf : f.Sound family)
    (htorn : f.torn = none) : (s.readFrom family spool f f.seenSize).Tailed family := by
  obtain ⟨hbuilt, -, -⟩ := @State.readFrom_settled family spool s f hf htorn
  rw [Tailed, hbuilt, readFrom_due, List.filterMap_append, h]

theorem State.Inv.read (h : s.Inv family) (hset : s.Settled family .read)
    (hs : s.read family spool = some s') : s'.Inv family := by
  unfold State.read at hs
  split at hs
  · next offset fr hphase =>
    obtain ⟨hfr, hlt, rfl, hcurrent⟩ := h.renamed offset fr hphase
    have htorn : fr.torn = none := hset fr (by rw [reading, hphase])
    obtain ⟨-, hidle, -⟩ := @State.readFrom_settled family spool s fr hfr htorn
    obtain rfl := Option.some.inj hs
    constructor
    · exact State.tailed_readFrom h.tailed hfr htorn
    · simpa using h.sound
    · simpa using h.fresh
    · simpa using hlt
    · intro f hf hlast
      rw [readFrom_file] at hf
      rw [readFrom_lastRead] at hlast
      exact absurd (Option.some.inj hlast).symm (hcurrent f hf).1
    · intro f hf _
      rw [readFrom_file] at hf
      exact (hcurrent f hf).2
    · exact fun _ _ hphase => nomatch hidle.symm.trans hphase
    · exact fun _ hphase => nomatch hidle.symm.trans hphase
    · exact fun _ _ hphase => nomatch hidle.symm.trans hphase
  · next offset f hphase hf =>
    obtain ⟨f', hf', rfl⟩ := h.opened offset hphase
    cases hf.symm.trans hf'
    have htorn : f.torn = none := hset f (by rw [reading, hphase]; exact hf)
    have hsound := h.sound f hf
    obtain ⟨-, hidle, hoffset⟩ := @State.readFrom_settled family spool s f hsound htorn
    have htailed := @State.tailed_readFrom family spool s h.tailed f hsound htorn
    have hlast := @State.readFrom_lastRead family spool s f f.seenSize
    have hnext := @State.readFrom_nextGeneration family spool s f f.seenSize
    dsimp only at hs
    generalize s.readFrom family spool f f.seenSize = t at *
    obtain rfl := Option.some.inj hs
    exact ⟨htailed, fun f' hf' => Option.some.inj hf' ▸ ⟨Nat.le_refl _, hsound.rows, hsound.torn⟩,
      fun f' hf' => Option.some.inj hf' ▸ hnext.symm ▸ h.fresh f hf,
      fun g hg => Option.some.inj (hlast.symm.trans hg) ▸ hnext.symm ▸ h.fresh f hf,
      fun f' hf' _ => Option.some.inj hf' ▸ hoffset.trans (LeaseFile.size_of_seen htorn),
      fun f' hf' hne => absurd (Option.some.inj hf' ▸ hlast) hne,
      fun _ _ hphase => (nomatch hidle.symm.trans hphase),
      fun _ hphase => (nomatch hidle.symm.trans hphase),
      fun _ _ hphase => (nomatch hidle.symm.trans hphase)⟩
  · cases hs

theorem State.Inv.step (h : s.Inv family) {a : Action} (hset : s.Settled family a)
    (hs : s.step family spool a = some s') : s'.Inv family := by
  cases a with
  | kea w => exact h.kea hset hs
  | rename => exact h.rename hs
  | create => exact h.create hs
  | stat => exact h.stat hset hs
  | «open» => exact h.open hset hs
  | read => exact h.read hset hs
  | flush answer =>
    obtain rfl := Option.some.inj hs
    refine ⟨?_, h.sound, h.fresh, h.old, h.same, h.other, h.sized, h.opened, h.renamed⟩
    rw [Tailed, Buffer.built_flushList]
    exact h.tailed

theorem State.Started.inv (h : s.Started family) : s.Inv family := by
  constructor
  · rw [Tailed, h.buffer, h.due]
    rfl
  · intro f hf
    obtain ⟨hseen, -, hrows, htorn⟩ := h.file f hf
    exact ⟨hseen ▸ Nat.zero_le _, hrows, fun r k hk => htorn (r, k) hk⟩
  · exact fun f hf => (h.file f hf).2.1
  · intro g hg
    rw [h.lastRead] at hg
    cases hg
  · intro f _ hlast
    rw [h.lastRead] at hlast
    cases hlast
  · exact fun f hf _ => (h.file f hf).1
  · intro g offset hphase
    rw [h.phase] at hphase
    cases hphase
  · intro offset hphase
    rw [h.phase] at hphase
    cases hphase
  · intro offset f hphase
    rw [h.phase] at hphase
    cases hphase

theorem State.kept_step (h : s.buffer.Kept) {a : Action}
    (hs : s.step family true a = some s') : s'.buffer.Kept := by
  have hread : ∀ f offset, (s.readFrom family true f offset).buffer.Kept := by
    intro f offset
    unfold readFrom
    dsimp only
    split
    · exact h
    · exact h.tail family _
  cases a with
  | kea w =>
    obtain ⟨f, -, rfl⟩ := Option.map_eq_some_iff.mp hs
    exact h
  | rename =>
    simp only [State.step, State.rename] at hs
    split at hs
    · cases hs
    · split at hs
      · obtain rfl := Option.some.inj hs
        exact h
      · cases hs
  | create =>
    simp only [State.step, State.create] at hs
    split at hs
    · cases hs
    · obtain rfl := Option.some.inj hs
      exact h
  | stat =>
    simp only [State.step, State.stat] at hs
    split at hs
    · obtain rfl := Option.some.inj hs
      exact h
    · next f _ _ =>
      generalize (if f.size < s.offset then 0 else s.offset) = offset at hs
      split at hs
      · obtain rfl := Option.some.inj hs
        exact h
      · obtain rfl := Option.some.inj hs
        exact h
    · cases hs
  | «open» =>
    simp only [State.step, State.open] at hs
    split at hs
    · obtain rfl := Option.some.inj hs
      exact h
    · obtain rfl := Option.some.inj hs
      exact h
    · cases hs
  | read =>
    simp only [State.step, State.read] at hs
    split at hs
    · next offset f _ =>
      have hkept := hread f offset
      generalize s.readFrom family true f offset = t at hs hkept
      obtain rfl := Option.some.inj hs
      exact hkept
    · next offset f _ _ =>
      have hkept := hread f offset
      generalize s.readFrom family true f offset = t at hs hkept
      obtain rfl := Option.some.inj hs
      exact hkept
    · cases hs
  | flush answer =>
    obtain rfl := Option.some.inj hs
    exact Buffer.kept_flushList answer h.accounted

end Steps

inductive Settles (family : Family) (spool : Bool) : State → List Action → State → Prop
  | nil (s : State) : Settles family spool s [] s
  | cons {s s₁ s₂ : State} {a : Action} {actions : List Action} :
      s.Settled family a → s.step family spool a = some s₁ →
      Settles family spool s₁ actions s₂ → Settles family spool s (a :: actions) s₂

theorem Settles.inv {spool : Bool} {s s' : State} {actions : List Action}
    (hrun : Settles family spool s actions s') (h : s.Inv family) : s'.Inv family := by
  induction hrun with
  | nil s => exact h
  | cons hset hstep _ ih => exact ih (h.step hset hstep)

theorem Settles.kept {s s' : State} {actions : List Action}
    (hrun : Settles family true s actions s') (h : s.buffer.Kept) : s'.buffer.Kept := by
  induction hrun with
  | nil s => exact h
  | cons _ hstep _ ih => exact ih (State.kept_step h hstep)

/-- **No row is lost and none corrupted in a settled run**: every row that was complete at a read
has given its one event, in file order, and there is no other event. With the spool every event
is with the shipper or still waiting. -/
theorem State.tailed_of_settles (family : Family) (spool : Bool) {s s' : State}
    {actions : List Action} (hstart : s.Started family)
    (hrun : Settles family spool s actions s') :
    s'.Tailed family ∧
      (spool = true → s'.buffer.handed ++ s'.buffer.pending = s'.buffer.built) := by
  refine ⟨(hrun.inv hstart.inv).tailed, ?_⟩
  rintro rfl
  have hkept : s.buffer.Kept := by
    rw [hstart.buffer]
    exact ⟨rfl, by decide⟩
  exact (hrun.kept hkept).accounted

def ascii (s : String) : Octets := s.toList.map fun c => UInt8.ofNat c.toNat

/-- A released lease: `192.0.2.10,02:00:00:00:00:01,,3600,1700003600,1,0,0,laptop,3,,1,0,0`. -/
def releasedRow : Row where
  fields := ["192.0.2.10", "02:00:00:00:00:01", "", "3600", "1700003600", "1", "0", "0", "laptop",
    "3", "", "1", "0", "0"].map ascii
  two := by decide
  plain := by decide

def noFile : State := { file := none, nextGeneration := 0 }

theorem noFile_started : noFile.Started .v4 := ⟨rfl, rfl, rfl, rfl, rfl, nofun⟩

theorem releasedRow_readable : releasedRow.Readable .v4 := by
  refine ⟨by decide, ?_⟩
  intro e he
  have hok : (Family.parse .v4 releasedRow.text).isOk = true := by decide +kernel
  rw [he] at hok
  cases hok

/-- The row is there when the tailer looks, opens and reads. -/
def oneRow : LeaseFile := { generation := 0, rows := [releasedRow], torn := none, seen := 0 }

theorem exists_settles_oneRow :
    ∃ s', Settles .v4 true noFile [.create, .kea (.row releasedRow), .stat, .open, .read] s' ∧
      s'.due = [releasedRow] := by
  have hrow : ∀ r, (Write.row releasedRow).begun = some r → r.Readable .v4 := by
    rintro r ⟨⟩
    exact releasedRow_readable
  have hstat : ({ file := some oneRow, nextGeneration := 1 } : State).step .v4 true .stat =
      some { file := some oneRow, nextGeneration := 1, phase := .sized 0 0 } := by
    have hsize : oneRow.size ≠ 0 := by decide
    simp only [State.step, State.stat, Nat.not_lt_zero, if_false, if_neg hsize]
    rfl
  have hopen : ({ file := some oneRow, nextGeneration := 1, phase := .sized 0 0 } : State).Settled
      .v4 .open := by
    rintro _ _ _ - ⟨⟩
    exact Or.inr rfl
  have hread : ∀ s : State, s.phase = .opened 0 none → s.file = some oneRow →
      s.Settled .v4 .read := by
    intro s hphase hfile f hf
    rw [State.reading, hphase, hfile] at hf
    exact Option.some.inj hf ▸ rfl
  generalize ht : ({ file := some oneRow, nextGeneration := 1, phase := .opened 0 none } : State) =
    t at *
  have hphase : t.phase = .opened 0 none := ht ▸ rfl
  have hfile : t.file = some oneRow := ht ▸ rfl
  have hdue : t.due = [] := ht ▸ rfl
  have hstep : t.step .v4 true .read =
      some { t.readFrom .v4 true oneRow 0 with file := some { oneRow with seen := 1 } } := by
    simp only [State.step, State.read, hphase, hfile]
    rfl
  refine ⟨_, .cons trivial rfl <| .cons hrow rfl <| .cons (fun _ _ => Or.inr (Or.inr rfl)) hstat <|
    .cons hopen (congrArg some ht) <| .cons (hread t hphase hfile) hstep <| .nil _, ?_⟩
  have hread := @State.readFrom_due .v4 true t oneRow 0
  rw [hdue] at hread
  exact hread

theorem State.tailed_of_settles_oneRow :
    ∃ s s' actions, s.Started .v4 ∧ Settles .v4 true s actions s' ∧ s'.due = [releasedRow] ∧
      s'.Tailed .v4 := by
  obtain ⟨s', hrun, hdue⟩ := exists_settles_oneRow
  exact ⟨noFile, s', _, noFile_started, hrun, hdue,
    (State.tailed_of_settles .v4 true noFile_started hrun).1⟩

/-- Kea has written the row up to its state when the tailer reads: the event is of an active
lease, and the row itself never gives one. -/
theorem State.not_tailed_tornRow :
    ¬ ∀ (s s' : State) (actions : List Action), s.Started .v4 →
      s.run .v4 true actions = some s' → s'.Tailed .v4 := by
  intro h
  have hrun : (noFile.run .v4 true [.create, .kea (.start releasedRow 59), .stat, .open, .read,
      .kea .rest, .stat, .open, .read]).map (fun s => (s.buffer.built.map LeaseEvent.state,
        (s.due.filterMap fun r => Family.event .v4 r.text).map LeaseEvent.state)) =
      some ([.active], [.released]) := by decide +kernel
  obtain ⟨s', hs', hstates⟩ := Option.map_eq_some_iff.mp hrun
  rw [h _ _ _ noFile_started hs'] at hstates
  obtain ⟨hbuilt, hdue⟩ := Prod.mk.inj hstates
  cases hbuilt.symm.trans hdue

end SpatiumDdi.Dhcp
