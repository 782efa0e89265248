import SpatiumDdi.Lib.SerialOrder

/-!
How the control plane numbers a zone (`services/dns/serial.py`).

A serial is the day's `YYYYMMDD00` where that is greater than the one before, and else the one before plus
one, modulo `2 ^ 32` and past 0. The day's serial can be ahead of the one before by almost half the circle,
and up to the year 2147 by no more, so every step is forward in serial arithmetic whatever the clock says.
-/

namespace SpatiumDdi.Dns.ZoneSerial

open SerialOrder

structure Date where
  year : Nat
  month : Nat
  day : Nat
  month_le : month ≤ 12
  day_le : day ≤ 31

/-- `int(now.strftime("%Y%m%d")) * 100`. -/
def todayBase (now : Date) : Nat := (now.year * 10000 + now.month * 100 + now.day) * 100

def serialModulus : Nat := 2 ^ 32

def nextSerial (current : Nat) (now : Date) : Nat :=
  if 1000000000 ≤ current ∧ current ≤ 9999999999 then
    let curDate := current / 100
    let curNn := current % 100
    if curDate = todayBase now / 100 then
      if curNn < 99 then current + 1 else current + 1
    else if todayBase now > current then todayBase now
    else current + 1
  else if todayBase now > current then todayBase now
  else current + 1

/-- `compute_next_serial`. The wrap past the last serial skips 0. -/
def computeNextSerial (current : Nat) (now : Date) : Nat :=
  let nxt := nextSerial current now % serialModulus
  if nxt = 0 then 1 else nxt

structure DNSZone where
  lastSerial : Option Nat

/-- `int(getattr(zone, "last_serial", 0) or 0)`. -/
def DNSZone.serial (zone : DNSZone) : Nat := zone.lastSerial.getD 0

def bumpZoneSerial (zone : DNSZone) (now : Date) : Nat × DNSZone :=
  let nxt := computeNextSerial zone.serial now
  (nxt, { zone with lastSerial := some nxt })

theorem nextSerial_cases (current : Nat) (now : Date) :
    nextSerial current now = current + 1 ∨
      (current < todayBase now ∧ nextSerial current now = todayBase now) := by
  unfold nextSerial
  dsimp only
  split
  · split
    · exact .inl (ite_self _)
    · split
      · exact .inr ⟨‹_›, rfl⟩
      · exact .inl rfl
  · split
    · exact .inr ⟨‹_›, rfl⟩
    · exact .inl rfl

variable {now : Date}

theorem todayBase_lt (hyear : now.year ≤ 2147) : todayBase now < 2 ^ 31 := by
  have hmonth := now.month_le
  have hday := now.day_le
  unfold todayBase
  omega

theorem exists_nextSerial (current : Nat) (hyear : now.year ≤ 2147) :
    ∃ k, 0 < k ∧ k < 2 ^ 31 ∧ nextSerial current now = current + k := by
  rcases nextSerial_cases current now with hnext | ⟨hlt, hnext⟩
  · exact ⟨1, by omega, by omega, hnext⟩
  · have hbase := todayBase_lt hyear
    exact ⟨todayBase now - current, by omega, by omega, by omega⟩

theorem nextSerial_of_wrap {current : Nat} (hcurrent : current < 2 ^ 32) (hyear : now.year ≤ 2147)
    (hzero : nextSerial current now % serialModulus = 0) : current + 1 = 2 ^ 32 := by
  unfold serialModulus at hzero
  rcases nextSerial_cases current now with hnext | ⟨hlt, hnext⟩
  · omega
  · have hbase := todayBase_lt hyear
    omega

theorem computeNextSerial_range (current : Nat) (now : Date) :
    1 ≤ computeNextSerial current now ∧ computeNextSerial current now ≤ 2 ^ 32 - 1 := by
  have hlt : nextSerial current now % serialModulus < 2 ^ 32 := Nat.mod_lt _ (by decide)
  unfold computeNextSerial
  dsimp only
  split
  · omega
  · omega

theorem computeNextSerial_later {current : Nat} (hcurrent : current < 2 ^ 32)
    (hyear : now.year ≤ 2147) : Later (2 ^ 31) (computeNextSerial current now) current := by
  unfold computeNextSerial
  dsimp only
  split
  · -- the last serial goes to 1, two steps on
    rename_i hzero
    have hlast := nextSerial_of_wrap hcurrent hyear hzero
    have htwo : Later (2 ^ 31) ((current + 2) % (2 * 2 ^ 31)) current :=
      later_add current 2 (by omega) (by omega)
    have hone : (current + 2) % (2 * 2 ^ 31) = 1 := by omega
    rwa [hone] at htwo
  · obtain ⟨k, hpos, hlt, hnext⟩ := exists_nextSerial current hyear
    rw [hnext]
    exact later_add current k hpos hlt

/-- A zone serial moves forward, whatever date the clock shows. -/
theorem computeNextSerial_forward (current : Nat) (now : Date) (hcurrent : current ≤ 2 ^ 32 - 1)
    (hyear : 1000 ≤ now.year ∧ now.year ≤ 2147) :
    let n := computeNextSerial current now
    1 ≤ n ∧ n ≤ 2 ^ 32 - 1 ∧
      0 < ((n : Int) - current) % 2 ^ 32 ∧ ((n : Int) - current) % 2 ^ 32 < 2 ^ 31 := by
  obtain ⟨hone, hlast⟩ := computeNextSerial_range current now
  obtain ⟨hpos, hlt⟩ := computeNextSerial_later (Nat.lt_of_le_pred (by decide) hcurrent) hyear.2
  exact ⟨hone, hlast, hpos, hlt⟩

theorem computeNextSerial_forward_wrap :
    let n := computeNextSerial (2 ^ 32 - 1) ⟨2026, 10, 28, by decide, by decide⟩
    1 ≤ n ∧ n ≤ 2 ^ 32 - 1 ∧
      0 < ((n : Int) - (2 ^ 32 - 1 : Nat)) % 2 ^ 32 ∧
      ((n : Int) - (2 ^ 32 - 1 : Nat)) % 2 ^ 32 < 2 ^ 31 :=
  computeNextSerial_forward (2 ^ 32 - 1) ⟨2026, 10, 28, by decide, by decide⟩ (by decide)
    (by decide)

end SpatiumDdi.Dns.ZoneSerial
