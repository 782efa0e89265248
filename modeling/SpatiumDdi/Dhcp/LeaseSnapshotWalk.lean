import SpatiumDdi.Dhcp.LeaseSnapshot
import SpatiumDdi.Lib.Guards

/-!
What every run of a lease snapshot keeps: a walk has passed each lease up to its cursor that was in
the table at each of its pages, and the count of Kea's failures is that of the failures since a
first page was answered or a request took effect.
-/

namespace SpatiumDdi.Dhcp.LeaseSnapshot

open Text

variable {order : String → ℕ} {count : List (Entry order) → ℕ} {log : List (Entry order)}

def walkOf : List (Entry order) → List (Page order)
  | [] => []
  | .asked :: log => walkOf log
  | .stepped .waited _ :: log => walkOf log
  | .stepped (.failed _) _ :: _ => []
  | .stepped (.read page fate) _ :: log =>
    match fate with
    | .raised => walkOf log
    | .turned => walkOf log ++ [page]
    | .aborted | .finished => []

/-- The walks that reached `_finish`, each by its pages. -/
def finishedWalks : List (Entry order) → List (List (Page order))
  | [] => []
  | .stepped (.read page .finished) _ :: log => (walkOf log ++ [page]) :: finishedWalks log
  | _ :: log => finishedWalks log

def passed (walk : List (Page order)) : List KeaLease := walk.flatMap Page.leases

def posted (walk : List (Page order)) : List LeaseEvent := walk.flatMap Page.events

/-- What a walk covers: each lease that was in the table at every page and gives an event was
passed to the POST once, the events are in address order, no address twice, and none of a lease
that the table of its page had not. -/
structure Covers (cfg : Config) (walk : List (Page cfg.order)) : Prop where
  once : ∀ lease ev, (∀ page ∈ walk, lease ∈ page.table.leases) → event cfg.family lease = some ev →
    (posted walk).count ev = 1
  ordered : (posted walk).Pairwise fun a b => cfg.order a.ipAddress < cfg.order b.ipAddress
  held : ∀ page ∈ walk, ∀ ev ∈ page.events,
    ∃ lease ∈ page.table.leases, event cfg.family lease = some ev

/-- Kea's failures in a row: since a first page was answered, or a request took effect. -/
def failuresInARow : List (Entry order) → ℕ
  | [] => 0
  | .asked :: _ => 0
  | .stepped .waited _ :: log => failuresInARow log
  | .stepped (.failed _) _ :: log => failuresInARow log + 1
  | .stepped (.read page _) _ :: log => if page.cursor = .start then 0 else failuresInARow log

def firstPageFailures : List (Entry order) → ℕ
  | [] => 0
  | .asked :: _ => 0
  | .stepped .waited _ :: log => firstPageFailures log
  | .stepped (.failed cursor) _ :: log => firstPageFailures log + if cursor = .start then 1 else 0
  | .stepped (.read page _) _ :: log => if page.cursor = .start then 0 else firstPageFailures log

def Entry.Abandons : Entry order → Prop
  | .stepped (.failed _) _ => True
  | .stepped (.read _ .aborted) _ => True
  | _ => False

def Entry.LeavesDue : Entry order → Prop
  | .asked => True
  | .stepped _ due => due = true

def Entry.FailsFirstPage : Entry order → Prop
  | .stepped (.failed cursor) _ => cursor = .start
  | _ => False

/-- Every abandoned walk left the snapshot due, unless Kea had then failed too often, at a first
page, by a count of its failures. -/
def DueAgain (count : List (Entry order) → ℕ) (log : List (Entry order)) : Prop :=
  ∀ entry earlier, entry :: earlier <:+ log → entry.Abandons →
    entry.LeavesDue ∨ entry.FailsFirstPage ∧ keaMaxAttempts < count (entry :: earlier)

theorem DueAgain.cons {entry : Entry order} (h : DueAgain count log) (hentry : entry.Abandons →
      entry.LeavesDue ∨ entry.FailsFirstPage ∧ keaMaxAttempts < count (entry :: log)) :
    DueAgain count (entry :: log) := by
  intro e earlier hsuffix habandons
  rcases List.suffix_cons_iff.mp hsuffix with heq | hsuffix
  · obtain ⟨rfl, rfl⟩ := List.cons.inj heq
    exact hentry habandons
  · exact h e earlier hsuffix habandons

/-- The newest entry is a failure of Kea that left the snapshot not due. -/
def gaveUp : List (Entry order) → Bool
  | .stepped (.failed _) due :: _ => !due
  | _ => false

theorem DueAgain.lt_of_gaveUp (h : DueAgain count log) (hgave : gaveUp log = true) :
    keaMaxAttempts < count log := by
  match log, hgave with
  | .stepped (.failed cursor) false :: earlier, _ =>
    rcases h _ earlier (List.suffix_refl _) trivial with hdue | ⟨-, hmany⟩
    · cases hdue
    · exact hmany

variable {cfg : Config}

theorem toEvents_eq {leases : List KeaLease} {events : List LeaseEvent}
    (h : toEvents cfg.family leases = .ok events) : events = leases.filterMap (event cfg.family) := by
  induction leases generalizing events with
  | nil => exact (Except.ok.inj h).symm
  | cons lease leases ih =>
    rw [toEvents] at h
    cases hone : toEvent cfg.family lease with
    | error e => rw [hone] at h; cases h
    | ok one =>
      cases hrest : toEvents cfg.family leases with
      | error e => rw [hone, hrest] at h; cases h
      | ok rest =>
        rw [hone, hrest] at h
        have hevents : one.toList ++ rest = events := Except.ok.inj h
        have hevent : event cfg.family lease = one := by rw [event, hone]
        rw [← hevents, ih hrest, List.filterMap_cons, hevent]
        cases one with
        | none => rfl
        | some ev => rfl

variable {lease : KeaLease} {ev : LeaseEvent}

theorem keaLeaseToEvent_ipAddress (h : keaLeaseToEvent lease = .ok (some ev)) :
    ev.ipAddress = strip lease.ipAddress := by
  simp only [keaLeaseToEvent] at h
  split at h
  · cases h
  split at h
  · obtain ⟨times, -, hev⟩ := map_eq_ok.mp h
    cases hev
    rfl
  · cases h

theorem keaLease6ToEvent_ipAddress (h : keaLease6ToEvent lease = .ok (some ev)) :
    ev.ipAddress = strip lease.ipAddress := by
  simp only [keaLease6ToEvent] at h
  split at h
  · cases h
  split at h
  · cases h
  split at h
  · cases h
  · obtain ⟨times, -, hev⟩ := map_eq_ok.mp h
    cases hev
    rfl
  · cases h

theorem event_ipAddress {family : Family} (h : event family lease = some ev) :
    ev.ipAddress = strip lease.ipAddress := by
  cases hone : toEvent family lease with
  | error e => rw [event, hone] at h; cases h
  | ok one =>
    rw [event, hone] at h
    obtain rfl : one = some ev := h
    cases family with
    | v4 => exact keaLeaseToEvent_ipAddress hone
    | v6 => exact keaLease6ToEvent_ipAddress hone

structure Walking (cfg : Config) (walk : List (Page cfg.order)) (cursor : Cursor) : Prop where
  reached : PageWalk.Passed (fun l : KeaLease => cfg.order l.ipAddress)
    (walk.map fun p => p.table.leases) (passed walk) (cursor.place cfg.order)
  converted : ∀ p ∈ walk, p.events = p.leases.filterMap (event cfg.family)
  held : ∀ p ∈ walk, ∀ l ∈ p.leases, l ∈ p.table.leases

theorem Walking.start : Walking cfg [] .start where
  reached := PageWalk.Passed.start
  converted := fun _ hp => absurd hp List.not_mem_nil
  held := fun _ hp => absurd hp List.not_mem_nil

theorem posted_eq {walk : List (Page cfg.order)}
    (h : ∀ p ∈ walk, p.events = p.leases.filterMap (event cfg.family)) :
    posted walk = (passed walk).filterMap (event cfg.family) := by
  induction walk with
  | nil => rfl
  | cons p walk ih =>
    have htail := ih fun q hq => h q (List.mem_cons_of_mem _ hq)
    rw [posted, passed, List.flatMap_cons, List.flatMap_cons, List.filterMap_append,
      h p List.mem_cons_self]
    exact congrArg _ htail

def pageAt (cfg : Config) (table : Table cfg.order) (cursor : Cursor) (events : List LeaseEvent) :
    Page cfg.order :=
  ⟨cursor, table, table.page cfg.pageSize cursor, events⟩

variable {walk : List (Page cfg.order)} {cursor : Cursor} {table : Table cfg.order}
  {events : List LeaseEvent}

theorem passed_append (page : Page cfg.order) : passed (walk ++ [page]) = passed walk ++ page.leases := by
  rw [passed, List.flatMap_append, List.flatMap_singleton, passed]

section

variable (h : Walking cfg walk cursor)
include h

theorem Walking.converted_append
    (hevents : toEvents cfg.family (table.page cfg.pageSize cursor) = .ok events) :
    ∀ p ∈ walk ++ [pageAt cfg table cursor events], p.events = p.leases.filterMap (event cfg.family) := by
  intro p hp
  rcases List.mem_append.mp hp with hp | hp
  · exact h.converted p hp
  · rw [List.mem_singleton.mp hp]
    exact toEvents_eq hevents

theorem Walking.held_append :
    ∀ p ∈ walk ++ [pageAt cfg table cursor events], ∀ l ∈ p.leases, l ∈ p.table.leases := by
  intro p hp
  rcases List.mem_append.mp hp with hp | hp
  · exact h.held p hp
  · rw [List.mem_singleton.mp hp]
    exact fun l hl => (PageWalk.mem_of_mem_page hl).1

theorem Walking.turn {ip : String}
    (hevents : toEvents cfg.family (table.page cfg.pageSize cursor) = .ok events)
    (hip : lastIp (table.page cfg.pageSize cursor) = some ip) :
    Walking cfg (walk ++ [pageAt cfg table cursor events]) (.after ip) where
  reached := by
    obtain ⟨last, hlast, hname⟩ := Option.bind_eq_some_iff.mp hip
    obtain rfl : last.ipAddress = ip := by
      obtain ⟨-, hname⟩ := Option.ite_none_left_eq_some.mp hname
      exact Option.some.inj hname
    rw [List.map_append, passed_append]
    exact h.reached.turn table.ordered hlast
  converted := h.converted_append hevents
  held := h.held_append

end

theorem lastIp_eq_none (h : lastIp (table.page cfg.pageSize cursor) = none) :
    table.page cfg.pageSize cursor = [] := by
  cases hlast : (table.page cfg.pageSize cursor).getLast? with
  | none => exact List.getLast?_eq_none_iff.mp hlast
  | some last =>
    have hmem := (PageWalk.mem_of_mem_page (List.mem_of_getLast? hlast)).1
    rw [lastIp, hlast, Option.bind_some, orNone, if_neg (table.written last hmem).1] at h
    cases h

theorem Walking.covers (h : Walking cfg walk cursor)
    (hevents : toEvents cfg.family (table.page cfg.pageSize cursor) = .ok events)
    (hshort : (table.page cfg.pageSize cursor).length < cfg.pageSize) :
    Covers cfg (walk ++ [pageAt cfg table cursor events]) := by
  have hconverted := h.converted_append hevents
  have hheld : ∀ p ∈ walk ++ [pageAt cfg table cursor events],
      ∀ l ∈ p.leases, l ∈ p.table.leases := h.held_append
  have hordered : PageWalk.Ordered (fun l : KeaLease => cfg.order l.ipAddress)
      (passed (walk ++ [pageAt cfg table cursor events])) := by
    rw [passed_append]
    exact h.reached.append_page table.ordered
  have hwritten : ∀ l ∈ passed (walk ++ [pageAt cfg table cursor events]),
      strip l.ipAddress = l.ipAddress := by
    intro l hl
    obtain ⟨p, hp, hl⟩ := List.mem_flatMap.mp hl
    exact (p.table.written l (hheld p hp l hl)).2
  have hposted : (posted (walk ++ [pageAt cfg table cursor events])).Pairwise
      fun a b => cfg.order a.ipAddress < cfg.order b.ipAddress := by
    rw [posted_eq hconverted, List.pairwise_filterMap]
    refine hordered.imp_of_mem fun ha hb hlt ev hev ev' hev' => ?_
    rw [event_ipAddress hev, event_ipAddress hev', hwritten _ ha, hwritten _ hb]
    exact hlt
  refine ⟨?_, hposted, ?_⟩
  · intro lease ev hall hev
    have hpassed : lease ∈ passed (walk ++ [pageAt cfg table cursor events]) := by
      rw [passed_append]
      refine h.reached.finish hshort fun rows hrows => ?_
      rcases List.mem_append.mp hrows with hrows | hrows
      · obtain ⟨p, hp, rfl⟩ := List.mem_map.mp hrows
        exact hall p (List.mem_append_left _ hp)
      · rw [List.mem_singleton.mp hrows]
        exact hall _ (List.mem_append_right _ List.mem_cons_self)
    have hmem : ev ∈ posted (walk ++ [pageAt cfg table cursor events]) := by
      rw [posted_eq hconverted]
      exact List.mem_filterMap.mpr ⟨lease, hpassed, hev⟩
    exact List.count_eq_one_of_mem (hposted.imp fun hlt heq => absurd (heq ▸ hlt) (lt_irrefl _)) hmem
  · intro p hp ev hev
    rw [hconverted p hp] at hev
    obtain ⟨lease, hlease, hgives⟩ := List.mem_filterMap.mp hev
    exact ⟨lease, hheld p hp lease hlease, hgives⟩

structure Inv (cfg : Config) (s : Snapshot) (log : List (Entry cfg.order)) : Prop where
  walking : ∀ cursor, s.cursor = some cursor → Walking cfg (walkOf log) cursor
  idle : s.cursor = none → walkOf log = []
  covers : ∀ walk ∈ finishedWalks log, Covers cfg walk
  failures : s.keaFailures = failuresInARow log
  dueAgain : DueAgain failuresInARow log

variable {s s' : Snapshot} {log : List (Entry cfg.order)} {fate : Fate} {leases : List KeaLease}
  {status : Option ℕ}

/-- A page that the walk goes on after: it is the last, or the cursor moves to its last address. -/
def Passes (cfg : Config) (leases : List KeaLease) (s' : Snapshot) (fate : Fate) : Prop :=
  (fate = .finished ∧ s'.cursor = none ∧ (lastIp leases = none ∨ leases.length < cfg.pageSize)) ∨
    ∃ ip, fate = .turned ∧ lastIp leases = some ip ∧ s'.cursor = some (.after ip)

theorem turn_cases (h : s.turn cfg leases = (s', fate)) :
    s'.keaFailures = s.keaFailures ∧ Passes cfg leases s' fate := by
  rw [Snapshot.turn] at h
  cases hip : lastIp leases with
  | none =>
    rw [hip] at h
    cases h
    exact ⟨rfl, .inl ⟨rfl, rfl, .inl hip⟩⟩
  | some ip =>
    rw [hip] at h
    dsimp only at h
    by_cases hend : result leases = keaResultEmpty ∨ leases.length < cfg.pageSize
    · rw [if_pos hend] at h
      cases h
      refine ⟨rfl, .inl ⟨rfl, rfl, .inr ?_⟩⟩
      rcases hend with hempty | hshort
      · have hnil : leases = [] := by
          by_contra hne
          rw [result, if_neg hne] at hempty
          cases hempty
        rw [hnil]
        exact cfg.pageSize_pos
      · exact hshort
    · rw [if_neg hend] at h
      cases h
      exact ⟨rfl, .inr ⟨ip, rfl, hip, rfl⟩⟩

theorem deliver_cases (h : s.deliver cfg leases events status = (s', fate)) :
    s'.keaFailures = s.keaFailures ∧
      ((fate = .aborted ∧ s'.cursor = none ∧ s'.due = true) ∨ Passes cfg leases s' fate) := by
  rw [Snapshot.deliver] at h
  by_cases hnone : events = []
  · rw [if_pos hnone] at h
    obtain ⟨hcount, hpasses⟩ := turn_cases h
    exact ⟨hcount, .inr hpasses⟩
  · rw [if_neg hnone, Snapshot.postPage] at h
    cases hout : Agent.Spool.outcomeOf status with
    | retry =>
      rw [hout] at h
      cases h
      exact ⟨rfl, .inl ⟨rfl, rfl, rfl⟩⟩
    | sent =>
      rw [hout] at h
      obtain ⟨hcount, hpasses⟩ := turn_cases h
      exact ⟨hcount, .inr hpasses⟩
    | rejected =>
      rw [hout] at h
      obtain ⟨hcount, hpasses⟩ := turn_cases h
      exact ⟨hcount, .inr hpasses⟩

theorem onKeaFailure_spec (now : Time) (firstPage : Bool) :
    (s.onKeaFailure now firstPage).cursor = none ∧
      (s.onKeaFailure now firstPage).keaFailures = s.keaFailures + 1 ∧
      ((s.onKeaFailure now firstPage).due = true ∨
        firstPage = true ∧ keaMaxAttempts < s.keaFailures + 1) := by
  rw [Snapshot.onKeaFailure]
  by_cases hmany : firstPage = true ∧ keaMaxAttempts < s.keaFailures + 1
  · rw [if_pos hmany]
    exact ⟨rfl, rfl, .inr hmany⟩
  · rw [if_neg hmany]
    exact ⟨rfl, rfl, .inl rfl⟩

theorem Inv.failed (h : Inv cfg s log) (now : Time) (cursor : Cursor) :
    Inv cfg (s.onKeaFailure now (cursor = .start))
      (.stepped (.failed cursor) (s.onKeaFailure now (cursor = .start)).due :: log) := by
  obtain ⟨hcursor, hcount, hdue⟩ := onKeaFailure_spec (s := s) now (cursor = .start)
  have hfailures : s.keaFailures + 1 = failuresInARow
      (.stepped (.failed cursor) (s.onKeaFailure now (cursor = .start)).due :: log) := by
    rw [failuresInARow, h.failures]
  refine ⟨?_, fun _ => rfl, h.covers, by rw [hcount, hfailures], h.dueAgain.cons fun _ => ?_⟩
  · intro c hc
    rw [hcursor] at hc
    cases hc
  · rcases hdue with hdue | ⟨hfirst, hmany⟩
    · exact .inl hdue
    · exact .inr ⟨@of_decide_eq_true (cursor = .start) _ hfirst, by rw [← hfailures]; exact hmany⟩

theorem answered_failures (h : Inv cfg s log) (now : Time) (fate : Fate) (due : Bool) :
    (if cursor = .start then s.begun now else s).keaFailures =
      failuresInARow (.stepped (.read (pageAt cfg table cursor events) fate) due :: log) := by
  rw [failuresInARow, pageAt]
  by_cases hstart : cursor = .start
  · rw [if_pos hstart, if_pos hstart]
    rfl
  · rw [if_neg hstart, if_neg hstart, h.failures]

theorem answered_cursor (now : Time) :
    (if cursor = .start then s.begun now else s).cursor = s.cursor := by
  by_cases hstart : cursor = .start
  · rw [if_pos hstart]
    rfl
  · rw [if_neg hstart]

theorem Inv.read (h : Inv cfg s log) (hcursor : s.cursor = some cursor) {now : Time}
    (hevents : toEvents cfg.family (table.page cfg.pageSize cursor) = .ok events)
    (hdel : (if cursor = .start then s.begun now else s).deliver cfg
      (table.page cfg.pageSize cursor) events status = (s', fate)) :
    Inv cfg s' (.stepped (.read (pageAt cfg table cursor events) fate) s'.due :: log) := by
  have hwalk := h.walking cursor hcursor
  obtain ⟨hcount, hcases⟩ := deliver_cases hdel
  have hfailures : s'.keaFailures = failuresInARow
      (.stepped (.read (pageAt cfg table cursor events) fate) s'.due :: log) := by
    rw [hcount]
    exact answered_failures h now fate s'.due
  rcases hcases with ⟨rfl, hnone, hdue⟩ | ⟨rfl, hnone, hend⟩ | ⟨ip, rfl, hip, hsome⟩
  · refine ⟨fun c hc => ?_, fun _ => rfl, h.covers, hfailures, h.dueAgain.cons fun _ => .inl hdue⟩
    rw [hnone] at hc
    cases hc
  · have hshort : (table.page cfg.pageSize cursor).length < cfg.pageSize := by
      rcases hend with hnone | hshort
      · rw [lastIp_eq_none hnone]
        exact cfg.pageSize_pos
      · exact hshort
    refine ⟨fun c hc => ?_, fun _ => rfl, fun walk hwalks => ?_, hfailures,
      h.dueAgain.cons fun habandons => habandons.elim⟩
    · rw [hnone] at hc
      cases hc
    · rcases List.mem_cons.mp hwalks with rfl | hwalks
      · exact hwalk.covers hevents hshort
      · exact h.covers walk hwalks
  · refine ⟨fun c hc => ?_, fun hnone => ?_, h.covers, hfailures,
      h.dueAgain.cons fun habandons => habandons.elim⟩
    · obtain rfl : .after ip = c := Option.some.inj (hsome.symm.trans hc)
      exact hwalk.turn hevents hip
    · rw [hsome] at hnone
      cases hnone

theorem Inv.raised (h : Inv cfg s log) (now : Time) (due : Bool) :
    Inv cfg (if cursor = .start then s.begun now else s)
      (.stepped (.read (pageAt cfg table cursor []) .raised) due :: log) where
  walking := by
    rw [answered_cursor]
    exact h.walking
  idle := by
    rw [answered_cursor]
    exact h.idle
  covers := h.covers
  failures := answered_failures h now .raised due
  dueAgain := h.dueAgain.cons fun habandons => habandons.elim

variable {r : Round cfg.order} {did : Did cfg.order}

theorem fetchPage_cases (h : s.fetchPage cfg cursor r = (s', did)) :
    (did = .failed cursor ∧ s' = s.onKeaFailure r.now (cursor = .start)) ∨
    (∃ table, did = .read (pageAt cfg table cursor []) .raised ∧
      s' = if cursor = .start then s.begun r.now else s) ∨
    ∃ table events fate, did = .read (pageAt cfg table cursor events) fate ∧
      toEvents cfg.family (table.page cfg.pageSize cursor) = .ok events ∧
      (if cursor = .start then s.begun r.now else s).deliver cfg
        (table.page cfg.pageSize cursor) events r.status = (s', fate) := by
  rw [Snapshot.fetchPage] at h
  cases htable : r.table with
  | none =>
    rw [htable] at h
    cases h
    exact .inl ⟨rfl, rfl⟩
  | some table =>
    rw [htable] at h
    dsimp only at h
    cases hevents : toEvents cfg.family (table.page cfg.pageSize cursor) with
    | error e =>
      rw [hevents] at h
      cases h
      exact .inr (.inl ⟨table, rfl, rfl⟩)
    | ok events =>
      rw [hevents] at h
      cases h
      exact .inr (.inr ⟨table, events, _, rfl, hevents, rfl⟩)

section

variable (h : Inv cfg s log)
include h

theorem Inv.fetchPage (hcursor : s.cursor = some cursor)
    (hstep : s.fetchPage cfg cursor r = (s', did)) : Inv cfg s' (.stepped did s'.due :: log) := by
  rcases fetchPage_cases hstep with ⟨rfl, rfl⟩ | ⟨table, rfl, rfl⟩ |
    ⟨table, events, fate, rfl, hevents, hdel⟩
  · exact h.failed r.now cursor
  · exact h.raised r.now _
  · exact h.read hcursor hevents hdel

theorem Inv.begin (hcursor : s.cursor = none) :
    Inv cfg { s with cursor := some .start, runSent := 0, runSkipped := 0 } log where
  walking := by
    intro c hc
    obtain rfl : .start = c := Option.some.inj hc
    rw [h.idle hcursor]
    exact Walking.start
  idle := fun hc => nomatch hc
  covers := h.covers
  failures := h.failures
  dueAgain := h.dueAgain

theorem Inv.waited : Inv cfg s (.stepped .waited s.due :: log) where
  walking := h.walking
  idle := h.idle
  covers := h.covers
  failures := h.failures
  dueAgain := h.dueAgain.cons fun habandons => habandons.elim

theorem Inv.stepPage (hstep : s.stepPage cfg r = (s', did)) :
    Inv cfg s' (.stepped did s'.due :: log) := by
  rw [Snapshot.stepPage] at hstep
  cases hcursor : s.cursor with
  | some cursor =>
    rw [hcursor] at hstep
    exact h.fetchPage hcursor hstep
  | none =>
    rw [hcursor] at hstep
    dsimp only at hstep
    by_cases hstart : s.canStart cfg r.now = true
    · rw [if_pos hstart] at hstep
      exact (h.begin hcursor).fetchPage rfl hstep
    · rw [if_neg hstart] at hstep
      cases hstep
      exact h.waited

end

def Trace.Inv (t : Trace cfg.order) : Prop := LeaseSnapshot.Inv cfg t.st t.log

theorem Trace.inv_init : (({} : Trace cfg.order)).Inv where
  walking := fun _ hc => nomatch hc
  idle := fun _ => rfl
  covers := fun _ hw => absurd hw List.not_mem_nil
  failures := rfl
  dueAgain := fun _ _ hsuffix => absurd (List.suffix_nil.mp hsuffix) (List.cons_ne_nil _ _)

variable {t : Trace cfg.order}

theorem Trace.Inv.request (h : t.Inv) : (t.request cfg).Inv := by
  rw [Trace.request]
  by_cases hrunning : t.st.running = true
  · rw [if_pos hrunning]
    exact h
  · rw [if_neg hrunning]
    exact ⟨h.walking, h.idle, h.covers, rfl, h.dueAgain.cons fun habandons => habandons.elim⟩

theorem Trace.Inv.step (h : t.Inv) (deadline : Time) (rounds : List (Round cfg.order)) :
    (t.step cfg deadline rounds).1.Inv := by
  induction rounds generalizing t with
  | nil => exact h
  | cons r rounds ih =>
    have hpage : (t.stepPage cfg r).1.Inv := LeaseSnapshot.Inv.stepPage h rfl
    rw [Trace.step]
    cases hstep : t.stepPage cfg r with
    | mk t' did =>
      rw [hstep] at hpage
      dsimp only
      by_cases hmore : did.more cfg = true
      · rw [if_pos hmore]
        by_cases hover : deadline ≤ r.after
        · rw [if_pos hover]
          exact hpage
        · rw [if_neg hover]
          exact ih hpage
      · rw [if_neg hmore]
        exact hpage

theorem Trace.Inv.run (h : t.Inv) (calls : List (Call cfg.order)) : (t.run cfg calls).Inv := by
  induction calls generalizing t with
  | nil => exact h
  | cons c calls ih =>
    cases c with
    | request => exact ih h.request
    | step deadline rounds => exact ih (h.step deadline rounds)

end SpatiumDdi.Dhcp.LeaseSnapshot
