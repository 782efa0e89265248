import Mathlib.Data.List.Basic
import Mathlib.Data.Nat.Basic
import Mathlib.Logic.Function.Basic
import SpatiumDdi.Lib.Runs

/-!
`PeerResolveWatcher` (`spatium_dhcp_agent/peer_resolve.py`): the addresses that the host names of the
failover peers had when they were last looked up, and the ones Kea was last rendered with. A tick
compares what it looks up with the first, never with the second.
-/

namespace SpatiumDdi.Dhcp.Peers

variable {Url Host Ip : Type} [DecidableEq Host] [DecidableEq Ip]

/-- A list of lookups, one a peer, with the address each was answered, or none where it failed. -/
abbrev Answers (Host Ip : Type) := List (Host × Option Ip)

/-- How a lookup is answered, by its place in the list: addresses may change from one to the next. -/
abbrev Resolver (Host Ip : Type) := ℕ → Host → Option Ip

inductive Answer where
  | live
  | refused
  | notApplied
  | raised
deriving DecidableEq

/-- The watcher, what Kea was last rendered with, and the addresses as they are. -/
structure State (Url Host Ip : Type) where
  bundle : Option (List Url) := none
  resolved : Host → Option Ip := fun _ => none
  armed : Bool := false
  live : Answers Host Ip := []
  address : Host → Ip
  /-- The last event called the apply function. -/
  called : Bool := false

/-- What happens: the sync loop applies a bundle that Kea takes, the supervisor arms the watcher,
addresses change, and the watcher looks. `rendered` answers the lookups of a render, `seeded` those
of the `set_bundle` after it. -/
inductive Event (Url Host Ip : Type) where
  | apply (bundle : List Url) (rendered seeded : Resolver Host Ip)
  | arm
  | move (address : Host → Ip)
  | tick (looked : Resolver Host Ip) (answer : Answer) (rendered seeded : Resolver Host Ip)

section Code

variable (hostname : Url → Option Host) (literal : Host → Bool)

def peerHosts (bundle : List Url) : List Host := bundle.filterMap hostname

/-- The host names among the peers: an address is not looked up. -/
def watched (bundle : List Url) : List Host :=
  (peerHosts hostname bundle).filter fun host => !literal host

def lookups (hosts : List Host) (resolver : Resolver Host Ip) : Answers Host Ip :=
  hosts.mapIdx fun k host => (host, resolver k host)

/-- The lookups of `set_bundle`: one that fails leaves the last answer. -/
def seed (resolved : Host → Option Ip) : Answers Host Ip → Host → Option Ip
  | [] => resolved
  | (host, some ip) :: rest => seed (Function.update resolved host (some ip)) rest
  | (_, none) :: rest => seed resolved rest

/-- What is known of names that are no longer peers is dropped. -/
def purge (hosts : List Host) (resolved : Host → Option Ip) : Host → Option Ip :=
  fun host => if host ∈ hosts then resolved host else none

/-- The lookups of `_tick_once`, with whether one differs from the last answer. -/
def look (resolved : Host → Option Ip) : Answers Host Ip → (Host → Option Ip) × Bool
  | [] => (resolved, false)
  | (_, none) :: rest => look resolved rest
  | (host, some new) :: rest =>
    match resolved host with
    | none => look (Function.update resolved host (some new)) rest
    | some old =>
      if new ≠ old then ((look (Function.update resolved host (some new)) rest).1, true)
      else look resolved rest

namespace State

/-- `_apply_bundle`, of its effects those on the peers: the render, then `set_bundle`. -/
def applyBundle (s : State Url Host Ip) (bundle : List Url) (rendered seeded : Resolver Host Ip) :
    State Url Host Ip :=
  let hosts := watched hostname literal bundle
  { s with
    bundle := some bundle
    resolved := purge (peerHosts hostname bundle) (seed s.resolved (lookups hosts seeded))
    live := lookups hosts rendered }

def tickOnce (s : State Url Host Ip) (looked : Resolver Host Ip) (answer : Answer)
    (rendered seeded : Resolver Host Ip) : State Url Host Ip :=
  match s.bundle with
  | none => { s with called := false }
  | some bundle =>
    let (resolved, changed) := look s.resolved (lookups (watched hostname literal bundle) looked)
    let s := { s with resolved := resolved, called := changed && s.armed }
    if s.called ∧ answer = .live then s.applyBundle hostname literal bundle rendered seeded else s

def next (s : State Url Host Ip) : Event Url Host Ip → State Url Host Ip
  | .apply bundle rendered seeded =>
    { s.applyBundle hostname literal bundle rendered seeded with called := false }
  | .arm => { s with armed := true, called := false }
  | .move address => { s with address := address, called := false }
  | .tick looked answer rendered seeded => s.tickOnce hostname literal looked answer rendered seeded

def step (s : State Url Host Ip) (event : Event Url Host Ip) : Option (State Url Host Ip) :=
  some (s.next hostname literal event)

end State

end Code

section Rules

variable (hostname : Url → Option Host) (literal : Host → Bool)

/-- Every host name among the peers of the bundle stands in Kea's config with the address it has. -/
def State.Current (s : State Url Host Ip) : Prop :=
  ∀ bundle ∈ s.bundle, ∀ host ∈ watched hostname literal bundle,
    (host, some (s.address host)) ∈ s.live ∧
      ∀ ip, (host, ip) ∈ s.live → ip = some (s.address host)

/-- A tick whose lookups all give the addresses as they are leaves them in Kea's config, or calls
the apply function. -/
def State.TickFollowsUp (s : State Url Host Ip) (looked : Resolver Host Ip) (answer : Answer)
    (rendered seeded : Resolver Host Ip) : Prop :=
  (∀ k host, looked k host = some (s.address host)) →
    (s.tickOnce hostname literal looked answer rendered seeded).Current hostname literal ∨
      (s.tickOnce hostname literal looked answer rendered seeded).called = true ∨ s.armed = false

/-- Every tick does that may come next, after the addresses have changed or not, and the watcher was
armed or not. -/
def State.FollowsUp (s : State Url Host Ip) : Prop :=
  ∀ armed address, (s.armed = true → armed = true) → ∀ looked answer rendered seeded,
    TickFollowsUp hostname literal { s with armed := armed, address := address } looked answer
      rendered seeded

/-- The last address a name was found at: by these lookups, or where none found it, before. -/
def latest (resolved : Host → Option Ip) (answers : Answers Host Ip) (host : Host) : Option Ip :=
  (answers.reverse.findSome? fun answer => if answer.1 = host then answer.2 else none).or
    (resolved host)

/-- A render got an address for every name, the one that its name was last found at. -/
def Agrees (found : Host → Option Ip) (rendered : Answers Host Ip) : Prop :=
  ∀ p ∈ rendered, p.2 ≠ none ∧ found p.1 = p.2

/-- A name was found at another address than the last. -/
def Moved (resolved : Host → Option Ip) (answers : Answers Host Ip) : Prop :=
  ∃ a ∈ answers, a.2 ≠ none ∧ resolved a.1 ≠ a.2

instance (resolved : Host → Option Ip) (answers : Answers Host Ip) :
    Decidable (Moved resolved answers) :=
  inferInstanceAs (Decidable (∃ a ∈ answers, a.2 ≠ none ∧ resolved a.1 ≠ a.2))

/-- The watcher's lookups end at the addresses that Kea gets: those after a render give what the
render got, and those of a tick what they gave before, unless the tick has the bundle applied and
Kea takes it. -/
def State.Settles (s : State Url Host Ip) : Event Url Host Ip → Prop
  | .apply bundle rendered seeded =>
    let hosts := watched hostname literal bundle
    Agrees (latest s.resolved (lookups hosts seeded)) (lookups hosts rendered)
  | .arm => True
  | .move _ => True
  | .tick looked answer rendered seeded => ∀ bundle ∈ s.bundle,
    let hosts := watched hostname literal bundle
    let found := latest s.resolved (lookups hosts looked)
    if Moved s.resolved (lookups hosts looked) ∧ s.armed = true ∧ answer = .live then
      Agrees (latest found (lookups hosts seeded)) (lookups hosts rendered)
    else ∀ host ∈ hosts, found host = s.resolved host

end Rules

variable {resolved : Host → Option Ip} {answers rendered : Answers Host Ip} {host : Host}
  {hosts : List Host} {resolver : Resolver Host Ip}

omit [DecidableEq Host] [DecidableEq Ip] in
@[simp]
theorem map_fst_lookups : (lookups hosts resolver).map Prod.fst = hosts :=
  List.ext_getElem (by simp [lookups]) (by simp [lookups])

omit [DecidableEq Host] [DecidableEq Ip] in
theorem mem_lookups {a : Host × Option Ip} (h : a ∈ lookups hosts resolver) :
    a.1 ∈ hosts ∧ ∃ k, a.2 = resolver k a.1 := by
  obtain ⟨k, hk, rfl⟩ := List.mem_mapIdx.mp h
  exact ⟨List.getElem_mem hk, k, rfl⟩

omit [DecidableEq Host] [DecidableEq Ip] in
theorem exists_mem_of_fst {live : Answers Host Ip} (h : live.map Prod.fst = hosts)
    (hhost : host ∈ hosts) : ∃ ip, (host, ip) ∈ live := by
  rw [← h] at hhost
  obtain ⟨⟨_, ip⟩, hmem, rfl⟩ := List.mem_map.mp hhost
  exact ⟨ip, hmem⟩

omit [DecidableEq Ip] in
theorem latest_cons {ip : Option Ip} : latest resolved ((host, ip) :: answers) =
    latest (if ip = none then resolved else Function.update resolved host ip) answers := by
  funext other
  cases ip with
  | none => simp [latest]
  | some ip =>
    by_cases h : host = other
    · subst h
      simp [latest]
    · simp [latest, h, Function.update_of_ne (Ne.symm h)]

omit [DecidableEq Ip] in
theorem seed_eq_latest : seed resolved answers = latest resolved answers := by
  induction answers generalizing resolved with
  | nil => rfl
  | cons answer rest ih =>
    obtain ⟨other, ip⟩ := answer
    cases ip <;> simp [seed, ih, latest_cons]

theorem look_fst : (look resolved answers).1 = latest resolved answers := by
  induction answers generalizing resolved with
  | nil => rfl
  | cons answer rest ih =>
    obtain ⟨other, ip⟩ := answer
    cases ip with
    | none => simp [look, ih, latest_cons]
    | some ip =>
      rw [latest_cons, look]
      cases h : resolved other with
      | none => simp [ih]
      | some old =>
        by_cases hne : ip = old
        · have hsame : Function.update resolved other (some old) = resolved := by
            rw [← h, Function.update_eq_self]
          simp [hne, ih, hsame]
        · simp [hne, ih]

theorem look_snd (h : ∀ a ∈ answers, resolved a.1 ≠ none) :
    (look resolved answers).2 = true ↔ Moved resolved answers := by
  induction answers with
  | nil => simp [look, Moved]
  | cons answer rest ih =>
    obtain ⟨other, ip⟩ := answer
    have hrest := ih fun a ha => h a (List.mem_cons_of_mem _ ha)
    obtain ⟨old, hold⟩ := Option.ne_none_iff_exists'.mp (h _ List.mem_cons_self)
    have hcons : Moved resolved ((other, ip) :: rest) ↔
        (ip ≠ none ∧ resolved other ≠ ip) ∨ Moved resolved rest := by
      simp [Moved]
    rw [hcons, ← hrest]
    cases ip with
    | none => simp [look]
    | some ip =>
      dsimp only at hold
      by_cases hne : ip = old
      · simp [look, hold, hne]
      · simp [look, hold, hne, Ne.symm hne]

namespace State

variable {hostname : Url → Option Host} {literal : Host → Bool} {s s' : State Url Host Ip}
  {bundle : List Url}

/-- Kea's config is a render of the watcher's bundle. -/
def Rendered (hostname : Url → Option Host) (literal : Host → Bool) (s : State Url Host Ip) :
    Prop :=
  match s.bundle with
  | none => s.live = []
  | some bundle => s.live.map Prod.fst = watched hostname literal bundle

/-- The watcher last found every name at the address that Kea has. -/
def Synced (s : State Url Host Ip) : Prop := Agrees s.resolved s.live

omit [DecidableEq Host] [DecidableEq Ip] in
theorem Synced.known (hsynced : s.Synced) (h : s.Rendered hostname literal)
    (hb : s.bundle = some bundle) (hhost : host ∈ watched hostname literal bundle) :
    s.resolved host ≠ none := by
  rw [Rendered, hb] at h
  obtain ⟨ip, hmem⟩ := exists_mem_of_fst h hhost
  exact (hsynced _ hmem).2 ▸ (hsynced _ hmem).1

omit [DecidableEq Ip] in
theorem synced_applyBundle {rendered seeded : Resolver Host Ip} :
    (s.applyBundle hostname literal bundle rendered seeded).Synced ↔
      Agrees (latest s.resolved (lookups (watched hostname literal bundle) seeded))
        (lookups (watched hostname literal bundle) rendered) := by
  refine forall₂_congr fun a ha => ?_
  have hmem : a.1 ∈ peerHosts hostname bundle := List.mem_of_mem_filter (mem_lookups ha).1
  simp [applyBundle, purge, seed_eq_latest, hmem]

theorem tickOnce_eq (hb : s.bundle = some bundle)
    (hknown : ∀ host ∈ watched hostname literal bundle, s.resolved host ≠ none)
    (looked : Resolver Host Ip) (answer : Answer) (rendered seeded : Resolver Host Ip) :
    let answers := lookups (watched hostname literal bundle) looked
    let after := { s with
      resolved := latest s.resolved answers
      called := decide (Moved s.resolved answers) && s.armed }
    s.tickOnce hostname literal looked answer rendered seeded =
      if Moved s.resolved answers ∧ s.armed = true ∧ answer = .live then
        after.applyBundle hostname literal bundle rendered seeded
      else after := by
  intro answers after
  have hfst : (look s.resolved answers).1 = latest s.resolved answers := look_fst
  have hsnd : (look s.resolved answers).2 = decide (Moved s.resolved answers) := by
    rw [Bool.eq_iff_iff, decide_eq_true_iff]
    exact look_snd fun a ha => hknown a.1 (mem_lookups ha).1
  simp only [tickOnce, hb]
  rw [show look s.resolved (lookups (watched hostname literal bundle) looked) =
    (latest s.resolved answers, decide (Moved s.resolved answers)) from Prod.ext hfst hsnd]
  simp only [Bool.and_eq_true, decide_eq_true_eq, and_assoc, after, hb]

/-- A step from where the watcher agrees with Kea keeps the agreement exactly where it settles. -/
theorem synced_next (h : s.Rendered hostname literal) (hsynced : s.Synced)
    (event : Event Url Host Ip) :
    (s.next hostname literal event).Rendered hostname literal ∧
      ((s.next hostname literal event).Synced ↔ s.Settles hostname literal event) := by
  cases event with
  | apply bundle rendered seeded => exact ⟨map_fst_lookups, synced_applyBundle⟩
  | arm => exact ⟨h, iff_of_true hsynced trivial⟩
  | move address => exact ⟨h, iff_of_true hsynced trivial⟩
  | tick looked answer rendered seeded =>
    cases hb : s.bundle with
    | none =>
      have hnext : s.next hostname literal (.tick looked answer rendered seeded) =
          { s with called := false } := by simp [next, tickOnce, hb]
      have hsettles : s.Settles hostname literal (.tick looked answer rendered seeded) := by
        simp [Settles, hb]
      rw [hnext]
      exact ⟨h, iff_of_true hsynced hsettles⟩
    | some bundle =>
      have hlive : s.live.map Prod.fst = watched hostname literal bundle := by
        rwa [Rendered, hb] at h
      have hnext := tickOnce_eq hb (fun host hhost => hsynced.known h hb hhost) looked answer
        rendered seeded
      simp only [next, Settles, hb, Option.mem_def, Option.some.injEq, forall_eq']
      rw [hnext]
      split
      next => exact ⟨map_fst_lookups, synced_applyBundle⟩
      next =>
        refine ⟨by simpa [Rendered, hb] using hlive, ?_⟩
        constructor
        · intro hafter host hhost
          obtain ⟨ip, hmem⟩ := exists_mem_of_fst hlive hhost
          exact (hafter _ hmem).2.trans (hsynced _ hmem).2.symm
        · intro hsame p hp
          have hhost : p.1 ∈ watched hostname literal bundle := hlive ▸ List.mem_map_of_mem hp
          exact ⟨(hsynced p hp).1, (hsame _ hhost).trans (hsynced p hp).2⟩

/-- Where the watcher agrees with Kea, a tick that finds every address as it is sees each one that
Kea does not have. -/
theorem Synced.tickFollowsUp (hsynced : s.Synced) (h : s.Rendered hostname literal)
    (looked : Resolver Host Ip) (answer : Answer) (rendered seeded : Resolver Host Ip) :
    s.TickFollowsUp hostname literal looked answer rendered seeded := by
  intro hsteady
  rcases Bool.eq_false_or_eq_true s.armed with harmed | harmed
  swap
  · exact .inr (.inr harmed)
  rcases Option.eq_none_or_eq_some s.bundle with hb | ⟨bundle, hb⟩
  · left
    intro bundle hbundle
    simp [tickOnce, hb] at hbundle
  have hknown : ∀ host ∈ watched hostname literal bundle, s.resolved host ≠ none :=
    fun host hhost => hsynced.known h hb hhost
  rw [tickOnce_eq hb hknown]
  by_cases hmoved : Moved s.resolved (lookups (watched hostname literal bundle) looked)
  · right
    left
    split <;> simp [applyBundle, hmoved, harmed]
  · left
    rw [if_neg fun hall => hmoved hall.1]
    rw [Rendered, hb] at h
    have haddress : ∀ p ∈ s.live, p.2 = some (s.address p.1) := by
      intro p hp
      have hhost : p.1 ∈ watched hostname literal bundle := h ▸ List.mem_map_of_mem hp
      obtain ⟨k, hk, hget⟩ := List.mem_iff_getElem.mp hhost
      have hlooked : (p.1, looked k p.1) ∈ lookups (watched hostname literal bundle) looked :=
        List.mem_mapIdx.mpr ⟨k, hk, by rw [hget]⟩
      rw [hsteady] at hlooked
      have hsame : s.resolved p.1 = some (s.address p.1) := by
        by_contra hne
        exact hmoved ⟨_, hlooked, by simp, hne⟩
      exact (hsynced p hp).2.symm.trans hsame
    intro other hother host hhost
    obtain rfl : bundle = other := Option.some.inj (hb.symm.trans hother)
    obtain ⟨ip, hmem⟩ := exists_mem_of_fst h hhost
    exact ⟨haddress _ hmem ▸ hmem, fun ip' hmem' => haddress _ hmem'⟩

/-- A tick that finds no name elsewhere than before leaves Kea alone. -/
theorem tickOnce_quiet (hostname : Url → Option Host) (literal : Host → Bool) (hsame : ∀ host ip, s.resolved host = some ip → ip = s.address host)
    (answer : Answer) (rendered seeded : Resolver Host Ip) :
    let after := s.tickOnce hostname literal (fun _ host => some (s.address host)) answer rendered
      seeded
    after.called = false ∧ after.live = s.live ∧ after.bundle = s.bundle ∧
      after.address = s.address := by
  rcases Option.eq_none_or_eq_some s.bundle with hb | ⟨bundle, hb⟩
  · simp [tickOnce, hb]
  have hquiet : ∀ answers : Answers Host Ip, (∀ a ∈ answers, a.2 = some (s.address a.1)) →
      ∀ found : Host → Option Ip, (∀ host ip, found host = some ip → ip = s.address host) →
        (look found answers).2 = false := by
    intro answers
    induction answers with
    | nil => exact fun _ _ _ => rfl
    | cons a rest ih =>
      intro hanswers found hfound
      obtain ⟨host, ip⟩ := a
      obtain rfl : ip = some (s.address host) := hanswers _ List.mem_cons_self
      have hrest := ih fun a ha => hanswers a (List.mem_cons_of_mem _ ha)
      rw [look]
      split
      next =>
        refine hrest _ fun other ip hip => ?_
        by_cases hother : other = host
        · subst hother
          rw [Function.update_self] at hip
          exact (Option.some.inj hip).symm
        · rw [Function.update_of_ne hother] at hip
          exact hfound other ip hip
      next old hold =>
        rw [if_neg (by simpa using (hfound host old hold).symm)]
        exact hrest found hfound
  have hlook := hquiet (lookups (watched hostname literal bundle)
    fun _ host => some (s.address host)) (fun a ha => (mem_lookups ha).2.choose_spec) s.resolved hsame
  simp [tickOnce, hb, hlook]

/-- Where it does not, addresses can be such that the tick finds nothing to do, and Kea lacks one of
them. -/
theorem not_followsUp [Nontrivial Ip] (h : s.Rendered hostname literal) (hsynced : ¬ s.Synced) :
    ¬ s.FollowsUp hostname literal := by
  simp only [Synced, Agrees, not_forall] at hsynced
  obtain ⟨⟨host, ip⟩, hmem, hbad⟩ := hsynced
  -- Every name is where it was last found, and one never found is anywhere but where Kea has it.
  obtain ⟨other, hother⟩ : ∃ other : Ip, ip ≠ some other := by
    cases ip with
    | none => exact ⟨s.address host, by simp⟩
    | some ip => exact (exists_ne ip).imp fun _ hne heq => hne (Option.some.inj heq).symm
  let t : State Url Host Ip :=
    { s with armed := true, address := fun host => (s.resolved host).getD other }
  have hstale : ip ≠ some (t.address host) := by
    cases hfound : s.resolved host with
    | none => simpa [t, hfound] using hother
    | some found =>
      intro heq
      simp [t, hfound] at heq
      simp [hfound, heq] at hbad
  have hsame : ∀ host ip, t.resolved host = some ip → ip = t.address host := by
    intro host ip hip
    rw [show t.address host = (t.resolved host).getD other from rfl, hip, Option.getD_some]
  obtain ⟨hcalled, hlive, hbundle, haddress⟩ := tickOnce_quiet hostname literal hsame .live
    (fun _ _ => none) fun _ _ => none
  intro hfollows
  have htick := hfollows true t.address (fun _ => rfl) (fun _ host => some (t.address host)) .live
    (fun _ _ => none) (fun _ _ => none) fun _ _ => rfl
  rcases htick with hcurrent | htick | htick
  · rcases Option.eq_none_or_eq_some s.bundle with hb | ⟨bundle, hb⟩
    · rw [Rendered, hb] at h
      simp [h] at hmem
    · rw [Rendered, hb] at h
      have hhost : host ∈ watched hostname literal bundle := h ▸ List.mem_map_of_mem hmem
      have hall := (hcurrent bundle (hbundle.trans hb) host hhost).2 ip (hlive.symm ▸ hmem)
      exact hstale (haddress ▸ hall)
  · exact absurd (hcalled.symm.trans htick) (by decide)
  · cases htick

theorem followsUp_iff_synced [Nontrivial Ip] (h : s.Rendered hostname literal) :
    s.FollowsUp hostname literal ↔ s.Synced := by
  constructor
  · intro hfollows
    by_contra hsynced
    exact not_followsUp h hsynced hfollows
  · intro hsynced armed address _ looked answer rendered seeded
    exact Synced.tickFollowsUp (s := { s with armed := armed, address := address }) hsynced h looked
      answer rendered seeded

end State

/-- **Every tick of a run, and every one that may follow it, follows a moved peer up, exactly where
the lookups after each render and those of each tick end at the addresses that Kea gets.** -/
theorem moved_peers_followed_up_iff [Nontrivial Ip] (hostname : Url → Option Host)
    (literal : Host → Bool) (address : Host → Ip) (events : List (Event Url Host Ip)) :
    Runs.Along (State.step hostname literal) (State.FollowsUp hostname literal)
        { address := address } events ↔
      Runs.Meets (State.step hostname literal) (State.Settles hostname literal)
        { address := address } events := by
  refine Runs.along_iff_meets (I := State.Rendered hostname literal) ?_ rfl ?_
  · rintro s event s' hrendered hfollows hstep
    cases hstep
    have hsynced := (State.followsUp_iff_synced hrendered).mp hfollows
    obtain ⟨hnext, hiff⟩ := State.synced_next hrendered hsynced event
    exact ⟨hnext, (State.followsUp_iff_synced hnext).trans hiff⟩
  · have hrendered : State.Rendered hostname literal { address := address } := rfl
    refine (State.followsUp_iff_synced hrendered).mpr ?_
    intro p hp
    cases hp

def foundAt (address : ℕ) : Resolver ℕ ℕ := fun _ _ => some address

/-- The only peer moves, and a tick has the bundle applied once more. -/
def peerMoves (answer : Answer) : List (Event ℕ ℕ ℕ) :=
  [.apply [0] (foundAt 1) (foundAt 1), .arm, .move fun _ => 2,
    .tick (foundAt 2) answer (foundAt 2) (foundAt 2)]

theorem moved_peers_followed_up_taken :
    Runs.Along (State.step some fun _ => false) (State.FollowsUp some fun _ => false)
      { address := fun _ => 1 } (peerMoves .live) := by
  refine (moved_peers_followed_up_iff some (fun _ => false) (fun _ => 1) (peerMoves .live)).mpr ?_
  rintro _ ⟨⟩
  refine ⟨by unfold State.Settles Agrees; decide, ?_⟩
  rintro _ ⟨⟩
  refine ⟨trivial, ?_⟩
  rintro _ ⟨⟩
  refine ⟨trivial, ?_⟩
  rintro _ ⟨⟩
  refine ⟨?_, trivial⟩
  rintro _ ⟨⟩
  simp only [Agrees]
  decide

/-- The tick after the one whose re-apply Kea refused finds nothing changed. -/
theorem not_followed_up_refused :
    ¬ Runs.Along (State.step some fun _ => false) (State.FollowsUp some fun _ => false)
      { address := fun _ => 1 } (peerMoves .refused) := by
  rintro ⟨-, h⟩
  obtain ⟨-, h⟩ := h _ rfl
  obtain ⟨-, h⟩ := h _ rfl
  obtain ⟨-, h⟩ := h _ rfl
  have htick := h _ rfl true (fun _ => 2) (fun _ => rfl) (foundAt 2) .live (foundAt 2) (foundAt 2)
    fun _ _ => rfl
  rcases htick with hcurrent | htick | htick
  · have hbad := (hcurrent [0] rfl 0 (by decide)).1
    exact absurd hbad (by decide)
  · exact absurd htick (by decide)
  · exact absurd htick (by decide)

end SpatiumDdi.Dhcp.Peers
