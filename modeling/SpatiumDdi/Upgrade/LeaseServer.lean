import Mathlib.Data.List.Basic
import Mathlib.Algebra.Order.Ring.Int
import SpatiumDdi.Upgrade.Lease

/-!
The Lease as the kubeapi keeps it. Every write that lands gives it a version never
used before, and a write that names another version is refused. A call that is not
answered, or answered with an error, may still land later.
-/

namespace SpatiumDdi.Upgrade

inductive Author where
  | drive (me : String)
  | operator
deriving DecidableEq

structure Cleared where
  drive : String
  holder : Option String
  time : Time
deriving DecidableEq

structure Cluster where
  now : Time
  /-- Whether there is a kubeapi to ask. -/
  configured : Bool
  lease : Option Lease
  /-- No version from here on has been used. -/
  nextVersion : Nat
  /-- Requests given up by their senders that may yet land. -/
  stray : List (Author × Request) := []
  /-- What the drives' clears removed. -/
  cleared : List Cleared := []

def Lease.patched (l : Lease) (p : LeasePatch) (version : Nat) : Lease where
  holderIdentity := some p.holderIdentity
  leaseDurationSeconds := p.leaseDurationSeconds.or l.leaseDurationSeconds
  renewTime := some p.renewTime
  leaseTransitions := p.leaseTransitions.or l.leaseTransitions
  resourceVersion := version

def LeaseSpec.expiredAt (spec : LeaseSpec) (now : Time) : Bool :=
  match spec.renewTime with
  | none => false
  | some (.other text) => text != ""
  | some (.micro renewed) => decide (now - renewed > seconds spec.duration)

def LeaseSpec.heldAt (spec : LeaseSpec) (now : Time) : Bool :=
  named spec.holderIdentity && !spec.expiredAt now

def Lease.Matches (l : Lease) (version : Option Nat) : Prop :=
  version = none ∨ version = some l.resourceVersion

instance (l : Lease) (version : Option Nat) : Decidable (l.Matches version) :=
  inferInstanceAs (Decidable (_ ∨ _))

def clearedBy (author : Author) (p : LeasePatch) (l : Lease) (now : Time) : List Cleared :=
  match author with
  | .operator => []
  | .drive me => if p.holderIdentity = "" then [⟨me, l.holderIdentity, now⟩] else []

def Cluster.put (w : Cluster) (l : Lease) (removed : List Cleared) : Cluster :=
  { w with lease := some l, nextVersion := w.nextVersion + 1, cleared := removed ++ w.cleared }

def Cluster.serve (w : Cluster) (author : Author) (text : String) : Request → Cluster × Response
  | .get =>
    match w.lease with
    | none => (w, .answered 404 none text)
    | some l => (w, .answered 200 (some l) text)
  | .post spec =>
    match w.lease with
    | none =>
      let l : Lease := { spec with resourceVersion := w.nextVersion }
      (w.put l [], .answered 201 (some l) text)
    | some _ => (w, .answered 409 none text)
  | .patch p version =>
    match w.lease with
    | none => (w, .answered 404 none text)
    | some l =>
      if l.Matches version then
        let l' := l.patched p w.nextVersion
        (w.put l' (clearedBy author p l w.now), .answered 200 (some l') text)
      else
        (w, .answered 409 none text)

/-- The call failed for its sender: nothing came back, or an error, or a body that is no Lease. -/
def Response.Failed : Request → Response → Prop
  | _, .unanswered _ => True
  | .get, .answered _ body _ => body = none
  | .post _, .answered status body _ => body = none ∧ status ≠ 200 ∧ status ≠ 201
  | .patch _ _, .answered status body _ => body = none ∧ status ≠ 200 ∧ status ≠ 201

inductive Served (w : Cluster) (author : Author) (text : String) :
    Request → Cluster × Response → Prop where
  | refused (r : Request) (response : Response) : response.Failed r →
      Served w author text r (w, response)
  | got (l : Lease) : w.lease = some l → Served w author text .get (w, .answered 200 (some l) text)
  | created (spec : LeaseSpec) : w.lease = none →
      Served w author text (.post spec) (w.put { spec with resourceVersion := w.nextVersion } [],
        .answered 201 (some { spec with resourceVersion := w.nextVersion }) text)
  | patched (p : LeasePatch) (version : Option Nat) (l : Lease) : w.lease = some l →
      l.Matches version →
      Served w author text (.patch p version)
        (w.put (l.patched p w.nextVersion) (clearedBy author p l w.now),
          .answered 200 (some (l.patched p w.nextVersion)) text)

theorem Cluster.served (w : Cluster) (author : Author) (text : String) (r : Request) :
    Served w author text r (w.serve author text r) := by
  cases r with
  | get =>
    simp only [serve]
    split
    · exact .refused _ _ rfl
    · next l hl => exact .got l hl
  | post spec =>
    simp only [serve]
    split
    · next hl => exact .created spec hl
    · exact .refused _ _ ⟨rfl, by decide, by decide⟩
  | patch p version =>
    simp only [serve]
    split
    · exact .refused _ _ ⟨rfl, by decide, by decide⟩
    · next l hl =>
      split
      · next hm => exact .patched p version l hl hm
      · exact .refused _ _ ⟨rfl, by decide, by decide⟩

inductive Does (author : Author) : (c : Call) → Cluster → Reply c → Cluster → Prop where
  | getConfig (w : Cluster) : Does author .getConfig w w.configured w
  | clock (w : Cluster) : Does author .clock w w.now w
  | answered (w : Cluster) (r : Request) (text : String) :
      Does author (.request r) w (w.serve author text r).2 (w.serve author text r).1
  | failed (w : Cluster) (r : Request) (response : Response) : response.Failed r →
      Does author (.request r) w response { w with stray := (author, r) :: w.stray }

/-- A task whose calls are all answered at once. -/
def answered {α : Type} (author : Author) : Kube α → Cluster → α × Cluster
  | .ret a, w => (a, w)
  | .call .getConfig next, w => answered author (next w.configured) w
  | .call .clock next, w => answered author (next w.now) w
  | .call (.request r) next, w =>
    answered author (next (w.serve author "" r).2) (w.serve author "" r).1

def leaseDurationS : Nat := 600

namespace Cluster

/-- Versions in use are below the next, and no Lease is renewed in the future. -/
def Sound (w : Cluster) : Prop :=
  ∀ l, w.lease = some l →
    l.resourceVersion < w.nextVersion ∧ ∀ t, l.renewTime = some (.micro t) → t ≤ w.now

/-- What anyone may rely on while others act. -/
structure Rely (w w' : Cluster) : Prop where
  now : w.now ≤ w'.now
  next : w.nextVersion ≤ w'.nextVersion
  lease : w'.lease = w.lease ∨ ∃ l, w'.lease = some l ∧ w.nextVersion ≤ l.resourceVersion
  sound : w.Sound → w'.Sound

/-- The Lease as it was read: its version is used for nothing else. -/
structure Seen (w : Cluster) (l : Lease) : Prop where
  version : l.resourceVersion < w.nextVersion
  same : ∀ l', w.lease = some l' → l'.resourceVersion = l.resourceVersion → l' = l
  stamp : ∀ t, l.renewTime = some (.micro t) → t ≤ w.now

/-- The Lease names `me` and was renewed at `a` or later. -/
def Holds (w : Cluster) (me : String) (a : Time) : Prop :=
  ∃ l t, w.lease = some l ∧ l.holderIdentity = some me ∧
    l.leaseDurationSeconds = some leaseDurationS ∧ l.renewTime = some (.micro t) ∧ a ≤ t

/-- An update by `me` of a Lease read as free or as its own. -/
structure MayUpdate (w : Cluster) (me : String) (p : LeasePatch) (version : Option Nat) :
    Prop where
  named : me ≠ ""
  holder : p.holderIdentity = me
  duration : p.leaseDurationSeconds = some leaseDurationS
  read : ∃ t l, p.renewTime = .micro t ∧ t ≤ w.now ∧ version = some l.resourceVersion ∧
    w.Seen l ∧ (l.heldAt w.now = false ∨ l.holderIdentity = some me) ∧
      ∀ t', l.renewTime = some (.micro t') → t' ≤ t

def Clears (w : Cluster) (p : LeasePatch) : Prop :=
  p.holderIdentity = "" ∧ ∃ t, p.renewTime = .micro t ∧ t ≤ w.now

/-- A clear by `me` of a Lease read as its own. -/
def MayClear (w : Cluster) (me : String) (p : LeasePatch) (version : Option Nat) : Prop :=
  w.Clears p ∧ ∃ l, version = some l.resourceVersion ∧ w.Seen l ∧ l.holderIdentity = some me

def Valid (w : Cluster) : Author → Request → Prop
  | _, .get => True
  | .drive me, .post spec =>
    spec.holderIdentity = some me ∧ spec.leaseDurationSeconds = some leaseDurationS ∧
      ∃ t, spec.renewTime = some (.micro t) ∧ t ≤ w.now
  | .operator, .post _ => False
  | .drive me, .patch p version => w.MayUpdate me p version ∨ w.MayClear me p version
  | .operator, .patch p _ => w.Clears p

variable {w w' w'' : Cluster} {author : Author} {me text : String} {a t t' : Time} {l : Lease}
  {spec : LeaseSpec} {version : Option Nat} {r : Request}

theorem Rely.refl (w : Cluster) : w.Rely w := ⟨le_rfl, le_rfl, Or.inl rfl, id⟩

theorem Rely.trans (h : w.Rely w') (h' : w'.Rely w'') : w.Rely w'' := by
  refine ⟨h.now.trans h'.now, h.next.trans h'.next, ?_, fun hs => h'.sound (h.sound hs)⟩
  rcases h'.lease with he | ⟨l, hl, hv⟩
  · rw [he]
    exact h.lease
  · exact Or.inr ⟨l, hl, h.next.trans hv⟩

theorem expiredAt_mono (h : t ≤ t') (hexp : spec.expiredAt t = true) :
    spec.expiredAt t' = true := by
  unfold LeaseSpec.expiredAt at hexp ⊢
  split at hexp
  · cases hexp
  · exact hexp
  · rw [decide_eq_true_eq] at hexp ⊢
    exact hexp.trans_le (sub_le_sub_right h _)

theorem heldAt_mono (h : t ≤ t') (hheld : spec.heldAt t = false) : spec.heldAt t' = false := by
  unfold LeaseSpec.heldAt at hheld ⊢
  rcases Bool.and_eq_false_iff.mp hheld with hn | he
  · rw [hn, Bool.false_and]
  · rw [expiredAt_mono h (by simpa using he), Bool.not_true, Bool.and_false]

theorem Seen.rely (h : w.Seen l) (hr : w.Rely w') : w'.Seen l := by
  refine ⟨h.version.trans_le hr.next, ?_, fun t ht => (h.stamp t ht).trans hr.now⟩
  intro l' hl' hv
  rcases hr.lease with he | ⟨l'', hl'', hle⟩
  · exact h.same l' (he ▸ hl') hv
  · obtain rfl : l'' = l' := Option.some.inj (hl''.symm.trans hl')
    exact absurd (hv ▸ h.version) (Nat.not_lt.mpr hle)

theorem Seen.eq_of_matches {l' : Lease} (h : w.Seen l') (hl : w.lease = some l)
    (hmatches : l.Matches version) (hversion : version = some l'.resourceVersion) : l = l' := by
  refine h.same l hl ?_
  rcases hmatches with hnone | hv
  · exact absurd (hversion.symm.trans hnone) nofun
  · exact (Option.some.inj (hversion.symm.trans hv)).symm

theorem Clears.rely {p : LeasePatch} (h : w.Clears p) (hr : w.Rely w') : w'.Clears p := by
  obtain ⟨hp, t, ht, hle⟩ := h
  exact ⟨hp, t, ht, hle.trans hr.now⟩

theorem Valid.rely (h : w.Valid author r) (hr : w.Rely w') : w'.Valid author r := by
  cases r with
  | get => trivial
  | post spec =>
    cases author with
    | operator => exact h
    | drive me =>
      obtain ⟨hholder, hdur, t, ht, hle⟩ := h
      exact ⟨hholder, hdur, t, ht, hle.trans hr.now⟩
  | patch p version =>
    cases author with
    | operator => exact Clears.rely h hr
    | drive me =>
      rcases h with ⟨hme, hholder, hdur, t, l, ht, hle, hv, hseen, hfree, hstamp⟩ |
        ⟨hclear, l, hv, hseen, hmine⟩
      · exact Or.inl ⟨hme, hholder, hdur, t, l, ht, hle.trans hr.now, hv, hseen.rely hr,
          hfree.imp_left (heldAt_mono hr.now), hstamp⟩
      · exact Or.inr ⟨hclear.rely hr, l, hv, hseen.rely hr, hmine⟩

theorem Valid.stamp {p : LeasePatch} (h : w.Valid author (.patch p version)) :
    ∃ t, p.renewTime = .micro t ∧ t ≤ w.now := by
  cases author with
  | operator => exact h.2
  | drive me =>
    rcases h with ⟨-, -, -, t, l, ht, hle, -⟩ | ⟨⟨-, t, ht, hle⟩, -⟩
    · exact ⟨t, ht, hle⟩
    · exact ⟨t, ht, hle⟩

theorem Rely.put {removed : List Cleared} (hversion : l.resourceVersion = w.nextVersion)
    (hstamp : ∀ t, l.renewTime = some (.micro t) → t ≤ w.now) : w.Rely (w.put l removed) := by
  refine ⟨le_rfl, Nat.le_succ _, Or.inr ⟨l, rfl, hversion.ge⟩, fun _ l' hl' => ?_⟩
  obtain rfl : l = l' := Option.some.inj hl'
  exact ⟨by simp [Cluster.put, hversion], hstamp⟩

theorem Valid.served {out : Cluster × Response} (hvalid : w.Valid author r)
    (h : Served w author text r out) : w.Rely out.1 := by
  cases h with
  | refused => exact Rely.refl w
  | got => exact Rely.refl w
  | created spec _ =>
    cases author with
    | operator => exact hvalid.elim
    | drive me =>
      obtain ⟨-, -, t, ht, hle⟩ := hvalid
      refine Rely.put rfl fun t' ht' => ?_
      obtain rfl : t = t' := by simpa [ht] using ht'
      exact hle
  | patched p version l _ _ =>
    obtain ⟨t, ht, hle⟩ := hvalid.stamp
    refine Rely.put rfl fun t' ht' => ?_
    obtain rfl : t = t' := by simpa [Lease.patched, ht] using ht'
    exact hle

end Cluster

def Call.Valid (author : Author) (c : Call) (w : Cluster) : Prop :=
  match c with
  | .getConfig | .clock => True
  | .request r => w.Valid author r

open Cluster

/-- What a sender of requests relies on, and may do. -/
def kube (author : Author) : Protocol Reply Cluster where
  rely := Rely
  may := Call.Valid author
  does := Does author
  refl := Rely.refl
  trans _ _ _ := Rely.trans

section Calls

variable {author : Author} {w : Cluster}

theorem getConfig_safe : getConfig.Safe (kube author) (fun _ u => w.Rely u) w := by
  refine Task.safe_ask fun t ht => ⟨trivial, ?_⟩
  rintro _ _ ⟨⟩
  exact ht

theorem clock_safe : clock.Safe (kube author) (fun now u => w.Rely u ∧ now = u.now) w := by
  refine Task.safe_ask fun t ht => ⟨trivial, ?_⟩
  rintro _ _ ⟨⟩
  exact ⟨ht, rfl⟩

theorem request_safe {r : Request} {post : Response → Cluster → Prop}
    (hvalid : ∀ u, w.Rely u → u.Valid author r)
    (hserved : ∀ u text out, w.Rely u → Served u author text r out → w.Rely out.1 →
      ¬ out.2.Failed r → post out.2 out.1)
    (hfailed : ∀ u response, w.Rely u → response.Failed r → post response u) :
    (request r).Safe (kube author) post w := by
  refine Task.safe_ask fun t ht => ⟨hvalid t ht, ?_⟩
  intro response u hdoes
  cases hdoes with
  | answered _ _ text =>
    have hs := t.served author text r
    generalize t.serve author text r = out at hs ⊢
    have hrely := ht.trans ((hvalid t ht).served hs)
    by_cases hfail : out.2.Failed r
    · exact hfailed _ _ hrely hfail
    · exact hserved t text out ht hs hrely hfail
  | failed _ _ _ hfail =>
    exact hfailed _ response (ht.trans ⟨le_rfl, le_rfl, Or.inl rfl, id⟩) hfail

end Calls

end SpatiumDdi.Upgrade
