import Mathlib.Algebra.Order.Ring.Int
import Mathlib.Data.List.Count
import SpatiumDdi.Auth.AttemptBudget
import SpatiumDdi.Lib.Runs

/-!
How many wrong guesses the budgets allow. A counter is at least what its window has counted and
must keep: the wrong guesses, and the right ones whose refund is to come. A refund that comes in a
later window takes from what that window has counted.
-/

namespace SpatiumDdi.Auth.AttemptBudget

/-- Every counter has an expiry and is not negative, no counter's window has more wrong guesses than
the counter allows, and who is over a budget of their own leaves the one of the whole install. -/
structure Safe (cfg : Config) (w : World) : Prop where
  expires : ∀ k c, w.redis k = some c → c.expiry ≠ none
  nonneg : ∀ k c, w.redis k = some c → 0 ≤ c.value
  bounded : ∀ k, (w.wrong k : ℤ) ≤ max 0 (cfg.limit k)
  addressApart : ∀ ip, cfg.limit (pairingAddress ip) ≤ w.redis.value (pairingAddress ip) →
    (claimPairingAttempt w.redis ip).2 .pairGlobal = w.redis .pairGlobal
  usernameApart : ∀ username left, 0 < cfg.loginFailMaxPerUsername →
    cfg.limit (.loginUser (cfg.digest username)) ≤
      w.redis.value (.loginUser (cfg.digest username)) →
    (claimLoginAttempt cfg w.redis username left).2 .loginGlobal = w.redis .loginGlobal

/-- A refund comes while the window that its claim was counted in is open, or none is. -/
def OnTime (w : World) : Event → Prop
  | .refund refund => w.redis refund.key = none ∨ refund.window = w.windows refund.key
  | _ => True

structure Kept (cfg : Config) (w : World) : Prop where
  expires : ∀ k c, w.redis k = some c → c.expiry ≠ none
  counted : ∀ k c, w.redis k = some c →
    ((w.wrong k + w.owed.count ⟨k, w.windows k⟩ : ℕ) : ℤ) ≤ c.value
  bounded : ∀ k, (w.wrong k : ℤ) ≤ max 0 (cfg.limit k)
  past : ∀ refund ∈ w.owed, refund.window ≤ w.windows refund.key

variable {cfg : Config} {w w' : World}

namespace Redis

variable {r r' : Redis} {k : Key}

theorem value_of_some {c : Counter} (h : r k = some c) : r.value k = c.value := by
  rw [value, h]
  rfl

theorem value_of_none (h : r k = none) : r.value k = 0 := by
  rw [value, h]
  rfl

theorem bump_spec (r : Redis) (k : Key) (window : ℕ) :
    ∃ e, r.bump k window =
      (r.value k + 1, Function.update r k (some ⟨r.value k + 1, some e⟩)) := by
  unfold bump add pttl
  cases hk : r k with
  | none =>
    refine ⟨window, ?_⟩
    simp [expire]
  | some c =>
    obtain ⟨n, expiry⟩ := c
    cases expiry with
    | none =>
      refine ⟨window, ?_⟩
      simp [expire]
    | some e =>
      refine ⟨e, ?_⟩
      simp

/-- What a claim does to the counters: none goes down or loses its expiry, and those that count it
stay within their limits. -/
structure Charges (cfg : Config) (r r' : Redis) (charged : List Key) : Prop where
  touched : ∀ k, r' k = r k ∨ ∃ n e, r' k = some ⟨n, some e⟩ ∧ r.value k ≤ n
  counts : ∀ k ∈ charged,
    ∃ n e, r' k = some ⟨n, some e⟩ ∧ r.value k + 1 ≤ n ∧ n ≤ cfg.limit k
  nodup : charged.Nodup

theorem Charges.refl (cfg : Config) (r : Redis) : Charges cfg r r [] :=
  ⟨fun _ => .inl rfl, nofun, List.nodup_nil⟩

@[simp] theorem value_update_self (r : Redis) (k : Key) (c : Counter) :
    Redis.value (Function.update r k (some c)) k = c.value := by
  rw [value, Function.update_self]
  rfl

@[simp] theorem value_update_of_ne {other : Key} (h : other ≠ k) (r : Redis)
    (c : Option Counter) : Redis.value (Function.update r k c) other = r.value other := by
  rw [value, Function.update_of_ne h]
  rfl

theorem Charges.set {charged : List Key} (h : Charges cfg r r' charged) (hk : k ∉ charged) {n : ℤ}
    (hn : r.value k ≤ n) (e : ℕ) :
    Charges cfg r (Function.update r' k (some ⟨n, some e⟩)) charged where
  touched other := by
    by_cases hother : other = k
    · subst hother
      exact .inr ⟨n, e, Function.update_self .., hn⟩
    · rw [Function.update_of_ne hother]
      exact h.touched other
  counts other hmem := by
    have hother : other ≠ k := fun heq => hk (heq ▸ hmem)
    rw [Function.update_of_ne hother]
    exact h.counts other hmem
  nodup := h.nodup

theorem Charges.count {charged : List Key} (h : Charges cfg r r' charged) (hk : k ∉ charged)
    {n : ℤ} (hn : r.value k + 1 ≤ n) (hlimit : n ≤ cfg.limit k) (e : ℕ) :
    Charges cfg r (Function.update r' k (some ⟨n, some e⟩)) (charged ++ [k]) where
  touched := (h.set hk (Int.le_of_lt hn) e).touched
  counts other hmem := by
    rcases List.mem_append.mp hmem with hmem | hmem
    · exact (h.set hk (Int.le_of_lt hn) e).counts other hmem
    · rw [List.mem_singleton.mp hmem]
      exact ⟨n, e, Function.update_self .., hn, hlimit⟩
  nodup := List.nodup_append.mpr ⟨h.nodup, by simp, fun a ha b hb heq =>
    hk (List.mem_singleton.mp hb ▸ heq ▸ ha)⟩

theorem charges_claimLua (cfg : Config) {ipKey globalKey : Key} (hne : ipKey ≠ globalKey)
    {window : ℕ} {ip global : ℤ} (h : r.claimLua ipKey globalKey window (cfg.limit ipKey)
      (cfg.limit globalKey) = ((ip, global), r')) :
    Charges cfg r r'
      (if 0 ≤ global ∧ global ≤ cfg.limit globalKey ∧ ip ≤ cfg.limit ipKey
        then [ipKey, globalKey] else []) := by
  obtain ⟨e, he⟩ := bump_spec r ipKey window
  unfold claimLua at h
  simp only [he] at h
  have hself : r.value ipKey ≤ r.value ipKey + 1 := by omega
  by_cases hover : cfg.limit ipKey < r.value ipKey + 1
  · simp only [if_pos hover, Prod.mk.injEq] at h
    obtain ⟨⟨-, rfl⟩, rfl⟩ := h
    rw [if_neg (by omega)]
    exact (Charges.refl cfg r).set List.not_mem_nil hself e
  obtain ⟨e', he'⟩ := bump_spec (Function.update r ipKey (some ⟨r.value ipKey + 1, some e⟩))
    globalKey window
  rw [value_update_of_ne hne.symm] at he'
  have hup : r.value globalKey ≤ r.value globalKey + 1 := by omega
  simp only [if_neg hover, he'] at h
  by_cases hrefused : cfg.limit globalKey < r.value globalKey + 1
  · simp only [if_pos hrefused, add, Prod.mk.injEq, value_update_of_ne hne, value_update_self,
      Function.update_of_ne hne, Function.update_self, Option.bind_some] at h
    obtain ⟨⟨-, rfl⟩, rfl⟩ := h
    rw [if_neg (by omega)]
    refine (((Charges.refl cfg r).set List.not_mem_nil hself e).set List.not_mem_nil hup e').set
      List.not_mem_nil ?_ e
    omega
  · simp only [if_neg hrefused, Prod.mk.injEq] at h
    obtain ⟨⟨rfl, rfl⟩, rfl⟩ := h
    split
    · refine ((Charges.refl cfg r).count List.not_mem_nil (Int.le_refl _) ?_ e).count
        (by simpa using hne.symm) (Int.le_refl _) ?_ e'
      · omega
      · omega
    · exact ((Charges.refl cfg r).set List.not_mem_nil hself e).set List.not_mem_nil hup e'

def LoginReply.charged (reply : LoginReply) (userKey globalKey : Key) : List Key :=
  (if reply.usernameCharged then [userKey] else []) ++
    if reply.globalCharged then [globalKey] else []

theorem charges_loginClaimLua (cfg : Config) {userKey globalKey : Key} (hne : userKey ≠ globalKey)
    {window left : ℕ} {reply : LoginReply}
    (h : r.loginClaimLua userKey globalKey window (cfg.limit userKey) (cfg.limit globalKey) left =
      (reply, r')) :
    Charges cfg r r' (if reply.allowed then reply.charged userKey globalKey else []) := by
  obtain ⟨e, he⟩ := bump_spec r userKey window
  have hself : r.value userKey ≤ r.value userKey + 1 := by omega
  have hup : r.value globalKey ≤ r.value globalKey + 1 := by omega
  unfold loginClaimLua at h
  by_cases huser : 0 < cfg.limit userKey
  · simp only [if_pos huser, he] at h
    by_cases hover : cfg.limit userKey < r.value userKey + 1
    · simp only [decide_eq_true hover, if_true, Prod.mk.injEq] at h
      obtain ⟨rfl, rfl⟩ := h
      exact (Charges.refl cfg r).set List.not_mem_nil hself e
    simp only [decide_eq_false hover, Bool.false_eq_true, if_false] at h
    have hcharged := (Charges.refl cfg r).count List.not_mem_nil (Int.le_refl _)
      (Int.not_lt.mp hover) e
    by_cases hglobal : 0 < cfg.limit globalKey
    · obtain ⟨e', he'⟩ := bump_spec
        (Function.update r userKey (some ⟨r.value userKey + 1, some e⟩)) globalKey window
      rw [value_update_of_ne hne.symm] at he'
      simp only [if_pos hglobal, he'] at h
      by_cases hrefused : cfg.limit globalKey < r.value globalKey + 1
      · simp only [if_pos hrefused, if_true, add, Prod.mk.injEq, value_update_of_ne hne,
          value_update_self, Function.update_of_ne hne, Function.update_self,
          Option.bind_some] at h
        obtain ⟨rfl, rfl⟩ := h
        refine (((Charges.refl cfg r).set List.not_mem_nil hself e).set List.not_mem_nil hup
          e').set List.not_mem_nil ?_ e
        omega
      · simp only [if_neg hrefused, Prod.mk.injEq] at h
        obtain ⟨rfl, rfl⟩ := h
        exact hcharged.count (by simpa using hne.symm) (Int.le_refl _) (Int.not_lt.mp hrefused) e'
    · simp only [if_neg hglobal, Prod.mk.injEq] at h
      obtain ⟨rfl, rfl⟩ := h
      exact hcharged
  · simp only [if_neg huser, Bool.false_eq_true, if_false] at h
    by_cases hglobal : 0 < cfg.limit globalKey
    · obtain ⟨e', he'⟩ := bump_spec r globalKey window
      simp only [if_pos hglobal, he'] at h
      by_cases hrefused : cfg.limit globalKey < r.value globalKey + 1
      · simp only [if_pos hrefused, Prod.mk.injEq] at h
        obtain ⟨rfl, rfl⟩ := h
        exact (Charges.refl cfg r).set List.not_mem_nil hup e'
      · simp only [if_neg hrefused, Prod.mk.injEq] at h
        obtain ⟨rfl, rfl⟩ := h
        exact (Charges.refl cfg r).count List.not_mem_nil (Int.le_refl _)
          (Int.not_lt.mp hrefused) e'
    · simp only [if_neg hglobal, Prod.mk.injEq] at h
      obtain ⟨rfl, rfl⟩ := h
      exact Charges.refl cfg r

end Redis

open Redis

theorem charges_pairing (r : Redis) (ip : Option String) :
    Charges cfg r (claimPairingAttempt r ip).2
      (if (claimPairingAttempt r ip).1.1 then [pairingAddress ip, .pairGlobal] else []) := by
  rcases h : r.claimLua (pairingAddress ip) .pairGlobal pairingFailWindowSeconds
    pairingFailMaxPerIp pairingFailMaxGlobal with ⟨⟨ipCount, globalCount⟩, r'⟩
  have hcharges := charges_claimLua cfg (show pairingAddress ip ≠ .pairGlobal from nofun) h
  simp only [claimPairingAttempt, h, decide_eq_true_eq]
  exact hcharges

theorem charges_login (r : Redis) (username : String) (left : ℕ) :
    Charges cfg r (claimLoginAttempt cfg r username left).2
      ((if (claimLoginAttempt cfg r username left).1.usernameCharged
          then [Key.loginUser (cfg.digest username)] else []) ++
        if (claimLoginAttempt cfg r username left).1.globalCharged
          then [Key.loginGlobal] else []) := by
  unfold claimLoginAttempt
  split
  · exact Charges.refl cfg r
  rcases h : r.loginClaimLua (.loginUser (cfg.digest username)) .loginGlobal
    loginFailWindowSeconds cfg.loginFailMaxPerUsername cfg.loginFailMaxGlobal left with ⟨reply, r'⟩
  have hcharges := charges_loginClaimLua cfg
    (show Key.loginUser (cfg.digest username) ≠ .loginGlobal from nofun) h
  cases hallowed : reply.allowed with
  | false =>
    simp only [hallowed, Bool.false_eq_true, if_false] at hcharges ⊢
    exact hcharges
  | true =>
    simp only [hallowed, if_true] at hcharges ⊢
    exact hcharges

theorem charges_stepup (r : Redis) (account : String) :
    Charges cfg r (claimStepupAttempt r account).2
      (if (claimStepupAttempt r account).1 then [.stepup account] else []) := by
  obtain ⟨e, he⟩ := bump_spec r (.stepup account) stepupFailWindowSeconds
  simp only [claimStepupAttempt, he, decide_eq_true_eq]
  split
  next hallowed =>
    exact (Charges.refl cfg r).count List.not_mem_nil (Int.le_refl _) hallowed e
  next => exact (Charges.refl cfg r).set List.not_mem_nil (by omega) e

theorem count_charged (charged : List Key) (hnodup : charged.Nodup) (windows : Key → ℕ)
    (k : Key) :
    (charged.map fun k => (⟨k, windows k⟩ : Refund)).count ⟨k, windows k⟩ =
      if k ∈ charged then 1 else 0 := by
  have hinj : Function.Injective fun k => (⟨k, windows k⟩ : Refund) := fun _ _ h =>
    congrArg Refund.key h
  rw [List.count_map_of_injective charged _ hinj]
  exact hnodup.count

/-- A claim opens the window of a counter that was not there. -/
def World.opens (w : World) (redis : Redis) (k : Key) : Bool :=
  (w.redis k).isNone && (redis k).isSome

variable {charged : List Key} {redis r : Redis} {k : Key}

theorem Kept.books (h : Kept cfg w) (hnodup : charged.Nodup) (redis : Redis) (right : Bool)
    (k : Key) :
    (w.claimed charged redis right).wrong k + (w.claimed charged redis right).owed.count
        ⟨k, (w.claimed charged redis right).windows k⟩ =
      (if w.opens redis k then 0 else w.wrong k + w.owed.count ⟨k, w.windows k⟩) +
        if k ∈ charged then 1 else 0 := by
  have hcount := count_charged charged hnodup (w.claimed charged redis right).windows k
  have hold : w.owed.count ⟨k, (w.claimed charged redis right).windows k⟩ =
      if w.opens redis k then 0 else w.owed.count ⟨k, w.windows k⟩ := by
    cases hopens : w.opens redis k with
    | true =>
      have hwindow : (w.claimed charged redis right).windows k = w.windows k + 1 := if_pos hopens
      rw [hwindow, if_pos rfl, List.count_eq_zero]
      intro hmem
      have hpast : w.windows k + 1 ≤ w.windows k := h.past _ hmem
      omega
    | false =>
      have hwindow : (w.claimed charged redis right).windows k = w.windows k :=
        if_neg (ne_true_of_eq_false hopens)
      rw [hwindow, if_neg Bool.false_ne_true]
  have hwrong : (w.claimed charged redis right).wrong k =
      (if w.opens redis k then 0 else w.wrong k) +
        if k ∈ charged ∧ right = false then 1 else 0 := rfl
  cases right with
  | true =>
    have howed : (w.claimed charged redis true).owed =
        charged.map (fun k => ⟨k, (w.claimed charged redis true).windows k⟩) ++ w.owed := rfl
    rw [howed, List.count_append, hcount, hold, hwrong]
    simp only [Bool.true_eq_false, and_false, if_false]
    split <;> omega
  | false =>
    have howed : (w.claimed charged redis false).owed = w.owed := rfl
    rw [howed, hold, hwrong]
    simp only [and_true]
    split <;> omega

theorem Kept.claimed_counted (h : Kept cfg w) (hcharges : Charges cfg w.redis redis charged)
    (right : Bool) {c : Counter} (hk : redis k = some c) :
    (((w.claimed charged redis right).wrong k + (w.claimed charged redis right).owed.count
        ⟨k, (w.claimed charged redis right).windows k⟩ : ℕ) : ℤ) ≤ c.value := by
  have hvalue : ((if w.opens redis k then 0 else
      w.wrong k + w.owed.count ⟨k, w.windows k⟩ : ℕ) : ℤ) ≤ w.redis.value k := by
    unfold World.opens
    cases hold : w.redis k with
    | none =>
      rw [value_of_none hold, hk]
      rfl
    | some old =>
      rw [value_of_some hold]
      exact h.counted k old hold
  rw [h.books hcharges.nodup redis right k]
  by_cases hmem : k ∈ charged
  · obtain ⟨n, e, hset, hn, -⟩ := hcharges.counts k hmem
    rw [if_pos hmem, ← Option.some.inj (hset.symm.trans hk)]
    push_cast at hvalue ⊢
    omega
  · rw [if_neg hmem, Nat.add_zero]
    apply le_trans hvalue
    rcases hcharges.touched k with hsame | ⟨n, e, hset, hn⟩
    · rw [value_of_some (hsame.symm.trans hk)]
    · rw [← Option.some.inj (hset.symm.trans hk)]
      exact hn

theorem Kept.claimed (h : Kept cfg w) (hcharges : Charges cfg w.redis redis charged) (right : Bool) :
    Kept cfg (w.claimed charged redis right) where
  expires k c hk := by
    rcases hcharges.touched k with hsame | ⟨n, e, hset, -⟩
    · exact h.expires k c (hsame.symm.trans hk)
    · rw [← Option.some.inj (hset.symm.trans hk)]
      exact Option.some_ne_none e
  counted _ _ hk := h.claimed_counted hcharges right hk
  bounded k := by
    have hwrong : (w.claimed charged redis right).wrong k =
        (if w.opens redis k then 0 else w.wrong k) +
          if k ∈ charged ∧ right = false then 1 else 0 := rfl
    by_cases hmem : k ∈ charged ∧ right = false
    · obtain ⟨n, e, hset, hn, hlimit⟩ := hcharges.counts k hmem.1
      have hcounted : _ ≤ n := h.claimed_counted hcharges right hset
      omega
    · rw [hwrong, if_neg hmem, Nat.add_zero]
      have := h.bounded k
      split
      · exact le_max_left _ _
      · exact this
  past refund hmem := by
    have hgrow : ∀ k, w.windows k ≤ (w.claimed charged redis right).windows k := by
      intro k
      unfold World.claimed
      dsimp only
      split <;> omega
    have hold : refund ∈ w.owed →
        refund.window ≤ (w.claimed charged redis right).windows refund.key := fun hmem =>
      le_trans (h.past refund hmem) (hgrow _)
    cases right with
    | true =>
      rcases List.mem_append.mp hmem with hmem | hmem
      · obtain ⟨k, -, rfl⟩ := List.mem_map.mp hmem
        exact Nat.le_refl _
      · exact hold hmem
    | false => exact hold hmem

theorem refundAttempt_none (h : r k = none) : refundAttempt r k = r := by
  have hsome : (r k).isSome = false := by rw [h, Option.isSome_none]
  unfold refundAttempt refundLua stepupRefundLua
  cases k <;> simp [hsome]

theorem refundAttempt_some {c : Counter} (h : r k = some c) (hc : 0 < c.value) :
    refundAttempt r k = Function.update r k (some ⟨c.value - 1, c.expiry⟩) := by
  have hadd : (r.add k (-1)).2 = Function.update r k (some ⟨c.value - 1, c.expiry⟩) := by
    rw [Redis.add, value_of_some h, h]
    rfl
  have hsome : (r k).isSome = true := by rw [h, Option.isSome_some]
  have hpos : 0 < r.value k := by rwa [value_of_some h]
  rw [← hadd]
  unfold refundAttempt refundLua stepupRefundLua
  cases k <;> simp [hsome, hpos]

theorem Kept.refund (h : Kept cfg w) {refund : Refund} (hmem : refund ∈ w.owed)
    (htime : OnTime w (.refund refund)) :
    Kept cfg { w with
      redis := refundAttempt w.redis refund.key
      owed := w.owed.erase refund } := by
  have hpast : ∀ other ∈ w.owed.erase refund, other.window ≤ w.windows other.key :=
    fun other hother => h.past other (List.mem_of_mem_erase hother)
  have hless : ∀ k c, w.redis k = some c →
      ((w.wrong k + (w.owed.erase refund).count ⟨k, w.windows k⟩ : ℕ) : ℤ) ≤ c.value := by
    intro k c hk
    have hcounted := h.counted k c hk
    have := (List.erase_sublist (a := refund) (l := w.owed)).count_le ⟨k, w.windows k⟩
    omega
  cases hkey : w.redis refund.key with
  | none =>
    rw [refundAttempt_none hkey]
    exact ⟨h.expires, hless, h.bounded, hpast⟩
  | some c =>
    have hwindow : refund.window = w.windows refund.key :=
      htime.resolve_left (hkey ▸ Option.some_ne_none c)
    have hrefund : refund = ⟨refund.key, w.windows refund.key⟩ := by rw [← hwindow]
    have hcounted := h.counted refund.key c hkey
    have hone : 1 ≤ w.owed.count ⟨refund.key, w.windows refund.key⟩ := by
      rw [← hrefund]
      exact List.one_le_count_iff.mpr hmem
    rw [refundAttempt_some hkey (by omega)]
    refine ⟨fun k c' hk => ?_, fun k c' hk => ?_, h.bounded, hpast⟩
    · dsimp only at hk
      by_cases hk' : k = refund.key
      · subst hk'
        rw [Function.update_self] at hk
        rw [← Option.some.inj hk]
        exact h.expires _ c hkey
      · rw [Function.update_of_ne hk'] at hk
        exact h.expires k c' hk
    · dsimp only at hk
      by_cases hk' : k = refund.key
      · subst hk'
        rw [Function.update_self] at hk
        rw [← Option.some.inj hk]
        have herase : (w.owed.erase refund).count ⟨refund.key, w.windows refund.key⟩ =
            w.owed.count ⟨refund.key, w.windows refund.key⟩ - 1 := by
          rw [← hrefund, List.count_erase_self]
        dsimp only
        rw [herase]
        omega
      · rw [Function.update_of_ne hk'] at hk
        exact hless k c' hk

theorem Kept.expire (h : Kept cfg w) (k : Key) :
    Kept cfg { w with redis := Function.update w.redis k none } := by
  have hold : ∀ other c, Function.update w.redis k none other = some c →
      w.redis other = some c := by
    intro other c hother
    by_cases hk : other = k
    · subst hk
      rw [Function.update_self] at hother
      cases hother
    · rwa [Function.update_of_ne hk] at hother
  exact ⟨fun other c hother => h.expires other c (hold other c hother),
    fun other c hother => h.counted other c (hold other c hother), h.bounded, h.past⟩

theorem kept_start (cfg : Config) : Kept cfg World.start :=
  ⟨nofun, nofun, fun _ => le_max_left _ _, nofun⟩

theorem Kept.step {event : Event} (h : Kept cfg w) (htime : OnTime w event)
    (hstep : step cfg w event = some w') : Kept cfg w' := by
  cases event with
  | pairing ip right =>
    cases hstep
    exact h.claimed (charges_pairing w.redis ip) right
  | login username left right =>
    cases hstep
    exact h.claimed (charges_login w.redis username left) right
  | stepup account right =>
    cases hstep
    exact h.claimed (charges_stepup w.redis account) right
  | refund refund =>
    simp only [AttemptBudget.step] at hstep
    by_cases hmem : refund ∈ w.owed
    · rw [if_pos hmem, Option.some.injEq] at hstep
      subst hstep
      exact h.refund hmem htime
    · rw [if_neg hmem] at hstep
      cases hstep
  | expire k =>
    simp only [AttemptBudget.step] at hstep
    rcases hk : w.redis k with - | ⟨n, - | e⟩
    · rw [hk] at hstep
      cases hstep
    · rw [hk] at hstep
      cases hstep
    · rw [hk] at hstep
      cases hstep
      exact h.expire k

theorem addressApart (r : Redis) (ip : Option String)
    (h : cfg.limit (pairingAddress ip) ≤ r.value (pairingAddress ip)) :
    (claimPairingAttempt r ip).2 .pairGlobal = r .pairGlobal := by
  obtain ⟨e, he⟩ := bump_spec r (pairingAddress ip) pairingFailWindowSeconds
  have hover : pairingFailMaxPerIp < r.value (pairingAddress ip) + 1 := Int.lt_add_one_of_le h
  simp only [claimPairingAttempt, claimLua, he, if_pos hover]
  exact Function.update_of_ne (show Key.pairGlobal ≠ pairingAddress ip from nofun) ..

theorem usernameApart (r : Redis) (username : String) (left : ℕ)
    (hon : 0 < cfg.loginFailMaxPerUsername)
    (h : cfg.limit (.loginUser (cfg.digest username)) ≤
      r.value (.loginUser (cfg.digest username))) :
    (claimLoginAttempt cfg r username left).2 .loginGlobal = r .loginGlobal := by
  obtain ⟨e, he⟩ := bump_spec r (.loginUser (cfg.digest username)) loginFailWindowSeconds
  have hover : cfg.loginFailMaxPerUsername < r.value (.loginUser (cfg.digest username)) + 1 :=
    Int.lt_add_one_of_le h
  have hset : ¬ (cfg.loginFailMaxPerUsername ≤ 0 ∧ cfg.loginFailMaxGlobal ≤ 0) := fun hoff =>
    absurd hon (Int.not_lt.mpr hoff.1)
  simp only [claimLoginAttempt, if_neg hset, loginClaimLua, if_pos hon, he,
    decide_eq_true hover, if_true, Bool.false_eq_true, if_false]
  exact Function.update_of_ne
    (show Key.loginGlobal ≠ .loginUser (cfg.digest username) from nofun) ..

theorem Kept.safe (h : Kept cfg w) : Safe cfg w where
  expires := h.expires
  nonneg k c hk := le_trans (Int.natCast_nonneg _) (h.counted k c hk)
  bounded := h.bounded
  addressApart := addressApart w.redis
  usernameApart := usernameApart w.redis

/-- As long as no refund comes in a later window than its claim, every state of the run is safe. -/
theorem attempt_budgets_bound (cfg : Config) {events : List Event}
    (htime : Runs.Meets (step cfg) OnTime World.start events) :
    Runs.Along (step cfg) (Safe cfg) World.start events :=
  Runs.along_of_step (fun h htime hstep => h.step htime hstep) Kept.safe (kept_start cfg) htime

def sampleConfig : Config := ⟨10, 200, id⟩

/-- A right answer that is given back, wrong ones, and the end of a window. -/
def timelyRun : List Event :=
  [.stepup "amy" true, .refund ⟨.stepup "amy", 1⟩, .stepup "amy" false,
    .pairing (some "192.0.2.9") false, .login "amy" 0 false, .expire (.stepup "amy")]

theorem attempt_budgets_bound_timelyRun :
    Runs.Along (step sampleConfig) (Safe sampleConfig) World.start timelyRun := by
  apply attempt_budgets_bound
  refine Runs.Meets.cons trivial rfl (Runs.Meets.cons (.inr rfl) rfl ?_)
  refine Runs.Meets.cons trivial rfl (Runs.Meets.cons trivial rfl ?_)
  exact Runs.Meets.cons trivial rfl (Runs.Meets.cons trivial rfl trivial)

/-- Two right answers whose refunds come in the next window, after one wrong answer in it. -/
def lateRun : List Event :=
  [.stepup "amy" true, .stepup "amy" true, .expire (.stepup "amy"), .stepup "amy" false,
    .refund ⟨.stepup "amy", 1⟩, .refund ⟨.stepup "amy", 1⟩]

/-- The counter is left at minus one. -/
theorem late_refunds_not_safe :
    ¬ ∀ events, Runs.Along (step sampleConfig) (Safe sampleConfig) World.start events := by
  intro h
  have hthree := (((h lateRun).2 _ rfl).2 _ rfl).2 _ rfl
  have hlast := ((hthree.2 _ rfl).2 _ rfl).2 _ rfl
  have hnonneg : (0 : ℤ) ≤ -1 := hlast.start.nonneg (.stepup "amy") _ rfl
  exact absurd hnonneg (by decide)

end SpatiumDdi.Auth.AttemptBudget
