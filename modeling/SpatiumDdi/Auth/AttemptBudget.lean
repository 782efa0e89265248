import Mathlib.Data.Int.Notation
import Mathlib.Data.Nat.Notation
import Mathlib.Logic.Function.Basic

/-!
The budgets of wrong guesses (`core/auth_throttle.py`): the Lua scripts that spend an attempt and
give it back, and the functions that call them. An outage of Redis is left out.
-/

namespace SpatiumDdi.Auth.AttemptBudget

/-- The counters, by what stands behind the prefix of their key. -/
inductive Key where
  | pairAddress (ip : String)
  | pairGlobal
  | loginUser (digest : String)
  | loginGlobal
  | stepup (account : String)
  deriving DecidableEq

structure Counter where
  value : ℤ
  expiry : Option ℕ

abbrev Redis := Key → Option Counter

namespace Redis

variable (r : Redis) (k : Key)

def value : ℤ := ((r k).map (·.value)).getD 0

/-- `INCRBY`. -/
def add (n : ℤ) : ℤ × Redis :=
  (r.value k + n,
    Function.update r k (some ⟨r.value k + n, (r k).bind (·.expiry)⟩))

/-- `PTTL`, where `left` is what is left of an expiry. -/
def pttl (left : ℕ) : ℤ :=
  match r k with
  | none => -2
  | some ⟨_, none⟩ => -1
  | some ⟨_, some _⟩ => left

def expire (window : ℕ) : Redis :=
  Function.update r k ((r k).map fun c => { c with expiry := some window })

/-- `bump`, and `_INCR_WINDOW_LUA`. -/
def bump (window : ℕ) : ℤ × Redis :=
  let (n, r) := r.add k 1
  if r.pttl k 0 < 0 then (n, r.expire k window) else (n, r)

def claimLua (ipKey globalKey : Key) (window : ℕ) (maxIp maxGlobal : ℤ) : (ℤ × ℤ) × Redis :=
  let (ip, r) := r.bump ipKey window
  if maxIp < ip then ((ip, -1), r)
  else
    let (g, r) := r.bump globalKey window
    if maxGlobal < g then
      let (ip, r) := r.add ipKey (-1)
      ((ip, g), r)
    else ((ip, g), r)

def refundLua : ℤ × Redis :=
  if (r k).isSome ∧ 0 < r.value k then r.add k (-1) else (0, r)

def stepupRefundLua : ℤ × Redis := if (r k).isSome then r.add k (-1) else (0, r)

structure LoginReply where
  allowed : Bool
  usernameCharged : Bool
  globalCharged : Bool
  retryAfterMs : ℤ

def loginClaimLua (userKey globalKey : Key) (window : ℕ) (maxUser maxGlobal : ℤ) (left : ℕ) :
    LoginReply × Redis :=
  let (spent, uc, r) :=
    if 0 < maxUser then
      let (n, r) := r.bump userKey window
      (decide (maxUser < n), true, r)
    else (false, false, r)
  if spent then (⟨false, false, false, r.pttl userKey left⟩, r)
  else if 0 < maxGlobal then
    let (g, r) := r.bump globalKey window
    if maxGlobal < g then
      let r := if uc then (r.add userKey (-1)).2 else r
      (⟨false, false, false, r.pttl globalKey left⟩, r)
    else (⟨true, uc, true, 0⟩, r)
  else (⟨true, uc, false, 0⟩, r)

end Redis

def pairingFailMaxPerIp : ℤ := 10
def pairingFailMaxGlobal : ℤ := 100
def pairingFailWindowSeconds : ℕ := 15 * 60
def stepupFailMax : ℤ := 5
def stepupFailWindowSeconds : ℕ := 15 * 60
def loginFailWindowSeconds : ℕ := 15 * 60

structure Config where
  loginFailMaxPerUsername : ℤ
  loginFailMaxGlobal : ℤ
  digest : String → String

/-- The most wrong guesses a counter allows. -/
def Config.limit (cfg : Config) : Key → ℤ
  | .pairAddress _ => pairingFailMaxPerIp
  | .pairGlobal => pairingFailMaxGlobal
  | .loginUser _ => cfg.loginFailMaxPerUsername
  | .loginGlobal => cfg.loginFailMaxGlobal
  | .stepup _ => stepupFailMax

def retryAfterFromPttlMs (pttlMs fallback : ℤ) : ℤ :=
  if pttlMs < 0 then fallback else max 1 (-(-pttlMs / 1000))

structure LoginClaim where
  allowed : Bool
  retryAfter : ℤ := 0
  usernameCharged : Bool := false
  globalCharged : Bool := false

/-- The address of a claim: one that is missing or empty is `unknown`. -/
def pairingAddress (ip : Option String) : Key :=
  .pairAddress (match ip with
    | none | some "" => "unknown"
    | some ip => ip)

def claimPairingAttempt (r : Redis) (ip : Option String) : (Bool × ℤ × ℤ) × Redis :=
  let ((ipCount, globalCount), r) := r.claimLua (pairingAddress ip) .pairGlobal
    pairingFailWindowSeconds pairingFailMaxPerIp pairingFailMaxGlobal
  let allowed := decide (0 ≤ globalCount ∧ globalCount ≤ pairingFailMaxGlobal ∧
    ipCount ≤ pairingFailMaxPerIp)
  ((allowed, ipCount, globalCount), r)

def claimLoginAttempt (cfg : Config) (r : Redis) (username : String) (left : ℕ) :
    LoginClaim × Redis :=
  if cfg.loginFailMaxPerUsername ≤ 0 ∧ cfg.loginFailMaxGlobal ≤ 0 then ({ allowed := true }, r)
  else
    let (reply, r) := r.loginClaimLua (.loginUser (cfg.digest username)) .loginGlobal
      loginFailWindowSeconds cfg.loginFailMaxPerUsername cfg.loginFailMaxGlobal left
    if reply.allowed then
      ({ allowed := true
         usernameCharged := reply.usernameCharged
         globalCharged := reply.globalCharged }, r)
    else
      ({ allowed := false
         retryAfter := retryAfterFromPttlMs reply.retryAfterMs loginFailWindowSeconds }, r)

def claimStepupAttempt (r : Redis) (account : String) : Bool × Redis :=
  let (count, r) := r.bump (.stepup account) stepupFailWindowSeconds
  (decide (count ≤ stepupFailMax), r)

/-- What gives an attempt back to a counter: `refund_pairing_attempt` and `refund_login_attempt`
run one script, `refund_stepup_attempt` another. -/
def refundAttempt (r : Redis) : Key → Redis
  | .stepup account => (r.stepupRefundLua (.stepup account)).2
  | k => (r.refundLua k).2

/-- A refund that is to come, and the window of the counter that its claim was counted in. -/
structure Refund where
  key : Key
  window : ℕ
  deriving DecidableEq

/-- The counters, and the books of the claims that they allowed: the windows each counter has had,
the claims in its last window that turned out wrong, and the refunds to come. -/
structure World where
  redis : Redis
  windows : Key → ℕ
  wrong : Key → ℕ
  owed : List Refund

def World.start : World where
  redis _ := none
  windows _ := 0
  wrong _ := 0
  owed := []

/-- What a claim does. The counters in `charged` are those that an allowed claim was counted in. -/
def World.claimed (w : World) (charged : List Key) (redis : Redis) (right : Bool) : World :=
  let opens := fun k => (w.redis k).isNone && (redis k).isSome
  let windows := fun k => if opens k then w.windows k + 1 else w.windows k
  { redis := redis
    windows := windows
    wrong := fun k =>
      (if opens k then 0 else w.wrong k) + if k ∈ charged ∧ right = false then 1 else 0
    owed := if right then charged.map (fun k => ⟨k, windows k⟩) ++ w.owed else w.owed }

inductive Event where
  | pairing (ip : Option String) (right : Bool)
  | login (username : String) (left : ℕ) (right : Bool)
  | stepup (account : String) (right : Bool)
  | refund (refund : Refund)
  | expire (key : Key)

def step (cfg : Config) (w : World) : Event → Option World
  | .pairing ip right =>
    let ((allowed, _, _), redis) := claimPairingAttempt w.redis ip
    some (w.claimed (if allowed then [pairingAddress ip, .pairGlobal] else []) redis right)
  | .login username left right =>
    let (claim, redis) := claimLoginAttempt cfg w.redis username left
    let charged :=
      (if claim.usernameCharged then [Key.loginUser (cfg.digest username)] else []) ++
        if claim.globalCharged then [Key.loginGlobal] else []
    some (w.claimed charged redis right)
  | .stepup account right =>
    let (allowed, redis) := claimStepupAttempt w.redis account
    some (w.claimed (if allowed then [.stepup account] else []) redis right)
  | .refund refund =>
    if refund ∈ w.owed then
      some { w with
        redis := refundAttempt w.redis refund.key
        owed := w.owed.erase refund }
    else none
  | .expire k =>
    match w.redis k with
    | some ⟨_, some _⟩ => some { w with redis := Function.update w.redis k none }
    | _ => none

end SpatiumDdi.Auth.AttemptBudget
