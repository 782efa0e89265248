import Mathlib.Data.List.MinMax
import Mathlib.Data.List.Sort
import SpatiumDdi.Lib.HashChain

/-!
The audit log's hash chain: how a flush hashes its new rows, and the walk that
verifies the table. `sha` stands for SHA-256 of a text and `dumps` for the
canonical JSON text of a row's hashed columns; nothing is assumed of either.
-/

namespace SpatiumDdi.Audit

/-- The hashed columns of a row. `J` is what a JSONB column holds. -/
structure AuditPayload (J : Type) where
  id : String
  timestamp : String
  userId : Option String
  userDisplayName : String
  authSource : String
  sourceIp : Option String
  userAgent : Option String
  action : String
  resourceType : String
  resourceId : String
  resourceDisplay : String
  oldValue : Option J
  newValue : Option J
  changedFields : Option J
  requestId : Option String
  result : String
  errorDetail : Option String

/-- A row as its writer adds it: the columns with a default may be unset. -/
structure StagedRow (J : Type) where
  id : Option String := none
  timestamp : Option String := none
  userId : Option String := none
  userDisplayName : String
  authSource : Option String := none
  sourceIp : Option String := none
  userAgent : Option String := none
  action : String
  resourceType : String
  resourceId : String
  resourceDisplay : String
  oldValue : Option J := none
  newValue : Option J := none
  changedFields : Option J := none
  requestId : Option String := none
  result : Option String := none
  errorDetail : Option String := none

/-- What a flush fills in: a fresh id for each row, the time, the request id
bound in the logging context, and the JSONB form of a value. -/
structure FlushContext (J : Type) where
  uuid4 : Nat → String
  now : String
  requestId : Option String
  normaliseJsonb : J → J

variable {J : Type}

/-- The defaults are filled in before the row is hashed; `n` is its place in
the flush. -/
def StagedRow.materialise (ctx : FlushContext J) (n : Nat) (row : StagedRow J) :
    AuditPayload J where
  id := row.id.getD (ctx.uuid4 n)
  timestamp := row.timestamp.getD ctx.now
  userId := row.userId
  userDisplayName := row.userDisplayName
  authSource := row.authSource.getD "local"
  sourceIp := row.sourceIp
  userAgent := row.userAgent
  action := row.action
  resourceType := row.resourceType
  resourceId := row.resourceId
  resourceDisplay := row.resourceDisplay
  oldValue := row.oldValue.map ctx.normaliseJsonb
  newValue := row.newValue.map ctx.normaliseJsonb
  changedFields := row.changedFields.map ctx.normaliseJsonb
  requestId := row.requestId.or (ctx.requestId.bind fun id =>
    if (String.ofList (id.toList.take 64)) = "" then none else some (String.ofList (id.toList.take 64)))
  result := row.result.getD "success"
  errorDetail := row.errorDetail

/-- A row that has its hashes but no `seq` yet. -/
structure HashedRow (J : Type) where
  payload : AuditPayload J
  prevHash : Option String
  rowHash : String

structure AuditLog (J : Type) extends HashedRow J where
  seq : Int

section Hashing

variable (sha : String → String) (dumps : AuditPayload J → String)

def hashRow (prevHash : Option String) (canonical : String) : String :=
  sha (prevHash.getD "" ++ "|" ++ canonical)

def chain : HashChain (HashedRow J) String where
  prev := HashedRow.prevHash
  own := HashedRow.rowHash
  recompute row := hashRow sha row.prevHash (dumps row.payload)

/-- The loop of `compute_audit_hashes` over the new rows, in add order. -/
def hashRows : Option String → List (AuditPayload J) → List (HashedRow J)
  | _, [] => []
  | prev, payload :: rest =>
    let rowHash := hashRow sha prev (dumps payload)
    { payload, prevHash := prev, rowHash } :: hashRows (some rowHash) rest

/-- `SELECT row_hash … ORDER BY seq DESC LIMIT 1` -/
def latestHash (visible : List (AuditLog J)) : Option String :=
  letI : Preorder Int := Int.instLinearOrder.toPreorder
  (visible.argmax AuditLog.seq).map (·.rowHash)

/-- What a flush writes, from the rows its transaction sees. -/
def computeAuditHashes (ctx : FlushContext J) (visible : List (AuditLog J))
    (newRows : List (StagedRow J)) : List (HashedRow J) :=
  hashRows sha dumps (latestHash visible)
    (newRows.mapIdx fun n row => row.materialise ctx n)

theorem linked_hashRows (prev : Option String) (payloads : List (AuditPayload J)) :
    (chain sha dumps).Linked prev (hashRows sha dumps prev payloads) := by
  induction payloads generalizing prev with
  | nil => trivial
  | cons payload rest ih => exact ⟨rfl, rfl, ih _⟩

end Hashing

structure ChainBreak where
  seq : Int
  auditId : String
  expectedHash : String
  actualHash : String
  reason : String
  action : String
  resourceType : String
  resourceId : String

structure ChainVerifyResult where
  ok : Bool
  rowsChecked : Nat
  breaks : List ChainBreak
  firstSeq : Option Int
  lastSeq : Option Int
  lastHash : Option String
  isPartial : Bool

structure Walk where
  lastSeq : Int
  expectedPrev : Option String
  rowsChecked : Nat := 0
  breaks : List ChainBreak := []
  seenSeq : Option Int
  firstSeq : Option Int := none
  lastHash : Option String

/-- One keyset page: `seq > last ORDER BY seq LIMIT limit`. -/
def selectPage (rows : List (AuditLog J)) (last : Int) (limit : Nat) : List (AuditLog J) :=
  ((rows.filter fun r => last < r.seq).insertionSort fun a b => a.seq ≤ b.seq).take limit

section Verifying

variable (sha : String → String) (dumps : AuditPayload J → String)

def rowBreak (row : AuditLog J) (expected actual reason : String) : ChainBreak :=
  { seq := row.seq, auditId := row.payload.id, expectedHash := expected, actualHash := actual,
    reason, action := row.payload.action, resourceType := row.payload.resourceType,
    resourceId := row.payload.resourceId }

def rowBreaks (expectedPrev : Option String) (row : AuditLog J) : List ChainBreak :=
  let recomputed := hashRow sha row.prevHash (dumps row.payload)
  (if row.prevHash ≠ expectedPrev then
    [rowBreak row (expectedPrev.getD "") (row.prevHash.getD "") "prev_hash_mismatch"] else []) ++
  (if recomputed ≠ row.rowHash then
    [rowBreak row recomputed row.rowHash "row_hash_mismatch"] else [])

def Walk.row (w : Walk) (row : AuditLog J) : Walk :=
  { w with
    rowsChecked := w.rowsChecked + 1
    firstSeq := w.firstSeq.or (some row.seq)
    breaks := w.breaks ++ rowBreaks sha dumps w.expectedPrev row
    expectedPrev := some row.rowHash }

def Walk.page (w : Walk) (page : List (AuditLog J)) : Walk :=
  let w' := page.foldl (Walk.row sha dumps) w
  match page.getLast? with
  | none => w'
  | some row => { w' with lastSeq := row.seq, seenSeq := some row.seq, lastHash := some row.rowHash }

/-- The loop over pages. It stops on a short page, or on `maxRows`; the flag is
whether it saw the end of the table. -/
def walk (rows : List (AuditLog J)) (chunkSize : Nat) (maxRows : Option Nat) :
    Nat → Walk → Option (Walk × Bool)
  | 0, _ => none
  | fuel + 1, w =>
    let limit := match maxRows with
      | none => chunkSize
      | some m => min chunkSize (m - w.rowsChecked)
    if limit = 0 then some (w, false)
    else
      let page := selectPage rows w.lastSeq limit
      let w' := w.page sha dumps page
      if page.length < limit then some (w', true) else walk rows chunkSize maxRows fuel w'

/-- The walk from the start, or behind an already verified row. -/
def startWalk (startAfter : Option (Int × String)) : Walk :=
  { lastSeq := (startAfter.map Prod.fst).getD 0, expectedPrev := startAfter.map Prod.snd,
    seenSeq := startAfter.map Prod.fst, lastHash := startAfter.map Prod.snd }

def verifyResult (rows : List (AuditLog J)) (windowAnchored : Bool) (w : Walk) (complete : Bool) :
    ChainVerifyResult :=
  let complete := complete || (rows.filter fun r => w.lastSeq < r.seq).isEmpty
  { ok := w.breaks.isEmpty, rowsChecked := w.rowsChecked, breaks := w.breaks,
    firstSeq := w.firstSeq, lastSeq := w.seenSeq, lastHash := w.lastHash,
    isPartial := windowAnchored || !complete }

/-- The row just before the newest `maxRows` ones: its `seq` and hash. -/
def windowAnchor (rows : List (AuditLog J)) (maxRows : Nat) : Option (Int × String) :=
  let newest := rows.insertionSort fun a b => b.seq ≤ a.seq
  newest[maxRows - 1]?.bind fun first =>
    ((newest.filter fun r => r.seq < first.seq).head?).map fun r => (r.seq, r.rowHash)

/-- `verify_chain`; the answer is `none` if the walk does not come to an end. -/
def verifyChain (rows : List (AuditLog J)) (maxRows : Option Nat := none)
    (startAfter : Option (Int × String) := none) (chunkSize : Nat := 5000)
    (newest : Bool := false) : Option ChainVerifyResult :=
  let window := match newest, maxRows, startAfter with
    | true, some m, none => windowAnchor rows m
    | _, _, _ => none
  let maxRows := if newest && startAfter.isNone then none else maxRows
  let startAfter := startAfter.or window
  (walk sha dumps rows (max 1 chunkSize) maxRows (rows.length + 2) (startWalk startAfter)).map
    fun r => verifyResult rows window.isSome r.1 r.2

end Verifying

/-- The rows are chained and stand in the order of their `seq`, from 1 on. -/
structure Chained (sha : String → String) (dumps : AuditPayload J → String)
    (rows : List (AuditLog J)) : Prop where
  sorted : rows.Pairwise fun a b => a.seq < b.seq
  pos : ∀ r ∈ rows, 0 < r.seq
  linked : (chain sha dumps).Linked none (rows.map AuditLog.toHashedRow)

theorem latestHash_eq {sha : String → String} {dumps : AuditPayload J → String}
    {rows : List (AuditLog J)} (h : rows.Pairwise fun a b => a.seq < b.seq) :
    latestHash rows = (chain sha dumps).tip none (rows.map AuditLog.toHashedRow) := by
  rcases List.eq_nil_or_concat' rows with rfl | ⟨init, r, rfl⟩
  · rfl
  have hlast : (init ++ [r]).argmax AuditLog.seq = some r := by
    rw [List.argmax_concat]
    cases hmax : init.argmax AuditLog.seq with
    | none => rfl
    | some m =>
      have hlt : m.seq < r.seq :=
        (List.pairwise_append.mp h).2.2 m (List.argmax_mem hmax) r (by simp)
      simp [hlt]
  rw [latestHash, hlast, List.map_append, HashChain.tip_append]
  rfl

section VerifierRun

variable {sha : String → String} {dumps : AuditPayload J → String} {rows : List (AuditLog J)}

/-- The walk stands between the rows it has seen and `todo`. -/
structure At (sha : String → String) (dumps : AuditPayload J → String) (rows todo : List (AuditLog J))
    (last : Int) (expected : Option String) : Prop where
  split : ∃ done, rows = done ++ todo ∧ (∀ r ∈ done, r.seq ≤ last) ∧
    expected = (chain sha dumps).tip none (done.map AuditLog.toHashedRow)
  ahead : ∀ r ∈ todo, last < r.seq

variable {todo : List (AuditLog J)} {last : Int} {expected : Option String} {r : AuditLog J}

section

variable (h : Chained sha dumps rows)
include h

section

variable (hat : At sha dumps rows todo last expected)
include hat

theorem At.linked : (chain sha dumps).Linked expected (todo.map AuditLog.toHashedRow) := by
  obtain ⟨done, rfl, -, rfl⟩ := hat.split
  have hlinked := h.linked
  rw [List.map_append, HashChain.linked_append] at hlinked
  exact hlinked.2

theorem At.selectPage (limit : Nat) : selectPage rows last limit = todo.take limit := by
  obtain ⟨done, rfl, hdone, -⟩ := hat.split
  have hfilter : (done ++ todo).filter (fun r => last < r.seq) = todo := by
    rw [List.filter_append, List.filter_eq_nil_iff.mpr fun r hr => by simpa using hdone r hr,
      List.filter_eq_self.mpr fun r hr => by simpa using hat.ahead r hr, List.nil_append]
  have hsorted : todo.Pairwise fun a b => a.seq ≤ b.seq :=
    (List.pairwise_append.mp h.sorted).2.1.imp Int.le_of_lt
  rw [Audit.selectPage, hfilter, hsorted.insertionSort_eq]

theorem At.drop {limit : Nat} (hr : (todo.take limit).getLast? = some r) :
    At sha dumps rows (todo.drop limit) r.seq
      ((chain sha dumps).tip expected ((todo.take limit).map AuditLog.toHashedRow)) := by
  obtain ⟨done, rfl, hdone, rfl⟩ := hat.split
  have htodo := List.take_append_drop limit todo
  have hmem : r ∈ todo.take limit := List.mem_of_getLast? hr
  have hsorted := (List.pairwise_append.mp h.sorted).2.1
  rw [← htodo] at hsorted
  obtain ⟨hpage, -, hcross⟩ := List.pairwise_append.mp hsorted
  constructor
  · refine ⟨done ++ todo.take limit, by rw [List.append_assoc, htodo], ?_, ?_⟩
    · intro q hq
      rcases List.mem_append.mp hq with hq | hq
      · have := hat.ahead r (List.mem_of_mem_take hmem)
        have := hdone q hq
        omega
      · obtain ⟨init, hinit⟩ := List.getLast?_eq_some_iff.mp hr
        rw [hinit] at hq hpage
        rcases List.mem_append.mp hq with hq | hq
        · exact Int.le_of_lt ((List.pairwise_append.mp hpage).2.2 q hq r (by simp))
        · rw [List.mem_singleton.mp hq]
    · rw [List.map_append, HashChain.tip_append]
  · exact fun q hq => hcross r hmem q hq

end

end

theorem rowBreaks_eq_nil {row : AuditLog J} (hprev : row.prevHash = expected)
    (hhash : hashRow sha row.prevHash (dumps row.payload) = row.rowHash) :
    rowBreaks sha dumps expected row = [] := by
  subst hprev
  simp [rowBreaks, hhash]

theorem foldl_row {page : List (AuditLog J)} {w : Walk}
    (h : (chain sha dumps).Linked w.expectedPrev (page.map AuditLog.toHashedRow)) :
    (page.foldl (Walk.row sha dumps) w).breaks = w.breaks ∧
      (page.foldl (Walk.row sha dumps) w).expectedPrev =
        (chain sha dumps).tip w.expectedPrev (page.map AuditLog.toHashedRow) ∧
      (page.foldl (Walk.row sha dumps) w).lastSeq = w.lastSeq := by
  induction page generalizing w with
  | nil => exact ⟨rfl, rfl, rfl⟩
  | cons row rest ih =>
    obtain ⟨hprev, hhash, hrest⟩ := h
    have hbreaks : (Walk.row sha dumps w row).breaks = w.breaks := by
      rw [Walk.row, rowBreaks_eq_nil hprev hhash, List.append_nil]
    obtain ⟨h₁, h₂, h₃⟩ := ih (w := Walk.row sha dumps w row) hrest
    refine ⟨h₁.trans hbreaks, ?_, h₃⟩
    rw [List.foldl_cons, h₂, List.map_cons, HashChain.tip_cons]
    rfl

theorem walk_ok (h : Chained sha dumps rows) (chunkSize : Nat) (maxRows : Option Nat) (fuel : Nat)
    {w : Walk} (hat : At sha dumps rows todo w.lastSeq w.expectedPrev) (hfuel : todo.length < fuel)
    (hbreaks : w.breaks = []) :
    ∃ w' complete, walk sha dumps rows chunkSize maxRows fuel w = some (w', complete) ∧
      w'.breaks = [] := by
  induction fuel generalizing todo w with
  | zero => omega
  | succ fuel ih =>
    unfold walk
    generalize (match maxRows with
      | none => chunkSize
      | some m => min chunkSize (m - w.rowsChecked)) = limit
    simp only [hat.selectPage h limit]
    have hpage : (chain sha dumps).Linked w.expectedPrev
        ((todo.take limit).map AuditLog.toHashedRow) := by
      have hlinked := hat.linked h
      rw [← List.take_append_drop limit todo, List.map_append, HashChain.linked_append] at hlinked
      exact hlinked.1
    obtain ⟨h₁, h₂, h₃⟩ := foldl_row hpage
    have hclean : (w.page sha dumps (todo.take limit)).breaks = [] := by
      unfold Walk.page
      split
      · exact h₁.trans hbreaks
      · exact h₁.trans hbreaks
    split
    · exact ⟨w, false, rfl, hbreaks⟩
    · rename_i hlimit
      split
      · exact ⟨_, true, rfl, hclean⟩
      · rename_i hfull
        have hlen : limit ≤ todo.length := by
          rw [List.length_take] at hfull
          omega
        obtain ⟨r, hr⟩ : ∃ r, (todo.take limit).getLast? = some r := by
          cases hr : (todo.take limit).getLast? with
          | some r => exact ⟨r, rfl⟩
          | none =>
            have := congrArg List.length (List.getLast?_eq_none_iff.mp hr)
            rw [List.length_take, List.length_nil] at this
            omega
        have hnext : At sha dumps rows (todo.drop limit)
            (w.page sha dumps (todo.take limit)).lastSeq
            (w.page sha dumps (todo.take limit)).expectedPrev := by
          simp only [Walk.page, hr]
          rw [h₂]
          exact hat.drop h hr
        exact ih hnext (by rw [List.length_drop]; omega) hclean

theorem At.after (h : Chained sha dumps rows) (hr : r ∈ rows) :
    ∃ todo, At sha dumps rows todo r.seq (some r.rowHash) ∧ todo.length ≤ rows.length := by
  obtain ⟨done, todo, rfl⟩ := List.append_of_mem hr
  have hsorted := h.sorted
  obtain ⟨-, hrest, hcross⟩ := List.pairwise_append.mp hsorted
  refine ⟨todo, ⟨⟨done ++ [r], by simp, ?_, ?_⟩, (List.pairwise_cons.mp hrest).1⟩, by simp; omega⟩
  · intro q hq
    rcases List.mem_append.mp hq with hq | hq
    · exact Int.le_of_lt (hcross q hq r (by simp))
    · rw [List.mem_singleton.mp hq]
  · rw [List.map_append, HashChain.tip_append]
    rfl

theorem windowAnchor_mem {maxRows : Nat} {anchor : Int × String}
    (h : windowAnchor rows maxRows = some anchor) :
    ∃ r ∈ rows, anchor = (r.seq, r.rowHash) := by
  simp only [windowAnchor, Option.bind_eq_some_iff, Option.map_eq_some_iff] at h
  obtain ⟨_, -, r, hr, rfl⟩ := h
  have hmem := List.mem_of_mem_filter (List.mem_of_mem_head? hr)
  exact ⟨r, (List.mem_insertionSort _).mp hmem, rfl⟩

theorem verifyChain_ok (h : Chained sha dumps rows) (maxRows : Option Nat)
    (startAfter : Option (AuditLog J)) (hstart : ∀ r, startAfter = some r → r ∈ rows)
    (chunkSize : Nat) (newest : Bool) :
    ∃ result, verifyChain sha dumps rows maxRows (startAfter.map fun r => (r.seq, r.rowHash))
      chunkSize newest = some result ∧ result.ok = true ∧ result.breaks = [] := by
  have hanchor : ∀ anchor : Option (Int × String),
      (∀ a, anchor = some a → ∃ r ∈ rows, a = (r.seq, r.rowHash)) →
      ∃ todo, At sha dumps rows todo (startWalk anchor).lastSeq (startWalk anchor).expectedPrev ∧
        todo.length ≤ rows.length := by
    intro anchor hmem
    cases anchor with
    | none => exact ⟨rows, ⟨⟨[], rfl, by simp, rfl⟩, h.pos⟩, Nat.le_refl _⟩
    | some a =>
      obtain ⟨r, hr, rfl⟩ := hmem a rfl
      exact At.after h hr
  unfold verifyChain
  generalize hwindow : (match newest, maxRows, startAfter.map fun r => (r.seq, r.rowHash) with
    | true, some m, none => windowAnchor rows m
    | _, _, _ => none) = window
  have hmem : ∀ a, (startAfter.map fun r => (r.seq, r.rowHash)).or window = some a →
      ∃ r ∈ rows, a = (r.seq, r.rowHash) := by
    intro a ha
    cases startAfter with
    | some r => exact ⟨r, hstart r rfl, (Option.some.inj ha).symm⟩
    | none =>
      simp only [Option.map_none, Option.none_or] at ha hwindow
      split at hwindow
      · exact windowAnchor_mem (hwindow.trans ha)
      · simp [← hwindow] at ha
  obtain ⟨todo, hat, hlen⟩ := hanchor _ hmem
  obtain ⟨w, complete, hwalk, hclean⟩ := walk_ok h (max 1 chunkSize)
    (if newest && (startAfter.map fun r => (r.seq, r.rowHash)).isNone then none else maxRows)
    (rows.length + 2) hat (by omega) rfl
  refine ⟨verifyResult rows window.isSome w complete, by simp only [hwalk, Option.map_some], ?_,
    hclean⟩
  simp only [verifyResult, hclean, List.isEmpty_nil]

end VerifierRun

end SpatiumDdi.Audit
