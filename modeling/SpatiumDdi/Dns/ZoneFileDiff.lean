import Mathlib.Data.List.Dedup
import Mathlib.Data.List.Sort
import SpatiumDdi.Dns.Txt

/-!
The diff of a zone-file import (`services/dns_io/diff.py`) and its commit.

A record's key is its name, its type and the canonical form of its value. The file's
records are taken in order, the first of each key, and compared with the rows of that key
in the import's scope; the rows of no key in the file are deleted. The interpreter's case
folding and `svcb_canonical` are parameters.
-/

namespace SpatiumDdi.Dns.ZoneFile

open Text (strip rstripDots)

structure Forms where
  lower : String → String
  upper : String → String
  isPrintable : Char → Bool
  svcbCanonical : String → String → String

structure ParsedRecord where
  name : String
  recordType : String
  value : String
  ttl : Option Int := none
  priority : Option Int := none
  weight : Option Int := none
  port : Option Int := none
deriving DecidableEq

structure DNSRecord where
  id : Nat
  name : String
  recordType : String
  value : String
  ttl : Option Int := none
  priority : Option Int := none
  weight : Option Int := none
  port : Option Int := none
  viewId : Option Nat := none
  poolMemberId : Option Nat := none
  tailscaleTenantId : Option Nat := none
  netbirdInstanceId : Option Nat := none
  kubernetesClusterId : Option Nat := none
  /-- The tag of an ACME challenge is set. -/
  acmeTag : Bool := false
  autoGenerated : Bool := false
  ipAlias : Bool := false
  ipAddressId : Option Nat := none
  importSource : Option String := none
deriving DecidableEq

inductive Owner where
  | pool
  | tailscale
  | netbird
  | kubernetes
  | acme
  | ipam
  | ddns
deriving DecidableEq

def externalImportSource : String := "ddns_external"

def managedBy (record : DNSRecord) : Option Owner :=
  if record.poolMemberId.isSome then some .pool
  else if record.tailscaleTenantId.isSome then some .tailscale
  else if record.netbirdInstanceId.isSome then some .netbird
  else if record.kubernetesClusterId.isSome then some .kubernetes
  else if record.acmeTag then some .acme
  else if record.autoGenerated || record.ipAlias || record.ipAddressId.isSome then some .ipam
  else if record.importSource = some externalImportSource then some .ddns
  else none

def Owner.reason : Owner → String
  | .ipam => "generated by IPAM; edit the IP address instead"
  | .pool => "managed by a DNS pool; edit the pool member instead"
  | .tailscale => "synthesised by the Tailscale integration"
  | .netbird => "synthesised by the NetBird integration"
  | .kubernetes => "mirrored from a Kubernetes cluster"
  | .acme => "an ACME challenge record; its certificate order removes it"
  | .ddns => "registered by a dynamic-update client in the live zone; " ++
      "delete it from the record list to remove it"

def managedReason (record : DNSRecord) : Option String := (managedBy record).map Owner.reason

section Keys

variable (F : Forms)

def absName (v zone : String) : String :=
  let v := F.lower (strip v)
  if v = "" ∨ v = "@" then zone else if v.endsWith "." then v else v ++ "." ++ zone

def rpartitionSpace (s : String) : Option (String × String) :=
  let tail := s.toList.reverse.takeWhile (· ≠ ' ')
  match s.toList.reverse.dropWhile (· ≠ ' ') with
  | [] => none
  | _ :: head => some (String.ofList head.reverse, String.ofList tail.reverse)

def nameValuedTypes : List String := ["CNAME", "DNAME", "NS", "PTR", "MX", "SRV"]

def canonicalValue (rtype value : String) (zone : Option String) : String :=
  match zone with
  | none => value
  | some zone =>
    if rtype = "TXT" then String.ofList (Txt.quoteTxt F.isPrintable value.toList)
    else if rtype ∈ nameValuedTypes then absName F value zone
    else if rtype = "NAPTR" then
      match rpartitionSpace (strip value) with
      | some (head, replacement) => F.lower head ++ " " ++ absName F replacement zone
      | none => value
    else if rtype = "SVCB" ∨ rtype = "HTTPS" then F.svcbCanonical (strip value) zone
    else value

abbrev Key := String × String × String

def recordKey (name rtype value : String) (zone : Option String) : Key :=
  (F.lower name, F.upper rtype, canonicalValue F (F.upper rtype) value zone)

/-- `zone` of `diff_records`: the name, lower case and with one dot. -/
def zoneOrigin (zoneName : Option String) : Option String :=
  match zoneName with
  | none => none
  | some name => if name = "" then none else some (rstripDots (F.lower name) ++ ".")

end Keys

inductive Op where
  | create
  | update
  | delete
  | unchanged
deriving DecidableEq

structure RecordChange where
  op : Op
  name : String
  recordType : String
  value : String
  ttl : Option Int
  priority : Option Int
  weight : Option Int
  port : Option Int
  existingId : Option Nat
  viewId : Option Nat
deriving DecidableEq

/-- A line of `skipped`, and the name, type and value of the record it is about. -/
structure Skipped where
  record : Option (String × String × String)
  text : String
deriving DecidableEq

structure ZoneDiff where
  toCreate : List RecordChange := []
  toUpdate : List RecordChange := []
  toDelete : List RecordChange := []
  unchanged : List RecordChange := []
  skipped : List Skipped := []
deriving DecidableEq

def ZoneDiff.concat (parts : List ZoneDiff) : ZoneDiff where
  toCreate := parts.flatMap (·.toCreate)
  toUpdate := parts.flatMap (·.toUpdate)
  toDelete := parts.flatMap (·.toDelete)
  unchanged := parts.flatMap (·.unchanged)
  skipped := parts.flatMap (·.skipped)

/-- The keyword arguments of `diff_records`; `viewNames` is `view_names.get(v, str(v))`. -/
structure Import where
  zoneDefaultTtl : Option Int
  viewId : Option Nat
  viewNames : Nat → String
  replace : Bool
  zoneName : Option String

section Diff

variable (F : Forms) (args : Import)

def fileKey (p : ParsedRecord) : Key :=
  recordKey F p.name p.recordType p.value (zoneOrigin F args.zoneName)

def rowKey (r : DNSRecord) : Key :=
  recordKey F r.name r.recordType r.value (zoneOrigin F args.zoneName)

/-- `_label`, and what it is made of. -/
def ParsedRecord.triple (p : ParsedRecord) : String × String × String :=
  (p.name, p.recordType, p.value)

def DNSRecord.triple (r : DNSRecord) : String × String × String := (r.name, r.recordType, r.value)

def label (t : String × String × String) : String := t.1 ++ " " ++ t.2.1 ++ " " ++ t.2.2

def scopeName (viewId : Option Nat) : String :=
  match viewId with
  | none => "shared (no view)"
  | some v => "view " ++ args.viewNames v

def inScope (existing : List DNSRecord) : List DNSRecord :=
  existing.filter (·.viewId = args.viewId)

def outOfScope (existing : List DNSRecord) : List DNSRecord :=
  existing.filter (·.viewId ≠ args.viewId)

def shared (existing : List DNSRecord) : List DNSRecord :=
  (outOfScope args existing).filter (·.viewId = none)

def inViews (existing : List DNSRecord) : List DNSRecord :=
  (outOfScope args existing).filter (·.viewId ≠ none)

def withKey (rows : List DNSRecord) (key : Key) : List DNSRecord :=
  rows.filter (rowKey F args · = key)

/-- The items of a dictionary of rows, by the first row of each key. -/
def grouped (rows : List DNSRecord) : List (Key × List DNSRecord) :=
  (rows.map (rowKey F args)).eraseDups.map fun key => (key, withKey F args rows key)

def effective (ttl : Option Int) : Option Int := ttl.or args.zoneDefaultTtl

/-- `in_scope.get(key) or shared.get(key) or []` -/
def served (existing : List DNSRecord) (key : Key) : List DNSRecord :=
  if withKey F args (inScope args existing) key = [] then withKey F args (shared args existing) key
  else withKey F args (inScope args existing) key

def rrset (p : ParsedRecord) : String × String := (F.lower p.name, F.upper p.recordType)

/-- `rrset_min`, of the TTLs that the keys of the file's records have. -/
def rrsetMin (parsed : List ParsedRecord) (ttls : Key → List (Option Int))
    (rk : String × String) : Option Int :=
  ((parsed.filter (rrset F · = rk)).flatMap fun p =>
    (ttls (fileKey F args p)).filterMap (effective args)).min?

def ttlDiffers (p : ParsedRecord) (row : DNSRecord) : Bool :=
  match row.ttl, args.zoneDefaultTtl with
  | none, some default => p.ttl.isSome && p.ttl ≠ some default
  | _, _ => p.ttl.getD 0 ≠ row.ttl.getD 0

def metaChanged (p : ParsedRecord) (row : DNSRecord) : Bool :=
  p.priority ≠ row.priority || p.weight ≠ row.weight || p.port ≠ row.port

section Record

variable (lowest : String × String → Option Int)

def ttlChanged (p : ParsedRecord) (row : DNSRecord) : Bool :=
  ttlDiffers args p row && p.ttl ≠ lowest (rrset F p)

def changed (p : ParsedRecord) (row : DNSRecord) : Bool :=
  ttlChanged F args lowest p row || metaChanged p row

def ParsedRecord.change (p : ParsedRecord) (op : Op) (ttl : Option Int) (existingId : Option Nat)
    (viewId : Option Nat) : RecordChange where
  op := op
  name := p.name
  recordType := p.recordType
  value := p.value
  ttl := ttl
  priority := p.priority
  weight := p.weight
  port := p.port
  existingId := existingId
  viewId := viewId

def unchangedOf (p : ParsedRecord) (row : DNSRecord) : RecordChange :=
  p.change .unchanged p.ttl (some row.id) row.viewId

def updateOf (p : ParsedRecord) (row : DNSRecord) : RecordChange :=
  p.change .update (if ttlChanged F args lowest p row then p.ttl else row.ttl) (some row.id)
    row.viewId

def createOf (p : ParsedRecord) : RecordChange := p.change .create p.ttl none args.viewId

def deleteOf (row : DNSRecord) : RecordChange where
  op := .delete
  name := row.name
  recordType := row.recordType
  value := row.value
  ttl := row.ttl
  priority := row.priority
  weight := row.weight
  port := row.port
  existingId := some row.id
  viewId := row.viewId

/-- A record against one row of its key in scope. -/
def diffRow (p : ParsedRecord) (row : DNSRecord) : ZoneDiff :=
  if !changed F args lowest p row then { unchanged := [unchangedOf p row] }
  else
    match managedReason row with
    | some reason =>
      { skipped := [⟨some p.triple,
          label p.triple ++ ": not changed - this record is " ++ reason⟩] }
    | none => { toUpdate := [updateOf F args lowest p row] }

/-- A record against a shared row that serves the import's view. -/
def diffShared (p : ParsedRecord) (row : DNSRecord) : ZoneDiff :=
  if changed F args lowest p row then
    { skipped := [⟨some p.triple,
        label p.triple ++ ": not changed - this record is shared by every view; " ++
          "import it without a view to change it"⟩] }
  else { unchanged := [unchangedOf p row] }

def joinSorted (names : List String) : String :=
  ", ".intercalate (names.dedup.insertionSort (· ≤ ·))

def diffInViews (p : ParsedRecord) (rows : List DNSRecord) : ZoneDiff :=
  { skipped := [⟨some p.triple,
      label p.triple ++ ": not created - it exists only in " ++
        joinSorted (rows.map fun r => scopeName args r.viewId) ++
        "; a shared copy would render in every view. Import into a view to manage view records"⟩] }

/-- The body of the loop over the file's records. -/
def diffRecord (existing : List DNSRecord) (p : ParsedRecord) : ZoneDiff :=
  let key := fileKey F args p
  match withKey F args (inScope args existing) key with
  | row :: rows => .concat ((row :: rows).map (diffRow F args lowest p))
  | [] =>
    match args.viewId, withKey F args (shared args existing) key,
        withKey F args (inViews args existing) key with
    | some _, row :: _, _ => diffShared F args lowest p row
    | none, _, row :: rows => diffInViews args p (row :: rows)
    | _, _, _ => { toCreate := [createOf args p] }

end Record

def firsts (seen : List Key) : List ParsedRecord → List ParsedRecord
  | [] => []
  | p :: rest =>
    if fileKey F args p ∈ seen then firsts seen rest
    else p :: firsts (fileKey F args p :: seen) rest

/-- A row in scope whose key the file does not have. -/
def diffLeft (row : DNSRecord) : ZoneDiff :=
  match managedReason row with
  | some reason =>
    if args.replace then
      { skipped := [⟨some row.triple,
          label row.triple ++ ": not deleted - this record is " ++ reason⟩] }
    else {}
  | none => { toDelete := [deleteOf row] }

def outsideLine (existing : List DNSRecord) : ZoneDiff :=
  let rows := outOfScope args existing
  if args.replace && !rows.isEmpty then
    let scopes := rows.map fun r => scopeName args r.viewId
    let parts := (scopes.dedup.insertionSort (· ≤ ·)).map fun scope =>
      toString (scopes.count scope) ++ " " ++ scope
    { skipped := [⟨none, "not deleted: " ++ toString rows.length ++
        " record(s) outside this import's scope (" ++ scopeName args args.viewId ++
        ") were left in place - " ++ ", ".intercalate parts⟩] }
  else {}

def diffRecords (parsed : List ParsedRecord) (existing : List DNSRecord) : ZoneDiff :=
  let lowest := rrsetMin F args parsed fun key => (served F args existing key).map (·.ttl)
  let seenKeys := parsed.map (fileKey F args)
  let left := (grouped F args (inScope args existing)).filter fun item => item.1 ∉ seenKeys
  .concat ((firsts F args [] parsed).map (diffRecord F args lowest existing) ++
    left.flatMap (fun item => item.2.map (diffLeft args)) ++ [outsideLine args existing])

end Diff

def DNSRecord.write (row : DNSRecord) (change : RecordChange) : DNSRecord :=
  { row with
    ttl := change.ttl
    priority := change.priority
    weight := change.weight
    port := change.port }

def updated (changes : List RecordChange) (row : DNSRecord) : DNSRecord :=
  match changes.find? (·.existingId = some row.id) with
  | some change => row.write change
  | none => row

def newRow (newId : RecordChange → Nat) (change : RecordChange) : DNSRecord where
  id := newId change
  name := change.name
  recordType := change.recordType
  value := change.value
  ttl := change.ttl
  priority := change.priority
  weight := change.weight
  port := change.port
  viewId := change.viewId

/-- The zone's rows after a replace; new rows get the ids that the database gives them. -/
def applyDiff (newId : RecordChange → Nat) (diff : ZoneDiff) (existing : List DNSRecord) :
    List DNSRecord :=
  (existing.filter fun row => !(diff.toDelete.any (·.existingId = some row.id))).map
      (updated diff.toUpdate) ++
    diff.toCreate.map (newRow newId)

section Records

variable (F : Forms) (args : Import)

def fileRecord (parsed : List ParsedRecord) (key : Key) : Option ParsedRecord :=
  parsed.find? (fileKey F args · = key)

def SameData (p : ParsedRecord) (priority weight port : Option Int) : Prop :=
  p.priority = priority ∧ p.weight = weight ∧ p.port = port

def Matches (p : ParsedRecord) (row : DNSRecord) : Prop :=
  rowKey F args row = fileKey F args p ∧ SameData p row.priority row.weight row.port

/-- A row that serves the scope and that a replace leaves as it is. -/
def Kept (row : DNSRecord) : Prop :=
  (row.viewId = args.viewId ∧ (managedReason row).isSome) ∨
    (row.viewId ≠ args.viewId ∧ row.viewId = none)

variable (existing : List DNSRecord)

/-- No row serves the record's key in scope, and a shared import finds none in views. -/
def IsNew (p : ParsedRecord) : Prop :=
  served F args existing (fileKey F args p) = [] ∧
    (args.viewId = none → withKey F args (inViews args existing) (fileKey F args p) = [])

/-- The operator's rows of the record's key in scope. -/
def Owned (p : ParsedRecord) (row : DNSRecord) : Prop :=
  row ∈ withKey F args (inScope args existing) (fileKey F args p) ∧ managedReason row = none

variable (parsed : List ParsedRecord)

/-- `rrset_min` before the import. -/
def lowestNow : String × String → Option Int :=
  rrsetMin F args parsed fun key => (served F args existing key).map (·.ttl)

/-- The record is left out with a line: it is managed, shared by every view, or in views
only. -/
def Refused (f : ParsedRecord) : Prop :=
  (∃ row ∈ withKey F args (inScope args existing) (fileKey F args f),
      (managedReason row).isSome ∧ changed F args (lowestNow F args existing parsed) f row) ∨
  (withKey F args (inScope args existing) (fileKey F args f) = [] ∧ args.viewId ≠ none ∧
    ∃ row rest, withKey F args (shared args existing) (fileKey F args f) = row :: rest ∧
      changed F args (lowestNow F args existing parsed) f row) ∨
  (withKey F args (inScope args existing) (fileKey F args f) = [] ∧ args.viewId = none ∧
    withKey F args (inViews args existing) (fileKey F args f) ≠ [])

end Records

section Lists

variable {F : Forms} {args : Import} {existing : List DNSRecord} {parsed : List ParsedRecord}
  {p f : ParsedRecord} {key : Key} {row : DNSRecord} {c : RecordChange}

theorem mem_firsts {seen : List Key} :
    p ∈ firsts F args seen parsed ↔
      fileKey F args p ∉ seen ∧ fileRecord F args parsed (fileKey F args p) = some p := by
  induction parsed generalizing seen with
  | nil => simp [firsts, fileRecord]
  | cons q rest ih =>
    by_cases hkey : fileKey F args q = fileKey F args p
    · have hfind : fileRecord F args (q :: rest) (fileKey F args p) = some q :=
        List.find?_cons_of_pos (by simpa using hkey)
      rw [firsts, hfind]
      split
      next hseen =>
        rw [ih]
        constructor
        · rintro ⟨hnot, -⟩
          exact absurd (hkey ▸ hseen) hnot
        · rintro ⟨hnot, -⟩
          exact absurd (hkey ▸ hseen) hnot
      next hnew =>
        rw [List.mem_cons, ih, hkey]
        constructor
        · rintro (rfl | ⟨hnot, -⟩)
          · exact ⟨hkey ▸ hnew, rfl⟩
          · exact absurd List.mem_cons_self hnot
        · rintro ⟨-, hq⟩
          exact .inl (Option.some.inj hq).symm
    · have hfind : fileRecord F args (q :: rest) (fileKey F args p) =
          fileRecord F args rest (fileKey F args p) :=
        List.find?_cons_of_neg (by simpa using hkey)
      have hne : p ≠ q := by
        rintro rfl
        exact hkey rfl
      rw [firsts, hfind]
      split
      · exact ih
      · rw [List.mem_cons, ih, List.mem_cons, not_or]
        simp [hne, Ne.symm hkey]

def First (F : Forms) (args : Import) (parsed : List ParsedRecord) (f : ParsedRecord) : Prop :=
  fileRecord F args parsed (fileKey F args f) = some f

theorem First.mem (h : First F args parsed f) : f ∈ parsed :=
  List.mem_of_find?_eq_some h

theorem fileRecord_key (h : fileRecord F args parsed key = some f) : fileKey F args f = key := by
  simpa using List.find?_some h

theorem fileRecord_first (h : fileRecord F args parsed key = some f) : First F args parsed f := by
  rw [First, fileRecord_key h, h]

theorem exists_fileRecord (F : Forms) (args : Import) (hp : p ∈ parsed) :
    ∃ f, fileRecord F args parsed (fileKey F args p) = some f :=
  Option.isSome_iff_exists.mp (List.find?_isSome.mpr ⟨p, hp, by simp⟩)

theorem mem_withKey {rows : List DNSRecord} :
    row ∈ withKey F args rows key ↔ row ∈ rows ∧ rowKey F args row = key := by
  simp [withKey]

theorem mem_inScope : row ∈ inScope args existing ↔ row ∈ existing ∧ row.viewId = args.viewId := by
  simp [inScope]

theorem mem_shared :
    row ∈ shared args existing ↔
      row ∈ existing ∧ row.viewId ≠ args.viewId ∧ row.viewId = none := by
  rw [shared, outOfScope, List.mem_filter, List.mem_filter, decide_eq_true_eq, decide_eq_true_eq,
    and_assoc]

theorem shared_eq_nil (h : args.viewId = none) : shared args existing = [] := by
  rw [List.eq_nil_iff_forall_not_mem]
  intro row hrow
  obtain ⟨-, hne, hnone⟩ := mem_shared.mp hrow
  exact hne (hnone.trans h.symm)

theorem served_eq_nil_iff : served F args existing key = [] ↔
    withKey F args (inScope args existing) key = [] ∧
      withKey F args (shared args existing) key = [] := by
  rw [served]
  split
  next hnil => simp [hnil]
  next hne => simp [hne]

theorem diffRecord_cases (existing : List DNSRecord) (lowest : String × String → Option Int) (p : ParsedRecord) :
    (withKey F args (inScope args existing) (fileKey F args p) ≠ [] ∧
      diffRecord F args lowest existing p =
        .concat ((withKey F args (inScope args existing) (fileKey F args p)).map
          (diffRow F args lowest p))) ∨
    (IsNew F args existing p ∧ withKey F args (inScope args existing) (fileKey F args p) = [] ∧
      diffRecord F args lowest existing p = { toCreate := [createOf args p] }) ∨
    (withKey F args (inScope args existing) (fileKey F args p) = [] ∧ args.viewId ≠ none ∧
      ∃ row rest, withKey F args (shared args existing) (fileKey F args p) = row :: rest ∧
        diffRecord F args lowest existing p = diffShared F args lowest p row) ∨
    (withKey F args (inScope args existing) (fileKey F args p) = [] ∧ args.viewId = none ∧
      withKey F args (inViews args existing) (fileKey F args p) ≠ [] ∧
        diffRecord F args lowest existing p = diffInViews args p
          (withKey F args (inViews args existing) (fileKey F args p))) := by
  rw [diffRecord]
  cases hscope : withKey F args (inScope args existing) (fileKey F args p) with
  | cons row rows => exact .inl ⟨List.cons_ne_nil _ _, rfl⟩
  | nil =>
    right
    cases hview : args.viewId with
    | none =>
      have hshared : withKey F args (shared args existing) (fileKey F args p) = [] := by
        rw [shared_eq_nil hview]
        rfl
      cases hviews : withKey F args (inViews args existing) (fileKey F args p) with
      | nil => exact .inl ⟨⟨served_eq_nil_iff.mpr ⟨hscope, hshared⟩, fun _ => hviews⟩, rfl, rfl⟩
      | cons row rows => exact .inr (.inr ⟨rfl, rfl, List.cons_ne_nil _ _, rfl⟩)
    | some view =>
      cases hshared : withKey F args (shared args existing) (fileKey F args p) with
      | nil =>
        refine .inl ⟨⟨served_eq_nil_iff.mpr ⟨hscope, hshared⟩, fun hnone => ?_⟩, rfl, rfl⟩
        rw [hview] at hnone
        cases hnone
      | cons row rest => exact .inr (.inl ⟨rfl, by simp, row, rest, rfl, rfl⟩)

section Parts

variable (lowest : String × String → Option Int) {p : ParsedRecord} {row : DNSRecord}
  {c : RecordChange}

theorem mem_toUpdate_diffRow : c ∈ (diffRow F args lowest p row).toUpdate ↔
    changed F args lowest p row = true ∧ managedReason row = none ∧
      c = updateOf F args lowest p row := by
  rw [diffRow]
  cases hchanged : changed F args lowest p row with
  | false => simp
  | true => cases hreason : managedReason row <;> simp

theorem diffRow_lists : (diffRow F args lowest p row).toCreate = [] ∧
    (diffRow F args lowest p row).toDelete = [] := by
  rw [diffRow]
  cases changed F args lowest p row with
  | false => exact ⟨rfl, rfl⟩
  | true => cases managedReason row <;> exact ⟨rfl, rfl⟩

theorem diffShared_lists : (diffShared F args lowest p row).toCreate = [] ∧
    (diffShared F args lowest p row).toUpdate = [] ∧
      (diffShared F args lowest p row).toDelete = [] := by
  rw [diffShared]
  cases changed F args lowest p row <;> exact ⟨rfl, rfl, rfl⟩

theorem mem_toCreate_diffRecord : c ∈ (diffRecord F args lowest existing p).toCreate ↔
    IsNew F args existing p ∧ c = createOf args p := by
  have hserved : ∀ {rows}, withKey F args rows (fileKey F args p) ≠ [] →
      rows = inScope args existing ∨ rows = shared args existing → ¬IsNew F args existing p := by
    rintro rows hne hrows ⟨hnil, -⟩
    rw [served_eq_nil_iff] at hnil
    rcases hrows with rfl | rfl
    · exact hne hnil.1
    · exact hne hnil.2
  rcases diffRecord_cases existing lowest p with ⟨hne, heq⟩ | ⟨hnew, -, heq⟩ |
    ⟨-, -, row, rest, hrows, heq⟩ | ⟨-, hview, hne, heq⟩
  · have hnot := hserved hne (.inl rfl)
    rw [heq]
    simp [ZoneDiff.concat, (diffRow_lists lowest).1, hnot]
  · rw [heq]
    simp [hnew]
  · have hnot := hserved (by rw [hrows]; exact List.cons_ne_nil _ _) (.inr rfl)
    rw [heq]
    simp [(diffShared_lists lowest).1, hnot]
  · have hnot : ¬IsNew F args existing p := fun hnew => hne (hnew.2 hview)
    rw [heq]
    simp [diffInViews, hnot]

theorem mem_toUpdate_diffRecord : c ∈ (diffRecord F args lowest existing p).toUpdate ↔
    ∃ row, Owned F args existing p row ∧ changed F args lowest p row = true ∧
      c = updateOf F args lowest p row := by
  have hnone : withKey F args (inScope args existing) (fileKey F args p) = [] →
      ¬∃ row, Owned F args existing p row ∧ changed F args lowest p row = true ∧
        c = updateOf F args lowest p row := by
    rintro hnil ⟨row, ⟨hrow, -⟩, -⟩
    rw [hnil] at hrow
    cases hrow
  rcases diffRecord_cases existing lowest p with ⟨-, heq⟩ | ⟨-, hnil, heq⟩ |
    ⟨hnil, -, row, rest, -, heq⟩ | ⟨hnil, -, -, heq⟩
  · rw [heq]
    simp only [ZoneDiff.concat, List.mem_flatMap, List.mem_map]
    constructor
    · rintro ⟨-, ⟨row, hrow, rfl⟩, hc⟩
      obtain ⟨hchanged, hreason, rfl⟩ := (mem_toUpdate_diffRow lowest).mp hc
      exact ⟨row, ⟨hrow, hreason⟩, hchanged, rfl⟩
    · rintro ⟨row, ⟨hrow, hreason⟩, hchanged, rfl⟩
      exact ⟨_, ⟨row, hrow, rfl⟩, (mem_toUpdate_diffRow lowest).mpr ⟨hchanged, hreason, rfl⟩⟩
  · rw [heq]
    exact iff_of_false List.not_mem_nil (hnone hnil)
  · rw [heq, (diffShared_lists lowest).2.1]
    exact iff_of_false List.not_mem_nil (hnone hnil)
  · rw [heq]
    exact iff_of_false List.not_mem_nil (hnone hnil)

theorem toDelete_diffRecord : (diffRecord F args lowest existing p).toDelete = [] := by
  rcases diffRecord_cases existing lowest p with ⟨-, heq⟩ | ⟨-, -, heq⟩ |
    ⟨-, -, row, rest, -, heq⟩ | ⟨-, -, -, heq⟩
  · rw [heq]
    simp [ZoneDiff.concat, (diffRow_lists lowest).2]
  · rw [heq]
  · rw [heq, (diffShared_lists lowest).2.2]
  · rw [heq]
    rfl

theorem skipped_diffRecord {s : Skipped} (hs : s ∈ (diffRecord F args lowest existing p).skipped) :
    s.record = some p.triple := by
  have hrow : ∀ {row}, s ∈ (diffRow F args lowest p row).skipped → s.record = some p.triple := by
    intro row hs
    rw [diffRow] at hs
    cases hchanged : changed F args lowest p row with
    | false => simp [hchanged] at hs
    | true =>
      cases hreason : managedReason row with
      | none => simp [hchanged, hreason] at hs
      | some reason =>
        simp only [hchanged, hreason, Bool.not_true, Bool.false_eq_true, if_false,
          List.mem_singleton] at hs
        rw [hs]
  rcases diffRecord_cases existing lowest p with ⟨-, heq⟩ | ⟨-, -, heq⟩ |
    ⟨-, -, row, rest, -, heq⟩ | ⟨-, -, -, heq⟩
  · rw [heq] at hs
    simp only [ZoneDiff.concat, List.mem_flatMap, List.mem_map] at hs
    obtain ⟨-, ⟨row, -, rfl⟩, hs⟩ := hs
    exact hrow hs
  · rw [heq] at hs
    cases hs
  · rw [heq, diffShared] at hs
    split at hs
    · rw [List.mem_singleton.mp hs]
    · cases hs
  · rw [heq] at hs
    rw [List.mem_singleton.mp hs]

theorem skipped_diffRecord_iff :
    (diffRecord F args (lowestNow F args existing parsed) existing p).skipped ≠ [] ↔
      Refused F args existing parsed p := by
  have hrow : ∀ row, (diffRow F args (lowestNow F args existing parsed) p row).skipped ≠ [] ↔
      (managedReason row).isSome ∧ changed F args (lowestNow F args existing parsed) p row := by
    intro row
    rw [diffRow]
    cases hchanged : changed F args (lowestNow F args existing parsed) p row with
    | false => simp
    | true => cases hreason : managedReason row <;> simp
  rcases diffRecord_cases existing (lowestNow F args existing parsed) p with
    ⟨hne, heq⟩ | ⟨hnew, hnil, heq⟩ | ⟨hnil, hview, row, rest, hrows, heq⟩ |
    ⟨hnil, hview, hne, heq⟩
  · rw [heq]
    simp only [ZoneDiff.concat, ne_eq, List.flatMap_eq_nil_iff, List.forall_mem_map, not_forall]
    constructor
    · rintro ⟨row, hmem, hskipped⟩
      exact .inl ⟨row, hmem, (hrow row).mp hskipped⟩
    · rintro (⟨row, hmem, hskipped⟩ | ⟨hnil, -⟩ | ⟨hnil, -⟩)
      · exact ⟨row, hmem, (hrow row).mpr hskipped⟩
      · exact absurd hnil hne
      · exact absurd hnil hne
  · rw [heq]
    have hserved := served_eq_nil_iff.mp hnew.1
    refine iff_of_false (fun h => h rfl) ?_
    rintro (⟨row, hmem, -⟩ | ⟨-, -, row, rest, hrows, -⟩ | ⟨-, hview, hne⟩)
    · rw [hnil] at hmem
      cases hmem
    · rw [hserved.2] at hrows
      cases hrows
    · exact hne (hnew.2 hview)
  · rw [heq, diffShared]
    constructor
    · intro hskipped
      refine .inr (.inl ⟨hnil, hview, row, rest, hrows, ?_⟩)
      by_contra hsame
      rw [if_neg hsame] at hskipped
      exact hskipped rfl
    · rintro (⟨row', hmem, -⟩ | ⟨-, -, row', rest', hrows', hchanged⟩ | ⟨-, hview', -⟩)
      · rw [hnil] at hmem
        cases hmem
      · rw [hrows] at hrows'
        cases hrows'
        rw [if_pos hchanged]
        exact List.cons_ne_nil _ _
      · exact absurd hview' hview
  · rw [heq]
    exact iff_of_true (List.cons_ne_nil _ _) (.inr (.inr ⟨hnil, hview, hne⟩))

end Parts

theorem mem_left {x : ZoneDiff} :
    x ∈ ((grouped F args (inScope args existing)).filter
        fun item => item.1 ∉ parsed.map (fileKey F args)).flatMap
          (fun item => item.2.map (diffLeft args)) ↔
      ∃ row ∈ inScope args existing, rowKey F args row ∉ parsed.map (fileKey F args) ∧
        x = diffLeft args row := by
  simp only [grouped, List.mem_flatMap, List.mem_filter, List.mem_map, List.mem_eraseDups,
    decide_eq_true_eq]
  constructor
  · rintro ⟨item, ⟨⟨key, hseen, rfl⟩, hleft⟩, row, hrow, rfl⟩
    obtain ⟨hmem, hkey⟩ := mem_withKey.mp hrow
    exact ⟨row, hmem, by rw [hkey]; exact hleft, rfl⟩
  · rintro ⟨row, hrow, hleft, rfl⟩
    exact ⟨_, ⟨⟨_, ⟨row, hrow, rfl⟩, rfl⟩, hleft⟩, row, mem_withKey.mpr ⟨hrow, rfl⟩, rfl⟩

theorem diffLeft_lists : (diffLeft args row).toCreate = [] ∧ (diffLeft args row).toUpdate = [] := by
  rw [diffLeft]
  cases managedReason row with
  | none => exact ⟨rfl, rfl⟩
  | some reason => cases args.replace <;> exact ⟨rfl, rfl⟩

theorem mem_toDelete_diffLeft :
    c ∈ (diffLeft args row).toDelete ↔ managedReason row = none ∧ c = deleteOf row := by
  rw [diffLeft]
  cases managedReason row with
  | none => simp
  | some reason => cases args.replace <;> simp

theorem skipped_diffLeft {s : Skipped} (hs : s ∈ (diffLeft args row).skipped) :
    s.record = some row.triple := by
  rw [diffLeft] at hs
  cases hreason : managedReason row with
  | none => simp [hreason] at hs
  | some reason =>
    cases hreplace : args.replace with
    | false => simp [hreason, hreplace] at hs
    | true =>
      simp only [hreason, hreplace, if_true, List.mem_singleton] at hs
      rw [hs]

theorem outsideLine_lists : (outsideLine args existing).toCreate = [] ∧
    (outsideLine args existing).toUpdate = [] ∧ (outsideLine args existing).toDelete = [] ∧
      ∀ s ∈ (outsideLine args existing).skipped, s.record = none := by
  rw [outsideLine]
  dsimp only
  split
  · refine ⟨rfl, rfl, rfl, fun s hs => ?_⟩
    rw [List.mem_singleton.mp hs]
  · exact ⟨rfl, rfl, rfl, fun s hs => by cases hs⟩

theorem mem_diffRecords {β : Type} {l : ZoneDiff → List β} {b : β}
    (hl : ∀ parts, l (.concat parts) = parts.flatMap l) :
    b ∈ l (diffRecords F args parsed existing) ↔
      (∃ f, First F args parsed f ∧
        b ∈ l (diffRecord F args (lowestNow F args existing parsed) existing f)) ∨
      (∃ row ∈ inScope args existing, rowKey F args row ∉ parsed.map (fileKey F args) ∧
        b ∈ l (diffLeft args row)) ∨
      b ∈ l (outsideLine args existing) := by
  rw [diffRecords, hl]
  simp only [List.flatMap_append, List.mem_append, List.flatMap_cons, List.flatMap_nil,
    List.append_nil, or_assoc]
  refine or_congr ?_ (or_congr ?_ Iff.rfl)
  · rw [List.mem_flatMap]
    constructor
    · rintro ⟨x, hx, hb⟩
      obtain ⟨f, hf, rfl⟩ := List.mem_map.mp hx
      exact ⟨f, (mem_firsts.mp hf).2, hb⟩
    · rintro ⟨f, hf, hb⟩
      exact ⟨_, List.mem_map_of_mem (mem_firsts.mpr ⟨List.not_mem_nil, hf⟩), hb⟩
  · rw [List.mem_flatMap]
    constructor
    · rintro ⟨x, hx, hb⟩
      obtain ⟨row, hrow, hleft, rfl⟩ := mem_left.mp hx
      exact ⟨row, hrow, hleft, hb⟩
    · rintro ⟨row, hrow, hleft, hb⟩
      exact ⟨_, mem_left.mpr ⟨row, hrow, hleft, rfl⟩, hb⟩

theorem mem_toCreate :
    c ∈ (diffRecords F args parsed existing).toCreate ↔
      ∃ f, First F args parsed f ∧ IsNew F args existing f ∧ c = createOf args f := by
  rw [mem_diffRecords (l := (·.toCreate)) fun _ => rfl]
  simp [mem_toCreate_diffRecord, diffLeft_lists.1, outsideLine_lists.1]

theorem mem_toUpdate :
    c ∈ (diffRecords F args parsed existing).toUpdate ↔
      ∃ f, First F args parsed f ∧ ∃ row, Owned F args existing f row ∧
        changed F args (lowestNow F args existing parsed) f row = true ∧
          c = updateOf F args (lowestNow F args existing parsed) f row := by
  rw [mem_diffRecords (l := (·.toUpdate)) fun _ => rfl]
  simp [mem_toUpdate_diffRecord, diffLeft_lists.2, outsideLine_lists.2.1]

theorem mem_toDelete :
    c ∈ (diffRecords F args parsed existing).toDelete ↔
      ∃ row ∈ inScope args existing, rowKey F args row ∉ parsed.map (fileKey F args) ∧
        managedReason row = none ∧ c = deleteOf row := by
  rw [mem_diffRecords (l := (·.toDelete)) fun _ => rfl]
  simp only [toDelete_diffRecord, outsideLine_lists.2.2.1, List.not_mem_nil, and_false,
    exists_false, false_or, or_false, mem_toDelete_diffLeft]

theorem named_iff (hp : p ∈ parsed) :
    (∃ s ∈ (diffRecords F args parsed existing).skipped, s.record = some p.triple) ↔
      ∃ f, First F args parsed f ∧ p.triple = f.triple ∧ Refused F args existing parsed f := by
  constructor
  · rintro ⟨s, hs, hrecord⟩
    rw [mem_diffRecords (l := (·.skipped)) fun _ => rfl] at hs
    rcases hs with ⟨f, hf, hs⟩ | ⟨row, -, hleft, hs⟩ | hs
    · have htriple := skipped_diffRecord _ hs
      rw [hrecord] at htriple
      exact ⟨f, hf, Option.some.inj htriple, skipped_diffRecord_iff.mp (List.ne_nil_of_mem hs)⟩
    · have htriple := skipped_diffLeft hs
      rw [hrecord] at htriple
      have hkey : fileKey F args p = rowKey F args row := by
        have heq := Option.some.inj htriple
        simp only [ParsedRecord.triple, DNSRecord.triple, Prod.mk.injEq] at heq
        rw [fileKey, rowKey, heq.1, heq.2.1, heq.2.2]
      exact absurd (hkey ▸ List.mem_map_of_mem hp) hleft
    · rw [outsideLine_lists.2.2.2 s hs] at hrecord
      cases hrecord
  · rintro ⟨f, hf, htriple, hrefused⟩
    obtain ⟨s, hs⟩ := List.exists_mem_of_ne_nil _ (skipped_diffRecord_iff.mpr hrefused)
    refine ⟨s, ?_, ?_⟩
    · rw [mem_diffRecords (l := (·.skipped)) fun _ => rfl]
      exact .inl ⟨f, hf, hs⟩
    · rw [skipped_diffRecord _ hs, htriple]

end Lists

end SpatiumDdi.Dns.ZoneFile
