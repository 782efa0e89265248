import SpatiumDdi.Lib.ClassTest
import SpatiumDdi.Lib.Dict
import SpatiumDdi.Lib.Utf8

/-!
Device policies (`services/dhcp/device_policy.py`). The operator picks device classes; the
signatures seen on devices classified so are compiled into one class test, those seen on other
devices too being left out.
-/

namespace SpatiumDdi.Dhcp.DevicePolicy

open ClassTest (Chars hexPair)

def maxSignatureTerms : ℕ := 128

def lowConfidenceScore : ℤ := 30

structure Signature where
  option55 : Option Chars
  option60 : Option Chars
  deriving DecidableEq

/-- The order of `sort_key`. -/
def Signature.keyCompare (s t : Signature) : Ordering :=
  (compare s.option55.isNone t.option55.isNone).then
    ((compare (s.option55.getD []) (t.option55.getD [])).then
      ((compare s.option60.isNone t.option60.isNone).then
        (compare (s.option60.getD []) (t.option60.getD []))))

def sortSignatures (signatures : List Signature) : List Signature :=
  signatures.mergeSort fun s t => (s.keyCompare t).isLE

/-- The octet of one field of a parameter-request-list. -/
def octetOf (part : Chars) : Option ℕ :=
  match Text.parseInt (String.ofList part) with
  | some value => if 0 ≤ value ∧ value ≤ 255 then some value.toNat else none
  | none => none

def fields (csv : Chars) : List Chars :=
  ((csv.splitOn ',').map Text.stripChars).filter fun part => part ≠ []

def option55ToHex (csv : Option Chars) : Option Chars :=
  if csv.getD [] = [] then none
  else do
    let values ← (fields (csv.getD [])).mapM octetOf
    let out := values.flatMap hexPair
    if out = [] then none else return out

def textToHex (text : Option Chars) : Option Chars :=
  if text.getD [] = [] then none
  else if '\uFFFD' ∈ text.getD [] then none
  else
    let raw := Utf8.encode (text.getD [])
    if raw = [] then none else some (ClassTest.hexText raw)

/-- The texts between the literals of a term. -/
def open55 : Chars := "(option[55].hex == 0x".toList

def open60 : Chars := "(option[60].hex == 0x".toList

def and60 : Chars := " and option[60].hex == 0x".toList

def andNot60 : Chars := " and not option[60].exists)".toList

def andNot55 : Chars := " and not option[55].exists)".toList

def term (sig : Signature) : Option Chars :=
  let hex55 := option55ToHex sig.option55
  let hex60 := textToHex sig.option60
  if (sig.option55.getD [] ≠ [] ∧ hex55 = none) ∨ (sig.option60.getD [] ≠ [] ∧ hex60 = none) then none
  else
    match hex55, hex60 with
    | some hex55, some hex60 => some (open55 ++ (hex55 ++ (and60 ++ (hex60 ++ [')']))))
    | some hex55, none => some (open55 ++ (hex55 ++ andNot60))
    | none, some hex60 => some (open60 ++ (hex60 ++ andNot55))
    | none, none => none

def buildExpression (signatures : List Signature) : Chars :=
  List.intercalate " or ".toList (signatures.filterMap term)

structure Fingerprint where
  mac : Chars
  option55 : Option Chars
  option60 : Option Chars
  deviceClass : Option Chars
  score : Option ℤ

def Fingerprint.signature (row : Fingerprint) : Signature := ⟨row.option55, row.option60⟩

structure Partition where
  inside : Dict Signature (List Chars)
  outside : List Signature
  unclassified : Dict Signature ℕ
  scores : List ℤ

def Partition.empty : Partition := ⟨Dict.empty, [], Dict.empty, []⟩

/-- One turn of the loop of `_partition`. -/
def partitionStep (selected : List Chars) (p : Partition) (row : Fingerprint) : Partition :=
  let sig := row.signature
  let deviceClass := row.deviceClass.getD []
  if deviceClass = [] then
    { p with unclassified := p.unclassified.set sig ((p.unclassified.get? sig).getD 0 + 1) }
  else if deviceClass ∈ selected then
    { p with
      inside := p.inside.set sig ((p.inside.get? sig).getD [] ++ [row.mac])
      scores := p.scores ++ row.score.toList }
  else
    { p with outside := p.outside.insert sig }

def partition (snapshot : List Fingerprint) (selected : List Chars) : Partition :=
  snapshot.foldl (partitionStep selected) Partition.empty

structure Policy where
  className : Chars
  /-- `none` is an entry that is no text. -/
  deviceClasses : List (Option Chars)
  includeAmbiguous : Bool
  matchOverride : Option Chars
  enabled : Bool

inductive Source where
  | compiled
  | override
  | empty

inductive Warning where
  | noClasses
  | truncated (n : ℕ)
  | ambiguous (n : ℕ)
  | unclassified (n : ℕ)
  | lowConfidence (best : ℤ)
  | overrideInForce
  | overrideDisabled
  | unmatchable (seen : ℕ)
  | noDevices

structure CompiledPolicy where
  className : Chars
  expression : Chars
  source : Source
  compiledExpression : Chars
  signatures : List Signature
  ambiguous : List Signature
  truncated : ℕ
  matchedMacs : List Chars
  unclassifiedMatches : ℕ
  confidence : Option ℤ
  warnings : List Warning

def Policy.selected (policy : Policy) : List Chars :=
  policy.deviceClasses.filterMap fun c => c.filter fun c => c ≠ []

def Policy.override (policy : Policy) : Chars := Text.stripChars (policy.matchOverride.getD [])

/-- The partition, no row being read where no class is selected. -/
def Policy.partition (policy : Policy) (snapshot : List Fingerprint) : Partition :=
  if policy.selected = [] then Partition.empty
  else DevicePolicy.partition snapshot policy.selected

/-- The signatures inside that `_term` renders. -/
def renderable (p : Partition) : List Signature :=
  p.inside.keys.filter fun sig => (term sig).isSome

def Policy.usable (policy : Policy) (p : Partition) : List Signature :=
  sortSignatures ((renderable p).filter fun sig => sig ∉ p.outside ∨ policy.includeAmbiguous)

def Policy.ambiguous (p : Partition) : List Signature :=
  sortSignatures ((renderable p).filter fun sig => sig ∈ p.outside)

def compileDevicePolicy (policy : Policy) (snapshot : List Fingerprint) : CompiledPolicy :=
  let p := policy.partition snapshot
  let all := policy.usable p
  let usable := all.take maxSignatureTerms
  let ambiguous := Policy.ambiguous p
  let unclassifiedHits := ((p.unclassified.items.filter fun item => item.1 ∈ usable).map Prod.snd).sum
  let best := p.scores.max?
  let confidence := if usable = [] then none else best
  let compiled := buildExpression usable
  let seen := (p.inside.items.map fun item => item.2.length).sum
  let source :=
    if policy.override ≠ [] then Source.override
    else if compiled ≠ [] then .compiled
    else .empty
  { className := policy.className
    expression := if policy.override ≠ [] then policy.override else compiled
    source := source
    compiledExpression := compiled
    signatures := usable
    ambiguous := ambiguous
    truncated := all.length - maxSignatureTerms
    matchedMacs := (usable.flatMap fun sig => (p.inside.get? sig).getD []).mergeSort fun a b =>
      (compare a b).isLE
    unclassifiedMatches := unclassifiedHits
    confidence := confidence
    warnings :=
      (if policy.selected = [] ∧ policy.override = [] then [.noClasses] else []) ++
      (if maxSignatureTerms < all.length then [.truncated (all.length - maxSignatureTerms)] else []) ++
      (if ambiguous ≠ [] ∧ policy.includeAmbiguous = false then [.ambiguous ambiguous.length] else []) ++
      (if unclassifiedHits ≠ 0 then [.unclassified unclassifiedHits] else []) ++
      (match confidence with
        | some best => if best < lowConfidenceScore then [.lowConfidence best] else []
        | none => []) ++
      (match source with
        | .override => [if policy.enabled then .overrideInForce else .overrideDisabled]
        | .compiled => []
        | .empty =>
          if policy.selected ≠ [] ∧ ambiguous = [] then
            [if p.inside.items ≠ [] then .unmatchable seen else .noDevices]
          else []) }

open ClassTest

abbrev SomeBytes := {b : Bytes // b ≠ []}

/-- What a packet carries of the two options: at least one of them, and no empty one. -/
inductive Packet where
  | both (prl vendor : SomeBytes)
  | only55 (prl : SomeBytes)
  | only60 (vendor : SomeBytes)
  deriving DecidableEq

def Packet.option55 : Packet → Option Bytes
  | .both prl _ => some prl
  | .only55 prl => some prl
  | .only60 _ => none

def Packet.option60 : Packet → Option Bytes
  | .both _ vendor => some vendor
  | .only55 _ => none
  | .only60 vendor => some vendor

def Packet.of : Option SomeBytes → Option SomeBytes → Option Packet
  | some prl, some vendor => some (.both prl vendor)
  | some prl, none => some (.only55 prl)
  | none, some vendor => some (.only60 vendor)
  | none, none => none

def someBytes (b : Bytes) : Option SomeBytes := if h : b = [] then none else some ⟨b, h⟩

/-- The bytes of a parameter-request-list. -/
def bytes55 (csv : Chars) : Option SomeBytes :=
  ((fields csv).mapM octetOf).bind fun values => someBytes (values.map UInt8.ofNat)

/-- The bytes of a vendor class, unless its decoding has lost some. -/
def bytes60 (text : Chars) : Option SomeBytes :=
  if '\uFFFD' ∈ text then none else someBytes (Utf8.encode text)

/-- What a device sent in an option: nothing, or bytes, which may not be known. -/
def sent (bytes : Chars → Option SomeBytes) (stored : Option Chars) : Option (Option SomeBytes) :=
  if stored.getD [] = [] then some none else (bytes (stored.getD [])).map some

def encoding (sig : Signature) : Option Packet :=
  (sent bytes55 sig.option55).bind fun prl =>
    (sent bytes60 sig.option60).bind fun vendor => Packet.of prl vendor

theorem octetOf_le {part : Chars} {n : ℕ} (h : octetOf part = some n) : n ≤ 255 := by
  unfold octetOf at h
  split at h
  · split at h
    next hrange =>
      rw [← Option.some.inj h]
      omega
    · cases h
  · cases h

theorem mapM_octetOf {parts : List Chars} {values : List ℕ} (h : parts.mapM octetOf = some values) :
    ∀ n ∈ values, n ≤ 255 := by
  induction parts generalizing values with
  | nil =>
    rw [List.mapM_nil] at h
    cases h
    exact nofun
  | cons part parts ih =>
    rw [List.mapM_cons] at h
    obtain ⟨n, hn, h⟩ := Option.bind_eq_some_iff.mp h
    obtain ⟨rest, hrest, h⟩ := Option.bind_eq_some_iff.mp h
    cases h
    exact List.forall_mem_cons.mpr ⟨octetOf_le hn, ih hrest⟩

theorem hexText_ofNat {values : List ℕ} (h : ∀ n ∈ values, n ≤ 255) :
    values.flatMap hexPair = hexText (values.map UInt8.ofNat) := by
  rw [hexText, List.flatMap_map]
  refine List.flatMap_congr fun n hn => ?_
  rw [UInt8.toNat_ofNat', Nat.mod_eq_of_lt (Nat.lt_succ_of_le (h n hn))]

def hexOf (bytes : Chars → Option SomeBytes) (stored : Option Chars) : Option Chars :=
  if stored.getD [] = [] then none else (bytes (stored.getD [])).map fun b : SomeBytes => hexText b.val

theorem hexText_someBytes (b : Bytes) :
    (if hexText b = [] then none else some (hexText b)) =
      (someBytes b).map fun b : SomeBytes => hexText b.val := by
  unfold someBytes
  split
  next h =>
    rw [dif_pos]
    · rfl
    · by_contra hne
      exact hexText_ne_nil hne h
  next h =>
    rw [dif_neg]
    · rfl
    · rintro rfl
      exact h rfl

theorem option55ToHex_eq (csv : Option Chars) : option55ToHex csv = hexOf bytes55 csv := by
  unfold option55ToHex hexOf bytes55
  split
  · rfl
  · cases hvalues : (fields (csv.getD [])).mapM octetOf with
    | none => rfl
    | some values =>
      rw [Option.bind_some, ← hexText_someBytes, ← hexText_ofNat (mapM_octetOf hvalues)]
      rfl

theorem textToHex_eq (text : Option Chars) : textToHex text = hexOf bytes60 text := by
  unfold textToHex hexOf bytes60
  split
  · rfl
  · split
    · rfl
    · unfold someBytes
      split
      next h => rw [if_pos h]; rfl
      next h => rw [if_neg h]; rfl

theorem hexOf_cases (bytes : Chars → Option SomeBytes) (stored : Option Chars) :
    (sent bytes stored = some none ∧ stored.getD [] = [] ∧ hexOf bytes stored = none) ∨
      (sent bytes stored = none ∧ stored.getD [] ≠ [] ∧ hexOf bytes stored = none) ∨
      ∃ b : SomeBytes, sent bytes stored = some (some b) ∧ hexOf bytes stored = some (hexText b) := by
  unfold sent hexOf
  by_cases hempty : stored.getD [] = []
  · rw [if_pos hempty, if_pos hempty]
    exact .inl ⟨rfl, hempty, rfl⟩
  · rw [if_neg hempty, if_neg hempty]
    cases bytes (stored.getD []) with
    | none => exact .inr (.inl ⟨rfl, hempty, rfl⟩)
    | some b => exact .inr (.inr ⟨b, rfl, rfl⟩)

def Packet.text : Packet → Chars
  | .both prl vendor => open55 ++ (hexText prl ++ (and60 ++ (hexText vendor ++ [')'])))
  | .only55 prl => open55 ++ (hexText prl ++ andNot60)
  | .only60 vendor => open60 ++ (hexText vendor ++ andNot55)

theorem term_eq (sig : Signature) : term sig = (encoding sig).map Packet.text := by
  unfold term encoding
  rw [option55ToHex_eq, textToHex_eq]
  rcases hexOf_cases bytes55 sig.option55 with ⟨hs, he, hh⟩ | ⟨hs, he, hh⟩ | ⟨prl, hs, hh⟩
  · rw [hs, hh]
    rcases hexOf_cases bytes60 sig.option60 with ⟨hs', he', hh'⟩ | ⟨hs', he', hh'⟩ | ⟨vendor, hs', hh'⟩
    · rw [hs', hh']
      simp [Packet.of]
    · rw [hs', hh']
      simp [he']
    · rw [hs', hh']
      simp [he, Packet.of, Packet.text]
  · rw [hs, hh]
    simp [he]
  · rw [hs, hh]
    rcases hexOf_cases bytes60 sig.option60 with ⟨hs', he', hh'⟩ | ⟨hs', he', hh'⟩ | ⟨vendor, hs', hh'⟩
    · rw [hs', hh']
      simp [he', Packet.of, Packet.text]
    · rw [hs', hh']
      simp [he']
    · rw [hs', hh']
      simp [Packet.of, Packet.text]

def Packet.test : Packet → Test
  | .both prl vendor => .and (.hexIs 55 prl) (.hexIs 60 vendor)
  | .only55 prl => .and (.hexIs 55 prl) (.not (.exists 60))
  | .only60 vendor => .and (.hexIs 60 vendor) (.not (.exists 55))

def hexIsTokens (n : ℕ) (b : Bytes) : List Token :=
  [.option, .lbracket, .int n, .rbracket, .dot, .hex, .equal, .bytes b]

def existsTokens (n : ℕ) : List Token :=
  [.option, .lbracket, .int n, .rbracket, .dot, .exists]

def Packet.tokens : Packet → List Token
  | .both prl vendor => .lpar :: (hexIsTokens 55 prl ++ .and :: (hexIsTokens 60 vendor ++ [.rpar]))
  | .only55 prl => .lpar :: (hexIsTokens 55 prl ++ .and :: .not :: (existsTokens 60 ++ [.rpar]))
  | .only60 vendor => .lpar :: (hexIsTokens 60 vendor ++ .and :: .not :: (existsTokens 55 ++ [.rpar]))

theorem operand_hexIs (n : ℕ) (b : Bytes) : Operand (hexIsTokens n b) (.hexIs n b) :=
  fun m rest => notExpr_hexIs (m + 1) n b rest

theorem operand_absent (n : ℕ) : Operand (.not :: existsTokens n) (.not (.exists n)) := by
  intro m rest
  rw [List.cons_append, notExpr_not]
  exact congrArg (Option.map _) (notExpr_exists m n rest)

variable (p : Packet)

theorem Packet.factor : Factor p.tokens p.test := by
  cases p with
  | both prl vendor => exact factor_and (operand_hexIs 55 prl) (operand_hexIs 60 vendor)
  | only55 prl => exact factor_and (operand_hexIs 55 prl) (operand_absent 60)
  | only60 vendor => exact factor_and (operand_hexIs 60 vendor) (operand_absent 55)

variable (b : SomeBytes) {c : Char}

section

variable (hc : isHexDigit c = false)
include hc

theorem reads_open55 (rest : Chars) :
    Reads (open55 ++ (hexText b ++ c :: rest)) (.lpar :: hexIsTokens 55 b) (c :: rest) :=
  .token rfl (.token rfl (.token rfl (.token rfl (.token rfl (.token rfl (.token rfl
    (.blank rfl (.token rfl (.blank rfl (.token (lexOne_hexText b.property hc rest)
      (.refl _)))))))))))

theorem reads_open60 (rest : Chars) :
    Reads (open60 ++ (hexText b ++ c :: rest)) (.lpar :: hexIsTokens 60 b) (c :: rest) :=
  .token rfl (.token rfl (.token rfl (.token rfl (.token rfl (.token rfl (.token rfl
    (.blank rfl (.token rfl (.blank rfl (.token (lexOne_hexText b.property hc rest)
      (.refl _)))))))))))

theorem reads_and60 (rest : Chars) :
    Reads (and60 ++ (hexText b ++ c :: rest)) (.and :: hexIsTokens 60 b) (c :: rest) :=
  .blank rfl (.token rfl (.blank rfl (.token rfl (.token rfl (.token rfl (.token rfl (.token rfl
    (.token rfl (.blank rfl (.token rfl (.blank rfl (.token (lexOne_hexText b.property hc rest)
      (.refl _)))))))))))))

end

theorem reads_andNot60 (rest : Chars) :
    Reads (andNot60 ++ rest) (.and :: .not :: (existsTokens 60 ++ [.rpar])) rest :=
  .blank rfl (.token rfl (.blank rfl (.token rfl (.blank rfl (.token rfl (.token rfl (.token rfl
    (.token rfl (.token rfl (.token rfl (.token rfl (.refl _))))))))))))

theorem reads_andNot55 (rest : Chars) :
    Reads (andNot55 ++ rest) (.and :: .not :: (existsTokens 55 ++ [.rpar])) rest :=
  .blank rfl (.token rfl (.blank rfl (.token rfl (.blank rfl (.token rfl (.token rfl (.token rfl
    (.token rfl (.token rfl (.token rfl (.token rfl (.refl _))))))))))))

theorem Packet.reads (rest : Chars) : Reads (p.text ++ rest) p.tokens rest := by
  cases p with
  | both prl vendor =>
    have hopen := reads_open55 prl (c := ' ') rfl
      ("and option[60].hex == 0x".toList ++ (hexText vendor ++ ')' :: rest))
    have hand := reads_and60 vendor (c := ')') rfl rest
    have hclose : Reads (')' :: rest) [.rpar] rest := .token rfl (.refl _)
    have hall := hopen.trans (hand.trans hclose)
    simp only [Packet.text, List.append_assoc, List.singleton_append]
    exact hall
  | only55 prl =>
    have hopen := reads_open55 prl (c := ' ') rfl
      ("and not option[60].exists)".toList ++ rest)
    have hall := hopen.trans (reads_andNot60 rest)
    simp only [Packet.text, List.append_assoc]
    exact hall
  | only60 vendor =>
    have hopen := reads_open60 vendor (c := ' ') rfl
      ("and not option[55].exists)".toList ++ rest)
    have hall := hopen.trans (reads_andNot55 rest)
    simp only [Packet.text, List.append_assoc]
    exact hall

def Packet.Carried (p : Packet) (options : Options) : Prop :=
  options 55 = p.option55 ∧ options 60 = p.option60

variable (options : Options)

theorem hexIs_holds (n : ℕ) (b : SomeBytes) :
    (Test.hexIs n b).holds options = true ↔ options n = some b.val := by
  rw [Test.holds, decide_eq_true_iff]
  cases hoption : options n with
  | none =>
    rw [Option.getD_none]
    exact ⟨fun h => absurd h.symm b.property, fun h => absurd h.symm (Option.some_ne_none _)⟩
  | some bytes => rw [Option.getD_some, Option.some.injEq]

theorem absent_holds (n : ℕ) : (Test.not (.exists n)).holds options = true ↔ options n = none := by
  rw [Test.holds, Test.holds]
  cases options n <;> simp

theorem Packet.test_holds : p.test.holds options = true ↔ p.Carried options := by
  cases p with
  | both prl vendor =>
    rw [Packet.test, Test.holds, Bool.and_eq_true, hexIs_holds, hexIs_holds]
    rfl
  | only55 prl =>
    rw [Packet.test, Test.holds, Bool.and_eq_true, hexIs_holds, absent_holds]
    rfl
  | only60 vendor =>
    rw [Packet.test, Test.holds, Bool.and_eq_true, hexIs_holds, absent_holds, and_comm]
    rfl

end SpatiumDdi.Dhcp.DevicePolicy
