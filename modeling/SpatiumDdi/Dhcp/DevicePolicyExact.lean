import SpatiumDdi.Dhcp.DevicePolicy

/-!
What a compiled policy matches. The signatures inside and outside the selected classes are
compared as they are stored, and what is matched is the packets they stand for, so the test is
exact where no two of them that are stored apart stand for one packet.
-/

namespace SpatiumDdi.Dhcp.DevicePolicy

open ClassTest

def Inside (snapshot : List Fingerprint) (selected : List Chars) (sig : Signature) : Prop :=
  ∃ row ∈ snapshot, row.signature = sig ∧ row.deviceClass.getD [] ≠ [] ∧
    row.deviceClass.getD [] ∈ selected

def Outside (snapshot : List Fingerprint) (selected : List Chars) (sig : Signature) : Prop :=
  ∃ row ∈ snapshot, row.signature = sig ∧ row.deviceClass.getD [] ≠ [] ∧
    row.deviceClass.getD [] ∉ selected

def EncodedBy (sig : Signature) (options : Options) : Prop :=
  ∃ p, encoding sig = some p ∧ p.Carried options

/-- The test matches what was seen inside and not outside. -/
def Exact (snapshot : List Fingerprint) (selected : List Chars) (expression : Chars) : Prop :=
  ∀ options, Accepts expression options ↔
    (∃ sig, Inside snapshot selected sig ∧ EncodedBy sig options) ∧
      ¬ ∃ sig, Outside snapshot selected sig ∧ EncodedBy sig options

/-- No signature seen inside, and not outside as it is stored, stands for the packet of one seen
outside. -/
def StoredApart (snapshot : List Fingerprint) (selected : List Chars) : Prop :=
  ∀ s t p, Inside snapshot selected s → ¬ Outside snapshot selected s →
    Outside snapshot selected t → encoding s = some p → encoding t ≠ some p

section Partition

variable {selected : List Chars} {row : Fingerprint} {sig : Signature} {p : Partition}

theorem mem_insideStep :
    sig ∈ (partitionStep selected p row).inside.keys ↔
      (row.signature = sig ∧ row.deviceClass.getD [] ≠ [] ∧ row.deviceClass.getD [] ∈ selected) ∨
        sig ∈ p.inside.keys := by
  unfold partitionStep
  dsimp only
  split
  next hempty =>
    exact ⟨.inr, fun h => h.elim (fun hrow => absurd hempty hrow.2.1) id⟩
  next hne =>
    split
    next hmem =>
      rw [Dict.mem_keys, Dict.mem_keys]
      simp only [Dict.get?_set]
      by_cases hsig : sig = row.signature
      · rw [if_pos hsig]
        exact ⟨fun _ => .inl ⟨hsig.symm, hne, hmem⟩, fun _ => ⟨_, rfl⟩⟩
      · rw [if_neg hsig]
        exact ⟨.inr, fun h => h.elim (fun hrow => absurd hrow.1.symm hsig) id⟩
    next hnot =>
      exact ⟨.inr, fun h => h.elim (fun hrow => absurd hrow.2.2 hnot) id⟩

theorem mem_outsideStep :
    sig ∈ (partitionStep selected p row).outside ↔
      (row.signature = sig ∧ row.deviceClass.getD [] ≠ [] ∧ row.deviceClass.getD [] ∉ selected) ∨
        sig ∈ p.outside := by
  unfold partitionStep
  dsimp only
  split
  next hempty =>
    exact ⟨.inr, fun h => h.elim (fun hrow => absurd hempty hrow.2.1) id⟩
  next hne =>
    split
    next hmem =>
      exact ⟨.inr, fun h => h.elim (fun hrow => absurd hmem hrow.2.2) id⟩
    next hnot =>
      rw [List.mem_insert_iff]
      constructor
      · rintro (rfl | h)
        · exact .inl ⟨rfl, hne, hnot⟩
        · exact .inr h
      · rintro (⟨hsig, _⟩ | h)
        · exact .inl hsig.symm
        · exact .inr h

theorem partition_run (snapshot : List Fingerprint) (p : Partition) (sig : Signature) :
    (sig ∈ (snapshot.foldl (partitionStep selected) p).inside.keys ↔
      Inside snapshot selected sig ∨ sig ∈ p.inside.keys) ∧
    (sig ∈ (snapshot.foldl (partitionStep selected) p).outside ↔
      Outside snapshot selected sig ∨ sig ∈ p.outside) := by
  induction snapshot generalizing p with
  | nil => simp [Inside, Outside]
  | cons row snapshot ih =>
    obtain ⟨hin, hout⟩ := ih (partitionStep selected p row)
    rw [List.foldl_cons, hin, hout, mem_insideStep, mem_outsideStep, Inside, Inside, Outside,
      Outside, List.exists_mem_cons_iff, List.exists_mem_cons_iff]
    exact ⟨or_left_comm.trans or_assoc.symm, or_left_comm.trans or_assoc.symm⟩

end Partition

variable {policy : Policy} {snapshot rows rows' : List Fingerprint} {sig : Signature}

theorem mem_inside :
    sig ∈ (policy.partition snapshot).inside.keys ↔ Inside snapshot policy.selected sig := by
  unfold Policy.partition
  split
  next hnone =>
    rw [hnone]
    exact ⟨fun h => absurd h List.not_mem_nil, fun ⟨_, _, _, _, h⟩ => absurd h List.not_mem_nil⟩
  next =>
    rw [partition, (partition_run snapshot Partition.empty sig).1]
    exact ⟨fun h => h.elim id fun h => absurd h List.not_mem_nil, .inl⟩

theorem mem_outside (hselected : policy.selected ≠ []) :
    sig ∈ (policy.partition snapshot).outside ↔ Outside snapshot policy.selected sig := by
  rw [Policy.partition, if_neg hselected, partition, (partition_run snapshot Partition.empty sig).2]
  exact ⟨fun h => h.elim id fun h => absurd h List.not_mem_nil, .inl⟩

theorem mem_usable (hambiguous : policy.includeAmbiguous = false) :
    sig ∈ policy.usable (policy.partition snapshot) ↔
      Inside snapshot policy.selected sig ∧ ¬ Outside snapshot policy.selected sig ∧
        ∃ p, encoding sig = some p := by
  have hterm : (term sig).isSome ↔ ∃ p, encoding sig = some p := by
    rw [term_eq, Option.isSome_map, Option.isSome_iff_exists]
  rw [Policy.usable, sortSignatures, List.mem_mergeSort, List.mem_filter, renderable,
    List.mem_filter, mem_inside, hterm, decide_eq_true_iff, hambiguous]
  constructor
  · rintro ⟨⟨hin, hp⟩, hout⟩
    obtain ⟨row, _, _, _, hmem⟩ := id hin
    rw [mem_outside (List.ne_nil_of_mem hmem)] at hout
    exact ⟨hin, hout.resolve_right Bool.false_ne_true, hp⟩
  · rintro ⟨hin, hout, hp⟩
    obtain ⟨row, _, _, _, hmem⟩ := id hin
    rw [mem_outside (List.ne_nil_of_mem hmem)]
    exact ⟨⟨hin, hp⟩, .inl hout⟩

def packets (signatures : List Signature) : List Packet := signatures.filterMap encoding

theorem buildExpression_eq (signatures : List Signature) :
    buildExpression signatures =
      List.intercalate " or ".toList ((packets signatures).map Packet.text) := by
  rw [buildExpression, packets, List.map_filterMap]
  congr 2
  funext sig
  exact term_eq sig

theorem reads_join (p : Packet) (rest : List Packet) :
    Reads (List.intercalate " or ".toList ((p :: rest).map Packet.text))
      (joinOr p.tokens (rest.map Packet.tokens)) [] := by
  induction rest generalizing p with
  | nil =>
    have hread := p.reads []
    rw [List.append_nil] at hread
    rw [List.map_cons, List.map_nil, List.intercalate_singleton]
    exact hread
  | cons next rest ih =>
    have hor : Reads (" or ".toList ++
        List.intercalate " or ".toList ((next :: rest).map Packet.text)) [.or]
          (List.intercalate " or ".toList ((next :: rest).map Packet.text)) :=
      .blank rfl (.token rfl (.blank rfl (.refl _)))
    rw [List.map_cons, List.map_cons, List.intercalate_cons_cons, List.append_assoc]
    exact (p.reads _).trans (hor.trans (ih next))

theorem parse_expression {signatures : List Signature} {p : Packet} {rest : List Packet}
    (h : packets signatures = p :: rest) :
    parse (buildExpression signatures) = some (anyOf p.test (rest.map Packet.test)) := by
  rw [buildExpression_eq, h]
  refine parse_joinOr (reads_join p rest) p.factor ?_
  rw [List.forall₂_map_left_iff, List.forall₂_map_right_iff, List.forall₂_same]
  exact fun q _ => q.factor

theorem parse_nil : parse [] = none := by
  rw [parse, lex_of_reads (.refl _), Option.bind_some]
  rfl

theorem matches_iff (signatures : List Signature) (options : Options) :
    Accepts (buildExpression signatures) options ↔
      ∃ sig ∈ signatures, EncodedBy sig options := by
  have hencoded : (∃ p ∈ packets signatures, p.Carried options) ↔
      ∃ sig ∈ signatures, EncodedBy sig options := by
    constructor
    · rintro ⟨p, hp, hcarried⟩
      obtain ⟨sig, hsig, hencoding⟩ := List.mem_filterMap.mp hp
      exact ⟨sig, hsig, p, hencoding, hcarried⟩
    · rintro ⟨sig, hsig, p, hencoding, hcarried⟩
      exact ⟨p, List.mem_filterMap.mpr ⟨sig, hsig, hencoding⟩, hcarried⟩
  rw [← hencoded]
  cases hpackets : packets signatures with
  | nil =>
    have hempty : buildExpression signatures = [] := by
      rw [buildExpression_eq, hpackets]
      rfl
    constructor
    · rintro ⟨test, htest, _⟩
      rw [hempty, parse_nil] at htest
      cases htest
    · rintro ⟨p, hp, _⟩
      cases hp
  | cons p rest =>
    have hparse := parse_expression hpackets
    have hany : (anyOf p.test (rest.map Packet.test)).holds options = true ↔
        ∃ q ∈ p :: rest, q.Carried options := by
      rw [anyOf_holds, ← List.map_cons]
      simp only [List.mem_map, exists_exists_and_eq_and, Packet.test_holds]
    rw [← hany]
    constructor
    · rintro ⟨test, htest, hholds⟩
      rw [hparse, Option.some.injEq] at htest
      rw [htest]
      exact hholds
    · exact fun hholds => ⟨_, hparse, hholds⟩

theorem compiled_matches (hambiguous : policy.includeAmbiguous = false)
    (hcap : (policy.usable (policy.partition snapshot)).length ≤ maxSignatureTerms)
    (options : Options) :
    Accepts (compileDevicePolicy policy snapshot).compiledExpression options ↔
      ∃ sig, Inside snapshot policy.selected sig ∧ ¬ Outside snapshot policy.selected sig ∧
        EncodedBy sig options := by
  have htake : (policy.usable (policy.partition snapshot)).take maxSignatureTerms =
      policy.usable (policy.partition snapshot) := List.take_of_length_le hcap
  change Accepts (buildExpression (List.take _ _)) options ↔ _
  rw [htake, matches_iff]
  constructor
  · rintro ⟨sig, hsig, hencoded⟩
    obtain ⟨hin, hout, _⟩ := (mem_usable hambiguous).mp hsig
    exact ⟨sig, hin, hout, hencoded⟩
  · rintro ⟨sig, hin, hout, p, hp, hcarried⟩
    exact ⟨sig, (mem_usable hambiguous).mpr ⟨hin, hout, p, hp⟩, p, hp, hcarried⟩

theorem Packet.eq_of_carried {p q : Packet} {options : Options} (hp : p.Carried options)
    (hq : q.Carried options) : p = q := by
  have h55 : p.option55 = q.option55 := hp.1.symm.trans hq.1
  have h60 : p.option60 = q.option60 := hp.2.symm.trans hq.2
  cases p <;> cases q <;>
    simp_all [Packet.option55, Packet.option60, Subtype.val_inj]

def Packet.options (p : Packet) : Options := fun n =>
  if n = 55 then p.option55 else if n = 60 then p.option60 else none

theorem Packet.carried_options (p : Packet) : p.Carried p.options := ⟨rfl, rfl⟩

theorem exact_iff_storedApart (hambiguous : policy.includeAmbiguous = false)
    (hcap : (policy.usable (policy.partition snapshot)).length ≤ maxSignatureTerms) :
    Exact snapshot policy.selected (compileDevicePolicy policy snapshot).compiledExpression ↔
      StoredApart snapshot policy.selected := by
  constructor
  · intro hexact s t p hin hout hother hs ht
    have hmatch := (compiled_matches hambiguous hcap p.options).mpr
      ⟨s, hin, hout, p, hs, p.carried_options⟩
    exact ((hexact p.options).mp hmatch).2 ⟨t, hother, p, ht, p.carried_options⟩
  · intro hapart options
    rw [compiled_matches hambiguous hcap]
    constructor
    · rintro ⟨s, hin, hout, p, hs, hcarried⟩
      refine ⟨⟨s, hin, p, hs, hcarried⟩, ?_⟩
      rintro ⟨t, hother, q, ht, hcarried'⟩
      rw [Packet.eq_of_carried hcarried' hcarried] at ht
      exact hapart s t p hin hout hother hs ht
    · rintro ⟨⟨s, hin, hencoded⟩, hnone⟩
      exact ⟨s, hin, fun hout => hnone ⟨s, hout, hencoded⟩, hencoded⟩

theorem not_matches_bare (policy : Policy) (snapshot : List Fingerprint) {options : Options}
    (h55 : options 55 = none) (h60 : options 60 = none) :
    ¬ Accepts (compileDevicePolicy policy snapshot).compiledExpression options := by
  change ¬ Accepts (buildExpression (List.take _ _)) options
  rw [matches_iff]
  rintro ⟨sig, _, p, _, hcarried⟩
  rw [Packet.Carried, h55, h60] at hcarried
  cases p with
  | both => cases hcarried.1
  | only55 => cases hcarried.1
  | only60 => cases hcarried.2

theorem parse_compiled (policy : Policy) (snapshot : List Fingerprint) :
    (compileDevicePolicy policy snapshot).compiledExpression = [] ∨
      ∃ p rest, packets (compileDevicePolicy policy snapshot).signatures = p :: rest ∧
        parse (compileDevicePolicy policy snapshot).compiledExpression =
          some (anyOf p.test (rest.map Packet.test)) := by
  change buildExpression (compileDevicePolicy policy snapshot).signatures = [] ∨ _
  cases hpackets : packets (compileDevicePolicy policy snapshot).signatures with
  | nil =>
    left
    rw [buildExpression_eq, hpackets]
    rfl
  | cons p rest => exact .inr ⟨p, rest, rfl, parse_expression hpackets⟩

theorem nodup_usable (policy : Policy) (p : Partition) : (policy.usable p).Nodup := by
  refine (List.mergeSort_perm _ _).nodup_iff.mpr ?_
  exact (p.inside.nodup.filter _).filter _

theorem inside_perm (h : rows.Perm rows') (selected : List Chars) (sig : Signature) :
    (Inside rows selected sig ↔ Inside rows' selected sig) ∧
      (Outside rows selected sig ↔ Outside rows' selected sig) :=
  ⟨exists_congr fun _ => and_congr_left fun _ => h.mem_iff,
    exists_congr fun _ => and_congr_left fun _ => h.mem_iff⟩

theorem matches_perm (h : rows.Perm rows') (hambiguous : policy.includeAmbiguous = false)
    (hcap : (policy.usable (policy.partition rows)).length ≤ maxSignatureTerms) (options : Options) :
    Accepts (compileDevicePolicy policy rows).compiledExpression options ↔
      Accepts (compileDevicePolicy policy rows').compiledExpression options := by
  have husable : (policy.usable (policy.partition rows)).Perm
      (policy.usable (policy.partition rows')) := by
    refine (List.perm_ext_iff_of_nodup (nodup_usable _ _) (nodup_usable _ _)).mpr fun sig => ?_
    obtain ⟨hin, hout⟩ := inside_perm h policy.selected sig
    rw [mem_usable hambiguous, mem_usable hambiguous, hin, hout]
  have hcap' := hcap
  rw [husable.length_eq] at hcap'
  rw [compiled_matches hambiguous hcap, compiled_matches hambiguous hcap']
  refine exists_congr fun sig => ?_
  obtain ⟨hin, hout⟩ := inside_perm h policy.selected sig
  rw [hin, hout]

theorem expression_eq (h : policy.override = []) (snapshot : List Fingerprint) :
    (compileDevicePolicy policy snapshot).expression =
      (compileDevicePolicy policy snapshot).compiledExpression :=
  if_neg fun hne => hne h

/-- The compiled test is exact if and only if the signatures stored apart stand for packets
apart. It is never always true, reads whatever the options are, does not depend on the order of
the rows, and is what is rendered where there is no override. -/
theorem device_policy_exact_iff {policy : Policy} {snapshot : List Fingerprint}
    (hambiguous : policy.includeAmbiguous = false)
    (hcap : (policy.usable (policy.partition snapshot)).length ≤ maxSignatureTerms) :
    (Exact snapshot policy.selected (compileDevicePolicy policy snapshot).compiledExpression ↔
      StoredApart snapshot policy.selected) ∧
    (∀ options : Options, options 55 = none → options 60 = none →
      ¬ Accepts (compileDevicePolicy policy snapshot).compiledExpression options) ∧
    ((compileDevicePolicy policy snapshot).compiledExpression = [] ∨
      ∃ p rest, packets (compileDevicePolicy policy snapshot).signatures = p :: rest ∧
        parse (compileDevicePolicy policy snapshot).compiledExpression =
          some (anyOf p.test (rest.map Packet.test))) ∧
    (∀ rows, snapshot.Perm rows → ∀ options,
      Accepts (compileDevicePolicy policy snapshot).compiledExpression options ↔
        Accepts (compileDevicePolicy policy rows).compiledExpression options) ∧
    (policy.override = [] → (compileDevicePolicy policy snapshot).expression =
      (compileDevicePolicy policy snapshot).compiledExpression) :=
  ⟨exact_iff_storedApart hambiguous hcap, fun _ => not_matches_bare policy snapshot,
    parse_compiled policy snapshot, fun _ hperm => matches_perm hperm hambiguous hcap,
    fun h => expression_eq h snapshot⟩

def printers : Policy := ⟨"spatium-device-printers".toList, [some "Printer".toList], false, none, true⟩

def twoSpellings : List Fingerprint :=
  [⟨"02:00:00:00:00:01".toList, some "1,3,6".toList, none, some "Printer".toList, none⟩,
    ⟨"02:00:00:00:00:02".toList, some "1, 3, 6".toList, none, some "Phone".toList, none⟩]

def onePrinter : List Fingerprint :=
  [⟨"02:00:00:00:00:01".toList, some "1,3,6".toList, none, some "Printer".toList, none⟩]

theorem length_usable_le (policy : Policy) (p : Partition) :
    (policy.usable p).length ≤ p.inside.keys.length := by
  rw [Policy.usable, sortSignatures, List.length_mergeSort]
  exact (List.length_filter_le _ _).trans (List.length_filter_le _ _)

theorem cap_twoSpellings :
    (printers.usable (printers.partition twoSpellings)).length ≤ maxSignatureTerms :=
  (length_usable_le _ _).trans (by decide +kernel)

theorem device_policy_exact_onePrinter :
    Exact onePrinter printers.selected
        (compileDevicePolicy printers onePrinter).compiledExpression ↔
      StoredApart onePrinter printers.selected :=
  have hcap : (printers.usable (printers.partition onePrinter)).length ≤ maxSignatureTerms :=
    (length_usable_le _ _).trans (by decide +kernel)
  (device_policy_exact_iff rfl hcap).1

/-- The phone's list is the printer's, stored in another spelling, and the phone is matched. -/
theorem not_exact_twoSpellings :
    ¬ Exact twoSpellings printers.selected
        (compileDevicePolicy printers twoSpellings).expression := by
  intro h
  rw [expression_eq (by decide), exact_iff_storedApart rfl cap_twoSpellings] at h
  refine h ⟨some "1,3,6".toList, none⟩ ⟨some "1, 3, 6".toList, none⟩
    (.only55 ⟨[1, 3, 6], by decide⟩) ?_ ?_ ?_ (by decide +kernel) (by decide +kernel)
  · exact ⟨_, List.mem_cons_self, rfl, by decide, by decide⟩
  · rintro ⟨row, hrow, hsig, _, hclass⟩
    simp only [twoSpellings, List.mem_cons, List.not_mem_nil, or_false] at hrow
    rcases hrow with rfl | rfl
    · exact hclass (by decide)
    · exact absurd hsig (by decide)
  · exact ⟨_, List.mem_cons_of_mem _ List.mem_cons_self, rfl, by decide, by decide⟩

end SpatiumDdi.Dhcp.DevicePolicy
