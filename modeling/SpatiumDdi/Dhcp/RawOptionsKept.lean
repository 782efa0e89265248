import SpatiumDdi.Dhcp.RawOptions

/-!
What re-keying keeps. Two raw keys of one code are written to one key, the later over the
earlier, so a value is lost where both are carried and they differ. Nothing else is: every other
key is stored under its own code or listed, and what is stored is re-keyed to itself.
-/

namespace SpatiumDdi.Dhcp.RawOptions

def keyOf : Spelling → ℕ → Chars
  | .opt => optKey
  | _ => codeKey

/-- The key a value belongs under: its own name, or the spelling of its own code. -/
def ownKey (rawCodes : Spelling) (key : Chars) : Chars :=
  match codeDigits key with
  | none => key
  | some digits => keyOf rawCodes (ofDecimals digits)

/-- A server of the group can serve the code with the value. -/
def Deliverable (addressFamily : Family) (rawCodes : Spelling) (code : ℕ) (value : OptionValue) :
    Prop :=
  addressFamily = .ipv4 ∧
    match rawCodes with
    | .none => False
    | .opt => 1 ≤ code ∧ code ≤ 254
    | .code => checkOne code value .ipv4 .code = .ok ()

/-- Every code has no more digits than `int` reads. -/
def Readable (options : Options) : Prop :=
  ∀ item ∈ options.items, ∀ digits, codeDigits item.1 = some digits →
    digits.length ≤ Text.maxStrDigits

/-- Raw keys of one code that are both carried have one value. -/
def Agree (addressFamily : Family) (rawCodes : Spelling) (options : Options) : Prop :=
  ∀ a ∈ options.items, ∀ b ∈ options.items, ∀ ds ds', codeDigits a.1 = some ds →
    codeDigits b.1 = some ds' → ofDecimals ds = ofDecimals ds' →
    Deliverable addressFamily rawCodes (ofDecimals ds) a.2 →
    Deliverable addressFamily rawCodes (ofDecimals ds') b.2 → a.2 = b.2

/-- Each key is listed or stored under its own key with its own value, keys of different values
apart; the group drops none of what is stored, and it is re-keyed to itself. -/
def Lossless (addressFamily : Family) (rawCodes : Spelling) (options : Options) : Prop :=
  ∃ out dropped, rekeyRawOptions addressFamily rawCodes options = .ok (out, dropped) ∧
    (∀ item ∈ options.items, item.1 ∈ dropped ∨ out.get? (ownKey rawCodes item.1) = some item.2) ∧
    (∀ a ∈ options.items, ∀ b ∈ options.items, a.1 ∉ dropped → b.1 ∉ dropped → a.2 ≠ b.2 →
      ownKey rawCodes a.1 ≠ ownKey rawCodes b.1) ∧
    rawKeysDroppedBy out rawCodes = [] ∧
    rekeyRawOptions addressFamily rawCodes out = .ok (out, [])

theorem ofDecimals_toDigits (code : ℕ) :
    ofDecimals ((Nat.toDigits 10 code).map fun c => c.toNat - '0'.toNat) = code := by
  have hrun : ∀ (s : Chars) (init : ℕ),
      (s.map fun c => c.toNat - '0'.toNat).foldl (fun n d => n * 10 + d) init =
        Nat.ofDigitChars 10 s init := by
    intro s
    induction s with
    | nil => exact fun _ => rfl
    | cons c s ih =>
      intro init
      rw [List.map_cons, List.foldl_cons, ih, Nat.ofDigitChars_cons, Nat.mul_comm]
  rw [ofDecimals, hrun, Nat.ofDigitChars_ten_toDigits]

theorem decimals_toDigits (code : ℕ) :
    decimals (Nat.toDigits 10 code) =
      some ((Nat.toDigits 10 code).map fun c => c.toNat - '0'.toNat) := by
  have hrun : ∀ s : Chars, (∀ c ∈ s, c.isDigit = true) →
      s.mapM Text.decimal = some (s.map fun c => c.toNat - '0'.toNat) := by
    intro s
    induction s with
    | nil => exact fun _ => rfl
    | cons c s ih =>
      intro h
      obtain ⟨hc, hs⟩ := List.forall_mem_cons.mp h
      rw [List.mapM_cons, Text.decimal_of_isDigit hc, ih hs]
      rfl
  rw [decimals, if_neg Nat.toDigits_ne_nil]
  exact hrun _ fun c hc => Nat.isDigit_of_mem_toDigits (by decide) (by decide) hc

theorem codeDigits_keyOf (rawCodes : Spelling) (code : ℕ) :
    codeDigits (keyOf rawCodes code) =
      some ((Nat.toDigits 10 code).map fun c => c.toNat - '0'.toNat) := by
  have hcode : codeDigits (codeKey code) =
      some ((Nat.toDigits 10 code).map fun c => c.toNat - '0'.toNat) := by
    rw [codeDigits, rawCode, codeKey, if_pos (List.prefix_append _ _)]
    change (decimals (Nat.toDigits 10 code)).or _ = _
    rw [decimals_toDigits, Option.some_or]
  have hopt : codeDigits (optKey code) =
      some ((Nat.toDigits 10 code).map fun c => c.toNat - '0'.toNat) := by
    have hraw : rawCode (optKey code) = none := if_neg (by simp [optKey])
    rw [codeDigits, hraw, Option.none_or, windowsCode, optKey, if_pos (List.prefix_append _ _)]
    exact decimals_toDigits code
  cases rawCodes with
  | opt => exact hopt
  | code => exact hcode
  | none => exact hcode

variable {code : ℕ}

theorem keyOf_inj {rawCodes : Spelling} {code' : ℕ}
    (h : keyOf rawCodes code = keyOf rawCodes code') : code = code' := by
  have hdigits := congrArg codeDigits h
  rw [codeDigits_keyOf, codeDigits_keyOf, Option.some.injEq] at hdigits
  rw [← ofDecimals_toDigits code, hdigits, ofDecimals_toDigits]

theorem length_digits (h : code ≤ 254) :
    ((Nat.toDigits 10 code).map fun c => c.toNat - '0'.toNat).length ≤ Text.maxStrDigits := by
  have hlen : (Nat.toDigits 10 code).length ≤ 3 := by
    rw [Nat.length_toDigits_le_iff (by decide) (by decide)]
    omega
  rw [List.length_map]
  exact Nat.le_trans hlen (by decide)

section

variable {addressFamily : Family} {rawCodes : Spelling} {key target : Chars} {value : OptionValue}
  {digits : List ℕ}

theorem checkOne_def (h : checkOne code value .ipv4 .code = .ok ()) :
    ∃ spec, vendorDefOf code = some spec := by
  cases hspec : vendorDefOf code with
  | some spec => exact ⟨spec, rfl⟩
  | none =>
    have herror : checkOne code value .ipv4 .code = .error (.noDefinition code) := by
      rw [checkOne, if_neg (by decide), hspec]
      rfl
    rw [herror] at h
    cases h

theorem Deliverable.le (h : Deliverable addressFamily rawCodes code value) : code ≤ 254 := by
  obtain ⟨_, h⟩ := h
  cases rawCodes with
  | none => exact h.elim
  | opt => exact h.2
  | code =>
    obtain ⟨spec, hspec⟩ := checkOne_def h
    exact vendorDefOf_le hspec

theorem rekeyOne_named (h : codeDigits key = none) :
    rekeyOne addressFamily rawCodes key value = .ok (some key) := by
  rw [rekeyOne, h]

theorem rekeyOne_long (h : codeDigits key = some digits) (hlong : Text.maxStrDigits < digits.length) :
    rekeyOne addressFamily rawCodes key value = .error ⟨⟩ := by
  rw [rekeyOne, h]
  dsimp only
  rw [intOf, if_pos hlong]
  rfl

theorem rekeyOne_raw (addressFamily : Family) (rawCodes : Spelling) (value : OptionValue)
    (h : codeDigits key = some digits) (hshort : digits.length ≤ Text.maxStrDigits) :
    rekeyOne addressFamily rawCodes key value = .ok (some (keyOf rawCodes (ofDecimals digits))) ∧
        Deliverable addressFamily rawCodes (ofDecimals digits) value ∨
      rekeyOne addressFamily rawCodes key value = .ok none ∧
        ¬ Deliverable addressFamily rawCodes (ofDecimals digits) value := by
  have hint : intOf digits = .ok (ofDecimals digits) := if_neg (Nat.not_lt.mpr hshort)
  rw [rekeyOne, h]
  dsimp only
  rw [hint]
  change (if addressFamily ≠ .ipv4 ∨ rawCodes = .none then _ else _) = _ ∧ _ ∨
    (if addressFamily ≠ .ipv4 ∨ rawCodes = .none then _ else _) = _ ∧ _
  by_cases hserved : addressFamily ≠ .ipv4 ∨ rawCodes = .none
  · rw [if_pos hserved]
    refine .inr ⟨rfl, fun hdeliver => ?_⟩
    rcases hserved with hfamily | hnone
    · exact hfamily hdeliver.1
    · subst hnone
      exact hdeliver.2
  · rw [if_neg hserved]
    obtain ⟨hfamily, hnone⟩ := not_or.mp hserved
    rw [ne_eq, not_not] at hfamily
    cases rawCodes with
    | none => exact absurd rfl hnone
    | opt =>
      rw [if_pos rfl]
      by_cases hrange : 1 ≤ ofDecimals digits ∧ ofDecimals digits ≤ 254
      · rw [if_pos hrange]
        exact .inl ⟨rfl, hfamily, hrange⟩
      · rw [if_neg hrange]
        exact .inr ⟨rfl, fun hdeliver => hrange hdeliver.2⟩
    | code =>
      rw [if_neg (by decide), hfamily]
      cases hcheck : checkOne (ofDecimals digits) value .ipv4 .code with
      | ok => exact .inl ⟨rfl, rfl, hcheck⟩
      | error =>
        refine .inr ⟨rfl, fun hdeliver => ?_⟩
        have hok := hdeliver.2
        rw [hcheck] at hok
        cases hok

theorem rekeyOne_ok (addressFamily : Family) (rawCodes : Spelling) (value : OptionValue)
    (h : ∀ digits, codeDigits key = some digits →
    digits.length ≤ Text.maxStrDigits) :
    ∃ target, rekeyOne addressFamily rawCodes key value = .ok target := by
  cases hdigits : codeDigits key with
  | none => exact ⟨_, rekeyOne_named hdigits⟩
  | some digits =>
    rcases rekeyOne_raw addressFamily rawCodes value hdigits (h digits hdigits) with ⟨hok, _⟩ | ⟨hok, _⟩
    · exact ⟨_, hok⟩
    · exact ⟨_, hok⟩

theorem rekeyOne_some (h : rekeyOne addressFamily rawCodes key value = .ok (some target)) :
    target = ownKey rawCodes key ∧ (target = key ∧ codeDigits key = none ∨
      ∃ code, target = keyOf rawCodes code ∧ Deliverable addressFamily rawCodes code value) := by
  cases hdigits : codeDigits key with
  | none =>
    rw [rekeyOne_named hdigits, Except.ok.injEq, Option.some.injEq] at h
    rw [ownKey, hdigits]
    exact ⟨h.symm, .inl ⟨h.symm, rfl⟩⟩
  | some digits =>
    by_cases hshort : digits.length ≤ Text.maxStrDigits
    · rcases rekeyOne_raw addressFamily rawCodes value hdigits hshort with ⟨hok, hdeliver⟩ | ⟨hok, _⟩
      · rw [hok, Except.ok.injEq, Option.some.injEq] at h
        rw [ownKey, hdigits]
        exact ⟨h.symm, .inr ⟨_, h.symm, hdeliver⟩⟩
      · rw [hok] at h
        cases h
    · rw [rekeyOne_long hdigits (Nat.not_le.mp hshort)] at h
      cases h

theorem rekeyOne_keyOf (h : Deliverable addressFamily rawCodes code value) :
    rekeyOne addressFamily rawCodes (keyOf rawCodes code) value =
      .ok (some (keyOf rawCodes code)) := by
  rcases rekeyOne_raw addressFamily rawCodes value
    (codeDigits_keyOf rawCodes code) (length_digits h.le) with ⟨hok, _⟩ | ⟨_, hnot⟩
  · rw [hok, ofDecimals_toDigits]
  · rw [ofDecimals_toDigits] at hnot
    exact absurd h hnot

theorem rekeyOne_again (h : rekeyOne addressFamily rawCodes key value = .ok (some target)) :
    rekeyOne addressFamily rawCodes target value = .ok (some target) := by
  rcases (rekeyOne_some h).2 with ⟨rfl, hnamed⟩ | ⟨code, rfl, hdeliver⟩
  · exact rekeyOne_named hnamed
  · exact rekeyOne_keyOf hdeliver

end

section

variable (addressFamily : Family) (rawCodes : Spelling)

def target (item : Chars × OptionValue) : Option Chars :=
  match rekeyOne addressFamily rawCodes item.1 item.2 with
  | .ok target => target
  | .error _ => none

def carried (items : List (Chars × OptionValue)) : List (Chars × OptionValue) :=
  items.filterMap fun item => (target addressFamily rawCodes item).map fun key => (key, item.2)

def droppedKeys (items : List (Chars × OptionValue)) : List Chars :=
  (items.filter fun item => (target addressFamily rawCodes item).isNone).map Prod.fst

variable {addressFamily rawCodes}

variable {item : Chars × OptionValue} {key : Chars} {value : OptionValue} {options : Options}

theorem target_eq_some :
    target addressFamily rawCodes item = some key ↔
      rekeyOne addressFamily rawCodes item.1 item.2 = .ok (some key) := by
  rw [target]
  cases rekeyOne addressFamily rawCodes item.1 item.2 with
  | ok found => rw [Except.ok.injEq]
  | error => exact ⟨nofun, nofun⟩

theorem mem_carried {items : List (Chars × OptionValue)} :
    (key, value) ∈ carried addressFamily rawCodes items ↔
      ∃ item ∈ items, target addressFamily rawCodes item = some key ∧ item.2 = value := by
  rw [carried, List.mem_filterMap]
  constructor
  · rintro ⟨item, hmem, hmap⟩
    obtain ⟨found, hfound, heq⟩ := Option.map_eq_some_iff.mp hmap
    obtain ⟨rfl, rfl⟩ := Prod.mk.inj heq
    exact ⟨item, hmem, hfound, rfl⟩
  · rintro ⟨item, hmem, htarget, rfl⟩
    exact ⟨item, hmem, by rw [htarget]; rfl⟩

theorem rekeyStep_eq (acc : Options × List Chars)
    (h : ∀ digits, codeDigits item.1 = some digits → digits.length ≤ Text.maxStrDigits) :
    rekeyStep addressFamily rawCodes acc item =
      .ok (Dict.setAll (carried addressFamily rawCodes [item]) acc.1,
        acc.2 ++ droppedKeys addressFamily rawCodes [item]) := by
  obtain ⟨found, hfound⟩ := rekeyOne_ok addressFamily rawCodes item.2 h
  have htarget : target addressFamily rawCodes item = found := by rw [target, hfound]
  rw [rekeyStep, hfound]
  cases found with
  | none =>
    have hnone : carried addressFamily rawCodes [item] = [] := by
      rw [carried, List.filterMap_cons, htarget]
      rfl
    rw [hnone, droppedKeys, List.filter_cons_of_pos (by rw [htarget]; rfl)]
    rfl
  | some key =>
    have hsome : carried addressFamily rawCodes [item] = [(key, item.2)] := by
      rw [carried, List.filterMap_cons, htarget]
      rfl
    rw [hsome, droppedKeys, List.filter_cons_of_neg (by rw [htarget]; simp)]
    exact congrArg Except.ok (Prod.ext rfl (List.append_nil _).symm)

theorem rekey_run (items : List (Chars × OptionValue)) (acc : Options × List Chars)
    (h : ∀ item ∈ items, ∀ digits, codeDigits item.1 = some digits →
      digits.length ≤ Text.maxStrDigits) :
    items.foldlM (rekeyStep addressFamily rawCodes) acc =
      .ok (Dict.setAll (carried addressFamily rawCodes items) acc.1,
        acc.2 ++ droppedKeys addressFamily rawCodes items) := by
  induction items generalizing acc with
  | nil => exact congrArg Except.ok (Prod.ext rfl (List.append_nil _).symm)
  | cons item items ih =>
    obtain ⟨hitem, hitems⟩ := List.forall_mem_cons.mp h
    have hcarried : carried addressFamily rawCodes (item :: items) =
        carried addressFamily rawCodes [item] ++ carried addressFamily rawCodes items :=
      List.filterMap_append (l := [item])
    have hdropped : droppedKeys addressFamily rawCodes (item :: items) =
        droppedKeys addressFamily rawCodes [item] ++ droppedKeys addressFamily rawCodes items := by
      rw [droppedKeys, ← List.singleton_append, List.filter_append, List.map_append]
      rfl
    rw [List.foldlM_cons, rekeyStep_eq acc hitem]
    change items.foldlM _ _ = _
    rw [ih _ hitems, hcarried, hdropped, Dict.setAll, Dict.setAll, Dict.setAll, List.foldl_append,
      List.append_assoc]

theorem rekey_eq (h : Readable options) :
    rekeyRawOptions addressFamily rawCodes options =
      .ok (Dict.setAll (carried addressFamily rawCodes options.items) Dict.empty,
        droppedKeys addressFamily rawCodes options.items) := by
  rw [rekeyRawOptions, rekey_run _ _ h, List.nil_append]

theorem rekey_error (h : ¬ Readable options) :
    rekeyRawOptions addressFamily rawCodes options = .error ⟨⟩ := by
  have hrun : ∀ (items : List (Chars × OptionValue)) (acc : Options × List Chars),
      (¬ ∀ item ∈ items, ∀ digits, codeDigits item.1 = some digits →
        digits.length ≤ Text.maxStrDigits) →
      items.foldlM (rekeyStep addressFamily rawCodes) acc = .error ⟨⟩ := by
    intro items
    induction items with
    | nil => exact fun _ h => absurd nofun h
    | cons item items ih =>
      intro acc h
      by_cases hitem : ∀ digits, codeDigits item.1 = some digits →
          digits.length ≤ Text.maxStrDigits
      · rw [List.foldlM_cons, rekeyStep_eq acc hitem]
        exact ih _ fun hitems => h (List.forall_mem_cons.mpr ⟨hitem, hitems⟩)
      · push Not at hitem
        obtain ⟨digits, hdigits, hlong⟩ := hitem
        rw [List.foldlM_cons, rekeyStep, rekeyOne_long hdigits hlong]
        rfl
  exact hrun _ _ h

theorem mem_droppedKeys (hitem : item ∈ options.items) :
    item.1 ∈ droppedKeys addressFamily rawCodes options.items ↔
      target addressFamily rawCodes item = none := by
  rw [droppedKeys, List.mem_map]
  constructor
  · rintro ⟨other, hother, hkey⟩
    obtain ⟨hmem, hnone⟩ := List.mem_filter.mp hother
    have hsame := List.inj_on_of_nodup_map options.nodup hmem hitem hkey
    rw [← hsame]
    exact Option.isNone_iff_eq_none.mp hnone
  · intro hnone
    exact ⟨item, List.mem_filter.mpr ⟨hitem, by rw [hnone]; rfl⟩, rfl⟩

theorem mem_out (h : (key, value) ∈
      (Dict.setAll (carried addressFamily rawCodes options.items) Dict.empty).items) :
    ∃ item ∈ options.items, target addressFamily rawCodes item = some key ∧ item.2 = value := by
  rcases Dict.mem_of_get?_setAll (Dict.get?_eq_some.mpr h) with hmem | hget
  · exact mem_carried.mp hmem
  · cases hget

theorem rawKeysDroppedBy_out (options : Options) :
    rawKeysDroppedBy (Dict.setAll (carried addressFamily rawCodes options.items) Dict.empty)
      rawCodes = [] := by
  rw [rawKeysDroppedBy, List.filter_eq_nil_iff]
  intro key hkey
  obtain ⟨hkey, hcode⟩ := List.mem_filter.mp hkey
  obtain ⟨⟨_, value⟩, hmem, rfl⟩ := List.mem_map.mp hkey
  obtain ⟨item, _, htarget, _⟩ := mem_out hmem
  rcases (rekeyOne_some (target_eq_some.mp htarget)).2 with ⟨hsame, hnamed⟩ | ⟨code, hspelled, hdeliver⟩
  · rw [isCodeKey, hsame, hnamed] at hcode
    cases hcode
  · rw [hspelled]
    cases rawCodes with
    | none => exact hdeliver.2.elim
    | opt => simp [keyOf, optKey]
    | code => simp [keyOf, codeKey]

theorem rekey_out (options : Options) :
    rekeyRawOptions addressFamily rawCodes
        (Dict.setAll (carried addressFamily rawCodes options.items) Dict.empty) =
      .ok (Dict.setAll (carried addressFamily rawCodes options.items) Dict.empty, []) := by
  generalize hout : Dict.setAll (carried addressFamily rawCodes options.items) Dict.empty = out
  have hagain : ∀ item ∈ out.items, target addressFamily rawCodes item = some item.1 := by
    intro item hmem
    obtain ⟨source, _, htarget, hvalue⟩ := mem_out (hout ▸ hmem)
    have hone := rekeyOne_again (target_eq_some.mp htarget)
    rw [hvalue] at hone
    exact target_eq_some.mpr hone
  have hreadable : Readable out := by
    intro item hmem digits hdigits
    by_contra hlong
    have hone := target_eq_some.mp (hagain item hmem)
    rw [rekeyOne_long hdigits (Nat.not_le.mp hlong)] at hone
    cases hone
  have hcarried : carried addressFamily rawCodes out.items = out.items := by
    conv_lhs => rw [carried]
    conv_rhs => rw [← List.filterMap_some (l := Dict.items _)]
    exact List.filterMap_congr fun item hmem => by rw [hagain item hmem]; rfl
  have hdropped : droppedKeys addressFamily rawCodes out.items = [] := by
    rw [droppedKeys, List.map_eq_nil_iff, List.filter_eq_nil_iff]
    intro item hmem
    rw [hagain item hmem]
    exact Bool.false_ne_true
  rw [rekey_eq hreadable, hcarried, hdropped, Dict.setAll_items]

theorem target_own (h : target addressFamily rawCodes item = some key) :
    key = ownKey rawCodes item.1 :=
  (rekeyOne_some (target_eq_some.mp h)).1

theorem eq_of_ownKey (hagree : Agree addressFamily rawCodes options) (hreadable : Readable options)
    {a b : Chars × OptionValue} (ha : a ∈ options.items) (hb : b ∈ options.items)
    (hta : target addressFamily rawCodes a = some key)
    (htb : target addressFamily rawCodes b = some key) : a.2 = b.2 := by
  have hraw : ∀ item ∈ options.items, ∀ digits, codeDigits item.1 = some digits →
      target addressFamily rawCodes item = some key →
      key = keyOf rawCodes (ofDecimals digits) ∧
        Deliverable addressFamily rawCodes (ofDecimals digits) item.2 := by
    intro item hmem digits hdigits htarget
    have hone := target_eq_some.mp htarget
    rcases rekeyOne_raw addressFamily rawCodes item.2 hdigits
      (hreadable item hmem digits hdigits) with ⟨hok, hdeliver⟩ | ⟨hok, _⟩
    · rw [hok, Except.ok.injEq, Option.some.injEq] at hone
      exact ⟨hone.symm, hdeliver⟩
    · rw [hok] at hone
      cases hone
  have hnamed : ∀ item : Chars × OptionValue, codeDigits item.1 = none →
      target addressFamily rawCodes item = some key → key = item.1 := by
    intro item hdigits htarget
    rw [target_own htarget, ownKey, hdigits]
  cases hda : codeDigits a.1 with
  | none =>
    cases hdb : codeDigits b.1 with
    | none =>
      have hkeys : a.1 = b.1 := (hnamed a hda hta).symm.trans (hnamed b hdb htb)
      rw [List.inj_on_of_nodup_map options.nodup ha hb hkeys]
    | some digits =>
      have hkey := (hraw b hb digits hdb htb).1
      rw [hnamed a hda hta] at hkey
      rw [hkey, codeDigits_keyOf] at hda
      cases hda
  | some digits =>
    obtain ⟨hkey, hdeliver⟩ := hraw a ha digits hda hta
    cases hdb : codeDigits b.1 with
    | none =>
      rw [hnamed b hdb htb] at hkey
      rw [hkey, codeDigits_keyOf] at hdb
      cases hdb
    | some digits' =>
      obtain ⟨hkey', hdeliver'⟩ := hraw b hb digits' hdb htb
      exact hagree a ha b hb digits digits' hda hdb (keyOf_inj (hkey.symm.trans hkey')) hdeliver
        hdeliver'

/-- Nothing is lost silently if and only if `int` reads every code and the raw keys of one code
that are carried agree. -/
theorem rekey_lossless_iff (addressFamily : Family) (rawCodes : Spelling) (options : Options) :
    Lossless addressFamily rawCodes options ↔
      Readable options ∧ Agree addressFamily rawCodes options := by
  constructor
  · rintro ⟨out, dropped, hrun, hkept, _⟩
    have hreadable : Readable options := by
      by_contra hnot
      rw [rekey_error hnot] at hrun
      cases hrun
    rw [rekey_eq hreadable, Except.ok.injEq, Prod.mk.injEq] at hrun
    obtain ⟨_, rfl⟩ := hrun
    refine ⟨hreadable, fun a ha b hb ds ds' hda hdb hcode hdeliver hdeliver' => ?_⟩
    -- a raw key that can be served is not listed
    have hfound : ∀ item ∈ options.items, ∀ digits, codeDigits item.1 = some digits →
        Deliverable addressFamily rawCodes (ofDecimals digits) item.2 →
        out.get? (keyOf rawCodes (ofDecimals digits)) = some item.2 := by
      intro item hmem digits hdigits hserved
      rcases hkept item hmem with hdrop | hget
      · rw [mem_droppedKeys hmem] at hdrop
        rcases rekeyOne_raw addressFamily rawCodes item.2 hdigits
          (hreadable item hmem digits hdigits) with ⟨hok, _⟩ | ⟨_, hnot⟩
        · rw [target_eq_some.mpr hok] at hdrop
          cases hdrop
        · exact absurd hserved hnot
      · rw [ownKey, hdigits] at hget
        exact hget
    have hget := hfound a ha ds hda hdeliver
    rw [hcode, hfound b hb ds' hdb hdeliver'] at hget
    exact (Option.some.inj hget).symm
  · rintro ⟨hreadable, hagree⟩
    refine ⟨_, _, rekey_eq hreadable, fun item hmem => ?_, fun a ha b hb hna hnb hne heq => ?_,
      rawKeysDroppedBy_out options, rekey_out options⟩
    · rw [mem_droppedKeys hmem]
      cases htarget : target addressFamily rawCodes item with
      | none => exact .inl rfl
      | some key =>
        refine .inr ?_
        rw [← target_own htarget]
        refine Dict.get?_setAll_of_mem (mem_carried.mpr ⟨item, hmem, htarget, rfl⟩) ?_ _
        intro value hvalue
        obtain ⟨other, hother, hto, rfl⟩ := mem_carried.mp hvalue
        exact eq_of_ownKey hagree hreadable hother hmem hto htarget
    · rw [mem_droppedKeys ha] at hna
      rw [mem_droppedKeys hb] at hnb
      obtain ⟨key, hta⟩ := Option.ne_none_iff_exists'.mp hna
      obtain ⟨key', htb⟩ := Option.ne_none_iff_exists'.mp hnb
      have hkeys : key = key' := by rw [target_own hta, target_own htb, heq]
      rw [← hkeys] at htb
      exact hne (eq_of_ownKey hagree hreadable ha hb hta htb)

end

def bothSpellings : Options :=
  ⟨[("opt-43".toList, .str "0104".toList), ("code:43".toList, .str "0204".toList)], by decide⟩

theorem not_lossless_bothSpellings : ¬ Lossless .ipv4 .opt bothSpellings := by
  rintro ⟨out, dropped, hrun, hkept, _⟩
  have hfinal : rekeyRawOptions .ipv4 .opt bothSpellings =
      .ok (⟨[("opt-43".toList, .str "0204".toList)], by decide⟩, []) := rfl
  rw [hfinal, Except.ok.injEq, Prod.mk.injEq] at hrun
  obtain ⟨rfl, rfl⟩ := hrun
  rcases hkept ("opt-43".toList, .str "0104".toList) List.mem_cons_self with hdrop | hget
  · cases hdrop
  · cases hget

end SpatiumDdi.Dhcp.RawOptions
