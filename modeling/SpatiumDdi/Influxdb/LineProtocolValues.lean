import Mathlib.Tactic.FinCases
import SpatiumDdi.Influxdb.LineProtocol

/-!
The parts of a line, read back: cleaned text, names and tag values behind their escapes, and the
values of fields.
-/

namespace SpatiumDdi.Influxdb

open Escaped

variable {F : Type} {repr : F → Chars} {readFloat : Chars → Option F} {p : Point F}
  {s rest : Chars}

structure Sendable (p : Point F) : Prop where
  measurement : p.measurement ≠ []
  tags : ∀ tag ∈ p.tags.items, tag.1 ≠ []
  fields : ∀ field ∈ p.fields.items, field.1 ≠ []
  ints : ∀ key n, (key, .int n) ∈ p.fields.items → IsInt64 n
  some : p.fields.items ≠ []

/-- Python's `repr` of a float, and a reader of it. -/
structure ReadsFloats (repr : F → Chars) (readFloat : Chars → Option F) : Prop where
  chars : ∀ x, ∀ c ∈ repr x, c.isDigit = true ∨ c ∈ ['+', '-', '.', 'e']
  nonempty : ∀ x, repr x ≠ []
  reads : ∀ x, readFloat (repr x) = some x

def cleanedValue : FieldValue F → FieldValue F
  | .str s => .str (cleaned s)
  | value => value

/-- A point as its reader should find it. -/
def expected (p : Point F) : Read F where
  measurement := cleaned p.measurement
  tags := (keptTags p).map fun tag => (cleaned tag.1, cleaned tag.2)
  fields := (sortedItems p.fields).map fun field => (cleaned field.1, cleanedValue field.2)
  timestamp := p.timestamp

theorem cleaned_ne_nil (h : s ≠ []) : cleaned s ≠ [] := by
  rwa [cleaned, Ne, List.map_eq_nil_iff]

theorem newline_not_mem_cleaned (s : Chars) : '\n' ∉ cleaned s := by
  intro hmem
  obtain ⟨c, -, hc⟩ := List.mem_map.mp hmem
  split at hc
  · cases hc
  next hne => exact hne (.inl hc)

variable {c : Char}

theorem cleaned_backslash : (if c = '\n' ∨ c = '\r' then ' ' else c) = '\\' ↔ c = '\\' := by
  constructor
  · intro h
    split at h
    · cases h
    · exact h
  · rintro rfl
    rfl

theorem getLast?_cleaned : (cleaned s).getLast? = some '\\' ↔ s.getLast? = some '\\' := by
  rw [cleaned, List.getLast?_map, Option.map_eq_some_iff]
  constructor
  · rintro ⟨c, hlast, hc⟩
    rwa [cleaned_backslash.mp hc] at hlast
  · exact fun h => ⟨_, h, rfl⟩

theorem suits_key : Suits keyEscapes escapable := ⟨fun _ h => h, rfl⟩

theorem suits_measurement : Suits measurementEscapes escapable where
  reads c h := by
    rw [measurementEscapes, Bool.or_eq_true] at h
    rw [escapable, Bool.or_eq_true, Bool.or_eq_true]
    rcases h with h | h
    · exact .inl (.inl h)
    · exact .inr h
  backslash := rfl

theorem endsKey_cleaned : ∀ c ∈ cleaned s, endsKey c = true → keyEscapes c = true := by
  intro c hc hend
  have hne : c ≠ '\n' := fun heq => newline_not_mem_cleaned s (heq ▸ hc)
  simpa [endsKey, keyEscapes, hne] using hend

theorem endsMeasurement_cleaned :
    ∀ c ∈ cleaned s, endsMeasurement c = true → measurementEscapes c = true := by
  intro c hc hend
  have hne : c ≠ '\n' := fun heq => newline_not_mem_cleaned s (heq ▸ hc)
  simpa [endsMeasurement, measurementEscapes, hne] using hend

def KeyReadable (s : Chars) : Prop := Readable keyEscapes escapable (cleaned s)

theorem keyReadable_iff : KeyReadable s ↔ s.getLast? ≠ some '\\' := by
  rw [KeyReadable, readable_iff, Ne, getLast?_cleaned]
  exact ⟨fun h => h.1, fun h => ⟨h, fun _ _ _ _ hc => hc⟩⟩

theorem measurementReadable_iff : Readable measurementEscapes escapable (cleaned s) ↔
    s.getLast? ≠ some '\\' ∧ ∀ pre post, s ≠ pre ++ '\\' :: '=' :: post := by
  rw [readable_iff, Ne, getLast?_cleaned]
  refine and_congr_right fun _ => ⟨fun h pre post heq => ?_, fun h pre c post heq hc => ?_⟩
  · have hcleaned : cleaned s = cleaned pre ++ '\\' :: '=' :: cleaned post := by
      rw [heq]
      simp [cleaned]
    cases h _ _ _ hcleaned rfl
  · have hcases : c = ',' ∨ c = '=' ∨ c = ' ' := by simpa [escapable, or_assoc] using hc
    rcases hcases with rfl | rfl | rfl
    · rfl
    · exfalso
      rw [cleaned, List.map_eq_append_iff] at heq
      obtain ⟨pre', tail, rfl, -, htail⟩ := heq
      obtain ⟨a, tail', rfl, ha, htail'⟩ := List.map_eq_cons_iff.mp htail
      obtain ⟨b, post', rfl, hb, -⟩ := List.map_eq_cons_iff.mp htail'
      have hequals : b = '=' := by
        split at hb
        · cases hb
        · exact hb
      exact h pre' post' (by rw [cleaned_backslash.mp ha, hequals])
    · rfl

variable {d : Char}

theorem scan_key (hd : d = ',' ∨ d = '=' ∨ d = ' ') (h : KeyReadable s) (rest : Chars) :
    scan escapable endsKey (escapeKey s ++ d :: rest) = (cleaned s, d :: rest) := by
  refine scan_escape suits_key ?_ ?_ endsKey_cleaned h rest <;>
    rcases hd with rfl | rfl | rfl <;> rfl

theorem keyReadable_of_scan (hd : d = ',' ∨ d = '=' ∨ d = ' ')
    (h : (scan escapable endsKey (escapeKey s ++ d :: rest)).1 = cleaned s) : KeyReadable s := by
  refine readable_of_scan suits_key ?_ ?_ endsKey_cleaned h <;>
    rcases hd with rfl | rfl | rfl <;> rfl

theorem readInt_intText (n : ℤ) : readInt (intText n) = some n := by
  have hnat : ∀ m : ℕ, readInt.readNat (Nat.toDigits 10 m) = some m := by
    intro m
    have hall : (Nat.toDigits 10 m).all Char.isDigit = true := List.all_eq_true.mpr fun c hc =>
      Nat.isDigit_of_mem_toDigits (by decide) (by decide) hc
    rw [readInt.readNat, if_pos ⟨Nat.toDigits_ne_nil, hall⟩, Nat.ofDigitChars_ten_toDigits]
  rw [intText]
  split
  next hneg =>
    rw [readInt, hnat, Option.map_some]
    congr 1
    omega
  next hpos =>
    have hminus : ∀ digits, Nat.toDigits 10 n.natAbs ≠ '-' :: digits := by
      intro digits heq
      have hmem : '-' ∈ Nat.toDigits 10 n.natAbs := by
        rw [heq]
        exact List.mem_cons_self
      cases Nat.isDigit_of_mem_toDigits (b := 10) (by decide) (by decide) hmem
    rw [readInt, hnat, Option.map_some]
    · congr 1
      omega
    · exact hminus

theorem mem_intText {n : ℤ} (h : c ∈ intText n) : c.isDigit = true ∨ c = '-' := by
  have hdigit : ∀ c ∈ Nat.toDigits 10 n.natAbs, c.isDigit = true := fun c hc =>
    Nat.isDigit_of_mem_toDigits (by decide) (by decide) hc
  rw [intText] at h
  split at h
  · rcases List.mem_cons.mp h with rfl | h
    · exact .inr rfl
    · exact .inl (hdigit c h)
  · exact .inl (hdigit c h)

def Bare (s : Chars) : Prop := ∀ c ∈ s, endsValue c = false ∧ c ≠ '"'

theorem bare_of_isDigit (h : c.isDigit = true) : endsValue c = false ∧ c ≠ '"' := by
  have hne : ∀ d : Char, d.isDigit = false → c ≠ d := by
    rintro d hd rfl
    rw [h] at hd
    cases hd
  rw [endsValue]
  exact ⟨by simp [hne ',' rfl, hne ' ' rfl, hne '\n' rfl], hne '"' rfl⟩

theorem takeWhile_bare {stop : Char → Bool} (h : ∀ c ∈ s, stop c = false) (hd : stop d = true)
    (rest : Chars) :
    (s ++ d :: rest).takeWhile (fun c => ! stop c) = s ∧
      (s ++ d :: rest).dropWhile (fun c => ! stop c) = d :: rest := by
  have hall : ∀ c ∈ s, (! stop c) = true := fun c hc => by rw [h c hc]; rfl
  rw [List.takeWhile_append_of_pos hall, List.dropWhile_append_of_pos hall,
    List.takeWhile_cons_of_neg (by rw [hd]; exact Bool.false_ne_true),
    List.dropWhile_cons_of_neg (by rw [hd]; exact Bool.false_ne_true), List.append_nil]
  exact ⟨rfl, rfl⟩

theorem readValue_bare (hne : s ≠ []) (h : Bare s) (hd : endsValue d = true) (rest : Chars) :
    readValue readFloat (s ++ d :: rest) =
      (readBare readFloat s).map fun value => (value, d :: rest) := by
  obtain ⟨htake, hdrop⟩ := takeWhile_bare (fun c hc => (h c hc).1) hd rest
  cases s with
  | nil => exact absurd rfl hne
  | cons c s =>
    have hquote := (h c List.mem_cons_self).2
    rw [List.cons_append] at htake hdrop ⊢
    rw [readValue, htake, hdrop]
    exact fun _ heq => hquote (List.cons.inj heq).1

theorem readBare_float (h : ReadsFloats repr readFloat) (x : F) :
    readBare readFloat (repr x) = some (.float x) := by
  have hnot : ∀ c ∈ ['t', 'f', 'i'], c ∉ repr x := by
    intro c hc hmem
    rcases h.chars x c hmem with hdigit | hsign
    · fin_cases hc <;> cases hdigit
    · fin_cases hc <;> simp at hsign
  have htrue : repr x ≠ "true".toList := fun heq =>
    hnot 't' (by simp) (by rw [heq]; decide)
  have hfalse : repr x ≠ "false".toList := fun heq =>
    hnot 'f' (by simp) (by rw [heq]; decide)
  have hi : (repr x).getLast? ≠ some 'i' := fun hlast =>
    hnot 'i' (by simp) (List.mem_of_getLast? hlast)
  rw [readBare, if_neg htrue, if_neg hfalse, if_neg hi, h.reads, Option.map_some]

theorem bare_float (h : ReadsFloats repr readFloat) (x : F) : Bare (repr x) := by
  intro c hc
  rcases h.chars x c hc with hdigit | hsign
  · exact bare_of_isDigit hdigit
  · fin_cases hsign <;> decide

theorem bare_int (n : ℤ) : Bare (intText n ++ ['i']) := by
  intro c hc
  rcases List.mem_append.mp hc with hc | hc
  · rcases mem_intText hc with hdigit | rfl
    · exact bare_of_isDigit hdigit
    · decide
  · rw [List.mem_singleton.mp hc]
    decide

theorem readBare_int {n : ℤ} (h : IsInt64 n) :
    readBare readFloat (intText n ++ ['i']) = some (.int n) := by
  have hlast : (intText n ++ ['i']).getLast? = some 'i' := List.getLast?_concat
  have htrue : intText n ++ ['i'] ≠ "true".toList := fun heq => by
    rw [heq] at hlast
    cases hlast
  have hfalse : intText n ++ ['i'] ≠ "false".toList := fun heq => by
    rw [heq] at hlast
    cases hlast
  rw [readBare, if_neg htrue, if_neg hfalse, if_pos hlast, List.dropLast_concat, readInt_intText,
    Option.filter_some, if_pos (by simpa using h), Option.map_some]

theorem readValue_formatFieldValue (h : ReadsFloats repr readFloat) {value : FieldValue F}
    (hint : ∀ n, value = .int n → IsInt64 n) (hd : endsValue d = true) (rest : Chars) :
    readValue readFloat (formatFieldValue repr value ++ d :: rest) =
      some (cleanedValue value, d :: rest) := by
  cases value with
  | bool b =>
    rw [formatFieldValue]
    cases b with
    | false =>
      have hbare : Bare "false".toList := by simp [Bare, endsValue]
      rw [if_neg Bool.false_ne_true, readValue_bare (by decide) hbare hd]
      rfl
    | true =>
      have hbare : Bare "true".toList := by simp [Bare, endsValue]
      rw [if_pos rfl, readValue_bare (by decide) hbare hd]
      rfl
  | int n =>
    rw [formatFieldValue, readValue_bare (by simp) (bare_int n) hd, readBare_int (hint n rfl)]
    rfl
  | float x =>
    rw [formatFieldValue, readValue_bare (h.nonempty x) (bare_float h x) hd, readBare_float h]
    rfl
  | str s =>
    have hscan : scan stringEscapes endsString
        (escape stringEscapes (cleaned s) ++ '"' :: d :: rest) = (cleaned s, '"' :: d :: rest) :=
      scan_escape_all (fun _ h => h) rfl (by decide) rfl
        (fun c _ hc => by rw [endsString, decide_eq_true_eq] at hc; rw [hc]; rfl) (d :: rest)
    rw [formatFieldValue, formatStringField, List.cons_append, List.append_assoc,
      List.singleton_append, readValue, hscan]
    rfl

end SpatiumDdi.Influxdb
