import SpatiumDdi.Dns.LiveRead

/-!
TXT data read back from PowerDNS. Of the master-file form, `_unquote_txt` undoes the two
escapes of a quote and a backslash and leaves the decimal ones, so the value is longer than
the data by three characters an octet that is not printable. Read as quoted strings, a value
stands for less than its length.
-/

namespace SpatiumDdi.Dns.LiveTxt

open Utf8 Txt LiveRead
open Text (isSpace replaceTwo Doubled)

variable {c : Char}

theorem chunkBody_plain (hquote : c ≠ '"') (hback : c ≠ '\\') (rest : Chars) :
    chunkBody (c :: rest) = (chunkBody rest).map fun found => (c :: found.1, found.2) := by
  rw [chunkBody]
  · rintro rfl
    exact absurd rfl hquote
  · rintro rfl _
    exact absurd rfl hback
  · rintro d rest' rfl _
    exact absurd rfl hback

theorem chunkBody_escape (h : c ≠ '\n') (rest : Chars) :
    chunkBody ('\\' :: c :: rest) =
      (chunkBody rest).map fun found => ('\\' :: c :: found.1, found.2) := by
  rw [chunkBody, if_neg h]

variable (b : UInt8)

theorem chunkBody_octet (rest : Chars) :
    chunkBody (masterOctet b ++ rest) =
      (chunkBody rest).map fun found => (masterOctet b ++ found.1, found.2) := by
  rcases masterOctet_cases b with ⟨_, heq⟩ | ⟨_, heq⟩ | ⟨hquote, hback, hprint, heq⟩ | ⟨_, _, _, heq⟩
  · rw [heq]
    exact chunkBody_escape (by decide) rest
  · rw [heq]
    exact chunkBody_escape (by decide) rest
  · rw [heq]
    exact chunkBody_plain (ofNat_ne hprint (d := 0x22) (by decide) hquote)
      (ofNat_ne hprint (d := 0x5C) (by decide) hback) rest
  · have hlt := b.toNat_lt
    have hdigit : ∀ n, n < 10 → ∀ c : Char, c.isDigit = false → digit n ≠ c := by
      intro n hn c hc heq
      rw [← heq, (digit_spec hn).1] at hc
      cases hc
    rw [heq, escapeOctet]
    simp only [List.cons_append, List.nil_append]
    rw [chunkBody_escape (hdigit _ (by omega) _ rfl),
      chunkBody_plain (hdigit _ (by omega) _ rfl) (hdigit _ (by omega) _ rfl),
      chunkBody_plain (hdigit _ (by omega) _ rfl) (hdigit _ (by omega) _ rfl), Option.map_map,
      Option.map_map]
    rfl

theorem chunkBody_string (s : Octets) (rest : Chars) :
    chunkBody (s.flatMap masterOctet ++ '"' :: rest) = some (s.flatMap masterOctet, rest) := by
  induction s with
  | nil => rfl
  | cons b s ih =>
    rw [List.flatMap_cons, List.append_assoc, chunkBody_octet, ih]
    rfl

theorem txtChunks_string (s : Octets) (rest : Chars) :
    txtChunks (quotedString s ++ rest) = s.flatMap masterOctet :: txtChunks rest := by
  have hbody := chunkBody_string s rest
  rw [quotedString, List.cons_append, List.append_assoc, List.singleton_append, txtChunks,
    if_pos rfl]
  split
  next body after heq =>
    rw [hbody] at heq
    obtain ⟨rfl, rfl⟩ := Prod.mk.inj (Option.some.inj heq)
    rfl
  next heq =>
    rw [hbody] at heq
    cases heq

variable {strings : List Octets}

theorem txtChunks_masterForm (h : strings ≠ []) :
    txtChunks (masterForm strings) = strings.map fun s => s.flatMap masterOctet := by
  cases strings with
  | nil => exact absurd rfl h
  | cons s strings =>
    induction strings generalizing s with
    | nil =>
      have hsingle := txtChunks_string s []
      rw [List.append_nil] at hsingle
      rw [masterForm_singleton, hsingle, txtChunks]
      rfl
    | cons t strings ih =>
      rw [masterForm_cons, txtChunks_string, txtChunks, if_neg (by decide),
        ih t (List.cons_ne_nil _ _)]
      rfl

/-- An octet of the form without the escape of a quote. -/
def halfOctet (b : UInt8) : Chars := if b = 0x22 then ['"'] else masterOctet b

def plainOctet (b : UInt8) : Chars :=
  if Printable b then [Char.ofNat b.toNat] else escapeOctet b

theorem digit_ne {n : Nat} (hn : n < 10) (hc : c.isDigit = false) : digit n ≠ c := by
  rintro rfl
  rw [(digit_spec hn).1] at hc
  cases hc

theorem replaceTwo_escapeOctet {d : Char} (hd : d.isDigit = false) (b : UInt8) (new rest : Chars) :
    replaceTwo '\\' d new (escapeOctet b ++ rest) = escapeOctet b ++ replaceTwo '\\' d new rest := by
  have hlt := b.toNat_lt
  have hne : ∀ n, n < 10 → digit n ≠ '\\' := fun n hn => digit_ne hn rfl
  rw [escapeOctet]
  simp only [List.cons_append, List.nil_append]
  have hhead : (digit (b.toNat / 100) :: digit (b.toNat / 10 % 10) :: digit (b.toNat % 10) ::
      rest).head? ≠ some d := fun h => digit_ne (by omega) hd (Option.some.inj h)
  rw [Text.replaceTwo_other hhead, Text.replaceTwo_ne (hne _ (by omega)),
    Text.replaceTwo_ne (hne _ (by omega)), Text.replaceTwo_ne (hne _ (by omega))]

theorem masterOctet_head (rest : Chars) : (masterOctet b ++ rest).head? ≠ some '"' := by
  rcases masterOctet_cases b with ⟨_, heq⟩ | ⟨_, heq⟩ | ⟨hquote, _, hprint, heq⟩ | ⟨_, _, _, heq⟩
  · rw [heq]
    exact fun h => absurd (Option.some.inj h) (by decide)
  · rw [heq]
    exact fun h => absurd (Option.some.inj h) (by decide)
  · rw [heq]
    exact fun h => ofNat_ne hprint (d := 0x22) (by decide) hquote (Option.some.inj h)
  · rw [heq]
    exact fun h => absurd (Option.some.inj h) (by decide)

theorem flatMap_head (s : Octets) : (s.flatMap masterOctet).head? ≠ some '"' := by
  cases s with
  | nil => exact nofun
  | cons b s => exact masterOctet_head b _

theorem replace_quotes (s : Octets) :
    replaceTwo '\\' '"' ['"'] (s.flatMap masterOctet) = s.flatMap halfOctet := by
  induction s with
  | nil => rfl
  | cons b s ih =>
    rw [List.flatMap_cons, List.flatMap_cons, ← ih]
    rcases masterOctet_cases b with
      ⟨hb, heq⟩ | ⟨hb, heq⟩ | ⟨hquote, hback, hprint, heq⟩ | ⟨hquote, _, _, heq⟩
    · rw [heq, halfOctet, if_pos hb]
      exact Text.replaceTwo_hit '\\' '"' ['"'] _
    · have hhalf : halfOctet b = ['\\', '\\'] := by
        rw [halfOctet, if_neg (by rw [hb]; decide), heq]
      rw [heq, hhalf]
      simp only [List.cons_append, List.nil_append]
      have hhead : ('\\' :: s.flatMap masterOctet).head? ≠ some '"' := by simp
      rw [Text.replaceTwo_other hhead, Text.replaceTwo_other (flatMap_head s)]
    · rw [heq, halfOctet, if_neg hquote, heq]
      exact Text.replaceTwo_ne (ofNat_ne hprint (d := 0x5C) (by decide) hback) _ _ _
    · rw [heq, halfOctet, if_neg hquote, heq]
      exact replaceTwo_escapeOctet rfl b _ _

theorem replace_backslashes (s : Octets) :
    replaceTwo '\\' '\\' ['\\'] (s.flatMap halfOctet) = s.flatMap plainOctet := by
  induction s with
  | nil => rfl
  | cons b s ih =>
    rw [List.flatMap_cons, List.flatMap_cons, ← ih]
    rcases masterOctet_cases b with
      ⟨hb, _⟩ | ⟨hb, heq⟩ | ⟨hquote, hback, hprint, heq⟩ | ⟨hquote, _, hprint, heq⟩
    · rw [hb]
      exact Text.replaceTwo_ne (by decide) _ _ _
    · have hhalf : halfOctet b = ['\\', '\\'] := by
        rw [halfOctet, if_neg (by rw [hb]; decide), heq]
      have hplain : plainOctet b = ['\\'] := by
        rw [hb]
        rfl
      rw [hhalf, hplain]
      exact Text.replaceTwo_hit '\\' '\\' ['\\'] _
    · rw [halfOctet, if_neg hquote, heq, plainOctet, if_pos hprint]
      exact Text.replaceTwo_ne (ofNat_ne hprint (d := 0x5C) (by decide) hback) _ _ _
    · rw [halfOctet, if_neg hquote, heq, plainOctet, if_neg hprint]
      exact replaceTwo_escapeOctet rfl b _ _

theorem unquoteTxt_masterForm (h : strings ≠ []) :
    unquoteTxt (masterForm strings) = strings.flatten.flatMap plainOctet := by
  have hne : strings.map (fun s => s.flatMap masterOctet) ≠ [] := by
    rw [ne_eq, List.map_eq_nil_iff]
    exact h
  rw [unquoteTxt, txtChunks_masterForm h, if_neg hne, List.flatMap_map, List.flatten_eq_flatMap, List.flatMap_assoc]
  exact List.flatMap_congr fun s _ => by rw [replace_quotes, replace_backslashes]; rfl

/-- The characters an octet takes in a value. -/
def weight (b : UInt8) : Nat := if Printable b then 1 else 4

def weights : Octets → Nat
  | [] => 0
  | b :: s => weight b + weights s

theorem weights_cons (s : Octets) : weights (b :: s) = weight b + weights s := rfl

theorem weights_append (s t : Octets) : weights (s ++ t) = weights s + weights t := by
  induction s with
  | nil => exact (Nat.zero_add _).symm
  | cons b s ih => rw [List.cons_append, weights_cons, ih, weights_cons, Nat.add_assoc]

theorem weight_le : weight b ≤ 4 := by
  unfold weight
  split <;> omega

theorem length_plainOctets (s : Octets) : (s.flatMap plainOctet).length = weights s := by
  induction s with
  | nil => rfl
  | cons b s ih =>
    rw [List.flatMap_cons, List.length_append, ih, weights_cons]
    congr 1
    unfold plainOctet weight
    split <;> rfl

theorem length_le_weights (s : Octets) : s.length ≤ weights s := by
  induction s with
  | nil => exact Nat.le_refl 0
  | cons b s ih =>
    rw [List.length_cons, weights_cons]
    unfold weight
    split <;> omega

variable {s : Octets}

theorem weights_eq_length : weights s = s.length ↔ ∀ b ∈ s, Printable b := by
  induction s with
  | nil => exact ⟨fun _ => nofun, fun _ => rfl⟩
  | cons b s ih =>
    have hle := length_le_weights s
    rw [List.forall_mem_cons, ← ih, List.length_cons, weights_cons]
    unfold weight
    split
    next hprint => exact ⟨fun h => ⟨hprint, by omega⟩, fun h => by omega⟩
    next hprint => exact ⟨fun h => by omega, fun h => absurd h.1 hprint⟩

def Ascii (c : Char) : Prop := 0x20 ≤ c.toNat ∧ c.toNat < 0x7F

theorem ascii_plainOctet : ∀ c ∈ plainOctet b, Ascii c := by
  unfold plainOctet
  split
  next hprint =>
    obtain ⟨hchar, hlow, hhigh⟩ := toNat_ofNat hprint
    rw [List.forall_mem_singleton, Ascii, hchar]
    exact ⟨hlow, hhigh⟩
  next =>
    intro c hc
    have hvisible := visible_escapeOctet b c hc
    exact ⟨Nat.le_of_lt hvisible.1, hvisible.2⟩

theorem encodeChar_of_ascii (h : Ascii c) :
    String.utf8EncodeChar c = [UInt8.ofNat c.toNat] ∧ Printable (UInt8.ofNat c.toNat) := by
  obtain ⟨hlow, hhigh⟩ := h
  refine ⟨encodeChar_ascii (by omega), ?_, ?_⟩
  · rw [UInt8.le_iff_toNat_le, UInt8.toNat_ofNat']
    change 0x20 ≤ c.toNat % 256
    omega
  · rw [UInt8.lt_iff_toNat_lt, UInt8.toNat_ofNat']
    change c.toNat % 256 < 0x7F
    omega

theorem weights_encodeChar (h : Ascii c) : weights (String.utf8EncodeChar c) = 1 := by
  obtain ⟨henc, hprint⟩ := encodeChar_of_ascii h
  rw [henc, weights_cons, weight, if_pos hprint]
  rfl

theorem encode_length {s : Chars} (h : ∀ c ∈ s, Ascii c) : (encode s).length = s.length := by
  induction s with
  | nil => rfl
  | cons c s ih =>
    obtain ⟨hc, hs⟩ := List.forall_mem_cons.mp h
    rw [encode_cons, List.length_append, ih hs, (encodeChar_of_ascii hc).1, List.length_singleton,
      List.length_cons, Nat.add_comm]

theorem decimal_rest {s rest : Chars} {n : Nat} (h : decimal s = some (n, rest)) :
    ∃ ds, s = ds ++ rest ∧ ds.length = 3 := by
  unfold decimal at h
  split at h
  next a b c rest' =>
    split at h
    · obtain ⟨_, rfl⟩ := Prod.mk.inj (Option.some.inj h)
      exact ⟨[a, b, c], rfl, rfl⟩
    · cases h
  · cases h

theorem weights_charString {s : Chars} {o : Octets} (h : CharString s o) (hs : ∀ c ∈ s, Ascii c) :
    weights o ≤ s.length := by
  induction h with
  | nil => exact Nat.le_refl 0
  | plain hquote hback _ ih =>
    obtain ⟨hc, hs⟩ := List.forall_mem_cons.mp hs
    have hrest := ih hs
    rw [weights_append, weights_encodeChar hc, List.length_cons]
    omega
  | @octet s rest n o hdecimal hn _ ih =>
    obtain ⟨ds, rfl, hds⟩ := decimal_rest hdecimal
    have hrest := ih fun c hc => hs c (by simp [hc])
    have hle := weight_le (UInt8.ofNat n)
    rw [weights_cons, List.length_cons, List.length_append, hds]
    omega
  | @escape c s o hdecimal _ ih =>
    have hrest := ih fun d hd => hs d (by simp [hd])
    rw [weights_append, weights_encodeChar (hs c (by simp)), List.length_cons, List.length_cons]
    omega

theorem weights_strings {s : Chars} (h : Strings s strings) (hs : ∀ c ∈ s, Ascii c) :
    weights strings.flatten + 2 ≤ s.length := by
  induction h with
  | last hchars _ =>
    have hle := weights_charString hchars fun c hc => hs c (by simp [hc])
    rw [List.flatten_singleton]
    simp only [List.length_append, List.length_cons]
    omega
  | cons hchars _ _ _ ih =>
    have hle := weights_charString hchars fun c hc => hs c (by simp [hc])
    have hrest := ih fun c hc => hs c (by simp [hc])
    rw [List.flatten_cons, weights_append]
    simp only [List.length_append, List.length_cons]
    omega

theorem weights_presents {v : Chars} (h : Presents v strings) (hv : ∀ c ∈ v, Ascii c) :
    weights strings.flatten + 2 ≤ v.length := by
  obtain ⟨sp, t, rfl, _, ht⟩ := h
  have hle := weights_strings ht fun c hc => hv c (List.mem_append_right _ hc)
  rw [List.length_append]
  omega

theorem flatten_chunks (data : Octets) : (chunks data).flatten = data := by
  fun_induction chunks data with
  | case1 => rfl
  | case2 data _ ih => rw [List.flatten_cons, ih, List.take_append_drop]

theorem flatten_chunkOctets (data : Octets) : (chunkOctets data).flatten = data := by
  unfold chunkOctets
  split
  next h => rw [h]; rfl
  · exact flatten_chunks data

theorem flatten_flatMap_chunkOctets (strings : List Octets) :
    (strings.flatMap chunkOctets).flatten = strings.flatten := by
  induction strings with
  | nil => rfl
  | cons s strings ih =>
    rw [List.flatMap_cons, List.flatten_append, ih, flatten_chunkOctets, List.flatten_cons]

def asText (data : Octets) : Chars := data.map fun b => Char.ofNat b.toNat

theorem plainOctets_of_printable (h : ∀ b ∈ s, Printable b) : s.flatMap plainOctet = asText s := by
  rw [asText, List.map_eq_flatMap]
  exact List.flatMap_congr fun b hb => if_pos (h b hb)

theorem encode_asText (h : ∀ b ∈ s, Printable b) : encode (asText s) = s := by
  induction s with
  | nil => rfl
  | cons b s ih =>
    obtain ⟨hb, hs⟩ := List.forall_mem_cons.mp h
    have hlt := UInt8.lt_iff_toNat_lt.mp hb.2
    rw [asText, List.map_cons, encode_cons, (encodeChar_ofNat (Nat.lt_succ_of_lt hlt)).2,
      ← asText, ih hs]
    rfl

theorem keeps_plain {r : TxtRecord} :
    Keeps r (r.strings.flatten.flatMap plainOctet) ↔
      (∀ b ∈ r.strings.flatten, Printable b) ∧ ¬ QuotedForm (asText r.strings.flatten) := by
  have hascii : ∀ c ∈ r.strings.flatten.flatMap plainOctet, Ascii c := by
    intro c hc
    obtain ⟨b, _, hb⟩ := List.mem_flatMap.mp hc
    exact ascii_plainOctet b c hb
  have hcontrol : stripControl (r.strings.flatten.flatMap plainOctet) =
      r.strings.flatten.flatMap plainOctet :=
    stripControl_of_shown fun c hc => ⟨(hascii c hc).1, Nat.ne_of_lt (hascii c hc).2⟩
  have hlen := length_plainOctets r.strings.flatten
  rw [Keeps]
  by_cases hform : QuotedForm (r.strings.flatten.flatMap plainOctet)
  · obtain ⟨strings, hstrings⟩ := hform
    have hle := weights_presents hstrings hascii
    have hread := txtStrings_of_presents (hcontrol.symm ▸ hstrings)
    rw [hread, flatten_flatMap_chunkOctets]
    constructor
    · intro heq
      rw [heq] at hle
      omega
    · rintro ⟨hprint, hnot⟩
      rw [plainOctets_of_printable hprint] at hstrings
      exact absurd ⟨strings, hstrings⟩ hnot
  · have hread := txtStrings_of_not (hcontrol.symm ▸ hform)
    rw [hread, hcontrol, flatten_chunkOctets]
    constructor
    · intro heq
      have hweights := encode_length hascii
      rw [heq, hlen] at hweights
      have hprint := weights_eq_length.mp hweights.symm
      rw [plainOctets_of_printable hprint] at hform
      exact ⟨hprint, hform⟩
    · rintro ⟨hprint, _⟩
      rw [plainOctets_of_printable hprint, encode_asText hprint]

/-- The values of one name, as PowerDNS holds them. -/
structure TxtSet where
  name : Chars
  ttl : Option ℤ
  records : List TxtRecord

def TxtSet.rrset (set : TxtSet) : PdnsRrset :=
  ⟨some "TXT".toList, some set.name, set.ttl, set.records.map fun r =>
    ⟨false, some (masterForm r.strings)⟩⟩

def apexSoa (zone : Chars) (content : Chars) : PdnsRrset :=
  ⟨some "SOA".toList, some zone, none, [⟨false, some content⟩]⟩

def document (zone soa : Chars) (sets : List TxtSet) : List PdnsRrset :=
  apexSoa zone soa :: sets.map TxtSet.rrset

section Shipped

variable (lower upper : String → String)

def TxtSet.shipped (set : TxtSet) (zone : Chars) (r : TxtRecord) : RecordData :=
  ⟨relativeName lower set.name (Text.rstripDotsChars zone), "TXT".toList, set.ttl, none, none, none,
    r.strings.flatten.flatMap plainOctet⟩

variable {upper} (hupper : Text.AsciiUpper upper)
include hupper

theorem readRrset_txt (set : TxtSet) (zone : Chars) :
    readRrset lower upper (Text.rstripDotsChars zone) set.rrset =
      set.records.map (set.shipped lower zone) := by
  have htype : set.rrset.rtype upper = "TXT".toList := onChars_txt hupper
  have henabled : (set.rrset.records.filter fun entry => !entry.disabled) = set.rrset.records :=
    List.filter_eq_self.mpr fun entry hentry => by
      obtain ⟨r, _, rfl⟩ := List.mem_map.mp hentry
      rfl
  rw [readRrset, htype, if_neg (by decide), if_neg (by decide), if_neg (by simp), henabled, TxtSet.rrset,
    List.map_map]
  refine List.map_congr_left fun r _ => ?_
  rw [Function.comp_apply, readEntry, TxtSet.shipped, ← unquoteTxt_masterForm r.nonempty]
  rfl

theorem parsePdnsZone_document (zone soa : Chars) (sets : List TxtSet) :
    parsePdnsZone lower upper (document zone soa sets) zone =
      some (sets.flatMap fun set => set.records.map (set.shipped lower zone)) := by
  have htype : (apexSoa zone soa).rtype upper = "SOA".toList := by
    change (upper (String.ofList "SOA".toList)).toList = _
    rw [hupper "SOA".toList (by simp), String.toList_ofList]
    rfl
  have hstrip : Text.rstripDotsChars (Text.rstripDotsChars zone) = Text.rstripDotsChars zone := by
    rw [Text.rstripDotsChars, Text.rstripDotsChars, List.reverse_reverse, List.dropWhile_idempotent]
  have howner : (apexSoa zone soa).owner lower (Text.rstripDotsChars zone) = ['@'] := by
    change relativeName lower zone (Text.rstripDotsChars zone) = _
    rw [relativeName, hstrip]
    exact if_pos rfl
  have hsoa : (apexSoa zone soa).isApexSoa lower upper (Text.rstripDotsChars zone) = true := by
    rw [PdnsRrset.isApexSoa, htype, howner]
    rfl
  have hignored : readRrset lower upper (Text.rstripDotsChars zone) (apexSoa zone soa) = [] := by
    rw [readRrset, htype]
    rfl
  rw [parsePdnsZone, document, List.any_cons, hsoa]
  simp only [Bool.true_or, if_true]
  rw [List.flatMap_cons, hignored, List.nil_append, List.flatMap_map]
  exact congrArg some (List.flatMap_congr fun set _ => readRrset_txt lower hupper set zone)

end Shipped

def transfer (answers : List TxtAnswer) : Chars :=
  (answers.map TxtAnswer.line).flatMap fun line => line ++ ['\n']

/-- Read back from `dig`, a record keeps its data if and only if no string of it has two spaces
side by side. Read back from PowerDNS, if and only if its octets are all printable ASCII and
together no text in quotes. -/
theorem live_txt_keeps_iff {lower upper : String → String} (hupper : Text.AsciiUpper upper)
    (zone soa : Chars) (answers : List TxtAnswer) (sets : List TxtSet) :
    (List.Forall₂ (fun a rec => Keeps a.record rec.value) answers
        (parseAxfr lower upper (transfer answers) zone) ↔
      ∀ a ∈ answers, ∀ s ∈ a.record.strings, ¬ Doubled 0x20 s) ∧
    ∃ recs, parsePdnsZone lower upper (document zone soa sets) zone = some recs ∧
      (List.Forall₂ (fun r rec => Keeps r rec.value) (sets.flatMap TxtSet.records) recs ↔
        ∀ r ∈ sets.flatMap TxtSet.records, (∀ b ∈ r.strings.flatten, Printable b) ∧
          ¬ QuotedForm (asText r.strings.flatten)) := by
  refine ⟨?_, _, parsePdnsZone_document lower hupper zone soa sets, ?_⟩
  · rw [transfer, parseAxfr_answers lower hupper, List.forall₂_map_right_iff, List.forall₂_same]
    exact forall₂_congr fun a _ => keeps_squeezed
  · induction sets with
    | nil => exact ⟨fun _ => nofun, fun _ => .nil⟩
    | cons set sets ih =>
      have hset : List.Forall₂ (fun r rec => Keeps r rec.value) set.records
          (set.records.map (set.shipped lower zone)) ↔
            ∀ r ∈ set.records, (∀ b ∈ r.strings.flatten, Printable b) ∧
              ¬ QuotedForm (asText r.strings.flatten) := by
        rw [List.forall₂_map_right_iff, List.forall₂_same]
        exact forall₂_congr fun r _ => keeps_plain
      rw [List.flatMap_cons, List.flatMap_cons, List.forall_mem_append, ← ih, ← hset]
      constructor
      · intro h
        have hhead := List.forall₂_take_append _ _ _ h
        have htail := List.forall₂_drop_append _ _ _ h
        rw [List.length_map, List.take_left] at hhead
        rw [List.length_map, List.drop_left] at htail
        exact ⟨hhead, htail⟩
      · rintro ⟨hhead, htail⟩
        exact List.rel_append hhead htail

def tab : Gap := ⟨['\t'], by decide, by simp⟩

def ownerWord : Word := ⟨"t.example.com.".toList, by decide, by simp [isSpace]⟩

def ttlWord : Word := ⟨"3600".toList, by decide, by simp [isSpace]⟩

/-- `"a  b"`. -/
def spacedRecord : TxtRecord := ⟨[[0x61, 0x20, 0x20, 0x62]], by decide, by decide⟩

def spacedAnswer : TxtAnswer := ⟨ownerWord, ttlWord, fun _ => tab, spacedRecord, by decide⟩

/-- One octet, which is no character of ASCII. -/
def wideRecord : TxtRecord := ⟨[[0xE9]], by decide, by decide⟩

def wideSet : TxtSet := ⟨"t.example.com.".toList, some 3600, [wideRecord]⟩

theorem live_txt_keeps_spaced :
    ¬ List.Forall₂ (fun a rec => Keeps a.record rec.value) [spacedAnswer]
        (parseAxfr Text.asciiLower Text.asciiUpper (transfer [spacedAnswer])
          "example.com".toList) :=
  fun h => (live_txt_keeps_iff Text.asciiUpper_ascii "example.com".toList [] [spacedAnswer] []).1.mp
    h spacedAnswer List.mem_cons_self [0x61, 0x20, 0x20, 0x62]
    (by simp [spacedAnswer, spacedRecord]) (by decide)

/-- A run of spaces is lost on the one path, an octet that is not printable on the other. -/
theorem not_live_txt_keeps :
    (∃ rec ∈ parseAxfr Text.asciiLower Text.asciiUpper (transfer [spacedAnswer])
        "example.com".toList, ¬ Keeps spacedRecord rec.value) ∧
    ∃ recs, parsePdnsZone Text.asciiLower Text.asciiUpper
        (document "example.com".toList [] [wideSet]) "example.com".toList = some recs ∧
      ∃ rec ∈ recs, ¬ Keeps wideRecord rec.value := by
  refine ⟨⟨spacedAnswer.shipped Text.asciiLower "example.com".toList, ?_, ?_⟩, _,
    parsePdnsZone_document Text.asciiLower Text.asciiUpper_ascii _ _ _,
    wideSet.shipped Text.asciiLower "example.com".toList wideRecord, ?_, ?_⟩
  · rw [transfer, parseAxfr_answers Text.asciiLower Text.asciiUpper_ascii]
    exact List.mem_cons_self
  · intro h
    have hsingle := keeps_squeezed.mp h [0x61, 0x20, 0x20, 0x62] (by simp [spacedRecord])
    exact hsingle (by decide)
  · exact List.mem_cons_self
  · intro h
    have hprint := (keeps_plain.mp h).1 0xE9 (by simp [wideRecord])
    exact absurd hprint (by decide)

end SpatiumDdi.Dns.LiveTxt
