import Mathlib.Order.MinMax
import SpatiumDdi.Dns.Txt

/-!
Character-strings written and read back. No piece is longer than 255 octets and none
ends inside a character, and what is written for a list of character-strings reads as
that list.
-/

namespace SpatiumDdi.Dns.Txt

open Utf8
open Text (isSpace)

theorem backUp_le (data : Octets) (stop k : Nat) : backUp data stop k ≤ k := by
  induction k with
  | zero => exact le_rfl
  | succ k ih =>
    rw [backUp]
    split
    · exact ih.trans (Nat.le_succ k)
    · exact le_rfl

variable {data piece : Octets}

theorem backUp_eq {stop p k : Nat} (hp : 0 < p) (hpk : p ≤ k) (hnear : stop ≤ p + 3)
    (hstart : isContinuation (data.getD p 0) = false)
    (hinside : ∀ j, p < j → j ≤ k → isContinuation (data.getD j 0) = true) :
    backUp data stop k = p := by
  induction k with
  | zero => omega
  | succ k ih =>
    rw [backUp]
    rcases Nat.lt_or_ge p (k + 1) with hlt | hge
    · rw [if_pos ⟨by omega, hinside _ hlt le_rfl⟩]
      exact ih (by omega) fun j hj hjk => hinside j hj (by omega)
    · obtain rfl : p = k + 1 := by omega
      rw [if_neg fun h => by rw [hstart] at h; exact Bool.false_ne_true h.2]

theorem chunkEnd_le (data : Octets) : chunkEnd data ≤ min maxStringOctets data.length := by
  unfold chunkEnd
  simp only
  split
  · split
    · exact backUp_le data _ _
    · exact le_rfl
  · exact le_rfl

theorem chunks_length (h : piece ∈ chunks data) : piece.length ≤ maxStringOctets := by
  fun_induction chunks data with
  | case1 => cases h
  | case2 data hne ih =>
    rcases List.mem_cons.mp h with rfl | h
    · have hle := chunkEnd_le data
      rw [List.length_take]
      omega
    · exact ih h

theorem chunkOctets_length (h : piece ∈ chunkOctets data) : piece.length ≤ maxStringOctets := by
  unfold chunkOctets at h
  split at h
  · rw [List.mem_singleton.mp h]
    exact Nat.zero_le _
  · exact chunks_length h

theorem chunkOctets_of_le (h : data.length ≤ maxStringOctets) : chunkOctets data = [data] := by
  unfold chunkOctets
  split
  next hnil => rw [hnil]
  next hne =>
    have hend : chunkEnd data = data.length := by
      unfold chunkEnd
      rw [min_eq_right h]
      exact if_neg fun hlt => absurd hlt.1 (lt_irrefl _)
    rw [chunks, dif_neg hne, hend, List.take_length, List.drop_length, chunks, dif_pos rfl]

variable (s : List Char)

theorem chunkEnd_encode : ∃ t u, s = t ++ u ∧ (encode t).length = chunkEnd (encode s) := by
  have hstop : min maxStringOctets (encode s).length ≤ (encode s).length := min_le_right _ _
  rcases cut_cases s hstop with ⟨t, u, rfl, ht⟩ | ⟨t, c, lead, tails, u, rfl, hc, hlt, hle⟩
  · refine ⟨t, u, rfl, ?_⟩
    unfold chunkEnd
    rw [← ht]
    refine (if_neg ?_).symm
    rintro ⟨hshort, hcontinues⟩
    have hu : u ≠ [] := by
      rintro rfl
      rw [List.append_nil] at hshort
      exact lt_irrefl _ hshort
    rw [not_continuation_after hu] at hcontinues
    exact Bool.false_ne_true hcontinues
  · have hthree := hc.tails_le_three
    have htails : tails ≠ [] := by
      rintro rfl
      exact absurd (hlt.trans_le hle) (lt_irrefl _)
    have hlen : (encode t).length + tails.length < (encode (t ++ c :: u)).length := by
      rw [encode_append, encode_cons, hc.octets]
      simp only [List.length_append, List.length_cons]
      omega
    -- A text that a cut falls inside of is longer than a piece.
    have hpos : 0 < (encode t).length := by
      have hmin : min maxStringOctets (encode (t ++ c :: u)).length = maxStringOctets := by
        rcases min_choice maxStringOctets (encode (t ++ c :: u)).length with h | h
        · exact h
        · omega
      rw [hmin, maxStringOctets] at hle
      omega
    have hback := backUp_eq hpos hlt.le (hle.trans (Nat.add_le_add_left hthree _))
      (not_continuation_after (t := t) (List.cons_ne_nil c u))
      fun j hj hjk => continuation_inside hc hj (hjk.trans hle)
    refine ⟨t, c :: u, rfl, ?_⟩
    unfold chunkEnd
    simp only
    rw [if_pos ⟨hle.trans_lt hlen, continuation_inside hc hlt hle⟩, hback, if_pos]
    rw [getD_lead hc]
    exact ⟨hpos, (hc.wide htails).2⟩

theorem chunks_encode :
    ∃ pieces : List (List Char), pieces.flatten = s ∧ chunks (encode s) = pieces.map encode := by
  induction hn : s.length using Nat.strong_induction_on generalizing s with
  | _ n ih =>
    by_cases hs : encode s = []
    · exact ⟨[], (eq_nil_of_encode hs).symm, by rw [chunks, dif_pos hs]; rfl⟩
    · obtain ⟨t, u, hsplit, hend⟩ := chunkEnd_encode s
      have hne : t ≠ [] := by
        rintro rfl
        have hpos := chunkEnd_pos hs
        rw [← hend] at hpos
        exact absurd hpos (lt_irrefl _)
      have hlen : u.length < n := by
        have := List.length_pos_iff.mpr hne
        rw [← hn, hsplit, List.length_append]
        omega
      obtain ⟨pieces, hflat, hpieces⟩ := ih u.length hlen u rfl
      refine ⟨t :: pieces, by rw [List.flatten_cons, hflat, hsplit], ?_⟩
      rw [chunks, dif_neg hs, ← hend, hsplit, encode_append, List.take_left, List.drop_left,
        hpieces]
      rfl

theorem chunkOctets_encode :
    ∃ pieces : List (List Char), pieces.flatten = s ∧
      chunkOctets (encode s) = pieces.map encode := by
  unfold chunkOctets
  split
  next hnil => exact ⟨[[]], (eq_nil_of_encode hnil).symm, rfl⟩
  next => exact chunks_encode s

section Printable

variable {isPrintable : Char → Bool}

variable {c : UInt8}

theorem leadSize_of_utf8SeqLen (h : utf8SeqLen c ≠ 0) :
    leadSize c = utf8SeqLen c ∧ 2 ≤ leadSize c := by
  unfold leadSize utf8SeqLen at *
  simp only [UInt8.lt_iff_toNat_lt, UInt8.le_iff_toNat_le] at *
  change _ at h ⊢
  grind

theorem printableText_eq {rest : Octets} {char : List Char}
    (h : printableText isPrintable c rest = some char) :
    ∃ ch, char = [ch] ∧ 0x80 ≤ ch.toNat ∧
      c :: rest = String.utf8EncodeChar ch ++ rest.drop (utf8SeqLen c - 1) := by
  unfold printableText at h
  simp only at h
  obtain ⟨hseq, h⟩ := Option.ite_none_right_eq_some.mp h
  obtain ⟨hdecode, _⟩ := Option.filter_eq_some_iff.mp h
  obtain ⟨hsize, htwo⟩ := leadSize_of_utf8SeqLen hseq.1
  have henc := encode_of_decode hdecode
  obtain ⟨k, hk⟩ : ∃ k, utf8SeqLen c = k + 1 := ⟨utf8SeqLen c - 1, by omega⟩
  rw [hk, List.take_succ_cons] at henc
  have hlen : (rest.take k).length + 1 = leadSize c := by
    have hle := hseq.2
    rw [hk, List.length_cons] at hle
    rw [List.length_take, hsize, hk]
    omega
  obtain ⟨ch, rfl, hch⟩ := encode_eq_announced henc hlen
  have hne : rest.take k ≠ [] := by
    intro hnil
    rw [hnil] at hlen
    simp only [List.length_nil] at hlen
    omega
  refine ⟨ch, rfl, (hch.wide hne).1, ?_⟩
  rw [hch.octets, hk, Nat.add_sub_cancel, List.cons_append, List.take_append_drop]

theorem digit_spec {n : Nat} (h : n < 10) : (digit n).isDigit = true ∧ digitValue (digit n) = n := by
  have hall : ∀ k < 10, (digit k).isDigit = true ∧ digitValue (digit k) = k := by decide
  exact hall n h

theorem decimal_digit {a b c : Nat} (ha : a < 10) (hb : b < 10) (hc : c < 10) (s : List Char) :
    decimal (digit a :: digit b :: digit c :: s) = some (a * 100 + b * 10 + c, s) := by
  obtain ⟨ha, hva⟩ := digit_spec ha
  obtain ⟨hb, hvb⟩ := digit_spec hb
  obtain ⟨hc, hvc⟩ := digit_spec hc
  rw [decimal, ha, hb, hc, hva, hvb, hvc]
  rfl

theorem charString_escapeOctet {s : List Char} {o : Octets} (h : CharString s o) :
    CharString (escapeOctet c ++ s) (c :: o) := by
  have hlt := c.toNat_lt
  have hdecimal := decimal_digit (a := c.toNat / 100) (b := c.toNat / 10 % 10) (c := c.toNat % 10)
    (by omega) (by omega) (by omega) s
  have hvalue : c.toNat / 100 * 100 + c.toNat / 10 % 10 * 10 + c.toNat % 10 = c.toNat := by omega
  rw [hvalue] at hdecimal
  have hoctet := CharString.octet hdecimal (by omega) h
  rw [UInt8.ofNat_toNat] at hoctet
  exact hoctet

theorem encodeChar_ofNat (h : c.toNat < 0x80) :
    (Char.ofNat c.toNat).toNat = c.toNat ∧ String.utf8EncodeChar (Char.ofNat c.toNat) = [c] := by
  have hchar : (Char.ofNat c.toNat).toNat = c.toNat := by
    have hall : ∀ k < 0x80, (Char.ofNat k).toNat = k := by decide
    exact hall _ h
  refine ⟨hchar, ?_⟩
  rw [encodeChar_ascii (by omega), hchar, UInt8.ofNat_toNat]

theorem charString_escapeOctets (data : Octets) :
    CharString (escapeOctets isPrintable data) data := by
  fun_induction escapeOctets isPrintable data with
  | case1 => exact .nil
  | case2 rest ih => exact .escape (decimal_of_not_digit rfl _) ih
  | case3 rest _ ih => exact .escape (decimal_of_not_digit rfl _) ih
  | case4 c rest hquote hback hprintable ih =>
    have hlt := UInt8.lt_iff_toNat_lt.mp hprintable.2
    obtain ⟨hchar, henc⟩ := encodeChar_ofNat (Nat.lt_succ_of_lt hlt)
    have hne : ∀ d : UInt8, d.toNat < 0x80 → c ≠ d →
        Char.ofNat c.toNat ≠ Char.ofNat d.toNat := by
      intro d hd hcd heq
      have htoNat := congrArg Char.toNat heq
      rw [hchar, (encodeChar_ofNat hd).1] at htoNat
      exact hcd (UInt8.toNat_inj.mp htoNat)
    have hplain := CharString.plain (hne 0x22 (by decide) hquote) (hne 0x5C (by decide) hback) ih
    rw [henc] at hplain
    exact hplain
  | case5 c rest hquote hback hprintable char hchar ih =>
    obtain ⟨ch, rfl, hwide, hrest⟩ := printableText_eq hchar
    rw [hrest]
    refine .plain ?_ ?_ ih
    · rintro rfl
      exact absurd hwide (by decide)
    · rintro rfl
      exact absurd hwide (by decide)
  | case6 c rest hquote hback hprintable hchar ih => exact charString_escapeOctet ih

/-- Nothing that is written is a control character. -/
def Shown (c : Char) : Prop := 0x20 ≤ c.toNat ∧ c.toNat ≠ 0x7F

instance (c : Char) : Decidable (Shown c) := inferInstanceAs (Decidable (_ ∧ _))

theorem shown_digit {n : Nat} (h : n < 10) : Shown (digit n) := by
  have hall : ∀ k < 10, 0x20 ≤ (digit k).toNat ∧ (digit k).toNat ≠ 0x7F := by decide
  exact hall n h

theorem shown_escapeOctet (c : UInt8) : ∀ ch ∈ escapeOctet c, Shown ch := by
  have hlt := c.toNat_lt
  simp only [escapeOctet, List.forall_mem_cons]
  exact ⟨by decide, shown_digit (by omega), shown_digit (by omega), shown_digit (by omega),
    nofun⟩

theorem shown_escapeOctets (data : Octets) : ∀ ch ∈ escapeOctets isPrintable data, Shown ch := by
  fun_induction escapeOctets isPrintable data with
  | case1 => exact nofun
  | case2 rest ih =>
    simp only [List.forall_mem_cons]
    exact ⟨by decide, by decide, ih⟩
  | case3 rest _ ih =>
    simp only [List.forall_mem_cons]
    exact ⟨by decide, by decide, ih⟩
  | case4 c rest _ _ hprintable ih =>
    have hle := UInt8.le_iff_toNat_le.mp hprintable.1
    have hlt := UInt8.lt_iff_toNat_lt.mp hprintable.2
    obtain ⟨hchar, _⟩ := encodeChar_ofNat (Nat.lt_succ_of_lt hlt)
    refine List.forall_mem_cons.mpr ⟨?_, ih⟩
    rw [Shown, hchar]
    exact ⟨hle, Nat.ne_of_lt hlt⟩
  | case5 c rest _ _ _ char hchar ih =>
    obtain ⟨ch, rfl, hwide, _⟩ := printableText_eq hchar
    refine List.forall_mem_cons.mpr ⟨?_, ih⟩
    rw [Shown]
    omega
  | case6 c rest _ _ _ _ ih => exact List.forall_mem_append.mpr ⟨shown_escapeOctet c, ih⟩

theorem quoteStrings_singleton (s : Octets) :
    quoteStrings isPrintable [s] = quoted isPrintable s := by
  simp [quoteStrings]

theorem quoteStrings_cons (s t : Octets) (strings : List Octets) :
    quoteStrings isPrintable (s :: t :: strings) =
      quoted isPrintable s ++ ' ' :: quoteStrings isPrintable (t :: strings) :=
  rfl

variable {v : List Char}

theorem stripControl_of_shown (h : ∀ c ∈ v, Shown c) : stripControl v = v := by
  rw [stripControl, List.filter_eq_self]
  exact fun c hc => decide_eq_true (h c hc)

theorem shown_quoted (s : Octets) : ∀ ch ∈ quoted isPrintable s, Shown ch := by
  rw [quoted, List.forall_mem_append, List.forall_mem_cons]
  exact ⟨⟨by decide, shown_escapeOctets s⟩, List.forall_mem_singleton.mpr (by decide)⟩

theorem shown_quoteStrings (strings : List Octets) :
    ∀ ch ∈ quoteStrings isPrintable strings, Shown ch := by
  cases strings with
  | nil => exact nofun
  | cons s strings =>
    induction strings generalizing s with
    | nil =>
      rw [quoteStrings_singleton]
      exact shown_quoted s
    | cons t strings ih =>
      rw [quoteStrings_cons, List.forall_mem_append, List.forall_mem_cons]
      exact ⟨shown_quoted s, by decide, ih t⟩

variable {strings : List Octets}

theorem strings_quoteStrings (h : strings ≠ []) :
    Strings (quoteStrings isPrintable strings) strings := by
  cases strings with
  | nil => exact absurd rfl h
  | cons s strings =>
    induction strings generalizing s with
    | nil =>
      rw [quoteStrings_singleton]
      exact .last (charString_escapeOctets s) nofun
    | cons t strings ih =>
      rw [quoteStrings_cons, quoted, List.append_assoc]
      have hspace : ∀ c ∈ [' '], isSpace c = true := List.forall_mem_singleton.mpr (by decide)
      have hquoted : CharString (escapeOctets isPrintable s) s := charString_escapeOctets s
      have htail := ih t (List.cons_ne_nil _ _)
      have hstrings := Strings.cons hquoted (List.cons_ne_nil ' ' []) hspace htail
      exact hstrings

theorem flatMap_chunkOctets (h : ∀ s ∈ strings, s.length ≤ maxStringOctets) :
    strings.flatMap chunkOctets = strings := by
  calc strings.flatMap chunkOctets
      = strings.flatMap fun s => [s] :=
        List.flatMap_congr fun s hs => chunkOctets_of_le (h s hs)
    _ = strings := List.flatMap_singleton' strings

theorem txtStrings_quoteStrings (hne : strings ≠ [])
    (h : ∀ s ∈ strings, s.length ≤ maxStringOctets) :
    txtStrings (quoteStrings isPrintable strings) = strings := by
  have hpresents : Presents (stripControl (quoteStrings isPrintable strings)) strings := by
    rw [stripControl_of_shown (shown_quoteStrings strings)]
    exact ⟨[], _, rfl, nofun, strings_quoteStrings hne⟩
  rw [txtStrings_of_presents hpresents, flatMap_chunkOctets h]

theorem txtStrings_txtValue (hne : strings ≠ []) (h : ∀ s ∈ strings, s.length ≤ maxStringOctets) :
    txtStrings (txtValue isPrintable strings) = strings := by
  unfold txtValue
  split
  · exact txtStrings_quoteStrings hne h
  · split
    next hbare => exact hbare.2
    next => exact txtStrings_quoteStrings hne h

theorem txtStrings_length {s : Octets} (h : s ∈ txtStrings v) : s.length ≤ maxStringOctets := by
  obtain ⟨string, _, hs⟩ := List.mem_flatMap.mp h
  exact chunkOctets_length hs

theorem chunkOctets_ne_nil (data : Octets) : chunkOctets data ≠ [] := by
  unfold chunkOctets
  split
  · exact List.cons_ne_nil _ _
  next hne =>
    rw [chunks, dif_neg hne]
    exact List.cons_ne_nil _ _

theorem txtStrings_ne_nil (v : List Char) : txtStrings v ≠ [] := by
  by_cases hform : QuotedForm (stripControl v)
  · obtain ⟨strings, hstrings⟩ := hform
    have hne : strings ≠ [] := by
      obtain ⟨_, _, _, _, h⟩ := hstrings
      exact h.ne_nil
    rw [txtStrings_of_presents hstrings]
    intro hnil
    obtain ⟨s, hs⟩ := List.exists_mem_of_ne_nil _ hne
    exact chunkOctets_ne_nil s (List.flatMap_eq_nil_iff.mp hnil s hs)
  · rw [txtStrings_of_not hform]
    exact chunkOctets_ne_nil _

theorem txtStrings_pieces (h : ¬ QuotedForm (stripControl v)) :
    ∃ pieces : List (List Char), pieces.flatten = stripControl v ∧
      txtStrings v = pieces.map encode := by
  rw [txtStrings_of_not h]
  exact chunkOctets_encode _

end Printable

/-- Character-strings round trip through what is written for them, and values through
what is rendered for them. A value whose text without control characters is no
presentation form is that text, cut between characters. -/
theorem txt_codec (isPrintable : Char → Bool) :
    (∀ strings : List Octets, strings ≠ [] → (∀ s ∈ strings, s.length ≤ 255) →
      txtStrings (quoteStrings isPrintable strings) = strings ∧
        txtStrings (txtValue isPrintable strings) = strings) ∧
    ∀ v : List Char, (∀ s ∈ txtStrings v, s.length ≤ 255) ∧
      txtStrings (quoteTxt isPrintable v) = txtStrings v ∧
      (¬ QuotedForm (stripControl v) → (txtStrings v).flatten = encode (stripControl v) ∧
        ∃ pieces : List (List Char), pieces.flatten = stripControl v ∧
          txtStrings v = pieces.map encode) := by
  refine ⟨fun strings hne h => ⟨txtStrings_quoteStrings hne h, txtStrings_txtValue hne h⟩,
    fun v => ⟨fun _ => txtStrings_length, ?_, fun hform => ?_⟩⟩
  · exact txtStrings_quoteStrings (txtStrings_ne_nil v) fun _ => txtStrings_length
  · obtain ⟨pieces, hflat, hpieces⟩ := txtStrings_pieces hform
    refine ⟨?_, pieces, hflat, hpieces⟩
    rw [hpieces, ← hflat, encode_flatten]

def asciiPrintable (c : Char) : Bool := 0x20 ≤ c.toNat && c.toNat < 0x7F

theorem txt_codec_mixed :
    txtStrings (quoteStrings asciiPrintable [[0x22, 0x5C, 0x31, 0xFF], []]) =
        [[0x22, 0x5C, 0x31, 0xFF], []] ∧
      (txtStrings ['a', '"', '\x01', 'b']).flatten = encode ['a', '"', 'b'] :=
  ⟨((txt_codec asciiPrintable).1 [[0x22, 0x5C, 0x31, 0xFF], []] (by decide) (by decide)).1,
    (((txt_codec asciiPrintable).2 ['a', '"', '\x01', 'b']).2.2
      (not_quotedForm_of_head rfl (by decide))).1⟩

def controlThenQuoted : List Char := ['\x01', '"', 'a', '"']

/-- The text itself is in no presentation form, but what is left without its control
character is, and is read so. -/
theorem not_flatten_controlThenQuoted :
    ¬ (∀ v : List Char, ¬ QuotedForm v →
      (txtStrings v).flatten = encode (stripControl v)) := by
  intro h
  have hflat := h controlThenQuoted (not_quotedForm_of_head rfl (by decide))
  exact absurd hflat (by decide +kernel)

end SpatiumDdi.Dns.Txt
