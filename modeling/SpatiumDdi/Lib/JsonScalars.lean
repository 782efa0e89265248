import Mathlib.Data.List.DropRight
import SpatiumDdi.Lib.Json

/-!
Strings, numbers and names in a text that goes on: each is read alike, but a number
that ends the text may be the start of a longer one, and so may one with up to two
characters of a fraction or an exponent after it.
-/

namespace SpatiumDdi

namespace Json

open Text (Points)

section Space

variable {s y : Points}

theorem skipSpace_append (h : skipSpace s ≠ []) : skipSpace (s ++ y) = skipSpace s ++ y := by
  rw [skipSpace, List.dropWhile_append]
  have hne : (s.dropWhile isSpace).isEmpty = false := by
    rw [List.isEmpty_eq_false_iff]
    exact h
  simp [hne, skipSpace]

theorem skipSpace_skipSpace (s : Points) : skipSpace (skipSpace s) = skipSpace s :=
  List.dropWhile_idempotent _ s

theorem skipSpace_length (s : Points) : (skipSpace s).length ≤ s.length :=
  (List.dropWhile_suffix isSpace).length_le

theorem mem_of_mem_skipSpace {c : Nat} (h : c ∈ skipSpace s) : c ∈ s :=
  (List.dropWhile_suffix isSpace).subset h

theorem skipSpace_eq_nil_append (h : skipSpace s = []) : skipSpace (s ++ y) = skipSpace y := by
  rw [skipSpace, List.dropWhile_append]
  simp only [skipSpace] at h
  simp [h, skipSpace]

end Space

section Append

variable {s r y : Points}

variable {code : Nat}

theorem hexQuad_append (h : hexQuad s = some (code, r)) :
    hexQuad (s ++ y) = some (code, r ++ y) := by
  unfold hexQuad at h
  split at h
  next a b c d rest =>
    simp only [Option.bind_eq_bind, Option.bind_eq_some_iff, Option.pure_def,
      Option.some.injEq, Prod.mk.injEq] at h
    obtain ⟨_, ha, _, hb, _, hc, _, hd, rfl, rfl⟩ := h
    simp [hexQuad, ha, hb, hc, hd]
  · cases h

theorem unescape_append (h : unescape s = some (code, r)) (hne : r ≠ []) (hcut : r ≠ [backslash]) :
    unescape (s ++ y) = some (code, r ++ y) := by
  cases s with
  | nil => cases h
  | cons c rest =>
    simp only [unescape, List.cons_append] at h ⊢
    split at h
    next hu =>
      rw [if_pos hu]
      unfold unescapeUnicode at h ⊢
      split at h
      · cases h
      next high rest₁ hquad =>
        rw [hexQuad_append hquad]
        simp only
        have hself : some (high, rest₁) = some (code, r) →
            some (high, rest₁ ++ y) = some (code, r ++ y) := by
          intro heq
          simp only [Option.some.injEq, Prod.mk.injEq] at heq
          rw [heq.1, heq.2]
        split at h
        next hhigh =>
          rw [if_pos hhigh]
          split at h
          next e d more =>
            simp only [List.cons_append]
            split at h
            next hnext =>
              rw [if_pos hnext]
              split at h
              · cases h
              next low rest₂ hlow =>
                rw [hexQuad_append hlow]
                simp only
                split at h
                next hl =>
                  rw [if_pos hl]
                  simp only [Option.some.injEq, Prod.mk.injEq] at h ⊢
                  exact ⟨h.1, by rw [h.2]⟩
                next hl =>
                  rw [if_neg hl]
                  exact hself h
            next hnext =>
              rw [if_neg hnext]
              exact hself h
          next hshort =>
            obtain ⟨-, rfl⟩ : high = code ∧ rest₁ = r := by simpa using h
            cases rest₁ with
            | nil => exact absurd rfl hne
            | cons e more =>
              cases more with
              | cons d more => exact absurd rfl (hshort e d more)
              | nil =>
                have he : e ≠ backslash := fun heq => hcut (heq ▸ rfl)
                cases y with
                | nil => exact hself h
                | cons d more =>
                  simp only [List.cons_append, List.nil_append]
                  rw [if_neg fun hnext => he hnext.1]
                  exact hself h
        next hhigh =>
          rw [if_neg hhigh]
          exact hself h
    next hu =>
      rw [if_neg hu]
      obtain ⟨value, hvalue, heq⟩ := Option.map_eq_some_iff.mp h
      simp only [Prod.mk.injEq] at heq
      simp [hvalue, heq.1, heq.2]

theorem scanString_quote (rest : Points) : scanString (quote :: rest) = some ([], rest) := by
  rw [scanString, if_pos rfl]

theorem scanString_escape {rest rest' : Points} (h : unescape rest = some (code, rest')) :
    scanString (backslash :: rest) =
      (scanString rest').map fun found => (code :: found.1, found.2) := by
  rw [scanString, if_neg (by decide), if_pos rfl]
  split
  next hnone => rw [hnone] at h; cases h
  next code' rest'' hsome =>
    rw [hsome, Option.some.injEq, Prod.mk.injEq] at h
    rw [h.1, h.2]

variable {c : Nat}

theorem scanString_plain (rest : Points) (hquote : c ≠ quote) (hbackslash : c ≠ backslash)
    (hcontrol : ¬c < 0x20) :
    scanString (c :: rest) = (scanString rest).map fun found => (c :: found.1, found.2) := by
  rw [scanString, if_neg hquote, if_neg hbackslash, if_neg hcontrol]

variable {t : Points} {value : Json}

theorem scanString_append (h : scanString s = some (t, r)) :
    scanString (s ++ y) = some (t, r ++ y) := by
  fun_induction scanString s generalizing t r with
  | case1 => cases h
  | case2 rest =>
    simp only [Option.some.injEq, Prod.mk.injEq] at h
    rw [List.cons_append, scanString_quote, ← h.1, ← h.2]
  | case3 => cases h
  | case4 rest code rest' hescape _ ih =>
    obtain ⟨⟨t', r'⟩, hrest, heq⟩ := Option.map_eq_some_iff.mp h
    simp only [Prod.mk.injEq] at heq
    have happend : unescape (rest ++ y) = some (code, rest' ++ y) := by
      apply unescape_append hescape
      · rintro rfl
        rw [scanString] at hrest
        cases hrest
      · rintro rfl
        have hbare : scanString [backslash] = none := by
          rw [scanString, if_neg (by decide), if_pos rfl]
          rfl
        rw [hbare] at hrest
        cases hrest
    rw [List.cons_append, scanString_escape happend, ih hrest, ← heq.1, ← heq.2]
    rfl
  | case5 => cases h
  | case6 c rest hquote hbackslash hcontrol ih =>
    obtain ⟨⟨t', r'⟩, hrest, heq⟩ := Option.map_eq_some_iff.mp h
    simp only [Prod.mk.injEq] at heq
    rw [List.cons_append, scanString_plain _ hquote hbackslash hcontrol, ih hrest, ← heq.1,
      ← heq.2]
    rfl

theorem scanString_length (h : scanString s = some (t, r)) : r.length < s.length := by
  fun_induction scanString s generalizing t r with
  | case1 => cases h
  | case2 rest =>
    simp only [Option.some.injEq, Prod.mk.injEq] at h
    simp [h.2]
  | case3 => cases h
  | case4 rest code rest' hescape _ ih =>
    obtain ⟨⟨t', r'⟩, hrest, heq⟩ := Option.map_eq_some_iff.mp h
    simp only [Prod.mk.injEq] at heq
    have hlen := ih hrest
    have hlen' := unescape_length hescape
    rw [← heq.2, List.length_cons]
    omega
  | case5 => cases h
  | case6 c rest _ _ _ ih =>
    obtain ⟨⟨t', r'⟩, hrest, heq⟩ := Option.map_eq_some_iff.mp h
    simp only [Prod.mk.injEq] at heq
    have hlen := ih hrest
    rw [← heq.2, List.length_cons]
    omega

theorem numberTail_nil : NumberTail [] := by decide

theorem digits_append (h : s.dropWhile isDigit ≠ []) :
    (s ++ y).takeWhile isDigit = s.takeWhile isDigit ∧
      (s ++ y).dropWhile isDigit = s.dropWhile isDigit ++ y := by
  induction s with
  | nil => exact absurd rfl h
  | cons c rest ih =>
    by_cases hc : isDigit c = true
    · rw [List.dropWhile_cons_of_pos hc] at h
      simp [hc, ih h]
    · simp [hc]

theorem scanInt_append (h : scanInt s = some (t, r)) (hne : r ≠ []) :
    scanInt (s ++ y) = some (t, r ++ y) := by
  cases s with
  | nil => cases h
  | cons c rest =>
    simp only [scanInt, List.cons_append] at h ⊢
    split at h
    next hzero =>
      rw [if_pos hzero]
      simp only [Option.some.injEq, Prod.mk.injEq] at h ⊢
      exact ⟨h.1, by rw [h.2]⟩
    next hzero =>
      split at h
      next hdigit =>
        simp only [Option.some.injEq, Prod.mk.injEq] at h
        rw [← h.2] at hne ⊢
        rw [if_neg hzero, if_pos hdigit, (digits_append hne).1, (digits_append hne).2, ← h.1]
      · cases h

theorem scanFraction_append (hne : (scanFraction s).2 ≠ []) (hdot : s ≠ ['.'.toNat]) :
    scanFraction (s ++ y) = ((scanFraction s).1, (scanFraction s).2 ++ y) := by
  match s with
  | [] => exact absurd rfl hne
  | [c] =>
    have hc : c ≠ '.'.toNat := fun heq => hdot (heq ▸ rfl)
    cases y with
    | nil => rfl
    | cons d more =>
      simp only [List.cons_append, List.nil_append, scanFraction]
      rw [if_neg fun h => hc h.1]
  | c :: d :: rest =>
    simp only [scanFraction, List.cons_append] at hne ⊢
    by_cases hpoint : c = '.'.toNat ∧ isDigit d = true
    · rw [if_pos hpoint] at hne ⊢
      rw [if_pos hpoint, (digits_append hne).1, (digits_append hne).2]
    · rw [if_neg hpoint, if_neg hpoint]
      rfl

theorem mem_tail_of_isExponent (h : isExponent c = true) : c ∈ points ".eE+-" := by
  simp only [isExponent, Bool.or_eq_true, beq_iff_eq] at h
  rcases h with rfl | rfl <;> decide

theorem mem_tail_of_isSign (h : isSign c = true) : c ∈ points ".eE+-" := by
  simp only [isSign, Bool.or_eq_true, beq_iff_eq] at h
  rcases h with rfl | rfl <;> decide

theorem scanExponent_append (htail : ¬NumberTail (scanExponent s).2) :
    scanExponent (s ++ y) = ((scanExponent s).1, (scanExponent s).2 ++ y) := by
  match s with
  | [] => exact absurd (by decide) htail
  | [c] =>
    have hc : isExponent c = false := by
      rw [← Bool.not_eq_true]
      intro hexp
      apply htail
      exact ⟨by simp [scanExponent], by simpa [scanExponent] using mem_tail_of_isExponent hexp⟩
    cases y with
    | nil => rfl
    | cons d more => simp [scanExponent, hc]
  | c :: d :: rest =>
    simp only [scanExponent, List.cons_append] at htail ⊢
    by_cases hexp : isExponent c = true
    · rw [if_pos hexp] at htail ⊢
      rw [if_pos hexp]
      by_cases hd : isDigit d = true
      · rw [if_pos hd] at htail ⊢
        rw [if_pos hd]
        have hne : rest.dropWhile isDigit ≠ [] := fun heq => htail (by rw [heq]; exact numberTail_nil)
        rw [(digits_append hne).1, (digits_append hne).2]
      · rw [if_neg hd] at htail ⊢
        rw [if_neg hd]
        cases rest with
        | nil =>
          have hsign : isSign d = false := by
            rw [← Bool.not_eq_true]
            intro hsign
            apply htail
            refine ⟨by simp, ?_⟩
            simp only [List.mem_cons, List.not_mem_nil, or_false, forall_eq_or_imp, forall_eq]
            exact ⟨mem_tail_of_isExponent hexp, mem_tail_of_isSign hsign⟩
          cases y with
          | nil => rfl
          | cons e more => simp [hsign]
        | cons e more =>
          simp only [List.cons_append] at htail ⊢
          by_cases he : (isSign d && isDigit e) = true
          · rw [if_pos he] at htail ⊢
            rw [if_pos he]
            have hne : more.dropWhile isDigit ≠ [] := fun heq => htail (by rw [heq]; exact numberTail_nil)
            rw [(digits_append hne).1, (digits_append hne).2]
          · rw [if_neg he, if_neg he]
            rfl
    · rw [if_neg hexp, if_neg hexp]
      rfl

theorem scanUnsigned_append (h : scanUnsigned s = some (t, r)) (htail : ¬NumberTail r) :
    scanUnsigned (s ++ y) = some (t, r ++ y) := by
  obtain ⟨⟨int, rest⟩, hint, heq⟩ := Option.map_eq_some_iff.mp h
  simp only [Prod.mk.injEq] at heq
  have hexp : ¬NumberTail (scanExponent (scanFraction rest).2).2 := by
    rw [heq.2]
    exact htail
  have hfraction : (scanFraction rest).2 ≠ [] := fun hnil =>
    hexp (by rw [hnil]; exact numberTail_nil)
  have hrest : rest ≠ [] := by
    rintro rfl
    exact hfraction rfl
  have hdot : rest ≠ ['.'.toNat] := by
    rintro rfl
    exact hexp (by decide)
  rw [scanUnsigned, scanInt_append hint hrest, Option.map_some]
  simp only [scanFraction_append hfraction hdot, scanExponent_append hexp, heq.1, heq.2]

theorem scanNumber_append (h : scanNumber s = some (t, r)) (htail : ¬NumberTail r) :
    scanNumber (s ++ y) = some (t, r ++ y) := by
  cases s with
  | nil => cases h
  | cons c rest =>
    simp only [scanNumber, List.cons_append] at h ⊢
    by_cases hminus : c = '-'.toNat
    · rw [if_pos hminus] at h ⊢
      obtain ⟨⟨t', r'⟩, hrest, heq⟩ := Option.map_eq_some_iff.mp h
      simp only [Prod.mk.injEq] at heq
      rw [heq.2] at hrest
      rw [scanUnsigned_append hrest htail, ← heq.1]
      rfl
    · rw [if_neg hminus] at h ⊢
      exact scanUnsigned_append h htail

theorem isDigit_head_of_scanUnsigned (h : scanUnsigned s = some (t, r)) :
    ∃ c rest, s = c :: rest ∧ isDigit c = true := by
  obtain ⟨⟨int, rest⟩, hint, _⟩ := Option.map_eq_some_iff.mp h
  cases s with
  | nil => cases hint
  | cons c rest =>
    refine ⟨c, rest, rfl, ?_⟩
    simp only [scanInt] at hint
    split at hint
    next hzero => rw [hzero]; decide
    next hzero =>
      split at hint
      next hdigit => exact hdigit
      · cases hint

theorem scanScalar_append (h : scanScalar s = some (value, r)) (hcut : cutOff value r = false) :
    scanScalar (s ++ y) = some (value, r ++ y) := by
  cases s with
  | nil => cases h
  | cons c rest =>
    simp only [scanScalar, List.cons_append] at h ⊢
    split at h
    next name v _ =>
      obtain ⟨hname, h⟩ := Option.ite_none_right_eq_some.mp h
      have hle : name.length ≤ (c :: rest).length :=
        (List.isPrefixOf_iff_prefix.mp hname).length_le
      have hlong : name.isPrefixOf (c :: (rest ++ y)) = true :=
        List.isPrefixOf_iff_prefix.mpr
          ((List.isPrefixOf_iff_prefix.mp hname).trans (List.prefix_append _ y))
      simp only [Option.some.injEq, Prod.mk.injEq] at h
      simp only [hlong, if_true, Option.some.injEq, Prod.mk.injEq]
      refine ⟨h.1, ?_⟩
      rw [← List.cons_append, List.drop_append_of_le_length hle, h.2]
    next =>
      split at h
      next hinf =>
        have hprefix := List.isPrefixOf_iff_prefix.mp hinf.2
        have hlong : (points "Infinity").isPrefixOf (rest ++ y) = true :=
          List.isPrefixOf_iff_prefix.mpr (List.IsPrefix.trans hprefix (List.prefix_append _ y))
        simp only [Option.some.injEq, Prod.mk.injEq] at h
        rw [if_pos ⟨hinf.1, hlong⟩, List.drop_append_of_le_length hprefix.length_le, h.1, h.2]
      next hinf =>
        obtain ⟨⟨t, r'⟩, hnumber, heq⟩ := Option.map_eq_some_iff.mp h
        simp only [Prod.mk.injEq] at heq
        have htail : ¬NumberTail r := by
          rw [← heq.1] at hcut
          exact of_decide_eq_false hcut
        rw [heq.2] at hnumber
        have hinf' : ¬(c = '-'.toNat ∧ (points "Infinity").isPrefixOf (rest ++ y) = true) := by
          rintro ⟨hminus, hprefix⟩
          simp only [scanNumber, if_pos hminus] at hnumber
          obtain ⟨⟨t', r''⟩, hunsigned, _⟩ := Option.map_eq_some_iff.mp hnumber
          obtain ⟨d, more, rfl, hd⟩ := isDigit_head_of_scanUnsigned hunsigned
          have hI := List.isPrefixOf_iff_prefix.mp hprefix
          rw [List.cons_append] at hI
          have hhead : 'I'.toNat = d := (List.cons_prefix_cons.mp hI).1
          rw [← hhead] at hd
          exact absurd hd (by decide)
        rw [if_neg hinf', ← List.cons_append, scanNumber_append hnumber htail, ← heq.1]
        rfl

theorem dropWhile_isDigit_length (s : Points) : (s.dropWhile isDigit).length ≤ s.length :=
  (List.dropWhile_suffix isDigit).length_le

theorem scanFraction_length (s : Points) : (scanFraction s).2.length ≤ s.length := by
  fun_cases scanFraction s with
  | case1 c d rest _ =>
    have := dropWhile_isDigit_length rest
    simp only [List.length_cons]
    omega
  | case2 => exact le_rfl
  | case3 => exact le_rfl

theorem scanExponent_length (s : Points) : (scanExponent s).2.length ≤ s.length := by
  fun_cases scanExponent s with
  | case1 c d rest _ _ =>
    have := dropWhile_isDigit_length rest
    simp only [List.length_cons]
    omega
  | case2 c d _ _ e more _ =>
    have := dropWhile_isDigit_length more
    simp only [List.length_cons]
    omega
  | _ => exact le_rfl

theorem scanUnsigned_length (h : scanUnsigned s = some (t, r)) : r.length < s.length := by
  obtain ⟨⟨int, rest⟩, hint, heq⟩ := Option.map_eq_some_iff.mp h
  simp only [Prod.mk.injEq] at heq
  have hexp := scanExponent_length (scanFraction rest).2
  have hfraction := scanFraction_length rest
  rw [heq.2] at hexp
  have hlen : rest.length < s.length := by
    cases s with
    | nil => cases hint
    | cons c more =>
      simp only [scanInt] at hint
      split at hint
      · simp only [Option.some.injEq, Prod.mk.injEq] at hint
        simp [hint.2]
      · split at hint
        · simp only [Option.some.injEq, Prod.mk.injEq] at hint
          have := dropWhile_isDigit_length more
          rw [hint.2] at this
          simp only [List.length_cons]
          omega
        · cases hint
  omega

theorem scanScalar_length (h : scanScalar s = some (value, r)) : r.length < s.length := by
  cases s with
  | nil => cases h
  | cons c rest =>
    simp only [scanScalar] at h
    split at h
    next name v hname =>
      split at h
      · simp only [Option.some.injEq, Prod.mk.injEq] at h
        have hmem := List.mem_of_find?_eq_some hname
        have hpos : ∀ n ∈ names, 0 < n.1.length := by decide
        have hlen : 0 < name.length := hpos _ hmem
        rw [← h.2, List.length_drop, List.length_cons]
        omega
      · cases h
    next =>
      split at h
      · simp only [Option.some.injEq, Prod.mk.injEq] at h
        rw [← h.2, List.length_drop, List.length_cons]
        omega
      · obtain ⟨⟨t, r'⟩, hnumber, heq⟩ := Option.map_eq_some_iff.mp h
        simp only [Prod.mk.injEq] at heq
        simp only [scanNumber] at hnumber
        rw [heq.2] at hnumber
        split at hnumber
        · obtain ⟨⟨t', r''⟩, hrest, heq'⟩ := Option.map_eq_some_iff.mp hnumber
          simp only [Prod.mk.injEq] at heq'
          have := scanUnsigned_length hrest
          rw [heq'.2] at this
          simp only [List.length_cons]
          omega
        · exact scanUnsigned_length hnumber

theorem isScalar_of_scanScalar (h : scanScalar s = some (value, r)) : isScalar value = true := by
  cases s with
  | nil => cases h
  | cons c rest =>
    simp only [scanScalar] at h
    split at h
    next name v hname =>
      split at h
      · simp only [Option.some.injEq, Prod.mk.injEq] at h
        have hall : ∀ n ∈ names, isScalar n.2 = true := by simp [names, isScalar]
        exact h.1 ▸ hall _ (List.mem_of_find?_eq_some hname)
      · cases h
    next =>
      split at h
      · simp only [Option.some.injEq, Prod.mk.injEq] at h
        rw [← h.1]
        rfl
      · obtain ⟨_, _, heq⟩ := Option.map_eq_some_iff.mp h
        simp only [Prod.mk.injEq] at heq
        rw [← heq.1]
        rfl

theorem scanKey_append (h : scanKey s = some (t, r)) : scanKey (s ++ y) = some (t, r ++ y) := by
  unfold scanKey at h ⊢
  cases hs : skipSpace s with
  | nil => rw [hs] at h; cases h
  | cons c rest =>
    rw [hs] at h
    rw [skipSpace_append (by rw [hs]; exact List.cons_ne_nil _ _), hs]
    simp only [List.cons_append] at h ⊢
    split at h
    next hc => rw [if_pos hc, scanString_append h]
    · cases h

theorem scanKey_length (h : scanKey s = some (t, r)) : r.length ≤ s.length := by
  unfold scanKey at h
  split at h
  next c rest hs =>
    have hlen := skipSpace_length s
    rw [hs, List.length_cons] at hlen
    split at h
    · have := scanString_length h
      omega
    · cases h
  · cases h

end Append

end Json

end SpatiumDdi
