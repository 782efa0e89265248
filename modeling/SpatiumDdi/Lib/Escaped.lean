import Mathlib.Data.List.Basic

/-!
Text between delimiters, with a backslash before some characters. The writer escapes the special
ones. The reader takes a backslash before an escapable one away, and any other as it stands, up to
a character that stops it.
-/

namespace SpatiumDdi.Escaped

def escape (special : Char → Bool) : List Char → List Char
  | [] => []
  | c :: s => if special c then '\\' :: c :: escape special s else c :: escape special s

def scan (escapable stop : Char → Bool) : List Char → List Char × List Char
  | [] => ([], [])
  | [c] => if c ≠ '\\' ∧ stop c = true then ([], [c]) else ([c], [])
  | c :: d :: s =>
    if c = '\\' then
      if escapable d then
        let (token, rest) := scan escapable stop s
        (d :: token, rest)
      else
        let (token, rest) := scan escapable stop (d :: s)
        ('\\' :: token, rest)
    else if stop c then ([], c :: d :: s)
    else
      let (token, rest) := scan escapable stop (d :: s)
      (c :: token, rest)

/-- No backslash ends a text, or stands in it before a character that the reader escapes and the
writer does not. -/
def Readable (special escapable : Char → Bool) : List Char → Prop
  | [] => True
  | [c] => c ≠ '\\'
  | c :: d :: s =>
    (c = '\\' → escapable d = true → special d = true) ∧ Readable special escapable (d :: s)

variable {special escapable stop : Char → Bool} {c d : Char} {s rest : List Char}

theorem scan_stop (hc : c ≠ '\\') (hstop : stop c = true) (s : List Char) :
    scan escapable stop (c :: s) = ([], c :: s) := by
  cases s with
  | nil => rw [scan, if_pos ⟨hc, hstop⟩]
  | cons d s => rw [scan, if_neg hc, if_pos hstop]

theorem scan_plain (hc : c ≠ '\\') (hstop : stop c = false) (s : List Char) :
    scan escapable stop (c :: s) =
      (c :: (scan escapable stop s).1, (scan escapable stop s).2) := by
  cases s with
  | nil => simp [scan, hstop]
  | cons d s =>
    rw [scan, if_neg hc, if_neg (by rw [hstop]; exact Bool.false_ne_true)]

theorem scan_escaped (hd : escapable d = true) (s : List Char) :
    scan escapable stop ('\\' :: d :: s) =
      (d :: (scan escapable stop s).1, (scan escapable stop s).2) := by
  rw [scan, if_pos rfl, if_pos hd]

theorem scan_literal (hd : escapable d = false) (s : List Char) :
    scan escapable stop ('\\' :: d :: s) =
      ('\\' :: (scan escapable stop (d :: s)).1, (scan escapable stop (d :: s)).2) := by
  rw [scan, if_pos rfl, if_neg (by rw [hd]; exact Bool.false_ne_true)]

theorem escape_special (hc : special c = true) (s : List Char) :
    escape special (c :: s) = '\\' :: c :: escape special s := by
  rw [escape, if_pos hc]

theorem escape_plain (hc : special c = false) (s : List Char) :
    escape special (c :: s) = c :: escape special s := by
  rw [escape, if_neg (by rw [hc]; exact Bool.false_ne_true)]

/-- A reader that suits a writer: it reads every escape, and no backslash is one. -/
structure Suits (special escapable : Char → Bool) : Prop where
  reads : ∀ c, special c = true → escapable c = true
  backslash : escapable '\\' = false

section

variable (h : Suits special escapable)
include h

theorem Suits.special_backslash : special '\\' = false := by
  cases hs : special '\\' with
  | false => rfl
  | true =>
    have := h.reads _ hs
    rw [h.backslash] at this
    cases this

theorem Suits.ne_of_special (hc : special c = true) : c ≠ '\\' := by
  rintro rfl
  rw [h.special_backslash] at hc
  cases hc

section

variable (hd : escapable d = true)
include hd

section

variable (hstop : stop d = true)
include hstop

section

variable (hs : ∀ c ∈ s, stop c = true → special c = true)
include hs

/-- What is written before a delimiter is read up to it exactly if it is readable. -/
theorem scan_escape_iff (rest : List Char) :
    (Readable special escapable s →
      scan escapable stop (escape special s ++ d :: rest) = (s, d :: rest)) ∧
    ((scan escapable stop (escape special s ++ d :: rest)).1 = s → Readable special escapable s) := by
  have hne : d ≠ '\\' := by
    rintro rfl
    rw [h.backslash] at hd
    cases hd
  induction s with
  | nil =>
    rw [escape, List.nil_append, scan_stop hne hstop]
    exact ⟨fun _ => rfl, fun _ => trivial⟩
  | cons c s ih =>
    obtain ⟨hread, hback⟩ := ih fun c hc => hs c (List.mem_cons_of_mem _ hc)
    by_cases hc : special c = true
    · have hcne := h.ne_of_special hc
      have hiff : Readable special escapable (c :: s) ↔ Readable special escapable s := by
        cases s with
        | nil => exact ⟨fun _ => trivial, fun _ => hcne⟩
        | cons e s => exact ⟨fun h => h.2, fun h => ⟨fun heq => absurd heq hcne, h⟩⟩
      rw [escape_special hc, List.cons_append, List.cons_append, scan_escaped (h.reads c hc), hiff]
      exact ⟨fun hs => by rw [hread hs], fun heq => hback (List.cons.inj heq).2⟩
    have hcf : special c = false := by simpa using hc
    rw [escape_plain hcf, List.cons_append]
    by_cases hbackslash : c = '\\'
    · subst hbackslash
      cases s with
      | nil =>
        rw [escape, List.nil_append, scan_escaped hd]
        exact ⟨fun h => absurd rfl h, fun heq => absurd (List.cons.inj heq).1 hne⟩
      | cons e s =>
        by_cases he : special e = true
        · rw [escape_special he, List.cons_append, List.cons_append] at hread hback ⊢
          rw [scan_literal h.backslash]
          exact ⟨fun hs => by rw [hread hs.2],
            fun heq => ⟨fun _ _ => he, hback (List.cons.inj heq).2⟩⟩
        · have hef : special e = false := by simpa using he
          rw [escape_plain hef, List.cons_append] at hread hback ⊢
          by_cases hee : escapable e = true
          · rw [scan_escaped hee]
            refine ⟨fun hs => absurd (hs.1 rfl hee) he, fun heq => ?_⟩
            obtain rfl : e = '\\' := (List.cons.inj heq).1
            rw [h.backslash] at hee
            cases hee
          · rw [scan_literal (by simpa using hee)]
            exact ⟨fun hs => by rw [hread hs.2],
              fun heq => ⟨fun _ hesc => absurd hesc hee, hback (List.cons.inj heq).2⟩⟩
    · have hcs : stop c = false := by
        cases hstopc : stop c with
        | false => rfl
        | true => exact absurd (hs c List.mem_cons_self hstopc) hc
      have hiff : Readable special escapable (c :: s) ↔ Readable special escapable s := by
        cases s with
        | nil => exact ⟨fun _ => trivial, fun _ => hbackslash⟩
        | cons e s => exact ⟨fun h => h.2, fun h => ⟨fun heq => absurd heq hbackslash, h⟩⟩
      rw [scan_plain hbackslash hcs, hiff]
      exact ⟨fun hs => by rw [hread hs], fun heq => hback (List.cons.inj heq).2⟩

theorem scan_escape (hread : Readable special escapable s) (rest : List Char) :
    scan escapable stop (escape special s ++ d :: rest) = (s, d :: rest) :=
  (scan_escape_iff h hd hstop hs rest).1 hread

theorem readable_of_scan (heq : (scan escapable stop (escape special s ++ d :: rest)).1 = s) :
    Readable special escapable s :=
  (scan_escape_iff h hd hstop hs rest).2 heq

end

end

end

end

theorem readable_iff : Readable special escapable s ↔
    s.getLast? ≠ some '\\' ∧
      ∀ pre c post, s = pre ++ '\\' :: c :: post → escapable c = true → special c = true := by
  induction s with
  | nil => exact ⟨fun _ => ⟨nofun, fun pre _ _ h => by cases pre <;> cases h⟩, fun _ => trivial⟩
  | cons c s ih =>
    cases s with
    | nil =>
      refine ⟨fun h => ⟨fun heq => h (Option.some.inj heq), fun pre _ _ heq => ?_⟩,
        fun h heq => h.1 (congrArg some heq)⟩
      rcases pre with - | ⟨a, - | ⟨b, pre⟩⟩ <;> cases heq
    | cons d s =>
      rw [Readable, ih, List.getLast?_cons_cons]
      constructor
      · rintro ⟨hfirst, hlast, hrest⟩
        refine ⟨hlast, fun pre e post heq => ?_⟩
        cases pre with
        | nil =>
          obtain ⟨rfl, rfl, rfl⟩ : c = '\\' ∧ d = e ∧ s = post := by simpa using heq
          exact hfirst rfl
        | cons a pre => exact hrest pre e post (List.cons.inj heq).2
      · rintro ⟨hlast, hall⟩
        refine ⟨?_, hlast, fun pre e post heq => hall (c :: pre) e post (congrArg (c :: ·) heq)⟩
        rintro rfl
        exact hall [] d s rfl

theorem scan_escape_all (hreads : ∀ c, special c = true → escapable c = true)
    (hbackslash : special '\\' = true) (hd : d ≠ '\\') (hstop : stop d = true)
    (hs : ∀ c ∈ s, stop c = true → special c = true) (rest : List Char) :
    scan escapable stop (escape special s ++ d :: rest) = (s, d :: rest) := by
  induction s with
  | nil => exact scan_stop hd hstop rest
  | cons c s ih =>
    have hrest := ih fun c hc => hs c (List.mem_cons_of_mem _ hc)
    by_cases hc : special c = true
    · rw [escape_special hc, List.cons_append, List.cons_append, scan_escaped (hreads c hc), hrest]
    · have hne : c ≠ '\\' := fun heq => hc (heq ▸ hbackslash)
      have hcs : stop c = false := by
        simpa using mt (hs c List.mem_cons_self) hc
      rw [escape_plain (by simpa using hc), List.cons_append, scan_plain hne hcs, hrest]

end SpatiumDdi.Escaped
