import SpatiumDdi.Lib.JsonScalars

/-!
The containers of a text: how deep the decoder may go, what a longer text changes,
and that any source showing the text reads the same.
-/

namespace SpatiumDdi

namespace Json

open Text (Points)

section Containers

variable {σ α : Type} {S : Source σ} {close : Nat} {expected : List Nat}

/-- Elements with commas between them, up to the character that closes them. -/
def Source.upTo (S : Source σ) (close : Nat) (element : σ → Option (α × σ)) :
    Nat → σ → Option (List α × σ)
  | 0, _ => none
  | fuel + 1, st => do
    let (found, st) ← element st
    let (c, st) ← S.take [comma, close] st
    if c = close then
      pure ([found], st)
    else
      let (rest, st) ← Source.upTo S close element fuel st
      pure (found :: rest, st)

/-- The elements of a container, after the character that opens it. -/
def Source.enclosed (S : Source σ) (close : Nat) (element : σ → Option (α × σ)) (fuel : Nat)
    (st : σ) : Option (List α × σ) :=
  match S.peek st with
  | (c, st) => if c = some close then some ([], S.drop st) else S.upTo close element fuel st

def Source.member (S : Source σ) (key : σ → Option (Points × σ))
    (value : Points → σ → Option (Json × σ)) (st : σ) : Option ((Points × Json) × σ) := do
  let (name, st) ← key st
  let (_, st) ← S.take [colon] st
  let (found, st) ← value name st
  pure ((name, found), st)

theorem array_eq_enclosed (value : σ → Option (Json × σ)) (fuel : Nat) (st : σ) :
    S.array value fuel st = S.enclosed rightBracket value fuel st := by
  have hitems : ∀ st, S.items value fuel st = S.upTo rightBracket value fuel st := by
    induction fuel with
    | zero => exact fun _ => rfl
    | succ fuel ih =>
      intro st
      simp only [Source.items, Source.upTo, ih]
  unfold Source.array Source.enclosed
  simp only [hitems]

theorem object_eq_enclosed (key : σ → Option (Points × σ))
    (value : Points → σ → Option (Json × σ)) (fuel : Nat) (st : σ) :
    S.object key value fuel st = S.enclosed rightBrace (S.member key value) fuel st := by
  have hmembers : ∀ st, S.members key value fuel st =
      S.upTo rightBrace (S.member key value) fuel st := by
    induction fuel with
    | zero => exact fun _ => rfl
    | succ fuel ih =>
      intro st
      simp only [Source.members, Source.upTo, Source.member, ih, Option.bind_eq_bind,
        Option.bind_assoc, Option.pure_def, Option.bind_some]
  unfold Source.object Source.enclosed
  simp only [hmembers]

theorem member_eq_some {key : σ → Option (Points × σ)} {value : Points → σ → Option (Json × σ)}
    {st st' : σ} {name : Points} {found : Json} :
    S.member key value st = some ((name, found), st') ↔ ∃ st₁ c st₂, key st = some (name, st₁) ∧
      S.take [colon] st₁ = some (c, st₂) ∧ value name st₂ = some (found, st') := by
  simp only [Source.member, Option.bind_eq_bind, Option.bind_eq_some_iff, Option.pure_def,
    Option.some.injEq, Prod.mk.injEq, Prod.exists]
  constructor
  · rintro ⟨_, st₁, hkey, c, st₂, hcolon, _, _, hvalue, ⟨rfl, rfl⟩, rfl⟩
    exact ⟨st₁, c, st₂, hkey, hcolon, hvalue⟩
  · rintro ⟨st₁, c, st₂, hkey, hcolon, hvalue⟩
    exact ⟨name, st₁, hkey, c, st₂, hcolon, found, st', hvalue, ⟨rfl, rfl⟩, rfl⟩

theorem upTo_succ {element : σ → Option (α × σ)} {fuel : Nat} {st st' : σ} {found : List α} :
    S.upTo close element (fuel + 1) st = some (found, st') ↔
      ∃ item st₁ c st₂, element st = some (item, st₁) ∧
        S.take [comma, close] st₁ = some (c, st₂) ∧
        ((c = close ∧ found = [item] ∧ st' = st₂) ∨
          (c ≠ close ∧ ∃ rest, S.upTo close element fuel st₂ = some (rest, st') ∧
            found = item :: rest)) := by
  constructor
  · intro h
    simp only [Source.upTo, Option.bind_eq_bind, Option.bind_eq_some_iff] at h
    obtain ⟨⟨item, st₁⟩, hitem, ⟨c, st₂⟩, htake, h⟩ := h
    refine ⟨item, st₁, c, st₂, hitem, htake, ?_⟩
    split at h
    next hc =>
      simp only [Option.pure_def, Option.some.injEq, Prod.mk.injEq] at h
      exact .inl ⟨hc, h.1.symm, h.2.symm⟩
    next hc =>
      simp only [Option.bind_eq_some_iff, Option.pure_def, Option.some.injEq,
        Prod.mk.injEq] at h
      obtain ⟨⟨rest, st₃⟩, hrest, rfl, rfl⟩ := h
      exact .inr ⟨hc, rest, hrest, rfl⟩
  · rintro ⟨item, st₁, c, st₂, hitem, htake, ⟨rfl, rfl, rfl⟩ | ⟨hc, rest, hrest, rfl⟩⟩
    · simp [Source.upTo, hitem, htake]
    · simp [Source.upTo, hitem, htake, hc, hrest]

theorem take_textSource {s r : Points} {c : Nat} :
    textSource.take expected s = some (c, r) ↔ skipSpace s = c :: r ∧ c ∈ expected := by
  simp only [Source.take, textSource]
  cases hs : skipSpace s with
  | nil => simp
  | cons d rest =>
    simp only [List.head?_cons, List.tail_cons]
    by_cases hd : d ∈ expected
    · rw [if_pos hd]
      simp only [Option.some.injEq, Prod.mk.injEq, List.cons.injEq]
      constructor
      · rintro ⟨rfl, rfl⟩
        exact ⟨⟨rfl, rfl⟩, hd⟩
      · exact fun h => h.1
    · rw [if_neg hd]
      simp only [reduceCtorEq, List.cons.injEq, false_iff, not_and]
      rintro ⟨rfl, -⟩
      exact hd

theorem take_length {s r : Points} {c : Nat} (h : textSource.take expected s = some (c, r)) :
    r.length < s.length := by
  have hlen := skipSpace_length s
  rw [(take_textSource.mp h).1, List.length_cons] at hlen
  omega

theorem enclosed_text (element : Points → Option (α × Points)) (fuel : Nat) (s : Points) :
    textSource.enclosed close element fuel s =
      if (skipSpace s).head? = some close then some ([], (skipSpace s).tail)
      else textSource.upTo close element fuel (skipSpace s) :=
  rfl

section

variable {element element' : Points → Option (α × Points)}
  (hshort : ∀ s v r, element s = some (v, r) → r.length ≤ s.length) {s r : Points} {found : List α}
include hshort

theorem upTo_length {fuel : Nat} (h : textSource.upTo close element fuel s = some (found, r)) :
    r.length ≤ s.length := by
  induction fuel generalizing s found with
  | zero => cases h
  | succ fuel ih =>
    obtain ⟨item, s₁, c, s₂, hitem, htake, h⟩ := upTo_succ.mp h
    have h₁ := hshort _ _ _ hitem
    have h₂ := take_length htake
    rcases h with ⟨_, _, rfl⟩ | ⟨_, rest, hrest, _⟩
    · omega
    · have := ih hrest
      omega

theorem enclosed_length {fuel : Nat}
    (h : textSource.enclosed close element fuel s = some (found, r)) : r.length ≤ s.length := by
  have hspace := skipSpace_length s
  rw [enclosed_text] at h
  split at h
  · simp only [Option.some.injEq, Prod.mk.injEq] at h
    have htail := (skipSpace s).length_tail
    rw [h.2] at htail
    omega
  · exact (upTo_length hshort h).trans hspace

theorem upTo_congr {n : Nat} (heq : ∀ s : Points, s.length ≤ n → element s = element' s)
    (fuel : Nat) (hs : s.length ≤ n) :
    textSource.upTo close element fuel s = textSource.upTo close element' fuel s := by
  induction fuel generalizing s with
  | zero => rfl
  | succ fuel ih =>
    simp only [Source.upTo, Option.bind_eq_bind]
    rw [← heq s hs]
    cases hitem : element s with
    | none => rfl
    | some found =>
      have h₁ := hshort _ _ _ hitem
      simp only [Option.bind_some]
      cases htake : textSource.take [comma, close] found.2 with
      | none => rfl
      | some next =>
        have h₂ := take_length htake
        simp only [Option.bind_some]
        rw [ih (by omega)]

theorem enclosed_congr (heq : ∀ t : Points, t.length ≤ s.length → element t = element' t)
    (fuel : Nat) :
    textSource.enclosed close element fuel s = textSource.enclosed close element' fuel s := by
  rw [enclosed_text, enclosed_text, upTo_congr hshort heq fuel (skipSpace_length s)]

end

variable {w w' : Points → Option (Json × Points)}

/-- The value takes nothing back. -/
def Shrinks (w : Points → Option (Json × Points)) : Prop :=
  ∀ s v r, w s = some (v, r) → r.length ≤ s.length

theorem member_length (hw : Shrinks w) (s : Points) (v : Points × Json) (r : Points)
    (h : textSource.member scanKey (fun _ => w) s = some (v, r)) : r.length ≤ s.length := by
  obtain ⟨s₁, c, s₂, hkey, hcolon, hvalue⟩ := member_eq_some.mp h
  have h₁ := scanKey_length hkey
  have h₂ := take_length hcolon
  have h₃ := hw _ _ _ hvalue
  omega

theorem member_congr {s : Points} (heq : ∀ t : Points, t.length ≤ s.length → w t = w' t) :
    textSource.member scanKey (fun _ => w) s = textSource.member scanKey (fun _ => w') s := by
  simp only [Source.member, Option.bind_eq_bind]
  cases hkey : scanKey s with
  | none => rfl
  | some name =>
    have h₁ := scanKey_length hkey
    simp only [Option.bind_some]
    cases hcolon : textSource.take [colon] name.2 with
    | none => rfl
    | some next =>
      have h₂ := take_length hcolon
      simp only [Option.bind_some]
      rw [← heq next.2 (by omega)]

/-- An array or an object of a text, after the character it starts with. -/
def containerOf (w : Points → Option (Json × Points)) (c : Nat) (rest : Points) :
    Option (Json × Points) :=
  textSource.container scanKey w rest.length c (c :: rest)

theorem containerOf_eq (c : Nat) (rest : Points) :
    containerOf w c rest = if c = leftBracket then
      (textSource.enclosed rightBracket w rest.length rest).map fun found =>
        (.array found.1, found.2)
    else
      (textSource.enclosed rightBrace (textSource.member scanKey fun _ => w) rest.length
        rest).map fun found => (.object (dict found.1), found.2) := by
  rw [← array_eq_enclosed, ← object_eq_enclosed]
  rfl

theorem containerOf_length (hw : Shrinks w) {c : Nat} {rest r : Points} {value : Json}
    (h : containerOf w c rest = some (value, r)) :
    r.length ≤ rest.length := by
  rw [containerOf_eq] at h
  split at h
  · obtain ⟨⟨found, r'⟩, harray, heq⟩ := Option.map_eq_some_iff.mp h
    exact (Prod.mk.inj heq).2 ▸ enclosed_length hw harray
  · obtain ⟨⟨found, r'⟩, hobject, heq⟩ := Option.map_eq_some_iff.mp h
    exact (Prod.mk.inj heq).2 ▸ enclosed_length (member_length hw) hobject

theorem containerOf_congr {c : Nat} {rest : Points} (hw : Shrinks w)
    (heq : ∀ s : Points, s.length ≤ rest.length → w s = w' s) :
    containerOf w c rest = containerOf w' c rest := by
  rw [containerOf_eq, containerOf_eq, enclosed_congr hw heq]
  rw [enclosed_congr (member_length hw) fun t ht => member_congr fun u hu => heq u (hu.trans ht)]

end Containers

section Depth

variable {s r y : Points} {value : Json} {depth c : Nat} {expected : List Nat}

theorem scan_cons (depth c : Nat) (rest : Points) :
    scan (depth + 1) (c :: rest) =
      if c = quote then (scanString rest).map fun found => (.string found.1, found.2)
      else if isOpening c then containerOf (fun t => scan depth (skipSpace t)) c rest
      else scanScalar (c :: rest) :=
  rfl

theorem scan_length (h : scan depth s = some (value, r)) : r.length < s.length := by
  induction depth generalizing s value r with
  | zero => cases h
  | succ depth ih =>
    cases s with
    | nil => cases h
    | cons c rest =>
      have hshrinks : Shrinks fun t => scan depth (skipSpace t) := by
        intro t v u ht
        have := ih ht
        have := skipSpace_length t
        omega
      rw [scan_cons] at h
      split at h
      · obtain ⟨⟨t, r'⟩, hstring, heq⟩ := Option.map_eq_some_iff.mp h
        simp only [Prod.mk.injEq] at heq
        have := scanString_length hstring
        rw [heq.2] at this
        simp only [List.length_cons]
        omega
      · split at h
        · have := containerOf_length hshrinks h
          simp only [List.length_cons]
          omega
        · exact scanScalar_length h

theorem shrinks_scan (depth : Nat) : Shrinks fun t => scan depth (skipSpace t) := by
  intro t v u ht
  have := scan_length ht
  have := skipSpace_length t
  omega

theorem scan_depth {d d' : Nat} (hd : s.length < d) (hd' : s.length < d') :
    scan d s = scan d' s := by
  induction d generalizing d' s with
  | zero => omega
  | succ d ih =>
    obtain ⟨d', rfl⟩ : ∃ n, d' = n + 1 := ⟨d' - 1, by omega⟩
    cases s with
    | nil => rfl
    | cons c rest =>
      rw [List.length_cons] at hd hd'
      rw [scan_cons, scan_cons, containerOf_congr (shrinks_scan d)]
      intro t ht
      have := skipSpace_length t
      exact ih (by omega) (by omega)

theorem scan_eq_rawDecode (h : s.length < depth) : scan depth s = rawDecode s :=
  scan_depth h (Nat.lt_succ_self _)

theorem rawDecode_length (h : rawDecode s = some (value, r)) : r.length < s.length :=
  scan_length h

def valueOf (s : Points) : Option (Json × Points) := rawDecode (skipSpace s)

theorem shrinks_valueOf : Shrinks valueOf := by
  intro t v u ht
  have := rawDecode_length ht
  have := skipSpace_length t
  omega

theorem rawDecode_cons (c : Nat) (rest : Points) :
    rawDecode (c :: rest) =
      if c = quote then (scanString rest).map fun found => (.string found.1, found.2)
      else if isOpening c then containerOf valueOf c rest
      else scanScalar (c :: rest) := by
  rw [rawDecode, scan_cons, @containerOf_congr _ valueOf _ _ (shrinks_scan _)]
  intro t ht
  have := skipSpace_length t
  apply scan_eq_rawDecode
  rw [List.length_cons]
  omega

theorem rawDecode_leftBracket (rest : Points) :
    rawDecode (leftBracket :: rest) = (textSource.array valueOf rest.length rest).map fun found =>
      (.array found.1, found.2) := by
  rw [rawDecode_cons, if_neg (by decide), if_pos (by decide)]
  rfl

theorem rawDecode_leftBrace (rest : Points) :
    rawDecode (leftBrace :: rest) =
      (textSource.object scanKey (fun _ => valueOf) rest.length rest).map fun found =>
        (.object (dict found.1), found.2) := by
  rw [rawDecode_cons, if_neg (by decide), if_pos (by decide)]
  rfl

def opening : Json → Option Nat
  | .string _ => some quote
  | .array _ => some leftBracket
  | .object _ => some leftBrace
  | _ => none

theorem rawDecode_opening (h : rawDecode s = some (value, r)) (hvalue : opening value = some c) :
    ∃ rest, s = c :: rest := by
  cases s with
  | nil => cases h
  | cons d rest =>
    refine ⟨rest, congrArg (· :: rest) ?_⟩
    rw [rawDecode_cons] at h
    split at h
    next hd =>
      obtain ⟨_, _, heq⟩ := Option.map_eq_some_iff.mp h
      cases heq
      exact hd.trans (Option.some.inj hvalue)
    · split at h
      next hopen =>
        unfold containerOf Source.container at h
        split at h
        next hd =>
          obtain ⟨_, _, heq⟩ := Option.map_eq_some_iff.mp h
          cases heq
          exact hd.trans (Option.some.inj hvalue)
        next hd =>
          obtain ⟨_, _, heq⟩ := Option.map_eq_some_iff.mp h
          cases heq
          simp only [isOpening, Bool.or_eq_true, beq_iff_eq] at hopen
          exact (hopen.resolve_left hd).trans (Option.some.inj hvalue)
      · have hscalar := isScalar_of_scanScalar h
        cases value <;> simp_all [opening, isScalar]

/-- The value is read alike where `y` follows the text, unless it might be cut. -/
def Goes (y : Points) (w : Points → Option (Json × Points)) (n : Nat) : Prop :=
  ∀ s v r, s.length ≤ n → w s = some (v, r) → cutOff v r = false → w (s ++ y) = some (v, r ++ y)

section

variable (h : textSource.take expected s = some (c, r))
include h

theorem take_append : textSource.take expected (s ++ y) = some (c, r ++ y) := by
  rw [take_textSource] at h ⊢
  refine ⟨?_, h.2⟩
  rw [skipSpace_append (by rw [h.1]; exact List.cons_ne_nil _ _), h.1, List.cons_append]

theorem cutOff_of_take (hend : ∀ d ∈ expected, d ∉ points ".eE+-") : cutOff value s = false := by
  obtain ⟨hs, hc⟩ := take_textSource.mp h
  have hmem : c ∈ s := mem_of_mem_skipSpace (by rw [hs]; exact List.mem_cons_self)
  unfold cutOff
  split
  · exact decide_eq_false fun htail => hend c hc (htail.2 c hmem)
  · rfl

end

variable {w : Points → Option (Json × Points)} {n : Nat}

section

variable {α : Type} {close fuel fuel' : Nat} {element : Points → Option (α × Points)}
  (hshort : ∀ s v r, element s = some (v, r) → r.length ≤ s.length)
  (hlong : ∀ s v r c r', s.length ≤ n → element s = some (v, r) → textSource.take [comma, close] r = some (c, r') → element (s ++ y) = some (v, r ++ y))
  {found : List α}
include hshort hlong

theorem upTo_append (hfuel : fuel ≤ fuel') (hs : s.length ≤ n)
    (h : textSource.upTo close element fuel s = some (found, r)) :
    textSource.upTo close element fuel' (s ++ y) = some (found, r ++ y) := by
  induction fuel generalizing s fuel' found with
  | zero => cases h
  | succ fuel ih =>
    obtain ⟨fuel', rfl⟩ : ∃ k, fuel' = k + 1 := ⟨fuel' - 1, by omega⟩
    obtain ⟨item, s₁, c, s₂, hitem, htake, h⟩ := upTo_succ.mp h
    have h₁ := hshort _ _ _ hitem
    have h₂ := take_length htake
    refine upTo_succ.mpr ⟨item, s₁ ++ y, c, s₂ ++ y, hlong _ _ _ _ _ hs hitem htake,
      take_append htake, ?_⟩
    rcases h with ⟨hc, hfound, rfl⟩ | ⟨hc, rest, hrest, hfound⟩
    · exact .inl ⟨hc, hfound, rfl⟩
    · exact .inr ⟨hc, rest, ih (by omega) (by omega) hrest, hfound⟩

theorem enclosed_append (hnil : element [] = none) (hfuel : fuel ≤ fuel') (hs : s.length ≤ n)
    (h : textSource.enclosed close element fuel s = some (found, r)) :
    textSource.enclosed close element fuel' (s ++ y) = some (found, r ++ y) := by
  have hspace := skipSpace_length s
  have hne : skipSpace s ≠ [] := by
    intro hempty
    rw [enclosed_text, hempty, if_neg (by simp)] at h
    cases fuel with
    | zero => cases h
    | succ fuel =>
      obtain ⟨_, _, _, _, hitem, _⟩ := upTo_succ.mp h
      rw [hnil] at hitem
      cases hitem
  rw [enclosed_text] at h ⊢
  rw [skipSpace_append hne, List.head?_append_of_ne_nil _ hne]
  by_cases hc : (skipSpace s).head? = some close
  · rw [if_pos hc] at h ⊢
    simp only [Option.some.injEq, Prod.mk.injEq] at h
    rw [List.tail_append_of_ne_nil hne, h.1, h.2]
  · rw [if_neg hc] at h ⊢
    exact upTo_append hshort hlong hfuel (hspace.trans hs) h

end

theorem member_append (hgoes : Goes y w n) (s : Points) (v : Points × Json) (r : Points)
    (c : Nat) (r' : Points) (hs : s.length ≤ n)
    (h : textSource.member scanKey (fun _ => w) s = some (v, r))
    (htake : textSource.take [comma, rightBrace] r = some (c, r')) :
    textSource.member scanKey (fun _ => w) (s ++ y) = some (v, r ++ y) := by
  obtain ⟨s₁, c₁, s₂, hkey, hcolon, hvalue⟩ := member_eq_some.mp h
  have h₁ := scanKey_length hkey
  have h₂ := take_length hcolon
  exact member_eq_some.mpr ⟨s₁ ++ y, c₁, s₂ ++ y, scanKey_append hkey, take_append hcolon,
    hgoes _ _ _ (by omega) hvalue (cutOff_of_take htake (by decide))⟩

theorem containerOf_append {rest : Points} (hw : Shrinks w) (hnil : w [] = none)
    (hgoes : Goes y w rest.length) (h : containerOf w c rest = some (value, r)) :
    containerOf w c (rest ++ y) = some (value, r ++ y) := by
  have hfuel : rest.length ≤ (rest ++ y).length := by simp
  rw [containerOf_eq] at h ⊢
  split at h
  next hc =>
    obtain ⟨⟨found, r'⟩, harray, rfl, rfl⟩ := Option.map_eq_some_iff.mp h
    rw [if_pos hc, enclosed_append hw (fun _ _ _ _ _ hs hvalue htake =>
      hgoes _ _ _ hs hvalue (cutOff_of_take htake (by decide))) hnil hfuel le_rfl harray]
    rfl
  next hc =>
    obtain ⟨⟨found, r'⟩, hobject, rfl, rfl⟩ := Option.map_eq_some_iff.mp h
    rw [if_neg hc, enclosed_append (member_length hw) (member_append hgoes) rfl hfuel le_rfl
      hobject]
    rfl

theorem valueOf_nil : valueOf [] = none := rfl

/-- A value is read alike in a longer text, unless it is a number that might be cut. -/
theorem rawDecode_append (h : rawDecode s = some (value, r)) (hcut : cutOff value r = false) :
    rawDecode (s ++ y) = some (value, r ++ y) := by
  induction hn : s.length using Nat.strong_induction_on generalizing s value r with
  | _ n ih =>
    cases s with
    | nil => cases h
    | cons c rest =>
      rw [rawDecode_cons] at h
      rw [List.cons_append, rawDecode_cons]
      split at h
      next hc =>
        rw [if_pos hc]
        obtain ⟨⟨t, r'⟩, hstring, heq⟩ := Option.map_eq_some_iff.mp h
        simp only [Prod.mk.injEq] at heq
        rw [scanString_append hstring, ← heq.1, ← heq.2]
        rfl
      next hc =>
        rw [if_neg hc]
        split at h
        next hopen =>
          rw [if_pos hopen]
          apply containerOf_append shrinks_valueOf valueOf_nil _ h
          intro t v u ht hvalue hv
          have hne : skipSpace t ≠ [] := by
            intro hempty
            rw [valueOf, hempty] at hvalue
            cases hvalue
          rw [valueOf, skipSpace_append hne]
          have hspace := skipSpace_length t
          refine ih _ ?_ hvalue hv rfl
          rw [← hn, List.length_cons]
          omega
        next hopen =>
          rw [if_neg hopen]
          exact scanScalar_append h hcut

end Depth

section Shows

variable {σ α β : Type} {S : Source σ} {text : σ → Points}

structure Source.Shows (S : Source σ) (text : σ → Points) : Prop where
  peek : ∀ st, (S.peek st).1 = (skipSpace (text st)).head?
  rest : ∀ st, text (S.peek st).2 = skipSpace (text st)
  drop : ∀ st, (S.peek st).1 ≠ none → text (S.drop (S.peek st).2) = (skipSpace (text st)).tail

def seen (text : σ → Points) (r : Option (α × σ)) : Option (α × Points) :=
  r.map fun found => (found.1, text found.2)

theorem seen_bind {r : Option (α × σ)} {k : α × σ → Option (β × σ)}
    {k' : α × Points → Option (β × Points)}
    (hk : ∀ a st, seen text (k (a, st)) = k' (a, text st)) :
    seen text (r.bind k) = (seen text r).bind k' := by
  cases r with
  | none => rfl
  | some found => exact hk found.1 found.2

theorem seen_map (f : α → β) (r : Option (α × σ)) :
    seen text (r.map fun found => (f found.1, found.2)) =
      (seen text r).map fun found => (f found.1, found.2) := by
  cases r <;> rfl

section

variable (h : S.Shows text) {key : σ → Option (Points × σ)}
  {w : Points → Points → Option (Json × Points)} {value : Points → σ → Option (Json × σ)}
  {element : σ → Option (α × σ)}
include h

theorem take_seen (expected : List Nat) (st : σ) :
    seen text (S.take expected st) = textSource.take expected (text st) := by
  have hpeek := h.peek st
  have hdrop := h.drop st
  unfold Source.take
  cases hp : S.peek st with
  | mk c st' =>
    rw [hp] at hpeek hdrop
    simp only at hpeek hdrop
    simp only [textSource, ← hpeek]
    cases c with
    | none => rfl
    | some c =>
      simp only
      by_cases hc : c ∈ expected
      · rw [if_pos hc, if_pos hc, ← hdrop (Option.some_ne_none c)]
        rfl
      · rw [if_neg hc, if_neg hc]
        rfl

theorem upTo_seen {w : Points → Option (α × Points)}
    (helement : ∀ st, seen text (element st) = w (text st)) (close fuel : Nat) (st : σ) :
    seen text (S.upTo close element fuel st) = textSource.upTo close w fuel (text st) := by
  induction fuel generalizing st with
  | zero => rfl
  | succ fuel ih =>
    simp only [Source.upTo, Option.bind_eq_bind]
    rw [← helement]
    apply seen_bind
    intro item st₁
    simp only
    rw [← take_seen h]
    apply seen_bind
    intro c st₂
    simp only
    split
    · rfl
    · rw [← ih]
      apply seen_bind
      intro rest st₃
      rfl

theorem enclosed_seen {w : Points → Option (α × Points)}
    (helement : ∀ st, seen text (element st) = w (text st)) (close fuel : Nat) (st : σ) :
    seen text (S.enclosed close element fuel st) =
      textSource.enclosed close w fuel (text st) := by
  have hdrop := h.drop st
  rw [enclosed_text, ← h.peek st, ← h.rest st, ← upTo_seen h helement]
  unfold Source.enclosed
  simp only
  split
  next hc =>
    rw [h.rest st, ← hdrop (by rw [hc]; exact Option.some_ne_none _)]
    rfl
  · rfl

theorem member_seen (hkey : ∀ st, seen text (key st) = scanKey (text st))
    (hvalue : ∀ name st, seen text (value name st) = w name (text st)) (st : σ) :
    seen text (S.member key value st) = textSource.member scanKey w (text st) := by
  simp only [Source.member, Option.bind_eq_bind]
  rw [← hkey]
  apply seen_bind
  intro name st₁
  simp only
  rw [← take_seen h]
  apply seen_bind
  intro _ st₂
  simp only
  rw [← hvalue]
  apply seen_bind
  intro found st₃
  rfl

theorem array_seen {value : σ → Option (Json × σ)} {w : Points → Option (Json × Points)}
    (hvalue : ∀ st, seen text (value st) = w (text st)) (fuel : Nat) (st : σ) :
    seen text (S.array value fuel st) = textSource.array w fuel (text st) := by
  rw [array_eq_enclosed, array_eq_enclosed, enclosed_seen h hvalue]

section

variable (hkey : ∀ st, seen text (key st) = scanKey (text st))
include hkey

theorem object_seen (hvalue : ∀ name st, seen text (value name st) = w name (text st)) (fuel : Nat)
    (st : σ) :
    seen text (S.object key value fuel st) = textSource.object scanKey w fuel (text st) := by
  rw [object_eq_enclosed, object_eq_enclosed, enclosed_seen h (member_seen h hkey hvalue)]

theorem container_seen {value : σ → Option (Json × σ)} {w : Points → Option (Json × Points)}
    (hvalue : ∀ st, seen text (value st) = w (text st)) {c : Nat} {rest : Points} {st : σ}
    (hst : text (S.drop st) = rest) :
    seen text (S.container key value rest.length c st) = containerOf w c rest := by
  have harray := array_seen h hvalue rest.length (S.drop st)
  have hobject := object_seen (w := fun _ => w) h hkey (fun _ => hvalue) rest.length (S.drop st)
  rw [hst] at harray hobject
  unfold containerOf Source.container
  change _ = if c = leftBracket then Option.map _ (textSource.array w rest.length rest)
    else Option.map _ (textSource.object scanKey (fun _ => w) rest.length rest)
  rw [← harray, ← hobject]
  split
  · exact seen_map Json.array _
  · exact seen_map (fun members => Json.object (dict members)) _

end

end

end Shows

section Mapped

variable {σ : Type} {S : Source σ}

theorem enclosed_map {α : Type} (f : α → α) (element : σ → Option (α × σ)) (close fuel : Nat)
    (st : σ) :
    S.enclosed close (fun st => (element st).map fun found => (f found.1, found.2)) fuel st =
      (S.enclosed close element fuel st).map fun found => (found.1.map f, found.2) := by
  have hupTo : ∀ st,
      S.upTo close (fun st => (element st).map fun found => (f found.1, found.2)) fuel st =
        (S.upTo close element fuel st).map fun found => (found.1.map f, found.2) := by
    induction fuel with
    | zero => exact fun _ => rfl
    | succ fuel ih =>
      intro st
      simp only [Source.upTo, Option.bind_eq_bind]
      cases element st with
      | none => rfl
      | some item =>
        simp only [Option.map_some, Option.bind_some]
        cases S.take [comma, close] item.2 with
        | none => rfl
        | some next =>
          simp only [Option.bind_some, ih]
          split
          · rfl
          · cases S.upTo close element fuel next.2 with
            | none => rfl
            | some rest => rfl
  unfold Source.enclosed
  simp only [hupTo]
  split <;> rfl

theorem array_map (g : Json → Json) (value : σ → Option (Json × σ)) (fuel : Nat) (st : σ) :
    S.array (fun st => (value st).map fun found => (g found.1, found.2)) fuel st =
      (S.array value fuel st).map fun found => (found.1.map g, found.2) := by
  rw [array_eq_enclosed, array_eq_enclosed, enclosed_map]

variable (g : Points → Json → Json)

theorem object_map (key : σ → Option (Points × σ)) (value : Points → σ → Option (Json × σ))
    (fuel : Nat) (st : σ) :
    S.object key (fun name st => (value name st).map fun found => (g name found.1, found.2))
        fuel st =
      (S.object key value fuel st).map fun found =>
        (found.1.map fun m => (m.1, g m.1 m.2), found.2) := by
  have hmember : ∀ st, S.member key (fun name st => (value name st).map fun found =>
      (g name found.1, found.2)) st = (S.member key value st).map fun found =>
        ((found.1.1, g found.1.1 found.1.2), found.2) := by
    intro st
    simp only [Source.member, Option.bind_eq_bind]
    cases key st with
    | none => rfl
    | some name =>
      simp only [Option.bind_some]
      cases S.take [colon] name.2 with
      | none => rfl
      | some next =>
        simp only [Option.bind_some]
        cases value name.1 next.2 <;> rfl
  rw [object_eq_enclosed, object_eq_enclosed, ← enclosed_map, ← funext hmember]

theorem setMember_map (members : List (Points × Json)) (key : Points) (value : Json) :
    setMember (members.map fun m => (m.1, g m.1 m.2)) key (g key value) =
      (setMember members key value).map fun m => (m.1, g m.1 m.2) := by
  induction members with
  | nil => rfl
  | cons m rest ih =>
    simp only [List.map_cons, setMember]
    split
    · rfl
    · rw [List.map_cons, ih]

theorem dict_map (pairs : List (Points × Json)) :
    dict (pairs.map fun m => (m.1, g m.1 m.2)) = (dict pairs).map fun m => (m.1, g m.1 m.2) := by
  have hfold : ∀ members, (pairs.map fun m => (m.1, g m.1 m.2)).foldl
      (fun members pair => setMember members pair.1 pair.2)
        (members.map fun m => (m.1, g m.1 m.2)) =
      (pairs.foldl (fun members pair => setMember members pair.1 pair.2) members).map
        fun m => (m.1, g m.1 m.2) := by
    induction pairs with
    | nil => exact fun _ => rfl
    | cons pair rest ih =>
      intro members
      rw [List.map_cons, List.foldl_cons, List.foldl_cons, setMember_map, ih]
  exact hfold []

end Mapped

theorem decode_eq_none_of_bom {s : Points} (h : (skipSpace s).head? = some bom) :
    decode s = none := by
  unfold decode
  cases hs : skipSpace s with
  | nil => rfl
  | cons c rest =>
    rw [hs, List.head?_cons, Option.some.injEq] at h
    subst h
    have hnone : rawDecode (bom :: rest) = none := by
      rw [rawDecode_cons, if_neg (by decide), if_neg (by decide)]
      rfl
    rw [hnone]

theorem loads_skipSpace (s : Points) : loads (skipSpace s) = loads s := by
  have hdecode : decode (skipSpace s) = decode s := by
    unfold decode
    rw [skipSpace_skipSpace]
  unfold loads
  rw [hdecode]
  by_cases hbom : (skipSpace s).head? = some bom
  · rw [if_pos hbom, decode_eq_none_of_bom hbom]
    split <;> rfl
  · rw [if_neg hbom]
    cases s with
    | nil => rfl
    | cons c rest =>
      split
      next hc =>
        rw [List.head?_cons, Option.some.injEq] at hc
        subst hc
        exact absurd rfl hbom
      · rfl

end Json

end SpatiumDdi
