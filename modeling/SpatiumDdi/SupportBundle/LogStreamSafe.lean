import SpatiumDdi.SupportBundle.LogStream

/-!
What the stream redactor sends. While each step is covered, the redactor knows of every key that
is open, or holds all of its body; the first step that is not covered sends a body line.
-/

namespace SpatiumDdi.SupportBundle

section

variable {ι : Type} (redactSecrets : Chars → Chars) {l before after : Chars}
  {st : LogStreamRedactor ι} {line : ι × Chars}

/-- A line with no marker, or none but whole blocks and what is behind them. -/
def Settles (l : Chars) : Prop :=
  (∃ before after, search .start l = some (before, after) ∧ search .stop after ≠ none) ∨
    search .start l = none ∧ search .stop l = none

theorem feedOutside_open (h : search .start l = some (before, after))
    (hafter : search .stop after = none) (st : LogStreamRedactor ι) (tag : ι) :
    feedOutside redactSecrets st (tag, l) =
      (⟨true, 0, []⟩, flush redactSecrets st.held ++
        [(tag, redactSecrets before ++ pemRedacted ++ redactSecrets (pemLineTail after))]) := by
  rw [feedOutside, h]
  exact if_pos hafter

theorem feedOutside_close (h : search .start l = none)
    (hstop : search .stop l = some (before, after)) (st : LogStreamRedactor ι) (tag : ι) :
    feedOutside redactSecrets st (tag, l) =
      ({ st with held := [] },
        [(tag, redactSecrets before ++ pemRedacted ++ redactSecrets after)]) := by
  rw [feedOutside, h]
  dsimp only
  rw [hstop]

theorem feedOutside_settle (h : Settles l) (st : LogStreamRedactor ι) (tag : ι) :
    feedOutside redactSecrets st (tag, l) = settle redactSecrets st (tag, l) := by
  rw [feedOutside]
  rcases h with ⟨before, after, hstart, hafter⟩ | ⟨hstart, hstop⟩
  · rw [hstart]
    exact if_neg hafter
  · rw [hstart]
    dsimp only
    rw [hstop]

theorem settle_hold (h : couldBeBody st.held line.2 = true) :
    settle redactSecrets st line = ({ st with held := st.held ++ [line] }, []) :=
  if_pos h

theorem settle_send (h : couldBeBody st.held line.2 = false) :
    settle redactSecrets st line =
      ({ st with held := [] },
        flush redactSecrets st.held ++ [(line.1, redactSecrets line.2)]) :=
  if_neg (by rw [h]; exact Bool.false_ne_true)

theorem outside_cases (l : Chars) :
    (∃ before after, search .start l = some (before, after) ∧ search .stop after = none) ∨
      (∃ before after, search .start l = none ∧ search .stop l = some (before, after)) ∨
      Settles l := by
  cases hstart : search .start l with
  | some found =>
    cases hafter : search .stop found.2 with
    | none => exact .inl ⟨found.1, found.2, rfl, hafter⟩
    | some _ =>
      refine .inr (.inr (.inl ⟨found.1, found.2, hstart, ?_⟩))
      rw [hafter]
      exact Option.some_ne_none _
  | none =>
    cases hstop : search .stop l with
    | some found => exact .inr (.inl ⟨found.1, found.2, rfl, rfl⟩)
    | none => exact .inr (.inr (.inr ⟨hstart, hstop⟩))

end

variable (redactSecrets : Chars → Chars) {held : List (Role × Chars)} {line : Role × Chars}

theorem texts_append (a b : List (Role × Chars)) :
    texts redactSecrets (a ++ b) = texts redactSecrets a ++ texts redactSecrets b := by
  rw [texts, List.filter_append, flush, List.map_append]
  rfl

theorem texts_of_role (h : line.1 ≠ .text) : texts redactSecrets [line] = [] := by
  rw [texts, List.filter_cons_of_neg (by simpa using h)]
  rfl

theorem filter_flush (held : List (Role × Chars)) :
    ((flush redactSecrets held).filter fun o => o.1 = .text) = texts redactSecrets held := by
  rw [texts, flush, flush, List.filter_map]
  rfl

theorem texts_eq_nil (h : ∀ line ∈ held, line.1 ≠ .text) : texts redactSecrets held = [] := by
  rw [texts, List.filter_eq_nil_iff.mpr]
  · rfl
  · intro line hline
    simpa using h line hline

def Sends (held held' : List (Role × Chars)) (line : Role × Chars)
    (sent : List (Role × Chars)) : Prop :=
  (∀ o ∈ sent, o.1 ≠ .body) ∧
    (sent.filter fun o => o.1 = .text) ++ texts redactSecrets held' =
      texts redactSecrets held ++ texts redactSecrets [line]

theorem flush_role (h : ∀ line ∈ held, line.1 ≠ .body) :
    ∀ o ∈ flush redactSecrets held, o.1 ≠ .body := by
  intro o ho
  obtain ⟨line, hline, rfl⟩ := List.mem_map.mp ho
  exact h line hline

variable {redactSecrets} {st : LogStreamRedactor Role} {n : ℕ}

theorem sends_settle (hheld : ∀ h ∈ st.held, h.1 ≠ .body) (hline : line.1 ≠ .body) :
    Sends redactSecrets st.held (settle redactSecrets st line).1.held line
      (settle redactSecrets st line).2 := by
  cases hbody : couldBeBody st.held line.2 with
  | true =>
    rw [settle_hold redactSecrets hbody]
    exact ⟨nofun, texts_append redactSecrets st.held [line]⟩
  | false =>
    rw [settle_send redactSecrets hbody]
    refine ⟨List.forall_mem_append.mpr ⟨flush_role redactSecrets hheld,
      List.forall_mem_singleton.mpr hline⟩, ?_⟩
    rw [List.filter_append, filter_flush]
    exact (List.append_nil _).trans (congrArg _ (filter_flush redactSecrets [line]))

theorem sends_marker {role : Role} {l out : Chars} (hheld : ∀ h ∈ held, h.1 ≠ .body)
    (hbody : role ≠ .body) (htext : role ≠ .text) :
    Sends redactSecrets held [] (role, l) (flush redactSecrets held ++ [(role, out)]) := by
  refine ⟨List.forall_mem_append.mpr ⟨flush_role redactSecrets hheld,
    List.forall_mem_singleton.mpr hbody⟩, ?_⟩
  rw [List.filter_append, filter_flush, texts_of_role redactSecrets htext,
    List.filter_cons_of_neg (by simpa using htext)]
  exact List.append_nil _

theorem sends_drop {role : Role} {l out : Chars} (hheld : texts redactSecrets held = [])
    (hbody : role ≠ .body) (htext : role ≠ .text) :
    Sends redactSecrets held [] (role, l) [(role, out)] := by
  refine ⟨List.forall_mem_singleton.mpr hbody, ?_⟩
  rw [hheld, texts_of_role redactSecrets htext, List.filter_cons_of_neg (by simpa using htext)]
  rfl

theorem sends_nothing {held' : List (Role × Chars)}
    (hheld : texts redactSecrets held' = texts redactSecrets held) (htext : line.1 ≠ .text) :
    Sends redactSecrets held held' line [] := by
  refine ⟨nofun, ?_⟩
  rw [texts_of_role redactSecrets htext, hheld]
  exact (List.append_nil _).symm

/-- How many lines are held, and whether some belong to no key. -/
def Holding (n : ℕ) (words : Bool) (held : List (Role × Chars)) : Prop :=
  held.length = n ∧ (words = true ↔ ∃ h ∈ held, h.1 = .text)

theorem holding_nil : Holding 0 false [] := by
  refine ⟨rfl, fun h => absurd h Bool.false_ne_true, ?_⟩
  rintro ⟨line, hline, _⟩
  exact absurd hline List.not_mem_nil

theorem Holding.append {words : Bool} (h : Holding n words held) (role : Role) (l : Chars) :
    Holding (n + 1) (words || decide (role = .text)) (held ++ [(role, l)]) := by
  refine ⟨by rw [List.length_append, h.1]; rfl, ?_⟩
  rw [Bool.or_eq_true, decide_eq_true_iff, h.2]
  constructor
  · rintro (⟨line, hline, hrole⟩ | hrole)
    · exact ⟨line, List.mem_append_left _ hline, hrole⟩
    · exact ⟨_, List.mem_append_right _ List.mem_cons_self, hrole⟩
  · rintro ⟨line, hline, hrole⟩
    rcases List.mem_append.mp hline with hline | hline
    · exact .inl ⟨line, hline, hrole⟩
    · rw [List.mem_singleton.mp hline] at hrole
      exact .inr hrole

theorem Holding.texts_eq_nil (h : Holding n false held) : texts redactSecrets held = [] :=
  SupportBundle.texts_eq_nil redactSecrets fun line hline hrole =>
    Bool.false_ne_true (h.2.mpr ⟨line, hline, hrole⟩)

def Rel : Mode → LogStreamRedactor Role → Prop
  | .text n words, st =>
    st.inKey = false ∧ Holding n words st.held ∧ ∀ h ∈ st.held, h.1 ≠ .body
  | .tail n words, st =>
    st.inKey = false ∧ Holding n words st.held ∧ ∃ h ∈ st.held, h.1 = .body
  | .key n false, st => st.inKey = true ∧ st.keyLines = n ∧ st.held = []
  | .key n true, st => st.inKey = false ∧ st.held.length = n ∧ ∀ h ∈ st.held, h.1 = .body

variable (redactSecrets) in
/-- A line is fed, after which the mode is `m'`. -/
def Fed (m' : Mode) (st : LogStreamRedactor Role) (line : Role × Chars)
    (fed : LogStreamRedactor Role × List (Role × Chars)) : Prop :=
  Rel m' fed.1 ∧ Sends redactSecrets st.held fed.1.held line fed.2

theorem feedLine_outside {ι : Type} {st : LogStreamRedactor ι} (h : st.inKey = false)
    (line : ι × Chars) :
    feedLine redactSecrets st line = feedOutside redactSecrets st line :=
  if_neg (by rw [h]; exact Bool.false_ne_true)

theorem settle_marked {m : Marker} {found : Chars × Chars} (h : search m line.2 = some found) :
    settle redactSecrets st line =
      ({ st with held := [] },
        flush redactSecrets st.held ++ [(line.1, redactSecrets line.2)]) :=
  settle_send redactSecrets (couldBeBody_of_search h)

theorem text_ne_body : Role.text ≠ .body := by decide

theorem body_ne_text : Role.body ≠ .text := by decide

theorem closing_ne_body : Role.closing ≠ .body := by decide

theorem closing_ne_text : Role.closing ≠ .text := by decide

theorem opening_ne_body : Role.opening ≠ .body := by decide

theorem opening_ne_text : Role.opening ≠ .text := by decide

theorem settles_of_not_opens {l : Chars} (hopens : opens l = false)
    (hstop : search .start l = none → search .stop l = none) : Settles l := by
  rcases outside_cases l with ⟨_, _, hstart, hafter⟩ | ⟨_, _, hstart, hfound⟩ | hsettles
  · rw [opens_of_search hstart hafter] at hopens
    cases hopens
  · rw [hstop hstart] at hfound
    cases hfound
  · exact hsettles

theorem step_settle {words : Bool} {role : Role} {l : Chars} (h : Rel (.text n words) st)
    (hsettles : Settles l) (hbody : role ≠ .body) :
    Fed redactSecrets
      (if holds n l then .text (n + 1) (words || decide (role = .text)) else .text 0 false) st
      (role, l) (feedOutside redactSecrets st (role, l)) := by
  obtain ⟨hkey, hheld, hnone⟩ := h
  rw [feedOutside_settle redactSecrets hsettles]
  refine ⟨?_, sends_settle hnone hbody⟩
  have hcould : couldBeBody st.held l = holds n l := by rw [couldBeBody_eq, hheld.1]
  cases hholds : holds n l with
  | false =>
    rw [hholds] at hcould
    rw [@settle_send _ redactSecrets st (role, l) hcould]
    exact ⟨hkey, holding_nil, nofun⟩
  | true =>
    rw [hholds] at hcould
    rw [@settle_hold _ redactSecrets st (role, l) hcould]
    exact ⟨hkey, hheld.append role l,
      List.forall_mem_append.mpr ⟨hnone, List.forall_mem_singleton.mpr hbody⟩⟩

theorem step_opens {role : Role} {l : Chars} (hkey : st.inKey = false)
    (hnone : ∀ h ∈ st.held, h.1 ≠ .body) (hopens : opens l = true) (hbody : role ≠ .body)
    (htext : role ≠ .text) :
    Fed redactSecrets (.key 0 (behind l)) st (role, l)
      (feedOutside redactSecrets st (role, l)) := by
  cases hstart : search .start l with
  | none =>
    rw [not_opens_of_search hstart] at hopens
    cases hopens
  | some found =>
    obtain ⟨before, after⟩ := found
    cases hafter : search .stop after with
    | none =>
      have hbehind : behind l = false := by
        rw [behind, hstart]
        dsimp only
        rw [hafter]
        rfl
      rw [feedOutside_open redactSecrets hstart hafter, hbehind]
      exact ⟨⟨rfl, rfl, rfl⟩, sends_marker hnone hbody htext⟩
    | some found =>
      have hbehind : behind l = true := by
        rw [behind, hstart]
        dsimp only
        rw [hafter]
        rfl
      have hsettles : Settles l := .inl ⟨before, after, hstart, by
        rw [hafter]
        exact Option.some_ne_none _⟩
      rw [feedOutside_settle redactSecrets hsettles, settle_marked hstart, hbehind]
      exact ⟨⟨hkey, rfl, nofun⟩, sends_marker hnone hbody htext⟩

theorem step_closes {l : Chars} (hkey : st.inKey = false)
    (hnone : search .start l ≠ none → ∀ h ∈ st.held, h.1 ≠ .body)
    (htexts : search .start l = none → texts redactSecrets st.held = []) (hopens : opens l = false)
    (hstop : search .stop l ≠ none) :
    Fed redactSecrets (.text 0 false) st (.closing, l)
      (feedOutside redactSecrets st (.closing, l)) := by
  obtain ⟨found, hfound⟩ := Option.ne_none_iff_exists'.mp hstop
  cases hstart : search .start l with
  | none =>
    rw [feedOutside_close redactSecrets hstart hfound]
    exact ⟨⟨hkey, holding_nil, nofun⟩,
      sends_drop (htexts hstart) closing_ne_body closing_ne_text⟩
  | some _ =>
    have hsome : search .start l ≠ none := by
      rw [hstart]
      exact Option.some_ne_none _
    rw [feedOutside_settle redactSecrets (settles_of_not_opens hopens fun h => absurd h hsome),
      settle_marked hfound]
    exact ⟨⟨hkey, holding_nil, nofun⟩,
      sends_marker (hnone hsome) closing_ne_body closing_ne_text⟩

theorem search_of_strayStop {l : Chars} (h : strayStop l = true) : search .stop l ≠ none := by
  intro hstop
  rw [strayStop, hstop] at h
  cases h

theorem step_hold {l : Chars} (hholds : holds st.held.length l = true) :
    feedOutside redactSecrets st (.body, l) = ({ st with held := st.held ++ [(.body, l)] }, []) ∧
      Sends redactSecrets st.held (st.held ++ [(.body, l)]) (.body, l) [] := by
  have hword := isWord_of_holds hholds
  have hsettles : Settles l :=
    .inr ⟨search_of_isWord hword .start, search_of_isWord hword .stop⟩
  constructor
  · rw [feedOutside_settle redactSecrets hsettles]
    exact settle_hold redactSecrets (couldBeBody_eq.trans hholds)
  · refine sends_nothing ?_ body_ne_text
    rw [texts_append, texts_of_role redactSecrets body_ne_text, List.append_nil]

theorem not_opens_suffix {s t : Chars} (h : opens s = false) (hsuffix : t <:+ s) :
    opens t = false := by
  induction s with
  | nil =>
    rw [List.suffix_nil.mp hsuffix]
    exact h
  | cons c s ih =>
    rcases List.suffix_cons_iff.mp hsuffix with rfl | hsuffix
    · exact h
    · rw [opens, Bool.or_eq_false_iff] at h
      exact ih h.2 hsuffix

theorem step_behind {rest : Chars} (hkey : st.inKey = false) (hheld : st.held = []) :
    Fed redactSecrets
      (if opens rest then .key 0 (behind rest) else .text (if isBare rest then 1 else 0) false) st
      (.closing, rest) (feedOutside redactSecrets st (.closing, rest)) := by
  have hnone : ∀ h ∈ st.held, h.1 ≠ .body := by
    rw [hheld]
    exact nofun
  cases hopens : opens rest with
  | true => exact step_opens hkey hnone hopens closing_ne_body closing_ne_text
  | false =>
    by_cases hstop : search .stop rest = none
    · have hrel : Rel (.text 0 false) st := ⟨hkey, hheld ▸ holding_nil, hnone⟩
      have hfed := @step_settle redactSecrets st 0 false .closing rest hrel
        (settles_of_not_opens hopens fun _ => hstop) closing_ne_body
      cases hbare : isBare rest with
      | true =>
        rw [if_pos (show holds 0 rest = true from hbare)] at hfed
        exact hfed
      | false =>
        rw [if_neg (by rw [show holds 0 rest = false from hbare]; exact Bool.false_ne_true)] at hfed
        exact hfed
    · have hbare : isBare rest = false := by
        cases hbare : isBare rest with
        | false => rfl
        | true => exact absurd (search_of_isWord (isWord_of_isBare hbare) .stop) hstop
      rw [hbare]
      refine step_closes hkey (fun _ => hnone) (fun _ => ?_) hopens hstop
      rw [hheld]
      rfl

theorem step_rest {l before rest : Chars} (hkey : st.inKey = true) (hheld : st.held = [])
    (hstop : search .stop l = some (before, rest)) :
    Fed redactSecrets
      (if opens rest then .key 0 (behind rest) else .text (if isBare rest then 1 else 0) false) st
      (.closing, l) (feedLine redactSecrets st (.closing, l)) := by
  have hrun : feedLine redactSecrets st (.closing, l) =
      if Text.stripChars rest = [] then (⟨false, st.keyLines + 1, st.held⟩, [])
      else feedOutside redactSecrets ⟨false, st.keyLines + 1, st.held⟩ (.closing, rest) := by
    rw [feedLine, if_pos hkey]
    dsimp only
    rw [hstop]
  rw [hrun]
  by_cases hblank : Text.stripChars rest = []
  · have hbare : isBare rest = false := by
      rw [isBare, hblank]
      decide
    have hsearch : search .start rest = none := by
      cases hstart : search .start rest with
      | none => rfl
      | some found =>
        have hdash := dash_stripChars (dash_of_search hstart)
        rw [hblank] at hdash
        cases hdash
    rw [if_pos hblank, not_opens_of_search hsearch, hbare, hheld]
    exact ⟨⟨rfl, holding_nil, nofun⟩, sends_nothing (congrArg _ hheld.symm) closing_ne_text⟩
  · rw [if_neg hblank]
    obtain ⟨hrel, hsends⟩ :=
      @step_behind redactSecrets ⟨false, st.keyLines + 1, st.held⟩ rest rfl hheld
    refine ⟨hrel, hsends.1, ?_⟩
    have htexts := hsends.2
    rw [texts_of_role redactSecrets closing_ne_text] at htexts ⊢
    exact htexts

end SpatiumDdi.SupportBundle
