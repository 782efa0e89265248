import SpatiumDdi.Lib.Keyset
import SpatiumDdi.Audit.Chain

/-!
What the verifier sees of any table, tampered with as it may be.

The walk reads pages past the last `seq` and carries the last hash over. Whatever the page size, that is
one walk over the rows past the start, so a walk behind a checkpoint or over the newest rows reports what
the full walk reports of those rows. The walk from the start begins past 0 and not before the first row:
rows at or below 0, which the column takes, are not read.
-/

namespace SpatiumDdi.Audit

open Keyset

variable {J : Type} (sha : String → String) (dumps : AuditPayload J → String)

/-- Every row against the hash of the row before it and against its own content. -/
def walkBreaks : Option String → List (AuditLog J) → List ChainBreak
  | _, [] => []
  | expected, row :: rest =>
    rowBreaks sha dumps expected row ++ walkBreaks (some row.rowHash) rest

/-- The breaks of all rows in the order of their `seq`. -/
def referenceBreaks (rows : List (AuditLog J)) : List ChainBreak :=
  walkBreaks sha dumps none (sorted AuditLog.seq rows)

def checkpointStillValid (rows : List (AuditLog J)) (seq : Int) (rowHash : String) : Bool :=
  (rows.find? fun r => r.seq == seq).map (fun r => r.rowHash) == some rowHash

def newestRows (rows : List (AuditLog J)) (maxRows : Nat) : List (AuditLog J) :=
  ((sorted AuditLog.seq rows).reverse.take maxRows).reverse

/-- The verifier sees the whole log, from the start, behind any checkpoint that still stands and over the
newest rows, whatever the page sizes. -/
structure SeesWholeLog (rows : List (AuditLog J)) : Prop where
  full : ∀ chunkSize, ∃ full, verifyChain sha dumps rows none none chunkSize false = some full ∧
    full.breaks = referenceBreaks sha dumps rows
  resumed : ∀ chunkSize chunkSize' seq rowHash, checkpointStillValid rows seq rowHash = true →
    ∃ full rest, verifyChain sha dumps rows none none chunkSize false = some full ∧
      verifyChain sha dumps rows none (some (seq, rowHash)) chunkSize' false = some rest ∧
      full.breaks.filter (fun b => b.seq ≤ seq) ++ rest.breaks = full.breaks
  newest : ∀ chunkSize chunkSize' maxRows, 0 < maxRows →
    ∃ full window, verifyChain sha dumps rows none none chunkSize false = some full ∧
      verifyChain sha dumps rows (some maxRows) none chunkSize' true = some window ∧
      window.breaks =
        full.breaks.filter fun b => b.seq ∈ (newestRows rows maxRows).map AuditLog.seq

variable {sha : String → String} {dumps : AuditPayload J → String} {rows xs : List (AuditLog J)}
  {expected : Option String} {row r : AuditLog J} {b : ChainBreak}

theorem seq_of_mem_rowBreaks (hb : b ∈ rowBreaks sha dumps expected row) : b.seq = row.seq := by
  rcases List.mem_append.mp hb with hb | hb
  · split at hb
    · rw [List.mem_singleton.mp hb]
      rfl
    · cases hb
  · split at hb
    · rw [List.mem_singleton.mp hb]
      rfl
    · cases hb

theorem exists_of_mem_walkBreaks (hb : b ∈ walkBreaks sha dumps expected xs) :
    ∃ row ∈ xs, b.seq = row.seq := by
  induction xs generalizing expected with
  | nil => cases hb
  | cons row rest ih =>
    rcases List.mem_append.mp hb with hb | hb
    · exact ⟨row, List.mem_cons_self, seq_of_mem_rowBreaks hb⟩
    · obtain ⟨r, hr, hseq⟩ := ih hb
      exact ⟨r, List.mem_cons_of_mem _ hr, hseq⟩

theorem walkBreaks_append (expected : Option String) (xs ys : List (AuditLog J)) :
    walkBreaks sha dumps expected (xs ++ ys) = walkBreaks sha dumps expected xs ++
      walkBreaks sha dumps ((chain sha dumps).tip expected (xs.map AuditLog.toHashedRow)) ys := by
  induction xs generalizing expected with
  | nil => rfl
  | cons row rest ih =>
    rw [List.cons_append, walkBreaks, walkBreaks, ih, List.append_assoc, List.map_cons,
      HashChain.tip_cons]
    rfl

theorem filter_walkBreaks {ys : List (AuditLog J)} {p : ChainBreak → Bool}
    (hxs : ∀ b : ChainBreak, ∀ r ∈ xs, b.seq = r.seq → p b = false)
    (hys : ∀ b : ChainBreak, ∀ r ∈ ys, b.seq = r.seq → p b = true) :
    (walkBreaks sha dumps expected (xs ++ ys)).filter p =
      walkBreaks sha dumps ((chain sha dumps).tip expected (xs.map AuditLog.toHashedRow)) ys := by
  rw [walkBreaks_append, List.filter_append, List.filter_eq_nil_iff.mpr, List.filter_eq_self.mpr,
    List.nil_append]
  · intro b hb
    obtain ⟨r, hr, hseq⟩ := exists_of_mem_walkBreaks hb
    exact hys b r hr hseq
  · intro b hb
    obtain ⟨r, hr, hseq⟩ := exists_of_mem_walkBreaks hb
    rw [hxs b r hr hseq]
    exact Bool.false_ne_true

theorem selectPage_eq (last : Int) (limit : Nat) :
    selectPage rows last limit = (after AuditLog.seq rows last).take limit := rfl

variable (sha dumps)

theorem foldl_row_breaks (page : List (AuditLog J)) (w : Walk) :
    (page.foldl (Walk.row sha dumps) w).breaks =
        w.breaks ++ walkBreaks sha dumps w.expectedPrev page ∧
      (page.foldl (Walk.row sha dumps) w).expectedPrev =
        (chain sha dumps).tip w.expectedPrev (page.map AuditLog.toHashedRow) ∧
      (page.foldl (Walk.row sha dumps) w).lastSeq = w.lastSeq := by
  induction page generalizing w with
  | nil => exact ⟨(List.append_nil _).symm, rfl, rfl⟩
  | cons row rest ih =>
    obtain ⟨hbreaks, htip, hlast⟩ := ih (Walk.row sha dumps w row)
    refine ⟨?_, ?_, hlast⟩
    · rw [List.foldl_cons, hbreaks]
      exact List.append_assoc ..
    · rw [List.foldl_cons, htip, List.map_cons, HashChain.tip_cons]
      rfl

theorem page_breaks (page : List (AuditLog J)) (w : Walk) :
    (w.page sha dumps page).breaks = w.breaks ++ walkBreaks sha dumps w.expectedPrev page ∧
      (w.page sha dumps page).expectedPrev =
        (chain sha dumps).tip w.expectedPrev (page.map AuditLog.toHashedRow) := by
  obtain ⟨hbreaks, htip, -⟩ := foldl_row_breaks sha dumps page w
  unfold Walk.page
  split
  · exact ⟨hbreaks, htip⟩
  · exact ⟨hbreaks, htip⟩

theorem page_lastSeq {page : List (AuditLog J)} (hr : page.getLast? = some r) (w : Walk) :
    (w.page sha dumps page).lastSeq = r.seq := by
  unfold Walk.page
  rw [hr]

theorem walk_breaks (hseq : Distinct AuditLog.seq rows) {chunkSize : Nat} (hchunk : 0 < chunkSize)
    {fuel : Nat} {w : Walk} (hfuel : (after AuditLog.seq rows w.lastSeq).length < fuel) :
    ∃ w', walk sha dumps rows chunkSize none fuel w = some (w', true) ∧
      w'.breaks = w.breaks ++
        walkBreaks sha dumps w.expectedPrev (after AuditLog.seq rows w.lastSeq) := by
  induction fuel generalizing w with
  | zero => omega
  | succ fuel ih =>
    have hcut := List.take_append_drop chunkSize (after AuditLog.seq rows w.lastSeq)
    generalize hpage : (after AuditLog.seq rows w.lastSeq).take chunkSize = page at hcut
    obtain ⟨hbreaks, htip⟩ := page_breaks sha dumps page w
    have hstep : walk sha dumps rows chunkSize none (fuel + 1) w =
        if page.length < chunkSize then some (w.page sha dumps page, true)
        else walk sha dumps rows chunkSize none fuel (w.page sha dumps page) := by
      simp only [walk, selectPage_eq, if_neg hchunk.ne', hpage]
    have hlen := congrArg List.length hpage
    rw [List.length_take] at hlen
    by_cases hshort : page.length < chunkSize
    · -- a short page is the last one
      refine ⟨_, hstep.trans (if_pos hshort), ?_⟩
      rw [hbreaks, ← hpage, List.take_of_length_le (by omega)]
    · obtain ⟨r, hr⟩ : ∃ r, page.getLast? = some r := by
        refine Option.isSome_iff_exists.mp (List.getLast?_isSome.mpr fun hnil => ?_)
        rw [hnil, List.length_nil] at hshort
        exact hshort hchunk
      have hlast := page_lastSeq sha dumps hr w
      have hrest := after_page hseq (hpage ▸ hr)
      obtain ⟨w', hwalk, hw'⟩ := ih (w := w.page sha dumps page) (by
        rw [hlast, hrest, List.length_drop]
        omega)
      refine ⟨w', (hstep.trans (if_neg hshort)).trans hwalk, ?_⟩
      rw [hw', hbreaks, htip, hlast, hrest, List.append_assoc, ← walkBreaks_append, hcut]

theorem length_after_le (rows : List (AuditLog J)) (last : Int) : (after AuditLog.seq rows last).length ≤ rows.length := by
  rw [after, (perm_sorted _).length_eq]
  exact List.length_filter_le _ _

theorem verifyChain_breaks (hseq : Distinct AuditLog.seq rows) (startAfter : Option (Int × String))
    (chunkSize : Nat) :
    ∃ result, verifyChain sha dumps rows none startAfter chunkSize false = some result ∧
      result.breaks = walkBreaks sha dumps (startAfter.map Prod.snd)
        (after AuditLog.seq rows ((startAfter.map Prod.fst).getD 0)) := by
  have hfuel : (after AuditLog.seq rows (startWalk startAfter).lastSeq).length <
      rows.length + 2 := by
    have hle := length_after_le rows (startWalk startAfter).lastSeq
    omega
  have hchunk : 0 < max 1 chunkSize := by omega
  obtain ⟨w, hwalk, hbreaks⟩ := walk_breaks sha dumps hseq hchunk hfuel
  refine ⟨verifyResult rows false w true, ?_, ?_⟩
  · simp only [verifyChain, Bool.false_and, Bool.false_eq_true, if_false, Option.or_none]
    rw [hwalk]
    rfl
  · exact hbreaks

theorem verifyChain_newest (hseq : Distinct AuditLog.seq rows) (maxRows chunkSize : Nat) :
    ∃ result, verifyChain sha dumps rows (some maxRows) none chunkSize true = some result ∧
      result.breaks = walkBreaks sha dumps ((windowAnchor rows maxRows).map Prod.snd)
        (after AuditLog.seq rows (((windowAnchor rows maxRows).map Prod.fst).getD 0)) := by
  have hfuel : (after AuditLog.seq rows (startWalk (windowAnchor rows maxRows)).lastSeq).length <
      rows.length + 2 := by
    have hle := length_after_le rows (startWalk (windowAnchor rows maxRows)).lastSeq
    omega
  have hchunk : 0 < max 1 chunkSize := by omega
  obtain ⟨w, hwalk, hbreaks⟩ := walk_breaks sha dumps hseq hchunk hfuel
  refine ⟨verifyResult rows (windowAnchor rows maxRows).isSome w true, ?_, hbreaks⟩
  simp only [verifyChain, Option.isNone_none, Bool.and_self, if_true, Option.none_or]
  rw [hwalk]
  rfl

variable {sha dumps} {maxRows : Nat}

section

variable (hseq : Distinct AuditLog.seq rows)
include hseq

theorem checkpointStillValid_iff {seq : Int} {rowHash : String} :
    checkpointStillValid rows seq rowHash = true ↔ ∃ r ∈ rows, r.seq = seq ∧ r.rowHash = rowHash := by
  simp only [checkpointStillValid, beq_iff_eq, Option.map_eq_some_iff]
  constructor
  · rintro ⟨r, hfind, hhash⟩
    exact ⟨r, List.mem_of_find?_eq_some hfind, by simpa using List.find?_some hfind, hhash⟩
  · rintro ⟨r, hr, rfl, rfl⟩
    obtain ⟨found, hfind⟩ : ∃ found, rows.find? (fun q => q.seq == r.seq) = some found :=
      Option.isSome_iff_exists.mp (List.find?_isSome.mpr ⟨r, hr, by simp⟩)
    have hkey : found.seq = r.seq := by simpa using List.find?_some hfind
    have hsame : found = r :=
      List.inj_on_of_nodup_map hseq (List.mem_of_find?_eq_some hfind) hr hkey
    exact ⟨r, hsame ▸ hfind, rfl⟩

theorem walkBreaks_split_at (hr : r ∈ rows) :
    (referenceBreaks sha dumps rows).filter (fun b => b.seq ≤ r.seq) ++
        walkBreaks sha dumps (some r.rowHash) (after AuditLog.seq rows r.seq) =
      referenceBreaks sha dumps rows := by
  obtain ⟨xs, hsplit, hxs⟩ := exists_split_at hseq hr
  have hcut : sorted AuditLog.seq rows = (xs ++ [r]) ++ after AuditLog.seq rows r.seq := by
    rw [hsplit, List.append_assoc]
    rfl
  have htip : (chain sha dumps).tip none ((xs ++ [r]).map AuditLog.toHashedRow) = some r.rowHash := by
    rw [List.map_append, HashChain.tip_append]
    rfl
  rw [referenceBreaks, hcut, walkBreaks_append, htip, List.filter_append, List.filter_eq_self.mpr,
    List.filter_eq_nil_iff.mpr, List.append_nil]
  · intro b hb
    obtain ⟨q, hq, hbq⟩ := exists_of_mem_walkBreaks hb
    have hlt := (mem_after.mp hq).2
    simp only [decide_eq_true_eq]
    omega
  · intro b hb
    obtain ⟨q, hq, hbq⟩ := exists_of_mem_walkBreaks hb
    have hle : q.seq ≤ r.seq := by
      rcases List.mem_append.mp hq with hq | hq
      · exact (hxs q hq).le
      · rw [List.mem_singleton.mp hq]
    simp only [decide_eq_true_eq]
    omega

theorem windowAnchor_eq (hmax : 0 < maxRows) :
    ∃ xs, sorted AuditLog.seq rows = xs ++ newestRows rows maxRows ∧
      windowAnchor rows maxRows = xs.getLast?.map fun r => (r.seq, r.rowHash) := by
  have hsorted := List.pairwise_reverse.mpr (pairwise_sorted hseq)
  have hcut := List.take_append_drop maxRows (sorted AuditLog.seq rows).reverse
  refine ⟨((sorted AuditLog.seq rows).reverse.drop maxRows).reverse, ?_, ?_⟩
  · rw [newestRows, ← List.reverse_append, hcut, List.reverse_reverse]
  rw [windowAnchor, insertionSort_desc hseq, List.getLast?_reverse]
  generalize (sorted AuditLog.seq rows).reverse = newest at hsorted hcut
  cases hfirst : newest[maxRows - 1]? with
  | none =>
    have hlen := List.getElem?_eq_none_iff.mp hfirst
    rw [List.drop_eq_nil_of_le (by omega)]
    rfl
  | some first =>
    obtain ⟨hlt, hget⟩ := List.getElem?_eq_some_iff.mp hfirst
    have htake : newest.take maxRows = newest.take (maxRows - 1) ++ [first] := by
      have hsucc : maxRows = (maxRows - 1) + 1 := by omega
      rw [hsucc, List.take_add_one, Nat.add_sub_cancel, hfirst]
      rfl
    rw [← hcut, htake, List.append_assoc] at hsorted
    obtain ⟨-, htail, hbefore⟩ := List.pairwise_append.mp hsorted
    have hpast : newest.filter (fun r => r.seq < first.seq) = newest.drop maxRows := by
      have hpage : ∀ r ∈ newest.take maxRows, ¬ r.seq < first.seq := by
        intro r hr
        rw [htake] at hr
        rcases List.mem_append.mp hr with hr | hr
        · exact (hbefore r hr first List.mem_cons_self).not_gt
        · rw [List.mem_singleton.mp hr]
          exact lt_irrefl _
      have hrest : ∀ r ∈ newest.drop maxRows, r.seq < first.seq := (List.pairwise_cons.mp htail).1
      conv_lhs => rw [← hcut]
      rw [List.filter_append, List.filter_eq_nil_iff.mpr fun r hr => by simpa using hpage r hr,
        List.filter_eq_self.mpr fun r hr => by simpa using hrest r hr, List.nil_append]
    rw [Option.bind_some, hpast]

end

theorem rowBreaks_eq_nil_iff :
    rowBreaks sha dumps expected row = [] ↔ row.prevHash = expected ∧
      hashRow sha row.prevHash (dumps row.payload) = row.rowHash := by
  rw [rowBreaks, List.append_eq_nil_iff]
  simp only [ite_eq_right_iff, List.cons_ne_nil, imp_false, not_not]

theorem walkBreaks_eq_nil_iff :
    walkBreaks sha dumps expected xs = [] ↔
      (chain sha dumps).Linked expected (xs.map AuditLog.toHashedRow) := by
  induction xs generalizing expected with
  | nil => exact iff_of_true rfl trivial
  | cons row rest ih =>
    rw [walkBreaks, List.append_eq_nil_iff, rowBreaks_eq_nil_iff, ih, and_assoc]
    rfl

theorem eq_empty_of_rowBreaks_eq {hash : String}
    (h : rowBreaks sha dumps (some hash) row = rowBreaks sha dumps none row) : hash = "" := by
  have hprev := List.append_cancel_right h
  by_cases hsome : row.prevHash = some hash
  · simp [hsome] at hprev
  · by_cases hnone : row.prevHash = none
    · simp [hnone] at hprev
    · simpa [hsome, hnone, rowBreak] using hprev

/-- A table is read whole if its rows are past 0; one that lies wholly at or below 0 is not read at all,
which only goes unnoticed if nothing was done to it. -/
def ReadWhole (sha : String → String) (dumps : AuditPayload J → String)
    (rows : List (AuditLog J)) : Prop :=
  (∀ r ∈ rows, 0 < r.seq) ∨
    ((∀ r ∈ rows, r.seq ≤ 0) ∧
      (chain sha dumps).Linked none ((sorted AuditLog.seq rows).map AuditLog.toHashedRow))

theorem after_zero_of_pos (hseq : Distinct AuditLog.seq rows) (hpos : ∀ r ∈ rows, 0 < r.seq) :
    after AuditLog.seq rows 0 = sorted AuditLog.seq rows :=
  after_of_split hseq (List.nil_append _).symm (by simp) fun r hr => hpos r (mem_sorted.mp hr)

theorem after_zero_of_nonpos (hneg : ∀ r ∈ rows, r.seq ≤ 0) : after AuditLog.seq rows 0 = [] := by
  rw [List.eq_nil_iff_forall_not_mem]
  intro r hr
  obtain ⟨hmem, hpos⟩ := mem_after.mp hr
  exact absurd hpos (hneg r hmem).not_gt

theorem ReadWhole.walkBreaks_eq (h : ReadWhole sha dumps rows) (hseq : Distinct AuditLog.seq rows) :
    walkBreaks sha dumps none (after AuditLog.seq rows 0) = referenceBreaks sha dumps rows := by
  rcases h with hpos | ⟨hneg, hlinked⟩
  · rw [after_zero_of_pos hseq hpos]
    rfl
  · rw [after_zero_of_nonpos hneg, referenceBreaks, walkBreaks_eq_nil_iff.mpr hlinked]
    rfl

theorem ReadWhole.of_walkBreaks_eq (hsha : ∀ text, sha text ≠ "") (hseq : Distinct AuditLog.seq rows)
    (h : walkBreaks sha dumps none (after AuditLog.seq rows 0) = referenceBreaks sha dumps rows) :
    ReadWhole sha dumps rows := by
  obtain ⟨xs, hsplit, hxs⟩ := exists_split hseq (0 : Int)
  generalize hys : after AuditLog.seq rows 0 = ys at hsplit h
  have hpast : ∀ r ∈ ys, 0 < r.seq := fun r hr => (mem_after.mp (hys ▸ hr)).2
  rw [referenceBreaks, hsplit, walkBreaks_append] at h
  -- the breaks at or below 0 are not reported, so there are none
  have hclean : walkBreaks sha dumps none xs = [] := by
    rw [List.eq_nil_iff_forall_not_mem]
    intro b hb
    obtain ⟨r, hr, hbr⟩ := exists_of_mem_walkBreaks (h ▸ List.mem_append_left _ hb)
    obtain ⟨q, hq, hbq⟩ := exists_of_mem_walkBreaks hb
    have hr' := hpast r hr
    have hq' := hxs q hq
    omega
  rw [hclean, List.nil_append] at h
  rcases List.eq_nil_or_concat' xs with rfl | ⟨init, last, rfl⟩
  · left
    intro r hr
    have hsorted : r ∈ sorted AuditLog.seq rows := mem_sorted.mpr hr
    exact hpast r (by simpa [hsplit] using hsorted)
  · right
    have hlinked := walkBreaks_eq_nil_iff.mp hclean
    cases ys with
    | nil =>
      rw [List.append_nil] at hsplit
      refine ⟨fun r hr => hxs r ?_, hsplit ▸ hlinked⟩
      rw [← hsplit]
      exact mem_sorted.mpr hr
    | cons y rest =>
      -- the first row past 0 would have to chain from nothing and from the last row below
      exfalso
      have htip : (chain sha dumps).tip none ((init ++ [last]).map AuditLog.toHashedRow) =
          some last.rowHash := by
        rw [List.map_append, HashChain.tip_append]
        rfl
      rw [htip, walkBreaks, walkBreaks] at h
      have hempty := eq_empty_of_rowBreaks_eq (List.append_cancel_right h).symm
      rw [List.map_append, HashChain.linked_append] at hlinked
      obtain ⟨-, -, hown, -⟩ := hlinked
      exact hsha _ (hown.trans hempty)

theorem ReadWhole.window_breaks (h : ReadWhole sha dumps rows) (hseq : Distinct AuditLog.seq rows)
    (hmax : 0 < maxRows) :
    walkBreaks sha dumps ((windowAnchor rows maxRows).map Prod.snd)
        (after AuditLog.seq rows (((windowAnchor rows maxRows).map Prod.fst).getD 0)) =
      (referenceBreaks sha dumps rows).filter fun b =>
        b.seq ∈ (newestRows rows maxRows).map AuditLog.seq := by
  obtain ⟨xs, hsplit, hanchor⟩ := windowAnchor_eq hseq hmax
  have hsorted := pairwise_sorted hseq
  rw [hsplit] at hsorted
  obtain ⟨hbefore, -, hcross⟩ := List.pairwise_append.mp hsorted
  have hwindow : (referenceBreaks sha dumps rows).filter
        (fun b => b.seq ∈ (newestRows rows maxRows).map AuditLog.seq) =
      walkBreaks sha dumps ((chain sha dumps).tip none (xs.map AuditLog.toHashedRow))
        (newestRows rows maxRows) := by
    rw [referenceBreaks, hsplit]
    refine filter_walkBreaks ?_ ?_
    · intro b r hr hbr
      refine decide_eq_false fun hmem => ?_
      obtain ⟨q, hq, hqb⟩ := List.mem_map.mp hmem
      have hlt := hcross r hr q hq
      omega
    · intro b r hr hbr
      exact decide_eq_true (hbr ▸ List.mem_map_of_mem hr)
  rw [hwindow, hanchor]
  rcases List.eq_nil_or_concat' xs with rfl | ⟨init, last, rfl⟩
  · have hread := h.walkBreaks_eq hseq
    rw [referenceBreaks, hsplit] at hread
    exact hread
  · have hpast : after AuditLog.seq rows last.seq = newestRows rows maxRows := by
      refine after_of_split hseq hsplit ?_ fun r hr => hcross last (by simp) r hr
      intro r hr
      rcases List.mem_append.mp hr with hr | hr
      · exact ((List.pairwise_append.mp hbefore).2.2 r hr last List.mem_cons_self).le
      · rw [List.mem_singleton.mp hr]
    rw [List.getLast?_concat, List.map_append, HashChain.tip_append]
    change walkBreaks sha dumps (some last.rowHash) (after AuditLog.seq rows last.seq) = _
    rw [hpast]
    rfl

/-- Whatever was written into the table, the verifier sees the whole log just where every row has a
positive `seq`, or none has and the rows are an unbroken chain. -/
theorem seesWholeLog_iff (hsha : ∀ text, sha text ≠ "") (hseq : Distinct AuditLog.seq rows) :
    SeesWholeLog sha dumps rows ↔ ReadWhole sha dumps rows := by
  constructor
  · intro h
    obtain ⟨full, hfull, hbreaks⟩ := h.full 0
    obtain ⟨full', hfull', hbreaks'⟩ := verifyChain_breaks sha dumps hseq none 0
    obtain rfl : full = full' := Option.some.inj (hfull.symm.trans hfull')
    exact .of_walkBreaks_eq hsha hseq (hbreaks'.symm.trans hbreaks)
  · intro h
    have hread := h.walkBreaks_eq hseq
    have hfull : ∀ chunkSize, ∃ full, verifyChain sha dumps rows none none chunkSize false =
        some full ∧ full.breaks = referenceBreaks sha dumps rows := by
      intro chunkSize
      obtain ⟨full, hfull, hbreaks⟩ := verifyChain_breaks sha dumps hseq none chunkSize
      exact ⟨full, hfull, hbreaks.trans hread⟩
    refine ⟨hfull, ?_, ?_⟩
    · intro chunkSize chunkSize' seq rowHash hcheckpoint
      obtain ⟨r, hr, rfl, rfl⟩ := (checkpointStillValid_iff hseq).mp hcheckpoint
      obtain ⟨full, hfull, hbreaks⟩ := hfull chunkSize
      obtain ⟨rest, hrest, hbreaks'⟩ := verifyChain_breaks sha dumps hseq
        (some (r.seq, r.rowHash)) chunkSize'
      refine ⟨full, rest, hfull, hrest, ?_⟩
      rw [hbreaks, hbreaks']
      exact walkBreaks_split_at hseq hr
    · intro chunkSize chunkSize' maxRows hmax
      obtain ⟨full, hfull, hbreaks⟩ := hfull chunkSize
      obtain ⟨window, hwindow, hbreaks'⟩ := verifyChain_newest sha dumps hseq
        maxRows chunkSize'
      refine ⟨full, window, hfull, hwindow, ?_⟩
      rw [hbreaks, hbreaks', h.window_breaks hseq hmax]

/-- A row that a tamperer put before the first one. -/
def forgedRow : AuditLog Unit where
  payload :=
    { id := "forged", timestamp := "2026-01-01", userId := none, userDisplayName := "admin"
      authSource := "local", sourceIp := none, userAgent := none, action := "delete"
      resourceType := "zone", resourceId := "1", resourceDisplay := "example.com"
      oldValue := none, newValue := none, changedFields := none, requestId := none
      result := "success", errorDetail := none }
  prevHash := some "forged"
  rowHash := "forged"
  seq := 0

/-- The forged row chains from nothing, and no hash makes the full walk report it. -/
theorem not_seesWholeLog_forgedRow :
    Distinct AuditLog.seq [forgedRow] ∧ ¬ ∃ (sha : String → String)
      (dumps : AuditPayload Unit → String), SeesWholeLog sha dumps [forgedRow] := by
  refine ⟨by simp [Distinct], ?_⟩
  rintro ⟨sha, dumps, h⟩
  obtain ⟨full, hfull, hbreaks⟩ := h.full 0
  have hseen : verifyChain sha dumps [forgedRow] none none 0 false = some full := hfull
  have hnone : verifyChain sha dumps [forgedRow] none none 0 false =
      some (verifyResult [forgedRow] false (startWalk none) true) := rfl
  obtain rfl : full = _ := Option.some.inj (hseen.symm.trans hnone)
  have hlinked := walkBreaks_eq_nil_iff.mp hbreaks.symm
  obtain ⟨hprev, -⟩ := hlinked
  cases hprev

/-- The same row behind the first number. -/
theorem seesWholeLog_of_forgedRow_numbered :
    SeesWholeLog (fun text => "#" ++ text) (fun payload => payload.action)
      [{ forgedRow with seq := 1 }] :=
  (seesWholeLog_iff (fun text h => by simp at h) (by simp [Distinct])).mpr (.inl (by simp))

end SpatiumDdi.Audit
