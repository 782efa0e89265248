import SpatiumDdi.Agent.Spool

/-!
The spool as a queue. What the control plane took, the oldest first, and then the files are a
subsequence of the batches in the order of their `ship` calls: a batch is lost from it or moves
over. Each file that goes leaves its reason in the log before it.
-/

namespace SpatiumDdi.Agent.Spool

def acceptedOf : Event → Option Batch
  | .posted b status => if outcomeOf status = .sent then some b else none
  | .gone .. => none

/-- The batches the control plane took, the newest first. -/
def accepted (log : List Event) : List Batch := log.filterMap acceptedOf

/-- What the log ends in when a file goes for a reason. None is unusable here: a file is read
before it goes. -/
def Why (b : Batch) (log : List Event) : Reason → Prop
  | .sent => ∃ status, log.head? = some (.posted b status) ∧ outcomeOf status = .sent
  | .rejected => ∃ status, log.head? = some (.posted b status) ∧ outcomeOf status = .rejected
  | .poisoned => ∃ later, b < later ∧
      (log.head? = some (.gone later .sent) ∨ log.head? = some (.gone later .rejected))
  | .unusable => False
  | .trimmed => True
  | .expired => True

def Explained : List Event → Prop
  | [] => True
  | .posted .. :: log => Explained log
  | .gone b reason :: log => Why b log reason ∧ Explained log

/-- What the programs below read and write of a state. -/
structure View where
  files : List File
  entries : List Entry
  log : List Event
  lastSeq : Nat
  shipped : Nat

def view (s : State) : View := ⟨s.files, s.entries, s.log, s.lastSeq, s.shipped⟩

/-- What was accepted, and then what is kept. -/
def View.line (v : View) : List Batch := (accepted v.log).reverse ++ v.files.map File.batch

/-- The order of the names. -/
abbrev InOrder (files : List File) : Prop := files.Pairwise fun f g => f.seq < g.seq

/-- A directory and the index of it. -/
structure Store (total : Nat) (v : View) : Prop where
  shipped : v.shipped = total
  sorted : InOrder v.files
  entries : v.entries = v.files.map File.entry
  last : ∀ f ∈ v.files, f.seq ≤ v.lastSeq
  explained : Explained v.log

structure Queue (total n : Nat) (v : View) : Prop extends Store total v where
  line : v.line.Sublist (List.range n)

def View.gone (v : View) (f : File) (reason : Reason) : View :=
  { v with
    files := v.files.filter fun g => decide (g.seq ≠ f.seq)
    log := .gone f.batch reason :: v.log }

/-- The view once the files of a number are gone. -/
def View.unlink (v : View) (seq : Nat) (reason : Reason) : View :=
  { v with
    files := v.files.filter fun g => decide (g.seq ≠ seq)
    log := ((v.files.filter fun g => decide (g.seq = seq)).map fun g =>
      .gone g.batch reason) ++ v.log }

def View.drop (v : View) (f : File) (reason : Reason) : View :=
  { v.gone f reason with entries := v.entries.filter fun e => decide (e.seq ≠ f.seq) }

def View.posted (v : View) (b : Batch) (status : Option Nat) : View :=
  { v with log := .posted b status :: v.log }

def View.answered (v : View) (f : File) : Outcome → View
  | .sent => v.drop f .sent
  | .rejected => v.drop f .rejected
  | .retry => v

def View.push (v : View) (f : File) : View :=
  { v with files := v.files ++ [f], entries := v.entries ++ [f.entry], lastSeq := f.seq }

variable {total n : Nat} {v : View} {f g : File} {files rest : List File} {reason : Reason}
  {b : Batch} {status : Option Nat} {s : State} {α β : Type}

theorem filter_seq (h : InOrder files) (hf : f ∈ files) :
    files.filter (fun g => decide (g.seq = f.seq)) = [f] := by
  induction files with
  | nil => cases hf
  | cons g rest ih =>
    obtain ⟨hg, hrest⟩ := List.pairwise_cons.mp h
    rcases List.mem_cons.mp hf with rfl | hf
    · simpa [List.filter_eq_nil_iff] using fun x hx => (hg x hx).ne'
    · rw [List.filter_cons_of_neg (by simpa using (hg f hf).ne), ih hrest hf]

theorem filter_seq_head (h : InOrder (f :: rest)) :
    (f :: rest).filter (fun g => decide (g.seq ≠ f.seq)) = rest := by
  rw [List.filter_cons_of_neg (by simp), List.filter_eq_self]
  intro g hg
  simpa using ((List.pairwise_cons.mp h).1 g hg).ne'

namespace Store

variable (h : Store total v)
include h

theorem read (hs : view s = v) (hf : f ∈ v.files) : s.read f.seq = some f := by
  subst hs
  rw [State.read, ← List.head?_filter]
  exact congrArg List.head? (filter_seq h.sorted hf)

theorem index (hs : view s = v) : s.entries = v.files.map File.entry :=
  (congrArg View.entries hs).trans h.entries

/-- The entry at the head of the index is that of the first file. -/
theorem head (hs : view s = v) {e : Entry} {es : List Entry} (heq : s.entries = e :: es) :
    ∃ f rest, v.files = f :: rest ∧ e = f.entry ∧ es = rest.map File.entry := by
  obtain ⟨f, rest, hfiles, rfl, rfl⟩ := List.map_eq_cons_iff.mp ((h.index hs).symm.trans heq)
  exact ⟨f, rest, hfiles, rfl, rfl⟩

theorem empty (hs : view s = v) (hempty : s.entries = []) : v.files = [] :=
  List.map_eq_nil_iff.mp ((h.index hs).symm.trans hempty)

theorem behind (hfiles : v.files = f :: rest) (hs : view s = v) :
    Spool.behind f.seq s.entries = (rest.map File.entry).head? := by
  rw [h.index hs, hfiles, Spool.behind, List.map_cons,
    List.dropWhile_cons_of_neg (by simp [File.entry])]
  rfl

theorem drop (hwhy : Why f.batch v.log reason) : Store total (v.drop f reason) where
  shipped := h.shipped
  sorted := h.sorted.filter _
  entries := by
    change v.entries.filter _ = _
    rw [h.entries, List.filter_map]
    rfl
  last g hg := h.last g (List.mem_filter.mp hg).1
  explained := ⟨hwhy, h.explained⟩

theorem push (hseq : v.lastSeq < f.seq) : Store total (v.push f) where
  shipped := h.shipped
  sorted := List.pairwise_append.mpr ⟨h.sorted, List.pairwise_singleton _ _,
    fun g hg x hx => List.mem_singleton.mp hx ▸ (h.last g hg).trans_lt hseq⟩
  entries := by
    change v.entries ++ [f.entry] = (v.files ++ [f]).map File.entry
    rw [h.entries, List.map_append]
    rfl
  last := List.forall_mem_append.mpr
    ⟨fun g hg => (h.last g hg).trans hseq.le, List.forall_mem_singleton.mpr le_rfl⟩
  explained := h.explained

end Store

theorem line_drop (h : InOrder v.files) (hfiles : v.files = f :: rest) :
    (v.drop f reason).line = (accepted v.log).reverse ++ rest.map File.batch := by
  rw [View.line, View.drop, View.gone, hfiles, filter_seq_head (hfiles ▸ h)]
  rfl

theorem unlink_eq (h : InOrder v.files) (hf : f ∈ v.files) :
    v.unlink f.seq reason = v.gone f reason := by
  rw [View.unlink, filter_seq h hf]
  rfl

theorem unlink_none (h : ∀ g ∈ v.files, g.seq ≠ f.seq) : v.unlink f.seq reason = v := by
  rw [View.unlink, List.filter_eq_self.mpr (by simpa using h),
    List.filter_eq_nil_iff.mpr (by simpa using h)]
  rfl

theorem Queue.drop (h : Queue total n v) (hwhy : Why f.batch v.log reason) :
    Queue total n (v.drop f reason) where
  toStore := h.toStore.drop hwhy
  line := ((List.filter_sublist.map _).append_left _).trans h.line

/-- An accepted batch moves over, and any other that was posted is out of the line. -/
theorem accepted_posted (kept : List Batch) : ((accepted (v.posted b status).log).reverse ++
    kept).Sublist ((accepted v.log).reverse ++ b :: kept) := by
  rw [View.posted, accepted, List.filterMap_cons, acceptedOf]
  split_ifs
  · rw [List.reverse_cons, List.append_assoc]
    rfl
  · exact (List.sublist_cons_self b kept).append_left _

theorem Queue.line_posted (h : Queue total n v) {kept : List Batch}
    (hkept : (b :: kept).Sublist (v.files.map File.batch)) :
    ((accepted (v.posted b status).log).reverse ++ kept).Sublist (List.range n) :=
  (accepted_posted kept).trans ((hkept.append_left _).trans h.line)

theorem Queue.posted (h : Queue total n v) (hsent : outcomeOf status ≠ .sent) :
    Queue total n (v.posted b status) :=
  { h with
    line := by
      rw [View.line, View.posted, accepted, List.filterMap_cons, acceptedOf, if_neg hsent]
      exact h.line }

/-- What a program does to a view. -/
abbrev Does (v : View) (p : Act α) (post : α → View → Prop) : Prop := Prog.Through view v p post

/-- Every action leaves the view. -/
abbrev Idle (p : Act α) : Prop := Prog.Within (fun s t => view t = view s) p

theorem Idle.bind {p : Act α} {k : α → Act β} (hp : Idle p) (hk : ∀ a, Idle (k a)) :
    Idle (p >>= k) :=
  Prog.within_bind (fun _ _ _ h h' => h'.trans h) hp hk

theorem idle_pure (a : α) : Idle (pure a : Act α) :=
  fun _ => (Prog.wp_pure a).mpr rfl

theorem idle_modify {f : State → State} (h : ∀ s, view (f s) = view s) : Idle (Prog.modify f) :=
  Prog.within_modify h

theorem idle_ite {c : Prop} [Decidable c] {p q : Act α} (hp : Idle p) (hq : Idle q) :
    Idle (if c then p else q) := by
  split
  · exact hp
  · exact hq

theorem idle_draw (input : Nat → α) : Idle (draw input) :=
  Prog.within_get fun _ => Idle.bind (idle_modify fun _ => rfl) fun _ => idle_pure _

section Programs

variable {cfg : Config} {env : Env} {outcome : Outcome} {expired : List Batch}

theorem idle_count (move : Counters → Counters) (counted : List Batch) :
    Idle (count env move counted) :=
  Idle.bind (idle_modify fun _ => rfl) fun _ => Idle.bind (idle_draw _) fun _ =>
    idle_ite (idle_modify fun _ => rfl) (idle_pure _)

theorem idle_backOff : Idle (backOff cfg env outcome) :=
  idle_ite (Idle.bind (idle_draw _) fun _ => idle_modify fun _ => rfl) (idle_pure _)

theorem idle_poisonDue (seq : Nat) : Idle (poisonDue env seq) :=
  Idle.bind (idle_draw _) fun _ => Prog.within_get fun _ =>
    Idle.bind (idle_modify fun _ => rfl) fun _ => idle_pure _

theorem idle_backingOff : Idle (backingOff cfg env) :=
  idle_ite (Idle.bind (idle_draw _) fun _ => Prog.within_get fun _ => idle_pure _) (idle_pure _)

theorem does_unlink (h : InOrder v.files) (hf : f ∈ v.files) :
    Does v (unlink f.seq reason) fun _ w => w = v.gone f reason :=
  .modify (fun _ hs => unlink_eq h hf ▸ hs ▸ rfl) rfl

theorem does_remove (h : Store total v) (hf : f ∈ v.files) :
    Does v (remove f.seq reason) fun _ w => w = v.drop f reason :=
  .step { v with entries := v.entries.filter fun e => decide (e.seq ≠ f.seq) }
    (fun _ hs => hs ▸ rfl) (does_unlink h.sorted hf)

theorem does_evict (h : Store total v) (hf : f ∈ v.files) :
    Does v (evict env f.seq) fun _ w => w = v.drop f .poisoned := by
  refine .skip (idle_draw _) fun moved => .ite (fun _ => ?_) fun _ => does_remove h hf
  refine .step (v.gone f .poisoned) (fun _ hs => unlink_eq h.sorted hf ▸ hs ▸ rfl) ?_
  refine .step (v.drop f .poisoned) (fun _ hs => ?_) (.modify (fun _ hs => ?_) rfl)
  · exact congrArg (fun w : View =>
      { w with entries := w.entries.filter fun e => decide (e.seq ≠ f.seq) }) hs
  -- the file is at its new place, so its removal finds none
  · refine (congrArg (fun w : View => w.unlink f.seq .poisoned) hs).trans (unlink_none ?_)
    exact fun g hg => of_decide_eq_true (List.mem_filter.mp hg).2

theorem does_trim (cap rounds : Nat) (h : Queue total n v) :
    Does v (trim cap rounds) fun _ w => Queue total n w := by
  induction rounds generalizing v with
  | zero => exact .pure h
  | succ rounds ih =>
    refine .get fun s hs => ?_
    split
    next e next rest heq =>
      obtain ⟨f, files, hfiles, rfl, hrest⟩ := h.head hs heq
      have hdrop : Queue total n (v.drop f .trimmed) := h.drop trivial
      have hindex : (v.drop f .trimmed).entries = next :: rest := by
        rw [hdrop.entries, View.drop, View.gone, hfiles, filter_seq_head (hfiles ▸ h.sorted), hrest]
      refine .ite (fun _ => ?_) fun _ => .pure h
      refine .skip (idle_modify fun _ => rfl) fun _ => ?_
      refine .step { v with entries := next :: rest } (fun _ hs => hs ▸ rfl) ?_
      have hf : f ∈ v.files := hfiles ▸ List.mem_cons_self
      refine .bind (does_unlink h.sorted hf) fun _ w hw => ?_
      have hw : w = v.drop f .trimmed := by rw [hw, ← hindex]; rfl
      exact (ih (hw ▸ hdrop)).bind fun _ _ ht => .pure ht
    next => exact .pure h

theorem does_enforceCap (h : Queue total n v) :
    Does v (enforceCap cfg env) fun _ w => Queue total n w := by
  refine .get fun _ _ => .ite (fun _ => .pure h) fun _ => (does_trim _ _ h).bind fun _ w hw => ?_
  exact .ite (fun _ => .pure hw) fun _ => .within (idle_count _ _) fun _ => hw

theorem does_nextSeq :
    Does v (nextSeq env) fun seq w => w = { v with lastSeq := seq } ∧ v.lastSeq < seq := by
  refine .skip (idle_draw _) fun ns => .get fun s hs => ?_
  have hlast : s.lastSeq = v.lastSeq := congrArg View.lastSeq hs
  refine .step { v with lastSeq := _ } (fun _ hs => hs ▸ rfl) (.pure ⟨rfl, ?_⟩)
  rw [hlast]
  split
  · exact Nat.lt_succ_self _
  · omega

theorem does_writeEntry (h : Queue total f.batch v) (hseq : v.lastSeq < f.seq) :
    Does { v with lastSeq := f.seq } (writeEntry cfg env f) fun kept w =>
      Queue total (f.batch + kept.toNat) w := by
  have hpush : Queue total (f.batch + 1) (v.push f) :=
    { h.push hseq with
      line := by
        rw [View.line, View.push, List.map_append, ← List.append_assoc, List.range_succ]
        exact h.line.append_right [f.batch] }
  have hfilter : v.files.filter (fun g => decide (g.seq ≠ f.seq)) = v.files :=
    List.filter_eq_self.mpr fun g hg => decide_eq_true ((h.last g hg).trans_lt hseq).ne
  refine .skip (idle_draw _) fun written => .ite (fun _ => ?_) fun _ => ?_
  · refine .step { v with files := v.files ++ [f], lastSeq := f.seq } (fun _ hs => ?_) ?_
    · rw [← hfilter]
      exact congrArg (fun w : View =>
        { w with files := w.files.filter (fun g : File => decide (g.seq ≠ f.seq)) ++ [f] }) hs
    refine .step (v.push f) (fun _ hs => ?_) ((does_enforceCap hpush).bind fun _ _ hw => .pure hw)
    exact congrArg (fun w : View => { w with entries := w.entries ++ [f.entry] }) hs
  · refine .skip (idle_count _ _) fun _ => .pure ?_
    exact { h with last := fun g hg => ((h.last g hg).trans_lt hseq).le }

theorem does_append (h : Queue total n v) :
    Does v (append cfg env n) fun kept w => Queue total (n + kept.toNat) w := by
  refine .skip (idle_draw _) fun spooledAt => .skip (idle_draw _) fun size => ?_
  refine .ite (fun _ => .skip (idle_count _ _) fun _ => .pure h) fun _ => ?_
  exact does_nextSeq.bind fun seq w ⟨hw, hlt⟩ => hw ▸
    does_writeEntry (f := ⟨seq, n, size, spooledAt⟩) h hlt

theorem Queue.kept {kept : Bool} (h : Queue total (n + kept.toNat) v) : Queue total (n + 1) v := by
  cases kept with
  | false => exact { h with line := h.line.trans (List.range_succ ▸ List.sublist_append_left ..) }
  | true => exact h

theorem does_usable (h : Store total v) (hs : view s = v) (hf : f ∈ v.files) :
    Does v (usable cfg env f.seq (s.read f.seq)) fun r w =>
      (r = .payload f.batch ∧ w = v) ∨ (r = .expired f.batch ∧ w = v.drop f .expired) := by
  rw [h.read hs hf, usable]
  cases cfg.maxAgeSeconds with
  | none => exact .pure (.inl ⟨rfl, rfl⟩)
  | some maxAge =>
    refine .skip (idle_draw _) fun now => .ite (fun _ => ?_) fun _ => .pure (.inl ⟨rfl, rfl⟩)
    refine .skip (idle_modify fun _ => rfl) fun _ => ?_
    exact (does_remove h hf).bind fun _ _ hw => .pure (.inr ⟨rfl, hw⟩)

theorem does_send :
    Does v (send cfg env b) fun o w => ∃ status, o = outcomeOf status ∧ w = v.posted b status := by
  refine .skip (idle_modify fun _ => rfl) fun _ => .skip (idle_draw _) fun status => ?_
  refine .step (v.posted b status) (fun _ hs => hs ▸ rfl) ?_
  exact .skip idle_backOff fun _ => .pure ⟨status, rfl, rfl⟩

theorem does_answered (h : Store total v) (hf : f ∈ v.files) :
    Does v (answered env f.entry f.batch outcome) fun _ w => w = v.answered f outcome := by
  cases outcome with
  | sent => exact does_remove h hf
  | rejected => exact .skip (idle_count _ _) fun _ => does_remove h hf
  | retry => exact .pure rfl

/-- What a probe behind the head leaves. -/
structure Probed (total n : Nat) (f : File) (probe : Option Outcome) (v : View) : Prop
    extends Store total v where
  passed : probe = some .sent ∨ probe = some .rejected → f ∈ v.files ∧
    (v.drop f .poisoned).line.Sublist (List.range n) ∧ Why f.batch v.log .poisoned
  kept : ¬(probe = some .sent ∨ probe = some .rejected) → v.line.Sublist (List.range n)

theorem Queue.unprobed (h : Queue total n v) : Probed total n f none v :=
  { h with passed := by simp, kept := fun _ => h.line }

/-- The second file is posted, and what its answer asks for is done. -/
theorem Queue.probed (h : Queue total n v) (hfiles : v.files = f :: g :: rest)
    (hdropped : ∀ reason, (v.drop g reason).files = f :: rest) :
    Probed total n f (some (outcomeOf status))
      ((v.posted g.batch status).answered g (outcomeOf status)) := by
  have hline := h.line
  rw [View.line, hfiles] at hline
  have hsorted := (List.pairwise_append.mp (List.pairwise_lt_range.sublist hline)).2.1
  have hlater : f.batch < g.batch := (List.pairwise_cons.mp hsorted).1 _ List.mem_cons_self
  have hpassed : ∀ {reason probe}, reason = .sent ∨ reason = .rejected →
      probe = some .sent ∨ probe = some .rejected →
      Why g.batch (v.posted g.batch status).log reason →
      Probed total n f probe ((v.posted g.batch status).drop g reason) := by
    intro reason probe hreason hprobe hwhy
    have hdrop : Store total ((v.posted g.batch status).drop g reason) :=
      Store.drop { h with } hwhy
    refine { hdrop with passed := fun _ => ?_, kept := fun hkept => absurd hprobe hkept }
    refine ⟨hdropped reason ▸ List.mem_cons_self, ?_, g.batch, hlater, ?_⟩
    · rw [line_drop hdrop.sorted (hdropped reason)]
      exact h.line_posted (hfiles ▸ List.sublist_cons_self ..)
    · rcases hreason with rfl | rfl
      · exact .inl rfl
      · exact .inr rfl
  cases houtcome : outcomeOf status with
  | sent => exact hpassed (.inl rfl) (.inl rfl) ⟨status, rfl, houtcome⟩
  | rejected => exact hpassed (.inr rfl) (.inr rfl) ⟨status, rfl, houtcome⟩
  | retry =>
    exact { h with
      passed := by simp
      kept := fun _ => (h.posted (by simp [houtcome])).line }

theorem does_probeBehind (rounds : Nat) (h : Queue total n v) (hfiles : v.files = f :: rest) :
    Does v (probeBehind cfg env f.seq rounds expired) fun r w => Probed total n f r.1 w := by
  induction rounds generalizing v rest expired with
  | zero => exact .pure h.unprobed
  | succ rounds ih =>
    refine .get fun s hs => ?_
    rw [h.behind hfiles hs]
    cases rest with
    | nil => exact .pure h.unprobed
    | cons g rest =>
      have hg : g ∈ v.files := by simp [hfiles]
      obtain ⟨hfirst, hothers⟩ := List.pairwise_cons.mp (hfiles ▸ h.sorted)
      have hfg : f.seq < g.seq := hfirst g List.mem_cons_self
      have hdropped : ∀ reason, (v.drop g reason).files = f :: rest := fun reason => by
        rw [View.drop, View.gone, hfiles, List.filter_cons_of_pos (by simpa using hfg.ne),
          filter_seq_head hothers]
      refine (does_usable h.toStore hs hg).bind fun r w hr => ?_
      rcases hr with ⟨rfl, rfl⟩ | ⟨rfl, rfl⟩
      · refine does_send.bind fun o u ⟨status, ho, hu⟩ => ?_
        subst ho hu
        have hposted : Store total (w.posted g.batch status) := { h with }
        exact (does_answered hposted hg).bind fun _ u hu =>
          .pure (hu ▸ h.probed hfiles hdropped)
      · exact ih (h.drop trivial) (hdropped _)

theorem does_quarantine (h : Store total v) (hf : f ∈ v.files)
    (hline : (v.drop f .poisoned).line.Sublist (List.range n))
    (hwhy : Why f.batch v.log .poisoned) :
    Does v (quarantine env f.entry) fun _ w => Queue total n w := by
  refine .skip (idle_modify fun _ => rfl) fun _ => .skip (idle_modify fun _ => rfl) fun _ => ?_
  refine (does_evict h hf).bind fun _ w hw => hw ▸ ?_
  exact .within (idle_count _ _) fun _ => ⟨h.drop hwhy, hline⟩

theorem does_drainRetried (h : Queue total n v) (hfiles : v.files = f :: rest) :
    Does v (drainRetried cfg env f.entry expired) fun _ w => Queue total n w := by
  refine .get fun _ _ => .ite (fun _ => .skip (idle_poisonDue _) fun due => ?_) fun _ => ?_
  · refine .ite (fun _ => .get fun _ _ => ?_) fun _ => .pure h
    refine (does_probeBehind _ h hfiles).bind fun r w hr => ?_
    refine .ite (fun hpassed => ?_) fun hkept => .pure ⟨hr.toStore, hr.kept hkept⟩
    obtain ⟨hf, hline, hwhy⟩ := hr.passed hpassed
    exact (does_quarantine hr.toStore hf hline hwhy).bind fun _ _ hw => .pure hw
  · exact .skip (idle_modify fun _ => rfl) fun _ => .pure h

theorem does_drainRound (h : Queue total n v) :
    Does v (drainRound cfg env expired) fun _ w => Queue total n w := by
  refine .get fun s hs => ?_
  split
  · exact .pure h
  next e es heq =>
    obtain ⟨f, rest, hfiles, rfl, -⟩ := h.head hs heq
    have hf : f ∈ v.files := hfiles ▸ List.mem_cons_self
    refine (does_usable h.toStore hs hf).bind fun r w hr => ?_
    rcases hr with ⟨rfl, rfl⟩ | ⟨rfl, rfl⟩
    · refine does_send.bind fun o u ⟨status, ho, hu⟩ => ?_
      subst ho hu
      refine .ite (fun hretry => ?_) fun hdone => .skip (idle_modify fun _ => rfl) fun _ => ?_
      · exact does_drainRetried (h.posted (by simp [hretry])) hfiles
      have hposted : Store total (w.posted f.batch status) := { h with }
      refine (does_answered hposted hf).bind fun _ u hu => .pure (hu ▸ ?_)
      have hgone : ∀ {reason}, Why f.batch (w.posted f.batch status).log reason →
          Queue total n ((w.posted f.batch status).drop f reason) := by
        refine fun hwhy => ⟨hposted.drop hwhy, ?_⟩
        rw [line_drop hposted.sorted hfiles]
        exact h.line_posted (hfiles ▸ List.Sublist.refl _)
      cases houtcome : outcomeOf status with
      | sent => exact hgone ⟨status, rfl, houtcome⟩
      | rejected => exact hgone ⟨status, rfl, houtcome⟩
      | retry => exact absurd houtcome hdone
    · exact .pure (h.drop trivial)

theorem does_drainRounds (rounds : Nat) (h : Queue total n v) :
    Does v (drainRounds cfg env rounds expired) fun _ w => Queue total n w := by
  induction rounds generalizing v expired with
  | zero => exact .pure h
  | succ rounds ih =>
    refine (does_drainRound h).bind fun r w hw => ?_
    exact .ite (fun _ => ih hw) fun _ => .pure hw

theorem does_drain (h : Queue total n v) :
    Does v (drain cfg env) fun empty w => Queue total n w ∧ (empty = true → w.files = []) := by
  refine (does_drainRounds _ h).bind fun expired w hw => ?_
  refine .skip (idle_ite (idle_pure _) (idle_count _ _)) fun _ => .get fun s hs => ?_
  exact .pure ⟨hw, fun hempty => hw.empty hs (List.isEmpty_iff.mp hempty)⟩

theorem does_shipNow (h : Queue total n v) :
    Does v (shipNow cfg env n) fun _ w => Queue total (n + 1) w := by
  have happend : ∀ {w : View} {outcome : Outcome}, Queue total n w →
      Does w (append cfg env n >>= fun _ => pure outcome) fun _ w => Queue total (n + 1) w :=
    fun hw => (does_append hw).bind fun _ _ hu => .pure hu.kept
  have hdrained : Does v (drained cfg env) fun empty w =>
      Queue total n w ∧ (empty = true → w.files = []) :=
    .get fun _ hs => .ite (fun hempty => .pure ⟨h, fun _ => h.empty hs hempty⟩)
      fun _ => does_drain h
  refine hdrained.bind fun empty w ⟨hw, hempty⟩ => .ite (fun hnone => ?_) fun _ => happend hw
  refine does_send.bind fun o u ⟨status, ho, hu⟩ => ?_
  subst ho hu
  refine .ite (fun hretry => happend (hw.posted (by simp [hretry]))) fun _ => .pure ?_
  have hline := hw.line
  rw [View.line, hempty hnone, List.map_nil, List.append_nil] at hline
  refine { hw with line := ?_ }
  change ((accepted (w.posted n status).log).reverse ++ w.files.map File.batch).Sublist _
  rw [hempty hnone, List.range_succ]
  exact (accepted_posted _).trans (hline.append_right [n])

/-- A running process between two calls. -/
abbrev Running (v : View) : Prop := Queue v.shipped v.shipped v

theorem Queue.running (h : Queue total total v) : Running v := by
  obtain rfl := h.shipped
  exact h

theorem does_ship (h : Running v) : Does v (ship cfg env) fun _ w => Running w := by
  refine .get fun s hs => ?_
  subst hs
  have hqueue : Queue (s.shipped + 1) s.shipped { view s with shipped := s.shipped + 1 } :=
    { h with shipped := rfl }
  refine .step { view s with shipped := s.shipped + 1 } (fun _ hs => ?_) ?_
  · exact congrArg (fun w : View => { w with shipped := w.shipped + 1 }) hs
  have hwait : Does { view s with shipped := s.shipped + 1 } (appendedWaiting cfg env s.shipped)
      fun kept w => Queue (s.shipped + 1) (s.shipped + kept.toNat) w :=
    .skip idle_backingOff fun _ => .ite (fun _ => does_append hqueue) fun _ => .pure hqueue
  refine hwait.bind fun kept w hw => ?_
  have hship : Does w (shipUnless cfg env kept s.shipped)
      fun _ u => Queue (s.shipped + 1) (s.shipped + 1) u :=
    .ite (fun _ => .pure hw.kept) fun hnot => does_shipNow (by simpa [hnot] using hw)
  exact hship.bind fun _ u hu => .skip (idle_modify fun _ => rfl) fun _ => .pure hu.running

theorem does_idleDrain (h : Running v) : Does v (idleDrain cfg env) fun _ w => Running w := by
  refine .get fun _ _ => .ite (fun _ => .pure h) fun _ => .skip idle_backingOff fun _ => ?_
  exact .ite (fun _ => .pure h) fun _ => (does_drain h).mono fun _ _ hw => hw.1.running

end Programs

/-- The state of a process over an empty directory after some calls. -/
def after (cfg : Config) (calls : List Call) : State :=
  calls.foldl (fun s call => ((call.prog cfg).run s).2) (start.run {}).2

variable (cfg : Config) (calls : List Call)

theorem running_after : Running (view (after cfg calls)) := by
  refine List.foldlRecOn (motive := fun s => Running (view s)) calls _ ?_ fun s h call _ => ?_
  · have hempty : sortByName [] = [] := List.mergeSort_nil
    exact
      { shipped := rfl
        sorted := .nil
        entries := congrArg (List.map File.entry) hempty
        last := nofun
        explained := trivial
        line := .slnil }
  · have hcall : Does (view s) (call.prog cfg) fun _ w => Running w := by
      cases call with
      | ship env => exact (does_ship h).bind fun _ _ hw => .pure hw
      | drain env => exact (does_idleDrain h).bind fun _ _ hw => .pure hw
    exact ((Prog.wp_iff _).mp (hcall s rfl)).2

/-- The index lists the directory. What the control plane took, the oldest first, and then the
directory are batches in the order of their `ship` calls, each once. -/
theorem accepted_then_kept : (after cfg calls).entries = (after cfg calls).files.map File.entry ∧
    ((accepted (after cfg calls).log).reverse ++ (after cfg calls).files.map File.batch).Sublist
      (List.range (after cfg calls).shipped) :=
  ⟨(running_after cfg calls).entries, (running_after cfg calls).line⟩

theorem departures_explained : Explained (after cfg calls).log :=
  (running_after cfg calls).explained

theorem lost_in_outage {log : List Event} (h : Explained log)
    (hretry : ∀ b status, .posted b status ∈ log → outcomeOf status = .retry) {b : Batch}
    {reason : Reason} (hgone : .gone b reason ∈ log) : reason = .trimmed ∨ reason = .expired := by
  induction log generalizing b reason with
  | nil => cases hgone
  | cons e log ih =>
    cases e with
    | posted => grind [Explained]
    | gone b' reason' =>
      cases reason' <;> grind [Explained, Why, List.mem_of_mem_head?]

/-- While every POST draws a RETRY, only the byte cap and the age limit take a batch. -/
theorem kept_through_outage :
    (∃ b status, .posted b status ∈ (after cfg calls).log ∧ outcomeOf status ≠ .retry) ∨
      ∀ b reason, .gone b reason ∈ (after cfg calls).log →
        reason = .trimmed ∨ reason = .expired := by
  refine or_iff_not_imp_left.mpr fun hnone b reason hgone => ?_
  exact lost_in_outage (departures_explained cfg calls) (by simpa using hnone) hgone

end SpatiumDdi.Agent.Spool
