import Mathlib.Data.List.Dedup
import Mathlib.Data.List.Range
import Mathlib.Logic.Function.Basic
import Scrapcode.ByteText
import Scrapcode.Runs
/-!
# PgForkReport — the result file of `pgfork.py`

A worker that is done opens the result file, locks it, seeks to its end, writes a line, flushes, unlocks and closes.
The file is not opened for appending: a piece of the buffer goes to the place the worker's own descriptor is at, over
whatever is there.  The parent reads the lines and adds up their counts once every worker has exited.

What the lock keeps is `Written`: the file is the lines of the workers that have unlocked or may unlock, in the order in
which they flushed, and then the piece of its line that the holder has written; the holder's descriptor is at the end.
-/
namespace Scrapcode
namespace PgForkReport

open ByteText

/-- What a worker reports: its number and how many queries it made. -/
abbrev Report := Nat × Nat

/-- `"%i\t%i\n" % (worker_number, n_queries)` -/
def line (r : Report) : Str := str r.1 ++ '\t' :: str r.2 ++ ['\n']

/-- The call of `do_worker` that is next. -/
inductive Pc where
  | opening
  | lock
  | seek
  | write
  | flush
  | unlock
  | close
  | exit
  | exited
deriving DecidableEq, Repr

structure Worker where
  pc     : Pc
  offset : Nat
  buffer : Str
deriving DecidableEq, Repr

/-- The result file, its lock, and the workers. -/
structure Host where
  content : Str
  holder  : Option Nat
  worker  : Nat → Worker

def Host.start : Host where
  content := []
  holder  := none
  worker  := fun _ => { pc := .opening, offset := 0, buffer := [] }

namespace Host

def set (s : Host) (i : Nat) (w : Worker) : Host := { s with worker := Function.update s.worker i w }

def goto (s : Host) (i : Nat) (pc : Pc) : Host := s.set i { s.worker i with pc := pc }

/-- The next call of worker `i`, which reports `r`. -/
def call (s : Host) (i : Nat) (r : Report) : Option Host :=
  match (s.worker i).pc with
  | .opening => some (s.set i { pc := .lock, offset := 0, buffer := [] })
  | .lock    => if s.holder = none then some { s.goto i .seek with holder := some i } else none
  | .seek    => some (s.set i { s.worker i with pc := .write, offset := s.content.length })
  | .write   => some (s.set i { s.worker i with pc := .flush, buffer := (s.worker i).buffer ++ line r })
  | .flush   => if (s.worker i).buffer = [] then some (s.goto i .unlock) else none
  | .unlock  => some { s.goto i .close with holder := if s.holder = some i then none else s.holder }
  | .close   => some (s.goto i .exit)
  | .exit    => some (s.goto i .exited)
  | .exited  => none

/-- The file with `piece` at `offset`; a gap is filled with zero bytes. -/
def overwrite (content : Str) (offset : Nat) (piece : Str) : Str :=
  content.take offset ++ List.replicate (offset - content.length) '\x00' ++ piece ++
    content.drop (offset + piece.length)

/-- The system takes `k` bytes of what worker `i` has in its buffer. -/
def piece (s : Host) (i k : Nat) : Option Host :=
  let w := s.worker i
  if w.pc = .flush ∧ 0 < k ∧ k ≤ w.buffer.length then
    some { s.set i { w with offset := w.offset + k, buffer := w.buffer.drop k } with
      content := overwrite s.content w.offset (w.buffer.take k) }
  else none

end Host

inductive Act where
  | call
  | piece (k : Nat)
deriving DecidableEq, Repr

/-- A step of one of the workers that report. -/
def step (reports : List Report) (s : Host) (e : Nat × Act) : Option Host :=
  reports[e.1]?.bind (fun r =>
    match e.2 with
    | .call    => s.call e.1 r
    | .piece k => s.piece e.1 k)

/-- The total of `run_parent` over the lines it reads; a line that is not two fields, or not a number, raises. -/
def totalTx : List Str → Option Int
  | []      => some 0
  | l :: ls =>
    match (strip l).splitOn '\t' with
    | [_, numTx] => (int numTx).bind (fun n => (totalTx ls).map (n + ·))
    | _          => none

def collect (content : Str) : Option Int := totalTx (fileLines content)

/-! ## The lines -/

/-- The file of these reports. -/
def fileOf : List Report → Str
  | []      => []
  | r :: rs => line r ++ fileOf rs

/-- The sum of their counts. -/
def countOf : List Report → Nat
  | []      => 0
  | r :: rs => r.2 + countOf rs

theorem fileOf_concat (rs : List Report) (r : Report) : fileOf (rs ++ [r]) = fileOf rs ++ line r := by
  induction rs with
  | nil          => simp [fileOf]
  | cons r' rs ih => rw [List.cons_append, fileOf, ih, fileOf, List.append_assoc]

theorem countOf_perm {rs rs' : List Report} (h : rs.Perm rs') : countOf rs = countOf rs' := by
  induction h with
  | nil                => rfl
  | cons _ _ ih        => rw [countOf, countOf, ih]
  | swap a b l         => simp only [countOf]; omega
  | trans _ _ ih₁ ih₂  => rw [ih₁, ih₂]

theorem newline_notMem (r : Report) : '\n' ∉ str r.1 ++ '\t' :: str r.2 := by
  simp only [List.mem_append, List.mem_cons, not_or]
  exact ⟨notMem_str (by decide) _, by decide, notMem_str (by decide) _⟩

theorem fileLines_line (r : Report) (t : Str) : fileLines (line r ++ t) = line r :: fileLines t := by
  rw [line, List.append_assoc, List.singleton_append]
  exact fileLines_append (newline_notMem r) t

theorem fields_line (r : Report) : (strip (line r)).splitOn '\t' = [str r.1, str r.2] := by
  have ht := (trimmed_str r.1).append (trimmed_str r.2) (str_ne_nil _) (str_ne_nil _) ['\t']
  rw [line, strip_concat (s := str r.1 ++ '\t' :: str r.2) ht (by simp) (by decide),
    List.splitOn_append_cons_self_of_not_mem (notMem_str (by decide) _),
    List.splitOn_eq_singleton (notMem_str (by decide) _)]

/-- **The total of a file of complete lines** is the sum of their counts. -/
theorem collect_fileOf (rs : List Report) : collect (fileOf rs) = some (countOf rs : Int) := by
  induction rs with
  | nil => rfl
  | cons r rs ih =>
    have ih : totalTx (fileLines (fileOf rs)) = some (countOf rs : Int) := ih
    rw [collect, fileOf, fileLines_line, totalTx, fields_line]
    simp [int_str, ih, countOf]

/-! ## Under the lock -/

def Pc.holds : Pc → Bool
  | .seek | .write | .flush | .unlock => true
  | _                                 => false

/-- The line is in the file. -/
def Pc.flushed : Pc → Bool
  | .unlock | .close | .exit | .exited => true
  | _                                  => false

/-- What worker `i` has in hand, over a file that was `before` when it came to its end. -/
structure Settled (reports : List Report) (content before : Str) (i : Nat) (w : Worker) : Prop where
  fresh    : w.pc ≠ .flush → w.buffer = []
  seeked   : w.pc = .write → w.offset = content.length
  flushing : w.pc = .flush → w.offset = content.length ∧
    ∃ r p, reports[i]? = some r ∧ line r = p ++ w.buffer ∧ content = before ++ p

/-- The reports of these workers. -/
def reportsOf (reports : List Report) (order : List Nat) : List Report := order.filterMap (reports[·]?)

/-- **The file is the lines that were flushed**, in this order, and what the holder has written of its own. -/
structure Written (reports : List Report) (s : Host) (order : List Nat) : Prop where
  holder  : ∀ i, (s.worker i).pc.holds = true ↔ s.holder = some i
  nodup   : order.Nodup
  mem     : ∀ i, i ∈ order ↔ (s.worker i).pc.flushed = true
  outside : ∀ i, reports.length ≤ i → (s.worker i).pc = .opening
  settled : ∀ i, Settled reports s.content (fileOf (reportsOf reports order)) i (s.worker i)
  content : (∀ i, (s.worker i).pc ≠ .flush) → s.content = fileOf (reportsOf reports order)

variable {reports : List Report} {s s' : Host} {order : List Nat} {i j : Nat} {r : Report}

@[simp] theorem Host.set_self (s : Host) (i : Nat) (w : Worker) : (s.set i w).worker i = w := Function.update_self _ _ _

theorem Host.set_of_ne (h : j ≠ i) (s : Host) (w : Worker) : (s.set i w).worker j = s.worker j :=
  Function.update_of_ne h _ _

theorem written_start (reports : List Report) : Written reports .start [] where
  holder  := fun _ => ⟨(nomatch ·), (nomatch ·)⟩
  nodup   := List.nodup_nil
  mem     := fun _ => ⟨(nomatch ·), (nomatch ·)⟩
  outside := fun _ _ => rfl
  settled := fun _ => ⟨fun _ => rfl, (nomatch ·), (nomatch ·)⟩
  content := fun _ => rfl

/-- Two workers do not hold the lock at once. -/
theorem Written.alone (h : Written reports s order) (hi : (s.worker i).pc.holds = true)
    (hj : (s.worker j).pc.holds = true) : j = i :=
  Option.some.inj (((h.holder j).1 hj).symm.trans ((h.holder i).1 hi))

/-- A worker that does not hold the lock has nothing in hand. -/
theorem Settled.idle {content before content' before' : Str} {w : Worker} (h : Settled reports content before i w)
    (hw : w.pc.holds = false) : Settled reports content' before' i w :=
  ⟨h.fresh, fun hp => (by rw [hp] at hw; cases hw), fun hp => (by rw [hp] at hw; cases hw)⟩

/-- What a step of worker `i` has to keep. -/
structure Keeps (reports : List Report) (s : Host) (order : List Nat) (i : Nat) (t : Host) (order' : List Nat) :
    Prop where
  others  : ∀ j, j ≠ i → t.worker j = s.worker j
  holder  : t.holder = if (t.worker i).pc.holds = true then some i else if (s.worker i).pc.holds = true then none
    else s.holder
  locks   : (t.worker i).pc.holds = true → (s.worker i).pc.holds = true ∨ s.holder = none
  grows   : order' = order ∧ (t.worker i).pc.flushed = (s.worker i).pc.flushed ∨
    order' = order ++ [i] ∧ (s.worker i).pc.flushed = false ∧ (t.worker i).pc.flushed = true
  alone   : t.content = s.content ∧ order' = order ∨ (s.worker i).pc.holds = true
  settled : Settled reports t.content (fileOf (reportsOf reports order')) i (t.worker i)
  content : (t.worker i).pc ≠ .flush → ((s.worker i).pc = .flush ∨ s.content = fileOf (reportsOf reports order)) →
    t.content = fileOf (reportsOf reports order')

namespace Keeps

variable {t : Host} {order' : List Nat} (hk : Keeps reports s order i t order') (h : Written reports s order)
include hk h

theorem holder_iff (j : Nat) : (t.worker j).pc.holds = true ↔ t.holder = some j := by
  rw [hk.holder]
  by_cases hji : j = i
  · subst hji
    cases ht : (t.worker j).pc.holds with
    | true => simp
    | false =>
      cases hs : (s.worker j).pc.holds with
      | true  => simp
      | false => simp [← h.holder j, hs]
  · have hij : i ≠ j := Ne.symm hji
    rw [hk.others j hji, h.holder j]
    cases ht : (t.worker i).pc.holds with
    | true =>
      rcases hk.locks ht with hs | hs
      · simp [(h.holder i).1 hs, hij]
      · simp [hs, hij]
    | false =>
      cases hs : (s.worker i).pc.holds with
      | true  => simp [(h.holder i).1 hs, hij]
      | false => simp

theorem nodup : order'.Nodup := by
  rcases hk.grows with ⟨rfl, -⟩ | ⟨rfl, hs, -⟩
  · exact h.nodup
  · have hi : i ∉ order := fun hi => by rw [(h.mem i).1 hi] at hs; cases hs
    simpa [List.nodup_append, hi] using ⟨h.nodup, fun j hj hji => hi (hji ▸ hj)⟩

theorem mem_iff (j : Nat) : j ∈ order' ↔ (t.worker j).pc.flushed = true := by
  by_cases hji : j = i
  · subst hji
    rcases hk.grows with ⟨rfl, hf⟩ | ⟨rfl, -, hf⟩
    · rw [hf]; exact h.mem j
    · simp [hf]
  · rw [hk.others j hji, ← h.mem j]
    rcases hk.grows with ⟨rfl, -⟩ | ⟨rfl, -, -⟩
    · rfl
    · simp [hji]

theorem settled_all (j : Nat) : Settled reports t.content (fileOf (reportsOf reports order')) j (t.worker j) := by
  by_cases hji : j = i
  · subst hji; exact hk.settled
  · rw [hk.others j hji]
    rcases hk.alone with ⟨hc, ho⟩ | hi
    · rw [hc, ho]; exact h.settled j
    · exact (h.settled j).idle (Bool.eq_false_iff.2 fun hj => hji (h.alone hi hj))

theorem content_eq (hn : ∀ j, (t.worker j).pc ≠ .flush) : t.content = fileOf (reportsOf reports order') := by
  apply hk.content (hn i)
  by_cases hi : (s.worker i).pc = .flush
  · exact Or.inl hi
  · refine Or.inr (h.content fun j => ?_)
    by_cases hji : j = i
    · subst hji; exact hi
    · rw [← hk.others j hji]; exact hn j

/-- **One step lemma** for all calls. -/
theorem written (hr : reports[i]? = some r) : Written reports t order' where
  holder  := hk.holder_iff h
  nodup   := hk.nodup h
  mem     := hk.mem_iff h
  outside := fun j hj => by
    have hlen := (List.getElem?_eq_some_iff.1 hr).1
    rw [hk.others j (by omega)]; exact h.outside j hj
  settled := hk.settled_all h
  content := hk.content_eq h

end Keeps

/-- **A call that leaves the file alone**, from `p` to `q`. -/
theorem quiet_written (h : Written reports s order) (hr : reports[i]? = some r) {w : Worker} {o : Option Nat} (p q : Pc)
    (hp : (s.worker i).pc = p) (hq : w.pc = q) (hb : w.buffer = []) (hpq : p ≠ .flush ∧ q ≠ .write ∧ q ≠ .flush)
    (hf : q.flushed = p.flushed) (ho : o = if q.holds = true then some i else if p.holds = true then none else s.holder)
    (hl : q.holds = true → p.holds = true ∨ s.holder = none) :
    ∃ order', Written reports { s.set i w with holder := o } order' := by
  have hk : Keeps reports s order i { s.set i w with holder := o } order :=
    { others  := fun j hj => Host.set_of_ne hj s w
      holder  := by rw [Host.set_self, hq, hp]; exact ho
      locks   := by rw [Host.set_self, hq, hp]; exact hl
      grows   := by rw [Host.set_self, hq, hp]; exact Or.inl ⟨rfl, hf⟩
      alone   := Or.inl ⟨rfl, rfl⟩
      settled := by
        rw [Host.set_self]
        exact ⟨fun _ => hb, fun hw => absurd (hq.symm.trans hw) hpq.2.1, fun hw => absurd (hq.symm.trans hw) hpq.2.2⟩
      content := fun _ hc => hc.resolve_left (by rw [hp]; exact hpq.1) }
  exact ⟨order, hk.written h hr⟩

/-- **A call under the lock**, from `p` to `q`. -/
theorem under_written (h : Written reports s order) (hr : reports[i]? = some r) {w : Worker} {c : Str}
    {order' : List Nat} (p q : Pc) (hp : (s.worker i).pc = p) (hq : w.pc = q) (hpq : p.holds = true ∧ q.holds = true)
    (hg : order' = order ∧ q.flushed = p.flushed ∨ order' = order ++ [i] ∧ p.flushed = false ∧ q.flushed = true)
    (hsettled : Settled reports c (fileOf (reportsOf reports order')) i w)
    (hcontent : q ≠ .flush → (p = .flush ∨ s.content = fileOf (reportsOf reports order)) →
      c = fileOf (reportsOf reports order')) :
    ∃ order', Written reports { s.set i w with content := c } order' := by
  have hi : (s.worker i).pc.holds = true := by rw [hp]; exact hpq.1
  have hk : Keeps reports s order i { s.set i w with content := c } order' :=
    { others  := fun j hj => Host.set_of_ne hj s w
      holder  := by rw [Host.set_self, hq, if_pos hpq.2]; exact (h.holder i).1 hi
      locks   := fun _ => Or.inl hi
      grows   := by rw [Host.set_self, hq, hp]; exact hg
      alone   := Or.inr hi
      settled := by rw [Host.set_self]; exact hsettled
      content := by rw [Host.set_self, hq, hp]; exact hcontent }
  exact ⟨order', hk.written h hr⟩

theorem overwrite_end (content piece : Str) : Host.overwrite content content.length piece = content ++ piece := by
  simp [Host.overwrite]

theorem reportsOf_concat (hr : reports[i]? = some r) (order : List Nat) :
    reportsOf reports (order ++ [i]) = reportsOf reports order ++ [r] := by
  simp [reportsOf, List.filterMap_append, hr]

/-- Before the holder writes, the file is complete lines. -/
theorem Written.clean (h : Written reports s order) (hi : (s.worker i).pc.holds = true)
    (hne : (s.worker i).pc ≠ .flush) : s.content = fileOf (reportsOf reports order) := by
  apply h.content
  intro j hj
  have hji := h.alone hi (j := j) (by rw [hj]; rfl)
  exact hne (hji ▸ hj)

theorem call_written (h : Written reports s order) (hr : reports[i]? = some r) (hs : s.call i r = some s') :
    ∃ order', Written reports s' order' := by
  have hset := h.settled i
  unfold Host.call at hs
  cases hpc : (s.worker i).pc with
  | opening =>
    rw [hpc] at hs; cases hs
    exact quiet_written h hr .opening .lock hpc rfl rfl (by decide) rfl rfl (fun hq => nomatch hq)
  | lock =>
    simp only [hpc, Option.ite_none_right_eq_some] at hs
    obtain ⟨hfree, hs⟩ := hs
    cases hs
    exact quiet_written h hr .lock .seek hpc rfl (hset.fresh (by simp [hpc])) (by decide) rfl rfl (fun _ => Or.inr hfree)
  | seek =>
    rw [hpc] at hs; cases hs
    have hb := hset.fresh (by simp [hpc])
    exact under_written h hr .seek .write hpc rfl ⟨rfl, rfl⟩ (Or.inl ⟨rfl, rfl⟩)
      ⟨fun _ => hb, fun _ => rfl, (nomatch ·)⟩ (fun _ hc => hc.resolve_left (nomatch ·))
  | write =>
    rw [hpc] at hs; cases hs
    have hb := hset.fresh (by simp [hpc])
    have hc := h.clean (i := i) (by rw [hpc]; rfl) (by simp [hpc])
    exact under_written h hr .write .flush hpc rfl ⟨rfl, rfl⟩ (Or.inl ⟨rfl, rfl⟩)
      ⟨fun hn => absurd rfl hn, (nomatch ·),
        fun _ => ⟨hset.seeked hpc, r, [], hr, by rw [hb]; rfl, by rw [List.append_nil]; exact hc⟩⟩
      (fun hn => absurd rfl hn)
  | flush =>
    simp only [hpc, Option.ite_none_right_eq_some] at hs
    obtain ⟨hb, hs⟩ := hs
    cases hs
    obtain ⟨-, r', p, hr', hline, hc⟩ := hset.flushing hpc
    cases hr.symm.trans hr'
    rw [hb, List.append_nil] at hline
    have hc' : s.content = fileOf (reportsOf reports (order ++ [i])) := by
      rw [reportsOf_concat hr, fileOf_concat, hline]; exact hc
    exact under_written h hr .flush .unlock hpc rfl ⟨rfl, rfl⟩ (Or.inr ⟨rfl, rfl, rfl⟩)
      ⟨fun _ => hb, (nomatch ·), (nomatch ·)⟩ (fun _ _ => hc')
  | unlock =>
    rw [hpc] at hs; cases hs
    have hheld : s.holder = some i := (h.holder i).1 (by rw [hpc]; rfl)
    exact quiet_written h hr .unlock .close hpc rfl (hset.fresh (by simp [hpc])) (by decide) rfl (if_pos hheld)
      (fun hq => nomatch hq)
  | close =>
    rw [hpc] at hs; cases hs
    exact quiet_written h hr .close .exit hpc rfl (hset.fresh (by simp [hpc])) (by decide) rfl rfl (fun hq => nomatch hq)
  | exit =>
    rw [hpc] at hs; cases hs
    exact quiet_written h hr .exit .exited hpc rfl (hset.fresh (by simp [hpc])) (by decide) rfl rfl
      (fun hq => nomatch hq)
  | exited => rw [hpc] at hs; cases hs

theorem piece_written (h : Written reports s order) (hr : reports[i]? = some r) {k : Nat}
    (hs : s.piece i k = some s') : ∃ order', Written reports s' order' := by
  simp only [Host.piece, Option.ite_none_right_eq_some] at hs
  obtain ⟨⟨hpc, -, hk⟩, hs⟩ := hs
  cases hs
  obtain ⟨hoff, r', p, hr', hline, hc⟩ := (h.settled i).flushing hpc
  rw [hoff, overwrite_end]
  refine under_written h hr .flush .flush hpc hpc ⟨rfl, rfl⟩ (Or.inl ⟨rfl, rfl⟩)
    ⟨fun hn => absurd hpc hn, fun hw => ?_, fun _ => ⟨?_, r', p ++ (s.worker i).buffer.take k, hr', ?_, ?_⟩⟩
    (fun hn => absurd rfl hn)
  · rw [show _ = Pc.flush from hpc] at hw; cases hw
  · rw [List.length_append, List.length_take, Nat.min_eq_left hk]
  · rw [hline, List.append_assoc, List.take_append_drop]
  · rw [hc, List.append_assoc]

theorem step_written (h : Written reports s order) {e : Nat × Act} (hs : step reports s e = some s') :
    ∃ order', Written reports s' order' := by
  obtain ⟨i, a⟩ := e
  obtain ⟨r, hr, hs⟩ := Option.bind_eq_some_iff.1 hs
  cases a with
  | call    => exact call_written h hr hs
  | piece k => exact piece_written h hr hs

theorem run_written {es : List (Nat × Act)} (h : Runs.run (step reports) .start es = some s) :
    ∃ order, Written reports s order :=
  Runs.run_invariant (I := fun s => ∃ order, Written reports s order) (fun _ _ _ ⟨_, h⟩ hs => step_written h hs) es
    ⟨[], written_start reports⟩ h

/-! ## The end -/

/-- Every worker has exited. -/
def Host.Ended (reports : List Report) (s : Host) : Prop := ∀ i < reports.length, (s.worker i).pc = .exited

/-- The file as it ends. -/
theorem Written.ended (h : Written reports s order) (hend : s.Ended reports) :
    order.Perm (List.range reports.length) ∧ s.content = fileOf (reportsOf reports order) := by
  have hcases : ∀ i, i < reports.length ∧ (s.worker i).pc = .exited ∨
      ¬ i < reports.length ∧ (s.worker i).pc = .opening := fun i => by
    by_cases hi : i < reports.length
    · exact Or.inl ⟨hi, hend i hi⟩
    · exact Or.inr ⟨hi, h.outside i (Nat.le_of_not_lt hi)⟩
  constructor
  · refine (List.perm_ext_iff_of_nodup h.nodup List.nodup_range).2 fun i => ?_
    rw [h.mem, List.mem_range]
    rcases hcases i with ⟨hi, hpc⟩ | ⟨hi, hpc⟩
    · simp [hpc, hi, Pc.flushed]
    · simp [hpc, hi, Pc.flushed]
  · refine h.content fun i => ?_
    rcases hcases i with ⟨-, hpc⟩ | ⟨-, hpc⟩
    · simp [hpc]
    · simp [hpc]

theorem reportsOf_range (reports : List Report) : reportsOf reports (List.range reports.length) = reports := by
  induction reports using List.reverseRecOn with
  | nil => rfl
  | append_singleton rs r ih =>
    have hrs : reportsOf (rs ++ [r]) (List.range rs.length) = reportsOf rs (List.range rs.length) :=
      List.filterMap_congr fun i hi => List.getElem?_append_left (List.mem_range.1 hi)
    rw [List.length_append, List.length_singleton, List.range_succ, reportsOf_concat (r := r) (by simp), hrs, ih]

/-- A worker that is not done and does not wait for the lock has a step. -/
theorem exists_step (hr : reports[i]? = some r) (hpc : (s.worker i).pc ≠ .exited)
    (hl : (s.worker i).pc = .lock → s.holder = none) : ∃ e s', step reports s e = some s' := by
  have hcall : (s.call i r).isSome = true → ∃ e s', step reports s e = some s' := by
    intro hs
    obtain ⟨s', hs⟩ := Option.isSome_iff_exists.1 hs
    exact ⟨(i, .call), s', by rw [step, hr, Option.bind_some]; exact hs⟩
  cases h : (s.worker i).pc with
  | lock => exact hcall (by simp [Host.call, h, hl h])
  | flush =>
    by_cases hb : (s.worker i).buffer = []
    · exact hcall (by simp [Host.call, h, hb])
    · have hp : step reports s (i, .piece 1) = s.piece i 1 := by rw [step, hr, Option.bind_some]
      exact ⟨(i, .piece 1), _, hp.trans (if_pos ⟨h, Nat.one_pos, List.length_pos_iff.2 hb⟩)⟩
  | exited => exact absurd h hpc
  | _ => exact hcall (by simp [Host.call, h])

/-- **The lock blocks no one for ever**: a run goes on until every worker has exited. -/
theorem Written.progress (h : Written reports s order) :
    s.Ended reports ∨ ∃ e s', step reports s e = some s' := by
  by_cases hend : s.Ended reports
  · exact Or.inl hend
  · right
    cases hh : s.holder with
    | some j =>
      have hj := (h.holder j).2 hh
      have hlt : j < reports.length := by
        by_contra hn
        rw [h.outside j (Nat.le_of_not_lt hn)] at hj
        cases hj
      exact exists_step (List.getElem?_eq_getElem hlt) (fun hp => by rw [hp] at hj; cases hj)
        (fun hp => by rw [hp] at hj; cases hj)
    | none =>
      simp only [Host.Ended, not_forall] at hend
      obtain ⟨i, hi, hpc⟩ := hend
      exact exists_step (List.getElem?_eq_getElem hi) hpc (fun _ => hh)

/-- **The result file** of any number of workers, in any order of their steps: no worker is left waiting, and once all
have exited the file is one complete line for each, and the total is the sum of their counts. -/
theorem result_file_complete (reports : List Report) (es : List (Nat × Act)) {t : Host}
    (h : Runs.run (step reports) .start es = some t) :
    (t.Ended reports ∨ ∃ e t', step reports t e = some t') ∧
    (t.Ended reports → (∃ order, order.Perm reports ∧ t.content = fileOf order) ∧
      collect t.content = some (countOf reports : Int)) := by
  obtain ⟨order, hw⟩ := run_written h
  refine ⟨hw.progress, fun hend => ?_⟩
  obtain ⟨hperm, hc⟩ := hw.ended hend
  have hp : (reportsOf reports order).Perm reports := by
    have := hperm.filterMap (reports[·]?)
    rwa [← reportsOf, ← reportsOf, reportsOf_range] at this
  refine ⟨⟨_, hp, hc⟩, ?_⟩
  rw [hc, collect_fileOf, countOf_perm hp]

/-- Two workers whose steps are interleaved; the second one reports first. -/
def twoWorkers : List (Nat × Act) :=
  [(0, .call), (1, .call), (1, .call), (1, .call), (1, .call), (1, .piece 2), (1, .piece 3), (1, .call), (1, .call),
    (0, .call), (0, .call), (1, .call), (0, .call), (0, .piece 4), (0, .call), (1, .call), (0, .call), (0, .call),
    (0, .call)]

theorem result_file_complete_two :
    ∃ t, Runs.run (step [(0, 3), (1, 12)]) .start twoWorkers = some t ∧
      t.content = "1\t12\n0\t3\n".toList ∧ collect t.content = some 15 :=
  ⟨_, rfl, by decide, ((result_file_complete [(0, 3), (1, 12)] twoWorkers rfl).2 (by unfold Host.Ended; decide)).2⟩

end PgForkReport
end Scrapcode
