import Scrapcode.SpoolCommand
/-!
# SpoolVerdict — the acknowledgement and how `lp` ended

The server alone, against a client that sends whatever bytes it likes.  `os.system` returns a wait status: a signal in
the low seven bits, the exit code in the next byte.  `spool_job` looks at the exit code only, so a command that a
signal ended counts as printed; so does a command line that a quote in the queue name made into another one.  Those two
are all there is to it (`truthful_iff_meets`).
-/
namespace Scrapcode
namespace Spool

open ByteText
open Shell (commands)

/-- A terminating signal: 0 is none, and 127 says that a process is stopped. -/
structure Signal where
  number : Nat
  pos    : 0 < number
  lt     : number < 127
deriving DecidableEq, Repr

inductive Ending where
  | exited (code : Fin 256)
  | signalled (sig : Signal) (core : Bool)
deriving DecidableEq, Repr

def waitStatus : Ending → Int
  | .exited code        => code.val * 256
  | .signalled sig core => sig.number + if core then 128 else 0

/-- The server of one connection: the temporary file it makes, and how the shell ends on a command line while the file
has some content. -/
structure Spooler where
  file : JobFile
  sh   : Str → Str → Ending

namespace Spooler

variable (w : Spooler)

def line (queuename : Str) : Str := lpcmd (printerMap queuename) w.file.name

/-- The parts that are the client's are not used. -/
def input : Input where
  queue := []
  file  := []
  gid   := 0
  lp    := fun queue job => waitStatus (w.sh (lpcmd queue w.file.name) job)

/-- `os.system` raises on a line with a null byte. -/
def raises : ServerPc → Io → Bool
  | .spoolJob queuename job, .call => !shouldIgnoreJob job && (w.line queuename).contains '\x00'
  | _, _                           => false

end Spooler

structure Connection where
  server : Server
  /-- All bytes the client has sent. -/
  came   : Str

def Connection.start : Connection := { server := ⟨.recvHandshake [], ⟨[], false⟩, ⟨[], false⟩⟩, came := [] }

inductive Event where
  | arrives (bytes : Str)
  | hangsUp
  | server (io : Io)
deriving DecidableEq, Repr

def Connection.step (w : Spooler) (c : Connection) : Event → Option Connection
  | .arrives bytes =>
    if c.server.inp.closed then none
    else some { server := { c.server with inp := ⟨c.server.inp.bytes ++ bytes, false⟩ }, came := c.came ++ bytes }
  | .hangsUp       => some { c with server := { c.server with inp := ⟨c.server.inp.bytes, true⟩ } }
  | .server io     =>
    (serverStep w.input c.server (if w.raises c.server.pc io then .fails else io)).map (fun e => { c with server := e })

/-! ## What is to hold -/

/-- The job of the client's bytes: as many as the handshake says, after it. -/
def Received (came queuename job : Str) : Prop :=
  45 ≤ came.length ∧ ∃ jobsize, parseHandshake (came.take 45) = .ok (queuename, jobsize) ∧
    job = (came.drop 45).take jobsize.toNat ∧ job.length = jobsize.toNat

/-- `lp` ran on the file with this job, and exited with code 0. -/
def LpExited (w : Spooler) (queuename job : Str) : Prop :=
  commands (w.line queuename) = some [lpCommand (printerMap queuename) w.file.name] ∧
    w.sh (w.line queuename) job = .exited 0

/-- **The acknowledgement is truthful**: there is one at most; none without a verdict; and with `SUCCESS` the job that
was received is ignored, or `lp` took it. -/
structure Truthful (w : Spooler) (c : Connection) : Prop where
  once    : ∃ ok, c.server.out.bytes <+: ready ++ ack ok
  verdict : ∀ ok job, c.server.pc.acked = some (ok, job) → c.server.out.bytes <+: ready ++ ack ok
  none    : c.server.pc.acked = .none → c.server.out.bytes <+: ready
  success : ∀ job, c.server.pc.acked = some (true, job) →
    ∃ queuename, Received c.came queuename job ∧ (shouldIgnoreJob job = true ∨ LpExited w queuename job)

/-- **The condition on a step**: where `os.system` returns, the exit code is not 0, or it is 0 and the queue name has no
quote. -/
def EndsPlainly (w : Spooler) (c : Connection) (ev : Event) : Prop :=
  ev = .server .call → ∀ queuename job, c.server.pc = .spoolJob queuename job → shouldIgnoreJob job = false →
    '\x00' ∉ w.line queuename →
      ∃ code, w.sh (w.line queuename) job = .exited code ∧ (code = 0 → '\'' ∉ queuename)

variable {w : Spooler} {c c' : Connection} {queuename job : Str}

/-! ## The status -/

theorem shiftRight_waitStatus (ending : Ending) :
    ((waitStatus ending).shiftRight 8 == 0) = true ↔ ∀ code, ending = .exited code → code = 0 := by
  rw [beq_iff_eq, show (waitStatus ending).shiftRight 8 = waitStatus ending >>> (8 : Nat) from rfl,
    Int.shiftRight_eq_div_pow]
  cases ending with
  | exited code =>
    have hcode : waitStatus (.exited code) / ((2 ^ 8 : Nat) : Int) = code.val := by
      simp only [waitStatus]; omega
    rw [hcode]
    constructor
    · intro h code' heq
      cases heq
      exact Fin.ext (Int.natCast_eq_zero.1 h)
    · intro h
      rw [h code rfl]; rfl
  | signalled sig core =>
    have hlt : waitStatus (.signalled sig core) / ((2 ^ 8 : Nat) : Int) = 0 := by
      have := sig.lt
      cases core <;> simp only [waitStatus] <;> simp <;> omega
    exact iff_of_true hlt (fun code heq => by cases heq)

theorem quote_notMem_iff (queuename : Str) :
    commands (w.line queuename) = some [lpCommand (printerMap queuename) w.file.name] ↔ '\'' ∉ queuename := by
  rw [← quote_mem_printerMap]
  exact ⟨fun h hq => not_commands_lpcmd hq w.file h, fun hq => commands_lpcmd hq w.file⟩

/-- **What the verdict says and what it should**, for a job that is not ignored. -/
theorem verdict_iff (hignore : shouldIgnoreJob job = false) :
    (statusOk w.input queuename job = true → LpExited w queuename job) ↔
      ∃ code, w.sh (w.line queuename) job = .exited code ∧ (code = 0 → '\'' ∉ queuename) := by
  have hstatus : statusOk w.input queuename job = true ↔
      ∀ code, w.sh (w.line queuename) job = .exited code → code = 0 := by
    simp only [statusOk, hignore, Bool.false_or]
    exact shiftRight_waitStatus _
  rw [hstatus, LpExited, quote_notMem_iff]
  cases w.sh (w.line queuename) job with
  | exited code =>
    constructor
    · exact fun h => ⟨code, rfl, fun h0 => (h (fun _ heq => by cases heq; exact h0)).1⟩
    · rintro ⟨code', heq, hq⟩ hzero
      cases heq
      have h0 := hzero code rfl
      exact ⟨hq h0, by rw [h0]⟩
  | signalled sig core =>
    constructor
    · intro h
      have hexit := (h (fun _ heq => by cases heq)).2
      cases hexit
    · rintro ⟨code, heq, -⟩
      cases heq

/-! ## What was received -/

theorem Received.append {came : Str} (h : Received came queuename job) (bytes : Str) :
    Received (came ++ bytes) queuename job := by
  obtain ⟨hlong, jobsize, hparse, hjob, hlen⟩ := h
  refine ⟨by rw [List.length_append]; omega, jobsize, ?_, ?_, hlen⟩
  · rw [List.take_append_of_le_length hlong]; exact hparse
  · have hfits : jobsize.toNat ≤ (came.drop 45).length := by
      rw [← hlen, hjob, List.length_take]; omega
    rw [List.drop_append_of_le_length hlong, List.take_append_of_le_length hfits]
    exact hjob

theorem Received.unique {came queuename' job' : Str} (h : Received came queuename job)
    (h' : Received came queuename' job') : queuename = queuename' := by
  obtain ⟨-, jobsize, hparse, -⟩ := h
  obtain ⟨-, jobsize', hparse', -⟩ := h'
  rw [hparse] at hparse'
  exact (Prod.mk.inj (Except.ok.inj hparse')).1

/-- The invariant: nothing has been taken from what the server has sent. -/
abbrev Keeps (w : Spooler) (c : Connection) : Prop := ServerKeeps w.input c.came [] c.server

theorem keeps_start (w : Spooler) : Keeps w .start := ⟨⟨[], rfl, rfl⟩, rfl⟩

theorem keeps_step (c : Connection) (ev : Event) (c' : Connection) (hc : Keeps w c) (h : c.step w ev = some c') :
    Keeps w c' := by
  cases ev with
  | arrives bytes =>
    obtain ⟨hopen, hc'⟩ := Option.ite_none_left_eq_some.1 h
    cases hc'
    obtain ⟨⟨read, hcame, hread⟩, hsent⟩ := hc
    exact ⟨⟨read, by rw [← hcame, List.append_assoc], hread⟩, hsent⟩
  | hangsUp => cases h; exact ⟨hc.read, hc.sent⟩
  | server io =>
    obtain ⟨e, he, rfl⟩ := Option.map_eq_some_iff.1 h
    exact serverKeeps_step hc he

theorem received_of_job {read left came : Str} (hcame : read ++ left = came) (h : Job queuename job read) :
    Received came queuename job := by
  obtain ⟨hlong, jobsize, hparse, hdrop, hlen⟩ := h.of_append hcame
  exact ⟨hlong, jobsize, hparse, by rw [hdrop, List.take_left' hlen], hlen⟩

/-- **An acknowledgement is for the job that was received.** -/
theorem received_of_acked (hc : Keeps w c) {ok : Bool} (h : c.server.pc.acked = some (ok, job)) :
    ∃ queuename, Received c.came queuename job ∧ ok = statusOk w.input queuename job := by
  obtain ⟨⟨read, hcame, hread⟩, -⟩ := hc
  obtain ⟨queuename, hjob, hok⟩ := job_of_acked hread h
  exact ⟨queuename, received_of_job hcame hjob, hok⟩

/-- **All but the last part of `Truthful`** holds whatever `lp` does. -/
theorem truthful_iff (hc : Keeps w c) : Truthful w c ↔ ∀ queuename job, c.server.pc.acked = some (true, job) →
    Received c.came queuename job → shouldIgnoreJob job = true ∨ LpExited w queuename job := by
  have hsent : ServerSent c.server.out.bytes (.ended c.server.pc.acked) := hc.sent.fails
  constructor
  · intro h queuename job hacked hrecv
    obtain ⟨queuename', hrecv', hverdict⟩ := h.success job hacked
    rw [hrecv.unique hrecv']
    exact hverdict
  · intro h
    refine ⟨?_, ?_, ?_, ?_⟩
    · cases hacked : c.server.pc.acked with
      | none   => rw [hacked] at hsent; exact ⟨true, hsent.trans (List.prefix_append _ _)⟩
      | some a => rw [hacked] at hsent; exact ⟨a.1, hsent⟩
    · intro ok job hacked
      rw [hacked] at hsent; exact hsent
    · intro hacked
      rw [hacked] at hsent; exact hsent
    · intro job hacked
      obtain ⟨queuename, hrecv, -⟩ := received_of_acked hc hacked
      exact ⟨queuename, hrecv, h queuename job hacked hrecv⟩

/-! ## One step -/

theorem raises_eq_false (hraise : w.raises (.spoolJob queuename job) .call = false)
    (hignore : shouldIgnoreJob job = false) : '\x00' ∉ w.line queuename := by
  intro h
  have hcontains : (w.line queuename).contains '\x00' = true := List.contains_iff_mem.2 h
  simp only [Spooler.raises, hignore, hcontains] at hraise
  cases hraise

/-- **The step at which `os.system` returns** keeps the acknowledgement truthful exactly if the command ends plainly. -/
theorem truthful_call (hc' : Keeps w c') (hpc : c.server.pc = .spoolJob queuename job)
    (hraise : w.raises (.spoolJob queuename job) .call = false)
    (hacked : c'.server.pc.acked = some (statusOk w.input queuename job, job))
    (hrecv : Received c'.came queuename job) : Truthful w c' ↔ EndsPlainly w c (.server .call) := by
  rw [truthful_iff hc']
  constructor
  · intro h _ q j hpc' hignore _
    rw [hpc] at hpc'
    cases hpc'
    refine (verdict_iff hignore).1 (fun hstatus => ?_)
    rw [hstatus] at hacked
    rcases h queuename job hacked hrecv with h | h
    · rw [hignore] at h; cases h
    · exact h
  · intro h q j hacked' hrecv'
    rw [hacked, Option.some.injEq, Prod.mk.injEq] at hacked'
    obtain ⟨hstatus, rfl⟩ := hacked'
    rw [hrecv'.unique hrecv]
    cases hignore : shouldIgnoreJob job with
    | true  => exact Or.inl rfl
    | false => exact Or.inr ((verdict_iff hignore).2
        (h rfl queuename job hpc hignore (raises_eq_false hraise hignore)) hstatus)

/-- **A step keeps the acknowledgement truthful** exactly if the command it runs ends plainly. -/
theorem truthful_step (c : Connection) (ev : Event) (c' : Connection) (hc : Keeps w c) (ht : Truthful w c)
    (h : c.step w ev = some c') : Truthful w c' ↔ EndsPlainly w c ev := by
  have hc' := keeps_step c ev c' hc h
  cases ev with
  | arrives bytes =>
    obtain ⟨-, heq⟩ := Option.ite_none_left_eq_some.1 h
    cases heq
    refine iff_of_true ((truthful_iff hc').2 (fun q job hacked hrecv => ?_)) (fun hev => by cases hev)
    obtain ⟨q', hrecv', hverdict⟩ := ht.success job hacked
    rw [hrecv.unique (hrecv'.append bytes)]
    exact hverdict
  | hangsUp =>
    cases h
    exact iff_of_true ((truthful_iff hc').2 ((truthful_iff hc).1 ht)) (fun hev => by cases hev)
  | server io =>
    obtain ⟨e, he, rfl⟩ := Option.map_eq_some_iff.1 h
    rcases acked_step he with ⟨hsame, -⟩ | ⟨hio, queuename, job, hpc, hacked⟩
    · refine iff_of_true ((truthful_iff hc').2 (fun q job hacked => ?_)) (fun hev q job hpc hignore hnul => ?_)
      · exact (truthful_iff hc).1 ht q job (hsame.symm.trans hacked)
      · cases hev
        have hraise : w.raises c.server.pc .call = false := by
          rw [hpc, Spooler.raises, hignore, Bool.eq_false_iff.2 (fun hn => hnul (List.contains_iff_mem.1 hn))]
          rfl
        rw [hraise, if_neg Bool.false_ne_true] at he
        unfold serverStep at he
        rw [hpc] at he
        cases he
        rw [hpc] at hsame
        cases hsame
    · have hraise : w.raises c.server.pc io = false := by
        cases hr : w.raises c.server.pc io with
        | false => rfl
        | true  => rw [if_pos hr] at hio; cases hio
      rw [hraise] at hio
      cases hio
      obtain ⟨⟨read, hcame, hread⟩, -⟩ := hc
      rw [hpc] at hread hraise
      exact truthful_call hc' hpc hraise hacked (received_of_job hcame hread)

/-- **In a run the acknowledgement is truthful** in every state exactly if each command ends plainly. -/
theorem truthful_iff_meets (w : Spooler) (evs : List Event) :
    Runs.Always (Connection.step w) (Truthful w) .start evs ↔ Runs.Meets (Connection.step w) (EndsPlainly w) .start evs :=
  Runs.always_iff_meets_of_invariant keeps_step truthful_step evs (keeps_start w)
    ((truthful_iff (keeps_start w)).2 (fun _ _ h => by cases h))

def killed : Spooler := { file := tmpFile, sh := fun _ _ => .signalled ⟨9, by decide, by decide⟩ false }

def killedRun : List Event :=
  [.arrives (handshake "iprint".toList 1 ++ ['x']), .server (.recv 45), .server (.send 5), .server (.recv 1),
    .server .call, .server (.send 7)]

theorem not_lpExited_killed : ¬ LpExited killed queuename job := fun h => by cases h.2

/-- **A command that was killed** is acknowledged with `SUCCESS`. -/
theorem not_truthful_killed : ¬ ∀ evs, Runs.Always (Connection.step killed) (Truthful killed) .start evs := by
  intro h
  have hrun : (Runs.run (Connection.step killed) .start killedRun).map
      (fun t => (t.server.pc.acked, t.server.out.bytes)) = some (some (true, ['x']), ready ++ ack true) := by decide +kernel
  obtain ⟨t, ht, hacked⟩ := Option.map_eq_some_iff.1 hrun
  obtain ⟨queuename, -, hverdict⟩ := (Runs.Always.reached _ (h _) ht).success ['x'] (Prod.mk.inj hacked).1
  rcases hverdict with hignore | hexit
  · revert hignore; decide
  · exact not_lpExited_killed hexit

end Spool
end Scrapcode
