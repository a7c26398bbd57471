import Mathlib.Data.List.Infix
import Scrapcode.Runs
import Scrapcode.Endpoint
import Scrapcode.SpoolHandshake
/-!
# SpoolJob — a print job from `main` to the acknowledgement

The client's `main` and the server's thread, each a program over its end of the connection, step by step.  Any call of
either may fail, and the network cuts both streams as it likes.  What is fixed is the input: queue, spool file, the
group of the file, and what `lp` returns for a queue and a job.

A program that raises ends with the client, whose socket the system closes, but not with the server: its thread logs the
exception and leaves the socket open, until `main` drops the thread's object for that of another client.

`main` moves the file into `PRINTED` once `spool` returns, and `spool` drops the result of `spool_socket`: so a job
that `lp` refuses, which the server answers with `FAILURE`, is moved as well.  `acknowledged_iff` says for which inputs
a moved file was acknowledged in every run.
-/
namespace Scrapcode
namespace Spool

open ByteText

def ready : Str := "READY".toList

def ack (ok : Bool) : Str := if ok then "SUCCESS".toList else "FAILURE".toList

structure Input where
  queue : Str
  file  : Str
  /-- `finfo[5]`, which is the group of the file. -/
  gid   : Nat
  /-- What `os.system` returns for `lp` on a queue and a job. -/
  lp    : Str → Str → Int

/-! ## The client -/

inductive ClientPc where
  | statSpoolfile
  | connect
  | sendHandshake (rest : Str)
  | recvReply (msg : Str)
  | sendData (rest : Str)
  | shutdownWrite
  | recvAck (msg : Str)
  | shutdown (ok : Bool)
  | rename
  | moved
  | raised
deriving DecidableEq

def ClientPc.isOver : ClientPc → Bool
  | .moved | .raised => true
  | _                => false

def ClientPc.isSending : ClientPc → Bool
  | .sendHandshake _ | .sendData _ => true
  | _                              => false

def ClientPc.isReceiving : ClientPc → Bool
  | .recvReply _ | .recvAck _ => true
  | _                         => false

inductive Io where
  | call
  | fails
  | send (k : Nat)
  | recv (k : Nat)
  -- the server's only: the object of a thread that is over goes, and its socket with it
  | drops
deriving DecidableEq, Repr

abbrev Client := Endpoint Char ClientPc

/-- `_send_fixed_msg` is done at once with an empty file. -/
def sendingData (file : Str) : ClientPc := if file = [] then .shutdownWrite else .sendData file

def clientStep (i : Input) (e : Client) (io : Io) : Option Client :=
  match e.pc, io with
  | .moved, _                     => none
  | .raised, _                    => none
  | _, .fails                     => some (e.closes .raised)
  | .statSpoolfile, .call         => if i.gid = 0 then some (e.closes .raised) else some (e.goes .connect)
  | .connect, .call               => some (e.goes (.sendHandshake (handshake i.queue i.file.length)))
  | .sendHandshake rest, .send k  => e.sends rest k .sendHandshake (.recvReply []) .raised true
  | .recvReply msg, .recv k       =>
    e.receives 5 msg k .recvReply (fun m => if m = ready then some (sendingData i.file) else none) .raised true
  | .sendData rest, .send k       => e.sends rest k .sendData .shutdownWrite .raised true
  | .shutdownWrite, .call         => some (e.closes (.recvAck []))
  | .recvAck msg, .recv k         =>
    e.receives 7 msg k .recvAck (fun m => some (.shutdown (m == ack true))) .raised true
  -- `spool` does not return what `spool_socket` does
  | .shutdown _ok, .call          => some (e.goes .rename)
  | .rename, .call                => some (e.goes .moved)
  | _, _                          => none

/-! ## The server -/

inductive ServerPc where
  | recvHandshake (msg : Str)
  | sendReply (queuename : Str) (jobsize : Int) (rest : Str)
  | recvJob (queuename : Str) (jobsize : Int) (msg : Str)
  | spoolJob (queuename job : Str)
  | sendAck (ok : Bool) (job rest : Str)
  | shutdown (ok : Bool) (job : Str)
  | ended (acked : Option (Bool × Str))
deriving DecidableEq

def ServerPc.isEnded : ServerPc → Bool
  | .ended _ => true
  | _        => false

def ServerPc.isSending : ServerPc → Bool
  | .sendReply _ _ _ | .sendAck _ _ _ => true
  | _                                 => false

def ServerPc.isReceiving : ServerPc → Bool
  | .recvHandshake _ | .recvJob _ _ _ => true
  | _                                 => false

abbrev Server := Endpoint Char ServerPc

def printerMap (queuename : Str) : Str :=
  if queuename = "hp".toList then "iprint".toList
  else if queuename = "P1".toList then "iprint".toList
  else if queuename = "P2".toList then "accounts".toList
  else queuename

def shouldIgnoreJob (job : Str) : Bool := "Cannot get TTY".toList <:+: job

def spoolJob (i : Input) (queuename job : Str) : Bool := (i.lp (printerMap queuename) job).shiftRight 8 == 0

/-- `status_ok` of `run`. -/
def statusOk (i : Input) (queuename job : Str) : Bool := shouldIgnoreJob job || spoolJob i queuename job

/-- The acknowledgement the server has begun to send, and the job it is for. -/
def ServerPc.acked : ServerPc → Option (Bool × Str)
  | .sendAck ok job _ => some (ok, job)
  | .shutdown ok job  => some (ok, job)
  | .ended acked      => acked
  | _                 => none

def handshakeReply (msg : Str) : Option ServerPc :=
  match parseHandshake msg with
  | .ok (queuename, jobsize) => some (.sendReply queuename jobsize ready)
  | .error _                 => none

/-- `_recv_fixed_msg` is done at once with a size below 1. -/
def receivingJob (queuename : Str) (jobsize : Int) : ServerPc :=
  if jobsize.toNat = 0 then .spoolJob queuename [] else .recvJob queuename jobsize []

/-- The call of `lp` that the server makes, with the queue and the job. -/
def ServerPc.lpCall : ServerPc → Io → List (Str × Str)
  | .spoolJob queuename job, .call => if shouldIgnoreJob job then [] else [(printerMap queuename, job)]
  | _, _                           => []

def serverStep (i : Input) (e : Server) (io : Io) : Option Server :=
  match e.pc, io with
  | .ended acked, .drops                     => if e.out.closed then none else some (e.closes (.ended acked))
  | .ended _, _                              => none
  | pc, .fails                               => some (e.goes (.ended pc.acked))
  | .recvHandshake msg, .recv k              =>
    e.receives 45 msg k .recvHandshake handshakeReply (.ended none) false
  | .sendReply queuename jobsize rest, .send k =>
    e.sends rest k (.sendReply queuename jobsize) (receivingJob queuename jobsize) (.ended none) false
  | .recvJob queuename jobsize msg, .recv k  =>
    e.receives jobsize.toNat msg k (.recvJob queuename jobsize) (fun m => some (.spoolJob queuename m)) (.ended none)
      false
  | .spoolJob queuename job, .call           =>
    some (e.goes (.sendAck (statusOk i queuename job) job (ack (statusOk i queuename job))))
  | .sendAck ok job rest, .send k            =>
    e.sends rest k (.sendAck ok job) (.shutdown ok job) (.ended (some (ok, job))) false
  | .shutdown ok job, .call                  => some (e.closes (.ended (some (ok, job))))
  | _, _                                     => none

/-! ## What a step does -/

/-- **The steps of the client**, one rule for each way a call of it ends: what the proofs read off `clientStep`. -/
inductive ClientGoes (i : Input) : Io → Client → Client → Prop where
  | fails {pc : ClientPc} {inp out} (hpc : pc.isOver = false) :
    ClientGoes i .fails ⟨pc, inp, out⟩ ⟨.raised, inp, ⟨out.bytes, true⟩⟩
  | group0 {inp out} (hgid : i.gid = 0) :
    ClientGoes i .call ⟨.statSpoolfile, inp, out⟩ ⟨.raised, inp, ⟨out.bytes, true⟩⟩
  | stat {inp out} (hgid : i.gid ≠ 0) :
    ClientGoes i .call ⟨.statSpoolfile, inp, out⟩ ⟨.connect, inp, out⟩
  | connect {inp out} :
    ClientGoes i .call ⟨.connect, inp, out⟩ ⟨.sendHandshake (handshake i.queue i.file.length), inp, out⟩
  | shutdownWrite {inp out} :
    ClientGoes i .call ⟨.shutdownWrite, inp, out⟩ ⟨.recvAck [], inp, ⟨out.bytes, true⟩⟩
  | shutdown {ok : Bool} {inp out} : ClientGoes i .call ⟨.shutdown ok, inp, out⟩ ⟨.rename, inp, out⟩
  | rename {inp out} : ClientGoes i .call ⟨.rename, inp, out⟩ ⟨.moved, inp, out⟩
  | refused {pc : ClientPc} {inp out} (hpc : pc.isSending = true) :
    ClientGoes i (.send 0) ⟨pc, inp, out⟩ ⟨.raised, inp, ⟨out.bytes, true⟩⟩
  | sendsHandshake {rest : Str} {inp out} (hrest : rest ≠ []) :
    ClientGoes i (.send rest.length) ⟨.sendHandshake rest, inp, out⟩
      ⟨.recvReply [], inp, ⟨out.bytes ++ rest, out.closed⟩⟩
  | sendsSomeHandshake {sent rest : Str} {inp out} (hsent : sent ≠ []) (hrest : rest ≠ []) :
    ClientGoes i (.send sent.length) ⟨.sendHandshake (sent ++ rest), inp, out⟩
      ⟨.sendHandshake rest, inp, ⟨out.bytes ++ sent, out.closed⟩⟩
  | sendsData {rest : Str} {inp out} (hrest : rest ≠ []) :
    ClientGoes i (.send rest.length) ⟨.sendData rest, inp, out⟩
      ⟨.shutdownWrite, inp, ⟨out.bytes ++ rest, out.closed⟩⟩
  | sendsSomeData {sent rest : Str} {inp out} (hsent : sent ≠ []) (hrest : rest ≠ []) :
    ClientGoes i (.send sent.length) ⟨.sendData (sent ++ rest), inp, out⟩
      ⟨.sendData rest, inp, ⟨out.bytes ++ sent, out.closed⟩⟩
  | hungUp {pc : ClientPc} {out} (hpc : pc.isReceiving = true) :
    ClientGoes i (.recv 0) ⟨pc, ⟨[], true⟩, out⟩ ⟨.raised, ⟨[], true⟩, ⟨out.bytes, true⟩⟩
  | getsSomeReply {k} {msg frag left : Str} {closed out} (hfrag : frag ≠ []) (hlen : (msg ++ frag).length < 5) :
    ClientGoes i (.recv k) ⟨.recvReply msg, ⟨frag ++ left, closed⟩, out⟩
      ⟨.recvReply (msg ++ frag), ⟨left, closed⟩, out⟩
  | getsReady {k} {msg frag left : Str} {closed out} (hfrag : frag ≠ []) (hready : msg ++ frag = ready) :
    ClientGoes i (.recv k) ⟨.recvReply msg, ⟨frag ++ left, closed⟩, out⟩ ⟨sendingData i.file, ⟨left, closed⟩, out⟩
  | getsUnready {k} {msg frag left : Str} {closed out}
      (hlen : (msg ++ frag).length = 5) (hready : msg ++ frag ≠ ready) :
    ClientGoes i (.recv k) ⟨.recvReply msg, ⟨frag ++ left, closed⟩, out⟩
      ⟨.raised, ⟨left, closed⟩, ⟨out.bytes, true⟩⟩
  | getsSomeAck {k} {msg frag left : Str} {closed out} (hfrag : frag ≠ []) (hlen : (msg ++ frag).length < 7) :
    ClientGoes i (.recv k) ⟨.recvAck msg, ⟨frag ++ left, closed⟩, out⟩ ⟨.recvAck (msg ++ frag), ⟨left, closed⟩, out⟩
  | getsAck {k} {msg frag left : Str} {closed out} (hlen : (msg ++ frag).length = 7) :
    ClientGoes i (.recv k) ⟨.recvAck msg, ⟨frag ++ left, closed⟩, out⟩
      ⟨.shutdown (msg ++ frag == ack true), ⟨left, closed⟩, out⟩

/-- **The steps of the server**, likewise. -/
inductive ServerGoes (i : Input) : Io → Server → Server → Prop where
  | fails {pc : ServerPc} {inp out} (hpc : pc.isEnded = false) :
    ServerGoes i .fails ⟨pc, inp, out⟩ ⟨.ended pc.acked, inp, out⟩
  | spools {queuename job : Str} {inp out} :
    ServerGoes i .call ⟨.spoolJob queuename job, inp, out⟩
      ⟨.sendAck (statusOk i queuename job) job (ack (statusOk i queuename job)), inp, out⟩
  | shutdown {ok : Bool} {job : Str} {inp out} :
    ServerGoes i .call ⟨.shutdown ok job, inp, out⟩ ⟨.ended (some (ok, job)), inp, ⟨out.bytes, true⟩⟩
  | drops {acked : Option (Bool × Str)} {inp out} (hopen : out.closed = false) :
    ServerGoes i .drops ⟨.ended acked, inp, out⟩ ⟨.ended acked, inp, ⟨out.bytes, true⟩⟩
  | refused {pc : ServerPc} {inp out} (hpc : pc.isSending = true) :
    ServerGoes i (.send 0) ⟨pc, inp, out⟩ ⟨.ended pc.acked, inp, out⟩
  | sendsReply {queuename : Str} {jobsize : Int} {rest : Str} {inp out} (hrest : rest ≠ []) :
    ServerGoes i (.send rest.length) ⟨.sendReply queuename jobsize rest, inp, out⟩
      ⟨receivingJob queuename jobsize, inp, ⟨out.bytes ++ rest, out.closed⟩⟩
  | sendsSomeReply {queuename : Str} {jobsize : Int} {sent rest : Str} {inp out} (hsent : sent ≠ [])
      (hrest : rest ≠ []) :
    ServerGoes i (.send sent.length) ⟨.sendReply queuename jobsize (sent ++ rest), inp, out⟩
      ⟨.sendReply queuename jobsize rest, inp, ⟨out.bytes ++ sent, out.closed⟩⟩
  | sendsAck {ok : Bool} {job rest : Str} {inp out} (hrest : rest ≠ []) :
    ServerGoes i (.send rest.length) ⟨.sendAck ok job rest, inp, out⟩
      ⟨.shutdown ok job, inp, ⟨out.bytes ++ rest, out.closed⟩⟩
  | sendsSomeAck {ok : Bool} {job sent rest : Str} {inp out} (hsent : sent ≠ []) (hrest : rest ≠ []) :
    ServerGoes i (.send sent.length) ⟨.sendAck ok job (sent ++ rest), inp, out⟩
      ⟨.sendAck ok job rest, inp, ⟨out.bytes ++ sent, out.closed⟩⟩
  | hungUp {pc : ServerPc} {out} (hpc : pc.isReceiving = true) :
    ServerGoes i (.recv 0) ⟨pc, ⟨[], true⟩, out⟩ ⟨.ended none, ⟨[], true⟩, out⟩
  | getsSomeHandshake {k} {msg frag left : Str} {closed out} (hfrag : frag ≠ []) (hlen : (msg ++ frag).length < 45) :
    ServerGoes i (.recv k) ⟨.recvHandshake msg, ⟨frag ++ left, closed⟩, out⟩
      ⟨.recvHandshake (msg ++ frag), ⟨left, closed⟩, out⟩
  | getsHandshake {k} {msg frag left queuename : Str} {jobsize : Int} {closed out}
      (hfrag : frag ≠ []) (hlen : (msg ++ frag).length = 45)
      (hparse : parseHandshake (msg ++ frag) = .ok (queuename, jobsize)) :
    ServerGoes i (.recv k) ⟨.recvHandshake msg, ⟨frag ++ left, closed⟩, out⟩
      ⟨.sendReply queuename jobsize ready, ⟨left, closed⟩, out⟩
  | misreads {k} {msg frag left : Str} {closed out}
      (hlen : (msg ++ frag).length = 45) (hparse : ∀ job, parseHandshake (msg ++ frag) ≠ .ok job) :
    ServerGoes i (.recv k) ⟨.recvHandshake msg, ⟨frag ++ left, closed⟩, out⟩ ⟨.ended none, ⟨left, closed⟩, out⟩
  | getsSomeJob {k} {queuename msg frag left : Str} {jobsize : Int} {closed out}
      (hfrag : frag ≠ []) (hlen : (msg ++ frag).length < jobsize.toNat) :
    ServerGoes i (.recv k) ⟨.recvJob queuename jobsize msg, ⟨frag ++ left, closed⟩, out⟩
      ⟨.recvJob queuename jobsize (msg ++ frag), ⟨left, closed⟩, out⟩
  | getsJob {k} {queuename msg frag left : Str} {jobsize : Int} {closed out}
      (hlen : (msg ++ frag).length = jobsize.toNat) :
    ServerGoes i (.recv k) ⟨.recvJob queuename jobsize msg, ⟨frag ++ left, closed⟩, out⟩
      ⟨.spoolJob queuename (msg ++ frag), ⟨left, closed⟩, out⟩

variable {i : Input}

theorem clientStep_recvReply (msg : Str) (inp out : Channel Char) (k : Nat) :
    clientStep i ⟨.recvReply msg, inp, out⟩ (.recv k) =
      Endpoint.receives (⟨.recvReply msg, inp, out⟩ : Client) 5 msg k .recvReply
        (fun m => if m = ready then some (sendingData i.file) else none) .raised true := rfl

theorem clientStep_recvAck (msg : Str) (inp out : Channel Char) (k : Nat) :
    clientStep i ⟨.recvAck msg, inp, out⟩ (.recv k) =
      Endpoint.receives (⟨.recvAck msg, inp, out⟩ : Client) 7 msg k .recvAck
        (fun m => some (.shutdown (m == ack true))) .raised true := rfl

theorem serverStep_recvHandshake (msg : Str) (inp out : Channel Char) (k : Nat) :
    serverStep i ⟨.recvHandshake msg, inp, out⟩ (.recv k) =
      Endpoint.receives (⟨.recvHandshake msg, inp, out⟩ : Server) 45 msg k .recvHandshake handshakeReply
        (.ended none) false := rfl

theorem serverStep_recvJob (queuename : Str) (jobsize : Int) (msg : Str) (inp out : Channel Char) (k : Nat) :
    serverStep i ⟨.recvJob queuename jobsize msg, inp, out⟩ (.recv k) =
      Endpoint.receives (⟨.recvJob queuename jobsize msg, inp, out⟩ : Server) jobsize.toNat msg k
        (.recvJob queuename jobsize) (fun m => some (.spoolJob queuename m)) (.ended none)
        false := rfl

theorem handshakeReply_eq_some {msg : Str} {pc : ServerPc} (h : handshakeReply msg = some pc) :
    ∃ queuename jobsize, parseHandshake msg = .ok (queuename, jobsize) ∧ pc = .sendReply queuename jobsize ready := by
  unfold handshakeReply at h
  split at h
  · rename_i queuename jobsize hp; exact ⟨queuename, jobsize, hp, (Option.some.inj h).symm⟩
  · cases h

theorem clientStep_goes {io : Io} {e e' : Client} (h : clientStep i e io = some e') : ClientGoes i io e e' := by
  obtain ⟨pc, inp, out⟩ := e
  cases io with
  | fails => cases pc <;> first | (cases h; exact .fails rfl) | cases h
  | call =>
    cases pc with
    | statSpoolfile =>
      simp only [clientStep] at h
      by_cases hgid : i.gid = 0
      · rw [if_pos hgid] at h; cases h; exact .group0 hgid
      · rw [if_neg hgid] at h; cases h; exact .stat hgid
    | connect => cases h; exact .connect
    | shutdownWrite => cases h; exact .shutdownWrite
    | shutdown ok => cases h; exact .shutdown
    | rename => cases h; exact .rename
    | _ => cases h
  | send k =>
    cases pc with
    | sendHandshake rest =>
      rcases Endpoint.sends_cases h with ⟨rfl, rfl⟩ | ⟨hrest, rfl, rfl⟩ | ⟨sent, rest', hsent, hrest, rfl, rfl, rfl⟩
      · exact .refused rfl
      · exact .sendsHandshake hrest
      · exact .sendsSomeHandshake hsent hrest
    | sendData rest =>
      rcases Endpoint.sends_cases h with ⟨rfl, rfl⟩ | ⟨hrest, rfl, rfl⟩ | ⟨sent, rest', hsent, hrest, rfl, rfl, rfl⟩
      · exact .refused rfl
      · exact .sendsData hrest
      · exact .sendsSomeData hsent hrest
    | _ => cases h
  | recv k =>
    obtain ⟨bytes, closed⟩ := inp
    cases pc with
    | recvReply msg =>
      rw [clientStep_recvReply] at h
      rcases Endpoint.receives_cases h with ⟨rfl, hinp, rfl⟩ | ⟨frag, left, hfrag, hinp, hcase⟩
      · cases hinp; exact .hungUp rfl
      · cases hinp
        rcases hcase with ⟨hlen, rfl⟩ | ⟨-, pc, hw, rfl⟩ | ⟨hlen, hw, rfl⟩
        · exact .getsSomeReply hfrag hlen
        · obtain ⟨hready, hpc⟩ := Option.ite_none_right_eq_some.1 hw
          cases hpc
          exact .getsReady hfrag hready
        · rw [Bool.or_true]
          exact .getsUnready hlen (fun hready => by rw [if_pos hready] at hw; cases hw)
    | recvAck msg =>
      rw [clientStep_recvAck] at h
      rcases Endpoint.receives_cases h with ⟨rfl, hinp, rfl⟩ | ⟨frag, left, hfrag, hinp, hcase⟩
      · cases hinp; exact .hungUp rfl
      · cases hinp
        rcases hcase with ⟨hlen, rfl⟩ | ⟨hlen, pc, hw, rfl⟩ | ⟨-, hw, -⟩
        · exact .getsSomeAck hfrag hlen
        · cases hw; exact .getsAck hlen
        · cases hw
    | _ => cases h
  | drops => cases pc <;> cases h

/-- The client reads from the front of its stream. -/
theorem clientStep_frag {io : Io} {e e' : Client} (h : clientStep i e io = some e') :
    ∃ frag, e.inp.bytes = frag ++ e'.inp.bytes := by
  cases clientStep_goes h with
  | getsSomeReply hfrag hlen => exact ⟨_, rfl⟩
  | getsReady hfrag hready => exact ⟨_, rfl⟩
  | getsUnready hlen hready => exact ⟨_, rfl⟩
  | getsSomeAck hfrag hlen => exact ⟨_, rfl⟩
  | getsAck hlen => exact ⟨_, rfl⟩
  | _ => exact ⟨[], rfl⟩

theorem serverStep_goes {io : Io} {e e' : Server} (h : serverStep i e io = some e') : ServerGoes i io e e' := by
  obtain ⟨pc, inp, out⟩ := e
  cases io with
  | fails => cases pc <;> first | (cases h; exact .fails rfl) | cases h
  | call =>
    cases pc with
    | spoolJob queuename job => cases h; exact .spools
    | shutdown ok job => cases h; exact .shutdown
    | _ => cases h
  | send k =>
    cases pc with
    | sendReply queuename jobsize rest =>
      rcases Endpoint.sends_cases h with ⟨rfl, rfl⟩ | ⟨hrest, rfl, rfl⟩ | ⟨sent, rest', hsent, hrest, rfl, rfl, rfl⟩
      · exact .refused rfl
      · exact .sendsReply hrest
      · exact .sendsSomeReply hsent hrest
    | sendAck ok job rest =>
      rcases Endpoint.sends_cases h with ⟨rfl, rfl⟩ | ⟨hrest, rfl, rfl⟩ | ⟨sent, rest', hsent, hrest, rfl, rfl, rfl⟩
      · exact .refused rfl
      · exact .sendsAck hrest
      · exact .sendsSomeAck hsent hrest
    | _ => cases h
  | recv k =>
    obtain ⟨bytes, closed⟩ := inp
    cases pc with
    | recvHandshake msg =>
      rw [serverStep_recvHandshake] at h
      rcases Endpoint.receives_cases h with ⟨rfl, hinp, rfl⟩ | ⟨frag, left, hfrag, hinp, hcase⟩
      · cases hinp; exact .hungUp rfl
      · cases hinp
        rcases hcase with ⟨hlen, rfl⟩ | ⟨hlen, pc, hw, rfl⟩ | ⟨hlen, hw, rfl⟩
        · exact .getsSomeHandshake hfrag hlen
        · obtain ⟨queuename, jobsize, hparse, rfl⟩ := handshakeReply_eq_some hw
          exact .getsHandshake hfrag hlen hparse
        · rw [Bool.or_false]
          exact .misreads hlen (fun job hparse => by rw [handshakeReply, hparse] at hw; cases hw)
    | recvJob queuename jobsize msg =>
      rw [serverStep_recvJob] at h
      rcases Endpoint.receives_cases h with ⟨rfl, hinp, rfl⟩ | ⟨frag, left, hfrag, hinp, hcase⟩
      · cases hinp; exact .hungUp rfl
      · cases hinp
        rcases hcase with ⟨hlen, rfl⟩ | ⟨hlen, pc, hw, rfl⟩ | ⟨-, hw, -⟩
        · exact .getsSomeJob hfrag hlen
        · cases hw; exact .getsJob hlen
        · cases hw
    | _ => cases h
  | drops =>
    cases pc with
    | ended acked =>
      obtain ⟨hopen, he⟩ := Option.ite_none_left_eq_some.1 h
      cases he
      exact .drops (Bool.not_eq_true _ ▸ hopen)
    | _ => cases h

/-! ## Both together -/

/-- `heard` is what the client has read, `lpCalls` what the server has called `lp` for. -/
structure Session where
  client   : ClientPc
  server   : ServerPc
  toServer : Channel Char
  toClient : Channel Char
  heard    : Str
  lpCalls  : List (Str × Str)

def Session.start : Session where
  client   := .statSpoolfile
  server   := .recvHandshake []
  toServer := ⟨[], false⟩
  toClient := ⟨[], false⟩
  heard    := []
  lpCalls  := []

/-- After a step of the client, which has read what is missing in its stream. -/
def Session.withClient (s : Session) (e : Client) : Session :=
  { s with
    client   := e.pc
    toClient := e.inp
    toServer := e.out
    heard    := s.heard ++ s.toClient.bytes.take (s.toClient.bytes.length - e.inp.bytes.length) }

theorem Session.withClient_heard {s : Session} {e : Client} {frag : Str} (h : s.toClient.bytes = frag ++ e.inp.bytes) :
    (s.withClient e).heard = s.heard ++ frag := by
  have htake : s.toClient.bytes.take (s.toClient.bytes.length - e.inp.bytes.length) = frag := by
    rw [h, List.length_append, Nat.add_sub_cancel, List.take_left' rfl]
  rw [Session.withClient, htake]

def Session.withServer (s : Session) (io : Io) (e : Server) : Session :=
  { s with server := e.pc, toServer := e.inp, toClient := e.out, lpCalls := s.lpCalls ++ s.server.lpCall io }

inductive Move where
  | client (io : Io)
  | server (io : Io)
deriving DecidableEq, Repr

def Session.step (i : Input) (s : Session) : Move → Option Session
  | .client io => (clientStep i ⟨s.client, s.toClient, s.toServer⟩ io).map s.withClient
  | .server io => (serverStep i ⟨s.server, s.toServer, s.toClient⟩ io).map (s.withServer io)

/-- **A file that was moved into `PRINTED` was acknowledged**: the last seven bytes that the client has read are
`SUCCESS`, and the job they are about has exactly the bytes of the file. -/
def Acknowledged (i : Input) (s : Session) : Prop :=
  s.client = .moved → s.heard = ready ++ "SUCCESS".toList ∧ ∃ ok, s.server.acked = some (ok, i.file)

/-- What the client sends in a run that is not cut short. -/
def wire (i : Input) : Str := handshake i.queue i.file.length ++ i.file

/-- **The inputs for which a moved file is always acknowledged**: `main` stops at the group 0, or the server never gets
a whole job, or the job is the file and it is ignored or `lp` takes it. -/
def AcksFile (i : Input) : Prop :=
  i.gid = 0 ∨ ∀ queuename jobsize, parseHandshake ((wire i).take 45) = .ok (queuename, jobsize) →
    jobsize.toNat ≤ ((wire i).drop 45).length →
      ((wire i).drop 45).take jobsize.toNat = i.file ∧ statusOk i queuename i.file = true

/-! ## The invariant -/

/-- A job the server has read whole, under the handshake it came with. -/
structure Job (queuename job read : Str) : Prop where
  parsed : ∃ jobsize, parseHandshake (read.take 45) = .ok (queuename, jobsize) ∧ job.length = jobsize.toNat
  long   : 45 ≤ read.length
  bytes  : job = read.drop 45

/-- What the server has read, by its control state. -/
def ServerRead (i : Input) (read : Str) : ServerPc → Prop
  | .recvHandshake msg             => read = msg
  | .sendReply queuename jobsize _ => parseHandshake read = .ok (queuename, jobsize) ∧ read.length = 45
  | .recvJob queuename jobsize msg =>
    parseHandshake (read.take 45) = .ok (queuename, jobsize) ∧ 45 ≤ read.length ∧ msg = read.drop 45
  | .spoolJob queuename job        => Job queuename job read
  | .sendAck ok job _              => ∃ queuename, Job queuename job read ∧ ok = statusOk i queuename job
  | .shutdown ok job               => ∃ queuename, Job queuename job read ∧ ok = statusOk i queuename job
  | .ended acked                   => ∀ ok job, acked = some (ok, job) →
      ∃ queuename, Job queuename job read ∧ ok = statusOk i queuename job

/-- What the client has still to send. -/
def Unsent (i : Input) (left : Str) : ClientPc → Prop
  | .statSpoolfile | .connect => left = wire i
  | .sendHandshake rest       => left = rest ++ i.file
  | .recvReply _              => left = i.file
  | .sendData rest            => left = rest
  | .raised                   => True
  | _                         => left = []

def ServerSent (sent : Str) : ServerPc → Prop
  | .recvHandshake _                => sent = []
  | .sendReply _ _ rest             => sent ++ rest = ready
  | .recvJob _ _ _ | .spoolJob _ _  => sent = ready
  | .sendAck ok _ rest              => sent ++ rest = ready ++ ack ok
  | .shutdown ok _                  => sent = ready ++ ack ok
  | .ended (some (ok, _))           => sent <+: ready ++ ack ok
  | .ended none                     => sent <+: ready

/-- **What the server alone keeps**: of the bytes that came it has read what it is at, and with those that `got` has
already it has sent what it is at. -/
structure ServerKeeps (i : Input) (came got : Str) (e : Server) : Prop where
  read : ∃ read, read ++ e.inp.bytes = came ∧ ServerRead i read e.pc
  sent : ServerSent (got ++ e.out.bytes) e.pc

def ClientGot (got : Str) : ClientPc → Prop
  | .statSpoolfile | .connect | .sendHandshake _ => got = []
  | .recvReply msg                               => got = msg
  | .sendData _ | .shutdownWrite                 => got = ready
  | .recvAck msg                                 => got = ready ++ msg
  | .raised                                      => True
  | _                                            => got.length = 12

structure Agrees (i : Input) (s : Session) : Prop where
  up   : ∃ read left, read ++ s.toServer.bytes ++ left = wire i ∧ ServerRead i read s.server ∧ Unsent i left s.client
  down : ClientGot s.heard s.client ∧ ServerSent (s.heard ++ s.toClient.bytes) s.server
  gid  : s.client = .statSpoolfile ∨ s.client = .raised ∨ i.gid ≠ 0

/-- The job is cut out of all that comes. -/
theorem Job.of_append {queuename job read rest came : Str} (h : Job queuename job read) (hcame : read ++ rest = came) :
    45 ≤ came.length ∧ ∃ jobsize, parseHandshake (came.take 45) = .ok (queuename, jobsize) ∧
      came.drop 45 = job ++ rest ∧ job.length = jobsize.toNat := by
  obtain ⟨⟨jobsize, hparse, hlen⟩, hlong, hjob⟩ := h
  refine ⟨by rw [← hcame, List.length_append]; omega, jobsize, ?_, ?_, hlen⟩
  · rw [← hcame, List.take_append_of_le_length hlong]; exact hparse
  · rw [← hcame, List.drop_append_of_le_length hlong, hjob]

variable {s s' : Session}

theorem agrees_start (i : Input) : Agrees i .start where
  up   := ⟨[], wire i, rfl, rfl, rfl⟩
  down := ⟨rfl, rfl⟩
  gid  := Or.inl rfl

/-- **Whoever has got 12 bytes from the server has got an acknowledgement.** -/
theorem acked_of_length {sent : Str} {pc : ServerPc} (h : ServerSent sent pc) (hlen : 12 ≤ sent.length) :
    ∃ ok job, pc.acked = some (ok, job) := by
  have hready : ready.length = 5 := rfl
  cases pc with
  | recvHandshake msg => rw [show sent = [] from h] at hlen; cases hlen
  | sendReply q n rest =>
    have := congrArg List.length (show sent ++ rest = ready from h)
    rw [List.length_append] at this; omega
  | recvJob q n msg => rw [show sent = ready from h] at hlen; omega
  | spoolJob q job => rw [show sent = ready from h] at hlen; omega
  | sendAck ok job rest => exact ⟨ok, job, rfl⟩
  | shutdown ok job => exact ⟨ok, job, rfl⟩
  | ended acked =>
    cases acked with
    | some a => exact ⟨a.1, a.2, rfl⟩
    | none   => have := List.IsPrefix.length_le (show sent <+: ready from h); omega

/-- An acknowledgement is about the job the server has read. -/
theorem job_of_acked {read : Str} {pc : ServerPc} (h : ServerRead i read pc) {ok : Bool} {job : Str}
    (ha : pc.acked = some (ok, job)) : ∃ queuename, Job queuename job read ∧ ok = statusOk i queuename job := by
  cases pc with
  | sendAck ok' job' rest => cases ha; exact h
  | shutdown ok' job' => cases ha; exact h
  | ended acked => exact h ok job ha
  | recvHandshake msg => cases ha
  | sendReply q n rest => cases ha
  | recvJob q n msg => cases ha
  | spoolJob q job => cases ha

/-- The server fails: what it has sent is a part of what it was sending. -/
theorem ServerSent.fails {sent : Str} {pc : ServerPc} (h : ServerSent sent pc) :
    ServerSent sent (.ended pc.acked) := by
  cases pc with
  | recvHandshake msg => rw [show sent = [] from h]; exact List.nil_prefix
  | sendReply q n rest => exact ⟨rest, h⟩
  | recvJob q n msg => rw [show sent = ready from h]; exact List.prefix_refl _
  | spoolJob q job => rw [show sent = ready from h]; exact List.prefix_refl _
  | sendAck ok job rest => exact ⟨rest, h⟩
  | shutdown ok job => rw [show sent = ready ++ ack ok from h]; exact List.prefix_refl _
  | ended acked => exact h

theorem length_ready_ack (ok : Bool) : (ready ++ ack ok).length = 12 := by cases ok <;> rfl

/-- **A client that has read 12 bytes** has read the acknowledgement. -/
theorem Agrees.heard_eq (h : Agrees i s) (hlen : s.heard.length = 12) :
    ∃ ok job, s.server.acked = some (ok, job) ∧ s.heard = ready ++ ack ok := by
  obtain ⟨-, hsent⟩ := h.down
  obtain ⟨ok, job, hacked⟩ := acked_of_length hsent (by rw [List.length_append]; omega)
  have hprefix : s.heard <+: ready ++ ack ok := by
    refine (List.prefix_append s.heard s.toClient.bytes).trans ?_
    have hended := hsent.fails
    rwa [hacked] at hended
  exact ⟨ok, job, hacked, hprefix.eq_of_length (hlen.trans (length_ready_ack ok).symm)⟩

theorem Agrees.acknowledged (h : Agrees i s) (hi : AcksFile i) : Acknowledged i s := by
  intro hmoved
  have hgot := h.down.1
  rw [hmoved] at hgot
  obtain ⟨ok, job, hacked, hheard⟩ := h.heard_eq hgot
  obtain ⟨read, left, hwire, hread, -⟩ := h.up
  obtain ⟨queuename, hjob, hok⟩ := job_of_acked hread hacked
  have hgid : i.gid ≠ 0 := by
    rcases h.gid with hg | hg | hg
    · rw [hmoved] at hg; cases hg
    · rw [hmoved] at hg; cases hg
    · exact hg
  rw [List.append_assoc] at hwire
  obtain ⟨-, jobsize, hparse, htail, hlen⟩ := hjob.of_append hwire
  rcases hi with hi | hi
  · exact absurd hi hgid
  · obtain ⟨hfile, hstatus⟩ := hi queuename jobsize hparse (by rw [htail, List.length_append]; omega)
    rw [htail, List.take_left' hlen] at hfile
    subst hfile
    rw [hstatus] at hok
    subst hok
    exact ⟨hheard, true, hacked⟩

/-! ## One step -/

theorem ServerRead.fails {read : Str} {pc : ServerPc} (h : ServerRead i read pc) :
    ServerRead i read (.ended pc.acked) := fun _ _ ha => job_of_acked h ha

/-- **The client's side of a step**: `left` goes from the client to the stream, and what it reads from the stream to
it. -/
theorem Agrees.client (h : Agrees i s) {e : Client}
    (hup : ∀ left, Unsent i left s.client →
      ∃ left', s.toServer.bytes ++ left = e.out.bytes ++ left' ∧ Unsent i left' e.pc)
    (hdown : ∃ frag, s.toClient.bytes = frag ++ e.inp.bytes ∧
      (ClientGot s.heard s.client → ClientGot (s.heard ++ frag) e.pc))
    (hgid : e.pc = .raised ∨ i.gid ≠ 0) : Agrees i (s.withClient e) := by
  obtain ⟨read, left, hwire, hread, hleft⟩ := h.up
  obtain ⟨hgot, hsent⟩ := h.down
  obtain ⟨left', heq, hleft'⟩ := hup left hleft
  obtain ⟨frag, hfrag, hgot'⟩ := hdown
  refine ⟨⟨read, left', ?_, hread, hleft'⟩, ?_, Or.inr hgid⟩
  · rw [List.append_assoc] at hwire ⊢
    show read ++ (e.out.bytes ++ left') = _
    rw [← heq]
    exact hwire
  · show ClientGot (s.withClient e).heard e.pc ∧ ServerSent ((s.withClient e).heard ++ e.inp.bytes) s.server
    rw [Session.withClient_heard hfrag]
    exact ⟨hgot' hgot, by rw [List.append_assoc, ← hfrag]; exact hsent⟩

theorem Agrees.started (hs : Agrees i s) (h₁ : s.client ≠ .statSpoolfile) (h₂ : s.client ≠ .raised) : i.gid ≠ 0 := by
  rcases hs.gid with h | h | h
  · exact absurd h h₁
  · exact absurd h h₂
  · exact h

theorem unsent_sendingData (i : Input) : Unsent i i.file (sendingData i.file) := by
  unfold sendingData
  by_cases h : i.file = []
  · rw [if_pos h, h]; rfl
  · rw [if_neg h]; rfl

theorem clientGot_sendingData (file : Str) : ClientGot ready (sendingData file) := by
  unfold sendingData
  by_cases h : file = []
  · rw [if_pos h]; rfl
  · rw [if_neg h]; rfl

theorem agrees_client {io : Io} {e : Client} (hs : Agrees i s)
    (h : clientStep i ⟨s.client, s.toClient, s.toServer⟩ io = some e) : Agrees i (s.withClient e) := by
  have hgoes := clientStep_goes h
  have hgid := hs.started
  obtain ⟨client, server, toServer, toClient, heard, lpCalls⟩ := s
  -- a call that is neither `send` nor `recv` leaves the bytes of both streams as they are
  have hcall : ∀ {pc : ClientPc} {closed : Bool}, (∀ left, Unsent i left client → Unsent i left pc) →
      (ClientGot heard client → ClientGot heard pc) → (pc = .raised ∨ i.gid ≠ 0) →
      Agrees i (Session.withClient ⟨client, server, toServer, toClient, heard, lpCalls⟩
        ⟨pc, toClient, ⟨toServer.bytes, closed⟩⟩) :=
    fun hl hg hgid => hs.client (fun left h => ⟨left, rfl, hl left h⟩)
      ⟨[], rfl, fun h => by rw [List.append_nil]; exact hg h⟩ hgid
  -- a `send` takes `sent` from what is left
  have hsend : ∀ {pc : ClientPc} {sent : Str},
      (∀ left, Unsent i left client → ∃ left', left = sent ++ left' ∧ Unsent i left' pc) →
      (ClientGot heard client → ClientGot heard pc) → i.gid ≠ 0 →
      Agrees i (Session.withClient ⟨client, server, toServer, toClient, heard, lpCalls⟩
        ⟨pc, toClient, ⟨toServer.bytes ++ sent, toServer.closed⟩⟩) := by
    intro pc sent hl hg hgid
    refine hs.client (fun left h => ?_) ⟨[], rfl, fun h => by rw [List.append_nil]; exact hg h⟩ (Or.inr hgid)
    obtain ⟨left', rfl, hleft'⟩ := hl left h
    exact ⟨left', (List.append_assoc _ _ _).symm, hleft'⟩
  cases hgoes with
  | fails hpc => exact hcall (fun _ _ => trivial) (fun _ => trivial) (Or.inl rfl)
  | group0 hzero => exact hcall (fun _ _ => trivial) (fun _ => trivial) (Or.inl rfl)
  | stat hpos => exact hcall (fun _ hl => hl) (fun hg => hg) (Or.inr hpos)
  | connect => exact hcall (fun _ hl => hl) (fun hg => hg) (Or.inr (hgid (nomatch ·) (nomatch ·)))
  | shutdownWrite =>
    exact hcall (fun _ hl => hl) (fun hg => (show heard = ready from hg).trans (List.append_nil _).symm)
      (Or.inr (hgid (nomatch ·) (nomatch ·)))
  | shutdown => exact hcall (fun _ hl => hl) (fun hg => hg) (Or.inr (hgid (nomatch ·) (nomatch ·)))
  | rename => exact hcall (fun _ hl => hl) (fun hg => hg) (Or.inr (hgid (nomatch ·) (nomatch ·)))
  | refused hpc => exact hcall (fun _ _ => trivial) (fun _ => trivial) (Or.inl rfl)
  | sendsHandshake hrest =>
    exact hsend (fun _ hl => ⟨i.file, hl, rfl⟩) (fun hg => hg) (hgid (nomatch ·) (nomatch ·))
  | sendsSomeHandshake hsent hrest =>
    exact hsend (fun _ hl => ⟨_, hl.trans (List.append_assoc _ _ _), rfl⟩) (fun hg => hg)
      (hgid (nomatch ·) (nomatch ·))
  | sendsData hrest =>
    exact hsend (fun _ hl => ⟨[], hl.trans (List.append_nil _).symm, rfl⟩) (fun hg => hg)
      (hgid (nomatch ·) (nomatch ·))
  | sendsSomeData hsent hrest => exact hsend (fun _ hl => ⟨_, hl, rfl⟩) (fun hg => hg) (hgid (nomatch ·) (nomatch ·))
  | hungUp hpc => exact hcall (fun _ _ => trivial) (fun _ => trivial) (Or.inl rfl)
  | getsSomeReply hfrag hlen =>
    exact hs.client (fun left hl => ⟨left, rfl, hl⟩) ⟨_, rfl, fun hg => congrArg (· ++ _) hg⟩
      (Or.inr (hgid (nomatch ·) (nomatch ·)))
  | @getsReady _ msg frag _ _ _ hfrag hready =>
    refine hs.client (fun left hl => ⟨left, rfl, ?_⟩) ⟨_, rfl, fun hg => ?_⟩ (Or.inr (hgid (nomatch ·) (nomatch ·)))
    · rw [show left = i.file from hl]; exact unsent_sendingData i
    · rw [show heard = msg from hg, hready]; exact clientGot_sendingData i.file
  | getsUnready hlen hready =>
    exact hs.client (fun left _ => ⟨left, rfl, trivial⟩) ⟨_, rfl, fun _ => trivial⟩ (Or.inl rfl)
  | getsSomeAck hfrag hlen =>
    exact hs.client (fun left hl => ⟨left, rfl, hl⟩)
      ⟨_, rfl, fun hg => (congrArg (· ++ _) hg).trans (List.append_assoc _ _ _)⟩ (Or.inr (hgid (nomatch ·) (nomatch ·)))
  | @getsAck _ msg frag _ _ _ hlen =>
    refine hs.client (fun left hl => ⟨left, rfl, hl⟩) ⟨_, rfl, fun hg => ?_⟩ (Or.inr (hgid (nomatch ·) (nomatch ·)))
    show (heard ++ frag).length = 12
    rw [show heard = ready ++ msg from hg, List.append_assoc, List.length_append, hlen]
    rfl

/-! ## The server's step -/

variable {came got : Str} {e e' : Server}

theorem acked_of_isReceiving {pc : ServerPc} (h : pc.isReceiving = true) : pc.acked = none := by
  cases pc <;> first | rfl | cases h

theorem serverRead_receivingJob {read queuename : Str} {jobsize : Int}
    (h : parseHandshake read = .ok (queuename, jobsize)) (hlen : read.length = 45) :
    ServerRead i read (receivingJob queuename jobsize) := by
  have htake : read.take 45 = read := List.take_of_length_le (Nat.le_of_eq hlen)
  have hdrop : read.drop 45 = [] := List.drop_of_length_le (Nat.le_of_eq hlen)
  unfold receivingJob
  by_cases h0 : jobsize.toNat = 0
  · rw [if_pos h0]
    exact ⟨⟨jobsize, by rw [htake]; exact h, h0.symm⟩, Nat.le_of_eq hlen.symm, hdrop.symm⟩
  · rw [if_neg h0]
    exact ⟨by rw [htake]; exact h, Nat.le_of_eq hlen.symm, hdrop.symm⟩

theorem serverSent_receivingJob (queuename : Str) (jobsize : Int) :
    ServerSent ready (receivingJob queuename jobsize) := by
  unfold receivingJob
  by_cases h0 : jobsize.toNat = 0
  · rw [if_pos h0]; rfl
  · rw [if_neg h0]; rfl

/-- **The server's step**, whatever the client does. -/
theorem serverKeeps_step {io : Io} (hs : ServerKeeps i came got e) (h : serverStep i e io = some e') :
    ServerKeeps i came got e' := by
  obtain ⟨⟨read, hcame, hread⟩, hsent⟩ := hs
  cases serverStep_goes h with
  | fails hpc => exact ⟨⟨read, hcame, hread.fails⟩, hsent.fails⟩
  | spools => exact ⟨⟨read, hcame, _, hread, rfl⟩, congrArg (· ++ _) hsent⟩
  | shutdown => exact ⟨⟨read, hcame, hread.fails⟩, hsent.fails⟩
  | drops hopen => exact ⟨⟨read, hcame, hread⟩, hsent⟩
  | refused hpc => exact ⟨⟨read, hcame, hread.fails⟩, hsent.fails⟩
  | sendsReply hrest =>
    refine ⟨⟨read, hcame, serverRead_receivingJob hread.1 hread.2⟩, ?_⟩
    rw [← List.append_assoc, show _ = ready from hsent]
    exact serverSent_receivingJob _ _
  | sendsSomeReply hsome hrest =>
    refine ⟨⟨read, hcame, hread⟩, Eq.trans ?_ hsent⟩
    simp only [List.append_assoc]
  | sendsAck hrest => exact ⟨⟨read, hcame, hread⟩, (List.append_assoc _ _ _).symm.trans hsent⟩
  | sendsSomeAck hsome hrest =>
    refine ⟨⟨read, hcame, hread⟩, Eq.trans ?_ hsent⟩
    simp only [List.append_assoc]
  | hungUp hpc =>
    rw [← acked_of_isReceiving hpc]
    exact ⟨⟨read, hcame, hread.fails⟩, hsent.fails⟩
  | @getsSomeHandshake _ msg frag left _ _ hfrag hlen =>
    exact ⟨⟨read ++ frag, (List.append_assoc _ _ _).trans hcame, congrArg (· ++ frag) hread⟩, hsent⟩
  | @getsHandshake _ msg frag left _ _ _ _ hfrag hlen hparse =>
    have hread : read = msg := hread
    subst hread
    refine ⟨⟨read ++ frag, (List.append_assoc _ _ _).trans hcame, hparse, hlen⟩, ?_⟩
    rw [ServerSent, show _ = [] from hsent, List.nil_append]
  | @misreads _ msg frag left _ _ hlen hparse =>
    exact ⟨⟨read ++ frag, (List.append_assoc _ _ _).trans hcame, fun _ _ ha => by cases ha⟩, hsent.fails⟩
  | @getsSomeJob _ _ msg frag left _ _ _ hfrag hlen =>
    obtain ⟨hparse, hlong, hmsg⟩ := hread
    refine ⟨⟨read ++ frag, (List.append_assoc _ _ _).trans hcame, ?_, ?_, ?_⟩, hsent⟩
    · rw [List.take_append_of_le_length hlong]; exact hparse
    · rw [List.length_append]; omega
    · rw [List.drop_append_of_le_length hlong, hmsg]
  | @getsJob _ _ msg frag left jobsize _ _ hlen =>
    obtain ⟨hparse, hlong, hmsg⟩ := hread
    refine ⟨⟨read ++ frag, (List.append_assoc _ _ _).trans hcame, ⟨jobsize, ?_, hlen⟩, ?_, ?_⟩, hsent⟩
    · rw [List.take_append_of_le_length hlong]; exact hparse
    · rw [List.length_append]; omega
    · rw [List.drop_append_of_le_length hlong, hmsg]

theorem acked_receivingJob (queuename : Str) (jobsize : Int) : (receivingJob queuename jobsize).acked = none := by
  unfold receivingJob
  split_ifs <;> rfl

/-- **An acknowledgement begins** after `os.system`, and in no other step; nor is `lp` called in another one. -/
theorem acked_step {io : Io} (h : serverStep i e io = some e') :
    (e'.pc.acked = e.pc.acked ∧ e.pc.lpCall io = []) ∨ io = .call ∧ ∃ queuename job, e.pc = .spoolJob queuename job ∧
      e'.pc.acked = some (statusOk i queuename job, job) := by
  cases serverStep_goes h with
  | spools => exact Or.inr ⟨rfl, _, _, rfl, rfl⟩
  | @fails pc inp out hpc => exact Or.inl ⟨rfl, by cases pc <;> rfl⟩
  | @refused pc inp out hpc => exact Or.inl ⟨rfl, by cases pc <;> rfl⟩
  | @hungUp pc out hpc => exact Or.inl ⟨(acked_of_isReceiving hpc).symm, by cases pc <;> rfl⟩
  | sendsReply hrest => exact Or.inl ⟨acked_receivingJob _ _, rfl⟩
  | _ => exact Or.inl ⟨rfl, rfl⟩

theorem agrees_server {io : Io} {e : Server} (hs : Agrees i s)
    (h : serverStep i ⟨s.server, s.toServer, s.toClient⟩ io = some e) : Agrees i (s.withServer io e) := by
  obtain ⟨read, left, hwire, hread, hleft⟩ := hs.up
  obtain ⟨hgot, hsent⟩ := hs.down
  obtain ⟨⟨read', hread', hr⟩, hsent'⟩ := serverKeeps_step ⟨⟨read, rfl, hread⟩, hsent⟩ h
  exact ⟨⟨read', left, by rw [← hwire, ← hread']; rfl, hr, hleft⟩, ⟨hgot, hsent'⟩, hs.gid⟩

theorem agrees_step (s : Session) (m : Move) (s' : Session) (hs : Agrees i s) (h : s.step i m = some s') :
    Agrees i s' := by
  cases m with
  | client io =>
    obtain ⟨e, he, rfl⟩ := Option.map_eq_some_iff.1 h
    exact agrees_client hs he
  | server io =>
    obtain ⟨e, he, rfl⟩ := Option.map_eq_some_iff.1 h
    exact agrees_server hs he

/-! ## A run without a failure -/

/-- The moves of a run in which each message goes through in one piece; the server takes `n` bytes for the job. -/
def smoothRun (i : Input) (n : Nat) : List Move :=
  [.client .call, .client .call, .client (.send (handshake i.queue i.file.length).length), .server (.recv 45),
    .server (.send 5), .client (.recv 5)] ++
  ((if i.file = [] then [] else [.client (.send i.file.length)]) ++ (.client .call ::
  ((if n = 0 then [] else [.server (.recv n)]) ++
  [.server .call, .server (.send 7), .client (.recv 7), .client .call, .client .call])))

variable {queuename job : Str} {jobsize : Int}

theorem step_client {e : Client} {io : Io} (h : clientStep i ⟨s.client, s.toClient, s.toServer⟩ io = some e) :
    s.step i (.client io) = some (s.withClient e) := by
  simp only [Session.step, h, Option.map_some]

theorem step_server {e : Server} {io : Io} (h : serverStep i ⟨s.server, s.toServer, s.toClient⟩ io = some e) :
    s.step i (.server io) = some (s.withServer io e) := by
  simp only [Session.step, h, Option.map_some]

/-- The handshake message, which the client sends in one piece. -/
theorem step_send_handshake (hne : handshake i.queue i.file.length ≠ []) :
    Session.step i
      ⟨.sendHandshake (handshake i.queue i.file.length), .recvHandshake [], ⟨[], false⟩, ⟨[], false⟩, [], []⟩
      (.client (.send (handshake i.queue i.file.length).length)) =
      some ⟨.recvReply [], .recvHandshake [], ⟨handshake i.queue i.file.length, false⟩, ⟨[], false⟩, [], []⟩ := by
  refine step_client (e := ⟨.recvReply [], ⟨[], false⟩, ⟨handshake i.queue i.file.length, false⟩⟩) ?_
  exact Endpoint.sends_whole hne

/-- Its first 45 bytes, which the server takes and parses. -/
theorem step_recv_handshake {sent : Str} (hlen : 45 ≤ sent.length)
    (hparse : parseHandshake (sent.take 45) = .ok (queuename, jobsize)) :
    Session.step i ⟨.recvReply [], .recvHandshake [], ⟨sent, false⟩, ⟨[], false⟩, [], []⟩ (.server (.recv 45)) =
      some ⟨.recvReply [], .sendReply queuename jobsize ready, ⟨sent.drop 45, false⟩, ⟨[], false⟩, [], []⟩ := by
  have hreply : handshakeReply (sent.take 45) = some (.sendReply queuename jobsize ready) := by
    simp only [handshakeReply, hparse]
  have hlen' : (sent.take 45).length = 45 := by rw [List.length_take]; omega
  have hbytes : (Channel.mk sent false).bytes = sent.take 45 ++ sent.drop 45 := (List.take_append_drop 45 sent).symm
  refine step_server (e := ⟨.sendReply queuename jobsize ready, ⟨sent.drop 45, false⟩, ⟨[], false⟩⟩) ?_
  exact Endpoint.receives_whole (e := (⟨.recvHandshake [], ⟨sent, false⟩, ⟨[], false⟩⟩ : Server))
    handshakeReply (by decide) hbytes hlen' hreply

theorem step_recv_ready (server : ServerPc) (left : Channel Char) :
    Session.step i ⟨.recvReply [], server, left, ⟨ready, false⟩, [], []⟩ (.client (.recv 5)) =
      some ⟨sendingData i.file, server, left, ⟨[], false⟩, ready, []⟩ := by
  have hbytes : (Channel.mk ready false).bytes = ready ++ [] := (List.append_nil ready).symm
  refine step_client (e := ⟨sendingData i.file, ⟨[], false⟩, left⟩) ?_
  exact Endpoint.receives_whole (e := (⟨.recvReply [], ⟨ready, false⟩, left⟩ : Client))
    (fun m => if m = ready then some (sendingData i.file) else none) (by decide) hbytes rfl (if_pos rfl)

theorem run_handshake (hgid : i.gid ≠ 0) (hparse : parseHandshake ((wire i).take 45) = .ok (queuename, jobsize)) :
    Runs.run (Session.step i) .start [.client .call, .client .call,
      .client (.send (handshake i.queue i.file.length).length), .server (.recv 45), .server (.send 5),
      .client (.recv 5)] = some ⟨sendingData i.file, receivingJob queuename jobsize,
        ⟨(handshake i.queue i.file.length).drop 45, false⟩, ⟨[], false⟩, ready, []⟩ := by
  have hlen : 45 ≤ (handshake i.queue i.file.length).length := by rw [length_handshake]; omega
  have hne : handshake i.queue i.file.length ≠ [] := fun h => by rw [h] at hlen; cases hlen
  have hhead : (wire i).take 45 = (handshake i.queue i.file.length).take 45 := List.take_append_of_le_length hlen
  rw [hhead] at hparse
  have h₁ : Session.step i .start (.client .call) =
      some ⟨.connect, .recvHandshake [], ⟨[], false⟩, ⟨[], false⟩, [], []⟩ := by
    refine step_client (e := ⟨.connect, ⟨[], false⟩, ⟨[], false⟩⟩) ?_
    simp only [clientStep, Session.start, if_neg hgid]; rfl
  have h₂ : Session.step i ⟨.connect, .recvHandshake [], ⟨[], false⟩, ⟨[], false⟩, [], []⟩ (.client .call) =
      some ⟨.sendHandshake (handshake i.queue i.file.length), .recvHandshake [], ⟨[], false⟩, ⟨[], false⟩, [],
        []⟩ := rfl
  have h₅ : Session.step i ⟨.recvReply [], .sendReply queuename jobsize ready,
      ⟨(handshake i.queue i.file.length).drop 45, false⟩, ⟨[], false⟩, [], []⟩ (.server (.send 5)) =
      some ⟨.recvReply [], receivingJob queuename jobsize, ⟨(handshake i.queue i.file.length).drop 45, false⟩,
        ⟨ready, false⟩, [], []⟩ := rfl
  rw [Runs.run_cons_of_step h₁, Runs.run_cons_of_step h₂, Runs.run_cons_of_step (step_send_handshake hne),
    Runs.run_cons_of_step (step_recv_handshake hlen hparse), Runs.run_cons_of_step h₅,
    Runs.run_cons_of_step (step_recv_ready _ _)]
  rfl

theorem run_data (server : ServerPc) (bytes : Str) : Runs.run (Session.step i)
    ⟨sendingData i.file, server, ⟨bytes, false⟩, ⟨[], false⟩, ready, []⟩
    (if i.file = [] then [] else [.client (.send i.file.length)]) =
      some ⟨.shutdownWrite, server, ⟨bytes ++ i.file, false⟩, ⟨[], false⟩, ready, []⟩ := by
  unfold sendingData
  by_cases h : i.file = []
  · rw [if_pos h, if_pos h, h, List.append_nil]; rfl
  · rw [if_neg h, if_neg h]
    have h₁ : Session.step i ⟨.sendData i.file, server, ⟨bytes, false⟩, ⟨[], false⟩, ready, []⟩
        (.client (.send i.file.length)) =
        some ⟨.shutdownWrite, server, ⟨bytes ++ i.file, false⟩, ⟨[], false⟩, ready, []⟩ := by
      refine step_client (e := ⟨.shutdownWrite, ⟨[], false⟩, ⟨bytes ++ i.file, false⟩⟩) ?_
      exact Endpoint.sends_whole h
    rw [Runs.run_cons_of_step h₁]; rfl

theorem run_job {left : Str} (hlen : job.length = jobsize.toNat) : Runs.run (Session.step i)
    ⟨.recvAck [], receivingJob queuename jobsize, ⟨job ++ left, true⟩, ⟨[], false⟩, ready, []⟩
    (if jobsize.toNat = 0 then [] else [.server (.recv jobsize.toNat)]) =
      some ⟨.recvAck [], .spoolJob queuename job, ⟨left, true⟩, ⟨[], false⟩, ready, []⟩ := by
  unfold receivingJob
  by_cases h : jobsize.toNat = 0
  · have hnil : job = [] := List.length_eq_zero_iff.1 (hlen.trans h)
    rw [if_pos h, if_pos h, hnil, List.nil_append]; rfl
  · rw [if_neg h, if_neg h]
    have h₁ : Session.step i
        ⟨.recvAck [], .recvJob queuename jobsize [], ⟨job ++ left, true⟩, ⟨[], false⟩, ready, []⟩
        (.server (.recv jobsize.toNat)) =
        some ⟨.recvAck [], .spoolJob queuename job, ⟨left, true⟩, ⟨[], false⟩, ready, []⟩ := by
      refine step_server (e := ⟨.spoolJob queuename job, ⟨left, true⟩, ⟨[], false⟩⟩) ?_
      exact Endpoint.receives_whole (e := (⟨.recvJob queuename jobsize [], ⟨job ++ left, true⟩, ⟨[], false⟩⟩ : Server))
        (fun m => some (.spoolJob queuename m)) h rfl hlen rfl
    rw [Runs.run_cons_of_step h₁]; rfl

theorem run_ack (i : Input) (queuename job left : Str) : ∃ t, Runs.run (Session.step i)
    ⟨.recvAck [], .spoolJob queuename job, ⟨left, true⟩, ⟨[], false⟩, ready, []⟩
    [.server .call, .server (.send 7), .client (.recv 7), .client .call, .client .call] = some t ∧
      t.client = .moved ∧ t.heard = ready ++ ack (statusOk i queuename job) ∧
      t.server.acked = some (statusOk i queuename job, job) := by
  have h₁ : Session.step i ⟨.recvAck [], .spoolJob queuename job, ⟨left, true⟩, ⟨[], false⟩, ready, []⟩
      (.server .call) = some ⟨.recvAck [], .sendAck (statusOk i queuename job) job (ack (statusOk i queuename job)),
        ⟨left, true⟩, ⟨[], false⟩, ready, ServerPc.lpCall (.spoolJob queuename job) .call⟩ := rfl
  rw [Runs.run_cons_of_step h₁]
  generalize ServerPc.lpCall (.spoolJob queuename job) .call = calls
  cases statusOk i queuename job <;> exact ⟨_, rfl, rfl, rfl, rfl⟩

/-- **An input for which a moved file is not always acknowledged** has a run that moves it. -/
theorem exists_run_moved (hgid : i.gid ≠ 0) (hparse : parseHandshake ((wire i).take 45) = .ok (queuename, jobsize))
    (hlen : jobsize.toNat ≤ ((wire i).drop 45).length) :
    ∃ t, Runs.run (Session.step i) .start (smoothRun i jobsize.toNat) = some t ∧ t.client = .moved ∧
      t.heard = ready ++ ack (statusOk i queuename (((wire i).drop 45).take jobsize.toNat)) ∧
      t.server.acked = some (statusOk i queuename (((wire i).drop 45).take jobsize.toNat),
        ((wire i).drop 45).take jobsize.toNat) := by
  have hhs : 45 ≤ (handshake i.queue i.file.length).length := by rw [length_handshake]; omega
  have htail : (handshake i.queue i.file.length).drop 45 ++ i.file =
      ((wire i).drop 45).take jobsize.toNat ++ ((wire i).drop 45).drop jobsize.toNat := by
    rw [List.take_append_drop]; exact (List.drop_append_of_le_length hhs).symm
  have hdata := run_data (i := i) (receivingJob queuename jobsize) ((handshake i.queue i.file.length).drop 45)
  rw [htail] at hdata
  have hjob : (((wire i).drop 45).take jobsize.toNat).length = jobsize.toNat := by rw [List.length_take]; omega
  obtain ⟨t, hack, hmoved, hacked⟩ := run_ack i queuename (((wire i).drop 45).take jobsize.toNat)
    (((wire i).drop 45).drop jobsize.toNat)
  refine ⟨t, ?_, hmoved, hacked⟩
  unfold smoothRun
  refine Runs.run_append_of (run_handshake hgid hparse) (Runs.run_append_of hdata ?_)
  have h₁ : Session.step i ⟨.shutdownWrite, receivingJob queuename jobsize,
      ⟨((wire i).drop 45).take jobsize.toNat ++ ((wire i).drop 45).drop jobsize.toNat, false⟩, ⟨[], false⟩, ready, []⟩
      (.client .call) = some ⟨.recvAck [], receivingJob queuename jobsize,
        ⟨((wire i).drop 45).take jobsize.toNat ++ ((wire i).drop 45).drop jobsize.toNat, true⟩, ⟨[], false⟩, ready,
        []⟩ := rfl
  rw [Runs.run_cons_of_step h₁]
  exact Runs.run_append_of (run_job hjob) hack

theorem acknowledged_always (hi : AcksFile i) (ms : List Move) :
    Runs.Always (Session.step i) (Acknowledged i) .start ms :=
  Runs.always_of_invariant (fun _ h => h.acknowledged hi) agrees_step ms (agrees_start i)

theorem ack_eq_success {ok : Bool} : ready ++ ack ok = ready ++ "SUCCESS".toList ↔ ok = true := by
  cases ok <;> decide

theorem acksFile_of_always (h : ∀ ms, Runs.Always (Session.step i) (Acknowledged i) .start ms) : AcksFile i := by
  by_cases hgid : i.gid = 0
  · exact Or.inl hgid
  · refine Or.inr (fun queuename jobsize hparse hlen => ?_)
    obtain ⟨t, hrun, hmoved, hheard, hacked⟩ := exists_run_moved hgid hparse hlen
    obtain ⟨hsuccess, ok, hok⟩ := Runs.Always.reached _ (h _) hrun hmoved
    rw [hacked, Option.some.injEq, Prod.mk.injEq] at hok
    obtain ⟨-, hfile⟩ := hok
    rw [hfile] at hheard
    exact ⟨hfile, ack_eq_success.1 (hheard.symm.trans hsuccess)⟩

/-- **A moved file is acknowledged in every run** exactly for the inputs of `AcksFile`. -/
theorem acknowledged_iff (i : Input) :
    (∀ ms, Runs.Always (Session.step i) (Acknowledged i) .start ms) ↔ AcksFile i :=
  ⟨acksFile_of_always, fun hi ms => acknowledged_always hi ms⟩

/-- A file of one byte for the queue `iprint`, which `lp` refuses with exit code 1. -/
def refused : Input := { queue := "iprint".toList, file := ['x'], gid := 1, lp := fun _ _ => 256 }

/-- **A file that `lp` refused is moved**: the server answers `FAILURE`. -/
theorem not_acknowledged_refused : ¬ ∀ ms, Runs.Always (Session.step refused) (Acknowledged refused) .start ms := by
  intro h
  have hparse : parseHandshake ((wire refused).take 45) = .ok ("iprint".toList, 1) := by decide
  obtain ⟨t, hrun, hmoved, hheard, -⟩ := exists_run_moved (i := refused) (by decide) hparse (by decide)
  obtain ⟨hsuccess, -⟩ := Runs.Always.reached _ (h _) hrun hmoved
  rw [hheard, ack_eq_success] at hsuccess
  revert hsuccess
  decide

end Spool
end Scrapcode
