import Scrapcode.Machines
import Scrapcode.TryBlocks
/-!
# TryMacros — the TRY macros, expanded

What the macros of `sigjmp_escape_hdr_try.h` leave for the compiler, and a machine for it.  A TRY block is a C block with
three locals; the address of its `sigjmp_buf` is its place on the stack of such blocks, so a block that is left frees
its address for the next one.  A `sigjmp_buf` holds what is left to do where `sigsetjmp` was called; `siglongjmp` to a
block that is no longer on the stack, or to null, is undefined (`.wrong`).
-/
namespace Scrapcode
namespace Try

variable {α σ φ : Type}

/-! ## The expansion -/

inductive CStmt (α σ φ : Type) where
  | skip
  | basic (a : α)
  | seq (s t : CStmt α σ φ)
  | ite (b : σ → Bool) (s t : CStmt α σ φ)
  | ret
  | call (f : φ)
  | doAJump (jumpval : Int)
  | testReThrow
  /-- A block with the locals `_save_exception_stack = TEST_exception_stack`, `_local_sigjmp_buf`, `_do_rethrow = 0`. -/
  | block (s : CStmt α σ φ)
  | ifSigsetjmp (s t : CStmt α σ φ)
  | setStackLocal
  | setStackSave
  | setDoRethrow
  | ifDoRethrow (s : CStmt α σ φ)

/-- `TEST_END_TRY` after the brace. -/
def endTry : CStmt α σ φ := .seq (.ifDoRethrow .testReThrow) .setStackSave

def Stmt.expand : Stmt α σ φ → CStmt α σ φ
  | .skip           => .skip
  | .basic a        => .basic a
  | .seq s t        => .seq s.expand t.expand
  | .ite b s t      => .ite b s.expand t.expand
  | .throw jumpval  => .doAJump jumpval
  | .ret            => .ret
  | .call f         => .call f
  | .tryCatch s t   =>
    .block (.seq (.ifSigsetjmp (.seq .setStackLocal s.expand) (.seq .setStackSave t.expand)) endTry)
  | .tryFinally s t =>
    .block (.seq (.ifSigsetjmp (.seq .setStackLocal s.expand) .setDoRethrow)
      (.seq (.seq .setStackSave t.expand) endTry))

/-! ## The machine -/

inductive Frame (α σ φ : Type) where
  | next (s : CStmt α σ φ)
  | endBlock
  | caller

structure SigjmpBuf (α σ φ : Type) where
  zero    : CStmt α σ φ
  nonzero : CStmt α σ φ
  frames  : List (Frame α σ φ)

structure Block (α σ φ : Type) where
  save      : Option Nat
  doRethrow : Bool
  buf       : Option (SigjmpBuf α σ φ)

structure Config (α σ φ : Type) where
  code           : CStmt α σ φ
  frames         : List (Frame α σ φ)
  blocks         : List (Block α σ φ)
  exceptionStack : Option Nat
  state          : σ
  trace          : List α

inductive End where
  | normal
  | returned
  | errorExit (status : Int)
  | wrong
deriving DecidableEq, Repr

/-- How a program ended, with `TEST_exception_stack`, the state and the basic statements that were executed. -/
structure Final (α σ : Type) where
  how            : End
  exceptionStack : Option Nat
  state          : σ
  trace          : List α

abbrev CState (α σ φ : Type) := Machines.State (Config α σ φ) (Final α σ)

def Config.ended (c : Config α σ φ) (how : End) : CState α σ φ := .ended ⟨how, c.exceptionStack, c.state, c.trace⟩

/-- `sigsetjmp` returns the value given to `siglongjmp`, and 1 for 0. -/
def siglongjmp (c : Config α σ φ) (env : Nat) (val : Int) : CState α σ φ :=
  if env < c.blocks.length then
    match c.blocks.drop (c.blocks.length - (env + 1)) with
    | [] => c.ended .wrong
    | b :: bs =>
      match b.buf with
      | none     => c.ended .wrong
      | some buf => .running { c with
          code   := if (if val = 0 then 1 else val) = 0 then buf.zero else buf.nonzero
          frames := buf.frames
          blocks := b :: bs }
  else c.ended .wrong

def doAJump (c : Config α σ φ) (jumpval : Int) : CState α σ φ :=
  match c.exceptionStack with
  | some env => siglongjmp c env jumpval
  | none     => c.ended .wrong

def testReThrow (c : Config α σ φ) : CState α σ φ :=
  match c.exceptionStack with
  | some env => siglongjmp c env 1
  | none     => c.ended (.errorExit 1)

def step (effect : α → σ → σ) (body : φ → CStmt α σ φ) (c : Config α σ φ) : CState α σ φ :=
  match c.code, c.frames, c.blocks with
  | .skip, [], _                  => c.ended .normal
  | .skip, .next s :: k, _        => .running { c with code := s, frames := k }
  | .skip, .endBlock :: k, _      => .running { c with frames := k, blocks := c.blocks.tail }
  | .skip, .caller :: k, _        => .running { c with frames := k }
  | .ret, [], _                   => c.ended .returned
  | .ret, .next _ :: k, _         => .running { c with frames := k }
  | .ret, .endBlock :: k, _       => .running { c with frames := k, blocks := c.blocks.tail }
  | .ret, .caller :: k, _         => .running { c with code := .skip, frames := k }
  | .basic a, _, _                => .running { c with code := .skip, state := effect a c.state, trace := c.trace ++ [a] }
  | .seq s t, k, _                => .running { c with code := s, frames := .next t :: k }
  | .ite b s t, _, _              => .running { c with code := if b c.state then s else t }
  | .call f, k, _                 => .running { c with code := body f, frames := .caller :: k }
  | .doAJump jumpval, _, _        => doAJump c jumpval
  | .testReThrow, _, _            => testReThrow c
  | .block s, k, bs               => .running { c with
      code := s, frames := .endBlock :: k, blocks := ⟨c.exceptionStack, false, none⟩ :: bs }
  | .ifSigsetjmp s t, k, b :: bs  => .running { c with code := s, blocks := { b with buf := some ⟨s, t, k⟩ } :: bs }
  | .setStackLocal, _, _ :: bs    => .running { c with code := .skip, exceptionStack := some bs.length }
  | .setStackSave, _, b :: _      => .running { c with code := .skip, exceptionStack := b.save }
  | .setDoRethrow, _, b :: bs     => .running { c with code := .skip, blocks := { b with doRethrow := true } :: bs }
  | .ifDoRethrow s, _, b :: _     => .running { c with code := if b.doRethrow then s else .skip }
  | _, _, []                      => c.ended .wrong

/-! ## What the macros have to do -/

/-- `TEST_exception_stack` on entry: null, or a block that is on the stack with its `sigjmp_buf` set. -/
def Entry (blocks : List (Block α σ φ)) (p : Option Nat) : Prop :=
  ∀ env, p = some env → env < blocks.length ∧
    ∃ b bs buf, blocks.drop (blocks.length - (env + 1)) = b :: bs ∧ b.buf = some buf

/-- Where a throw goes: to the nonzero branch of the `sigsetjmp` of the block at `TEST_exception_stack`. -/
def Landing (blocks : List (Block α σ φ)) (p : Option Nat) (st : σ) (tr : List α) (t : CState α σ φ) : Prop :=
  ∃ env b bs buf, p = some env ∧ env < blocks.length ∧ blocks.drop (blocks.length - (env + 1)) = b :: bs ∧
    b.buf = some buf ∧ t = .running ⟨buf.nonzero, buf.frames, b :: bs, p, st, tr⟩

/-- **What a machine state has to be when the structured meaning is `r`.**  On a normal end and on a return the blocks and
`TEST_exception_stack` are as they were on entry. -/
def Matches (frames : List (Frame α σ φ)) (blocks : List (Block α σ φ)) (p : Option Nat) (r : Result α σ)
    (t : CState α σ φ) : Prop :=
  match r.out with
  | .normal   => t = .running ⟨.skip, frames, blocks, p, r.state, r.trace⟩
  | .returned => t = .running ⟨.ret, frames, blocks, p, r.state, r.trace⟩
  | .thrown   => Landing blocks p r.state r.trace t
  | .uncaught => t = .ended ⟨.errorExit 1, none, r.state, r.trace⟩
  | .wrong    => ∃ q, t = .ended ⟨.wrong, q, r.state, r.trace⟩
  | .cut      => ∃ c, t = .running c ∧ c.state = r.state ∧ c.trace = r.trace

end Try
end Scrapcode
