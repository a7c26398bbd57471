import Scrapcode.TryMacros
/-!
# TryCorrect — the macros implement structured exceptions

The simulation is by induction on the depth of calls and the statement, for any continuation, any blocks around it and
any `TEST_exception_stack` on entry (`simulates`).  A block's body runs with the block on the stack and its own address
in `TEST_exception_stack`; whatever the body does, if it comes back or throws, it is that block that is found again.
-/
namespace Scrapcode
namespace Try

open Machines

variable {α σ φ : Type} {effect : α → σ → σ} {body : φ → Stmt α σ φ}

def expandAll (body : φ → Stmt α σ φ) (f : φ) : CStmt α σ φ := (body f).expand

/-- The machine comes to a state that matches the structured meaning; where that was cut off, after `n` steps or more. -/
def Simulates (effect : α → σ → σ) (body : φ → Stmt α σ φ) (n : Nat) (c : Config α σ φ) (frames : List (Frame α σ φ))
    (blocks : List (Block α σ φ)) (p : Option Nat) (r : Result α σ) : Prop :=
  ∃ t, Reaches (step effect (expandAll body)) (if r.out = .cut then n else 0) c t ∧ Matches frames blocks p r t

variable {n : Nat} {c c' : Config α σ φ} {frames : List (Frame α σ φ)} {blocks : List (Block α σ φ)} {p : Option Nat}
  {r : Result α σ} {st : σ} {tr : List α} {b : Block α σ φ}

theorem Simulates.after {m : Nat} (h : Simulates effect body n c' frames blocks p r)
    (hsteps : steps (step effect (expandAll body)) m (.running c) = .running c') :
    Simulates effect body n c frames blocks p r := by
  obtain ⟨t, ht, hm⟩ := h
  exact ⟨t, (Reaches.of_steps hsteps).then ht, hm⟩

theorem Simulates.of_steps {m : Nat} {t : CState α σ φ} (hout : r.out ≠ .cut)
    (hsteps : steps (step effect (expandAll body)) m (.running c) = t) (ht : Matches frames blocks p r t) :
    Simulates effect body n c frames blocks p r :=
  ⟨t, by rw [if_neg hout]; exact (Reaches.of_steps hsteps).mono (Nat.zero_le m), ht⟩

/-- A result that is not a normal end matches the same states with more to do next. -/
theorem Matches.next {s : CStmt α σ φ} {t : CState α σ φ} (h : Matches (.next s :: frames) blocks p r t)
    (hn : r.out ≠ .normal) : ∃ m t', steps (step effect (expandAll body)) m t = t' ∧ Matches frames blocks p r t' := by
  unfold Matches at h ⊢
  cases hr : r.out with
  | normal   => exact absurd hr hn
  | returned => rw [hr] at h; exact ⟨1, _, by rw [h]; rfl, rfl⟩
  | thrown   => rw [hr] at h; exact ⟨0, t, rfl, h⟩
  | uncaught => rw [hr] at h; exact ⟨0, t, rfl, h⟩
  | wrong    => rw [hr] at h; exact ⟨0, t, rfl, h⟩
  | cut      => rw [hr] at h; exact ⟨0, t, rfl, h⟩

/-- A throw that leaves a block lands where it would without it. -/
theorem Landing.tail {t : CState α σ φ} (h : Landing (b :: blocks) p st tr t) (hp : Entry blocks p) :
    Landing blocks p st tr t := by
  obtain ⟨env, b', bs, buf, rfl, -, hdrop, hbuf, ht⟩ := h
  obtain ⟨hlt, -⟩ := hp env rfl
  refine ⟨env, b', bs, buf, rfl, hlt, ?_, hbuf, ht⟩
  rw [List.length_cons, show blocks.length + 1 - (env + 1) = blocks.length - (env + 1) + 1 by omega,
    List.drop_succ_cons] at hdrop
  exact hdrop

theorem Matches.endBlock {t : CState α σ φ} (hp : Entry blocks p)
    (h : Matches (.endBlock :: frames) (b :: blocks) p r t) :
    ∃ m t', steps (step effect (expandAll body)) m t = t' ∧ Matches frames blocks p r t' := by
  unfold Matches at h ⊢
  cases hr : r.out with
  | normal   => rw [hr] at h; exact ⟨1, _, by rw [h]; rfl, rfl⟩
  | returned => rw [hr] at h; exact ⟨1, _, by rw [h]; rfl, rfl⟩
  | thrown   => rw [hr] at h; exact ⟨0, t, rfl, h.tail hp⟩
  | uncaught => rw [hr] at h; exact ⟨0, t, rfl, h⟩
  | wrong    => rw [hr] at h; exact ⟨0, t, rfl, h⟩
  | cut      => rw [hr] at h; exact ⟨0, t, rfl, h⟩

theorem Simulates.more {frames' : List (Frame α σ φ)} {blocks' : List (Block α σ φ)} {q : Option Nat}
    (h : Simulates effect body n c frames' blocks' q r)
    (hm : ∀ t, Matches frames' blocks' q r t →
      ∃ m t', steps (step effect (expandAll body)) m t = t' ∧ Matches frames blocks p r t') :
    Simulates effect body n c frames blocks p r := by
  obtain ⟨t, ⟨k, hk, ht⟩, hmt⟩ := h
  obtain ⟨m, t', hsteps, hmt'⟩ := hm t hmt
  exact ⟨t', ⟨k + m, Nat.le_trans hk (Nat.le_add_right k m), by rw [steps_add, ht, hsteps]⟩, hmt'⟩

/-! ## A block -/

theorem Entry.cons (hp : Entry blocks p) (b : Block α σ φ) : Entry (b :: blocks) p := by
  intro env henv
  obtain ⟨hlt, b', bs, buf, hdrop, hbuf⟩ := hp env henv
  refine ⟨Nat.lt_succ_of_lt hlt, b', bs, buf, ?_, hbuf⟩
  rw [List.length_cons, show blocks.length + 1 - (env + 1) = blocks.length - (env + 1) + 1 by omega,
    List.drop_succ_cons]
  exact hdrop

/-- A block whose `sigsetjmp` was called may be the one at `TEST_exception_stack`. -/
theorem entry_self {buf : SigjmpBuf α σ φ} (hb : b.buf = some buf) :
    Entry (b :: blocks) (some blocks.length) := by
  intro env henv
  cases henv
  exact ⟨Nat.lt_succ_self _, b, blocks, buf, by rw [List.length_cons, Nat.sub_self]; rfl, hb⟩

theorem landing_self {buf : SigjmpBuf α σ φ} (hb : b.buf = some buf) {t : CState α σ φ}
    (h : Landing (b :: blocks) (some blocks.length) st tr t) :
    t = .running ⟨buf.nonzero, buf.frames, b :: blocks, some blocks.length, st, tr⟩ := by
  obtain ⟨env, b', bs, buf', henv, -, hdrop, hbuf, ht⟩ := h
  cases henv
  rw [List.length_cons, Nat.sub_self] at hdrop
  cases hdrop
  rw [hb] at hbuf
  cases hbuf
  exact ht

theorem siglongjmp_landing (hp : Entry blocks p) {env : Nat} (henv : p = some env) (s : CStmt α σ φ) (v : Int) :
    Landing blocks p st tr (siglongjmp ⟨s, frames, blocks, p, st, tr⟩ env v) := by
  obtain ⟨hlt, b, bs, buf, hdrop, hbuf⟩ := hp env henv
  have hv : (if v = 0 then (1 : Int) else v) ≠ 0 := by split <;> omega
  refine ⟨env, b, bs, buf, henv, hlt, hdrop, hbuf, ?_⟩
  simp only [siglongjmp, if_pos hlt, hdrop, hbuf, if_neg hv]

/-- `TEST_END_TRY`: a block that is not to throw on is left with the saved `TEST_exception_stack`. -/
theorem simulates_endTry (hb : b.doRethrow = false) (hsave : b.save = p) (hout : r.out = .normal) {q : Option Nat} :
    Simulates effect body n ⟨endTry, .endBlock :: frames, b :: blocks, q, r.state, r.trace⟩ frames blocks p r := by
  have hsteps : steps (step effect (expandAll body)) 5
      (.running ⟨endTry, .endBlock :: frames, b :: blocks, q, r.state, r.trace⟩) =
      .running ⟨.skip, frames, blocks, p, r.state, r.trace⟩ := by
    obtain ⟨save, doRethrow, buf⟩ := b
    cases hb; cases hsave
    rfl
  refine Simulates.of_steps (by rw [hout]; exact (nomatch ·)) hsteps ?_
  unfold Matches; rw [hout]

/-- `TEST_END_TRY` of a block that has to throw on. -/
theorem simulates_endTry_rethrow (hp : Entry blocks p) (hb : b.doRethrow = true) (hout : r.out = .normal) :
    Simulates effect body n ⟨endTry, .endBlock :: frames, b :: blocks, p, r.state, r.trace⟩ frames blocks p
      (r.rethrown p.isSome) := by
  have hsteps : steps (step effect (expandAll body)) 3
      (.running ⟨endTry, .endBlock :: frames, b :: blocks, p, r.state, r.trace⟩) =
      testReThrow ⟨.testReThrow, .next .setStackSave :: .endBlock :: frames, b :: blocks, p, r.state, r.trace⟩ := by
    obtain ⟨save, doRethrow, buf⟩ := b
    cases hb
    rfl
  have hr : r.rethrown p.isSome = { r with out := if p.isSome then .thrown else .uncaught } := if_pos hout
  rw [hr]
  cases hpc : p with
  | none =>
    subst hpc
    exact Simulates.of_steps (nomatch ·) hsteps rfl
  | some env =>
    rw [← hpc]
    refine Simulates.of_steps (by rw [hpc]; exact (nomatch ·)) hsteps ?_
    have hland : Landing (b :: blocks) p r.state r.trace (siglongjmp
        ⟨.testReThrow, .next .setStackSave :: .endBlock :: frames, b :: blocks, p, r.state, r.trace⟩ env 1) :=
      siglongjmp_landing (hp.cons b) hpc .testReThrow 1
    unfold Matches testReThrow
    simp only [hpc, Option.isSome_some, if_true]
    rw [hpc] at hland hp
    exact hland.tail hp

/-! ## What follows what -/

variable {frames' : List (Frame α σ φ)} {blocks' : List (Block α σ φ)} {q : Option Nat} {r' : Result α σ}
  {buf : SigjmpBuf α σ φ}

theorem Simulates.seq (h : Simulates effect body n c frames' blocks' q r) (hr : r.out = .normal)
    (h' : Simulates effect body n ⟨.skip, frames', blocks', q, r.state, r.trace⟩ frames blocks p r') :
    Simulates effect body n c frames blocks p r' := by
  obtain ⟨t, ht, hm⟩ := h
  obtain ⟨t', ht', hm'⟩ := h'
  unfold Matches at hm
  rw [hr] at hm
  rw [show t = _ from hm] at ht
  exact ⟨t', ht.then ht', hm'⟩

/-- After a throw it goes on in the other branch of the block's `sigsetjmp`. -/
theorem Simulates.landed (h : Simulates effect body n c frames' (b :: blocks) (some blocks.length) r)
    (hr : r.out = .thrown) (hb : b.buf = some buf)
    (h' : Simulates effect body n ⟨buf.nonzero, buf.frames, b :: blocks, some blocks.length, r.state, r.trace⟩
      frames blocks p r') : Simulates effect body n c frames blocks p r' := by
  obtain ⟨t, ht, hm⟩ := h
  obtain ⟨t', ht', hm'⟩ := h'
  unfold Matches at hm
  rw [hr] at hm
  rw [landing_self hb hm] at ht
  exact ⟨t', ht.then ht', hm'⟩

/-- What ends the program, or is cut off, is not changed by what is around it. -/
theorem Simulates.stopped (h : Simulates effect body n c frames' blocks' q r) (hn : r.out ≠ .normal)
    (hret : r.out ≠ .returned) (ht : r.out ≠ .thrown) : Simulates effect body n c frames blocks p r := by
  refine h.more (fun t hm => ⟨0, t, rfl, ?_⟩)
  unfold Matches at hm ⊢
  cases hr : r.out with
  | normal   => exact absurd hr hn
  | returned => exact absurd hr hret
  | thrown   => exact absurd hr ht
  | uncaught => rw [hr] at hm; exact hm
  | wrong    => rw [hr] at hm; exact hm
  | cut      => rw [hr] at hm; exact hm

/-- **A handler or a finally part that is left** takes the block with it, as `TEST_END_TRY` does. -/
theorem Simulates.leave (h : Simulates effect body n c (.next endTry :: .endBlock :: frames) (b :: blocks) p r)
    (hp : Entry blocks p) (hb : b.doRethrow = false) (hsave : b.save = p) :
    Simulates effect body n c frames blocks p r := by
  by_cases hr : r.out = .normal
  · exact h.seq hr ((simulates_endTry hb hsave hr).after (m := 1) rfl)
  · exact (h.more (fun t ht => ht.next hr)).more (fun t ht => ht.endBlock hp)

theorem Simulates.leaveRethrow (h : Simulates effect body n c (.next endTry :: .endBlock :: frames) (b :: blocks) p r)
    (hp : Entry blocks p) (hb : b.doRethrow = true) :
    Simulates effect body n c frames blocks p (r.rethrown p.isSome) := by
  by_cases hr : r.out = .normal
  · exact h.seq hr ((simulates_endTry_rethrow hp hb hr).after (m := 1) rfl)
  · have hsame : r.rethrown p.isSome = r := if_neg hr
    rw [hsame]
    exact (h.more (fun t ht => ht.next hr)).more (fun t ht => ht.endBlock hp)

/-! ## The simulation -/

theorem simulates_tryCatch {s t : Stmt α σ φ} {r q : Result α σ} (hp : Entry blocks p)
    (hs : ∀ frames blocks' p, Entry blocks' p → p.isSome = true →
      Simulates effect body n ⟨s.expand, frames, blocks', p, st, tr⟩ frames blocks' p r)
    (ht : ∀ frames blocks', Entry blocks' p →
      Simulates effect body n ⟨t.expand, frames, blocks', p, r.state, r.trace⟩ frames blocks' p q)
    (hr : r.out ≠ .returned) : Simulates effect body n ⟨(Stmt.tryCatch s t).expand, frames, blocks, p, st, tr⟩
      frames blocks p (if r.out = .thrown then q else r) := by
  let buf : SigjmpBuf α σ φ :=
    ⟨.seq .setStackLocal s.expand, .seq .setStackSave t.expand, .next endTry :: .endBlock :: frames⟩
  let b : Block α σ φ := ⟨p, false, some buf⟩
  have henter : steps (step effect (expandAll body)) 6
      (.running ⟨(Stmt.tryCatch s t).expand, frames, blocks, p, st, tr⟩) =
      .running ⟨s.expand, .next endTry :: .endBlock :: frames, b :: blocks, some blocks.length, st, tr⟩ := rfl
  have hbody := (hs (.next endTry :: .endBlock :: frames) (b :: blocks) (some blocks.length) (entry_self rfl) rfl).after
    henter
  by_cases hthrown : r.out = .thrown
  · rw [if_pos hthrown]
    have hhandler : steps (step effect (expandAll body)) 3
        (.running ⟨buf.nonzero, buf.frames, b :: blocks, some blocks.length, r.state, r.trace⟩) =
        .running ⟨t.expand, .next endTry :: .endBlock :: frames, b :: blocks, p, r.state, r.trace⟩ := rfl
    have hleave := (ht (.next endTry :: .endBlock :: frames) (b :: blocks) (hp.cons b)).leave hp rfl rfl
    exact hbody.landed hthrown rfl (hleave.after hhandler)
  · rw [if_neg hthrown]
    by_cases hn : r.out = .normal
    · exact hbody.seq hn ((simulates_endTry (b := b) rfl rfl hn).after (m := 1) rfl)
    · exact hbody.stopped hn hr hthrown

theorem simulates_tryFinally {s t : Stmt α σ φ} {r q : Result α σ} (hp : Entry blocks p)
    (hs : ∀ frames blocks' p, Entry blocks' p → p.isSome = true →
      Simulates effect body n ⟨s.expand, frames, blocks', p, st, tr⟩ frames blocks' p r)
    (ht : ∀ frames blocks', Entry blocks' p →
      Simulates effect body n ⟨t.expand, frames, blocks', p, r.state, r.trace⟩ frames blocks' p q)
    (hr : r.out ≠ .returned) : Simulates effect body n ⟨(Stmt.tryFinally s t).expand, frames, blocks, p, st, tr⟩
      frames blocks p (if r.out = .normal then q else if r.out = .thrown then q.rethrown p.isSome else r) := by
  let final : CStmt α σ φ := .seq (.seq .setStackSave t.expand) endTry
  let buf : SigjmpBuf α σ φ := ⟨.seq .setStackLocal s.expand, .setDoRethrow, .next final :: .endBlock :: frames⟩
  let b : Block α σ φ := ⟨p, false, some buf⟩
  have henter : steps (step effect (expandAll body)) 6
      (.running ⟨(Stmt.tryFinally s t).expand, frames, blocks, p, st, tr⟩) =
      .running ⟨s.expand, .next final :: .endBlock :: frames, b :: blocks, some blocks.length, st, tr⟩ := rfl
  have hbody := (hs (.next final :: .endBlock :: frames) (b :: blocks) (some blocks.length) (entry_self rfl) rfl).after
    henter
  -- the finally part, as far as it is the same for both values of `_do_rethrow`
  have hfinal : ∀ doRethrow : Bool, steps (step effect (expandAll body)) 5
      (.running ⟨.skip, .next final :: .endBlock :: frames, { b with doRethrow := doRethrow } :: blocks,
        some blocks.length, r.state, r.trace⟩) =
      .running ⟨t.expand, .next endTry :: .endBlock :: frames, { b with doRethrow := doRethrow } :: blocks, p, r.state,
        r.trace⟩ := fun _ => rfl
  by_cases hn : r.out = .normal
  · rw [if_pos hn]
    have hleave := (ht (.next endTry :: .endBlock :: frames) (b :: blocks) (hp.cons b)).leave hp rfl rfl
    exact hbody.seq hn (hleave.after (hfinal false))
  · rw [if_neg hn]
    by_cases hthrown : r.out = .thrown
    · rw [if_pos hthrown]
      have hleave := (ht (.next endTry :: .endBlock :: frames) ({ b with doRethrow := true } :: blocks)
        (hp.cons _)).leaveRethrow hp rfl
      have hset : steps (step effect (expandAll body)) 1
          (.running ⟨buf.nonzero, buf.frames, b :: blocks, some blocks.length, r.state, r.trace⟩) =
          .running ⟨.skip, .next final :: .endBlock :: frames, { b with doRethrow := true } :: blocks,
            some blocks.length, r.state, r.trace⟩ := rfl
      exact hbody.landed hthrown rfl ((hleave.after (hfinal true)).after hset)
    · rw [if_neg hthrown]; exact hbody.stopped hn hr hthrown

theorem simulates_stmt (callee : Bool → φ → σ → List α → Result α σ)
    (hreturn : ∀ caught f st tr, (callee caught f st tr).out ≠ .returned)
    (hcall : ∀ f frames blocks p st tr, Entry blocks p →
      Simulates effect body n ⟨.call f, frames, blocks, p, st, tr⟩ frames blocks p (callee p.isSome f st tr))
    (s : Stmt α σ φ) : s.Allowed → ∀ frames blocks p st tr, Entry blocks p →
      Simulates effect body n ⟨s.expand, frames, blocks, p, st, tr⟩ frames blocks p
        (evalWith effect callee p.isSome s st tr) := by
  induction s with
  | skip => exact fun _ frames blocks p st tr _ => Simulates.of_steps (m := 0) (nomatch ·) rfl rfl
  | basic a => exact fun _ frames blocks p st tr _ => Simulates.of_steps (m := 1) (nomatch ·) rfl rfl
  | ret => exact fun _ frames blocks p st tr _ => Simulates.of_steps (m := 0) (nomatch ·) rfl rfl
  | call f => exact fun _ frames blocks p st tr hp => hcall f frames blocks p st tr hp
  | throw v =>
    intro _ frames blocks p st tr hp
    cases hpc : p with
    | none =>
      subst hpc
      exact Simulates.of_steps (m := 1) (nomatch ·) rfl ⟨_, rfl⟩
    | some env =>
      subst hpc
      exact Simulates.of_steps (m := 1) (nomatch ·) rfl (siglongjmp_landing hp rfl _ v)
  | seq s t ihs iht =>
    intro ha frames blocks p st tr hp
    have hs := (ihs ha.1 (.next t.expand :: frames) blocks p st tr hp).after
      (c := ⟨(Stmt.seq s t).expand, frames, blocks, p, st, tr⟩) (m := 1) rfl
    simp only [evalWith]
    by_cases hr : (evalWith effect callee p.isSome s st tr).out = .normal
    · rw [if_pos hr]
      exact hs.seq hr ((iht ha.2 frames blocks p _ _ hp).after (m := 1) rfl)
    · rw [if_neg hr]
      exact hs.more (fun t ht => ht.next hr)
  | ite b s t ihs iht =>
    intro ha frames blocks p st tr hp
    have hstep : steps (step effect (expandAll body)) 1 (.running ⟨(Stmt.ite b s t).expand, frames, blocks, p, st, tr⟩) =
        .running ⟨if b st then s.expand else t.expand, frames, blocks, p, st, tr⟩ := rfl
    simp only [evalWith]
    by_cases hb : b st = true
    · rw [if_pos hb] at hstep ⊢
      exact (ihs ha.1 frames blocks p st tr hp).after hstep
    · rw [if_neg hb] at hstep ⊢
      exact (iht ha.2 frames blocks p st tr hp).after hstep
  | tryCatch s t ihs iht =>
    intro ha frames blocks p st tr hp
    simp only [evalWith]
    refine simulates_tryCatch hp (fun frames blocks' p' hp' hsome => ?_)
      (fun frames blocks' hp' => iht ha.2.2 frames blocks' p _ _ hp') (ha.1.evalWith hreturn _ _ _)
    have := ihs ha.2.1 frames blocks' p' st tr hp'
    rwa [hsome] at this
  | tryFinally s t ihs iht =>
    intro ha frames blocks p st tr hp
    simp only [evalWith]
    refine simulates_tryFinally hp (fun frames blocks' p' hp' hsome => ?_)
      (fun frames blocks' hp' => iht ha.2.2 frames blocks' p _ _ hp') (ha.1.evalWith hreturn _ _ _)
    have := ihs ha.2.1 frames blocks' p' st tr hp'
    rwa [hsome] at this

theorem Simulates.called (h : Simulates effect body n c (.caller :: frames) blocks p r) :
    Simulates effect body n c frames blocks p r.called := by
  unfold Result.called
  by_cases hr : r.out = .returned
  · rw [if_pos hr]
    obtain ⟨t, ⟨k, -, ht⟩, hm⟩ := h
    unfold Matches at hm
    rw [hr] at hm
    refine Simulates.of_steps (m := k + 1) (nomatch ·) (by rw [steps_add, ht, hm]; rfl) rfl
  · rw [if_neg hr]
    refine h.more (fun t hm => ?_)
    unfold Matches at hm ⊢
    cases hr' : r.out with
    | normal   => rw [hr'] at hm; exact ⟨1, _, by rw [hm]; rfl, rfl⟩
    | returned => exact absurd hr' hr
    | thrown   => rw [hr'] at hm; exact ⟨0, t, rfl, hm⟩
    | uncaught => rw [hr'] at hm; exact ⟨0, t, rfl, hm⟩
    | wrong    => rw [hr'] at hm; exact ⟨0, t, rfl, hm⟩
    | cut      => rw [hr'] at hm; exact ⟨0, t, rfl, hm⟩

/-- **The expanded code does what the structured program means**, in any surroundings. -/
theorem simulates (hbody : ∀ f, (body f).Allowed) : ∀ (n : Nat) (s : Stmt α σ φ), s.Allowed →
    ∀ frames blocks p st tr, Entry blocks p → Simulates effect body n ⟨s.expand, frames, blocks, p, st, tr⟩
      frames blocks p (eval effect body n p.isSome s st tr) := by
  intro n
  induction n with
  | zero =>
    exact fun s => simulates_stmt (fun _ _ st tr => ⟨.cut, st, tr⟩) (fun _ _ _ _ h => by cases h)
      (fun f frames blocks p st tr _ => ⟨_, Reaches.refl _ _, _, rfl, rfl, rfl⟩) s
  | succ n ih =>
    refine fun s => simulates_stmt _ (fun _ _ _ _ => Result.called_ne_returned _)
      (fun f frames blocks p st tr hp => ?_) s
    obtain ⟨t, ht, hm⟩ := (ih (body f) (hbody f) (.caller :: frames) blocks p st tr hp).called
    have hstep : steps (step effect (expandAll body)) 1 (.running ⟨.call f, frames, blocks, p, st, tr⟩) =
        .running ⟨(body f).expand, .caller :: frames, blocks, p, st, tr⟩ := rfl
    refine ⟨t, ((Reaches.of_steps hstep).trans ht).mono ?_, hm⟩
    split <;> omega

/-! ## Whole runs -/

theorem siglongjmp_trace {env : Nat} {v : Int} (h : siglongjmp c env v = .running c') : c'.trace = c.trace := by
  unfold siglongjmp at h
  split at h
  · split at h
    · cases h
    · split at h
      · cases h
      · cases h; rfl
  · cases h

theorem step_trace {code : φ → CStmt α σ φ} (h : step effect code c = .running c') : c.trace <+: c'.trace := by
  unfold step at h
  split at h
  case h_9 => cases h; exact List.prefix_append _ _
  case h_13 =>
    unfold doAJump at h
    split at h
    · exact siglongjmp_trace h ▸ List.prefix_refl _
    · cases h
  case h_14 =>
    unfold testReThrow at h
    split at h
    · exact siglongjmp_trace h ▸ List.prefix_refl _
    · cases h
  all_goals first | (cases h; exact List.prefix_refl _) | cases h

theorem steps_trace {code : φ → CStmt α σ φ} : ∀ (m : Nat) {c c' : Config α σ φ},
    steps (step effect code) m (.running c) = .running c' → c.trace <+: c'.trace
  | 0, _, _, h      => by cases h; exact List.prefix_refl _
  | m + 1, c, c', h => by
    rw [show steps (step effect code) (m + 1) (.running c) = steps (step effect code) m (step effect code c) from rfl] at h
    cases hs : step effect code c with
    | ended f   => rw [hs, steps_ended] at h; cases h
    | running d => rw [hs] at h; exact (step_trace hs).trans (steps_trace m h)

/-- A machine that has ended as the structured meaning `r` says, with `TEST_exception_stack` as it was on entry where it
comes back. -/
def EndsAs (p : Option Nat) (r : Result α σ) (f : Final α σ) : Prop :=
  f.state = r.state ∧ f.trace = r.trace ∧
  match r.out with
  | .normal   => f.how = .normal ∧ f.exceptionStack = p
  | .returned => f.how = .returned ∧ f.exceptionStack = p
  | .uncaught => f.how = .errorExit 1 ∧ f.exceptionStack = none
  | .wrong    => f.how = .wrong
  | _         => False

/-- A function body on its own, entered with any blocks around it. -/
def enter (s : Stmt α σ φ) (blocks : List (Block α σ φ)) (p : Option Nat) (st : σ) : Config α σ φ :=
  ⟨s.expand, [], blocks, p, st, []⟩

/-- **The expanded statement does what the structured one means**: it ends the same way with the same statements
executed, or throws to the enclosing block, or runs forever through the same statements. -/
structure Implements (effect : α → σ → σ) (body : φ → Stmt α σ φ) (s : Stmt α σ φ) (blocks : List (Block α σ φ))
    (p : Option Nat) (st : σ) : Prop where
  ends   : ∀ n, (eval effect body n p.isSome s st []).out ≠ .thrown → (eval effect body n p.isSome s st []).out ≠ .cut →
    ∃ f, EndsAs p (eval effect body n p.isSome s st []) f ∧
      Reaches (step effect (expandAll body)) 0 (enter s blocks p st) (.ended f)
  throws : ∀ n, (eval effect body n p.isSome s st []).out = .thrown → ∃ t, Landing blocks p
    (eval effect body n p.isSome s st []).state (eval effect body n p.isSome s st []).trace t ∧
      Reaches (step effect (expandAll body)) 0 (enter s blocks p st) t
  goesOn : (∀ n, (eval effect body n p.isSome s st []).out = .cut) → ∀ n, ∃ c,
    steps (step effect (expandAll body)) n (.running (enter s blocks p st)) = .running c ∧
      c.trace <+: (eval effect body n p.isSome s st []).trace

theorem Simulates.ends (h : Simulates effect body n c [] blocks p r) (ht : r.out ≠ .thrown) (hc : r.out ≠ .cut) :
    ∃ f, EndsAs p r f ∧ Reaches (step effect (expandAll body)) 0 c (.ended f) := by
  obtain ⟨t, hreach, hm⟩ := h
  have hreach := hreach.mono (Nat.zero_le _)
  unfold Matches at hm
  unfold EndsAs
  cases hr : r.out with
  | normal =>
    rw [hr] at hm
    rw [show t = _ from hm] at hreach
    exact ⟨⟨.normal, p, r.state, r.trace⟩, ⟨rfl, rfl, rfl, rfl⟩, hreach.then ⟨1, Nat.zero_le 1, rfl⟩⟩
  | returned =>
    rw [hr] at hm
    rw [show t = _ from hm] at hreach
    exact ⟨⟨.returned, p, r.state, r.trace⟩, ⟨rfl, rfl, rfl, rfl⟩, hreach.then ⟨1, Nat.zero_le 1, rfl⟩⟩
  | uncaught => rw [hr] at hm; exact ⟨_, ⟨rfl, rfl, rfl, rfl⟩, (show t = _ from hm) ▸ hreach⟩
  | wrong =>
    rw [hr] at hm
    obtain ⟨q, hq⟩ := hm
    exact ⟨_, ⟨rfl, rfl, rfl⟩, hq ▸ hreach⟩
  | thrown => exact absurd hr ht
  | cut => exact absurd hr hc

/-- **The macros implement structured exceptions**: for every program that returns from no TRY body, in any
surroundings. -/
theorem macros_implement (hbody : ∀ f, (body f).Allowed) {s : Stmt α σ φ} (hs : s.Allowed)
    {blocks : List (Block α σ φ)} {p : Option Nat} (hp : Entry blocks p) (st : σ) :
    Implements effect body s blocks p st := by
  have hsim : ∀ n, Simulates effect body n ⟨s.expand, [], blocks, p, st, []⟩ [] blocks p
      (eval effect body n p.isSome s st []) := fun n => simulates hbody n s hs [] blocks p st [] hp
  constructor
  · exact fun n ht hc => (hsim n).ends ht hc
  · intro n hthrown
    obtain ⟨t, hreach, hm⟩ := hsim n
    unfold Matches at hm
    rw [hthrown] at hm
    exact ⟨t, hm, hreach.mono (Nat.zero_le _)⟩
  · intro hcut
    have hruns : ∀ n, ∃ c, Reaches (step effect (expandAll body)) n (enter s blocks p st) (.running c) ∧
        c.trace = (eval effect body n p.isSome s st []).trace := by
      intro n
      obtain ⟨t, hreach, hm⟩ := hsim n
      unfold Matches at hm
      rw [hcut n] at hm
      rw [if_pos (hcut n)] at hreach
      obtain ⟨c, rfl, -, htr⟩ := hm
      exact ⟨c, hreach, htr⟩
    intro n
    obtain ⟨c, hc⟩ := not_ended (fun n => (hruns n).imp (fun _ h => h.1)) n
    obtain ⟨d, ⟨m, hm, hd⟩, htr⟩ := hruns n
    obtain ⟨k, rfl⟩ := Nat.exists_eq_add_of_le hm
    rw [steps_add, hc] at hd
    exact ⟨c, hc, htr ▸ steps_trace k hd⟩

/-- `test_jmp`, on `should_jump` and `should_return_early`, without the return from its TRY body. -/
def testJmp : Stmt String (Bool × Bool) Unit :=
  .tryCatch (.seq (.basic "took branch 0") (.ite Prod.fst (.throw 1) .skip))
    (.seq (.basic "took branch 1") (.ite Prod.snd (.seq (.basic "escaping branch 1 early") .ret) .skip))

theorem macros_implement_testJmp :
    Implements (fun _ st => st) (fun _ : Unit => .skip) testJmp [] none (true, true) := by
  have hbody : ∀ f : Unit, ((fun _ => .skip : Unit → Stmt String (Bool × Bool) Unit) f).Allowed := fun _ => trivial
  have hs : testJmp.Allowed := by simp [testJmp, Stmt.Allowed, Stmt.NoReturn]
  have hp : Entry ([] : List (Block String (Bool × Bool) Unit)) none := fun _ h => nomatch h
  exact macros_implement hbody hs hp (true, true)

/-- A return from a TRY body, as in `test_jmp`, leaves the address of its block in `TEST_exception_stack`. -/
example : steps (step (fun _ st => st) (expandAll (fun _ : Unit => .skip))) 12
    (.running (enter (.tryCatch (.seq (.basic "escaping branch 0 early") .ret) .skip) [] none ())) =
    .ended ⟨.returned, some 0, (), ["escaping branch 0 early"]⟩ := rfl

end Try
end Scrapcode
