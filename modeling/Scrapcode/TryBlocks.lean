/-!
# TryBlocks — structured exceptions

Programs of basic statements, sequence, choice, throw, early return, calls, and the two kinds of TRY block, with what
they mean: a throw goes to the handler of the innermost enclosing TRY, and a finally part runs once however its block
ended, and then throws on unless it returned.

The meaning is a function of the depth of calls that is looked at; deeper calls are cut off (`.cut`).  Whether some TRY
encloses a statement is all it has to know of what is around it (`caught`): outside of all of them a throw is not
allowed, and what a finally part throws on ends the program.
-/
namespace Scrapcode
namespace Try

/-- `α` are the basic statements, `σ` the states they act on, `φ` the functions. -/
inductive Stmt (α σ φ : Type) where
  | skip
  | basic (a : α)
  | seq (s t : Stmt α σ φ)
  | ite (b : σ → Bool) (s t : Stmt α σ φ)
  | throw (jumpval : Int)
  | ret
  | call (f : φ)
  | tryCatch (body handler : Stmt α σ φ)
  | tryFinally (body final : Stmt α σ φ)

inductive Outcome where
  | normal
  | returned
  | thrown
  | uncaught
  | wrong
  | cut
deriving DecidableEq, Repr

/-- How a statement ended, the state, and the basic statements that were executed. -/
structure Result (α σ : Type) where
  out   : Outcome
  state : σ
  trace : List α

variable {α σ φ : Type}

/-- What is left of a call for its caller. -/
def Result.called (r : Result α σ) : Result α σ := if r.out = .returned then { r with out := .normal } else r

/-- A finally part that has come to its end throws on. -/
def Result.rethrown (caught : Bool) (r : Result α σ) : Result α σ :=
  if r.out = .normal then { r with out := if caught then .thrown else .uncaught } else r

def evalWith (effect : α → σ → σ) (callee : Bool → φ → σ → List α → Result α σ) :
    Bool → Stmt α σ φ → σ → List α → Result α σ
  | _, .skip, st, tr           => ⟨.normal, st, tr⟩
  | _, .basic a, st, tr        => ⟨.normal, effect a st, tr ++ [a]⟩
  | caught, .seq s t, st, tr   =>
    let r := evalWith effect callee caught s st tr
    if r.out = .normal then evalWith effect callee caught t r.state r.trace else r
  | caught, .ite b s t, st, tr =>
    if b st then evalWith effect callee caught s st tr else evalWith effect callee caught t st tr
  | caught, .throw _, st, tr   => ⟨if caught then .thrown else .wrong, st, tr⟩
  | _, .ret, st, tr            => ⟨.returned, st, tr⟩
  | caught, .call f, st, tr    => callee caught f st tr
  | caught, .tryCatch s t, st, tr =>
    let r := evalWith effect callee true s st tr
    if r.out = .thrown then evalWith effect callee caught t r.state r.trace else r
  | caught, .tryFinally s t, st, tr =>
    let r := evalWith effect callee true s st tr
    if r.out = .normal then evalWith effect callee caught t r.state r.trace
    else if r.out = .thrown then (evalWith effect callee caught t r.state r.trace).rethrown caught
    else r

/-- The meaning, with calls cut off below the depth `n`. -/
def eval (effect : α → σ → σ) (body : φ → Stmt α σ φ) : Nat → Bool → Stmt α σ φ → σ → List α → Result α σ
  | 0     => evalWith effect (fun _ _ st tr => ⟨.cut, st, tr⟩)
  | n + 1 => evalWith effect (fun caught f st tr => (eval effect body n caught (body f) st tr).called)

/-! ## Where a function may return -/

def Stmt.NoReturn : Stmt α σ φ → Prop
  | .ret            => False
  | .seq s t        => s.NoReturn ∧ t.NoReturn
  | .ite _ s t      => s.NoReturn ∧ t.NoReturn
  | .tryCatch s t   => s.NoReturn ∧ t.NoReturn
  | .tryFinally s t => s.NoReturn ∧ t.NoReturn
  | _               => True

/-- No TRY body returns from the function it is in; handlers and finally parts may. -/
def Stmt.Allowed : Stmt α σ φ → Prop
  | .seq s t        => s.Allowed ∧ t.Allowed
  | .ite _ s t      => s.Allowed ∧ t.Allowed
  | .tryCatch s t   => s.NoReturn ∧ s.Allowed ∧ t.Allowed
  | .tryFinally s t => s.NoReturn ∧ s.Allowed ∧ t.Allowed
  | _               => True

theorem Result.called_ne_returned (r : Result α σ) : r.called.out ≠ .returned := by
  unfold Result.called
  by_cases h : r.out = .returned
  · rw [if_pos h]; exact (nomatch ·)
  · rw [if_neg h]; exact h

theorem Result.rethrown_ne_returned {caught : Bool} {r : Result α σ} (h : r.out ≠ .returned) :
    (r.rethrown caught).out ≠ .returned := by
  unfold Result.rethrown
  by_cases hn : r.out = .normal
  · rw [if_pos hn]; cases caught <;> exact (nomatch ·)
  · rw [if_neg hn]; exact h

theorem Stmt.NoReturn.evalWith {effect : α → σ → σ} {callee : Bool → φ → σ → List α → Result α σ}
    (hcallee : ∀ caught f st tr, (callee caught f st tr).out ≠ .returned) : ∀ {s : Stmt α σ φ}, s.NoReturn →
    ∀ caught st tr, (evalWith effect callee caught s st tr).out ≠ .returned := by
  intro s
  induction s with
  | skip => exact fun _ _ _ _ => (nomatch ·)
  | basic a => exact fun _ _ _ _ => (nomatch ·)
  | ret => exact fun h => h.elim
  | call f => exact fun _ caught st tr => hcallee caught f st tr
  | throw v => intro _ caught st tr; cases caught <;> exact (nomatch ·)
  | seq s t ihs iht =>
    intro h caught st tr
    simp only [Try.evalWith]
    split
    · exact iht h.2 _ _ _
    · exact ihs h.1 _ _ _
  | ite b s t ihs iht =>
    intro h caught st tr
    simp only [Try.evalWith]
    split
    · exact ihs h.1 _ _ _
    · exact iht h.2 _ _ _
  | tryCatch s t ihs iht =>
    intro h caught st tr
    simp only [Try.evalWith]
    split
    · exact iht h.2 _ _ _
    · exact ihs h.1 _ _ _
  | tryFinally s t ihs iht =>
    intro h caught st tr
    simp only [Try.evalWith]
    split
    · exact iht h.2 _ _ _
    · split
      · exact Result.rethrown_ne_returned (iht h.2 _ _ _)
      · exact ihs h.1 _ _ _

theorem Stmt.NoReturn.eval {effect : α → σ → σ} {body : φ → Stmt α σ φ} {s : Stmt α σ φ} (h : s.NoReturn) (n : Nat)
    (caught : Bool) (st : σ) (tr : List α) : (eval effect body n caught s st tr).out ≠ .returned := by
  cases n with
  | zero   => exact h.evalWith (fun _ _ _ _ hc => by cases hc) caught st tr
  | succ n => exact h.evalWith (fun _ _ _ _ => Result.called_ne_returned _) caught st tr

end Try
end Scrapcode
