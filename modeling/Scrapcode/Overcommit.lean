import Mathlib.Data.List.Basic
import Scrapcode.Progress
/-!
# Overcommit — the processes of `overcommit.c`

`membomb` forks its children one after the other and keeps what `fork` returned, sends each a `SIGTERM` and waits for
each. A child allocates its memory, touches it and sleeps; it may die of that, or be killed by anyone at any time.
Which pid a child gets, whether `fork` fails and whom `waitpid` finds dead is in the events.  The other processes that
the user may signal are `bystanders`.  The array for the pids is there: nothing checks that `malloc` gave one.

However it goes, the run ends with no child left, also where no child dies by itself (`membomb_completes`).  But a
`fork` that fails leaves a -1 among the pids, and a signal to -1 goes to everybody: the bystanders are spared exactly in
the runs in which no `fork` fails (`spared_iff`).
-/
namespace Scrapcode
namespace Overcommit

/-- What a child does next. -/
inductive ChildPc where
  | allocate
  | announce
  | sleeping
  | dead
deriving DecidableEq, Repr

/-- A child that is not waited for. -/
structure Child where
  pid : Nat
  pc  : ChildPc
deriving DecidableEq, Repr

/-- Where `membomb` is, with the number of the child its loop is at. -/
inductive Pc where
  | launching (childno : Nat)
  | reporting
  | killing (childno : Nat)
  | waiting (childno : Nat)
  | ended
deriving DecidableEq, Repr

/-- `struck` are the bystanders that were signalled. -/
structure State where
  pc         : Pc
  childPids  : List Int
  procs      : List Child
  bystanders : List Nat
  struck     : List Nat
deriving DecidableEq, Repr

def State.start (bystanders : List Nat) : State where
  pc         := .launching 0
  childPids  := []
  procs      := []
  bystanders := bystanders
  struck     := []

/-- `fork` gives a pid or fails; `waitpid` finds a child dead; a child goes on, or dies; the parent does anything
else. -/
inductive Event where
  | parent
  | forks (pid : Option Nat)
  | reaps (pid : Nat)
  | child (pid : Nat)
  | dies (pid : Nat)
deriving DecidableEq, Repr

/-- Nothing makes a child die that is not signalled. -/
def Event.IsChance : Event → Prop
  | .dies _ => True
  | _       => False

namespace Child

def term (q : Child) : Child := { q with pc := .dead }

/-- `SIGTERM` to `pid`. -/
def signalled (pid : Int) (q : Child) : Child := if pid = -1 ∨ pid = q.pid then q.term else q

def next (q : Child) : Child :=
  match q.pc with
  | .allocate => { q with pc := .announce }
  | .announce => { q with pc := .sleeping }
  | .sleeping => q
  | .dead     => q

/-- The child `pid` goes on. -/
def goesOn (pid : Nat) (q : Child) : Child := if q.pid = pid then q.next else q

def dies (pid : Nat) (q : Child) : Child := if q.pid = pid then q.term else q

end Child

section
variable (children : Nat)

namespace State

/-- The pid that the loop has come to. -/
def target (s : State) (childno : Nat) : Int := s.childPids.getD childno 0

/-- `kill(pid, SIGTERM)`; -1 stands for everybody. -/
def kill (s : State) (pid : Int) : State :=
  { s with procs := s.procs.map (Child.signalled pid),
           struck := s.struck ++ s.bystanders.filter (fun p : Nat => decide (pid = -1 ∨ pid = p)) }

/-- Whether `waitpid(pid)` is about a child that is there. -/
def awaits (s : State) (pid : Int) : Bool := s.procs.any (fun q => decide (pid = -1 ∨ pid = q.pid))

def parentStep (s : State) : Option State :=
  match s.pc with
  | .launching i => if i < children then none else some { s with pc := .reporting }
  | .reporting   => some { s with pc := .killing 0 }
  | .killing i   =>
    some (if i < children then { s.kill (s.target i) with pc := .killing (i + 1) } else { s with pc := .waiting 0 })
  | .waiting i   =>
    if i < children then if s.awaits (s.target i) = true then none else some { s with pc := .waiting (i + 1) }
    else some { s with pc := .ended }
  | .ended       => none

/-- `fork_child`: the pid of a child is one that nobody has. -/
def fork (s : State) (i : Nat) : Option Nat → Option State
  | none     => some { s with pc := .launching (i + 1), childPids := s.childPids ++ [-1] }
  | some pid =>
    if pid ∈ s.procs.map Child.pid ∨ pid ∈ s.bystanders then none
    else some { s with
      pc        := .launching (i + 1)
      childPids := s.childPids ++ [(pid : Int)]
      procs     := s.procs ++ [⟨pid, .allocate⟩] }

/-- `waitpid(pid)` returns the dead child it was called for. -/
def reap (s : State) (i pid : Nat) : Option State :=
  if (s.target i = -1 ∨ s.target i = pid) ∧ ⟨pid, .dead⟩ ∈ s.procs then
    some { s with pc := .waiting (i + 1), procs := s.procs.filter (fun q => decide (q.pid ≠ pid)) }
  else none

def step (s : State) : Event → Option State
  | .parent    => s.parentStep children
  | .forks pid =>
    match s.pc with
    | .launching i => if i < children then s.fork i pid else none
    | _            => none
  | .reaps pid =>
    match s.pc with
    | .waiting i => if i < children then s.reap i pid else none
    | _          => none
  | .child pid =>
    if ∃ q ∈ s.procs, q.pid = pid ∧ q.next ≠ q then some { s with procs := s.procs.map (Child.goesOn pid) } else none
  | .dies pid  =>
    if ∃ q ∈ s.procs, q.pid = pid ∧ q.pc ≠ .dead then some { s with procs := s.procs.map (Child.dies pid) } else none

end State

/-! ## What holds in every state -/

/-- How many pids the parent has signalled, and how many it has waited for. -/
def Pc.signalled : Pc → Nat
  | .launching _ | .reporting => 0
  | .killing i                => i
  | .waiting _ | .ended       => children

def Pc.waited : Pc → Nat
  | .waiting i => i
  | .ended     => children
  | _          => 0

structure Inv (s : State) : Prop where
  length    : s.childPids.length = match s.pc with
    | .launching i => i
    | _            => children
  bound     : s.childPids.length ≤ children ∧ s.pc.signalled children ≤ children ∧ s.pc.waited children ≤ children
  outsiders : ∀ p ∈ s.bystanders, (p : Int) ∉ s.childPids
  present   : s.pc.waited children = 0 → ∀ p : Nat, (p : Int) ∈ s.childPids → p ∈ s.procs.map Child.pid
  -- a child that is there is waited for later on
  left      : ∀ q ∈ s.procs, ∃ k, s.pc.waited children ≤ k ∧ s.childPids[k]? = some (q.pid : Int)
  -- and is dead once it was signalled
  dead      : ∀ q ∈ s.procs, ∀ k < s.pc.signalled children, s.childPids[k]? = some (q.pid : Int) → q.pc = .dead
  struck    : s.struck ≠ [] ↔ s.bystanders ≠ [] ∧ ∃ k < s.pc.signalled children, s.childPids[k]? = some (-1)

/-- **How it ends**: `membomb` has returned, and no child is left. -/
structure Finished (s : State) : Prop where
  ended : s.pc = .ended
  procs : s.procs = []

theorem inv_start (bystanders : List Nat) : Inv children (.start bystanders) where
  length    := rfl
  bound     := ⟨Nat.zero_le _, Nat.zero_le _, Nat.zero_le _⟩
  outsiders := fun _ _ => List.not_mem_nil
  present   := fun _ _ h => absurd h List.not_mem_nil
  left      := fun _ h => absurd h List.not_mem_nil
  dead      := fun _ h => absurd h List.not_mem_nil
  struck    := iff_of_false (fun h => h rfl) (fun ⟨_, _, h, _⟩ => absurd h (Nat.not_lt_zero _))

end

variable {children : Nat} {s s' : State} {e : Event}

/-! ## Steps of the children -/

/-- What happens to the children leaves their pids alone and never brings one back. -/
structure Tame (f : Child → Child) : Prop where
  pid  : ∀ q, (f q).pid = q.pid
  dead : ∀ q, q.pc = .dead → (f q).pc = .dead

theorem tame_goesOn (pid : Nat) : Tame (Child.goesOn pid) where
  pid q := by
    unfold Child.goesOn Child.next
    split
    · split <;> rfl
    · rfl
  dead q h := by
    unfold Child.goesOn Child.next
    split
    · rw [h]; exact h
    · exact h

theorem tame_dies (pid : Nat) : Tame (Child.dies pid) where
  pid q := by unfold Child.dies; split <;> rfl
  dead q h := by
    unfold Child.dies
    split
    · rfl
    · exact h

theorem tame_signalled (pid : Int) : Tame (Child.signalled pid) where
  pid q := by unfold Child.signalled; split <;> rfl
  dead q h := by
    unfold Child.signalled
    split
    · rfl
    · exact h

theorem Tame.map_pid {f : Child → Child} (hf : Tame f) (l : List Child) :
    (l.map f).map Child.pid = l.map Child.pid := by
  rw [List.map_map]
  exact List.map_congr_left fun q _ => hf.pid q

/-- **The children may do what they do.** -/
theorem Inv.tame (hi : Inv children s) {f : Child → Child} (hf : Tame f) :
    Inv children { s with procs := s.procs.map f } where
  length    := hi.length
  bound     := hi.bound
  outsiders := hi.outsiders
  present   := fun h p hp => by
    show p ∈ (s.procs.map f).map Child.pid
    rw [hf.map_pid]
    exact hi.present h p hp
  left      := fun q hq => by
    obtain ⟨r, hr, rfl⟩ := List.mem_map.1 hq
    rw [hf.pid]
    exact hi.left r hr
  dead      := fun q hq k hk hpid => by
    obtain ⟨r, hr, rfl⟩ := List.mem_map.1 hq
    rw [hf.pid] at hpid
    exact hf.dead r (hi.dead r hr k hk hpid)
  struck    := hi.struck

/-! ## Steps of the parent -/

theorem getElem?_append_of_some {pids : List Int} {k : Nat} {x : Int} (h : pids[k]? = some x) (more : List Int) :
    (pids ++ more)[k]? = some x := by
  obtain ⟨hk, -⟩ := List.getElem?_eq_some_iff.1 h
  rw [List.getElem?_append_left hk, h]

/-- A pid is pushed while the parent launches. -/
theorem Inv.push (hi : Inv children s) {i : Nat} (hpc : s.pc = .launching i) (hlt : i < children) {x : Int}
    (more : List Child) (hout : ∀ p ∈ s.bystanders, (p : Int) ≠ x)
    (hpresent : ∀ p : Nat, (p : Int) = x → p ∈ more.map Child.pid) (hmore : ∀ q ∈ more, (q.pid : Int) = x) :
    Inv children { s with pc := .launching (i + 1), childPids := s.childPids ++ [x], procs := s.procs ++ more } := by
  have hlen : s.childPids.length = i := by have h := hi.length; rw [hpc] at h; exact h
  have hleft := hi.left
  have hstruck := hi.struck
  rw [hpc] at hstruck
  exact {
    length    := by
      show (s.childPids ++ [x]).length = i + 1
      rw [List.length_append, hlen, List.length_singleton]
    bound     := by
      refine ⟨?_, Nat.zero_le _, Nat.zero_le _⟩
      show (s.childPids ++ [x]).length ≤ children
      rw [List.length_append, hlen, List.length_singleton]
      exact hlt
    outsiders := fun p hp hin => by
      rcases List.mem_append.1 hin with hin | hin
      · exact hi.outsiders p hp hin
      · exact hout p hp (List.mem_singleton.1 hin)
    present   := fun _ p hp => by
      show p ∈ (s.procs ++ more).map Child.pid
      rw [List.map_append, List.mem_append]
      rcases List.mem_append.1 hp with hp | hp
      · exact Or.inl (hi.present (by rw [hpc]; rfl) p hp)
      · exact Or.inr (hpresent p (List.mem_singleton.1 hp))
    left      := fun q hq => by
      rcases List.mem_append.1 hq with hq | hq
      · obtain ⟨k, -, hk⟩ := hleft q hq
        exact ⟨k, Nat.zero_le k, getElem?_append_of_some hk [x]⟩
      · refine ⟨i, Nat.zero_le i, ?_⟩
        show (s.childPids ++ [x])[i]? = _
        rw [List.getElem?_append_right (Nat.le_of_eq hlen), hlen, Nat.sub_self, hmore q hq]
        rfl
    dead      := fun _ _ _ hk => absurd hk (Nat.not_lt_zero _)
    struck    := hstruck.trans (and_congr_right fun _ =>
      iff_of_false (fun ⟨_, h, _⟩ => absurd h (Nat.not_lt_zero _)) (fun ⟨_, h, _⟩ => absurd h (Nat.not_lt_zero _))) }

theorem inv_fork (hi : Inv children s) {i : Nat} (hpc : s.pc = .launching i) (hlt : i < children) {r : Option Nat}
    (h : s.fork i r = some s') : Inv children s' := by
  cases r with
  | none =>
    cases h
    have := hi.push hpc hlt [] (x := -1) (fun p _ => by omega) (fun p hp => by omega)
      (fun _ hq => absurd hq List.not_mem_nil)
    rwa [List.append_nil] at this
  | some pid =>
    unfold State.fork at h
    dsimp only at h
    split at h
    · cases h
    · rename_i hfresh
      rw [not_or] at hfresh
      cases h
      refine hi.push hpc hlt _ (fun p hp heq => ?_) (fun p hp => ?_) (fun q hq => ?_)
      · rw [Int.ofNat_inj.1 heq] at hp
        exact hfresh.2 hp
      · rw [Int.ofNat_inj.1 hp]
        exact List.mem_singleton.2 rfl
      · rw [List.mem_singleton.1 hq]

/-- The parent goes to another place, and that is all. -/
theorem Inv.goto (hi : Inv children s) {pc : Pc} (hlength : s.childPids.length = match pc with
      | .launching i => i
      | _            => children)
    (hsignalled : pc.signalled children = s.pc.signalled children)
    (hwaited : pc.waited children = s.pc.waited children) :
    Inv children { s with pc := pc } where
  length    := hlength
  bound     := by rw [hsignalled, hwaited]; exact hi.bound
  outsiders := hi.outsiders
  present   := by rw [hwaited]; exact hi.present
  left      := by rw [hwaited]; exact hi.left
  dead      := by rw [hsignalled]; exact hi.dead
  struck    := by rw [hsignalled]; exact hi.struck

theorem getElem?_target (hi : Inv children s) {i : Nat} (hlt : i < children) (hpc : ∀ j, s.pc ≠ .launching j) :
    s.childPids[i]? = some (s.target i) := by
  have hlen : s.childPids.length = children := by
    have h := hi.length
    split at h
    · rename_i j hj; exact absurd hj (hpc j)
    · exact h
  rw [State.target, List.getD_eq_getElem?_getD, List.getElem?_eq_getElem (by omega), Option.getD_some]

/-- **A signal**: it strikes the child it is for, or everybody. -/
theorem Inv.kill (hi : Inv children s) {i : Nat} (hpc : s.pc = .killing i) (hlt : i < children) :
    Inv children { s.kill (s.target i) with pc := .killing (i + 1) } := by
  have hget := getElem?_target hi hlt (fun j => by rw [hpc]; exact (nomatch ·))
  have htame := hi.tame (tame_signalled (s.target i))
  have hdead := hi.dead
  have hstruck := hi.struck
  have hwaited : s.pc.waited children = 0 := by rw [hpc]; rfl
  have hsignalled : s.pc.signalled children = i := by rw [hpc]; rfl
  rw [hsignalled] at hdead hstruck
  have hmem : s.target i ∈ s.childPids := List.mem_of_getElem? hget
  refine ⟨?_, ⟨hi.bound.1, hlt, Nat.zero_le _⟩, hi.outsiders, fun _ => htame.present hwaited, fun q hq => ?_,
    fun q hq k hk hpid => ?_, ?_⟩
  · have h := hi.length
    rw [hpc] at h
    exact h
  · obtain ⟨k, -, hk⟩ := htame.left q hq
    exact ⟨k, Nat.zero_le k, hk⟩
  · obtain ⟨r, hr, rfl⟩ := List.mem_map.1 hq
    rw [(tame_signalled _).pid] at hpid
    by_cases hki : k = i
    · subst hki
      have htarget : s.target k = r.pid := Option.some.inj (hget.symm.trans hpid)
      unfold Child.signalled
      rw [if_pos (Or.inr htarget)]
      rfl
    · have hlt' : k < i := by
        have : k < i + 1 := hk
        omega
      exact (tame_signalled _).dead r (hdead r hr k hlt' hpid)
  · show s.struck ++ s.bystanders.filter _ ≠ [] ↔ s.bystanders ≠ [] ∧ ∃ k < i + 1, s.childPids[k]? = some (-1)
    by_cases hall : s.target i = -1
    · have hfilter : s.bystanders.filter (fun p : Nat => decide (s.target i = -1 ∨ s.target i = p)) = s.bystanders :=
        List.filter_eq_self.2 fun p _ => decide_eq_true (Or.inl hall)
      rw [hfilter, Ne, List.append_eq_nil_iff, not_and_or, ← Ne, hstruck]
      constructor
      · rintro (⟨hb, -⟩ | hb)
        · exact ⟨hb, i, Nat.lt_succ_self i, by rw [hget, hall]⟩
        · exact ⟨hb, i, Nat.lt_succ_self i, by rw [hget, hall]⟩
      · exact fun ⟨hb, _⟩ => Or.inr hb
    · have hfilter : s.bystanders.filter (fun p : Nat => decide (s.target i = -1 ∨ s.target i = p)) = [] :=
        List.filter_eq_nil_iff.2 fun p hp h => by
          rcases of_decide_eq_true h with h | h
          · exact hall h
          · exact hi.outsiders p hp (by rw [← h]; exact hmem)
      rw [hfilter, List.append_nil, hstruck]
      refine and_congr_right fun _ =>
        ⟨fun ⟨k, hk, hpid⟩ => ⟨k, Nat.lt_succ_of_lt hk, hpid⟩, fun ⟨k, hk, hpid⟩ => ⟨k, ?_, hpid⟩⟩
      refine Nat.lt_of_le_of_ne (Nat.le_of_lt_succ hk) fun hki => hall ?_
      subst hki
      exact Option.some.inj (hget.symm.trans hpid)

/-- **A wait is over**: the child it was for is not there any more. -/
theorem Inv.wait (hi : Inv children s) {i : Nat} (hpc : s.pc = .waiting i) (hlt : i < children) {procs : List Child}
    (hsub : ∀ q ∈ procs, q ∈ s.procs) (hgone : ∀ q ∈ procs, s.target i ≠ q.pid) :
    Inv children { s with pc := .waiting (i + 1), procs := procs } := by
  have hget := getElem?_target hi hlt (fun j => by rw [hpc]; exact (nomatch ·))
  have hleft := hi.left
  have hdead := hi.dead
  have hstruck := hi.struck
  have hlength := hi.length
  rw [hpc] at hleft hdead hstruck hlength
  exact {
    length    := hlength
    bound     := ⟨hi.bound.1, Nat.le_refl _, hlt⟩
    outsiders := hi.outsiders
    present   := fun h => absurd h (Nat.succ_ne_zero i)
    left      := fun q hq => by
      obtain ⟨k, hk, hpid⟩ := hleft q (hsub q hq)
      have hki : k ≠ i := fun hki => by
        subst hki
        exact hgone q hq (Option.some.inj (hget.symm.trans hpid))
      exact ⟨k, Nat.lt_of_le_of_ne hk (Ne.symm hki), hpid⟩
    dead      := fun q hq => hdead q (hsub q hq)
    struck    := hstruck }

theorem inv_parent (hi : Inv children s) (h : s.parentStep children = some s') : Inv children s' := by
  have hlength := hi.length
  have hbound := hi.bound
  unfold State.parentStep at h
  split at h
  · rename_i i hpc
    rw [hpc] at hlength
    split at h
    · cases h
    · cases h
      exact hi.goto (by show s.childPids.length = children; have : s.childPids.length = i := hlength; omega)
        (by rw [hpc]; rfl) (by rw [hpc]; rfl)
  · rename_i hpc
    cases h
    rw [hpc] at hlength
    exact hi.goto hlength (by rw [hpc]; rfl) (by rw [hpc]; rfl)
  · rename_i i hpc
    rw [hpc] at hlength hbound
    split at h
    · rename_i hlt
      cases h
      exact hi.kill hpc hlt
    · rename_i hge
      cases h
      have hi' : i = children := Nat.le_antisymm hbound.2.1 (Nat.le_of_not_lt hge)
      exact hi.goto hlength (by rw [hpc]; exact hi'.symm) (by rw [hpc]; rfl)
  · rename_i i hpc
    rw [hpc] at hlength hbound
    split at h
    · rename_i hlt
      split at h
      · cases h
      · rename_i hnone
        cases h
        refine hi.wait hpc hlt (fun _ hq => hq) fun q hq htarget => hnone ?_
        exact List.any_eq_true.2 ⟨q, hq, decide_eq_true (Or.inr htarget)⟩
    · rename_i hge
      cases h
      have hi' : i = children := Nat.le_antisymm hbound.2.2 (Nat.le_of_not_lt hge)
      exact hi.goto hlength (by rw [hpc]; rfl) (by rw [hpc]; exact hi'.symm)
  · cases h

theorem inv_reap (hi : Inv children s) {i pid : Nat} (hpc : s.pc = .waiting i) (hlt : i < children)
    (h : s.reap i pid = some s') : Inv children s' := by
  obtain ⟨⟨htarget, -⟩, heq⟩ := Option.ite_none_right_eq_some.1 h
  cases heq
  refine hi.wait hpc hlt (fun _ hq => (List.mem_filter.1 hq).1) fun q hq heq => ?_
  have hne : q.pid ≠ pid := of_decide_eq_true (List.mem_filter.1 hq).2
  rcases htarget with htarget | htarget
  · omega
  · exact hne (Int.ofNat_inj.1 (heq.symm.trans htarget))

theorem inv_step (s : State) (e : Event) (s' : State) (hi : Inv children s) (h : s.step children e = some s') :
    Inv children s' := by
  cases e with
  | parent => exact inv_parent hi h
  | forks r =>
    unfold State.step at h
    dsimp only at h
    split at h
    · rename_i i hpc
      obtain ⟨hlt, h⟩ := Option.ite_none_right_eq_some.1 h
      exact inv_fork hi hpc hlt h
    · cases h
  | reaps pid =>
    unfold State.step at h
    dsimp only at h
    split at h
    · rename_i i hpc
      obtain ⟨hlt, h⟩ := Option.ite_none_right_eq_some.1 h
      exact inv_reap hi hpc hlt h
    · cases h
  | child pid =>
    obtain ⟨-, h⟩ := Option.ite_none_right_eq_some.1 h
    cases h
    exact hi.tame (tame_goesOn pid)
  | dies pid =>
    obtain ⟨-, h⟩ := Option.ite_none_right_eq_some.1 h
    cases h
    exact hi.tame (tame_dies pid)

/-! ## Its end -/

def Child.work (q : Child) : Nat :=
  match q.pc with
  | .allocate => 3
  | .announce => 2
  | .sleeping => 1
  | .dead     => 0

def procsWork : List Child → Nat
  | []      => 0
  | q :: qs => q.work + procsWork qs

/-- What is left to do for the parent; a child to come counts with its own work. -/
def Pc.work (children : Nat) : Pc → Nat
  | .launching i => 4 * (children - i) + (2 * children + 5)
  | .reporting   => 2 * children + 4
  | .killing i   => (children - i) + (children + 3)
  | .waiting i   => (children - i) + 1
  | .ended       => 0

def State.work (children : Nat) (s : State) : Nat := s.pc.work children + procsWork s.procs

theorem procsWork_append (as bs : List Child) : procsWork (as ++ bs) = procsWork as + procsWork bs := by
  induction as with
  | nil => rw [List.nil_append, procsWork, Nat.zero_add]
  | cons a as ih => rw [List.cons_append, procsWork, procsWork, ih, Nat.add_assoc]

theorem procsWork_map_le {f : Child → Child} (hf : ∀ q, (f q).work ≤ q.work) : ∀ l, procsWork (l.map f) ≤ procsWork l
  | []     => Nat.le_refl _
  | q :: l => Nat.add_le_add (hf q) (procsWork_map_le hf l)

theorem procsWork_map_lt {f : Child → Child} (hf : ∀ q, (f q).work ≤ q.work) {q : Child} (hq : (f q).work < q.work) :
    ∀ {l : List Child}, q ∈ l → procsWork (l.map f) < procsWork l
  | r :: l, h => by
    rcases List.mem_cons.1 h with rfl | h
    · exact Nat.add_lt_add_of_lt_of_le hq (procsWork_map_le hf l)
    · exact Nat.add_lt_add_of_le_of_lt (hf r) (procsWork_map_lt hf hq h)

theorem procsWork_filter_le (p : Child → Bool) : ∀ l, procsWork (l.filter p) ≤ procsWork l
  | []     => Nat.le_refl _
  | q :: l => by
    have ih := procsWork_filter_le p l
    rw [List.filter_cons]
    split
    · exact Nat.add_le_add_left ih q.work
    · exact Nat.le_trans ih (Nat.le_add_left _ _)

theorem work_next (q : Child) : q.next.work ≤ q.work ∧ (q.next ≠ q → q.next.work < q.work) := by
  obtain ⟨pid, pc⟩ := q
  cases pc with
  | allocate => exact ⟨Nat.le_succ 2, fun _ => Nat.lt_succ_self 2⟩
  | announce => exact ⟨Nat.le_succ 1, fun _ => Nat.lt_succ_self 1⟩
  | sleeping => exact ⟨Nat.le_refl _, fun h => absurd rfl h⟩
  | dead     => exact ⟨Nat.le_refl _, fun h => absurd rfl h⟩

theorem work_goesOn (pid : Nat) (q : Child) : (q.goesOn pid).work ≤ q.work := by
  unfold Child.goesOn
  split
  · exact (work_next q).1
  · exact Nat.le_refl _

theorem work_dies (pid : Nat) (q : Child) : (q.dies pid).work ≤ q.work := by
  unfold Child.dies
  split
  · exact Nat.zero_le _
  · exact Nat.le_refl _

theorem work_signalled (pid : Int) (q : Child) : (q.signalled pid).work ≤ q.work := by
  unfold Child.signalled
  split
  · exact Nat.zero_le _
  · exact Nat.le_refl _

theorem work_pos {q : Child} (h : q.pc ≠ .dead) : 0 < q.work := by
  unfold Child.work
  split
  · decide
  · decide
  · decide
  · rename_i hpc; exact absurd hpc h

theorem work_parent (h : s.parentStep children = some s') : s'.work children < s.work children := by
  have hgoto : ∀ {pc : Pc}, pc.work children < s.pc.work children →
      State.work children { s with pc := pc } < s.work children :=
    fun hlt => Nat.add_lt_add_right hlt _
  unfold State.parentStep at h
  split at h
  · rename_i i hpc
    split at h
    · cases h
    · cases h; exact hgoto (by rw [hpc]; simp only [Pc.work]; omega)
  · rename_i hpc
    cases h
    exact hgoto (by rw [hpc]; simp only [Pc.work]; omega)
  · rename_i i hpc
    split at h
    · rename_i hlt
      cases h
      have hprocs := procsWork_map_le (work_signalled (s.target i)) s.procs
      refine Nat.add_lt_add_of_lt_of_le ?_ hprocs
      rw [hpc]; simp only [Pc.work]; omega
    · cases h; exact hgoto (by rw [hpc]; simp only [Pc.work]; omega)
  · rename_i i hpc
    split at h
    · split at h
      · cases h
      · cases h; exact hgoto (by rw [hpc]; simp only [Pc.work]; omega)
    · cases h; exact hgoto (by rw [hpc]; exact Nat.succ_pos _)
  · cases h

/-- **Every step leaves less to do.** -/
theorem step_work (s : State) (e : Event) (s' : State) (h : s.step children e = some s') :
    s'.work children < s.work children := by
  cases e with
  | parent => exact work_parent h
  | forks r =>
    unfold State.step at h
    dsimp only at h
    split at h
    · rename_i i hpc
      obtain ⟨hlt, h⟩ := Option.ite_none_right_eq_some.1 h
      have hpcs : (Pc.launching (i + 1)).work children + 4 = s.pc.work children := by
        rw [hpc]; simp only [Pc.work]; omega
      unfold State.work
      cases r with
      | none => cases h; dsimp only; omega
      | some pid =>
        unfold State.fork at h
        dsimp only at h
        split at h
        · cases h
        · cases h
          have happ : procsWork (s.procs ++ [⟨pid, .allocate⟩]) = procsWork s.procs + 3 := procsWork_append _ _
          dsimp only
          omega
    · cases h
  | reaps pid =>
    unfold State.step at h
    dsimp only at h
    split at h
    · rename_i i hpc
      obtain ⟨hlt, h⟩ := Option.ite_none_right_eq_some.1 h
      obtain ⟨-, heq⟩ := Option.ite_none_right_eq_some.1 h
      cases heq
      refine Nat.add_lt_add_of_lt_of_le ?_ (procsWork_filter_le _ _)
      rw [hpc]; simp only [Pc.work]; omega
    · cases h
  | child pid =>
    obtain ⟨⟨q, hq, hpid, hne⟩, h⟩ := Option.ite_none_right_eq_some.1 h
    cases h
    refine Nat.add_lt_add_left (procsWork_map_lt (work_goesOn pid) ?_ hq) _
    rw [Child.goesOn, if_pos hpid]
    exact (work_next q).2 hne
  | dies pid =>
    obtain ⟨⟨q, hq, hpid, hne⟩, h⟩ := Option.ite_none_right_eq_some.1 h
    cases h
    refine Nat.add_lt_add_left (procsWork_map_lt (work_dies pid) ?_ hq) _
    rw [Child.dies, if_pos hpid]
    exact work_pos hne

/-- **What is stuck is finished**: `fork` returns, and whoever is waited for was signalled. -/
theorem finished_of_stuck (hi : Inv children s) (h : Runs.StuckBut Event.IsChance (State.step children) s) :
    Finished s := by
  have hparent : s.parentStep children = none := h .parent id
  unfold State.parentStep at hparent
  have hleft := hi.left
  have hdead := hi.dead
  cases hpc : s.pc with
  | launching i =>
    rw [hpc] at hparent
    have hforks := h (.forks none) id
    unfold State.step at hforks
    rw [hpc] at hforks
    dsimp only at hparent hforks
    by_cases hlt : i < children
    · rw [if_pos hlt] at hforks; cases hforks
    · rw [if_neg hlt] at hparent; cases hparent
  | reporting => rw [hpc] at hparent; cases hparent
  | killing i => rw [hpc] at hparent; cases hparent
  | waiting i =>
    rw [hpc] at hparent hleft hdead
    dsimp only at hparent
    by_cases hlt : i < children
    · rw [if_pos hlt] at hparent
      by_cases hawaits : s.awaits (s.target i) = true
      · -- the child that is awaited is dead, so the wait returns
        obtain ⟨q, hq, htarget⟩ := List.any_eq_true.1 hawaits
        obtain ⟨k, -, hk⟩ := hleft q hq
        have hklt : k < children := Nat.lt_of_lt_of_le (List.getElem?_eq_some_iff.1 hk).1 hi.bound.1
        have hqdead : q.pc = .dead := hdead q hq k hklt hk
        have hreaps := h (.reaps q.pid) id
        unfold State.step at hreaps
        rw [hpc] at hreaps
        dsimp only at hreaps
        have hmem : (⟨q.pid, .dead⟩ : Child) ∈ s.procs := by rw [← hqdead]; exact hq
        rw [if_pos hlt, State.reap, if_pos ⟨of_decide_eq_true htarget, hmem⟩] at hreaps
        cases hreaps
      · rw [if_neg hawaits] at hparent; cases hparent
    · rw [if_neg hlt] at hparent; cases hparent
  | ended =>
    refine ⟨hpc, List.eq_nil_iff_forall_not_mem.2 fun q hq => ?_⟩
    obtain ⟨k, hk, hpid⟩ := hleft q hq
    rw [hpc] at hk
    have hklt : k < s.childPids.length := (List.getElem?_eq_some_iff.1 hpid).1
    have hchildren : children ≤ k := hk
    have := hi.bound.1
    omega

/-- **Every run of `membomb` ends**, and leaves no child behind, whichever `fork` fails and however the children die, or
do not die before they are signalled. -/
theorem membomb_completes (children : Nat) (bystanders : List Nat) :
    Runs.CompletesBut Event.IsChance (State.step children) Finished (.start bystanders) :=
  Runs.completesBut_of_decreases inv_step (fun s e s' _ h => step_work s e s' h) (fun _ hi h => finished_of_stuck hi h)
    (inv_start children bystanders)

/-! ## The bystanders -/

/-- What the events so far have made of the pids. -/
structure Past (bystanders : List Nat) (es : List Event) (s : State) : Prop where
  failed     : (-1) ∈ s.childPids ↔ .forks none ∈ es
  bystanders : s.bystanders = bystanders

theorem past_step {bystanders : List Nat} {es : List Event} (hp : Past bystanders es s)
    (h : s.step children e = some s') :
    Past bystanders (es ++ [e]) s' := by
  have hsame : s'.childPids = s.childPids → s'.bystanders = s.bystanders → e ≠ .forks none →
      Past bystanders (es ++ [e]) s' :=
    fun hpids hby hne => by
      refine ⟨?_, hby.trans hp.bystanders⟩
      rw [hpids, hp.failed, List.mem_append, List.mem_singleton]
      exact (or_iff_left (Ne.symm hne)).symm
  cases e with
  | parent =>
    replace h : s.parentStep children = some s' := h
    unfold State.parentStep at h
    split at h
    · split at h
      · cases h
      · cases h; exact hsame rfl rfl (nomatch ·)
    · cases h; exact hsame rfl rfl (nomatch ·)
    · split at h
      · cases h; exact hsame rfl rfl (nomatch ·)
      · cases h; exact hsame rfl rfl (nomatch ·)
    · split at h
      · split at h
        · cases h
        · cases h; exact hsame rfl rfl (nomatch ·)
      · cases h; exact hsame rfl rfl (nomatch ·)
    · cases h
  | forks r =>
    unfold State.step at h
    dsimp only at h
    split at h
    · obtain ⟨-, h⟩ := Option.ite_none_right_eq_some.1 h
      cases r with
      | none =>
        cases h
        exact ⟨iff_of_true (List.mem_append_right _ (List.mem_singleton.2 rfl))
            (List.mem_append_right _ (List.mem_singleton.2 rfl)),
          hp.bystanders⟩
      | some pid =>
        unfold State.fork at h
        dsimp only at h
        split at h
        · cases h
        · cases h
          refine ⟨?_, hp.bystanders⟩
          rw [List.mem_append, List.mem_append, hp.failed, List.mem_singleton, List.mem_singleton]
          refine or_congr_right (iff_of_false (fun h => ?_) (nomatch ·))
          omega
    · cases h
  | reaps pid =>
    unfold State.step at h
    dsimp only at h
    split at h
    · obtain ⟨-, h⟩ := Option.ite_none_right_eq_some.1 h
      obtain ⟨-, heq⟩ := Option.ite_none_right_eq_some.1 h
      cases heq
      exact hsame rfl rfl (nomatch ·)
    · cases h
  | child pid =>
    obtain ⟨-, h⟩ := Option.ite_none_right_eq_some.1 h
    cases h
    exact hsame rfl rfl (nomatch ·)
  | dies pid =>
    obtain ⟨-, h⟩ := Option.ite_none_right_eq_some.1 h
    cases h
    exact hsame rfl rfl (nomatch ·)

/-- **Who else is signalled**: in a run that has ended nobody but the children exactly if no `fork` failed. -/
theorem spared_iff (children : Nat) (bystanders : List Nat) (es : List Event) (t : State)
    (hrun : Runs.run (State.step children) (.start bystanders) es = some t) (hended : t.pc = .ended)
    (hby : bystanders ≠ []) :
    t.struck = [] ↔ .forks none ∉ es := by
  have hi : Inv children t := Runs.run_invariant inv_step es (inv_start children bystanders) hrun
  have hp : Past bystanders ([] ++ es) t := Runs.run_invariant_events (fun _ _ _ _ => past_step) es
    ⟨iff_of_false List.not_mem_nil List.not_mem_nil, rfl⟩ hrun
  have hfailed : (-1) ∈ t.childPids ↔ .forks none ∈ es := hp.failed
  have hstruck := hi.struck
  rw [hp.bystanders, hended] at hstruck
  rw [← not_iff_not, not_not, ← hfailed, ← Ne, hstruck, and_iff_right hby]
  constructor
  · exact fun ⟨k, _, hk⟩ => List.mem_of_getElem? hk
  · intro hmem
    obtain ⟨k, hk⟩ := List.getElem?_of_mem hmem
    exact ⟨k, Nat.lt_of_lt_of_le (List.getElem?_eq_some_iff.1 hk).1 hi.bound.1, hk⟩

/-- Two children, of which the second is not forked. -/
def forkFails : List Event :=
  [.forks (some 100), .forks none, .parent, .parent, .parent, .parent, .parent, .reaps 100, .parent, .parent]

/-- An editor and a database that have nothing to do with it. -/
theorem spared_iff_forkFails : ∃ t, Runs.run (State.step 2) (.start [7, 8]) forkFails = some t ∧ t.struck ≠ [] := by
  obtain ⟨t, hrun, hended⟩ : ∃ t, Runs.run (State.step 2) (.start [7, 8]) forkFails = some t ∧ t.pc = .ended :=
    Runs.exists_run_of_any (by decide)
  exact ⟨t, hrun, fun h => (spared_iff 2 [7, 8] forkFails t hrun hended (by decide)).1 h (by decide)⟩

end Overcommit
end Scrapcode
