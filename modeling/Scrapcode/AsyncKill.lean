import Scrapcode.AsyncQueue
import Scrapcode.Machines
/-!
# AsyncKill — the error cleanup of the libpq event-loop sample

`kill_sessions` pops the items of each registered session until its queue is empty, the last session first, and ends
its connection.  The sessions share memory; their queues hold what `simple_command_enqueue` and `insert_query_enqueue`
put there.

The free callback of an insert pushes its item again, and what it leaves is a chain that comes back to the item: the
queue is never empty.  So the cleanup does what it is for (`Cleans`) exactly where no queue holds an insert, and no
queue ends in storage with a stale link (`Harmless`).
-/
namespace Scrapcode
namespace Async

open Programs

/-! ## The sessions -/

/-- A registered session: whether its `conn` is set, how often `PQfinish` was called for it, and what was done to its
queue. -/
structure Registered where
  session   : AppSession
  connected : Bool
  finished  : Nat
  log       : List Event

/-- The registered sessions; the first `nsessions` are counted. -/
structure Sessions where
  heap      : Addr → Option QueryQueueItem
  sessions  : List Registered
  nsessions : Nat

namespace Sessions

/-- One session, as the queue functions see it. -/
def world (st : Sessions) (r : Registered) : World where
  heap    := st.heap
  session := r.session
  pollout := false
  inDrain := false
  halted  := none
  log     := r.log

def store (st : Sessions) (i : Nat) (r : Registered) (w : World) : Sessions :=
  { st with heap := w.heap, sessions := st.sessions.set i { r with session := w.session, log := w.log } }

/-- `PQfinish`, if the connection is set, and `nsessions --`. -/
def finish (st : Sessions) (i : Nat) (r : Registered) : Sessions :=
  { st with
    sessions  := st.sessions.set i
      { r with finished := if r.connected = true then r.finished + 1 else r.finished, connected := false }
    nsessions := i }

end Sessions

/-- How `kill_sessions` ends. -/
inductive Killed where
  | returned (st : Sessions)
  | fault (f : Fault)

/-- One test of a loop of `kill_sessions` and what it leads to. -/
def killSessions (st : Sessions) : Machines.State Sessions Killed :=
  match st.nsessions with
  | 0     => .ended (.returned st)
  | n + 1 =>
    match st.sessions[n]? with
    | none   => .ended (.fault .badAddress)
    | some r =>
      if r.session.queueHead.isSome = true then
        match popQueryQueueItem (st.world r) with
        | .ok _ w    => .running (st.store n r w)
        | .error f _ => .ended (.fault f)
      else .running (st.finish n r)

/-! ## How the queues come about -/

/-- `strdup`'s copy is the item's private data; `malloc` returns storage that may hold anything. -/
def simpleCommandEnqueue (a : Addr) (storage : QueryQueueItem) (querytext : UInt64) (comment : Option (List Char)) :
    Prog Unit := do
  storeItem a storage
  pushQueryQueueItem (some a) (some simpleCommandSend) (some simpleCommandResult) (some .simpleCommandFree) querytext
    comment

inductive Enqueue where
  | simpleCommand (i : Nat) (a : Addr) (storage : QueryQueueItem) (querytext : UInt64) (comment : Option (List Char))
  | insertQuery (i : Nat) (a : Addr) (dummyval : Int32)

namespace Sessions

def enqueue (st : Sessions) (i : Nat) (p : Prog Unit) : Option Sessions :=
  st.sessions[i]?.bind (fun r =>
    match p (st.world r) with
    | .ok _ w    => some (st.store i r w)
    | .error _ _ => none)

/-- An item onto a session's queue: in storage `malloc` has free, or in storage of the caller that is in no queue. -/
def enqueueStep (st : Sessions) : Enqueue → Option Sessions
  | .simpleCommand i a storage querytext comment =>
    if (st.heap a).isNone then st.enqueue i (simpleCommandEnqueue a storage querytext comment) else none
  | .insertQuery i a dummyval =>
    if (st.heap a).isSome ∧ ∀ r ∈ st.sessions, a ∉ pending r.log then st.enqueue i (insertQueryEnqueue (some a) dummyval)
    else none

/-- Sessions with empty queues, over any memory. -/
def Fresh (st : Sessions) : Prop :=
  st.nsessions = st.sessions.length ∧
  ∀ r ∈ st.sessions, r.session.queueHead = none ∧ r.session.queueTail = none ∧ r.log = []

end Sessions

/-! ## What the cleanup is for -/

/-- The items whose free callback was called, in order. -/
def freed (log : List Event) : List Addr :=
  log.filterMap (fun e =>
    match e with
    | .popped a => some a
    | _         => none)

/-- The session is cleaned up: its queue is empty, its items were freed once each, its connection was finished once. -/
structure Registered.Cleaned (r r' : Registered) : Prop where
  head      : r'.session.queueHead = none
  tail      : r'.session.queueTail = none
  freed     : freed r'.log = freed r.log ++ pending r.log
  connected : r'.connected = false
  finished  : r'.finished = r.finished + if r.connected = true then 1 else 0

/-- **`kill_sessions` returns** and every session is cleaned up. -/
def Cleans (st : Sessions) : Prop :=
  ∃ n st', Machines.steps killSessions n (.running st) = .ended (.returned st') ∧ st'.nsessions = 0 ∧
    ∀ (i : Nat) r, st.sessions[i]? = some r → ∃ r', st'.sessions[i]? = some r' ∧ r.Cleaned r'

/-- The link of an item. -/
def links (heap : Addr → Option QueryQueueItem) (a : Addr) : Option Ptr := (heap a).map QueryQueueItem.next

def freeCbOf (heap : Addr → Option QueryQueueItem) (a : Addr) : Option (Option FreeCb) :=
  (heap a).map QueryQueueItem.freeCb

/-- **No item pushes itself again**, and no queue ends in a stale link. -/
def Harmless (heap : Addr → Option QueryQueueItem) (r : Registered) : Prop :=
  (∀ a ∈ pending r.log, freeCbOf heap a ≠ some (some .insertQueryFree)) ∧
    ∀ t, r.session.queueTail = some t → links heap t = some none

/-! ## Queues as they are built -/

/-- The items `l` are queued; the link of the last one may be any. -/
structure Queue (heap : Addr → Option QueryQueueItem) (s : AppSession) (l : List Addr) : Prop where
  chain : ∃ q, Leads (links heap) s.queueHead l q
  empty : l = [] → s.queueHead = none
  tail  : s.queueTail = l.getLast?
  nodup : l.Nodup
  items : ∀ a ∈ l, freeCbOf heap a = some (some .simpleCommandFree) ∨ freeCbOf heap a = some (some .insertQueryFree)

/-- What the sessions have in their queues, each item in one of them. -/
structure Queued (st : Sessions) : Prop where
  count : st.nsessions = st.sessions.length
  queue : ∀ (i : Nat) r, st.sessions[i]? = some r → Queue st.heap r.session (pending r.log)
  apart : ∀ (i j : Nat) r r', st.sessions[i]? = some r → st.sessions[j]? = some r' → i ≠ j →
    ∀ a ∈ pending r.log, a ∉ pending r'.log

variable {heap heap' : Addr → Option QueryQueueItem} {s s' : AppSession} {w w' : World} {st st' : Sessions}
  {r r' : Registered} {a : Addr} {l : List Addr} {f : Option FreeCb} {it : QueryQueueItem}

theorem links_update (heap : Addr → Option QueryQueueItem) (a : Addr) (it : QueryQueueItem) (x : Addr) :
    links (Function.update heap a (some it)) x = if x = a then some it.next else links heap x := by
  unfold links
  by_cases hx : x = a
  · subst hx; simp
  · simp [hx]

theorem freeCbOf_update (heap : Addr → Option QueryQueueItem) (a : Addr) (it : QueryQueueItem) (x : Addr) :
    freeCbOf (Function.update heap a (some it)) x = if x = a then some it.freeCb else freeCbOf heap x := by
  unfold freeCbOf
  by_cases hx : x = a
  · subst hx; simp
  · simp [hx]

theorem links_update_same (hit : heap a = some it) {it' : QueryQueueItem} (hn : it'.next = it.next) :
    links (Function.update heap a (some it')) = links heap := by
  funext x
  rw [links_update]
  split
  · rename_i hx; rw [hx, hn, links, hit]; rfl
  · rfl

theorem links_congr (h : heap' a = heap a) : links heap' a = links heap a := by
  rw [links, links, h]

theorem freeCbOf_congr (h : heap' a = heap a) : freeCbOf heap' a = freeCbOf heap a := by
  rw [freeCbOf, freeCbOf, h]

/-- What a push that fails no assert has done. -/
structure PushedOnto (w w' : World) (a : Addr) (f : Option FreeCb) : Prop where
  log    : w'.log = w.log ++ [.pushed a]
  tail   : w'.session.queueTail = some a
  freeCb : ∀ x, freeCbOf w'.heap x = if x = a then some f else freeCbOf w.heap x
  frame  : ∀ x, x ≠ a → w.session.queueTail ≠ some x → w'.heap x = w.heap x
  linked : (w.session.queueHead = none ∧ w'.session.queueHead = some a ∧ links w'.heap = links w.heap) ∨
    ∃ t, w.session.queueTail = some t ∧ w.session.queueHead ≠ none ∧ links w.heap t = some none ∧
      w'.session.queueHead = w.session.queueHead ∧
      ∀ x, links w'.heap x = if x = t then some (some a) else links w.heap x

theorem push_pushedOnto (hit : w.heap a = some it) {s : SendCb} {r : ResultCb} {c : UInt64} {m : Option (List Char)}
    (h : pushQueryQueueItem (some a) (some s) (some r) f c m w = .ok () w') : PushedOnto w w' a f := by
  have hlinks : links (Function.update w.heap a (some (it.filled (some s) (some r) f c m))) = links w.heap :=
    links_update_same hit rfl
  cases hhd : w.session.queueHead with
  | none =>
    cases htl : w.session.queueTail with
    | none =>
      simp [pushQueryQueueItem, hit, hhd, htl] at h
      subst h
      refine ⟨rfl, rfl, freeCbOf_update _ _ _, fun x hx _ => Function.update_of_ne hx _ _, Or.inl ⟨hhd, rfl, hlinks⟩⟩
    | some t => simp [pushQueryQueueItem, hit, hhd, htl] at h
  | some x =>
    cases htl : w.session.queueTail with
    | none => simp [pushQueryQueueItem, hit, hhd, htl] at h
    | some t =>
      cases ht : Function.update w.heap a (some (it.filled (some s) (some r) f c m)) t with
      | none => simp [pushQueryQueueItem, hit, hhd, htl, ht] at h
      | some tit =>
        cases hn : tit.next with
        | some y => simp [pushQueryQueueItem, hit, hhd, htl, ht, hn] at h
        | none =>
          simp [pushQueryQueueItem, hit, hhd, htl, ht, hn] at h
          subst h
          have htn : links w.heap t = some none := by rw [← hlinks, links, ht, ← hn]; rfl
          have htf : some tit.freeCb = freeCbOf (Function.update w.heap a (some (it.filled (some s) (some r) f c m))) t := by
            rw [freeCbOf, ht]; rfl
          refine ⟨rfl, rfl, fun y => ?_, fun y hya hyt => ?_, Or.inr ⟨t, htl, by simp [hhd], htn, hhd.symm, fun y => ?_⟩⟩
          · rw [freeCbOf_update]
            split
            · rename_i hy; rw [hy, htf, freeCbOf_update]; rfl
            · exact freeCbOf_update _ _ _ _
          · have hyt' : y ≠ t := fun e => hyt (by rw [htl, e])
            show Function.update (Function.update w.heap a _) t _ y = _
            rw [Function.update_of_ne hyt', Function.update_of_ne hya]
          · rw [links_update, hlinks]

theorem Queue.congr (h : Queue heap s l) (hheap : ∀ x ∈ l, heap' x = heap x) : Queue heap' s l := by
  obtain ⟨q, hq⟩ := h.chain
  refine ⟨⟨q, hq.congr fun x hx => links_congr (hheap x hx)⟩, h.empty, h.tail, h.nodup, fun x hx => ?_⟩
  rw [freeCbOf_congr (hheap x hx)]
  exact h.items x hx

theorem ne_last {x t : Addr} (h : (l ++ [t]).Nodup) (hx : x ∈ l) : x ≠ t :=
  (List.nodup_append.1 h).2.2 x hx t (List.mem_singleton_self t)

/-- **A push puts its item at the end** of a queue, with whatever link it has. -/
theorem Queue.push (h : Queue w.heap w.session l) (ha : a ∉ l) (hit : w.heap a = some it)
    (hf : f = some .simpleCommandFree ∨ f = some .insertQueryFree) (hp : PushedOnto w w' a f) :
    Queue w'.heap w'.session (l ++ [a]) := by
  have hla : links w.heap a = some it.next := by rw [links, hit]; rfl
  obtain ⟨q, hq⟩ := h.chain
  refine ⟨⟨it.next, ?_⟩, by simp, by rw [hp.tail]; simp, ?_, fun x hx => ?_⟩
  · rcases hp.linked with ⟨hhd, hhd', hl⟩ | ⟨t, ht, hhd, htn, hhd', hl⟩
    · obtain ⟨rfl, -⟩ := hq.null_iff.1 hhd
      rw [hhd', hl]
      exact ⟨rfl, it.next, hla, rfl⟩
    · obtain ⟨l', rfl⟩ : ∃ l', l = l' ++ [t] := List.getLast?_eq_some_iff.1 (h.tail.symm.trans ht)
      have hta : a ≠ t := fun e => ha (by rw [e]; simp)
      have hl' : ∀ x ∈ l', links w'.heap x = links w.heap x := fun x hx => by
        rw [hl, if_neg (ne_last h.nodup hx)]
      rw [hhd']
      exact (hq.relink hl' (by rw [hl, if_pos rfl])).concat (by rw [hl, if_neg hta, hla])
  · exact List.nodup_append.2 ⟨h.nodup, by simp, fun x hx y hy e => ha (by
      rw [List.mem_singleton] at hy; rw [← hy, ← e]; exact hx)⟩
  · rw [hp.freeCb]
    split
    · rcases hf with rfl | rfl
      · exact Or.inl rfl
      · exact Or.inr rfl
    · rename_i hxa
      rcases List.mem_append.1 hx with hx | hx
      · exact h.items x hx
      · exact absurd (List.mem_singleton.1 hx) hxa

theorem getElem?_set_cases {i j : Nat} (h : (st.sessions.set i r')[j]? = some r) :
    (j = i ∧ r = r' ∧ i < st.sessions.length) ∨ (j ≠ i ∧ st.sessions[j]? = some r) := by
  by_cases hji : j = i
  · subst hji
    have hlt : j < st.sessions.length := by
      have := (List.getElem?_eq_some_iff.1 h).1
      rwa [List.length_set] at this
    rw [List.getElem?_set_self hlt] at h
    exact Or.inl ⟨rfl, (Option.some.inj h).symm, hlt⟩
  · rw [List.getElem?_set_ne (Ne.symm hji)] at h
    exact Or.inr ⟨hji, h⟩

/-- A session's queue grows by an item that is in no queue. -/
theorem Queued.store {i : Nat} (h : Queued st) (hr : st.sessions[i]? = some r)
    (ha : ∀ (j : Nat) r', st.sessions[j]? = some r' → a ∉ pending r'.log)
    (hq : Queue w.heap w.session (pending r.log ++ [a])) (hlog : w.log = r.log ++ [.pushed a])
    (hframe : ∀ x, x ≠ a → r.session.queueTail ≠ some x → w.heap x = st.heap x) : Queued (st.store i r w) := by
  have hpend : pending w.log = pending r.log ++ [a] := by rw [hlog, pending_append]; rfl
  have hnew : ∀ (j : Nat) r', st.sessions[j]? = some r' → j ≠ i → ∀ x ∈ pending r'.log, x ∉ pending w.log := by
    intro j r' hr' hji x hx hxw
    rw [hpend, List.mem_append, List.mem_singleton] at hxw
    rcases hxw with hxw | rfl
    · exact h.apart j i r' r hr' hr hji x hx hxw
    · exact ha j r' hr' hx
  refine ⟨by rw [Sessions.store, List.length_set]; exact h.count, fun j r' hr' => ?_, fun j k r₁ r₂ h₁ h₂ hjk => ?_⟩
  · rcases getElem?_set_cases hr' with ⟨-, rfl, -⟩ | ⟨hji, hr'⟩
    · exact hpend ▸ hq
    · refine (h.queue j r' hr').congr fun x hx => hframe x (fun e => ha j r' hr' (e ▸ hx)) fun ht => ?_
      have hxi : x ∈ pending r.log := List.mem_of_getLast? (((h.queue i r hr).tail).symm.trans ht)
      exact h.apart j i r' r hr' hr hji x hx hxi
  · rcases getElem?_set_cases h₁ with ⟨rfl, rfl, -⟩ | ⟨hj, hj₁⟩
    · rcases getElem?_set_cases h₂ with ⟨rfl, -, -⟩ | ⟨hk, hk₂⟩
      · exact absurd rfl hjk
      · exact fun x hx hx' => hnew k r₂ hk₂ hk x hx' hx
    · rcases getElem?_set_cases h₂ with ⟨rfl, rfl, -⟩ | ⟨hk, hk₂⟩
      · exact hnew j r₁ hj₁ hj
      · exact h.apart j k r₁ r₂ hj₁ hk₂ hjk

theorem enqueue_queued {i : Nat} {p : Prog Unit}
    (hp : ∀ r w, st.sessions[i]? = some r → p (st.world r) = .ok () w → Queued (st.store i r w))
    (hs : st.enqueue i p = some st') : Queued st' := by
  obtain ⟨r, hr, hs⟩ := Option.bind_eq_some_iff.1 hs
  cases hw : p (st.world r) with
  | ok x w    => rw [hw] at hs; cases hs; exact hp r w hr hw
  | error f w => rw [hw] at hs; cases hs

theorem enqueueStep_queued {e : Enqueue} (h : Queued st) (hs : st.enqueueStep e = some st') : Queued st' := by
  cases e with
  | simpleCommand i a storage querytext comment =>
    simp only [Sessions.enqueueStep, Option.ite_none_right_eq_some, Option.isNone_iff_eq_none] at hs
    obtain ⟨hfree, hs⟩ := hs
    refine enqueue_queued (fun r w hr hw => ?_) hs
    have ha : ∀ (j : Nat) r', st.sessions[j]? = some r' → a ∉ pending r'.log := fun j r' hr' ha => by
      rcases (h.queue j r' hr').items a ha with hf | hf
      · rw [freeCbOf, hfree] at hf; cases hf
      · rw [freeCbOf, hfree] at hf; cases hf
    simp only [simpleCommandEnqueue, bind_run, storeItem_run] at hw
    have hheap : ∀ x, x ≠ a → Function.update st.heap a (some storage) x = st.heap x := fun x hx =>
      Function.update_of_ne hx _ _
    have hp := push_pushedOnto (by exact Function.update_self a (some storage) st.heap) hw
    have hq : Queue (Function.update st.heap a (some storage)) r.session (pending r.log) :=
      (h.queue i r hr).congr fun x hx => hheap x (fun e => ha i r hr (e ▸ hx))
    exact h.store hr ha (hq.push (ha i r hr) (Function.update_self a (some storage) st.heap) (Or.inl rfl) hp) hp.log
      fun x hxa hxt => (hp.frame x hxa hxt).trans (hheap x hxa)
  | insertQuery i a dummyval =>
    simp only [Sessions.enqueueStep, Option.ite_none_right_eq_some] at hs
    obtain ⟨⟨hit, hout⟩, hs⟩ := hs
    obtain ⟨it, hit⟩ := Option.isSome_iff_exists.1 hit
    refine enqueue_queued (fun r w hr hw => ?_) hs
    have ha : ∀ (j : Nat) r', st.sessions[j]? = some r' → a ∉ pending r'.log := fun j r' hr' =>
      hout r' (List.mem_of_getElem? hr')
    have hp := push_pushedOnto (by exact hit) hw
    exact h.store hr ha ((h.queue i r hr).push (ha i r hr) hit (Or.inr rfl) hp) hp.log hp.frame

theorem fresh_queued (h : st.Fresh) : Queued st := by
  have hlog : ∀ (i : Nat) r, st.sessions[i]? = some r → pending r.log = [] := fun i r hr => by
    rw [(h.2 r (List.mem_of_getElem? hr)).2.2]; rfl
  refine ⟨h.1, fun i r hr => ?_, fun i j r r' hr _ _ a ha => ?_⟩
  · obtain ⟨hhd, htl, -⟩ := h.2 r (List.mem_of_getElem? hr)
    rw [hlog i r hr]
    exact ⟨⟨none, hhd⟩, fun _ => hhd, htl, List.nodup_nil, fun _ hx => nomatch hx⟩
  · rw [hlog i r hr] at ha; cases ha

theorem run_queued (hfresh : st.Fresh) (es : List Enqueue) (h : Runs.run Sessions.enqueueStep st es = some st') :
    Queued st' :=
  Runs.run_invariant (fun _ _ _ h hs => enqueueStep_queued h hs) es (fresh_queued hfresh) h

/-! ## A queue without inserts -/

@[simp] theorem freed_append (log : List Event) (e : Event) :
    freed (log ++ [e]) = freed log ++ (match e with | .popped a => [a] | _ => []) := by
  unfold freed
  rw [List.filterMap_append]
  cases e <;> rfl

theorem pop_simple (hh : w.session.queueHead = some a) (hit : w.heap a = some it)
    (hf : it.freeCb = some .simpleCommandFree) :
    popQueryQueueItem w = .ok () { unlinked w a it with heap := Function.update w.heap a none } := by
  rw [pop_run hh hit, hf]
  show simpleCommandFree a (unlinked w a it) = _
  have hit' : (unlinked w a it).heap a = some it := hit
  simp only [simpleCommandFree, bind_run, loadItem_run, hit', modify_run]
  rfl

theorem freeCbOf_eq_some {f : Option FreeCb} : freeCbOf heap a = some f ↔ ∃ it, heap a = some it ∧ it.freeCb = f :=
  Option.map_eq_some_iff

theorem links_free {x : Addr} (h : x ≠ a) : links (Function.update heap a none) x = links heap x :=
  links_congr (Function.update_of_ne h _ _)

theorem freeCbOf_free {x : Addr} (h : x ≠ a) : freeCbOf (Function.update heap a none) x = freeCbOf heap x :=
  freeCbOf_congr (Function.update_of_ne h _ _)

/-- Items that are freed when popped, up to a null link. -/
structure Plain (heap : Addr → Option QueryQueueItem) (s : AppSession) (l : List Addr) : Prop where
  chain : Leads (links heap) s.queueHead l none
  tail  : s.queueTail = l.getLast?
  nodup : l.Nodup
  items : ∀ a ∈ l, freeCbOf heap a = some (some .simpleCommandFree)

/-- What is left of a session, and of memory, once its queue was popped. -/
structure Drained (st : Sessions) (i : Nat) (r : Registered) (l : List Addr) (st' : Sessions) (r' : Registered) :
    Prop where
  nsessions : st'.nsessions = i
  sessions  : st'.sessions = st.sessions.set i r'
  heap      : ∀ x, x ∉ l → st'.heap x = st.heap x
  head      : r'.session.queueHead = none
  tail      : r'.session.queueTail = none
  freed     : freed r'.log = freed r.log ++ l
  connected : r'.connected = false
  finished  : r'.finished = r.finished + if r.connected = true then 1 else 0

theorem killSessions_finish {n : Nat} (hn : st.nsessions = n + 1) (hr : st.sessions[n]? = some r)
    (hh : r.session.queueHead = none) : killSessions st = .running (st.finish n r) := by
  unfold killSessions
  rw [hn]
  simp [hr, hh]

theorem killSessions_pop {n : Nat} (hn : st.nsessions = n + 1) (hr : st.sessions[n]? = some r)
    (hh : r.session.queueHead = some a) : killSessions st =
      match popQueryQueueItem (st.world r) with
      | .ok _ w    => .running (st.store n r w)
      | .error f _ => .ended (.fault f) := by
  unfold killSessions
  rw [hn]
  simp [hr, hh]

/-- The state in which the free callback of `a` has returned. -/
def popped (w : World) (a : Addr) (it : QueryQueueItem) : World :=
  { unlinked w a it with heap := Function.update w.heap a none }

/-- An item by its link and its callback. -/
theorem item_of_links {q : Ptr} (hq : links heap a = some q) (hf : freeCbOf heap a = some f) :
    ∃ it, heap a = some it ∧ it.next = q ∧ it.freeCb = f := by
  obtain ⟨it, hit, hf⟩ := freeCbOf_eq_some.1 hf
  rw [links, hit] at hq
  exact ⟨it, hit, Option.some.inj hq, hf⟩

/-- The tail behind the old head. -/
theorem unlinked_tail {q : Ptr} (hchain : Leads (links heap) it.next l q) (hnull : q = none)
    (ht : w.session.queueTail = (a :: l).getLast?) : (unlinked w a it).session.queueTail = l.getLast? := by
  show (if it.next.isNone = true then none else w.session.queueTail) = _
  rw [ht]
  cases l with
  | nil      => rw [show it.next = q from hchain, hnull]; rfl
  | cons x l => rw [hchain.1]; rfl

theorem Plain.pop (h : Plain w.heap w.session (a :: l)) : ∃ it, w.session.queueHead = some a ∧
    popQueryQueueItem w = .ok () (popped w a it) ∧ Plain (popped w a it).heap (popped w a it).session l := by
  obtain ⟨hh, q, hq, hchain⟩ := h.chain
  obtain ⟨it, hit, rfl, hf⟩ := item_of_links hq (h.items a (by simp))
  have hal : ∀ x ∈ l, x ≠ a := fun x hx e => (List.nodup_cons.1 h.nodup).1 (e ▸ hx)
  exact ⟨it, hh, pop_simple hh hit hf, hchain.congr fun x hx => links_free (hal x hx),
    unlinked_tail hchain rfl h.tail, (List.nodup_cons.1 h.nodup).2,
    fun x hx => (freeCbOf_free (hal x hx)).trans (h.items x (List.mem_cons_of_mem a hx))⟩

/-- **A queue without inserts is popped to its end**, and the next session is looked at. -/
theorem drain_plain {n : Nat} : ∀ (l : List Addr) (st : Sessions) {r : Registered}, st.nsessions = n + 1 →
    st.sessions[n]? = some r → Plain st.heap r.session l →
    ∃ st' r', Machines.Reaches killSessions 0 st (.running st') ∧ Drained st n r l st' r'
  | [], st, r, hn, hr, hp => by
    have hh : r.session.queueHead = none := hp.chain
    refine ⟨st.finish n r, _, (Machines.Reaches.one (killSessions_finish hn hr hh)).mono (Nat.zero_le _),
      rfl, rfl, fun _ _ => rfl, hh, hp.tail, (List.append_nil _).symm, rfl, ?_⟩
    cases r.connected with
    | true  => rfl
    | false => rfl
  | a :: l, st, r, hn, hr, hp => by
    obtain ⟨it, hh, hpop, hp'⟩ := Plain.pop (w := st.world r) hp
    have hlen := (List.getElem?_eq_some_iff.1 hr).1
    have hstep := killSessions_pop hn hr hh
    rw [hpop] at hstep
    obtain ⟨st', r', hreach, hd⟩ := drain_plain l (st.store n r (popped (st.world r) a it)) hn
      (List.getElem?_set_self hlen) hp'
    refine ⟨st', r', (Machines.Reaches.one hstep).then hreach, hd.nsessions, ?_, fun x hx => ?_, hd.head, hd.tail, ?_,
      hd.connected, hd.finished⟩
    · rw [hd.sessions, Sessions.store, List.set_set]
    · rw [List.mem_cons, not_or] at hx
      exact (hd.heap x hx.2).trans (Function.update_of_ne hx.1 _ _)
    · rw [hd.freed]
      show freed (r.log ++ [.popped a]) ++ l = _
      rw [freed_append, List.append_assoc]
      rfl

theorem plain_of_harmless (h : Queue heap r.session (pending r.log)) (hr : Harmless heap r) :
    Plain heap r.session (pending r.log) := by
  obtain ⟨q, hq⟩ := h.chain
  have hnull : q = none := by
    rcases List.eq_nil_or_concat (pending r.log) with hl | ⟨l, t, hl⟩
    · rw [hl] at hq
      exact (show r.session.queueHead = q from hq) ▸ h.empty hl
    · rw [List.concat_eq_append] at hl
      rw [hl] at hq
      exact Option.some.inj (hq.last.symm.trans (hr.2 t (by rw [h.tail, hl]; simp)))
  exact ⟨hnull ▸ hq, h.tail, h.nodup, fun a ha => (h.items a ha).resolve_right (hr.1 a ha)⟩

theorem harmless_of_plain (h : Plain heap r.session (pending r.log)) : Harmless heap r := by
  refine ⟨fun a ha => ?_, fun t ht => ?_⟩
  · rw [h.items a ha]; exact (nomatch ·)
  · obtain ⟨l, hl⟩ := List.getLast?_eq_some_iff.1 (h.tail.symm.trans ht)
    have hchain := h.chain
    rw [hl] at hchain
    exact hchain.last

theorem Plain.congr (h : Plain heap s l) (hheap : ∀ x ∈ l, heap' x = heap x) : Plain heap' s l := by
  refine ⟨h.chain.congr fun x hx => links_congr (hheap x hx), h.tail, h.nodup, fun x hx => ?_⟩
  rw [freeCbOf_congr (hheap x hx)]
  exact h.items x hx

/-- The sessions that are still to be cleaned up. -/
structure Ahead (st : Sessions) (n : Nat) : Prop where
  count  : st.nsessions = n
  length : n ≤ st.sessions.length
  queue  : ∀ (i : Nat) r, i < n → st.sessions[i]? = some r → Queue st.heap r.session (pending r.log)
  apart  : ∀ (i j : Nat) r r', i < n → j < n → st.sessions[i]? = some r → st.sessions[j]? = some r' → i ≠ j →
    ∀ a ∈ pending r.log, a ∉ pending r'.log

theorem Queued.ahead (h : Queued st) : Ahead st st.sessions.length :=
  ⟨h.count, Nat.le_refl _, fun i r _ => h.queue i r, fun i j r r' _ _ => h.apart i j r r'⟩

section
variable {n : Nat}

theorem Drained.sessions_of_ne (hd : Drained st n r l st' r') {i : Nat} (hi : i ≠ n) :
    st'.sessions[i]? = st.sessions[i]? := by
  rw [hd.sessions, List.getElem?_set_ne (Ne.symm hi)]

/-- The queues of the other sessions are in memory that is not freed. -/
theorem Ahead.heap_eq (h : Ahead st (n + 1)) (hr : st.sessions[n]? = some r) (hd : Drained st n r (pending r.log) st' r')
    {i : Nat} {r₁ : Registered} (hi : i < n) (h₁ : st.sessions[i]? = some r₁) :
    ∀ x ∈ pending r₁.log, st'.heap x = st.heap x := fun x hx =>
  hd.heap x (h.apart i n r₁ r (Nat.lt_succ_of_lt hi) (Nat.lt_succ_self n) h₁ hr (Nat.ne_of_lt hi) x hx)

theorem Ahead.drained (h : Ahead st (n + 1)) (hr : st.sessions[n]? = some r)
    (hd : Drained st n r (pending r.log) st' r') : Ahead st' n where
  count  := hd.nsessions
  length := by rw [hd.sessions, List.length_set]; exact Nat.le_of_succ_le h.length
  queue  := fun i r₁ hi h₁ => by
    rw [hd.sessions_of_ne (Nat.ne_of_lt hi)] at h₁
    exact (h.queue i r₁ (Nat.lt_succ_of_lt hi) h₁).congr (h.heap_eq hr hd hi h₁)
  apart  := fun i j r₁ r₂ hi hj h₁ h₂ => by
    rw [hd.sessions_of_ne (Nat.ne_of_lt hi)] at h₁
    rw [hd.sessions_of_ne (Nat.ne_of_lt hj)] at h₂
    exact h.apart i j r₁ r₂ (Nat.lt_succ_of_lt hi) (Nat.lt_succ_of_lt hj) h₁ h₂

end

/-- **Where every queue is plain** `kill_sessions` returns, and has cleaned up every session that was counted. -/
theorem cleans_of_plain : ∀ (n : Nat) {st : Sessions}, Ahead st n →
    (∀ (i : Nat) r, i < n → st.sessions[i]? = some r → Plain st.heap r.session (pending r.log)) →
    ∃ st', Machines.Reaches killSessions 0 st (.ended (.returned st')) ∧ st'.nsessions = 0 ∧
      ∀ (i : Nat) r, st.sessions[i]? = some r → ∃ r', st'.sessions[i]? = some r' ∧ (i < n → r.Cleaned r') ∧
        (n ≤ i → r' = r)
  | 0, st, h, _ => by
    refine ⟨st, (Machines.Reaches.one ?_).mono (Nat.zero_le _), h.count,
      fun i r hr => ⟨r, hr, fun hi => absurd hi (Nat.not_lt_zero i), fun _ => rfl⟩⟩
    unfold killSessions
    rw [h.count]
  | n + 1, st, h, hplain => by
    obtain ⟨r, hr⟩ : ∃ r, st.sessions[n]? = some r := ⟨_, List.getElem?_eq_getElem h.length⟩
    obtain ⟨st₁, r₁, hreach, hd⟩ := drain_plain (pending r.log) st h.count hr (hplain n r (Nat.lt_succ_self n) hr)
    have hplain₁ : ∀ (i : Nat) r', i < n → st₁.sessions[i]? = some r' → Plain st₁.heap r'.session (pending r'.log) := by
      intro i r' hi hr'
      rw [hd.sessions_of_ne (Nat.ne_of_lt hi)] at hr'
      exact (hplain i r' (Nat.lt_succ_of_lt hi) hr').congr (h.heap_eq hr hd hi hr')
    obtain ⟨st', hreach', hn', hclean⟩ := cleans_of_plain n (h.drained hr hd) hplain₁
    refine ⟨st', hreach.then hreach', hn', fun i r' hr' => ?_⟩
    by_cases hi : i = n
    · subst hi
      rw [hr] at hr'
      cases hr'
      obtain ⟨r'', h'', -, hsame⟩ := hclean i r₁ (by rw [hd.sessions, List.getElem?_set_self h.length])
      rw [hsame (Nat.le_refl i)] at h''
      exact ⟨r₁, h'', fun _ => ⟨hd.head, hd.tail, hd.freed, hd.connected, hd.finished⟩,
        fun hle => absurd hle (Nat.not_succ_le_self i)⟩
    · obtain ⟨r'', h'', hc, hsame⟩ := hclean i r' (by rw [hd.sessions_of_ne hi]; exact hr')
      exact ⟨r'', h'', fun hlt => hc (Nat.lt_of_le_of_ne (Nat.le_of_lt_succ hlt) hi),
        fun hle => hsame (Nat.le_of_succ_le hle)⟩

/-! ## A queue with an insert -/

/-- The chain does not end where the items `l` do: the last link leads on, or it is null and one of the items will push
itself behind it. -/
structure Overruns (heap : Addr → Option QueryQueueItem) (s : AppSession) (l : List Addr) : Prop where
  nodup : l.Nodup
  items : ∀ a ∈ l, freeCbOf heap a = some (some .simpleCommandFree) ∨ freeCbOf heap a = some (some .insertQueryFree)
  chain : ∃ q, Leads (links heap) s.queueHead l q ∧
    (q = none → s.queueTail = l.getLast? ∧ ∃ a ∈ l, freeCbOf heap a = some (some .insertQueryFree))

theorem overruns_of_not_harmless (h : Queue heap r.session (pending r.log)) (hr : ¬ Harmless heap r) :
    Overruns heap r.session (pending r.log) := by
  obtain ⟨q, hq⟩ := h.chain
  refine ⟨h.nodup, h.items, q, hq, fun hnull => ⟨h.tail, ?_⟩⟩
  by_contra hno
  refine hr ⟨fun a ha hf => hno ⟨a, ha, hf⟩, fun t ht => ?_⟩
  obtain ⟨l, hl⟩ := List.getLast?_eq_some_iff.1 (h.tail.symm.trans ht)
  rw [hl, hnull] at hq
  exact hq.last

theorem insertQueryFree_pushedOnto (hit : w.heap a = some it) (h : insertQueryFree a w = .ok () w') :
    PushedOnto w w' a (some .insertQueryFree) := by
  simp only [insertQueryFree, bind_run, get_run] at h
  cases h₁ : w.session.queueHead != some a with
  | false => simp [h₁] at h
  | true =>
    cases h₂ : w.session.queueTail != some a with
    | false => simp [h₁, h₂] at h
    | true =>
      simp only [h₁, h₂, assertThat_true, loadItem_run, hit] at h
      exact push_pushedOnto hit h

/-- An item pushed behind a chain that has ended, or that leads on. -/
theorem overruns_pushedOnto {q : Ptr} (hp : PushedOnto w w' a (some .insertQueryFree)) (ha : a ∉ l) (hnodup : l.Nodup)
    (hitems : ∀ x ∈ l, freeCbOf w.heap x = some (some .simpleCommandFree) ∨
      freeCbOf w.heap x = some (some .insertQueryFree))
    (hchain : Leads (links w.heap) w.session.queueHead l q) (ht : q = none → w.session.queueTail = l.getLast?) :
    Overruns w'.heap w'.session l := by
  refine ⟨hnodup, fun x hx => ?_, ?_⟩
  · have hxa : x ≠ a := fun e => ha (e ▸ hx)
    rw [hp.freeCb, if_neg hxa]
    exact hitems x hx
  · rcases hp.linked with ⟨hhd, hhd', hl⟩ | ⟨t, htl, hhd, htn, hhd', hl⟩
    · obtain ⟨rfl, -⟩ := hchain.null_iff.1 hhd
      exact ⟨some a, hhd', (nomatch ·)⟩
    · rw [hhd']
      by_cases hq : q = none
      · obtain ⟨l', rfl⟩ := List.getLast?_eq_some_iff.1 ((ht hq).symm.trans htl)
        refine ⟨some a, hchain.relink (fun x hx => ?_) (by rw [hl, if_pos rfl]), (nomatch ·)⟩
        rw [hl, if_neg (ne_last hnodup hx)]
      · refine ⟨q, hchain.congr fun x hx => ?_, fun h => absurd h hq⟩
        rw [hl, if_neg]
        rintro rfl
        exact hchain.ne_null hq x hx htn

/-- **A pop of such a queue**, where it fails no assert, leaves such a queue. -/
theorem Overruns.pop (h : Overruns w.heap w.session (a :: l)) (hp : popQueryQueueItem w = .ok () w') :
    Overruns w'.heap w'.session l := by
  obtain ⟨q, ⟨hh, q₁, hq₁, hchain⟩, hq⟩ := h.chain
  obtain ⟨hal, hnodup⟩ := List.nodup_cons.1 h.nodup
  have hitems := fun x hx => h.items x (List.mem_cons_of_mem a hx)
  rcases h.items a (by simp) with hf | hf
  · obtain ⟨it, hit, rfl, hf'⟩ := item_of_links hq₁ hf
    rw [pop_simple hh hit hf'] at hp
    cases hp
    have hne : ∀ x ∈ l, x ≠ a := fun x hx e => hal (e ▸ hx)
    refine ⟨hnodup, fun x hx => ?_, q, hchain.congr fun x hx => links_free (hne x hx), fun hnull => ?_⟩
    · rw [freeCbOf_free (hne x hx)]; exact hitems x hx
    · obtain ⟨ht, y, hy, hyf⟩ := hq hnull
      refine ⟨unlinked_tail hchain hnull ht, ?_⟩
      rcases List.mem_cons.1 hy with rfl | hy
      · rw [hf] at hyf; cases hyf
      · exact ⟨y, hy, (freeCbOf_free (hne y hy)).trans hyf⟩
  · obtain ⟨it, hit, rfl, hf'⟩ := item_of_links hq₁ hf
    rw [pop_run hh hit, hf'] at hp
    exact overruns_pushedOnto (insertQueryFree_pushedOnto (w := unlinked w a it) hit hp) hal hnodup hitems hchain
      fun hnull => unlinked_tail hchain hnull (hq hnull).1

theorem pop_freed (hh : w.session.queueHead = some a) (hp : popQueryQueueItem w = .ok () w') :
    freed w'.log = freed w.log ++ [a] := by
  cases hit : w.heap a with
  | none => simp [popQueryQueueItem, hh, hit] at hp
  | some it =>
    have hlog : freed (unlinked w a it).log = freed w.log ++ [a] := freed_append _ _
    rw [← hlog]
    cases hf : it.freeCb with
    | none => rw [pop_run hh hit, hf] at hp; cases hp; rfl
    | some cb =>
      cases cb with
      | doNothing         => rw [pop_run hh hit, hf] at hp; cases hp; rfl
      | simpleCommandFree => rw [pop_simple hh hit hf] at hp; cases hp; rfl
      | insertQueryFree   =>
        rw [pop_run hh hit, hf] at hp
        rw [(insertQueryFree_pushedOnto (w := unlinked w a it) hit hp).log, freed_append]
        exact List.append_nil _

/-- A step of `kill_sessions` calls no free callback, or one. -/
theorem killSessions_freed (h : killSessions st = .running st') {i : Nat} (hr : st.sessions[i]? = some r) :
    ∃ r', st'.sessions[i]? = some r' ∧ (freed r.log).length ≤ (freed r'.log).length := by
  unfold killSessions at h
  split at h
  · cases h
  · rename_i n hn
    split at h
    · cases h
    · rename_i r₁ hr₁
      have hlen := (List.getElem?_eq_some_iff.1 hr₁).1
      have hset : ∀ r₂, (freed r₁.log).length ≤ (freed r₂.log).length →
          ∃ r', (st.sessions.set n r₂)[i]? = some r' ∧ (freed r.log).length ≤ (freed r'.log).length := by
        intro r₂ hle
        by_cases hi : i = n
        · subst hi
          rw [hr₁] at hr; cases hr
          exact ⟨r₂, List.getElem?_set_self hlen, hle⟩
        · exact ⟨r, by rw [List.getElem?_set_ne (Ne.symm hi)]; exact hr, Nat.le_refl _⟩
      split at h
      · rename_i hh
        obtain ⟨a, ha⟩ := Option.isSome_iff_exists.1 hh
        split at h
        · rename_i w hp
          cases h
          refine hset _ ?_
          have : freed w.log = freed r₁.log ++ [a] := pop_freed (w := st.world r₁) ha hp
          rw [this, List.length_append]
          exact Nat.le_add_right _ _
        · cases h
      · cases h
        exact hset _ (Nat.le_refl _)

theorem killSessions_returned (h : killSessions st = .ended (.returned st')) : st' = st := by
  unfold killSessions at h
  split at h
  · cases h; rfl
  · split at h
    · cases h
    · split at h
      · split at h <;> cases h
      · cases h

theorem steps_freed : ∀ (m : Nat) {st : Sessions} {r : Registered} {i : Nat},
    Machines.steps killSessions m (.running st) = .ended (.returned st') → st.sessions[i]? = some r →
    ∃ r', st'.sessions[i]? = some r' ∧ (freed r.log).length ≤ (freed r'.log).length
  | 0, _, _, _, h, _ => nomatch h
  | m + 1, st, r, i, h, hr => by
    rw [Machines.steps] at h
    cases hk : killSessions st with
    | running st₁ =>
      rw [hk] at h
      obtain ⟨r₁, hr₁, hle⟩ := killSessions_freed hk hr
      obtain ⟨r', hr', hle'⟩ := steps_freed m h hr₁
      exact ⟨r', hr', Nat.le_trans hle hle'⟩
    | ended e =>
      rw [hk, Machines.steps_ended] at h
      cases h
      rw [killSessions_returned hk]
      exact ⟨r, hr, Nat.le_refl _⟩

theorem Overruns.head (h : Overruns heap s l) : ∃ a, s.queueHead = some a := by
  obtain ⟨q, hq, hnull⟩ := h.chain
  cases hh : s.queueHead with
  | some a => exact ⟨a, rfl⟩
  | none =>
    obtain ⟨rfl, rfl⟩ := hq.null_iff.1 hh
    obtain ⟨-, a, ha, -⟩ := hnull rfl
    cases ha

/-- **Such a queue is never empty**: if the cleanup returns, more items were freed than were queued. -/
theorem steps_overruns {n : Nat} : ∀ (l : List Addr) (m : Nat) (st : Sessions) {r : Registered},
    st.nsessions = n + 1 → st.sessions[n]? = some r → Overruns st.heap r.session l →
    Machines.steps killSessions m (.running st) = .ended (.returned st') →
    ∃ r', st'.sessions[n]? = some r' ∧ (freed r.log).length + l.length < (freed r'.log).length
  | _, 0, _, _, _, _, _, h => nomatch h
  | l, m + 1, st, r, hn, hr, ho, h => by
    obtain ⟨a, ha⟩ := ho.head
    have hlen := (List.getElem?_eq_some_iff.1 hr).1
    rw [Machines.steps, killSessions_pop hn hr ha] at h
    cases hp : popQueryQueueItem (st.world r) with
    | error f w => rw [hp] at h; simp at h
    | ok x w =>
      rw [hp] at h
      have hf : (freed w.log).length = (freed r.log).length + 1 := by
        rw [pop_freed (w := st.world r) ha hp, List.length_append]; rfl
      have hr₁ : (st.store n r w).sessions[n]? = some { r with session := w.session, log := w.log } :=
        List.getElem?_set_self hlen
      cases l with
      | nil =>
        obtain ⟨r', hr', hle⟩ := steps_freed m h hr₁
        have hle : (freed w.log).length ≤ (freed r'.log).length := hle
        rw [hf] at hle
        exact ⟨r', hr', hle⟩
      | cons y l =>
        have hy : a = y := by
          obtain ⟨q, hq, -⟩ := ho.chain
          exact Option.some.inj (ha.symm.trans hq.1)
        subst hy
        have ho' : Overruns w.heap w.session l := Overruns.pop (w := st.world r) ho hp
        obtain ⟨r', hr', hlt⟩ := steps_overruns l m (st.store n r w) hn hr₁ ho' h
        refine ⟨r', hr', ?_⟩
        rw [List.length_cons, ← Nat.add_assoc, Nat.add_right_comm, ← hf]
        exact hlt

/-! ## The cleanup -/

/-- A session with index below `n` of which too many items are freed, should the cleanup return. -/
def Overrun (st : Sessions) (n : Nat) : Prop :=
  ∃ (i : Nat) (r : Registered), i < n ∧ st.sessions[i]? = some r ∧ ∀ m st',
    Machines.steps killSessions m (.running st) = .ended (.returned st') →
      ∃ r', st'.sessions[i]? = some r' ∧ (freed r.log).length + (pending r.log).length < (freed r'.log).length

theorem Overrun.not_cleans {n : Nat} (h : Overrun st n) : ¬ Cleans st := by
  rintro ⟨m, st', hm, -, hclean⟩
  obtain ⟨i, r, -, hr, hover⟩ := h
  obtain ⟨r', hr', hlt⟩ := hover m st' hm
  obtain ⟨r'', hr'', hc⟩ := hclean i r hr
  rw [hr'] at hr''
  cases hr''
  rw [hc.freed, List.length_append] at hlt
  exact absurd hlt (Nat.lt_irrefl _)

/-- **Of the sessions ahead** all are plain, or one of them is never cleaned up. -/
theorem plain_or_overrun : ∀ (n : Nat) {st : Sessions}, Ahead st n →
    (∀ (i : Nat) r, i < n → st.sessions[i]? = some r → Plain st.heap r.session (pending r.log)) ∨ Overrun st n
  | 0, _, _ => Or.inl fun i r hi => absurd hi (Nat.not_lt_zero i)
  | n + 1, st, h => by
    obtain ⟨r, hr⟩ : ∃ r, st.sessions[n]? = some r := ⟨_, List.getElem?_eq_getElem h.length⟩
    have hqueue := h.queue n r (Nat.lt_succ_self n) hr
    by_cases hharm : Harmless st.heap r
    · have hplain := plain_of_harmless hqueue hharm
      obtain ⟨st₁, r₁, hreach, hd⟩ := drain_plain (pending r.log) st h.count hr hplain
      rcases plain_or_overrun n (h.drained hr hd) with hall | ⟨i, r', hi, hr', hover⟩
      · refine Or.inl fun i r' hi hr' => ?_
        rcases Nat.lt_succ_iff_lt_or_eq.1 hi with hi | rfl
        · refine (hall i r' hi ?_).congr fun x hx => (h.heap_eq hr hd hi hr' x hx).symm
          rw [hd.sessions_of_ne (Nat.ne_of_lt hi)]; exact hr'
        · rw [hr] at hr'; cases hr'; exact hplain
      · rw [hd.sessions_of_ne (Nat.ne_of_lt hi)] at hr'
        refine Or.inr ⟨i, r', Nat.lt_succ_of_lt hi, hr', fun m st' hm => ?_⟩
        obtain ⟨k, hk⟩ := hreach.ended hm
        exact hover k st' hk
    · exact Or.inr ⟨n, r, Nat.lt_succ_self n, hr,
        fun m st' hm => steps_overruns _ m st h.count hr (overruns_of_not_harmless hqueue hharm) hm⟩

/-- **Over all queues that the enqueue functions build** `kill_sessions` returns with every session cleaned up exactly
where no queue holds an insert or ends in a stale link. -/
theorem cleans_iff_harmless {st₀ st : Sessions} (hfresh : st₀.Fresh) (es : List Enqueue)
    (h : Runs.run Sessions.enqueueStep st₀ es = some st) : Cleans st ↔ ∀ r ∈ st.sessions, Harmless st.heap r := by
  have hahead := (run_queued hfresh es h).ahead
  have hclean : (∀ (i : Nat) r, i < st.sessions.length → st.sessions[i]? = some r →
      Plain st.heap r.session (pending r.log)) → Cleans st := by
    intro hplain
    obtain ⟨st', ⟨m, -, hm⟩, hn, hall⟩ := cleans_of_plain _ hahead hplain
    refine ⟨m, st', hm, hn, fun i r hr => ?_⟩
    obtain ⟨r', hr', hc, -⟩ := hall i r hr
    exact ⟨r', hr', hc (List.getElem?_eq_some_iff.1 hr).1⟩
  constructor
  · intro hc r hr
    obtain ⟨i, hr⟩ := List.mem_iff_getElem?.1 hr
    rcases plain_or_overrun _ hahead with hplain | hover
    · exact harmless_of_plain (hplain i r (List.getElem?_eq_some_iff.1 hr).1 hr)
    · exact absurd hc hover.not_cleans
  · intro hharm
    exact hclean fun i r hi hr => plain_of_harmless (hahead.queue i r hi hr) (hharm r (List.mem_of_getElem? hr))

/-! ## Two queues -/

/-- One session whose connection is open, and storage for an insert. -/
def noneQueued : Sessions where
  heap      := fun a => if a = 9 then some (storage none) else none
  sessions  := [{ session := (World.start fun _ => none).session, connected := true, finished := 0, log := [] }]
  nsessions := 1

theorem noneQueued_fresh : noneQueued.Fresh :=
  ⟨rfl, fun r hr => by rw [List.mem_singleton.1 hr]; exact ⟨rfl, rfl, rfl⟩⟩

def twoEnqueued : List Enqueue :=
  [.simpleCommand 0 1 (storage none) 0 none, .simpleCommand 0 2 (storage none) 0 none]

theorem cleans_iff_harmless_two :
    ∃ st, Runs.run Sessions.enqueueStep noneQueued twoEnqueued = some st ∧ Cleans st := by
  refine ⟨_, rfl, (cleans_iff_harmless noneQueued_fresh twoEnqueued rfl).2 fun r hr => ?_⟩
  rw [List.mem_singleton.1 hr]
  refine ⟨by decide, fun t ht => ?_⟩
  cases ht
  decide

/-- **One insert**, in zeroed storage, and the cleanup does not do what it is for. -/
theorem insert_not_cleaned :
    ∃ st, Runs.run Sessions.enqueueStep noneQueued [.insertQuery 0 9 1] = some st ∧ ¬ Cleans st := by
  refine ⟨_, rfl, ?_⟩
  rcases plain_or_overrun _ (run_queued noneQueued_fresh [.insertQuery 0 9 1] rfl).ahead with hplain | hover
  · exact absurd ((hplain 0 _ Nat.one_pos rfl).items 9 (by decide)) (by decide)
  · exact hover.not_cleans

end Async
end Scrapcode
