import Scrapcode.Runs
import Scrapcode.Linked
import Scrapcode.AsyncTypes
/-!
# AsyncQueue — the query queue of the libpq event-loop sample

`push_query_queue_item`, `pop_query_queue_item`, and the free callback that pushes its item again.  Pushing writes
every field of the item but `next`: what `next` held before is the link of the new tail.
-/
namespace Scrapcode
namespace Async

open Programs

/-! ## The code -/

/-- The fields a push writes: all but `next`. -/
def QueryQueueItem.filled (it : QueryQueueItem) (sendCb : Option SendCb) (resultCb : Option ResultCb)
    (freeCb : Option FreeCb) (cbPrivate : UInt64) (comment : Option (List Char)) : QueryQueueItem :=
  { it with
    sendCb := sendCb, resultCb := resultCb, freeCb := freeCb, cbPrivate := cbPrivate
    comment := match comment with
      | some text => text.take queryQueueItemCommentMaxlen
      | none      => it.comment }

def pushQueryQueueItem (queueitem : Ptr) (sendCb : Option SendCb) (resultCb : Option ResultCb) (freeCb : Option FreeCb)
    (cbPrivate : UInt64) (comment : Option (List Char)) : Prog Unit := do
  assertThat (sendCb.isSome && resultCb.isSome) "send_cb != NULL && result_cb != NULL"
  assertThat queueitem.isSome "queueitem != NULL"
  let item ← deref queueitem
  let it ← loadItem item
  storeItem item (it.filled sendCb resultCb freeCb cbPrivate comment)
  -- actual enqueue
  let session := (← get).session
  if session.queueHead.isNone then
    assertThat session.queueTail.isNone "session->queue_tail == 0"
    setHead (some item)
  else
    assertThat session.queueTail.isSome "session->queue_tail != 0"
    let tail ← deref session.queueTail
    let t ← loadItem tail
    assertThat t.next.isNone "session->queue_tail->next == 0"
    storeItem tail { t with next := some item }
  setTail (some item)
  record (.pushed item)

def simpleCommandSend : SendCb := fun cbPrivate => .ok cbPrivate

def simpleCommandResult : ResultCb := fun cbPrivate result =>
  match result with
  | none   => .ok cbPrivate
  | some r => if r.status ≠ .commandOk then .error (.errorDie "simple command failed") else .ok cbPrivate

/-- `dummyval` has at most 11 characters, so `snprintf` never finds the buffer too small. -/
def insertQuerySend : SendCb := fun cbPrivate => .ok cbPrivate

/-- On a row the callback reads row 1, column 2 of a one-row, two-column result: `PQgetvalue` returns `NULL` and
`strtod` reads through it. -/
def insertQueryResult : ResultCb := fun cbPrivate result =>
  match result with
  | none   => .ok cbPrivate
  | some r =>
    match r.status with
    | .tuplesOk =>
      if r.nfields ≠ 2 ∨ r.ntuples ≠ 1 then
        .error (.errorDie s!"expected 1 tuple with 2 fields, but got {r.ntuples} tuples with {r.nfields} fields")
      else .error .badAddress
    | .fatalError => .error (.errorDie "error from query")
    | _           => .error (.errorDie "unexpected result status")

def insertQueryEnqueue (insertQueueItem : Ptr) (dummyval : Int32) : Prog Unit :=
  pushQueryQueueItem insertQueueItem (some insertQuerySend) (some insertQueryResult) (some .insertQueryFree)
    dummyval.toInt64.toUInt64
    (some (("insert " ++ toString dummyval).toList.take (queryQueueItemCommentMaxlen - 1)))

def insertQueryFree (queueitem : Addr) : Prog Unit := do
  let session := (← get).session
  assertThat (session.queueHead != some queueitem) "session->queue_head != queueitem"
  assertThat (session.queueTail != some queueitem) "session->queue_tail != queueitem"
  let it ← loadItem queueitem
  insertQueryEnqueue (some queueitem) (it.cbPrivate.toUInt32.toInt32 + 1)

def simpleCommandFree (queueitem : Addr) : Prog Unit := do
  let _ ← loadItem queueitem
  modify (fun w => { w with heap := Function.update w.heap queueitem none })

def FreeCb.call : FreeCb → Addr → Prog Unit
  | .doNothing, _         => pure ()
  | .simpleCommandFree, a => Async.simpleCommandFree a
  | .insertQueryFree, a   => Async.insertQueryFree a

def popQueryQueueItem : Prog Unit := do
  let session := (← get).session
  assertThat session.queueHead.isSome "old_head != NULL"
  let oldHead ← deref session.queueHead
  let it ← loadItem oldHead
  setHead it.next
  if it.next.isNone then setTail none
  record (.popped oldHead)
  match it.freeCb with
  | some cb => cb.call oldHead
  | none    => pure ()

/-! ## The operations of a caller -/

inductive QueueOp where
  -- the caller gets storage for an item, which nobody has written to
  | malloc (a : Addr) (storage : QueryQueueItem)
  | push (a : Addr) (sendCb : Option SendCb) (resultCb : Option ResultCb) (freeCb : Option FreeCb) (cbPrivate : UInt64)
      (comment : Option (List Char))
  | pop

/-- One operation.  What is pushed is storage the caller has, not now in the queue. -/
def queueStep (w : World) : QueueOp → Option World
  | .malloc a storage =>
    if w.halted.isNone ∧ (w.heap a).isNone then some { w with heap := Function.update w.heap a (some storage) } else none
  | .push a sendCb resultCb freeCb cbPrivate comment =>
    if w.halted.isNone ∧ (w.heap a).isSome ∧ a ∉ pending w.log then
      some (exec (pushQueryQueueItem (some a) sendCb resultCb freeCb cbPrivate comment) w)
    else none
  | .pop => if w.halted.isNone then some (exec popQueryQueueItem w) else none

/-- **The queue's law**: no assert has failed; the head is null iff the tail is; following `next` from the head visits
finitely many distinct items, those pushed and not popped in push order, and ends at the tail, whose link is null. -/
structure QueueOk (w : World) : Prop where
  running  : w.halted = none
  null_iff : w.session.queueHead = none ↔ w.session.queueTail = none
  visits   : Linked w.next w.session.queueHead (pending w.log)
  distinct : (pending w.log).Nodup
  tail     : w.session.queueTail = (pending w.log).getLast?
  tailNull : ∀ t, w.session.queueTail = some t → w.next t = some none

/-- **What keeps the law**: the callbacks that a push asserts are there, a pop has an item to pop, and every item pushed
(by the caller, or by the free callback of the item popped) has a null `next` when it is pushed. -/
def PushedUnlinked (w : World) : QueueOp → Prop
  | .malloc _ _                   => True
  | .push a sendCb resultCb _ _ _ => sendCb.isSome ∧ resultCb.isSome ∧ w.next a = some none
  | .pop                          => ∃ h it, w.session.queueHead = some h ∧ w.heap h = some it ∧
      (it.freeCb = some .insertQueryFree → it.next = none)

/-! ## What an operation does to a queue that obeys the law -/

@[simp] theorem pending_append (log : List Event) (e : Event) :
    pending (log ++ [e]) = pendingStep (pending log) e := by
  unfold pending; rw [List.foldl_append]; rfl

variable {w : World} {a : Addr}

theorem next_eq_some {q : Ptr} : w.next a = some q ↔ ∃ it, w.heap a = some it ∧ it.next = q := by
  unfold World.next; rw [Option.map_eq_some_iff]

theorem QueueOk.head (h : QueueOk w) : w.session.queueHead = (pending w.log).head? := h.visits.head?.symm

theorem QueueOk.cell (h : QueueOk w) (hx : a ∈ pending w.log) : ∃ it, w.heap a = some it := by
  obtain ⟨q, hq⟩ := h.visits.cell a hx
  obtain ⟨it, hit, -⟩ := next_eq_some.1 hq
  exact ⟨it, hit⟩

theorem push_null_callback {s : Option SendCb} {r : Option ResultCb} (hcb : (s.isSome && r.isSome) = false) (p : Ptr)
    (f : Option FreeCb) (c : UInt64) (m : Option (List Char)) : pushQueryQueueItem p s r f c m w =
      .error (.assertFailed "send_cb != NULL && result_cb != NULL") w := by
  simp only [pushQueryQueueItem, hcb, bind_run, assertThat_false]

/-- Where a state after a push stands to the state before it, whatever the pushed item's `next` holds. -/
structure Enqueued (w w' : World) (a : Addr) : Prop where
  running : w'.halted = none
  head    : w'.session.queueHead = (pending w.log ++ [a]).head?
  tail    : w'.session.queueTail = some a
  log     : w'.log = w.log ++ [.pushed a]
  next    : ∀ x, w'.next x = if (pending w.log).getLast? = some x then some (some a) else w.next x

/-- **A push onto a good queue** fails no assert and links the item behind the last one. -/
theorem push_enqueues (h : QueueOk w) {it : QueryQueueItem} (hit : w.heap a = some it) (ha : a ∉ pending w.log)
    (s : SendCb) (r : ResultCb) (f : Option FreeCb) (c : UInt64) (m : Option (List Char)) :
    ∃ w', pushQueryQueueItem (some a) (some s) (some r) f c m w = .ok () w' ∧ Enqueued w w' a := by
  have hnx : (it.filled (some s) (some r) f c m).next = it.next := rfl
  cases hp : (pending w.log).getLast? with
  | none =>
    have hnil : pending w.log = [] := List.getLast?_eq_none_iff.1 hp
    have hhd : w.session.queueHead = none := by rw [h.head, hnil]; rfl
    have htl : w.session.queueTail = none := by rw [h.tail, hp]
    refine ⟨_, by simp [pushQueryQueueItem, hit, hhd, htl]; rfl, ?_⟩
    refine ⟨h.running, by simp [hnil], rfl, rfl, fun x => ?_⟩
    by_cases hx : x = a
    · subst hx; simp [World.next, hit, hnx, hnil]
    · simp [World.next, hx, hnil]
  | some t =>
    have hne : pending w.log ≠ [] := fun hnil => by rw [hnil] at hp; cases hp
    have htl : w.session.queueTail = some t := by rw [h.tail, hp]
    obtain ⟨x, hx⟩ : ∃ x, w.session.queueHead = some x := by
      rw [h.head]; exact ⟨_, List.head?_eq_some_head hne⟩
    obtain ⟨tit, htit, htn⟩ := next_eq_some.1 (h.tailNull t htl)
    have hta : t ≠ a := fun e => ha (e ▸ List.mem_of_getLast? hp)
    have hload : Function.update w.heap a (some (it.filled (some s) (some r) f c m)) t = some tit := by
      rw [Function.update_of_ne hta, htit]
    refine ⟨_, by simp [pushQueryQueueItem, hit, hx, htl, hload, htn]; rfl, ?_⟩
    refine ⟨h.running, ?_, rfl, rfl, fun y => ?_⟩
    · rw [List.head?_append, ← h.head, hx]; rfl
    · rw [hp]
      by_cases hyt : y = t
      · subst hyt; simp [World.next]
      · have hty : ¬ t = y := fun e => hyt e.symm
        by_cases hya : y = a
        · subst hya; simp [World.next, hyt, hty, hit, hnx]
        · simp [World.next, hyt, hty, hya]

/-- **After a push the law holds exactly if the pushed item's `next` was null.** -/
theorem Enqueued.queueOk_iff {w' : World} (h : QueueOk w) (ha : a ∉ pending w.log) (he : Enqueued w w' a) :
    QueueOk w' ↔ w.next a = some none := by
  have hlast : ¬ (pending w.log).getLast? = some a := fun e => ha (List.mem_of_getLast? e)
  have hna : w'.next a = w.next a := by rw [he.next, if_neg hlast]
  have hpend : pending w'.log = pending w.log ++ [a] := by rw [he.log, pending_append]; rfl
  constructor
  · intro hok
    rw [← hna]; exact hok.tailNull a he.tail
  · intro hnull
    have hvis : Linked w'.next w'.session.queueHead (pending w.log ++ [a]) := by
      rcases List.eq_nil_or_concat (pending w.log) with hnil | ⟨l, t, hl⟩
      · rw [he.head, hnil]
        exact ⟨rfl, none, hna.trans hnull, rfl⟩
      · have hv := h.visits
        have hd := h.distinct
        rw [List.concat_eq_append] at hl
        rw [hl] at hv hd
        have hgl : (pending w.log).getLast? = some t := by rw [hl]; simp
        have hold : ∀ x ∈ l, w'.next x = w.next x := fun x hx => by
          rw [he.next, if_neg]
          rw [hgl]; rintro ⟨⟩
          exact (List.nodup_append.1 hd).2.2 t hx t (by simp) rfl
        have hhd : w'.session.queueHead = w.session.queueHead := by
          rw [he.head, h.head, hl]; cases l <;> rfl
        rw [hhd, hl, List.append_assoc]
        exact hv.concat hold (by rw [he.next, if_pos hgl]) (hna.trans hnull)
    refine ⟨he.running, ?_, hpend ▸ hvis, ?_, ?_, ?_⟩
    · rw [he.tail, he.head]; simp
    · rw [hpend]; exact hvis.nodup
    · rw [hpend, he.tail]; simp
    · intro t ht
      rw [he.tail] at ht; cases ht
      exact hna.trans hnull

/-- The state in which a pop calls the free callback of the old head. -/
def unlinked (w : World) (oldHead : Addr) (it : QueryQueueItem) : World :=
  { w with
    session := { w.session with
      queueHead := it.next
      queueTail := if it.next.isNone then none else w.session.queueTail }
    log := w.log ++ [.popped oldHead] }

theorem pop_run {h : Addr} {it : QueryQueueItem} (hh : w.session.queueHead = some h) (hit : w.heap h = some it) :
    popQueryQueueItem w =
      match it.freeCb with
      | some cb => cb.call h (unlinked w h it)
      | none    => .ok () (unlinked w h it) := by
  cases hn : it.next <;> cases hf : it.freeCb <;>
    simp [popQueryQueueItem, hh, hit, hn, hf, unlinked]

theorem pop_of_empty (hh : w.session.queueHead = none) :
    popQueryQueueItem w = .error (.assertFailed "old_head != NULL") w := by
  simp [popQueryQueueItem, hh]

/-- **A pop takes the oldest item off and leaves a good queue to the free callback.** -/
theorem QueueOk.unlinked (hok : QueueOk w) {h : Addr} {it : QueryQueueItem} (hh : w.session.queueHead = some h)
    (hit : w.heap h = some it) :
    ∃ rest, pending w.log = h :: rest ∧ pending (unlinked w h it).log = rest ∧ QueueOk (unlinked w h it) := by
  have hhead := hok.head
  rw [hh] at hhead
  obtain ⟨rest, hp⟩ := List.head?_eq_some_iff.1 hhead.symm
  have hv := hok.visits
  have hd := hok.distinct
  rw [hp] at hv hd
  obtain ⟨-, q, hq, hrest⟩ := hv
  have hnq : it.next = q := by
    obtain ⟨it', hit', hn'⟩ := next_eq_some.1 hq
    rw [hit] at hit'; cases hit'; exact hn'
  have hpend : pending (Async.unlinked w h it).log = rest := by
    show pending (w.log ++ [.popped h]) = rest
    rw [pending_append, hp]
    exact List.erase_cons_head ..
  have htail : (Async.unlinked w h it).session.queueTail = rest.getLast? := by
    show (if it.next.isNone then none else w.session.queueTail) = rest.getLast?
    rw [hok.tail, hp, hnq]
    cases rest with
    | nil => rw [show q = none from hrest]; rfl
    | cons x l => rw [hrest.1]; rfl
  refine ⟨rest, hp, hpend, hok.running, ?_, ?_, ?_, ?_, ?_⟩
  · rw [htail]
    show it.next = none ↔ _
    rw [hnq, hrest.null_iff, List.getLast?_eq_none_iff]
  · rw [hpend]
    show Linked w.next it.next rest
    rw [hnq]; exact hrest
  · rw [hpend]; exact (List.nodup_cons.1 hd).2
  · rw [hpend]; exact htail
  · intro t ht
    rw [htail] at ht
    refine hok.tailNull t ?_
    rw [hok.tail, hp, List.getLast?_cons, ht]; rfl

theorem QueueOk.free (hok : QueueOk w) (ha : a ∉ pending w.log) :
    QueueOk { w with heap := Function.update w.heap a none } := by
  have hnext : ∀ x ∈ pending w.log, World.next { w with heap := Function.update w.heap a none } x = w.next x :=
    fun x hx => by
      have : x ≠ a := fun e => ha (e ▸ hx)
      simp [World.next, this]
  refine ⟨hok.running, hok.null_iff, hok.visits.congr hnext, hok.distinct, hok.tail, fun t ht => ?_⟩
  rw [hnext t (List.mem_of_getLast? (hok.tail ▸ ht))]
  exact hok.tailNull t ht

theorem QueueOk.malloc (hok : QueueOk w) (ha : w.heap a = none) (storage : QueryQueueItem) :
    QueueOk { w with heap := Function.update w.heap a (some storage) } := by
  have hnext : ∀ x ∈ pending w.log,
      World.next { w with heap := Function.update w.heap a (some storage) } x = w.next x := fun x hx => by
    obtain ⟨it, hit⟩ := hok.cell hx
    have : x ≠ a := fun e => by rw [e, ha] at hit; cases hit
    simp [World.next, this]
  refine ⟨hok.running, hok.null_iff, hok.visits.congr hnext, hok.distinct, hok.tail, fun t ht => ?_⟩
  rw [hnext t (List.mem_of_getLast? (hok.tail ▸ ht))]
  exact hok.tailNull t ht

theorem not_queueOk_of_error {p : Prog Unit} {f : Fault} {w' : World} (h : p w = .error f w') :
    ¬ QueueOk (exec p w) := by
  rw [exec_of_error h]
  exact fun hok => nomatch hok.running

/-- **A pop whose free callback does not push** leaves the queue of the items behind the old head. -/
theorem pop_frees (hok : QueueOk w) {h : Addr} {it : QueryQueueItem} (hh : w.session.queueHead = some h)
    (hit : w.heap h = some it) (hf : it.freeCb ≠ some .insertQueryFree) :
    ∃ heap, popQueryQueueItem w = .ok () { unlinked w h it with heap := heap } ∧
      QueueOk { unlinked w h it with heap := heap } := by
  obtain ⟨rest, hp, hprest, hok₁⟩ := hok.unlinked hh hit
  have hrun := pop_run hh hit
  have hh₁ : h ∉ pending (Async.unlinked w h it).log := by
    have hd := hok.distinct
    rw [hp] at hd
    rw [hprest]; exact (List.nodup_cons.1 hd).1
  cases hcb : it.freeCb with
  | none => rw [hcb] at hrun; exact ⟨_, hrun, hok₁⟩
  | some cb =>
    rw [hcb] at hrun
    cases cb with
    | doNothing => exact ⟨_, hrun, hok₁⟩
    | simpleCommandFree =>
      refine ⟨_, hrun.trans ?_, hok₁.free hh₁⟩
      simp [FreeCb.call, simpleCommandFree, show (Async.unlinked w h it).heap h = some it from hit]
    | insertQueryFree => exact absurd hcb hf

/-- **The free callback that pushes its item again** finds the queue good, fails no assert, and keeps the law exactly
if the item's link is null. -/
theorem insertQueryFree_queueOk_iff (hok : QueueOk w) {it : QueryQueueItem} (hit : w.heap a = some it)
    (ha : a ∉ pending w.log) : QueueOk (exec (insertQueryFree a) w) ↔ it.next = none := by
  have hhead : (w.session.queueHead != some a) = true := by
    rw [bne_iff_ne, hok.head]
    exact fun e => ha (List.mem_of_head? e)
  have htail : (w.session.queueTail != some a) = true := by
    rw [bne_iff_ne, hok.tail]
    exact fun e => ha (List.mem_of_getLast? e)
  obtain ⟨w', hrun, henq⟩ := push_enqueues hok hit ha insertQuerySend insertQueryResult (some .insertQueryFree)
    (it.cbPrivate.toUInt32.toInt32 + 1).toInt64.toUInt64
    (some (("insert " ++ toString (it.cbPrivate.toUInt32.toInt32 + 1)).toList.take (queryQueueItemCommentMaxlen - 1)))
  have hcall : insertQueryFree a w = .ok () w' := by
    simp only [insertQueryFree, bind_run, get_run, hhead, htail, assertThat_true, loadItem_run, hit]
    exact hrun
  rw [exec_of_ok hcall, henq.queueOk_iff hok ha, World.next, hit]
  simp

/-- **One operation keeps the law exactly if it meets `PushedUnlinked`.** -/
theorem queueStep_queueOk_iff (w : World) (op : QueueOp) (w' : World) (hok : QueueOk w)
    (h : queueStep w op = some w') : QueueOk w' ↔ PushedUnlinked w op := by
  cases op with
  | malloc a storage =>
    simp only [queueStep, Option.ite_none_right_eq_some] at h
    obtain ⟨⟨-, ha⟩, h⟩ := h
    cases h
    exact ⟨fun _ => trivial, fun _ => hok.malloc (Option.isNone_iff_eq_none.1 ha) storage⟩
  | push a s r f c m =>
    simp only [queueStep, Option.ite_none_right_eq_some] at h
    obtain ⟨⟨-, hit, ha⟩, h⟩ := h
    cases h
    obtain ⟨it, hit⟩ := Option.isSome_iff_exists.1 hit
    cases s with
    | none =>
      exact iff_of_false (not_queueOk_of_error (push_null_callback rfl _ f c m)) (fun hC => nomatch hC.1)
    | some s =>
      cases r with
      | none =>
        exact iff_of_false (not_queueOk_of_error (push_null_callback rfl _ f c m)) (fun hC => nomatch hC.2.1)
      | some r =>
        obtain ⟨w', hrun, henq⟩ := push_enqueues hok hit ha s r f c m
        rw [exec_of_ok hrun, henq.queueOk_iff hok ha]
        simp [PushedUnlinked]
  | pop =>
    simp only [queueStep, Option.ite_none_right_eq_some] at h
    obtain ⟨-, h⟩ := h
    cases h
    cases hh : w.session.queueHead with
    | none =>
      refine iff_of_false (not_queueOk_of_error (pop_of_empty hh)) ?_
      rintro ⟨h, it, hh', -⟩
      rw [hh] at hh'; cases hh'
    | some h =>
      obtain ⟨it, hit⟩ := hok.cell (a := h) (List.mem_of_head? (hok.head ▸ hh))
      have hC : PushedUnlinked w .pop ↔ (it.freeCb = some .insertQueryFree → it.next = none) := by
        constructor
        · rintro ⟨h', it', hh', hit', hC⟩
          rw [hh] at hh'; cases hh'
          rw [hit] at hit'; cases hit'
          exact hC
        · exact fun hC => ⟨h, it, hh, hit, hC⟩
      rw [hC]
      by_cases hf : it.freeCb = some .insertQueryFree
      · obtain ⟨rest, hp, hprest, hok₁⟩ := hok.unlinked hh hit
        have hh₁ : h ∉ pending (unlinked w h it).log := by
          have hd := hok.distinct
          rw [hp] at hd
          rw [hprest]; exact (List.nodup_cons.1 hd).1
        have hexec : exec popQueryQueueItem w = exec (insertQueryFree h) (unlinked w h it) := by
          simp only [exec, pop_run hh hit, hf, FreeCb.call]
        rw [hexec, insertQueryFree_queueOk_iff hok₁ hit hh₁]
        exact ⟨fun hn _ => hn, fun hn => hn hf⟩
      · obtain ⟨heap, hrun, hok'⟩ := pop_frees hok hh hit hf
        rw [exec_of_ok hrun]
        exact iff_of_true hok' (fun e => absurd e hf)

/-! ## Every run of operations -/

def World.start (heap : Addr → Option QueryQueueItem) : World :=
  { heap := heap
    session :=
      { conn := { inFlight := none, arrived := [], complete := false, unsent := 0, notifies := [], nextQuery := 0 }
        sessionState := .idle, queueHead := none, queueTail := none, notifyCb := false }
    pollout := false, inDrain := false, halted := none, log := [] }

theorem queueOk_start (heap : Addr → Option QueryQueueItem) : QueueOk (World.start heap) :=
  ⟨rfl, Iff.rfl, rfl, List.nodup_nil, rfl, fun _ h => nomatch h⟩

/-- **The queue's law holds after every operation of a run exactly if every operation meets `PushedUnlinked`.** -/
theorem queueOk_always_iff (heap : Addr → Option QueryQueueItem) (ops : List QueueOp) :
    Runs.Always queueStep QueueOk (World.start heap) ops ↔ Runs.Meets queueStep PushedUnlinked (World.start heap) ops :=
  Runs.always_iff_meets queueStep_queueOk_iff ops (queueOk_start heap)

/-- Storage as `malloc` may return it, with a stale pointer where `next` will be read. -/
def storage (next : Ptr) : QueryQueueItem :=
  { next := next, sendCb := none, resultCb := none, freeCb := none, cbPrivate := 0, comment := [] }

def pushInsert (a : Addr) : QueueOp :=
  .push a (some insertQuerySend) (some insertQueryResult) (some .insertQueryFree) 1 none

def twoFreshItems (next : Ptr) : List QueueOp :=
  [.malloc 1 (storage next), pushInsert 1, .malloc 2 (storage next), pushInsert 2]

theorem halted_of_always {ops : List QueueOp} {w w' : World} (h : Runs.Always queueStep QueueOk w ops)
    (hr : Runs.run queueStep w ops = some w') : w'.halted = none :=
  (Runs.Always.reached ops h hr).running

/-- **The law fails**: on two fresh items whose storage was not zero, and on two items of zeroed storage that push
themselves again when popped, the assert on the tail's link fails. -/
theorem queueOk_not_always :
    ¬ Runs.Always queueStep QueueOk (World.start (fun _ => none)) (twoFreshItems (some 7)) ∧
    ¬ Runs.Always queueStep QueueOk (World.start (fun _ => none)) (twoFreshItems none ++ [.pop, .pop]) := by
  constructor
  · intro h
    have hr : (Runs.run queueStep (World.start (fun _ => none)) (twoFreshItems (some 7))).map World.halted =
      some (some (.assertFailed "session->queue_tail->next == 0")) := by decide
    obtain ⟨w, hw, hh⟩ := Option.map_eq_some_iff.1 hr
    rw [halted_of_always h hw] at hh; cases hh
  · intro h
    have hr : (Runs.run queueStep (World.start (fun _ => none)) (twoFreshItems none ++ [.pop, .pop])).map World.halted =
      some (some (.assertFailed "session->queue_tail->next == 0")) := by decide
    obtain ⟨w, hw, hh⟩ := Option.map_eq_some_iff.1 hr
    rw [halted_of_always h hw] at hh; cases hh

end Async
end Scrapcode
