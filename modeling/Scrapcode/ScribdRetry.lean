import Scrapcode.ScribdSend
/-!
# ScribdRetry — the retry loop of `send_request`

Each attempt encodes the fields again.  A file-like object is not set back, so what one attempt has read of it the next
does not see.  The complete attempts send the body that the first would have sent exactly if no attempt that fails has
read any bytes of a file-like object (`sameRequest_iff`).
-/
namespace Scrapcode
namespace ScribdMultipart

open ByteText (Str str)
open Interrupts
open Programs

variable {ι : Type} {hs : List ι} {w w' : World ι}

/-! ## A program that is stopped -/

/-- The exception comes at the latest right before the operation `first`, if there is one. -/
def Early (first stop : Option Nat) : Prop := ∀ k, first = some k → ∃ m, stop = some m ∧ m ≤ k

/-- What an attempt leaves of the files. -/
def Leaves (hs : List ι) (files : ι → FileLike) (first stop : Option Nat) (files' : ι → FileLike) : Prop :=
  (Early first stop → files' = files) ∧ (¬ Early first stop → Fewer hs files' files)

theorem early_none (stop : Option Nat) : Early none stop := fun _ hk => by cases hk

theorem early_some_iff {k m : Nat} : Early (some k) (some m) ↔ m ≤ k := by
  constructor
  · intro h
    obtain ⟨m', hm, hle⟩ := h k rfl
    cases hm
    exact hle
  · rintro h k' hk
    cases hk
    exact ⟨m, rfl, h⟩

theorem not_early_none (k : Nat) : ¬ Early (some k) none := fun h => by
  obtain ⟨m, hm, -⟩ := h k rfl
  cases hm

theorem Leaves.le {files files' : ι → FileLike} {first stop : Option Nat} (h : Leaves hs files first stop files')
    (i : ι) : (files' i).remaining.length ≤ (files i).remaining.length := by
  by_cases he : Early first stop
  · rw [h.1 he]
  · exact (h.2 he).1 i

theorem FirstRead.leaves_getElem {files : ι → FileLike} {tr : List (World ι)} {first : Option Nat}
    (h : FirstRead hs files tr w' first) {m : Nat} (hm : m < tr.length) :
    Leaves hs files first (some m) tr[m].files := by
  cases first with
  | none   => exact ⟨fun _ => h.1 _ (List.getElem_mem hm), fun hn => absurd (early_none _) hn⟩
  | some k =>
    obtain ⟨pre, post, rfl, hlen, hpre, hpost, -⟩ := h
    refine ⟨fun he => ?_, fun hn => ?_⟩
    · have hlt : m < pre.length := by
        have := early_some_iff.1 he
        omega
      rw [List.getElem_append_left hlt]
      exact hpre _ (List.getElem_mem hlt)
    · have hle : pre.length ≤ m := by
        have := mt early_some_iff.2 hn
        omega
      rw [List.getElem_append_right hle]
      exact hpost _ (List.getElem_mem _)

theorem FirstRead.leaves_end {files : ι → FileLike} {tr : List (World ι)} {first : Option Nat}
    (h : FirstRead hs files tr w' first) (rest : Option Nat) :
    Leaves hs files first (rest.map (tr.length + ·)) w'.files := by
  cases first with
  | none   => exact ⟨fun _ => h.2, fun hn => absurd (early_none _) hn⟩
  | some k =>
    obtain ⟨pre, post, rfl, hlen, -, -, hend⟩ := h
    refine ⟨fun he => absurd he ?_, fun _ => hend⟩
    cases rest with
    | none   => exact not_early_none k
    | some r =>
      intro he
      have hle : (pre ++ post).length + r ≤ k := early_some_iff.1 he
      rw [List.length_append] at hle
      omega

/-- **A program that is stopped** leaves the files as they are before the first bytes are read, and not after. -/
theorem Steps.cases {α : Type} {p : Prog ι α} {n : Nat} {first : Option Nat} {x : α}
    (h : Steps hs p w n first x w') (stop : Option Nat) :
    (∃ e t, p ⟨stop, w⟩ = .error e ⟨some 0, t⟩ ∧ t.conn = w.conn ∧ Leaves hs w.files first stop t.files) ∨
      ∃ rest, p ⟨stop, w⟩ = .ok x ⟨rest, w'⟩ ∧ Leaves hs w.files first stop w'.files := by
  obtain ⟨tr, -, htakes, hfirst⟩ := h
  rcases htakes.cases stop with ⟨m, hm, rfl, e, he⟩ | ⟨rest, rfl, hrun⟩
  · exact Or.inl ⟨e, tr[m], he, (htakes.between _ (List.getElem_mem hm)).1.conn, hfirst.leaves_getElem hm⟩
  · exact Or.inr ⟨rest, hrun, hfirst.leaves_end rest⟩

/-! ## The length of a field -/

variable {files files' : ι → FileLike} {guessType : Str → Option Str} {boundary : Str}

theorem length_fieldText (guessType : Str → Option Str) (boundary key name : Str) (h : ι) (files : ι → FileLike) :
    (fieldText guessType boundary (key, (Value.file (Data.fileLike h) name).resolve files)).length =
      (fieldText guessType boundary (key, .file [] name)).length + (files h).remaining.length := by
  simp only [fieldText, valueText, Value.resolve, Data.remaining, List.length_append, List.length_nil]
  omega

theorem length_fieldText_le (hle : ∀ i, (files' i).remaining.length ≤ (files i).remaining.length)
    (f : Str × Value (Data ι)) : (fieldText guessType boundary (f.1, f.2.resolve files')).length ≤
      (fieldText guessType boundary (f.1, f.2.resolve files)).length := by
  rcases f with ⟨key, s | ⟨s | h, name⟩ | type⟩
  · exact Nat.le_refl _
  · exact Nat.le_refl _
  · rw [length_fieldText, length_fieldText]
    exact Nat.add_le_add_left (hle h) _
  · exact Nat.le_refl _

theorem length_fieldText_lt {f : Str × Value (Data ι)} {i : ι} (hi : i ∈ f.2.handles)
    (hlt : (files' i).remaining.length < (files i).remaining.length) :
    (fieldText guessType boundary (f.1, f.2.resolve files')).length <
      (fieldText guessType boundary (f.1, f.2.resolve files)).length := by
  rcases f with ⟨key, s | ⟨s | h, name⟩ | type⟩
  · exact absurd hi List.not_mem_nil
  · exact absurd hi List.not_mem_nil
  · obtain rfl := List.mem_singleton.1 hi
    rw [length_fieldText, length_fieldText]
    exact Nat.add_lt_add_left hlt _
  · exact absurd hi List.not_mem_nil

/-! ## The retry loop -/

/-- An attempt: how many operations there are before an exception, if one comes, whether the server answers, and the
seconds that the loop has been running when the attempt fails. -/
structure Attempt where
  boundary : Str
  stop     : Option Nat
  answers  : Bool
  elapsed  : Rat

/-- What a server sees of an attempt. -/
structure Sent where
  boundary : Str
  conn     : Option Connection

section Retry

variable [DecidableEq ι]

def sendRequest (c : Call) (fields : List (Str × Value (Data ι))) : List Attempt → World ι → List Sent
  | [], _      => []
  | a :: as, w =>
    match postMultipart c fields a.boundary a.answers ⟨a.stop, w⟩ with
    | .ok _ t    => [⟨a.boundary, t.state.conn⟩]
    | .error _ t => ⟨a.boundary, t.state.conn⟩ :: if a.elapsed < 10 then sendRequest c fields as t.state else []

/-! ## What retries are to do -/

/-- An attempt that fails within the retry window: at an operation, or because the server does not answer. -/
structure Failure where
  boundary : Str
  stop     : Option Nat
  elapsed  : Rat
  within   : elapsed < 10

def Failure.attempt (f : Failure) : Attempt := ⟨f.boundary, f.stop, false, f.elapsed⟩

def success (boundary : Str) : Attempt := ⟨boundary, none, true, 0⟩

/-- The attempts that fail, and the one that succeeds. -/
def attempts (failing : List Failure) (boundary : Str) : List Attempt :=
  failing.map Failure.attempt ++ [success boundary]

/-- All the bytes that the header announces were sent. -/
def Connection.Complete (h : Connection) : Prop :=
  h.headed = true ∧ h.headers.lookup contentLength = some (str h.sent.flatten.length)

/-- What the first attempt would have sent with this boundary. -/
def firstBody (c : Call) (fields : List (Str × Value (Data ι))) (boundary : Str) (w : World ι) : Option Str :=
  (ended (postMultipart c fields boundary true ⟨none, w⟩)).conn.map (fun h => h.sent.flatten)

/-- **Each complete attempt** sends what the first would have sent. -/
def SameRequest (c : Call) (fields : List (Str × Value (Data ι))) (failing : List Failure) (boundary : Str)
    (w : World ι) : Prop :=
  ∀ s ∈ sendRequest c fields (attempts failing boundary) w, ∀ h, s.conn = some h → h.Complete →
    firstBody c fields s.boundary w = some h.sent.flatten

/-- The operation of an attempt by which bytes of a file-like object are delivered first. -/
def firstReadOf (files : ι → FileLike) (fields : List (Str × Value (Data ι))) : Option Nat :=
  (firstRead files fields).map (1 + ·)

variable {fields : List (Str × Value (Data ι))}

/-! ## One attempt -/

/-- **How an attempt ends**, wherever it is stopped: what it sent is a part of its body. -/
theorem postMultipart_outcome (henc : ∀ f ∈ fields, f.2.Encodable) (c : Call) (boundary : Str) (stop : Option Nat)
    (w : World ι) : ∃ e t, postMultipart c fields boundary false ⟨stop, w⟩ = .error e t ∧
      (∀ h, t.state.conn = some h → h.Sends (body c w.files fields boundary)) ∧
        Leaves (handles fields) w.files (firstReadOf w.files fields) stop t.state.files := by
  obtain ⟨n, hencode⟩ := steps_encode henc c.guessType boundary (w.begun c)
  unfold postMultipart
  rcases hencode.cases stop with ⟨e, t, hstop, hconn, hleaves⟩ | ⟨rest, hrun, hleaves⟩
  · refine ⟨e, ⟨some 0, t⟩, ?_, fun h hh => ?_, hleaves⟩
    · simp only [bind_run, change_run, hstop]
    · rw [hconn] at hh; cases hh
  · obtain ⟨tr, w', h', hrequest, hsending, -⟩ := takes_request c boundary
      (w := (w.encoded c fields boundary).connected) rfl rfl
    have hrun' : encodeMultipartFormdata c.guessType fields boundary ⟨stop, w.begun c⟩ =
        .ok (body c w.files fields boundary).length ⟨rest, w.encoded c fields boundary⟩ := hrun
    rcases hrequest.cases rest with ⟨m, hm, rfl, e, he⟩ | ⟨rest', rfl, hdone⟩
    · -- the connection is closed before it is asked for a response
      obtain ⟨hfiles, h, hconn, hsends⟩ := (hrequest.between _ (List.getElem_mem hm)).1
      refine ⟨.responseNotReady, ⟨some 0, { tr[m] with conn := some { h with closed := true } }⟩, ?_, fun i hi => ?_,
        ?_⟩
      · simp only [bind_run, change_run, hrun', tryCatch_run, he, close, getresponse, look_run, hconn]
        rfl
      · cases hi
        exact hsends
      · show Leaves _ _ _ _ tr[m].files
        rw [hfiles]
        exact hleaves
    · refine ⟨.exception, ⟨rest', w'⟩, ?_, fun i hi => ?_, ?_⟩
      · simp only [bind_run, change_run, hrun', tryCatch_run, hdone, getresponse, look_run, hsending.conn,
          Option.all_some, hsending.notClosed]
        rfl
      · rw [hsending.conn] at hi
        cases hi
        exact hsending.sends
      · rw [hrequest.after.files]
        exact hleaves

/-! ## Shorter bodies -/

theorem readOut_of_notMem {value : Value (Data ι)} {i : ι} (hi : i ∉ value.handles) (files : ι → FileLike) :
    value.readOut files i = files i := by
  rcases value with s | ⟨s | h, name⟩ | type
  · rfl
  · rfl
  · exact Function.update_of_ne (fun he => hi (List.mem_singleton.2 he)) _ _
  · rfl

theorem readOut_le (value : Value (Data ι)) (hle : ∀ i, (files' i).remaining.length ≤ (files i).remaining.length)
    (i : ι) : (value.readOut files' i).remaining.length ≤ (value.readOut files i).remaining.length := by
  rcases value with s | ⟨s | h, name⟩ | type
  · exact hle i
  · exact hle i
  · by_cases hi : i = h
    · subst hi
      rw [show (Value.file (Data.fileLike i) name).readOut files' i = .atEnd from Function.update_self _ _ _]
      exact Nat.zero_le _
    · have hmem : i ∉ (Value.file (Data.fileLike h) name).handles := fun hm => hi (List.mem_singleton.1 hm)
      rw [readOut_of_notMem hmem, readOut_of_notMem hmem]
      exact hle i
  · exact hle i

theorem length_fields_le : ∀ (fields : List (Str × Value (Data ι))) {files' files : ι → FileLike},
    (∀ i, (files' i).remaining.length ≤ (files i).remaining.length) →
      ((resolve files' fields).flatMap (fieldText guessType boundary)).length ≤
        ((resolve files fields).flatMap (fieldText guessType boundary)).length
  | [], _, _, _         => Nat.le_refl _
  | f :: fs, _, _, hle  => by
    rw [resolve, resolve, List.flatMap_cons, List.flatMap_cons, List.length_append, List.length_append]
    exact Nat.add_le_add (length_fieldText_le hle f) (length_fields_le fs (readOut_le f.2 hle))

theorem length_fields_lt : ∀ (fields : List (Str × Value (Data ι))) {files' files : ι → FileLike},
    Fewer (handles fields) files' files → ((resolve files' fields).flatMap (fieldText guessType boundary)).length <
      ((resolve files fields).flatMap (fieldText guessType boundary)).length
  | [], _, _, h                 => by
    obtain ⟨-, i, hi, -⟩ := h
    exact absurd hi List.not_mem_nil
  | f :: fs, files', files, h   => by
    obtain ⟨hle, i, hi, hlt⟩ := h
    rw [resolve, resolve, List.flatMap_cons, List.flatMap_cons, List.length_append, List.length_append]
    by_cases hhead : i ∈ f.2.handles
    · exact Nat.add_lt_add_of_lt_of_le (length_fieldText_lt hhead hlt) (length_fields_le fs (readOut_le f.2 hle))
    · -- the file is still as it was when the later fields are encoded
      have hrest : i ∈ handles fs := (List.mem_append.1 hi).resolve_left hhead
      have hfewer : Fewer (handles fs) (f.2.readOut files') (f.2.readOut files) := by
        refine ⟨readOut_le f.2 hle, i, hrest, ?_⟩
        rw [readOut_of_notMem hhead, readOut_of_notMem hhead]
        exact hlt
      exact Nat.add_lt_add_of_le_of_lt (length_fieldText_le hle f) (length_fields_lt fs hfewer)

/-- **A file with less to deliver** makes the body shorter. -/
theorem length_body_lt (h : Fewer (handles fields) files' files) (c : Call) (boundary : Str) :
    (body c files' fields boundary).length < (body c files fields boundary).length := by
  unfold body bodyText
  simp only [List.length_append]
  exact Nat.add_lt_add_right (length_fields_lt fields h) _

/-! ## All attempts -/

theorem firstBody_eq (henc : ∀ f ∈ fields, f.2.Encodable) (c : Call) (boundary : Str) (w : World ι) :
    firstBody c fields boundary w = some (body c w.files fields boundary) := by
  obtain ⟨w', h, hsending, hpos, hpost⟩ := postMultipart_whole henc c boundary true w
  unfold firstBody
  rw [hpost, if_pos rfl, ended_ok, hsending.conn, Option.map_some, hsending.sent, hpos, List.take_length]

theorem Connection.Sends.eq_of_complete {text : Str} {h : Connection} (hs : h.Sends text) (hc : h.Complete) :
    h.sent.flatten = text := by
  have hlen : some (str h.sent.flatten.length) = some (str text.length) := hc.2.symm.trans (hs.2 hc.1)
  exact hs.1.eq_of_length (ByteText.str_inj (Option.some.inj hlen))

theorem attempts_nil (boundary : Str) : attempts [] boundary = [success boundary] := rfl

theorem attempts_cons (f : Failure) (failing : List Failure) (boundary : Str) :
    attempts (f :: failing) boundary = f.attempt :: attempts failing boundary := rfl

theorem sendRequest_success (henc : ∀ f ∈ fields, f.2.Encodable) (c : Call) (boundary : Str) (w : World ι) :
    ∃ h, sendRequest c fields [success boundary] w = [⟨boundary, some h⟩] ∧ h.Complete ∧
      h.sent.flatten = body c w.files fields boundary := by
  obtain ⟨w', h, hsending, hpos, hpost⟩ := postMultipart_whole henc c boundary true w
  have hsent : h.sent.flatten = body c w.files fields boundary := by
    rw [hsending.sent, hpos, List.take_length]
  refine ⟨h, ?_, ⟨hsending.headed, hsent ▸ hsending.length⟩, hsent⟩
  simp only [sendRequest, success, hpost, if_pos, hsending.conn]

/-- **An attempt that fails** is followed by the others, with what it has left of the files. -/
theorem sendRequest_failure (henc : ∀ f ∈ fields, f.2.Encodable) (c : Call) (f : Failure) (as : List Attempt)
    (w : World ι) : ∃ t : World ι,
      sendRequest c fields (f.attempt :: as) w = ⟨f.boundary, t.conn⟩ :: sendRequest c fields as t ∧
        (∀ h, t.conn = some h → h.Sends (body c w.files fields f.boundary)) ∧
          Leaves (handles fields) w.files (firstReadOf w.files fields) f.stop t.files := by
  obtain ⟨e, t, hpost, hsends, hleaves⟩ := postMultipart_outcome henc c f.boundary f.stop w
  have hattempt : postMultipart c fields f.attempt.boundary f.attempt.answers ⟨f.attempt.stop, w⟩ = .error e t := hpost
  have hwithin : f.attempt.elapsed < 10 := f.within
  refine ⟨t.state, ?_, hsends, hleaves⟩
  simp only [sendRequest, hattempt, if_pos hwithin]
  rfl

/-- **Where no attempt that fails has read any bytes**, each attempt sends of the first body. -/
theorem sends_of_early (henc : ∀ f ∈ fields, f.2.Encodable) (c : Call) (boundary : Str) :
    ∀ (failing : List Failure) (w : World ι), (∀ f ∈ failing, Early (firstReadOf w.files fields) f.stop) →
      ∀ s ∈ sendRequest c fields (attempts failing boundary) w, ∀ h, s.conn = some h →
        h.Sends (body c w.files fields s.boundary)
  | [], w, _              => by
    obtain ⟨h', hrun, hcomplete, hsent⟩ := sendRequest_success henc c boundary w
    intro s hs h hh
    rw [attempts_nil, hrun] at hs
    obtain rfl := List.mem_singleton.1 hs
    cases hh
    exact ⟨hsent ▸ List.prefix_refl _, fun _ => hsent ▸ hcomplete.2⟩
  | f :: failing, w, hearly => by
    obtain ⟨t, hrun, hsends, hleaves⟩ := sendRequest_failure henc c f (attempts failing boundary) w
    have hfiles : t.files = w.files := hleaves.1 (hearly f List.mem_cons_self)
    have hrest := sends_of_early henc c boundary failing t (by
      rw [hfiles]
      exact fun g hg => hearly g (List.mem_cons_of_mem f hg))
    intro s hs h hh
    rw [attempts_cons, hrun] at hs
    rcases List.mem_cons.1 hs with rfl | hs
    · exact hsends h hh
    · rw [← hfiles]
      exact hrest s hs h hh

/-- **With less to deliver**, the attempt that succeeds is complete and too short. -/
theorem short_of_fewer (henc : ∀ f ∈ fields, f.2.Encodable) (c : Call) (boundary : Str) (files : ι → FileLike) :
    ∀ (failing : List Failure) (w : World ι), Fewer (handles fields) w.files files →
      ∃ s ∈ sendRequest c fields (attempts failing boundary) w, ∃ h, s.conn = some h ∧ h.Complete ∧
        h.sent.flatten.length < (body c files fields s.boundary).length
  | [], w, hfewer           => by
    obtain ⟨h, hrun, hcomplete, hsent⟩ := sendRequest_success henc c boundary w
    refine ⟨_, by rw [attempts_nil, hrun]; exact List.mem_cons_self, h, rfl, hcomplete, ?_⟩
    rw [hsent]
    exact length_body_lt hfewer c boundary
  | f :: failing, w, hfewer => by
    obtain ⟨t, hrun, -, hleaves⟩ := sendRequest_failure henc c f (attempts failing boundary) w
    have hfewer' : Fewer (handles fields) t.files files := by
      obtain ⟨hle, i, hi, hlt⟩ := hfewer
      exact ⟨fun j => (hleaves.le j).trans (hle j), i, hi, (hleaves.le i).trans_lt hlt⟩
    obtain ⟨s, hs, hshort⟩ := short_of_fewer henc c boundary files failing t hfewer'
    exact ⟨s, by rw [attempts_cons, hrun]; exact List.mem_cons_of_mem _ hs, hshort⟩

/-- **An attempt that fails after it has read some bytes** has the one that succeeds send too little. -/
theorem short_of_late (henc : ∀ f ∈ fields, f.2.Encodable) (c : Call) (boundary : Str) :
    ∀ (failing : List Failure) (w : World ι), (¬ ∀ f ∈ failing, Early (firstReadOf w.files fields) f.stop) →
      ∃ s ∈ sendRequest c fields (attempts failing boundary) w, ∃ h, s.conn = some h ∧ h.Complete ∧
        h.sent.flatten.length < (body c w.files fields s.boundary).length
  | [], _, hlate            => absurd (fun _ hf => absurd hf List.not_mem_nil) hlate
  | f :: failing, w, hlate  => by
    obtain ⟨t, hrun, -, hleaves⟩ := sendRequest_failure henc c f (attempts failing boundary) w
    have hrest : ∃ s ∈ sendRequest c fields (attempts failing boundary) t, ∃ h, s.conn = some h ∧ h.Complete ∧
        h.sent.flatten.length < (body c w.files fields s.boundary).length := by
      by_cases hf : Early (firstReadOf w.files fields) f.stop
      · have hfiles : t.files = w.files := hleaves.1 hf
        rw [← hfiles]
        refine short_of_late henc c boundary failing t (fun hall => hlate ?_)
        rw [hfiles] at hall
        exact List.forall_mem_cons.2 ⟨hf, hall⟩
      · exact short_of_fewer henc c boundary w.files failing t (hleaves.2 hf)
    obtain ⟨s, hs, hshort⟩ := hrest
    exact ⟨s, by rw [attempts_cons, hrun]; exact List.mem_cons_of_mem _ hs, hshort⟩

theorem not_sameRequest_of_late (henc : ∀ f ∈ fields, f.2.Encodable) {failing : List Failure} {w : World ι}
    (hlate : ¬ ∀ f ∈ failing, Early (firstReadOf w.files fields) f.stop) (c : Call) (boundary : Str) :
    ¬ SameRequest c fields failing boundary w := by
  intro hsame
  obtain ⟨s, hs, h, hconn, hcomplete, hshort⟩ := short_of_late henc c boundary failing w hlate
  have hbody := hsame s hs h hconn hcomplete
  rw [firstBody_eq henc] at hbody
  exact absurd (congrArg List.length (Option.some.inj hbody)) (Nat.ne_of_gt hshort)

/-- **The retries send the same request** exactly if each attempt that fails does so before it reads any bytes of a
file-like object, or there are none to read. -/
theorem sameRequest_iff (henc : ∀ f ∈ fields, f.2.Encodable) (c : Call) (failing : List Failure) (boundary : Str)
    (w : World ι) : SameRequest c fields failing boundary w ↔
      ∀ f ∈ failing, Early (firstReadOf w.files fields) f.stop := by
  constructor
  · intro hsame
    exact Classical.byContradiction (fun hlate => not_sameRequest_of_late henc hlate c boundary hsame)
  · intro hearly s hs h hconn hcomplete
    rw [firstBody_eq henc, (sends_of_early henc c boundary failing w hearly s hs h hconn).eq_of_complete hcomplete]

end Retry

theorem firstReadOf_form : firstReadOf formWorld.files form = some 10 := by decide

/-- The first attempt stops right before the first block of the file is read. -/
theorem sameRequest_unread : SameRequest upload form [⟨"a".toList, some 10, 1, by decide⟩] "b".toList formWorld := by
  refine (sameRequest_iff encodable_form upload _ "b".toList formWorld).2 (fun f hf => ?_)
  rw [List.mem_singleton.1 hf, firstReadOf_form, early_some_iff]

/-- The first attempt stops after the first block was read. -/
theorem not_sameRequest_read :
    ¬ SameRequest upload form [⟨"a".toList, some 11, 1, by decide⟩] "b".toList formWorld := by
  refine not_sameRequest_of_late encodable_form (fun hearly => ?_) upload "b".toList
  have hle := hearly _ List.mem_cons_self
  rw [firstReadOf_form, early_some_iff] at hle
  exact absurd hle (by decide)

end ScribdMultipart
end Scrapcode
