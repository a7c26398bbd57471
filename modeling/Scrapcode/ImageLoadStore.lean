import Mathlib.Data.List.Nodup
import Mathlib.Data.List.TakeDrop
import Mathlib.Logic.Function.Basic
import Scrapcode.ByteText
import Scrapcode.Programs
/-!
# ImageLoadStore — `imageloadstore.py`

A file goes into a row of the table `files`, or a row into a file.  What was stored comes back (`roundTrips`).  To
fetch, though, the destination is opened first, which empties it, and only then is the row looked for: where there is
none, or where the query or the writing fails, what was in the file is gone (`fetchLaw_iff`).

Each call to the database or the system may fail; what it did before is in `Calls`.
-/
namespace Scrapcode
namespace ImageLoadStore

open ByteText (Str)
open Programs

abbrev Bytes := List UInt8

structure Row where
  id           : Int
  origFilename : Str
  fileData     : Bytes
deriving DecidableEq, Repr

/-- The table `files`; `id` is its primary key. -/
structure Table where
  rows : List Row
  key  : (rows.map Row.id).Nodup

def Table.empty : Table := ⟨[], List.nodup_nil⟩

def Table.find (t : Table) (id : Int) : Option Row := t.rows.find? (fun r => r.id == id)

def Table.insert (t : Table) (r : Row) (h : r.id ∉ t.rows.map Row.id) : Table where
  rows := t.rows ++ [r]
  key  := by
    rw [List.map_append]
    exact List.nodup_append_comm.1 (List.nodup_cons.2 ⟨h, t.key⟩)

inductive Printed where
  | stored (filename : Str) (id : Int)
  | fetched (id : Int) (filename : Str) (origFilename : Str)
deriving DecidableEq, Repr

def Printed.text : Printed → Str
  | .stored filename id               => "Stored ".toList ++ filename ++ " into DB record ".toList ++ ByteText.strInt id
  | .fetched id filename origFilename => "Fetched ".toList ++ ByteText.strInt id ++ " into file ".toList ++ filename ++
      "; original filename was ".toList ++ origFilename

/-- The database, as it is committed and as the transaction sees it, the files, and what is printed. -/
structure World where
  committed : Option Table
  current   : Option Table
  files     : Str → Option Bytes
  printed   : List Printed

inductive Error where
  | database
  | os
  -- nothing to unpack
  | type
deriving DecidableEq, Repr

/-- What the calls of a run do.  `id` is what the sequence gives; `write` and `close` have how much of the data is in
the file if they fail. -/
structure Calls where
  connect     : Bool       := true
  lookup      : Bool       := true
  createTable : Bool       := true
  openFile    : Bool       := true
  read        : Bool       := true
  insert      : Bool       := true
  id          : Int        := 1
  commit      : Bool       := true
  select      : Bool       := true
  write       : Option Nat := none
  close       : Option Nat := none
deriving DecidableEq, Repr

abbrev Prog := EStateM Error World

def orRaise (ok : Bool) (e : Error) : Prog Unit := if ok = true then pure () else throw e

def connect (c : Calls) : Prog Unit := do
  orRaise c.connect .database
  modify (fun w => { w with current := w.committed })

/-- The table is created where it is missing. -/
def ensureTable (c : Calls) : Prog Unit := do
  orRaise c.lookup .database
  let w ← get
  if w.current.isNone = true then do
    orRaise c.createTable .database
    modify (fun w => { w with current := some .empty })

def setFile (filename : Str) (data : Bytes) : Prog Unit :=
  modify (fun w => { w with files := Function.update w.files filename (some data) })

def print (p : Printed) : Prog Unit := modify (fun w => { w with printed := w.printed ++ [p] })

/-- `open(filename, 'rb')` and `f.read()`. -/
def readFile (c : Calls) (filename : Str) : Prog Bytes := do
  orRaise c.openFile .os
  let w ← get
  match w.files filename with
  | none      => throw .os
  | some data => do
    orRaise c.read .os
    return data

/-- `INSERT`, with the id that it returns. -/
def insert (c : Calls) (filename : Str) (data : Bytes) : Prog Int := do
  orRaise c.insert .database
  let w ← get
  let t := w.current.getD .empty
  if h : c.id ∉ t.rows.map Row.id then do
    set { w with current := some (t.insert ⟨c.id, filename, data⟩ h) }
    return c.id
  else throw .database

def commit (c : Calls) : Prog Unit := do
  orRaise c.commit .database
  modify (fun w => { w with committed := w.current })

def store (c : Calls) (filename : Str) : Prog Unit := do
  let data ← readFile c filename
  let returnedId ← insert c filename data
  commit c
  print (.stored filename returnedId)

/-- `SELECT`, with the row that `fetchone` has, if any. -/
def select (c : Calls) (id : Int) : Prog (Option Row) := do
  orRaise c.select .database
  let w ← get
  return (w.current.getD .empty).find id

/-- `f.write` or `f.close`, which fail with some of the data in the file. -/
def writeFile (stopped : Option Nat) (filename : Str) (data : Bytes) : Prog Unit :=
  match stopped with
  | none   => setFile filename data
  | some n => do
    setFile filename (data.take n)
    throw .os

def fetch (c : Calls) (id : Int) (filename : Str) : Prog Unit := do
  orRaise c.openFile .os
  setFile filename []
  match ← select c id with
  | none     => throw .type
  | some row => do
    writeFile c.write filename row.fileData
    writeFile c.close filename row.fileData
    print (.fetched id filename row.origFilename)

inductive Action where
  | store
  | fetch (id : Int)
deriving DecidableEq, Repr

def main (c : Calls) (action : Action) (filename : Str) : Prog Unit := do
  connect c
  ensureTable c
  match action with
  | .store    => store c filename
  | .fetch id => fetch c id filename

/-! ## What a fetch is to do -/

def stored (w : World) (id : Int) : Option Row := (w.committed.getD .empty).find id

/-- **All or nothing**: the file is the stored data, or the run fails and the file is as it was. -/
def AllOrNothing (w : World) (c : Calls) (id : Int) (filename : Str) : Prop :=
  Ends (main c (.fetch id) filename w)
    (fun _ w' => ∃ row, stored w id = some row ∧ w'.files filename = some row.fileData)
    (fun _ w' => (∃ row, stored w id = some row ∧ w'.files filename = some row.fileData) ∨
      w'.files filename = w.files filename)

/-- **What is stored comes back**: a run prints the id, and one that fetches it without a failure has the data. -/
def RoundTrips : Prop := ∀ (w w₁ : World) (c d : Calls) (source destination : Str) (data : Bytes) (id : Int),
  w.files source = some data → main c .store source w = .ok () w₁ → w₁.printed = w.printed ++ [.stored source id] →
    d.connect = true → d.lookup = true → d.openFile = true → d.select = true → d.write = none → d.close = none →
      ∃ w₂, main d (.fetch id) destination w₁ = .ok () w₂ ∧ w₂.files destination = some data

structure FetchLaw (w : World) (c : Calls) (id : Int) (filename : Str) : Prop where
  allOrNothing : AllOrNothing w c id filename
  roundTrips   : RoundTrips

/-- The table is there, after the calls that see to it. -/
def Begins (w : World) (c : Calls) : Prop :=
  c.connect = true ∧ c.lookup = true ∧ (w.committed.isSome = true ∨ c.createTable = true)

/-- All calls up to the opening of the destination succeed. -/
def Opens (w : World) (c : Calls) : Prop := Begins w c ∧ c.openFile = true

/-- How much of the data comes to the file, where a call after the opening fails. -/
def stoppedAt (c : Calls) : Option Nat := if c.select = true then c.write.or c.close else some 0

/-- The destination is not opened, or all of the row comes to it, or what comes to it is what it has anyway. -/
def Spared (w : World) (c : Calls) (id : Int) (filename : Str) : Prop :=
  ¬ Opens w c ∨
    match stored w id with
    | none     => w.files filename = some []
    | some row => ∀ n, stoppedAt c = some n →
      row.fileData.length ≤ n ∨ w.files filename = some (row.fileData.take n)

variable {w : World} {c : Calls} {id : Int} {filename : Str} {ok : Bool} {e : Error} {row : Row}

/-! ## The beginning of a run -/

@[simp] theorem orRaise_true (e : Error) (w : World) : orRaise true e w = .ok () w := rfl

@[simp] theorem orRaise_false (e : Error) (w : World) : orRaise false e w = .error e w := rfl

@[simp] theorem setFile_run (filename : Str) (data : Bytes) (w : World) : setFile filename data w =
    .ok () { w with files := Function.update w.files filename (some data) } := rfl

@[simp] theorem print_run (p : Printed) (w : World) : print p w = .ok () { w with printed := w.printed ++ [p] } := rfl

/-- The transaction sees what is committed, and the table in any case. -/
def begun (w : World) : World := { w with current := some (w.committed.getD .empty) }

theorem main_of_begins (h : Begins w c) (action : Action) (filename : Str) : main c action filename w =
      match action with
      | .store    => store c filename (begun w)
      | .fetch id => fetch c id filename (begun w) := by
  obtain ⟨hconnect, hlookup, htable⟩ := h
  have hbegin : ensureTable c { w with current := w.committed } = .ok () (begun w) := by
    unfold ensureTable
    rw [bind_run, hlookup, orRaise_true]
    cases hc : w.committed with
    | none   =>
      have hcreate : c.createTable = true := htable.resolve_left (by rw [hc]; decide)
      simp [hcreate, begun, hc]
    | some t => simp [begun, hc]
  unfold main connect
  simp only [bind_run, hconnect, orRaise_true, modify_run, hbegin]
  cases action <;> rfl

/-- **A run that does not begin** leaves the files alone. -/
theorem main_of_not_begins (h : ¬ Begins w c) (action : Action) (filename : Str) :
    ∃ e w', main c action filename w = .error e w' ∧ w'.files = w.files := by
  unfold main connect
  cases hconnect : c.connect with
  | false => exact ⟨.database, w, by simp, rfl⟩
  | true  =>
    refine ⟨.database, { w with current := w.committed }, ?_, rfl⟩
    have hbegin : ensureTable c { w with current := w.committed } =
        .error .database { w with current := w.committed } := by
      unfold ensureTable
      cases hlookup : c.lookup with
      | false => simp
      | true  =>
        obtain ⟨hnone, hcreate⟩ := not_or.1 (fun htable => h ⟨hconnect, hlookup, htable⟩)
        simp [Option.not_isSome_iff_eq_none.1 hnone, Bool.eq_false_iff.2 hcreate]
    simp only [bind_run, orRaise_true, modify_run, hbegin]

/-! ## A fetch -/

theorem fetch_of_not_opened (h : c.openFile = false) (id : Int) (filename : Str) (w : World) :
    fetch c id filename w = .error .os w := by
  unfold fetch
  simp [h]

theorem select_run (h : c.select = true) (id : Int) (w : World) :
    select c id w = .ok ((w.current.getD .empty).find id) w := by
  unfold select
  rw [h]
  rfl

/-- Without a row the destination is left empty. -/
theorem fetch_of_none (hopen : c.openFile = true) (h : (w.current.getD .empty).find id = none) (filename : Str) : ∃ e,
    fetch c id filename w = .error e { w with files := Function.update w.files filename (some []) } := by
  unfold fetch
  cases hselect : c.select with
  | false => exact ⟨.database, by simp [hopen, select, hselect]⟩
  | true  => exact ⟨.type, by simp [hopen, select_run hselect, h]⟩

/-- With a row the destination has its data, or the part of it up to where the run is stopped. -/
theorem fetch_of_some (hopen : c.openFile = true) (h : (w.current.getD .empty).find id = some row) (filename : Str) :
    match stoppedAt c with
    | none   => ∃ w', fetch c id filename w = .ok () w' ∧ w'.files filename = some row.fileData
    | some n => ∃ e w', fetch c id filename w = .error e w' ∧ w'.files filename = some (row.fileData.take n) := by
  unfold fetch stoppedAt
  cases hselect : c.select with
  | false =>
    exact ⟨.database, { w with files := Function.update w.files filename (some []) },
      by simp [hopen, select, hselect], Function.update_self _ _ _⟩
  | true  =>
    have hfind : select c id { w with files := Function.update w.files filename (some []) } =
        .ok (some row) { w with files := Function.update w.files filename (some []) } := by
      rw [select_run hselect, ← h]
    cases hwrite : c.write with
    | some n =>
      exact ⟨.os, { w with files := Function.update w.files filename (some (row.fileData.take n)) },
        by simp [hopen, hfind, writeFile], Function.update_self _ _ _⟩
    | none   =>
      cases hclose : c.close with
      | some n =>
        exact ⟨.os, { w with files := Function.update w.files filename (some (row.fileData.take n)) },
          by simp [hopen, hfind, writeFile], Function.update_self _ _ _⟩
      | none   =>
        exact ⟨{ w with
          files   := Function.update w.files filename (some row.fileData)
          printed := w.printed ++ [.fetched id filename row.origFilename] },
          by simp [hopen, hfind, writeFile], Function.update_self _ _ _⟩

/-- **A run that comes to open the destination** spares it only by chance, if it does not come to its end. -/
theorem allOrNothing_of_opens (h : Opens w c) : AllOrNothing w c id filename ↔
    match stored w id with
    | none     => w.files filename = some []
    | some row => ∀ n, stoppedAt c = some n →
      row.fileData.length ≤ n ∨ w.files filename = some (row.fileData.take n) := by
  have hmain : main c (.fetch id) filename w = fetch c id filename (begun w) := main_of_begins h.1 _ _
  have hfound : ((begun w).current.getD .empty).find id = stored w id := rfl
  unfold AllOrNothing
  rw [hmain]
  cases hrow : stored w id with
  | none     =>
    obtain ⟨e, he⟩ := fetch_of_none h.2 (hfound.trans hrow) filename
    have hfile : Function.update w.files filename (some []) filename = some [] := Function.update_self _ _ _
    rw [he]
    constructor
    · rintro (⟨row, hrow', -⟩ | hsame)
      · cases hrow'
      · exact hsame.symm.trans hfile
    · exact fun hempty => Or.inr (hfile.trans hempty.symm)
  | some row =>
    have hfetch := fetch_of_some h.2 (hfound.trans hrow) filename
    cases hstop : stoppedAt c with
    | none   =>
      rw [hstop] at hfetch
      obtain ⟨w', he, hfile⟩ := hfetch
      rw [he]
      exact iff_of_true ⟨row, rfl, hfile⟩ (fun n hn => by cases hn)
    | some n =>
      rw [hstop] at hfetch
      obtain ⟨e, w', he, hfile⟩ := hfetch
      rw [he]
      constructor
      · rintro (⟨row', hrow', hwhole⟩ | hsame) m hm
        · cases hrow'
          cases hm
          exact Or.inl ((List.take_eq_self_iff _).1 (Option.some.inj (hfile.symm.trans hwhole)))
        · cases hm
          exact Or.inr (hsame.symm.trans hfile)
      · intro hspared
        rcases hspared n rfl with hwhole | hsame
        · exact Or.inl ⟨row, rfl, hfile.trans (congrArg some (List.take_of_length_le hwhole))⟩
        · exact Or.inr (hfile.trans hsame.symm)

theorem allOrNothing_iff (w : World) (c : Calls) (id : Int) (filename : Str) :
    AllOrNothing w c id filename ↔ Spared w c id filename := by
  unfold Spared
  by_cases hopens : Opens w c
  · rw [or_iff_right (not_not.2 hopens)]
    exact allOrNothing_of_opens hopens
  · refine iff_of_true ?_ (Or.inl hopens)
    unfold AllOrNothing
    by_cases hbegins : Begins w c
    · have hclosed : c.openFile = false := Bool.eq_false_iff.2 (fun hopen => hopens ⟨hbegins, hopen⟩)
      have hmain : main c (.fetch id) filename w = .error .os (begun w) :=
        (main_of_begins hbegins _ _).trans (fetch_of_not_opened hclosed id filename (begun w))
      rw [hmain]
      exact Or.inr rfl
    · obtain ⟨e, w', he, hfiles⟩ := main_of_not_begins hbegins (.fetch id) filename
      rw [he]
      exact Or.inr (congrFun hfiles filename)

/-! ## To store and to fetch -/

theorem Table.find_insert (t : Table) (r : Row) (h : r.id ∉ t.rows.map Row.id) : (t.insert r h).find r.id = some r := by
  have hnone : t.rows.find? (fun x => x.id == r.id) = none := by
    rw [List.find?_eq_none]
    exact fun x hx he => h (beq_iff_eq.1 he ▸ List.mem_map_of_mem hx)
  unfold Table.find Table.insert
  rw [List.find?_append, hnone, Option.none_or, List.find?_singleton, if_pos (beq_self_eq_true r.id)]

theorem readFile_run {data : Bytes} (hdata : w.files filename = some data) : readFile c filename w =
    if c.openFile = true ∧ c.read = true then .ok data w else .error .os w := by
  unfold readFile
  cases hopen : c.openFile with
  | false => simp
  | true  =>
    simp only [bind_run, orRaise_true, get_run, hdata]
    cases c.read <;> rfl

theorem insert_run (c : Calls) (filename : Str) (data : Bytes) (w : World) : insert c filename data w =
    if h : c.insert = true ∧ c.id ∉ (w.current.getD .empty).rows.map Row.id then
      .ok c.id { w with current := some ((w.current.getD .empty).insert ⟨c.id, filename, data⟩ h.2) }
    else .error .database w := by
  unfold insert
  cases hinsert : c.insert with
  | false => simp
  | true  =>
    by_cases hfresh : c.id ∉ (w.current.getD .empty).rows.map Row.id
    · rw [dif_pos ⟨rfl, hfresh⟩]
      simp only [bind_run, orRaise_true, get_run, dif_pos hfresh]
      rfl
    · rw [dif_neg (fun h => hfresh h.2)]
      simp only [bind_run, orRaise_true, get_run, dif_neg hfresh, throw_run]

theorem commit_run (c : Calls) (w : World) : commit c w =
    if c.commit = true then .ok () { w with committed := w.current } else .error .database w := by
  unfold commit
  cases c.commit <;> rfl

/-- **A run that stores** has the data in the table at its end, under the id that it prints. -/
theorem store_spec {w w' : World} {data : Bytes} (hdata : w.files filename = some data)
    (h : store c filename w = .ok () w') : ∃ t, w'.committed = some t ∧ t.find c.id = some ⟨c.id, filename, data⟩ ∧
      w'.printed = w.printed ++ [.stored filename c.id] := by
  unfold store at h
  simp only [bind_run, readFile_run hdata] at h
  split_ifs at h with hread
  simp only [insert_run] at h
  split_ifs at h with hfresh
  simp only [commit_run] at h
  split_ifs at h with hcommit
  cases h
  exact ⟨_, rfl, Table.find_insert _ ⟨c.id, filename, data⟩ hfresh.2, rfl⟩

/-- **What is stored comes back.** -/
theorem roundTrips : RoundTrips := by
  intro w w₁ c d source destination data id hdata hstore hprinted hconnect hlookup hopen hselect hwrite hclose
  have hbegins : Begins w c := by
    by_contra hnot
    obtain ⟨e, w', he, -⟩ := main_of_not_begins hnot .store source
    rw [hstore] at he
    cases he
  have hrun : store c source (begun w) = .ok () w₁ := (main_of_begins hbegins .store source).symm.trans hstore
  obtain ⟨t, hcommitted, hfind, hprinted'⟩ := store_spec (w := begun w) hdata hrun
  have hid : c.id = id := by
    have hlast := List.append_cancel_left (hprinted'.symm.trans hprinted)
    cases hlast
    rfl
  subst hid
  have hbegins₁ : Begins w₁ d := ⟨hconnect, hlookup, Or.inl (by rw [hcommitted]; rfl)⟩
  have hfound : ((begun w₁).current.getD .empty).find c.id = some ⟨c.id, source, data⟩ := by
    rw [← hfind, begun, hcommitted]
    rfl
  have hstop : stoppedAt d = none := by
    rw [stoppedAt, if_pos hselect, hwrite, hclose]
    rfl
  have hfetch := fetch_of_some hopen hfound destination
  rw [hstop] at hfetch
  obtain ⟨w₂, he, hfile⟩ := hfetch
  exact ⟨w₂, (main_of_begins hbegins₁ (.fetch c.id) destination).trans he, hfile⟩

/-- **A fetch is all or nothing** where the destination is not opened, where all of the row comes to it, or where it has
what comes to it anyway; and what is stored comes back. -/
theorem fetchLaw_iff (w : World) (c : Calls) (id : Int) (filename : Str) :
    FetchLaw w c id filename ↔ Spared w c id filename :=
  ⟨fun h => (allOrNothing_iff w c id filename).1 h.allOrNothing,
    fun h => ⟨(allOrNothing_iff w c id filename).2 h, roundTrips⟩⟩

/-- Without the row 42 a file with one byte is emptied. -/
theorem not_fetchLaw_missing :
    ¬ FetchLaw ⟨some .empty, none, fun _ => some [7], []⟩ {} 42 "a.png".toList := by
  intro h
  rcases h.allOrNothing with ⟨row, hrow, -⟩ | hsame
  · cases hrow
  · exact absurd hsame (by decide)

end ImageLoadStore
end Scrapcode
