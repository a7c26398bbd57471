import Mathlib.Logic.Function.Basic
import Scrapcode.ByteText
import Scrapcode.FileBuffer
import Scrapcode.Interrupts
import Scrapcode.TextPieces
/-!
# ScribdMultipart — the multipart encoder of the scribd patch

The old encoder joins the lines of a form; the one of the patch writes them to a buffer, with the separators, and copies
there what a file-like object delivers.  Both come to the same text, but for a line end (`encoder_agrees`), and this
text is what `post_multipart` sends.

An exception may come before each operation on the buffer, on a file-like object or on the connection.
-/
namespace Scrapcode
namespace ScribdMultipart

open ByteText (Str str)
open FileBuffer (Buffer)
open Interrupts
open Programs

/-- What the reads of a file-like object deliver one after the other, in blocks of any size; then they deliver
nothing. -/
structure FileLike where
  blocks   : List Str
  nonempty : ∀ b ∈ blocks, b ≠ []

namespace FileLike

def atEnd : FileLike := ⟨[], fun _ h => absurd h List.not_mem_nil⟩

def remaining (f : FileLike) : Str := f.blocks.flatten

def read : FileLike → Str × FileLike
  | ⟨[], h⟩      => ([], ⟨[], h⟩)
  | ⟨b :: bs, h⟩ => (b, ⟨bs, fun b' hb => h b' (List.mem_cons_of_mem b hb)⟩)

end FileLike

variable {ι δ : Type}

/-- The data of a file: a string, or a file-like object. -/
inductive Data (ι : Type) where
  | text (s : Str)
  | fileLike (h : ι)

/-- The value of a field; `δ` is the data that a file may have. -/
inductive Value (δ : Type) where
  | str (s : Str)
  | file (data : δ) (name : Str)
  | other (type : Str)

inductive Fault where
  -- of an operation
  | exception
  | typeError (text : Str)
  | responseNotReady
  | outOfFuel
deriving DecidableEq, Repr

def crlf : Str := "\r\n".toList

/-! ## The texts of both encoders -/

def delimiter (boundary : Str) : Str := "--".toList ++ boundary

def closing (boundary : Str) : Str := "--".toList ++ boundary ++ "--".toList

def disposition (key : Str) : Str := "Content-Disposition: form-data; name=\"".toList ++ key ++ "\"".toList

def fileDisposition (key name : Str) : Str := "Content-Disposition: form-data; name=\"".toList ++ key ++
  "\"; filename=\"".toList ++ name ++ "\"".toList

/-- `mimetypes.guess_type(name)[0] or 'application/octet-stream'`. -/
def contentType (guessType : Str → Option Str) (name : Str) : Str := "Content-Type: ".toList ++
  match guessType name with
  | some (c :: ctype) => c :: ctype
  | _                 => "application/octet-stream".toList

def typeError (type : Str) : Fault := .typeError ("value must be a tuple or str, not ".toList ++ type)

/-! ## The old encoder -/

def oldFieldLines (guessType : Str → Option Str) (boundary : Str) : Str × Value Str → Except Fault (List Str)
  | (key, .file data name) =>
    .ok [delimiter boundary, fileDisposition key name, contentType guessType name, [], data]
  | (key, .str value)      => .ok [delimiter boundary, disposition key, [], value]
  | (_, .other type)       => .error (typeError type)

def oldLines (guessType : Str → Option Str) (boundary : Str) : List (Str × Value Str) → Except Fault (List Str)
  | []      => .ok []
  | f :: fs => do
    let lines ← oldFieldLines guessType boundary f
    let rest ← oldLines guessType boundary fs
    return lines ++ rest

def oldEncodeMultipartFormdata (guessType : Str → Option Str) (fields : List (Str × Value Str)) (boundary : Str) :
    Except Fault Str := do
  let lines ← oldLines guessType boundary fields
  return crlf.intercalate (lines ++ [closing boundary])

/-! ## The encoder of the patch -/

structure Connection where
  headers : List (Str × Str) := []
  headed  : Bool             := false
  sent    : List Str         := []
  closed  : Bool             := false
deriving DecidableEq, Repr

/-- `conn` is the connection of the last attempt, if it came to make one; `progress` are the calls of the callback. -/
structure World (ι : Type) where
  reqBuffer : Buffer Char
  files     : ι → FileLike
  headers   : List (Str × Str)
  conn      : Option Connection
  progress  : List (Nat × Nat)

abbrev Prog (ι : Type) := Interrupts.Prog Fault (World ι)

def onBuffer {α : Type} (f : Buffer Char → α × Buffer Char) : Prog ι α :=
  op .exception (fun w => ((f w.reqBuffer).1, { w with reqBuffer := (f w.reqBuffer).2 }))

def seek (n : Nat) : Prog ι Unit := onBuffer (fun b => ((), b.seek n))

def write (s : Str) : Prog ι Unit := onBuffer (fun b => ((), b.write '\x00' s))

def flush : Prog ι Unit := onBuffer (fun b => ((), b))

def tell : Prog ι Nat := onBuffer (fun b => (b.pos, b))

def truncate : Prog ι Unit := onBuffer (fun b => ((), b.truncate))

def readBuffer (n : Nat) : Prog ι Str := onBuffer (Buffer.read n)

section Encoder

variable [DecidableEq ι]

def readData (h : ι) : Prog ι Str :=
  op .exception (fun w => ((w.files h).read.1, { w with files := Function.update w.files h (w.files h).read.2 }))

/-- The loop of `copy_to_buffer`; a round reads one block. -/
def copyBlocks (h : ι) : Nat → Prog ι Unit
  | 0        => throw .outOfFuel
  | fuel + 1 => do
    let buf ← readData h
    if buf = [] then pure () else do
      write buf
      copyBlocks h fuel

def copyToBuffer : Data ι → Prog ι Unit
  | .text data  => write data
  | .fileLike h => do
    let w ← look
    copyBlocks h ((w.files h).blocks.length + 1)

def encodeValue (guessType : Str → Option Str) (key : Str) : Value (Data ι) → Prog ι Unit
  | .file data name => do
    write (fileDisposition key name ++ crlf)
    write (contentType guessType name ++ crlf)
    write crlf
    copyToBuffer data
  | .str value      => do
    write (disposition key ++ crlf)
    write crlf
    write value
  | .other type     => throw (typeError type)

def encodeField (guessType : Str → Option Str) (boundary : Str) (f : Str × Value (Data ι)) : Prog ι Unit := do
  write (delimiter boundary ++ crlf)
  encodeValue guessType f.1 f.2
  write crlf

def encodeFields (guessType : Str → Option Str) (boundary : Str) : List (Str × Value (Data ι)) → Prog ι Unit
  | []      => pure ()
  | f :: fs => do
    encodeField guessType boundary f
    encodeFields guessType boundary fs

/-- The text is in `req_buffer`; what is returned is its length. -/
def encodeMultipartFormdata (guessType : Str → Option Str) (fields : List (Str × Value (Data ι))) (boundary : Str) :
    Prog ι Nat := do
  seek 0
  encodeFields guessType boundary fields
  write (closing boundary ++ crlf)
  flush
  let bufferSize ← tell
  truncate
  seek 0
  return bufferSize

end Encoder

/-! ## Sending -/

def copyBlockSize : Nat := 8192

def uploadBlockSize : Nat := copyBlockSize

/-- `headers[k] = v`. -/
def setItem (k v : Str) : List (Str × Str) → List (Str × Str)
  | []      => [(k, v)]
  | p :: d => if p.1 = k then (k, v) :: d else p :: setItem k v d

def contentLength : Str := "Content-Length".toList

def onConn (f : Connection → Connection) : Prog ι Unit := op .exception (fun w => ((), { w with conn := w.conn.map f }))

-- the request line is not recorded
def putrequest : Prog ι Unit := onConn id

def putheaders : List (Str × Str) → Prog ι Unit
  | []     => pure ()
  | p :: d => do
    onConn (fun h => { h with headers := h.headers ++ [p] })
    putheaders d

def endheaders : Prog ι Unit := onConn (fun h => { h with headed := true })

def send (block : Str) : Prog ι Unit := onConn (fun h => { h with sent := h.sent ++ [block] })

def close : Prog ι Unit := change (fun w => { w with conn := w.conn.map (fun h => { h with closed := true }) })

/-- `progress_callback(req_buffer.tell(), buffer_size)`, if there is a callback. -/
def report (progressCallback : Bool) (bufferSize : Nat) : Prog ι Unit :=
  if progressCallback = true then
    op .exception (fun w => ((), { w with progress := w.progress ++ [(w.reqBuffer.pos, bufferSize)] }))
  else pure ()

def sendBlocks (progressCallback : Bool) (bufferSize : Nat) : Nat → Prog ι Unit
  | 0        => throw .outOfFuel
  | fuel + 1 => do
    let nextblock ← readBuffer uploadBlockSize
    if nextblock = [] then pure () else do
      send nextblock
      report progressCallback bufferSize
      sendBlocks progressCallback bufferSize fuel

/-- A connection that is closed has no response; otherwise the server answers, or it does not. -/
def getresponse (answers : Bool) : Prog ι Unit := do
  let w ← look
  if w.conn.all Connection.closed = true then throw .responseNotReady
  else if answers = true then pure () else throw .exception

/-- What a caller of `post_multipart` gives: whether a buffer, headers and a callback. -/
structure Call where
  guessType        : Str → Option Str
  reqBuffer        : Bool
  headers          : Bool
  progressCallback : Bool

def setHeaders (boundary : Str) (bufferSize : Nat) : Prog ι Unit := change (fun w => { w with
  headers := setItem contentLength (str bufferSize)
    (setItem "Content-Type".toList ("multipart/form-data; boundary=".toList ++ boundary) w.headers) })

def request (c : Call) (boundary : Str) (bufferSize : Nat) : Prog ι Unit := do
  putrequest
  setHeaders boundary bufferSize
  let w ← look
  putheaders w.headers
  endheaders
  sendBlocks c.progressCallback bufferSize (w.reqBuffer.content.length + 1)

/-- The variables of a call, before it has a connection. -/
def World.begun (c : Call) (w : World ι) : World ι := { w with
  reqBuffer := if c.reqBuffer = true then w.reqBuffer else .empty
  headers   := if c.headers = true then w.headers else []
  conn      := none }

def World.connected (w : World ι) : World ι := { w with conn := some {} }

def postMultipart [DecidableEq ι] (c : Call) (fields : List (Str × Value (Data ι))) (boundary : Str)
    (answers : Bool) : Prog ι Unit := do
  change (World.begun c)
  let bufferSize ← encodeMultipartFormdata c.guessType fields boundary
  change World.connected
  try request c boundary bufferSize catch _ => close
  getresponse answers

/-! ## What an encoder does to the world -/

/-- Only the buffer and the files change, and the files only have less to deliver. -/
structure Later (w w' : World ι) : Prop where
  files : ∀ h, (w'.files h).remaining.length ≤ (w.files h).remaining.length
  conn  : w'.conn = w.conn

theorem Later.refl (w : World ι) : Later w w := ⟨fun _ => Nat.le_refl _, rfl⟩

theorem Later.trans {w w' w'' : World ι} (h : Later w w') (h' : Later w' w'') : Later w w'' :=
  ⟨fun i => (h'.files i).trans (h.files i), h'.conn.trans h.conn⟩

instance : IsTrans (World ι) Later := ⟨fun _ _ _ => Later.trans⟩

/-- Some of the files `hs` has less to deliver. -/
def Fewer (hs : List ι) (files' files : ι → FileLike) : Prop :=
  (∀ h, (files' h).remaining.length ≤ (files h).remaining.length) ∧
    ∃ h ∈ hs, (files' h).remaining.length < (files h).remaining.length

theorem Fewer.later {hs : List ι} {files : ι → FileLike} {w w' : World ι} (h : Fewer hs w.files files)
    (hw : Later w w') : Fewer hs w'.files files := by
  obtain ⟨hle, i, hi, hlt⟩ := h
  exact ⟨fun j => (hw.files j).trans (hle j), i, hi, (hw.files i).trans_lt hlt⟩

/-- Bytes of the files `hs` are delivered first by the operation with this number, if by any. -/
def FirstRead (hs : List ι) (files : ι → FileLike) (tr : List (World ι)) (w' : World ι) : Option Nat → Prop
  | none   => (∀ t ∈ tr, t.files = files) ∧ w'.files = files
  | some k => ∃ pre post, tr = pre ++ post ∧ pre.length = k + 1 ∧ (∀ t ∈ pre, t.files = files) ∧
      (∀ t ∈ post, Fewer hs t.files files) ∧ Fewer hs w'.files files

theorem FirstRead.append {hs : List ι} {files : ι → FileLike} {w' w'' : World ι} {tr tr' : List (World ι)}
    {k j : Option Nat} (h : FirstRead hs files tr w' k) (h' : FirstRead hs w'.files tr' w'' j)
    (htr : ∀ t ∈ tr', Later w' t) (hw : Later w' w'') :
    FirstRead hs files (tr ++ tr') w'' (k.or (j.map (tr.length + ·))) := by
  cases k with
  | some k =>
    obtain ⟨pre, post, rfl, hlen, hpre, hpost, hend⟩ := h
    refine ⟨pre, post ++ tr', List.append_assoc _ _ _, hlen, hpre, fun t ht => ?_, hend.later hw⟩
    rcases List.mem_append.1 ht with ht | ht
    · exact hpost t ht
    · exact hend.later (htr t ht)
  | none   =>
    obtain ⟨hpre, hend⟩ := h
    rw [hend] at h'
    cases j with
    | none   =>
      refine ⟨fun t ht => ?_, h'.2⟩
      rcases List.mem_append.1 ht with ht | ht
      · exact hpre t ht
      · exact h'.1 t ht
    | some j =>
      obtain ⟨pre, post, rfl, hlen, hpre', hpost, hend'⟩ := h'
      refine ⟨tr ++ pre, post, (List.append_assoc _ _ _).symm, ?_, fun t ht => ?_, hpost, hend'⟩
      · rw [List.length_append, hlen]; rfl
      · rcases List.mem_append.1 ht with ht | ht
        · exact hpre t ht
        · exact hpre' t ht

def World.wrote (text : Str) (files : ι → FileLike) (w : World ι) : World ι :=
  { w with reqBuffer := w.reqBuffer.write '\x00' text, files := files }

@[simp] theorem World.wrote_files (text : Str) (files : ι → FileLike) (w : World ι) :
    (w.wrote text files).files = files := rfl

theorem World.wrote_wrote (s t : Str) (f g : ι → FileLike) (w : World ι) :
    (w.wrote s f).wrote t g = w.wrote (s ++ t) g := by
  unfold World.wrote
  rw [Buffer.write_append]

/-- The program is `n` operations long; by the operation `first` bytes of the files `hs` are delivered first. -/
def Steps {α : Type} (hs : List ι) (p : Prog ι α) (w : World ι) (n : Nat) (first : Option Nat) (x : α)
    (w' : World ι) : Prop :=
  ∃ tr, tr.length = n ∧ Takes Later p w tr x w' ∧ FirstRead hs w.files tr w' first

/-- The program writes `text`, and leaves the files as `files`. -/
def Encodes {α : Type} (hs : List ι) (p : Prog ι α) (w : World ι) (n : Nat) (first : Option Nat) (x : α) (text : Str)
    (files : ι → FileLike) : Prop := Steps hs p w n first x (w.wrote text files)

variable {α β : Type} {hs : List ι} {w : World ι}

theorem takes_onBuffer (f : Buffer Char → α × Buffer Char) (w : World ι) :
    Takes Later (onBuffer f) w [w] (f w.reqBuffer).1 { w with reqBuffer := (f w.reqBuffer).2 } := by
  refine Takes.op (f := fun w => ((f w.reqBuffer).1, { w with reqBuffer := (f w.reqBuffer).2 })) (Later.refl w) ?_
  exact ⟨fun _ => Nat.le_refl _, rfl⟩

namespace Steps

theorem pure (x : α) : Steps hs (pure x : Prog ι α) w 0 none x w :=
  ⟨[], rfl, .pure (.refl w) x, fun _ h => absurd h List.not_mem_nil, rfl⟩

theorem onBuffer (f : Buffer Char → α × Buffer Char) : Steps hs (onBuffer f) w 1 none (f w.reqBuffer).1
    { w with reqBuffer := (f w.reqBuffer).2 } := by
  refine ⟨[w], rfl, takes_onBuffer f w, fun t ht => ?_, rfl⟩
  rw [List.mem_singleton.1 ht]

theorem bind {p : Prog ι α} {f : α → Prog ι β} {n m : Nat} {k j : Option Nat} {x : α} {y : β} {w' w'' : World ι}
    (hp : Steps hs p w n k x w') (hf : Steps hs (f x) w' m j y w'') :
    Steps hs (p >>= f) w (n + m) (k.or (j.map (n + ·))) y w'' := by
  obtain ⟨tr, rfl, htakes, hfirst⟩ := hp
  obtain ⟨tr', rfl, htakes', hfirst'⟩ := hf
  exact ⟨tr ++ tr', List.length_append, htakes.bind htakes',
    hfirst.append hfirst' (fun t ht => (htakes'.between t ht).1) htakes'.after⟩

theorem seq {p : Prog ι α} {q : Prog ι β} {n m : Nat} {k j : Option Nat} {x : α} {y : β} {w' w'' : World ι}
    (hp : Steps hs p w n k x w') (hq : Steps hs q w' m j y w'') :
    Steps hs (p >>= fun _ => q) w (n + m) (k.or (j.map (n + ·))) y w'' := hp.bind hq

theorem cast {p : Prog ι α} {n n' : Nat} {k k' : Option Nat} {x x' : α} {w' w'' : World ι}
    (h : Steps hs p w n k x w') (hn : n = n') (hk : k = k') (hx : x = x') (hw : w' = w'') :
    Steps hs p w n' k' x' w'' := by
  subst hn hk hx hw
  exact h

end Steps

theorem Encodes.pure (x : α) : Encodes hs (pure x : Prog ι α) w 0 none x [] w.files := Steps.pure x

theorem encodes_write (s : Str) : Encodes hs (write s) w 1 none () s w.files := Steps.onBuffer _

/-- **One program after the other** writes one text after the other. -/
theorem Encodes.bind {p : Prog ι α} {f : α → Prog ι β} {n m : Nat} {k j : Option Nat} {x : α} {y : β} {s t : Str}
    {files files' : ι → FileLike} (hp : Encodes hs p w n k x s files)
    (hf : Encodes hs (f x) (w.wrote s files) m j y t files') :
    Encodes hs (p >>= f) w (n + m) (k.or (j.map (n + ·))) y (s ++ t) files' := by
  unfold Encodes at hf ⊢
  rw [World.wrote_wrote] at hf
  exact Steps.bind hp hf

theorem Encodes.seq {p : Prog ι α} {q : Prog ι β} {n m : Nat} {k j : Option Nat} {x : α} {y : β} {s t : Str}
    {files files' : ι → FileLike} (hp : Encodes hs p w n k x s files)
    (hq : Encodes hs q (w.wrote s files) m j y t files') :
    Encodes hs (p >>= fun _ => q) w (n + m) (k.or (j.map (n + ·))) y (s ++ t) files' := hp.bind hq

theorem Encodes.cast {p : Prog ι α} {n n' : Nat} {k k' : Option Nat} {x : α} {s s' : Str} {files : ι → FileLike}
    (h : Encodes hs p w n k x s files) (hn : n = n') (hk : k = k') (hs' : s = s') :
    Encodes hs p w n' k' x s' files := by
  subst hn hk hs'
  exact h

/-- What comes after the last line: the size is that of the text, the rest is cut off. -/
theorem steps_finish (w : World ι) : Steps hs (do
      flush
      let bufferSize ← tell
      truncate
      seek 0
      return bufferSize) w 4 none w.reqBuffer.pos { w with reqBuffer := w.reqBuffer.truncate.seek 0 } := by
  have hcut : Steps hs (truncate >>= fun _ => seek 0 >>= fun _ => pure w.reqBuffer.pos) w (1 + (1 + 0)) none
      w.reqBuffer.pos { w with reqBuffer := w.reqBuffer.truncate.seek 0 } :=
    (Steps.onBuffer (w := w) (fun b => ((), b.truncate))).seq
      ((Steps.onBuffer (fun b => ((), b.seek 0))).seq (Steps.pure w.reqBuffer.pos))
  have hsize := (Steps.onBuffer (w := w) (fun b => (b.pos, b))).bind
    (f := fun n => truncate >>= fun _ => seek 0 >>= fun _ => pure n) hcut
  exact (Steps.onBuffer (w := w) (fun b => ((), b))).seq hsize

/-! ## The fields -/

theorem FileLike.eq_atEnd {f : FileLike} (h : f.blocks = []) : f = atEnd := by
  cases f; cases h; rfl

theorem FileLike.read_append (f : FileLike) : f.read.1 ++ f.read.2.remaining = f.remaining := by
  rcases f with ⟨_ | ⟨b, bs⟩, h⟩ <;> rfl

theorem FileLike.length_read_le (f : FileLike) : f.read.2.remaining.length ≤ f.remaining.length := by
  rw [← f.read_append, List.length_append]
  exact Nat.le_add_left _ _

theorem FileLike.length_read_lt {f : FileLike} (h : f.blocks ≠ []) :
    f.read.2.remaining.length < f.remaining.length := by
  rcases f with ⟨_ | ⟨b, bs⟩, hne⟩
  · exact absurd rfl h
  · have hb : 0 < b.length := List.length_pos_of_ne_nil (hne b List.mem_cons_self)
    show bs.flatten.length < (b ++ bs.flatten).length
    rw [List.length_append]
    exact Nat.lt_add_of_pos_left hb

section Encoder

variable [DecidableEq ι]

/-- What `data` has to deliver. -/
def Data.remaining (files : ι → FileLike) : Data ι → Str
  | .text s     => s
  | .fileLike h => (files h).remaining

/-- The files after `data` was read. -/
def Data.readOut (files : ι → FileLike) : Data ι → ι → FileLike
  | .text _     => files
  | .fileLike h => Function.update files h .atEnd

def Data.handles : Data ι → List ι
  | .text _     => []
  | .fileLike h => [h]

/-- The operations of `copy_to_buffer`. -/
def Data.ops (files : ι → FileLike) : Data ι → Nat
  | .text _     => 1
  | .fileLike h => 2 * (files h).blocks.length + 1

def Data.firstRead (files : ι → FileLike) : Data ι → Option Nat
  | .text _     => none
  | .fileLike h => if (files h).blocks = [] then none else some 0

theorem length_update_le {files : ι → FileLike} {h : ι} {f : FileLike}
    (hf : f.remaining.length ≤ (files h).remaining.length) (i : ι) :
    (Function.update files h f i).remaining.length ≤ (files i).remaining.length := by
  by_cases hi : i = h
  · rw [hi, Function.update_self]; exact hf
  · rw [Function.update_of_ne hi]

theorem takes_readData (h : ι) (w : World ι) : Takes Later (readData h) w [w] (w.files h).read.1
    (w.wrote [] (Function.update w.files h (w.files h).read.2)) := by
  refine Takes.op (f := fun w => ((w.files h).read.1, { w with files := Function.update w.files h (w.files h).read.2 }))
    (Later.refl w) ?_
  exact ⟨length_update_le (w.files h).length_read_le, rfl⟩

/-- A read at the end of a file delivers nothing. -/
theorem encodes_readData_nil {h : ι} (hnil : (w.files h).blocks = []) :
    Encodes hs (readData h) w 1 none [] [] w.files := by
  have htakes := takes_readData h w
  have hread : (w.files h).read = ([], w.files h) := by rw [FileLike.eq_atEnd hnil]; rfl
  rw [hread, Function.update_eq_self] at htakes
  refine ⟨[w], rfl, htakes, fun t ht => ?_, rfl⟩
  rw [List.mem_singleton.1 ht]

theorem encodes_readData_cons {h : ι} (hh : h ∈ hs) (hne : (w.files h).blocks ≠ []) :
    Encodes hs (readData h) w 1 (some 0) (w.files h).read.1 [] (Function.update w.files h (w.files h).read.2) := by
  refine ⟨[w], rfl, takes_readData h w, [w], [], rfl, rfl, fun t ht => ?_, fun t ht => absurd ht List.not_mem_nil,
    length_update_le (w.files h).length_read_le, h, hh, ?_⟩
  · rw [List.mem_singleton.1 ht]
  · rw [World.wrote_files, Function.update_self]
    exact FileLike.length_read_lt hne

/-- **The loop of `copy_to_buffer`** writes all that the file has to deliver. -/
theorem encodes_copyBlocks {h : ι} (hh : h ∈ hs) : ∀ (fuel : Nat) (w : World ι), (w.files h).blocks.length < fuel →
    Encodes hs (copyBlocks h fuel) w (2 * (w.files h).blocks.length + 1)
      (if (w.files h).blocks = [] then none else some 0) () (w.files h).remaining (Function.update w.files h .atEnd)
  | 0, _, hlt        => absurd hlt (Nat.not_lt_zero _)
  | fuel + 1, w, hlt => by
    show Encodes hs (readData h >>= fun buf => if buf = [] then pure () else write buf >>= fun _ => copyBlocks h fuel)
      w _ _ () _ _
    cases hf : w.files h with
    | mk blocks nonempty =>
      cases blocks with
      | nil       =>
        have hnil : (w.files h).blocks = [] := by rw [hf]
        have hend : Function.update w.files h .atEnd = w.files := by
          rw [← FileLike.eq_atEnd hnil, Function.update_eq_self]
        rw [hend]
        have hstop : Encodes hs (if ([] : Str) = [] then pure () else write [] >>= fun _ => copyBlocks h fuel)
            (w.wrote [] w.files) 0 none () [] w.files := by
          rw [if_pos rfl]
          exact .pure ()
        exact ((encodes_readData_nil hnil).bind hstop).cast rfl rfl rfl
      | cons b bs =>
        have hne : (w.files h).blocks ≠ [] := by rw [hf]; exact List.cons_ne_nil b bs
        have hb : b ≠ [] := nonempty b List.mem_cons_self
        let rest : FileLike := ⟨bs, fun b' hb' => nonempty b' (List.mem_cons_of_mem b hb')⟩
        have hread := encodes_readData_cons hh hne
        rw [show (w.files h).read = (b, rest) by rw [hf]; rfl] at hread
        have hrest : Function.update w.files h rest h = rest := Function.update_self _ _ _
        have hcopy := encodes_copyBlocks hh fuel ((w.wrote [] (Function.update w.files h rest)).wrote b
          (Function.update w.files h rest)) (by
            rw [World.wrote_files, hrest]
            rw [hf] at hlt
            exact Nat.lt_of_succ_lt_succ hlt)
        rw [World.wrote_files, hrest, Function.update_idem] at hcopy
        have hround := (encodes_write b).bind (f := fun _ => copyBlocks h fuel) hcopy
        rw [← if_neg hb (t := pure ()) (e := write b >>= fun _ => copyBlocks h fuel)] at hround
        refine (hread.bind hround).cast ?_ rfl rfl
        show 1 + (1 + (2 * bs.length + 1)) = 2 * (bs.length + 1) + 1
        omega

theorem encodes_copyToBuffer {data : Data ι} (hdata : ∀ h ∈ data.handles, h ∈ hs) :
    Encodes hs (copyToBuffer data) w (data.ops w.files) (data.firstRead w.files) () (data.remaining w.files)
      (data.readOut w.files) := by
  cases data with
  | text s     => exact encodes_write s
  | fileLike h =>
    obtain ⟨tr, hlen, htakes, hfirst⟩ := encodes_copyBlocks (hdata h List.mem_cons_self) _ w (Nat.lt_succ_self _)
    exact ⟨tr, hlen, htakes.look_bind, hfirst⟩

def Value.Encodable : Value δ → Prop
  | .other _ => False
  | _        => True

namespace Value

variable (files : ι → FileLike)

/-- A file-like object is replaced by what it has to deliver. -/
def resolve : Value (Data ι) → Value Str
  | .str s          => .str s
  | .file data name => .file (data.remaining files) name
  | .other type     => .other type

def readOut : Value (Data ι) → ι → FileLike
  | .file data _ => data.readOut files
  | _            => files

def handles : Value (Data ι) → List ι
  | .file data _ => data.handles
  | _            => []

/-- The number of operations for the value. -/
def ops : Value (Data ι) → Nat
  | .file data _ => 3 + data.ops files
  | _            => 3

def firstRead : Value (Data ι) → Option Nat
  | .file data _ => (data.firstRead files).map (3 + ·)
  | _            => none

end Value

/-- The fields as the old encoder has them: each file-like object is read to its end before the next field. -/
def resolve (files : ι → FileLike) : List (Str × Value (Data ι)) → List (Str × Value Str)
  | []      => []
  | f :: fs => (f.1, f.2.resolve files) :: resolve (f.2.readOut files) fs

def readOut (files : ι → FileLike) : List (Str × Value (Data ι)) → ι → FileLike
  | []      => files
  | f :: fs => readOut (f.2.readOut files) fs

def handles (fields : List (Str × Value (Data ι))) : List ι := fields.flatMap (fun f => f.2.handles)

def ops (files : ι → FileLike) : List (Str × Value (Data ι)) → Nat
  | []      => 0
  | f :: fs => f.2.ops files + 2 + ops (f.2.readOut files) fs

/-- The number of operations for the fields before bytes of a file-like object are delivered, if any are. -/
def firstRead (files : ι → FileLike) : List (Str × Value (Data ι)) → Option Nat
  | []      => none
  | f :: fs => ((f.2.firstRead files).map (1 + ·)).or ((firstRead (f.2.readOut files) fs).map (f.2.ops files + 2 + ·))

def valueText (guessType : Str → Option Str) (key : Str) : Value Str → Str
  | .file data name => fileDisposition key name ++ crlf ++ (contentType guessType name ++ crlf ++ (crlf ++ data))
  | .str value      => disposition key ++ crlf ++ (crlf ++ value)
  | .other _        => []

/-- The text of a field, with the line ends. -/
def fieldText (guessType : Str → Option Str) (boundary : Str) (f : Str × Value Str) : Str :=
  delimiter boundary ++ crlf ++ (valueText guessType f.1 f.2 ++ crlf)

theorem encodes_encodeValue {value : Value (Data ι)} (henc : value.Encodable) (hhs : ∀ h ∈ value.handles, h ∈ hs)
    (guessType : Str → Option Str) (key : Str) (w : World ι) :
    Encodes hs (encodeValue guessType key value) w (value.ops w.files) (value.firstRead w.files) ()
      (valueText guessType key (value.resolve w.files)) (value.readOut w.files) := by
  cases value with
  | other type     => exact henc.elim
  | str s          => exact (encodes_write (disposition key ++ crlf)).seq ((encodes_write crlf).seq (encodes_write s))
  | file data name =>
    have hvalue := (encodes_write (w := w) (fileDisposition key name ++ crlf)).seq
      ((encodes_write (contentType guessType name ++ crlf)).seq ((encodes_write crlf).seq (encodes_copyToBuffer hhs)))
    simp only [World.wrote_files, Option.none_or, Option.map_map] at hvalue
    have hshift : ((1 + ·) ∘ (1 + ·) ∘ (1 + ·) : Nat → Nat) = (3 + ·) := by
      funext n
      show 1 + (1 + (1 + n)) = 3 + n
      omega
    have hops : 1 + (1 + (1 + data.ops w.files)) = 3 + data.ops w.files := congrFun hshift _
    rw [hops, hshift] at hvalue
    exact hvalue

theorem encodes_encodeField {f : Str × Value (Data ι)} (henc : f.2.Encodable) (hhs : ∀ h ∈ f.2.handles, h ∈ hs)
    (guessType : Str → Option Str) (boundary : Str) (w : World ι) :
    Encodes hs (encodeField guessType boundary f) w (f.2.ops w.files + 2) ((f.2.firstRead w.files).map (1 + ·)) ()
      (fieldText guessType boundary (f.1, f.2.resolve w.files)) (f.2.readOut w.files) := by
  have hfield := (encodes_write (w := w) (delimiter boundary ++ crlf)).seq
    ((encodes_encodeValue henc hhs guessType f.1 _).seq (encodes_write crlf))
  simp only [World.wrote_files, Option.map_none, Option.or_none, Option.none_or] at hfield
  have hops : 1 + (f.2.ops w.files + 1) = f.2.ops w.files + 2 := by omega
  rw [hops] at hfield
  exact hfield

theorem encodes_encodeFields (guessType : Str → Option Str) (boundary : Str) :
    ∀ {fields : List (Str × Value (Data ι))} {w : World ι}, (∀ f ∈ fields, f.2.Encodable) →
      (∀ h ∈ handles fields, h ∈ hs) → Encodes hs (encodeFields guessType boundary fields) w (ops w.files fields)
        (firstRead w.files fields) () ((resolve w.files fields).flatMap (fieldText guessType boundary))
        (readOut w.files fields)
  | [], _, _, _            => .pure ()
  | f :: fs, w, henc, hhs => by
    have hf := encodes_encodeField (henc f List.mem_cons_self) (fun h hh => hhs h (List.mem_append_left _ hh))
      guessType boundary w
    exact hf.seq (encodes_encodeFields guessType boundary (fun g hg => henc g (List.mem_cons_of_mem f hg))
      (fun h hh => hhs h (List.mem_append_right _ hh)))

/-- What the encoder of the patch has in the buffer at its end. -/
def bodyText (guessType : Str → Option Str) (fields : List (Str × Value Str)) (boundary : Str) : Str :=
  fields.flatMap (fieldText guessType boundary) ++ (closing boundary ++ crlf)

/-- **The encoder of the patch** has the whole text in the buffer, whatever was there before. -/
theorem steps_encode {fields : List (Str × Value (Data ι))} (henc : ∀ f ∈ fields, f.2.Encodable)
    (guessType : Str → Option Str) (boundary : Str) (w : World ι) :
    ∃ n, Steps (handles fields) (encodeMultipartFormdata guessType fields boundary) w n
      ((firstRead w.files fields).map (1 + ·)) (bodyText guessType (resolve w.files fields) boundary).length
      { w with
        reqBuffer := ⟨bodyText guessType (resolve w.files fields) boundary, 0⟩
        files     := readOut w.files fields } := by
  let sought : World ι := { w with reqBuffer := w.reqBuffer.seek 0 }
  have hfields := encodes_encodeFields guessType boundary (w := sought) henc (fun _ hh => hh)
  have hclosing : Encodes (handles fields) _ (sought.wrote _ _) _ _ () _ _ :=
    encodes_write (w := sought.wrote ((resolve w.files fields).flatMap (fieldText guessType boundary))
      (readOut w.files fields)) (closing boundary ++ crlf)
  have hall := (Steps.onBuffer (w := w) (fun b => ((), b.seek 0))).seq
    (Steps.seq hfields (Steps.seq hclosing (steps_finish _)))
  rw [World.wrote_wrote] at hall
  refine ⟨_, hall.cast rfl ?_ ?_ ?_⟩
  · simp only [Option.map_none, Option.or_none, Option.none_or]
    rfl
  · exact (Buffer.write_pos _ _ _).trans (Nat.zero_add _)
  · show ({ w with reqBuffer := _, files := _ } : World ι) = _
    rw [← Buffer.written '\x00' _ w.reqBuffer]
    rfl

end Encoder

/-! ## The same text -/

theorem Value.encodable_resolve (files : ι → FileLike) {value : Value (Data ι)} (h : value.Encodable) :
    (value.resolve files).Encodable := by
  cases value with
  | other type => exact h.elim
  | _          => trivial

theorem encodable_resolve [DecidableEq ι] : ∀ (files : ι → FileLike) {fields : List (Str × Value (Data ι))},
    (∀ f ∈ fields, f.2.Encodable) → ∀ f ∈ resolve files fields, f.2.Encodable
  | _, [], _           => fun _ h => absurd h List.not_mem_nil
  | files, f :: fs, h  => by
    have hrest := encodable_resolve (f.2.readOut files) (fun g hg => h g (List.mem_cons_of_mem f hg))
    exact List.forall_mem_cons.2 ⟨Value.encodable_resolve files (h f List.mem_cons_self), hrest⟩

theorem oldFieldLines_ok {f : Str × Value Str} (h : f.2.Encodable) (guessType : Str → Option Str) (boundary : Str) :
    ∃ lines, oldFieldLines guessType boundary f = .ok lines ∧
      lines.flatMap (· ++ crlf) = fieldText guessType boundary f := by
  obtain ⟨key, value⟩ := f
  cases value with
  | other type     => exact h.elim
  | str s          => exact ⟨_, rfl, by simp [fieldText, valueText]⟩
  | file data name => exact ⟨_, rfl, by simp [fieldText, valueText]⟩

theorem oldLines_ok (guessType : Str → Option Str) (boundary : Str) : ∀ {fields : List (Str × Value Str)},
    (∀ f ∈ fields, f.2.Encodable) → ∃ lines, oldLines guessType boundary fields = .ok lines ∧
      lines.flatMap (· ++ crlf) = fields.flatMap (fieldText guessType boundary)
  | [], _      => ⟨[], rfl, rfl⟩
  | f :: fs, h => by
    obtain ⟨lines, hlines, htext⟩ := oldFieldLines_ok (h f List.mem_cons_self) guessType boundary
    obtain ⟨rest, hrest, hresttext⟩ := oldLines_ok guessType boundary (fun g hg => h g (List.mem_cons_of_mem f hg))
    refine ⟨lines ++ rest, ?_, ?_⟩
    · rw [oldLines, hlines, hrest]; rfl
    · rw [List.flatMap_append, htext, hresttext, List.flatMap_cons]

/-- **The old encoder** comes to the same text, without the last line end. -/
theorem oldEncode_ok {fields : List (Str × Value Str)} (h : ∀ f ∈ fields, f.2.Encodable)
    (guessType : Str → Option Str) (boundary : Str) : ∃ old,
    oldEncodeMultipartFormdata guessType fields boundary = .ok old ∧
      old ++ crlf = bodyText guessType fields boundary := by
  obtain ⟨lines, hlines, htext⟩ := oldLines_ok guessType boundary h
  refine ⟨crlf.intercalate (lines ++ [closing boundary]), ?_, ?_⟩
  · rw [oldEncodeMultipartFormdata, hlines]; rfl
  · rw [TextPieces.intercalate_append_sep crlf (List.append_ne_nil_of_right_ne_nil lines (List.cons_ne_nil _ _)),
      List.flatMap_append, htext, List.flatMap_singleton]
    rfl

/-! ## Values that neither encoder takes -/

theorem encodeField_other [DecidableEq ι] (guessType : Str → Option Str) (boundary key type : Str) (w : World ι) :
    ∃ t, encodeField guessType boundary (key, (.other type : Value (Data ι))) ⟨none, w⟩ =
      .error (typeError type) t := by
  refine ⟨⟨none, w.wrote (delimiter boundary ++ crlf) w.files⟩, ?_⟩
  unfold encodeField encodeValue write onBuffer
  simp only [bind_run, op, throw_run]
  rfl

theorem eq_error_of_bind {α β : Type} {x : Except Fault α} {g : α → β} {e : Fault}
    (h : (x >>= fun a => pure (g a)) = .error e) : x = .error e := by
  cases x with
  | ok a     => cases h
  | error e' => cases h; rfl

theorem encodeFields_typeError [DecidableEq ι] (guessType : Str → Option Str) (boundary : Str) {e : Fault} :
    ∀ {fields : List (Str × Value (Data ι))} {w : World ι},
      oldLines guessType boundary (resolve w.files fields) = .error e →
        ∃ t, encodeFields guessType boundary fields ⟨none, w⟩ = .error e t
  | [], _, h                   => by cases h
  | (key, value) :: fs, w, h => by
    by_cases henc : value.Encodable
    · obtain ⟨lines, hlines, -⟩ := oldFieldLines_ok (f := (key, value.resolve w.files))
        (Value.encodable_resolve w.files henc) guessType boundary
      have hfield : Encodes value.handles _ w _ _ () _ _ :=
        encodes_encodeField (f := (key, value)) henc (fun _ hh => hh) guessType boundary w
      obtain ⟨tr, -, htakes, -⟩ := hfield
      have hrest : oldLines guessType boundary (resolve (value.readOut w.files) fs) = .error e := by
        rw [resolve, oldLines, hlines] at h
        exact eq_error_of_bind h
      obtain ⟨t, ht⟩ := encodeFields_typeError guessType boundary
        (w := w.wrote (fieldText guessType boundary (key, value.resolve w.files)) (value.readOut w.files)) hrest
      refine ⟨t, ?_⟩
      rw [encodeFields, bind_run, htakes.whole]
      exact ht
    · cases value with
      | other type =>
        obtain ⟨t, ht⟩ := encodeField_other guessType boundary key type w
        cases h
        exact ⟨t, by rw [encodeFields, bind_run, ht]⟩
      | _          => exact absurd trivial henc

/-- **Where the old encoder raises an error**, that of the patch raises the same. -/
theorem encode_typeError [DecidableEq ι] {guessType : Str → Option Str} {fields : List (Str × Value (Data ι))}
    {boundary : Str} {e : Fault} {w : World ι}
    (h : oldEncodeMultipartFormdata guessType (resolve w.files fields) boundary = .error e) :
    ∃ t, encodeMultipartFormdata guessType fields boundary ⟨none, w⟩ = .error e t := by
  have hlines : oldLines guessType boundary (resolve w.files fields) = .error e := eq_error_of_bind h
  let sought : World ι := { w with reqBuffer := w.reqBuffer.seek 0 }
  obtain ⟨t, ht⟩ := encodeFields_typeError guessType boundary (w := sought) hlines
  have hseek : (seek 0 : Prog ι Unit) ⟨none, w⟩ = .ok () ⟨none, sought⟩ := rfl
  refine ⟨t, ?_⟩
  unfold encodeMultipartFormdata
  rw [bind_run, hseek]
  dsimp only
  rw [bind_run, ht]

end ScribdMultipart
end Scrapcode
