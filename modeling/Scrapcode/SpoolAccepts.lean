import Scrapcode.SpoolFraming
/-!
# SpoolAccepts — the handshakes the server takes

The protocol says what the 45 bytes are: `SPOOL`, a queue name, and a number padded by spaces with no sign.  The server
reads the number with `strip` and `int` and refuses zero only.  So it takes what the protocol has and, next to it, a
number with a sign and one padded with a tab or a newline; of a negative one `_recv_fixed_msg` reads nothing, and an
empty job is spooled.
-/
namespace Scrapcode
namespace Spool

open ByteText

/-- `read_job_data`: what is written into the temporary file. -/
def readJobData (jobsize : Int) (stream : List Str) : Except Exn Str × List Str := recvFixedMsg stream jobsize []

/-- A number in ASCII, padded by spaces, with no sign. -/
def SizeField (field : Str) (n : Nat) : Prop :=
  ∃ a ds b, field = List.replicate a ' ' ++ (ds ++ List.replicate b ' ') ∧ digits ds = some n

/-- **The handshake of the protocol's description**, for a job of `n` bytes. -/
def Documented (msg : Str) (n : Nat) : Prop := "SPOOL".toList <+: msg ∧ SizeField (msg.drop 35) n ∧ 0 < n

/-- `read_job_data` waits for `n` bytes of the stream, and they are the job. -/
def Spools (jobsize : Int) (stream : List Str) (n : Nat) : Prop :=
  (n ≤ stream.flatten.length → ∃ rest, readJobData jobsize stream = (.ok (stream.flatten.take n), rest)) ∧
    (stream.flatten.length < n → ∃ e rest, readJobData jobsize stream = (.error e, rest))

/-- **The server accepts the message exactly if it is documented**, and then spools as many bytes as it says. -/
def AcceptsDocumented (msg : Str) : Prop :=
  ∀ stream : List Str, (∀ f ∈ stream, f ≠ []) → stream.flatten.take 45 = msg →
    ((∃ res, (expectHandshake stream).1 = .ok res) ↔ ∃ n, Documented msg n) ∧
      ∀ queuename jobsize rest, expectHandshake stream = (.ok (queuename, jobsize), rest) →
        ∃ n, 0 < n ∧ Documented msg n ∧ Spools jobsize rest n

/-- **The messages the server takes against the protocol**: a number other than zero has a sign, or is padded with
something else than spaces. -/
def Misread (msg : Str) : Prop :=
  "SPOOL".toList <+: msg ∧ ∃ l r g ds n, (∀ c ∈ l, isSpace c = true) ∧ (∀ c ∈ r, isSpace c = true) ∧
    msg.drop 35 = l ++ (Sign.text g ++ ds ++ r) ∧ digits ds = some n ∧ n ≠ 0 ∧
      (g ≠ .none ∨ ∃ c ∈ l ++ r, c ≠ ' ')

variable {msg : Str} {n : Nat}

theorem isSpace_of_mem_spaces (k : Nat) : ∀ c ∈ List.replicate k ' ', isSpace c = true :=
  fun _ hc => (List.mem_replicate.1 hc).2 ▸ rfl

theorem SizeField.int {field : Str} (h : SizeField field n) : int field = some (n : Int) := by
  obtain ⟨a, ds, b, hfield, hn⟩ := h
  exact int_eq_some.2 ⟨_, _, .none, ds, n, isSpace_of_mem_spaces a, isSpace_of_mem_spaces b, hfield, hn, rfl⟩

/-- **A size field holds spaces and digits only.** -/
theorem SizeField.mem {field : Str} (h : SizeField field n) : ∀ c ∈ field, c = ' ' ∨ c.isDigit = true := by
  obtain ⟨a, ds, b, rfl, hn⟩ := h
  intro c hc
  rcases List.mem_append.1 hc with hc | hc
  · exact Or.inl (List.mem_replicate.1 hc).2
  · rcases List.mem_append.1 hc with hc | hc
    · exact Or.inr ((digits_eq_some.1 hn).1.2 c hc)
    · exact Or.inl (List.mem_replicate.1 hc).2

theorem sizeField_of_spaces {l r ds : Str} (hl : ∀ c ∈ l, c = ' ') (hr : ∀ c ∈ r, c = ' ') (hn : digits ds = some n) :
    SizeField (l ++ (ds ++ r)) n :=
  ⟨l.length, ds, r.length, by rw [← List.eq_replicate_of_mem hl, ← List.eq_replicate_of_mem hr], hn⟩

theorem parseHandshake_eq_ok (hlen : msg.length = 45) {queuename : Str} {jobsize : Int} :
    parseHandshake msg = .ok (queuename, jobsize) ↔ "SPOOL".toList <+: msg ∧ queuename = strip ((msg.drop 5).take 30) ∧
      int (msg.drop 35) = some jobsize ∧ jobsize ≠ 0 := by
  have hfield : (msg.drop 35).take 10 = msg.drop 35 := List.take_of_length_le (by rw [List.length_drop]; omega)
  unfold parseHandshake
  simp only [hfield, int_strip]
  by_cases hspool : "SPOOL".toList <+: msg
  · rw [if_pos hspool, and_iff_right hspool]
    cases int (msg.drop 35) with
    | none   => exact ⟨(by rintro ⟨⟩), fun h => absurd h.2.1.symm (Option.some_ne_none _)⟩
    | some v =>
      by_cases hv : v = 0
      · simp only [if_pos hv]
        exact ⟨(by rintro ⟨⟩), fun h => absurd (Option.some.inj h.2.1 ▸ hv) h.2.2⟩
      · simp only [if_neg hv, Except.ok.injEq, Prod.mk.injEq, Option.some.injEq]
        exact ⟨fun h => ⟨h.1.symm, h.2, h.2 ▸ hv⟩, fun h => ⟨h.1.symm, h.2.1⟩⟩
  · rw [if_neg hspool]
    exact ⟨(by rintro ⟨⟩), fun h => absurd h.1 hspool⟩

theorem expectHandshake_eq {stream : List Str} (hne : ∀ f ∈ stream, f ≠ []) (hmsg : stream.flatten.take 45 = msg)
    (hlen : msg.length = 45) :
    ∃ rest, expectHandshake stream = (parseHandshake msg, rest) ∧ ∀ f ∈ rest, f ≠ [] := by
  have hlong : 45 ≤ stream.flatten.length := by
    have := congrArg List.length hmsg
    rw [List.length_take] at this; omega
  obtain ⟨rest, hrecv, -⟩ := recvFixedMsg_ok stream 45 [] hne hlong
  have hpieces := (recvFixedMsg_rest stream 45 [] hne).1
  rw [hrecv] at hpieces
  have hrecv' : recvFixedMsg stream 45 [] = (.ok msg, rest) := by rw [← hmsg]; exact hrecv
  exact ⟨rest, by simp only [expectHandshake, hrecv'], hpieces⟩

theorem spools_natCast {stream : List Str} (hne : ∀ f ∈ stream, f ≠ []) (n : Nat) : Spools n stream n := by
  refine ⟨fun hn => ?_, fun hn => ?_⟩
  · obtain ⟨rest, hrecv, -⟩ := recvFixedMsg_ok stream n [] hne hn
    exact ⟨rest, hrecv⟩
  · obtain ⟨rest, hrecv⟩ := recvFixedMsg_short stream n [] hn
    exact ⟨_, rest, hrecv⟩

/-- **Of a negative size nothing is read**, and the empty job is spooled. -/
theorem readJobData_nonpos {jobsize : Int} (h : jobsize ≤ 0) (stream : List Str) :
    readJobData jobsize stream = (.ok [], stream) := by
  unfold readJobData
  cases stream with
  | nil       => rw [recvFixedMsg, if_neg (Int.not_lt.2 h)]
  | cons f fs => rw [recvFixedMsg, if_neg (Int.not_lt.2 h)]

theorem Documented.parse (h : Documented msg n) (hlen : msg.length = 45) :
    parseHandshake msg = .ok (strip ((msg.drop 5).take 30), (n : Int)) :=
  (parseHandshake_eq_ok hlen).2 ⟨h.1, rfl, h.2.1.int, Int.natCast_ne_zero.2 (Nat.ne_of_gt h.2.2)⟩

/-- **What is read and not misread** is documented. -/
theorem documented_of_parse (hlen : msg.length = 45) (hm : ¬ Misread msg) {queuename : Str} {jobsize : Int}
    (h : parseHandshake msg = .ok (queuename, jobsize)) : ∃ n : Nat, Documented msg n ∧ jobsize = n := by
  obtain ⟨hspool, -, hint, hne⟩ := (parseHandshake_eq_ok hlen).1 h
  obtain ⟨l, r, g, ds, n, hl, hr, hfield, hn, hv⟩ := int_eq_some.1 hint
  have hn0 : n ≠ 0 := by
    rintro rfl
    cases g <;> exact hne hv
  have hplain : ¬ (g ≠ .none ∨ ∃ c ∈ l ++ r, c ≠ ' ') :=
    fun hodd => hm ⟨hspool, l, r, g, ds, n, hl, hr, hfield, hn, hn0, hodd⟩
  rw [not_or, not_not] at hplain
  obtain ⟨rfl, hpad⟩ := hplain
  have hpad' : ∀ c ∈ l ++ r, c = ' ' := fun c hc => by_contra (fun h => hpad ⟨c, hc, h⟩)
  have hsize : SizeField (msg.drop 35) n := by
    rw [hfield]
    exact sizeField_of_spaces (fun c hc => hpad' c (List.mem_append_left r hc))
      (fun c hc => hpad' c (List.mem_append_right l hc)) hn
  exact ⟨n, ⟨hspool, hsize, Nat.pos_of_ne_zero hn0⟩, hv⟩

/-- **What is misread** is read, and is not documented. -/
theorem Misread.accepted (h : Misread msg) (hlen : msg.length = 45) : ∃ res, parseHandshake msg = .ok res := by
  obtain ⟨hspool, l, r, g, ds, n, hl, hr, hfield, hn, hn0, -⟩ := h
  have hv : g.value n ≠ 0 := by
    cases g
    · exact Int.natCast_ne_zero.2 hn0
    · exact Int.natCast_ne_zero.2 hn0
    · exact Int.neg_ne_zero.2 (Int.natCast_ne_zero.2 hn0)
  exact ⟨_, (parseHandshake_eq_ok hlen).2 ⟨hspool, rfl, int_eq_some.2 ⟨l, r, g, ds, n, hl, hr, hfield, hn, rfl⟩, hv⟩⟩

theorem Misread.not_documented (h : Misread msg) (n : Nat) : ¬ Documented msg n := by
  rintro ⟨-, hsize, -⟩
  obtain ⟨-, l, r, g, ds, m, hl, hr, hfield, -, -, hodd⟩ := h
  have hmem : ∀ c, c ∈ l ∨ c ∈ g.text ∨ c ∈ r → c = ' ' ∨ c.isDigit = true := by
    intro c hc
    refine hsize.mem c ?_
    rw [hfield]
    rcases hc with hc | hc | hc
    · exact List.mem_append_left _ hc
    · exact List.mem_append_right _ (List.mem_append_left _ (List.mem_append_left _ hc))
    · exact List.mem_append_right _ (List.mem_append_right _ hc)
  rcases hodd with hg | ⟨c, hc, hspace⟩
  · cases g with
    | none  => exact hg rfl
    | plus  => exact absurd (hmem '+' (Or.inr (Or.inl List.mem_cons_self))) (by decide)
    | minus => exact absurd (hmem '-' (Or.inr (Or.inl List.mem_cons_self))) (by decide)
  · have hpad : isSpace c = true ∧ (c = ' ' ∨ c.isDigit = true) := by
      rcases List.mem_append.1 hc with hc | hc
      · exact ⟨hl c hc, hmem c (Or.inl hc)⟩
      · exact ⟨hr c hc, hmem c (Or.inr (Or.inr hc))⟩
    rcases hpad.2 with h | h
    · exact hspace h
    · rw [isSpace_of_isDigit h] at hpad
      cases hpad.1

theorem Misread.not_acceptsDocumented (hm : Misread msg) (hlen : msg.length = 45) : ¬ AcceptsDocumented msg := by
  intro h
  have hne : ∀ f ∈ [msg], f ≠ [] := by
    intro f hf
    rw [List.mem_singleton.1 hf]
    exact List.ne_nil_of_length_pos (by omega)
  have hmsg : [msg].flatten.take 45 = msg := by
    rw [List.flatten_singleton, List.take_of_length_le (Nat.le_of_eq hlen)]
  obtain ⟨rest, hrecv, -⟩ := expectHandshake_eq hne hmsg hlen
  obtain ⟨res, hres⟩ := hm.accepted hlen
  obtain ⟨n, hn⟩ := (h [msg] hne hmsg).1.1 ⟨res, by rw [hrecv, hres]⟩
  exact hm.not_documented n hn

/-- **The server accepts what is documented** in every message that is not misread, and in no other. -/
theorem acceptsDocumented_iff (hlen : msg.length = 45) : AcceptsDocumented msg ↔ ¬ Misread msg := by
  constructor
  · exact fun h hm => hm.not_acceptsDocumented hlen h
  · intro hm stream hne hmsg
    obtain ⟨rest, hrecv, hpieces⟩ := expectHandshake_eq hne hmsg hlen
    rw [hrecv]
    refine ⟨⟨?_, ?_⟩, ?_⟩
    · rintro ⟨⟨queuename, jobsize⟩, hres⟩
      obtain ⟨n, hdoc, -⟩ := documented_of_parse hlen hm hres
      exact ⟨n, hdoc⟩
    · rintro ⟨n, hdoc⟩
      exact ⟨_, hdoc.parse hlen⟩
    · intro queuename jobsize rest' heq
      obtain ⟨hres, rfl⟩ := Prod.mk.inj heq
      obtain ⟨n, hdoc, rfl⟩ := documented_of_parse hlen hm hres
      exact ⟨n, hdoc.2.2, hdoc, spools_natCast hpieces n⟩

theorem acceptsDocumented_iff_iprint : AcceptsDocumented (handshake "iprint".toList 1234) ↔
    ¬ Misread (handshake "iprint".toList 1234) :=
  acceptsDocumented_iff (by decide)

def negativeSize : Str := "SPOOL".toList ++ rjust 30 "iprint".toList ++ rjust 10 "-5".toList

/-- **A negative job size** is taken. -/
theorem not_acceptsDocumented_negative : negativeSize.length = 45 ∧ ¬ AcceptsDocumented negativeSize := by
  have hlen : negativeSize.length = 45 := by decide
  have hm : Misread negativeSize :=
    ⟨by decide, List.replicate 8 ' ', [], .minus, ['5'], 5, isSpace_of_mem_spaces 8,
      fun _ hc => absurd hc List.not_mem_nil, by decide, by decide, by decide, Or.inl (by decide)⟩
  exact ⟨hlen, hm.not_acceptsDocumented hlen⟩

end Spool
end Scrapcode
