import Scrapcode.ShellWords
import Scrapcode.SpoolJob
/-!
# SpoolCommand — the command line of `spool_job`

The queue name of the handshake goes between single quotes into the line that `os.system` gives the shell.  A name
without a quote is one word of one command, whatever else is in it.  A name with a quote ends the quotes that are put
around it, and never comes out as the word it should be.
-/
namespace Scrapcode
namespace Spool

open ByteText
open Shell (commands Command Lexer Within isOrdinary)

/-- The name of a temporary file: the characters of `tempfile` need no quotes. -/
structure JobFile where
  name  : Str
  plain : ∀ c ∈ name, isOrdinary c = true

/-- `"lp '-d%s' '%s' >/dev/null 2>/dev/null" % (queuename, jobfilename)`. -/
def lpcmd (queuename jobfilename : Str) : Str :=
  "lp '-d".toList ++ (queuename ++ ("' '".toList ++ (jobfilename ++ "' >/dev/null 2>/dev/null".toList)))

/-- What the line is meant to be. -/
def lpCommand (queuename jobfilename : Str) : Command where
  words     := ["lp".toList, "-d".toList ++ queuename, jobfilename]
  redirects := [([], '>', "/dev/null".toList), (['2'], '>', "/dev/null".toList)]

/-- **The shell splits the line for a queue field into the one command it is meant to be.** -/
def OneCommand (field : Str) (file : JobFile) : Prop :=
  commands (lpcmd (printerMap (strip field)) file.name) = some [lpCommand (printerMap (strip field)) file.name]

variable {queuename : Str} {file : JobFile} {s : Lexer}

theorem quote_notMem (file : JobFile) : '\'' ∉ file.name := fun h => absurd (file.plain _ h) (by decide)

/-! ## A name without a quote -/

theorem run_devNull (ts : List Shell.Token) (number : Str) :
    Lexer.run ⟨ts ++ [.redirect number '>'], none, false, .none⟩ "/dev/null".toList =
      ⟨ts ++ [.redirect number '>'], some "/dev/null".toList, false, .none⟩ :=
  Lexer.run_word (c := '/') (t := "dev/null".toList) rfl (List.all_eq_true.1 (by decide))

theorem run_redirects (ts : List Shell.Token) : Lexer.run ⟨ts, none, false, .none⟩ ">/dev/null 2>/dev/null".toList =
    ⟨ts ++ [.redirect [] '>', .word "/dev/null".toList, .redirect ['2'] '>'], some "/dev/null".toList, false, .none⟩ := by
  have hgt : ∀ us : List Shell.Token, Lexer.run ⟨us, none, false, .none⟩ ">".toList =
      ⟨us ++ [.redirect [] '>'], none, false, .none⟩ := fun _ => rfl
  have hblank : ∀ (us : List Shell.Token) w, Lexer.run ⟨us, some w, false, .none⟩ " 2>".toList =
      ⟨us ++ [.word w] ++ [.redirect ['2'] '>'], none, false, .none⟩ := fun _ _ => rfl
  rw [show ">/dev/null 2>/dev/null".toList = ">".toList ++ ("/dev/null".toList ++ (" 2>".toList ++ "/dev/null".toList))
    from by decide, Lexer.run_append, Lexer.run_append, Lexer.run_append, hgt, run_devNull, hblank, run_devNull]
  simp only [List.append_assoc, List.cons_append, List.nil_append]

theorem commands_lpcmd (hq : '\'' ∉ queuename) (file : JobFile) :
    commands (lpcmd queuename file.name) = some [lpCommand queuename file.name] := by
  have hname : '\'' ∉ "-d".toList ++ queuename := by
    rw [List.mem_append, not_or]; exact ⟨by decide, hq⟩
  have hline : lpcmd queuename file.name = "lp ".toList ++ (('\'' :: ("-d".toList ++ queuename ++ ['\'', ' '])) ++
      (('\'' :: (file.name ++ ['\'', ' '])) ++ ">/dev/null 2>/dev/null".toList)) := by
    unfold lpcmd
    simp only [show "lp '-d".toList = "lp ".toList ++ ('\'' :: "-d".toList) from by decide,
      show "' '".toList = ['\'', ' ', '\''] from by decide,
      show "' >/dev/null 2>/dev/null".toList = '\'' :: ' ' :: ">/dev/null 2>/dev/null".toList from by decide,
      List.append_assoc, List.cons_append, List.nil_append]
  have hlp : Lexer.init.run "lp ".toList = ⟨[.word "lp".toList], none, false, .none⟩ := by decide
  unfold commands Shell.tokens
  rw [hline, Lexer.run_append, hlp, Lexer.run_append, Lexer.run_quoted _ hname, Lexer.run_append,
    Lexer.run_quoted _ (quote_notMem file), run_redirects]
  rfl

/-! ## A name with a quote -/

/-- What follows the queue name in the line. -/
def afterName (file : JobFile) : Str := "' '".toList ++ (file.name ++ "' >/dev/null 2>/dev/null".toList)

theorem afterName_eq (file : JobFile) :
    afterName file = '\'' :: ' ' :: '\'' :: (file.name ++ "' >/dev/null 2>/dev/null".toList) := by
  unfold afterName
  rw [show "' '".toList = ['\'', ' ', '\''] from by decide]
  rfl

theorem noEscape_afterName (file : JobFile) : ∀ c ∈ afterName file, c ≠ '"' ∧ c ≠ '\\' := by
  have hnone : ∀ t : Str, '"' ∉ t → '\\' ∉ t → ∀ c ∈ t, c ≠ '"' ∧ c ≠ '\\' :=
    fun _ h₁ h₂ c hc => ⟨fun he => h₁ (he ▸ hc), fun he => h₂ (he ▸ hc)⟩
  intro c hc
  rcases List.mem_append.1 hc with h | h
  · exact hnone _ (by decide) (by decide) c h
  · rcases List.mem_append.1 h with h | h
    · have hplain := file.plain c h
      exact ⟨fun he => absurd (he ▸ hplain) (by decide), fun he => absurd (he ▸ hplain) (by decide)⟩
    · exact hnone _ (by decide) (by decide) c h

variable {ts : List Shell.Token} {w : Str} {quoted : Bool} {k : Nat}

/-- In double quotes the line does not end. -/
theorem finish_double {t : Str} (h : ∀ c ∈ t, c ≠ '"' ∧ c ≠ '\\') :
    (Lexer.run ⟨ts, some w, quoted, .double⟩ t).finish = none := by
  rw [Lexer.run_double rfl rfl h]; rfl

theorem finish_single {t : Str} (h : '\'' ∉ t) : (Lexer.run ⟨ts, some w, quoted, .single⟩ t).finish = none := by
  rw [Lexer.run_single rfl rfl h]; rfl

/-- Out of quotes, the quotes of the line are the wrong way round to its end. -/
theorem finish_plain (file : JobFile) : (Lexer.run ⟨ts, some w, quoted, .none⟩ (afterName file)).finish = none := by
  have hopen : Lexer.run ⟨ts, some w, quoted, .none⟩ "' '".toList = ⟨ts, some (w ++ [] ++ [' ']), true, .none⟩ := rfl
  have hfile : Lexer.run ⟨ts, some (w ++ [] ++ [' ']), true, .none⟩ file.name =
      ⟨ts, some (w ++ [] ++ [' '] ++ file.name), true, .none⟩ := Lexer.run_ordinary rfl rfl file.plain
  have hclose : Lexer.step ⟨ts, some (w ++ [] ++ [' '] ++ file.name), true, .none⟩ '\'' =
      ⟨ts, some (w ++ [] ++ [' '] ++ file.name ++ []), true, .single⟩ := rfl
  unfold afterName
  rw [Lexer.run_append, hopen, Lexer.run_append, hfile,
    show "' >/dev/null 2>/dev/null".toList = '\'' :: " >/dev/null 2>/dev/null".toList from by decide, Lexer.run_cons, hclose]
  exact finish_single (by decide)

/-- **After the name the word is out**, no longer than it was, or the line does not end. -/
theorem ended_afterName (h : Within ts k s) (file : JobFile) {us : List Shell.Token}
    (hus : (s.run (afterName file)).finish = some us) : Shell.Ended ts k us := by
  rcases h with ⟨rfl, hquoted, w, hw, hlen⟩ | hended
  · obtain ⟨tokens, word, quoted, quoting⟩ := s
    cases hquoted
    cases hw
    cases quoting with
    | none   => rw [finish_plain file] at hus; cases hus
    | double => rw [finish_double (noEscape_afterName file)] at hus; cases hus
    | single =>
      rw [afterName_eq, Lexer.run_cons, Lexer.run_cons] at hus
      exact Shell.Ended.finish ⟨w, [], rfl, hlen⟩ hus
    | escape =>
      rw [afterName_eq, Lexer.run_cons, Lexer.run_cons] at hus
      exact Shell.Ended.finish ⟨w ++ ['\''], [], rfl, by rw [List.length_append]; exact hlen⟩ hus
    | doubleEscape =>
      have hstep : Lexer.step ⟨tokens, some w, true, .doubleEscape⟩ '\'' =
          ⟨tokens, some (w ++ ['\\', '\'']), true, .double⟩ := rfl
      have hrest := noEscape_afterName file
      rw [afterName_eq] at hus hrest
      rw [Lexer.run_cons, hstep, finish_double (fun c hc => hrest c (List.mem_cons_of_mem _ hc))] at hus
      cases hus
  · exact hended.finish hus

theorem run_name {name : Str} (hq : '\'' ∉ name) : Lexer.init.run ("lp '-d".toList ++ name) =
    ⟨[.word "lp".toList], some ("-d".toList ++ name), true, .single⟩ := by
  have hlp : Lexer.init.run "lp '-d".toList = ⟨[.word "lp".toList], some "-d".toList, true, .single⟩ := by decide
  rw [Lexer.run_append, hlp, Lexer.run_single rfl rfl hq]
  rfl

/-- **A name with a quote** is never the word it should be. -/
theorem not_commands_lpcmd (hq : '\'' ∈ queuename) (file : JobFile) :
    commands (lpcmd queuename file.name) ≠ some [lpCommand queuename file.name] := by
  intro h
  obtain ⟨us, hus, hparse⟩ := Option.bind_eq_some_iff.1 h
  obtain ⟨q₁, q₂, rfl, hq₁⟩ := List.eq_append_cons_of_mem hq
  have hopen : Within [.word "lp".toList] (2 + q₁.length)
      ((⟨[.word "lp".toList], some ("-d".toList ++ q₁), true, .single⟩ : Lexer).step '\'') :=
    Or.inl ⟨rfl, rfl, _, rfl, by rw [List.length_append]; exact Nat.le_refl _⟩
  have hline : lpcmd (q₁ ++ '\'' :: q₂) file.name =
      ("lp '-d".toList ++ q₁) ++ ('\'' :: (q₂ ++ afterName file)) := by
    unfold lpcmd afterName
    simp only [List.append_assoc, List.cons_append]
  unfold Shell.tokens at hus
  rw [hline, Lexer.run_append, run_name hq₁, Lexer.run_cons, Lexer.run_append] at hus
  obtain ⟨w, more, rfl, hlen⟩ := ended_afterName (hopen.run q₂) file hus
  have hwords : ["lp".toList, w] <+: (lpCommand (q₁ ++ '\'' :: q₂) file.name).words :=
    Shell.parse_words more ⟨["lp".toList, w], []⟩ (List.cons_ne_nil _ _) hparse
  have hw : w = "-d".toList ++ (q₁ ++ '\'' :: q₂) := by
    obtain ⟨rest, hrest⟩ := hwords
    exact (List.cons.inj (List.cons.inj hrest).2).1
  rw [hw, List.length_append, List.length_append, List.length_cons] at hlen
  have hd : "-d".toList.length = 2 := by decide
  omega

/-! ## The field of the handshake -/

theorem quote_mem_strip (field : Str) : '\'' ∈ strip field ↔ '\'' ∈ field := by
  obtain ⟨l, r, hl, hr, hs⟩ := exists_strip field
  constructor
  · intro h
    rw [hs]
    exact List.mem_append_right _ (List.mem_append_left _ h)
  · intro h
    rw [hs] at h
    rcases List.mem_append.1 h with h | h
    · exact absurd (hl _ h) (by decide)
    · rcases List.mem_append.1 h with h | h
      · exact h
      · exact absurd (hr _ h) (by decide)

theorem quote_mem_printerMap (queuename : Str) : '\'' ∈ printerMap queuename ↔ '\'' ∈ queuename := by
  unfold printerMap
  split_ifs with h₁ h₂ h₃
  · rw [h₁]; decide
  · rw [h₂]; decide
  · rw [h₃]; decide
  · exact Iff.rfl

/-- **The line is the one command it is meant to be** exactly for the queue fields without a quote. -/
theorem oneCommand_iff (field : Str) (file : JobFile) : OneCommand field file ↔ '\'' ∉ field := by
  rw [← quote_mem_strip, ← quote_mem_printerMap]
  exact ⟨fun h hq => not_commands_lpcmd hq file h, fun hq => commands_lpcmd hq file⟩

/-- The field `x';reboot;'`, and a name of the kind `tempfile` makes. -/
def injection : Str := rjust 30 "x';reboot;'".toList

def tmpFile : JobFile where
  name  := "/tmp/tmpa1B2c3".toList
  plain := List.all_eq_true.1 (by decide)

/-- **A queue field with a command of its own**: the shell gets three. -/
theorem not_oneCommand_injection : injection.length = 30 ∧ ¬ OneCommand injection tmpFile :=
  ⟨by decide, not_commands_lpcmd (by decide) tmpFile⟩

example : (commands (lpcmd (strip injection) tmpFile.name)).map (fun cmds => cmds.map Command.words) =
    some [["lp".toList, "-dx".toList], ["reboot".toList], [[], "/tmp/tmpa1B2c3".toList]] := by
  decide +kernel

end Spool
end Scrapcode
