import Mathlib.Data.List.Basic
/-!
# ShellWords — how a POSIX shell splits a command line

The lexer goes over the line once.  It has the tokens so far, the word under way, and what quotes the next character:
nothing, single quotes, double quotes, a backslash, or a backslash in double quotes.  Outside of quotes blanks end a
word, and `;`, `|`, `&`, parentheses and newlines end a command; digits just before `<` or `>` are the number of a
descriptor.  The tokens are then put together to simple commands, each with its words and redirections.  Expansions,
which the shell does on the words later, are not part of this.

Two facts carry the rest: a text in single quotes is literal (`run_single`), and each character read adds one to the
word under way at most (`Within.run`).
-/
namespace Scrapcode
namespace Shell

inductive Token where
  | word (text : List Char)
  | redirect (number : List Char) (op : Char)
  | separator (op : Char)
deriving DecidableEq, Repr

inductive Quoting where
  | none
  | single
  | double
  | escape
  | doubleEscape
deriving DecidableEq, Repr

structure Lexer where
  tokens  : List Token
  word    : Option (List Char)
  /-- Some character of the word is quoted. -/
  quoted  : Bool
  quoting : Quoting
deriving DecidableEq, Repr

def isBlank (c : Char) : Bool := c == ' ' || c == '\t'

def isRedirect (c : Char) : Bool := c == '<' || c == '>'

def isSeparator (c : Char) : Bool := c == ';' || c == '|' || c == '&' || c == '(' || c == ')' || c == '\n'

def isQuote (c : Char) : Bool := c == '\'' || c == '"' || c == '\\'

/-- A character that is a part of a word without quotes. -/
def isOrdinary (c : Char) : Bool := !isBlank c && !isRedirect c && !isSeparator c && !isQuote c

namespace Lexer

def init : Lexer := { tokens := [], word := .none, quoted := false, quoting := .none }

def add (s : Lexer) (cs : List Char) : Lexer := { s with word := some (s.word.getD [] ++ cs) }

def wordTokens (s : Lexer) : List Token := s.word.toList.map .word

/-- The word ends, and `ts` come after it. -/
def ends (s : Lexer) (ts : List Token) : Lexer := { init with tokens := s.tokens ++ (s.wordTokens ++ ts) }

/-- A redirection: unquoted digits just before it are its descriptor. -/
def redirects (s : Lexer) (op : Char) : Lexer :=
  match s.word, s.quoted with
  | some w, false =>
    if w.all Char.isDigit then { init with tokens := s.tokens ++ [.redirect w op] } else s.ends [.redirect [] op]
  | _, _          => s.ends [.redirect [] op]

def quote (s : Lexer) (q : Quoting) : Lexer := { s.add [] with quoted := true, quoting := q }

def stepPlain (s : Lexer) (c : Char) : Lexer :=
  if c = '\'' then s.quote .single
  else if c = '"' then s.quote .double
  else if c = '\\' then { s with quoting := .escape }
  else if isBlank c then s.ends []
  else if isRedirect c then s.redirects c
  else if isSeparator c then s.ends [.separator c]
  else s.add [c]

def step (s : Lexer) (c : Char) : Lexer :=
  match s.quoting with
  | .none         => s.stepPlain c
  | .single       => if c = '\'' then { s with quoting := .none } else s.add [c]
  | .double       =>
    if c = '"' then { s with quoting := .none }
    else if c = '\\' then { s with quoting := .doubleEscape }
    else s.add [c]
  -- a backslash and a newline are removed
  | .escape       =>
    if c = '\n' then { s with quoting := .none } else { s.add [c] with quoted := true, quoting := .none }
  | .doubleEscape =>
    if c = '\n' then { s with quoting := .double }
    else if c = '$' ∨ c = '\x60' ∨ c = '"' ∨ c = '\\' then { s.add [c] with quoting := .double }
    else { s.add ['\\', c] with quoting := .double }

def run (s : Lexer) (line : List Char) : Lexer := line.foldl step s

/-- The tokens at the end of the line; none in a line that ends inside quotes. -/
def finish (s : Lexer) : Option (List Token) :=
  if s.quoting = .none then some (s.tokens ++ s.wordTokens) else .none

end Lexer

def tokens (line : List Char) : Option (List Token) := (Lexer.init.run line).finish

/-! ## Commands -/

structure Command where
  words     : List (List Char)
  redirects : List (List Char × Char × List Char)
deriving DecidableEq, Repr

def Command.none : Command := ⟨[], []⟩

/-- The command before a separator; nothing at all is no command. -/
def Command.ends (cmd : Command) (cmds : List Command) : List Command := if cmd = .none then cmds else cmd :: cmds

def parse : Command → List Token → Option (List Command)
  | cmd, []                              => some (cmd.ends [])
  | cmd, .word w :: ts                   => parse { cmd with words := cmd.words ++ [w] } ts
  | cmd, .redirect n op :: .word w :: ts => parse { cmd with redirects := cmd.redirects ++ [(n, op, w)] } ts
  | _,   .redirect _ _ :: _              => .none
  | cmd, .separator _ :: ts              => (parse .none ts).map cmd.ends

/-- **The commands of a line**; none where the line is no list of simple commands. -/
def commands (line : List Char) : Option (List Command) := (tokens line).bind (parse .none)

/-! ## The lexer over a text -/

open Lexer

variable {s : Lexer} {t w : List Char}

theorem Lexer.run_append (s : Lexer) (t u : List Char) : s.run (t ++ u) = (s.run t).run u := List.foldl_append

theorem Lexer.run_cons (s : Lexer) (c : Char) (t : List Char) : s.run (c :: t) = (s.step c).run t := rfl

theorem Lexer.add_add (s : Lexer) (t u : List Char) : (s.add t).add u = s.add (t ++ u) := by
  simp only [add, Option.getD_some, List.append_assoc]

theorem Lexer.add_nil_of_word (h : s.word = some w) : s.add [] = s := by
  obtain ⟨tokens, word, quoted, quoting⟩ := s
  cases h
  simp only [add, Option.getD_some, List.append_nil]

/-- A text of which the lexer adds each character, goes to the word under way. -/
theorem Lexer.run_add {q : Quoting} (p : Char → Prop)
    (hstep : ∀ (s : Lexer) c, s.quoting = q → p c → s.step c = s.add [c]) :
    ∀ (t : List Char) {s : Lexer} {w : List Char}, s.quoting = q → s.word = some w → (∀ c ∈ t, p c) → s.run t = s.add t
  | [], s, w, _, hw, _     => (add_nil_of_word hw).symm
  | c :: t, s, w, hq, hw, h => by
    rw [run_cons, hstep s c hq (h c List.mem_cons_self),
      run_add p hstep t (s := s.add [c]) hq rfl (fun d hd => h d (List.mem_cons_of_mem c hd)), add_add]
    rfl

/-- **A text in single quotes is literal.** -/
theorem Lexer.run_single (hq : s.quoting = .single) (hw : s.word = some w) (h : '\'' ∉ t) : s.run t = s.add t :=
  run_add (fun c => c ≠ '\'') (fun s c hq hc => by simp only [step, hq, if_neg hc]) t hq hw
    (fun _ hc he => h (he ▸ hc))

theorem Lexer.run_double (hq : s.quoting = .double) (hw : s.word = some w) (h : ∀ c ∈ t, c ≠ '"' ∧ c ≠ '\\') :
    s.run t = s.add t :=
  run_add (fun c => c ≠ '"' ∧ c ≠ '\\') (fun s c hq hc => by simp only [step, hq, if_neg hc.1, if_neg hc.2]) t hq hw h

theorem stepPlain_of_isOrdinary {c : Char} (h : isOrdinary c = true) (s : Lexer) : s.stepPlain c = s.add [c] := by
  simp only [isOrdinary, isQuote, Bool.and_eq_true, Bool.not_eq_true', Bool.or_eq_false_iff, beq_eq_false_iff_ne] at h
  obtain ⟨⟨⟨hb, hr⟩, hs⟩, ⟨h₁, h₂⟩, h₃⟩ := h
  simp only [stepPlain, if_neg h₁, if_neg h₂, if_neg h₃, hb, hr, hs, Bool.false_eq_true, if_false]

theorem Lexer.run_ordinary (hq : s.quoting = .none) (hw : s.word = some w) (h : ∀ c ∈ t, isOrdinary c = true) :
    s.run t = s.add t :=
  run_add (fun c => isOrdinary c = true) (fun s c hq hc => by
    simp only [step, hq]; exact stepPlain_of_isOrdinary hc s) t hq hw h

/-- **A word begins** with ordinary characters. -/
theorem Lexer.run_word (hq : s.quoting = .none) {c : Char} (h : ∀ d ∈ c :: t, isOrdinary d = true) :
    s.run (c :: t) = s.add (c :: t) := by
  have hc : s.step c = s.add [c] := by
    simp only [step, hq]; exact stepPlain_of_isOrdinary (h c List.mem_cons_self) s
  rw [run_cons, hc, run_ordinary (s := s.add [c]) hq rfl (fun d hd => h d (List.mem_cons_of_mem c hd)), add_add]
  rfl

/-- **A single-quoted word and a blank**, from between two words. -/
theorem Lexer.run_quoted (ts : List Token) (h : '\'' ∉ w) :
    Lexer.run ⟨ts, none, false, .none⟩ ('\'' :: (w ++ ['\'', ' '])) = ⟨ts ++ [.word w], none, false, .none⟩ := by
  rw [run_cons, run_append, show Lexer.step ⟨ts, none, false, .none⟩ '\'' = ⟨ts, some [], true, .single⟩ from rfl,
    run_single (w := []) rfl rfl h]
  rfl

/-! ## How long a word gets -/

/-- What the lexer has read for the word and not yet put there. -/
def Quoting.held : Quoting → Nat
  | .escape | .doubleEscape => 1
  | _                       => 0

/-- After `ts` comes a word of at most `k` characters. -/
def Ended (ts : List Token) (k : Nat) (us : List Token) : Prop :=
  ∃ w more, us = ts ++ .word w :: more ∧ w.length ≤ k

/-- **The word after `ts` has at most `k` characters**, be it under way or ended. -/
def Within (ts : List Token) (k : Nat) (s : Lexer) : Prop :=
  (s.tokens = ts ∧ s.quoted = true ∧ ∃ w, s.word = some w ∧ w.length + s.quoting.held ≤ k) ∨ Ended ts k s.tokens

variable {ts us vs : List Token} {k : Nat}

theorem Ended.append (h : Ended ts k us) (hp : us <+: vs) : Ended ts k vs := by
  obtain ⟨w, more, rfl, hlen⟩ := h
  obtain ⟨rest, rfl⟩ := hp
  exact ⟨w, more ++ rest, by rw [List.append_assoc, List.cons_append], hlen⟩

theorem Ended.succ (h : Ended ts k us) : Ended ts (k + 1) us := by
  obtain ⟨w, more, hus, hlen⟩ := h
  exact ⟨w, more, hus, Nat.le_succ_of_le hlen⟩

theorem Lexer.tokens_ends (s : Lexer) (us : List Token) : s.tokens <+: (s.ends us).tokens := List.prefix_append _ _

theorem Lexer.tokens_stepPlain (s : Lexer) (c : Char) : s.tokens <+: (s.stepPlain c).tokens := by
  unfold stepPlain
  split_ifs
  · exact List.prefix_refl _
  · exact List.prefix_refl _
  · exact List.prefix_refl _
  · exact s.tokens_ends _
  · unfold redirects
    split
    · split
      · exact List.prefix_append _ _
      · exact s.tokens_ends _
    · exact s.tokens_ends _
  · exact s.tokens_ends _
  · exact List.prefix_refl _

/-- **A token that is out stays.** -/
theorem Lexer.tokens_step (s : Lexer) (c : Char) : s.tokens <+: (s.step c).tokens := by
  unfold step
  split
  · exact s.tokens_stepPlain c
  all_goals split_ifs <;> exact List.prefix_refl _

theorem Lexer.tokens_run : ∀ (t : List Char) (s : Lexer), s.tokens <+: (s.run t).tokens
  | [], _     => List.prefix_refl _
  | c :: t, s => (s.tokens_step c).trans (tokens_run t (s.step c))

theorem Lexer.tokens_finish (h : s.finish = some us) : s.tokens <+: us := by
  unfold finish at h
  by_cases hq : s.quoting = .none
  · rw [if_pos hq, Option.some.injEq] at h
    exact ⟨_, h⟩
  · rw [if_neg hq] at h; cases h

/-- A word that is out is out at the end of the line. -/
theorem Ended.finish (h : Ended ts k s.tokens) {t : List Char} (hus : (s.run t).finish = some us) : Ended ts k us :=
  h.append ((s.tokens_run t).trans (tokens_finish hus))

theorem Within.ends (hts : s.tokens = ts) (hw : s.word = some w) (hlen : w.length ≤ k) (us : List Token) :
    Within ts k (s.ends us) := by
  refine Or.inr ⟨w, us, ?_, hlen⟩
  simp only [Lexer.ends, wordTokens, hts, hw, Option.toList_some, List.map_cons, List.map_nil, List.cons_append,
    List.nil_append]

theorem Within.stepPlain (hts : s.tokens = ts) (hquoted : s.quoted = true) (hw : s.word = some w)
    (hlen : w.length ≤ k) (hq : s.quoting = .none) (c : Char) : Within ts (k + 1) (s.stepPlain c) := by
  have hends : ∀ us, Within ts (k + 1) (s.ends us) := Within.ends hts hw (Nat.le_succ_of_le hlen)
  have hquote : ∀ q : Quoting, q.held = 0 → Within ts (k + 1) (s.quote q) := fun q hheld =>
    Or.inl ⟨hts, rfl, w, by simp only [quote, add, hw, Option.getD_some, List.append_nil],
      by simp only [quote, hheld]; omega⟩
  unfold Lexer.stepPlain
  split_ifs
  · exact hquote _ rfl
  · exact hquote _ rfl
  · exact Or.inl ⟨hts, hquoted, w, hw, Nat.succ_le_succ hlen⟩
  · exact hends _
  · simp only [redirects, hw, hquoted]; exact hends _
  · exact hends _
  · refine Or.inl ⟨hts, hquoted, w ++ [c], by simp only [add, hw, Option.getD_some], ?_⟩
    simp only [add, hq, Quoting.held, List.length_append, List.length_singleton]; omega

/-- **Each character adds one to the word at most.** -/
theorem Within.step (h : Within ts k s) (c : Char) : Within ts (k + 1) (s.step c) := by
  rcases h with ⟨hts, hquoted, w, hw, hlen⟩ | hended
  · have hin : ∀ (t : Lexer) (cs : List Char), t.tokens = s.tokens → t.quoted = true → t.word = some (w ++ cs) →
        w.length + cs.length + t.quoting.held ≤ k + 1 → Within ts (k + 1) t := fun t cs h₁ h₂ h₃ h₄ =>
      Or.inl ⟨h₁.trans hts, h₂, _, h₃, by rw [List.length_append]; exact h₄⟩
    have hadd : ∀ cs, (s.add cs).word = some (w ++ cs) := fun cs => by simp only [add, hw, Option.getD_some]
    have hkeep : s.word = some (w ++ []) := by rw [hw, List.append_nil]
    unfold Lexer.step
    split
    · next hq =>
      rw [hq] at hlen
      exact Within.stepPlain hts hquoted hw hlen hq c
    · next hq =>
      rw [hq] at hlen
      split_ifs
      · exact hin _ [] rfl hquoted hkeep (Nat.le_succ_of_le hlen)
      · exact hin _ [c] rfl hquoted (hadd _) (by simp only [add, hq]; exact Nat.succ_le_succ hlen)
    · next hq =>
      rw [hq] at hlen
      split_ifs
      · exact hin _ [] rfl hquoted hkeep (Nat.le_succ_of_le hlen)
      · exact hin _ [] rfl hquoted hkeep (Nat.succ_le_succ hlen)
      · exact hin _ [c] rfl hquoted (hadd _) (by simp only [add, hq]; exact Nat.succ_le_succ hlen)
    · next hq =>
      rw [hq] at hlen
      split_ifs
      · exact hin _ [] rfl hquoted hkeep (Nat.le_succ_of_le (Nat.le_of_succ_le hlen))
      · exact hin _ [c] rfl rfl (hadd _) (Nat.le_succ_of_le hlen)
    · next hq =>
      rw [hq] at hlen
      split_ifs
      · exact hin _ [] rfl hquoted hkeep (Nat.le_succ_of_le (Nat.le_of_succ_le hlen))
      · exact hin _ [c] rfl hquoted (hadd _) (Nat.le_succ_of_le hlen)
      · exact hin _ ['\\', c] rfl hquoted (hadd _) (Nat.succ_le_succ hlen)
  · exact Or.inr (hended.append (s.tokens_step c)).succ

theorem Within.run : ∀ (t : List Char) {s : Lexer} {k : Nat}, Within ts k s → Within ts (k + t.length) (s.run t)
  | [], _, _, h     => h
  | c :: t, s, k, h => by
    rw [run_cons, List.length_cons, Nat.add_comm t.length, ← Nat.add_assoc]
    exact Within.run t (h.step c)

/-! ## The first command -/

/-- The words of the first command begin with those it has. -/
theorem parse_words : ∀ (ts : List Token) (cmd : Command) {fst : Command} {cmds : List Command}, cmd.words ≠ [] →
    parse cmd ts = some (fst :: cmds) → cmd.words <+: fst.words
  | [], cmd, fst, cmds, hne, h => by
    have hcmd : cmd ≠ .none := fun he => hne (by rw [he]; rfl)
    simp only [parse, Command.ends, if_neg hcmd, Option.some.injEq, List.cons.injEq] at h
    exact h.1 ▸ List.prefix_refl _
  | .word w :: ts, cmd, fst, cmds, hne, h => by
    rw [parse] at h
    exact (List.prefix_append _ _).trans (parse_words ts _ (List.append_ne_nil_of_left_ne_nil hne _) h)
  | .redirect n op :: .word w :: ts, cmd, fst, cmds, hne, h => by
    rw [parse] at h
    exact parse_words ts { cmd with redirects := cmd.redirects ++ [(n, op, w)] } hne h
  | [.redirect n op], cmd, fst, cmds, hne, h => by simp [parse] at h
  | .redirect n op :: .redirect m op' :: ts, cmd, fst, cmds, hne, h => by simp [parse] at h
  | .redirect n op :: .separator c :: ts, cmd, fst, cmds, hne, h => by simp [parse] at h
  | .separator c :: ts, cmd, fst, cmds, hne, h => by
    have hcmd : cmd ≠ .none := fun he => hne (by rw [he]; rfl)
    rw [parse] at h
    obtain ⟨rest, -, hrest⟩ := Option.map_eq_some_iff.1 h
    simp only [Command.ends, if_neg hcmd, List.cons.injEq] at hrest
    exact hrest.1 ▸ List.prefix_refl _

end Shell
end Scrapcode
