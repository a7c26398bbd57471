import Scrapcode.NspidVanish
/-!
# NspidParents — what `--show-parents` prints

`get_namespace_parent` walks up the line of parents to the first process in another pid namespace, and
`print_entry_ancestors` prints that one and goes on from it.  So where nothing vanishes and every process of the table
can be read, `main` prints after each process that matches the spawners of the namespaces around it: each is the
nearest ancestor of the one before that lives in another namespace, and every namespace that some ancestor lives in is
among theirs or is the process's own (`main_showParents`).
-/
namespace Scrapcode
namespace Nspid
namespace Vanish

open Lookups

section
variable (t : Table)

/-- Every process can be read, and every parent is in the table. -/
structure Whole : Prop where
  readable : ∀ p q, t.proc p = some q → q.Readable
  closed   : ∀ p q, t.proc p = some q → q.ppid = 0 ∨ ∃ r, t.proc q.ppid = some r

def SameNs (a b : Entry) : Prop := t.parentEntry a = .ok (some b) ∧ b.pidNsId = a.pidNsId

/-- `b` is the nearest ancestor of `e` in another namespace. -/
def Spawner (e b : Entry) : Prop :=
  ∃ c, Relation.ReflTransGen (SameNs t) e c ∧ t.parentEntry c = .ok (some b) ∧ b.pidNsId ≠ e.pidNsId

/-- The lines for the namespaces around `e`. -/
inductive Parents : Nat → Entry → List Output → Prop
  | top {indent e} : (∀ a, Line t.parentEntry e a → a.pidNsId = e.pidNsId) → Parents indent e []
  | up {indent e b out} : Spawner t e b → Parents (indent + 2) b out → Parents indent e (.parent b indent :: out)

/-- **What is printed for a process that matches.** -/
def Shows (e : Entry) (out : List Output) : Prop :=
  ∃ parents, out = .line (.entry e) :: parents ∧ Parents t 2 e parents ∧
    ∀ a, Line t.parentEntry e a → a.pidNsId = e.pidNsId ∨
      ∃ b indent, Output.parent b indent ∈ parents ∧ b.pidNsId = a.pidNsId

/-- Read from a process, with its namespace, and printable. -/
def Full (e : Entry) : Prop := ∃ q, t.Tells e q ∧ e.pidNsId ≠ none ∧ e.printable = true

end

variable {t : Table} {o : Args} {e a b c : Entry} {out : List Output} {ancestor : Option Entry}

/-! ## The namespaces that are shown -/

/-- An ancestor is in the namespace of `e`, or on the line of any that is reached within that namespace. -/
theorem same_or_above (h : Relation.ReflTransGen (SameNs t) e c) (ha : Line t.parentEntry e a) :
    a.pidNsId = e.pidNsId ∨ Line t.parentEntry c a := by
  induction h using Relation.ReflTransGen.head_induction_on with
  | refl => exact Or.inr ha
  | head hstep _ ih =>
    obtain ⟨hup, hns⟩ := hstep
    rcases (line_cons hup).1 ha with rfl | ha
    · exact Or.inl rfl
    · exact (ih ha).imp_left (fun h => h.trans hns)

theorem ns_of_same (h : Relation.ReflTransGen (SameNs t) e c) : c.pidNsId = e.pidNsId := by
  induction h with
  | refl => rfl
  | tail _ hstep ih => exact hstep.2.trans ih

/-- **Every namespace of an ancestor** is the process's own or is shown. -/
theorem Parents.covers {indent : Nat} (h : Parents t indent e out) : ∀ a, Line t.parentEntry e a →
    a.pidNsId = e.pidNsId ∨ ∃ b k, Output.parent b k ∈ out ∧ b.pidNsId = a.pidNsId := by
  induction h with
  | top hall => exact fun a ha => Or.inl (hall a ha)
  | @up indent e b out hs _ ih =>
    intro a ha
    obtain ⟨c, hc, hup, -⟩ := hs
    rcases same_or_above hc ha with hns | ha
    · exact Or.inl hns
    · rcases (line_cons hup).1 ha with rfl | ha
      · exact Or.inl (ns_of_same hc)
      · refine Or.inr ?_
        rcases ih a ha with hns | ⟨b', k, hb', hns⟩
        · exact ⟨b, indent, List.mem_cons_self, hns.symm⟩
        · exact ⟨b', k, List.mem_cons_of_mem _ hb', hns⟩

/-! ## The walks -/

theorem Whole.full (hw : Whole t) {p : Int} (h : t.readPidProc p false = .ok e) : Full t e := by
  obtain ⟨rfl, q, hq, -, hfull⟩ := Table.readPidProc_ok h
  have hread := hw.readable _ q hq.proc
  refine ⟨q, hq, ?_, (Table.printable_iff h hq.proc).2 hread.printable⟩
  rw [(hfull rfl).2.1, if_pos hread.nsAccess]
  exact Option.some_ne_none _

theorem Whole.parent (hw : Whole t) (he : Full t e) (h0 : e.ppid ≠ 0) : ∃ b, t.readPidProc e.ppid false = .ok b ∧
    t.parentEntry e = .ok (some b) ∧ Full t b ∧ t.depth b.pid < t.depth e.pid := by
  obtain ⟨q, hq, -⟩ := he
  rcases hw.closed e.pid q hq.proc with h | ⟨r, hr⟩
  · exact absurd (hq.ppid.trans h) h0
  · rw [← hq.ppid] at hr
    obtain ⟨b, hb⟩ := Table.readPidProc_of_readable hw.readable hr false
    have hup : t.parentEntry e = .ok (some b) := (t.up_some Table.up_parentEntry).2 ⟨fun _ => h0, hb⟩
    exact ⟨b, hb, hup, hw.full hb, t.line_depth Table.up_parentEntry hq e b .refl hup⟩

/-- **The walk to the next namespace** ends at the spawner of the process's own, or there is none. -/
theorem getNamespaceParent_steady (hw : Whole t) : ∀ (k : Nat) (e : Entry) (m : Nat), Full t e → t.depth e.pid < k →
    (∃ b, ((getNamespaceParent t k e).run steady m).1 = .ok (some b) ∧ Spawner t e b ∧ Full t b ∧
      t.depth b.pid < t.depth e.pid) ∨
    (((getNamespaceParent t k e).run steady m).1 = .ok none ∧ ∀ a, Line t.parentEntry e a → a.pidNsId = e.pidNsId)
  | 0, _, _, _, hk       => absurd hk (Nat.not_lt_zero _)
  | k + 1, e, m, he, hk => by
    obtain ⟨-, -, hns, -⟩ := id he
    rw [getNamespaceParent]
    by_cases h0 : e.ppid = 0
    · refine Or.inr ⟨by rw [if_pos (Or.inr h0)]; rfl, fun a ha => ?_⟩
      have htop : ∀ b, t.parentEntry e ≠ .ok (some b) := fun b h => by
        rw [Table.parentEntry, if_pos h0] at h; cases h
      rw [(line_top htop).1 ha]
    · obtain ⟨b, hread, hup, hb, hdepth⟩ := hw.parent he h0
      rw [if_neg (not_or.2 ⟨hns, h0⟩), run_andThen_ok (read_steady.trans hread),
        if_neg (fun h => hb.elim fun _ hb => hb.2.1 h)]
      by_cases hsame : b.pidNsId = e.pidNsId
      · rw [if_neg (not_not.2 hsame)]
        rcases getNamespaceParent_steady hw k b _ hb (by omega) with
          ⟨c, hrun, ⟨d, hd, hc, hne⟩, hfull, hlt⟩ | ⟨hrun, hall⟩
        · exact Or.inl ⟨c, hrun, ⟨d, .head ⟨hup, hsame⟩ hd, hc, hsame ▸ hne⟩, hfull, by omega⟩
        · refine Or.inr ⟨hrun, fun a ha => ?_⟩
          rcases (line_cons hup).1 ha with rfl | ha
          · rfl
          · exact (hall a ha).trans hsame
      · rw [if_pos hsame]
        exact Or.inl ⟨b, rfl, ⟨e, .refl, hup, hsame⟩, hb, hdepth⟩

theorem printEntryAncestors_steady (hw : Whole t) : ∀ (k indent : Nat) (e : Entry) (m : Nat), Full t e →
    t.depth e.pid < k → ∃ out, ((printEntryAncestors t k indent e).run steady m).1 = .ok out ∧ Parents t indent e out
  | 0, _, _, _, _, hk            => absurd hk (Nat.not_lt_zero _)
  | k + 1, indent, e, m, he, hk => by
    rw [printEntryAncestors]
    rcases getNamespaceParent_steady hw (t.depth e.pid + 1) e m he (Nat.lt_succ_self _) with
      ⟨b, hrun, hs, hb, hdepth⟩ | ⟨hrun, hall⟩
    · obtain ⟨out, hout, hp⟩ := printEntryAncestors_steady hw k (indent + 2) b
        ((getNamespaceParent t (t.depth e.pid + 1) e).run steady m).2 hb (by omega)
      obtain ⟨-, -, -, hpr⟩ := hb
      exact ⟨_, by rw [run_andThen_ok hrun]; dsimp only; rw [if_pos hpr, run_andThen_ok hout]; rfl, .up hs hp⟩
    · exact ⟨[], by rw [run_andThen_ok hrun]; rfl, .top hall⟩

/-! ## The run -/

theorem report_steady (hw : Whole t) (hr : o.showParents = true) (hq : o.pidsOnly = false) (he : Full t e) (m : Nat) :
    ∃ out, ((report t o e).run steady m).1 = .ok out ∧ Shows t e out := by
  obtain ⟨parents, hrun, hp⟩ := printEntryAncestors_steady hw (t.depth e.pid + 1) 2 e m he (Nat.lt_succ_self _)
  obtain ⟨-, -, -, hpr⟩ := he
  refine ⟨.line (.entry e) :: parents, ?_, parents, rfl, hp, hp.covers⟩
  rw [report, if_neg (hq.symm ▸ Bool.false_ne_true), if_neg (by rw [hpr]; exact Bool.noConfusion), if_pos hr,
    run_andThen_ok hrun]
  rfl

/-- What the loop prints for a name of the listing: its process with the spawners, or nothing. -/
theorem visit_parents (hw : Whole t) (hr : o.showParents = true) (hq : o.pidsOnly = false) {p : Int}
    (hquiet : Quiet t o ancestor p) (m : Nat) :
    ∃ (entries : List Entry) (outs : List (List Output)), ((visit t o ancestor p).run steady m).1 = .ok outs.flatten ∧
      Nspid.visit t o.toOptions ancestor p = .ok (entries.map .entry) ∧ List.Forall₂ (Shows t) entries outs := by
  rcases visit_cases steady m hquiet with ⟨hgone, hv⟩ | ⟨hm, e, n, he, -, ⟨hp, hv⟩ | ⟨hp, k, hv⟩⟩
  · refine ⟨[], [], hv, ?_, .nil⟩
    unfold Nspid.visit
    rcases hgone with hm | hread
    · rw [if_pos hm]; rfl
    · rw [← read_steady, hread]
      split_ifs <;> rfl
  · rw [passes_steady o ancestor he] at hp
    refine ⟨[], [], hv, ?_, .nil⟩
    rw [Nspid.visit, if_neg hm, he]
    dsimp only [caught]
    rw [hp]
    rfl
  · rw [passes_steady o ancestor he] at hp
    obtain ⟨out, hout, hshows⟩ := report_steady hw hr hq (hw.full he) k
    obtain ⟨-, -, -, hpr⟩ := hw.full he
    refine ⟨[e], [out], hv.trans (by rw [hout, List.flatten_singleton]), ?_, .cons hshows .nil⟩
    rw [Nspid.visit, if_neg hm, he]
    dsimp only [caught]
    rw [hp, hq, hpr]
    rfl

theorem loop_parents (hw : Whole t) (hr : o.showParents = true) (hq : o.pidsOnly = false) :
    ∀ (ps : List Int) (m : Nat), (∀ p ∈ ps, Quiet t o ancestor p) → ∃ (entries : List Entry) (outs : List (List Output)),
      ((loop t o ancestor ps).run steady m).1 = .ok outs.flatten ∧
        (Nspid.loop t o.toOptions ancestor ps).1 = entries.map .entry ∧ List.Forall₂ (Shows t) entries outs
  | [], _, _           => ⟨[], [], rfl, rfl, .nil⟩
  | p :: ps, m, hquiet => by
    obtain ⟨hp, hquiet⟩ := List.forall_mem_cons.1 hquiet
    obtain ⟨entries, outs, hv, hstatic, hshows⟩ := visit_parents hw hr hq hp m
    obtain ⟨entries', outs', hl, hloop, hshows'⟩ :=
      loop_parents hw hr hq ps ((visit t o ancestor p).run steady m).2 hquiet
    refine ⟨entries ++ entries', outs ++ outs', ?_, ?_, List.rel_append hshows hshows'⟩
    · rw [loop_cons_ok hv hl, List.flatten_append]
    · rw [Nspid.loop, hstatic]
      dsimp only
      rw [hloop, List.map_append]

/-- **With `--show-parents`, where nothing vanishes**, `main` prints each process that matches, and after it the
spawners of the namespaces around it, nearest first. -/
theorem main_showParents (t : Table) (o : Args) (hw : Whole t) (hr : o.showParents = true) (hq : o.pidsOnly = false)
    (ancestor : Option Entry) (hs : ((start t o).run steady 0).1 = .ok ancestor) :
    ∃ (entries : List Entry) (outs : List (List Output)), entries.map Entry.pid = shown t o.toOptions ∧
      ((main t o).run steady 0).1 = .ended (.line .header :: outs.flatten) ∧ List.Forall₂ (Shows t) entries outs := by
  have hquiet : ∀ p ∈ t.pids, Quiet t o ancestor p := fun p _ =>
    (quiet_iff hs).2 (fun _ => not_stops_of_readable hw.readable)
  obtain ⟨entries, outs, hrun, hloop, hshows⟩ := loop_parents hw hr hq t.pids (listing t o steady + 1) hquiet
  refine ⟨entries, outs, ?_, ?_, hshows⟩
  · rw [shown, (start_eq hs).1, Nspid.process_listAll, hloop, List.filterMap_map]
    exact (congrFun List.filterMap_eq_map entries).symm
  · rw [main_run hs, listed_steady, hrun, if_neg (hq.symm ▸ Bool.false_ne_true)]
    rfl

theorem hostProc_cases {p : Int} {q : Proc} (hq : hostProc p = some q) : q = initProc ∨ q = innerProc := by
  unfold hostProc at hq
  by_cases h1 : p = 1
  · rw [if_pos h1] at hq
    exact Or.inl (Option.some.inj hq).symm
  · by_cases h2 : p = 200
    · rw [if_neg h1, if_pos h2] at hq
      exact Or.inr (Option.some.inj hq).symm
    · rw [if_neg h1, if_neg h2] at hq
      cases hq

theorem whole_host : Whole host where
  readable := by
    intro p q hq
    rcases hostProc_cases hq with rfl | rfl
    · exact ⟨by decide, by decide, by decide, rfl, ⟨_, rfl, by decide⟩, fun _ => by decide⟩
    · exact ⟨by decide, by decide, by decide, rfl, ⟨_, rfl, by decide⟩, fun _ => by decide⟩
  closed   := by
    intro p q hq
    rcases hostProc_cases hq with rfl | rfl
    · exact Or.inl rfl
    · exact Or.inr ⟨initProc, rfl⟩

/-- The process of the namespace 20 is shown with the `init` that spawned it. -/
theorem main_showParents_host : ∃ (entries : List Entry) (outs : List (List Output)),
    entries.map Entry.pid = shown host {} ∧
      ((main host { showParents := true }).run steady 0).1 = .ended (.line .header :: outs.flatten) ∧
      List.Forall₂ (Shows host) entries outs :=
  main_showParents host { showParents := true } whole_host rfl rfl none rfl

end Vanish
end Nspid
end Scrapcode
