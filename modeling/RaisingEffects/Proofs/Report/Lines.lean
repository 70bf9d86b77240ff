import RaisingEffects.Proofs.Verdict.Places
import RaisingEffects.Proofs.Verdict.Wording
import RaisingEffects.Report.Basic

/-!
# Reports line by line

The text of a report has a line for each diagnostic, and a last line with their number. It can be
cut into these lines again, because no diagnostic says anything with a line feed in it: what it says
is made of fixed texts, of numbers, and of words of the program, which have none.

* `OneLine s`: the text has no line feed.
* `Diagnostic.Opens d file line`: the line opens with where the diagnostic is, its kind and its
  message.
* `Verdict.Accounts v report`: the report as data has the number of diagnostics, and the effects in
  the order of their names.

The main result is `Program.check_lines`.
-/

namespace RaisingEffects

open Analysis

/-! ## Texts of one line -/

/-- The text has no line feed. -/
def OneLine (s : String) : Prop := '\n' ∉ s.toList

instance (s : String) : Decidable (OneLine s) := inferInstanceAs (Decidable (_ ∉ _))

section OneLine

variable {s t : String}

@[simp] theorem oneLine_append : OneLine (s ++ t) ↔ OneLine s ∧ OneLine t := by
  simp [OneLine]

@[simp] theorem oneLine_toString : OneLine (toString s) ↔ OneLine s := Iff.rfl

@[simp] theorem oneLine_number (n : Nat) : OneLine (toString n) := by
  intro h
  rw [Nat.toString_eq_repr, Nat.toList_repr] at h
  exact absurd (toNat_of_mem_toDigits h) (by decide)

theorem oneLine_of_isName (h : isName s = true) : OneLine s := by
  obtain ⟨c, cs, hchars, hc, hcs, -⟩ := exists_chars_of_isName h
  intro hmem
  rw [hchars] at hmem
  rcases List.mem_cons.1 hmem with rfl | hmem
  · exact absurd hc (by decide)
  · exact absurd (List.all_eq_true.1 hcs _ hmem) (by decide)

end OneLine

/-- The words of a program that was read are texts of one line: they are values of tokens. -/
theorem Program.parse_worded {source : String} {r : Reading} (h : Program.parse source = .ok r) :
    r.program.Worded OneLine r.skipped := by
  obtain ⟨tokens, stop, htokens, hlaid⟩ := Program.exists_laid h
  obtain ⟨ws, p, hws, hwritten⟩ := Token.exists_written htokens
  obtain ⟨rfl, -⟩ := List.append_inj' hws rfl
  have hname {x : String} (hx : x ∈ Clause.namesIn tokens) : OneLine x := by
    obtain ⟨t, ht, rfl⟩ := List.mem_map.1 hx
    obtain ⟨ht, hkind⟩ := List.mem_filter.1 ht
    obtain ⟨chars, hchars⟩ := hwritten t ht
    rw [of_decide_eq_true hkind] at hchars
    generalize hvalue : t.value.toList = value at hchars
    cases hchars with
    | @ident name hname =>
      rw [String.toList_inj.1 hvalue]
      exact oneLine_of_isName hname
  refine ⟨fun x hx => hname (hlaid.names (List.mem_append_left _ hx)), fun a ha => ?_, ?_, ?_⟩
  · exact hname (hlaid.names (List.mem_append_right _ (List.mem_map_of_mem ha)))
  · intro kind
    cases kind <;> decide
  · intro interface name hinterface hname
    simp +decide [memberName, hinterface, hname]

/-! ## What is said on a line -/

section Wording

variable {isError : String → Bool} {V : Vocabulary isError} {file : String} {d : Diagnostic}

theorem Effect.oneLine_text {e : Effect} (h : e.Names OneLine) : OneLine e.text := by
  cases e with
  | nothrow => decide
  | raises type =>
    simp only [Effect.text, oneLine_append, oneLine_toString, h type rfl]
    decide
  | raisesAny => decide

theorem Cause.oneLine_kind (cause : Cause) : OneLine cause.kind := by
  cases cause <;> rw [Cause.kind] <;> decide

theorem Cause.oneLine_message (hV : ∀ x, V.Word x → OneLine x) {cause : Cause}
    (h : cause.Spelt V) : OneLine cause.message := by
  have htext {e : Effect} (he : e.Names V.Error) : OneLine e.text :=
    Effect.oneLine_text (he.mono fun type htype => hV type htype.1)
  unfold Cause.message
  -- what is left in each case are the fixed texts
  cases cause with
  | ambiguous word | clauseNotError word | raisedNotError word | forwardsNothing word =>
    simp only [oneLine_append, oneLine_toString, hV word h, and_true]
    decide +kernel
  | misfit m =>
    have hsubject : OneLine (misfitSubject m.index) := by
      cases m.index with
      | none => decide
      | some i =>
        simp only [misfitSubject, oneLine_append, oneLine_toString, oneLine_number, and_true]
        decide +kernel
    simp only [oneLine_append, oneLine_toString, hsubject, htext h.element,
      htext h.bound, hV _ h.noun, and_true, true_and]
    decide +kernel
  | letMismatch word declared actual | assignMismatch word declared actual
  | argumentMismatch word _ declared actual | functionRaises word declared actual =>
    obtain ⟨hword, hdeclared, hactual⟩ := h
    simp only [oneLine_append, oneLine_toString, oneLine_number, hV word hword,
      htext hdeclared, htext hactual, and_true]
    decide +kernel
  | closureRaises declared body =>
    obtain ⟨hdeclared, hbody⟩ := h
    simp only [oneLine_append, oneLine_toString, htext hdeclared, htext hbody, and_true]
    decide +kernel
  | passMismatch function parameter target e | unhandledPath function parameter target e =>
    obtain ⟨hfunction, hparameter, htarget, he⟩ := h
    simp only [oneLine_append, oneLine_toString, hV function hfunction,
      hV parameter hparameter, hV target htarget, htext he, and_true]
    decide +kernel

theorem Diagnostic.oneLine_line (hV : ∀ x, V.Word x → OneLine x) (hfile : OneLine file)
    (h : d.Spelt V) : OneLine (d.line file) := by
  have hlocation : OneLine (d.pos.elim file fun p => s!"{file}:{p.text}") := by
    cases d.pos with
    | none => exact hfile
    | some p =>
      simp only [Option.elim_some, Pos.text, oneLine_append, oneLine_toString, oneLine_number,
        hfile, and_true, true_and]
      decide
  have hplace : OneLine (d.function.elim "" fun f => if f.isEmpty then "" else s!" (in {f})") := by
    cases hf : d.function with
    | none => decide
    | some f =>
      rw [Option.elim_some]
      split
      · decide
      · simp only [oneLine_append, oneLine_toString, hV f (h.function f hf), and_true]
        decide
  simp only [Diagnostic.line, oneLine_append, oneLine_toString, hlocation, hplace,
    d.cause.oneLine_kind, Cause.oneLine_message hV h.cause, and_true, true_and]
  decide

end Wording

/-! ## The lines of a text -/

/-- The line opens with where the diagnostic is, its kind and its message. -/
def Diagnostic.Opens (d : Diagnostic) (file line : String) : Prop :=
  ∃ (p : Pos) (rest : String), d.pos = some p ∧
    line = s!"{file}:{p.line}:{p.column}: {d.cause.kind}: {d.cause.message}{rest}"

theorem Diagnostic.opens_line {d : Diagnostic} {p : Pos} (h : d.pos = some p) (file : String) :
    d.Opens file (d.line file) := by
  refine ⟨p, d.function.elim "" fun f => if f.isEmpty then "" else s!" (in {f})", h, ?_⟩
  have htext (s : String) : toString s = s := rfl
  simp only [Diagnostic.line, h, Option.elim_some, Pos.text, htext, String.append_assoc]

theorem Verdict.split_text {v : Verdict} {file : String} (h : ∀ line ∈ v.lines file, OneLine line) :
    ((v.text file).split '\n').toList.map (·.copy) = v.lines file := by
  have hsplit := String.toList_split_intercalate h
  rw [if_neg (by simp [Verdict.lines])] at hsplit
  exact hsplit

theorem Verdict.oneLine_summary (v : Verdict) : OneLine v.summary := by
  unfold Verdict.summary
  dsimp only
  split
  · simp only [oneLine_append, oneLine_toString, oneLine_number, true_and]
    decide
  · simp only [oneLine_append, oneLine_toString, oneLine_number, true_and]
    decide

/-! ## Reports as data -/

/-- The value of a field of a record. -/
def Payload.field? : Payload → String → Option Payload
  | .record fields, name => Table.get? fields name
  | _, _ => none

/-- The report has the number of diagnostics, is in order if there are none, and lists each effect
of the verdict once, in the order of the code points of the names. -/
structure Verdict.Accounts (v : Verdict) (report : Payload) : Prop where
  count : report.field? "diagnostic_count" = some (.number v.diagnostics.length)
  status : report.field? "status" = some (.text "ok") ↔ v.diagnostics.length = 0
  functions : ∃ entries : Table Effect, entries.Perm v.effects ∧
    entries.Pairwise (fun a b => a.1 < b.1) ∧
    report.field? "functions" = if entries.isEmpty then none
      else some (.record (entries.map fun entry => (entry.1, .text entry.2.text)))

theorem Verdict.sortedEffects_sorted {v : Verdict} (h : (v.effects.map Prod.fst).Nodup) :
    v.sortedEffects.Pairwise fun a b => a.1 < b.1 := by
  have hperm : v.sortedEffects.Perm v.effects := List.mergeSort_perm ..
  have hnodup : (v.sortedEffects.map Prod.fst).Nodup := (hperm.map Prod.fst).nodup_iff.2 h
  have hle : v.sortedEffects.Pairwise fun a b => decide (a.1 ≤ b.1) = true := by
    refine List.pairwise_mergeSort (fun a b c hab hbc => ?_) (fun a b => ?_) v.effects
    · exact decide_eq_true (String.le_trans (of_decide_eq_true hab) (of_decide_eq_true hbc))
    · simpa using String.le_total a.1 b.1
  refine hle.imp₂ (fun a b hab hne => ?_) (List.pairwise_map.1 hnodup)
  exact String.not_le.1 fun hba => hne (String.le_antisymm (of_decide_eq_true hab) hba)

theorem Verdict.report_accounts {v : Verdict} (h : (v.effects.map Prod.fst).Nodup)
    (file : Option String) : v.Accounts (v.report file) where
  count := rfl
  status := by
    show some (Payload.text (if v.isClean then "ok" else "failed")) = _ ↔ _
    rw [List.length_eq_zero_iff, ← List.isEmpty_iff]
    cases hclean : v.diagnostics.isEmpty <;> simp [Verdict.isClean, hclean]
  functions := by
    refine ⟨v.sortedEffects, List.mergeSort_perm .., sortedEffects_sorted h, ?_⟩
    unfold Verdict.report Payload.field?
    cases file <;> cases v.isClean <;> cases v.sortedEffects <;> rfl

/-! ## Sources -/

/-- **Reports are faithful line by line.** -/
theorem Program.check_lines {source : String} {r : Reading} (h : Program.parse source = .ok r)
    (settings : Settings) (isError : String → Bool) {file : String} (hfile : '\n' ∉ file.toList) :
    ∃ v, r.program.check settings isError r.skipped = .ok v ∧
      (∃ lines, ((v.text file).split '\n').toList.map (·.copy) = lines ++
          [toString v.diagnostics.length ++
            if v.diagnostics.length = 1 then " diagnostic" else " diagnostics"] ∧
        List.Forall₂ (fun d line => d.Opens file line) v.diagnostics lines) ∧
      ∀ name, v.Accounts (v.report name) := by
  have hp := Program.parse_wellNamed h
  have hworded := Program.parse_worded h
  obtain ⟨tokens, stop, htokens, hlaid⟩ := Program.exists_laid h
  obtain ⟨v, hv, hcovers⟩ := r.program.check_run settings isError r.skipped
  obtain ⟨v', hv', hreports⟩ := Program.check_reports hp settings isError r.skipped
  obtain ⟨v'', hv'', hspelt⟩ := Program.check_spelt hworded isError hp settings
  cases hv.symm.trans hv'
  cases hv.symm.trans hv''
  refine ⟨v, hv, ⟨v.diagnostics.map fun d => d.line file, ?_, ?_⟩, fun name => ?_⟩
  · have hlines : ∀ line ∈ v.lines file, OneLine line := by
      intro line hline
      rcases List.mem_append.1 hline with hline | hline
      · obtain ⟨d, hd, rfl⟩ := List.mem_map.1 hline
        exact Diagnostic.oneLine_line (fun _ hx => hx) hfile (hspelt d hd)
      · rw [List.mem_singleton.1 hline]
        exact v.oneLine_summary
    rw [Verdict.split_text hlines, Verdict.lines, Verdict.summary]
    split <;> rfl
  · rw [List.forall₂_map_right_iff, List.forall₂_same]
    intro d hd
    obtain ⟨o, ho, hsite⟩ := hreports.exists_mem (List.mem_map_of_mem hd)
    obtain ⟨t, -, hpos⟩ := hlaid.exists_token ho hsite
    exact Diagnostic.opens_line hpos file
  · refine Verdict.report_accounts ?_ name
    rw [hcovers.effects]
    exact Table.nodup_ofEntries _

theorem Program.check_lines_faulty :
    ∃ r v lines, Program.parse faultySource = .ok r ∧ '\n' ∉ "faulty.src".toList ∧
      r.program.check { policy := .precise } r.program.declaresError r.skipped = .ok v ∧
      ((v.text "faulty.src").split '\n').toList.map (·.copy) = lines ++ ["11 diagnostics"] ∧
      List.Forall₂ (fun report line => ∃ (p : Pos) (rest : String), report.2 = some p ∧
        line = s!"faulty.src:{p.line}:{p.column}: {report.1}: {rest}") faultyReports lines ∧
      v.Accounts (v.report none) := by
  obtain ⟨r, v, hr, hv, hview⟩ := exists_verdict_faultySource
  have hfile : '\n' ∉ "faulty.src".toList := by decide
  obtain ⟨v', hv', ⟨lines, hsplit, hopens⟩, haccounts⟩ :=
    Program.check_lines hr { policy := .precise } r.program.declaresError hfile
  cases hv.symm.trans hv'
  have hlength : v.diagnostics.length = 11 := by
    rw [← List.length_map (fun d => (d.cause.kind, d.pos)), hview]
    rfl
  rw [hlength] at hsplit
  refine ⟨r, v, lines, hr, hfile, hv, hsplit, ?_, haccounts none⟩
  rw [← hview, List.forall₂_map_left_iff]
  refine hopens.imp fun d line ⟨p, rest, hpos, hline⟩ => ⟨p, d.cause.message ++ rest, hpos, ?_⟩
  exact hline.trans (String.append_assoc ..)

end RaisingEffects
