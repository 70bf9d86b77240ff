import RaisingEffects.Proofs.Parse.Progress

/-!
# Trees lie in the tokens they are read from

Every reader of a construct takes a stretch of tokens, and the nodes of what it returns lie in that
stretch, in order. So a program lies in the tokens before the end mark (`Program.ofTokens_laid`),
and tokens that are refused are refused where one of them starts (`Program.pos_of_ofTokens_error`).
-/

namespace RaisingEffects

/-- **A program lies in the tokens it is read from.** Its declarations nest in them, its nodes start
at different ones, and those of its functions in order. So do the words that are skipped. -/
structure Reading.Laid (r : Reading) (ts : List Token) : Prop where
  nests : (Node.program r.program).Nests ts
  starts : (Node.starts r.program.nodes).Subperm (ts.map Token.pos)
  functions : (Node.starts (r.program.functions.flatMap FunDecl.nodes)).Sublist (ts.map Token.pos)
  skipped : (r.skipped.map Ambiguity.pos).Sublist (ts.map Token.pos)
  names : r.program.nodes.flatMap Node.names ++ r.skipped.map Ambiguity.word ⊆ Clause.namesIn ts

theorem Reading.Laid.mono {r : Reading} {ts us : List Token} (h : r.Laid ts) (hts : ts <+: us) :
    r.Laid us where
  nests := h.nests.mono hts.isInfix
  starts := h.starts.trans (hts.sublist.map _).subperm
  functions := h.functions.trans (hts.sublist.map _)
  skipped := h.skipped.trans (hts.sublist.map _)
  names := List.Subset.trans h.names (Clause.namesIn_subset hts.subset)

/-- A program lies in tokens that come before the end mark. -/
theorem Program.ofTokens_laid {tokens : List Token} (h : Ended tokens) {r : Reading}
    (hr : Program.ofTokens tokens = .ok r) :
    ∃ used rest, tokens = used ++ rest ∧ Ended rest ∧ r.Laid used := by
  obtain ⟨t, ts, rfl⟩ := h.exists_cons
  obtain ⟨⟨p, s⟩, hrun, heq⟩ := except_bind_eq_ok hr
  cases heq
  have htakes := Program.declarations_takes {}
    ⟨t, t :: ts, [declaredNames (t :: ts) ++ builtins], []⟩
  obtain ⟨used, -, hreach, -, -, hadds, -⟩ := htakes.ok hrun
  have hne := ((htakes _ (.refl _) rfl).stays h (Nat.le_refl _)).rest_ne_nil hrun
  have hrest : t :: ts = used ++ s.rest := hreach.rest
  obtain ⟨words, hwords, hsub, hnames⟩ := hreach.skipped
  rw [show s.skipped = words from hwords]
  refine ⟨used, s.rest, hrest, (hrest ▸ h).of_suffix hne, .plain rfl fun n hn => ?_, hadds.starts,
    hadds.functions, hsub, List.append_subset.2 ⟨hadds.names, hnames⟩⟩
  exact (hadds.nests n hn).resolve_left List.not_mem_nil

/-- Tokens that are refused at a position are refused where one of them starts. -/
theorem Program.pos_of_ofTokens_error {tokens : List Token} (htokens : tokens ≠ [])
    {fault : ParseFault} {pos : Pos} (h : Program.ofTokens tokens = .error (.fault fault pos)) :
    pos ∈ tokens.map Token.pos := by
  obtain ⟨t, ts, rfl⟩ := List.exists_cons_of_ne_nil htokens
  have htakes := Program.declarations_takes {}
    ⟨t, t :: ts, [declaredNames (t :: ts) ++ builtins], []⟩
  rw [ofTokens] at h
  cases hrun : Parse.declarations (.ofDepth (t :: ts).length) (t :: ts).length {}
      ⟨t, t :: ts, [declaredNames (t :: ts) ++ builtins], []⟩ with
  | ok r =>
    rw [List.headD_cons, hrun] at h
    cases h
  | error e =>
    rw [List.headD_cons, hrun] at h
    cases h
    simpa [ParseState.places, ParseFailure.At] using ((htakes _ (.refl _) rfl).error _ hrun).1

end RaisingEffects
