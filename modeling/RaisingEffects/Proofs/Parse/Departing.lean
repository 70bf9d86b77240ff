import RaisingEffects.Proofs.Parse.Following
import RaisingEffects.Proofs.Parse.Progress

/-!
# Readings that may depart from each other

One reading follows another up to a place where the second text is read otherwise. Whether there is
such a place can be told from the interfaces of the program that is read.

* `Program.ofTokens_unless`: with readers of interfaces, readers of whole texts follow each other.
* `Program.ofTokens_refused`: in a strict comparison what is refused is refused in both texts.
-/

namespace RaisingEffects

theorem Program.map_eq_map_iff {p p' : Program Span} :
    p'.map unplaced = p.map unplaced ↔
      p'.functions.map (FunDecl.map unplaced) = p.functions.map (FunDecl.map unplaced) ∧
      p'.errors.map (NameDecl.map unplaced) = p.errors.map (NameDecl.map unplaced) ∧
      p'.types.map (NameDecl.map unplaced) = p.types.map (NameDecl.map unplaced) ∧
      p'.interfaces.map (Interface.map unplaced) = p.interfaces.map (Interface.map unplaced) := by
  rw [Program.map, Program.map, Program.mk.injEq]

namespace Parse

open TokenKind Sign Keyword

variable {K : TokenKind → Bool} {place : Pos → Pos} {R Inner Outer : Alignment}
  {failure : Option ParseFailure} {departs : List (Member Span) → Prop} {r r' : Level}
  {s s' : ParseState}

/-! ## Interfaces -/

/-- Readers of interfaces follow each other if readers of members do. Inside an interface the states
may be related otherwise than outside. -/
theorem interface_unless (departs : List (Member Span) → Prop) (h : Stepping place K Inner)
    (hbrace : K (symbol lbrace) = true)
    (hstrict : Outer.strict ↔ Inner.strict)
    (hopen : ∀ s s', Outer s s' →
      FollowsAt Inner s s' (expect (keyword Keyword.interface)) (expect (keyword Keyword.interface))
        (Token.Recurs place))
    (hmembers : ∀ n n' s s', Inner s s' →
      FollowsUnless Inner failure departs s s' (members r n false) (members r' n' false)
        (SameBy (List.map (Member.map unplaced))))
    (hclose : ∀ s s', Inner s s' →
      FollowsAt Outer s s' (expectSign rbrace) (expectSign rbrace) (Token.Recurs place))
    (hs : Outer s s') :
    FollowsUnless Outer failure (fun i => departs i.members) s s' (interface r) (interface r')
      (SameBy (Interface.map unplaced)) := by
  refine (hopen s s' hs).bindUnless hstrict.1 fun start start' _ s s' hs => ?_
  refine (h.expectName s s' hs).bindUnless hstrict.1 fun name name' hname s s' hs => ?_
  refine (h.expect hbrace s s' hs).bindUnless hstrict.1 fun _ _ _ s s' hs => ?_
  refine (Follows.remaining s s' hs).bindUnless hstrict.1 fun n n' _ s s' hs => ?_
  refine (hmembers n n' s s' hs).andThen hstrict.1 ?_ fun ms ms' hms hgood s s' hs => ?_
  · exact fun ms hbad => .andThen fun _ => .andThen fun _ => .pure hbad
  · refine (hclose s s' hs).bindUnless id fun _ _ _ s s' hs => ?_
    refine (Follows.spanFrom start start' s s' hs).bindUnless id fun span span' _ s s' hs => ?_
    refine .pure hs ?_ hgood
    unfold SameBy at hms ⊢
    rw [Interface.map, Interface.map, hname.value, hms]

/-! ## Programs -/

theorem map_append_singleton {α γ : Type} {view : α → γ} {as as' : List α} {a a' : α}
    (has : as'.map view = as.map view) (ha : SameBy view a a') :
    (as' ++ [a']).map view = (as ++ [a]).map view := by
  unfold SameBy at ha
  rw [List.map_append, List.map_append, has, List.map_singleton, List.map_singleton, ha]

/-- Interfaces that were read stay. -/
theorem declarations_interfaces (r : Level) (n : Nat) (p : Program Span) :
    Returns (declarations r n p) fun q => p.interfaces ⊆ q.interfaces := by
  induction n generalizing p with
  | zero => exact .fail
  | succ n ih =>
    refine .andThen fun t => ?_
    split
    · exact .pure (List.Subset.refl _)
    · exact .andThen fun _ => .andThen fun d => ih _
    · exact .andThen fun _ => .andThen fun d => ih _
    · refine .andThen fun i s q s' hq => ?_
      exact List.Subset.trans (List.subset_append_left ..) (ih _ s q s' hq)
    · refine .andThen fun g => ?_
      split
      · exact .fail
      · exact ih _

section Programs

variable (h : Tracking place TokenKind.plain R) (hr : Level.Follows R r r')
  (hinterface : ∀ s s', R s s' →
    FollowsUnless R failure (fun i => departs i.members) s s' (interface r) (interface r')
      (SameBy (Interface.map unplaced)))

include h hr hinterface

/-- Readers of declarations follow each other if those of interfaces do. -/
theorem declarations_unless (n n' : Nat) {p p' : Program Span}
    (hp : p'.map unplaced = p.map unplaced) (hgood : ¬ ∃ i ∈ p.interfaces, departs i.members)
    (hs : R s s') :
    FollowsUnless R failure (fun q => ∃ i ∈ q.interfaces, departs i.members) s s'
      (declarations r n p) (declarations r' n' p') (SameBy (Program.map unplaced)) := by
  induction n generalizing n' p p' s s' with
  | zero => exact .spent rfl
  | succ n ih =>
    cases n' with
    | zero => exact .outOfTokens rfl
    | succ n' =>
      obtain ⟨t, t', hahead⟩ := h.ahead rfl hs
      have hname (hkind : t.kind.plain = true) :
          FollowsAt R s s' (skip >>= fun _ => nameDecl t) (skip >>= fun _ => nameDecl t')
            (SameBy (NameDecl.map unplaced)) :=
        h.skip hahead hkind (nameDecl_follows h t t')
      obtain ⟨hfunctions, herrors, htypes, hinterfaces⟩ := Program.map_eq_map_iff.1 hp
      refine Stepping.peekAhead hahead ?_
      rw [hahead.recurs.kind]
      split
      · exact .pure hs hp hgood
      · rename_i hkind
        rw [← bind_assoc, ← bind_assoc]
        refine (hname (by rw [hkind]; rfl)).bindUnless id fun d d' hd s s' hs => ih n' ?_ hgood hs
        exact Program.map_eq_map_iff.2
          ⟨hfunctions, map_append_singleton herrors hd, htypes, hinterfaces⟩
      · rename_i hkind
        rw [← bind_assoc, ← bind_assoc]
        refine (hname (by rw [hkind]; rfl)).bindUnless id fun d d' hd s s' hs => ih n' ?_ hgood hs
        exact Program.map_eq_map_iff.2
          ⟨hfunctions, herrors, map_append_singleton htypes hd, hinterfaces⟩
      · refine (hinterface s s' hs).andThen id ?_ fun i i' hi hstays s s' hs => ih n' ?_ ?_ hs
        · intro i hbad s q s₁ hq
          exact ⟨i, declarations_interfaces r n _ s q s₁ hq (by simp), hbad⟩
        · exact Program.map_eq_map_iff.2
            ⟨hfunctions, herrors, htypes, map_append_singleton hinterfaces hi⟩
        · rintro ⟨j, hj, hbad⟩
          rcases List.mem_append.1 hj with hj | hj
          · exact hgood ⟨j, hj, hbad⟩
          · exact hstays (List.mem_singleton.1 hj ▸ hbad)
      · refine (function_follows h hr s s' hs).bindUnless id fun f f' hf s s' hs => ?_
        have hnames : p'.functions.map FunDecl.name = p.functions.map FunDecl.name := by
          rw [← Program.functionNames_map unplaced, hp, Program.functionNames_map]
        have hname : f'.name = f.name := @congrArg (FunDecl Unit) _ _ _ FunDecl.name hf
        rw [hnames, hname]
        split
        · exact .fault _ _ _
        · refine ih n' ?_ hgood hs
          exact Program.map_eq_map_iff.2
            ⟨map_append_singleton hfunctions hf, herrors, htypes, hinterfaces⟩

end Programs

end Parse

/-! ## Texts -/

def ParseState.start (tokens : List Token) : ParseState where
  last := tokens.headD (Token.eofAt .start)
  rest := tokens
  scopes := [declaredNames tokens ++ builtins]
  skipped := []

section Texts

variable {place : Pos → Pos} {R : Parse.Alignment} {failure : Option ParseFailure}
  (departs : List (Member Span) → Prop) (h : Parse.Tracking place TokenKind.plain R)
  (hinterface : ∀ n n' s s', R s s' →
    Parse.FollowsUnless R failure (fun i => departs i.members) s s'
      (Parse.interface (.ofDepth n)) (Parse.interface (.ofDepth n'))
      (Parse.SameBy (Interface.map unplaced)))
  {tokens tokens' : List Token} (hended' : Ended tokens')
  (hstart : R (.start tokens) (.start tokens'))

include h hinterface hstart

theorem Parse.start_unless :
    FollowsUnless R failure (fun q => ∃ i ∈ q.interfaces, departs i.members) (.start tokens)
      (.start tokens') (declarations (.ofDepth tokens.length) tokens.length {})
      (declarations (.ofDepth tokens'.length) tokens'.length {}) (SameBy (Program.map unplaced)) :=
  declarations_unless h (Level.ofDepth_follows h _ _) (hinterface _ _) _ _ rfl (by simp) hstart

include hended'

/-- Readers of texts follow each other if those of interfaces do. -/
theorem Program.ofTokens_unless {r : Reading} (hr : Program.ofTokens tokens = .ok r) :
    (¬ (∃ i ∈ r.program.interfaces, departs i.members) ∧
      ∃ r' s s', Program.ofTokens tokens' = .ok r' ∧
        r'.program.map unplaced = r.program.map unplaced ∧ R s s' ∧
        (s.rest.headD s.last).kind = .eof ∧ r.skipped = s.skipped ∧ r'.skipped = s'.skipped) ∨
    ((∃ i ∈ r.program.interfaces, departs i.members) ∧
      ∀ e ∈ failure, Program.ofTokens tokens' = .error e) := by
  obtain ⟨⟨p, s⟩, hread, heq⟩ := except_bind_eq_ok hr
  cases heq
  obtain ⟨-, -, -, -, -, -, hend⟩ := (Program.declarations_takes {} (.start tokens)).ok hread
  rcases (Parse.start_unless departs h hinterface hstart).ok p s hread with
    hout | ⟨hgood, p', s', hread', hp, hs⟩ | ⟨-, hbad, hfail⟩
  · exact absurd (congrArg (· >>= _) hout) (Program.ofTokens_ne_outOfTokens hended')
  · exact .inl ⟨hgood, ⟨p', s'.skipped⟩, s, s', congrArg (· >>= _) hread', hp, hs, hend, rfl, rfl⟩
  · exact .inr ⟨hbad, fun e he => congrArg (· >>= _) (hfail e he)⟩

/-- In a strict comparison both texts are refused for the same reason. -/
theorem Program.ofTokens_refused (hR : R.strict) (hended : Ended tokens) {e : ParseFailure}
    (he : Program.ofTokens tokens = .error e) :
    ∃ e', Program.ofTokens tokens' = .error e' ∧ Parse.SameReason e e' := by
  cases hread : Parse.declarations (.ofDepth tokens.length) tokens.length {} (.start tokens) with
  | ok r =>
    have hok : Program.ofTokens tokens = .ok ⟨r.1, r.2.skipped⟩ := congrArg (· >>= _) hread
    cases hok.symm.trans he
  | error e₁ =>
    have herror : Program.ofTokens tokens = .error e₁ := congrArg (· >>= _) hread
    cases herror.symm.trans he
    rcases (Parse.start_unless departs h hinterface hstart).error hR _ hread with
      rfl | hout | ⟨e', he', hsame⟩
    · exact absurd he (Program.ofTokens_ne_outOfTokens hended)
    · exact absurd (congrArg (· >>= _) hout) (Program.ofTokens_ne_outOfTokens hended')
    · exact ⟨e', congrArg (· >>= _) he', hsame⟩

end Texts

end RaisingEffects
