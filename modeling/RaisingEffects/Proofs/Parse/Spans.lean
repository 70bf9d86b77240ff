import Mathlib.Logic.Relation
import RaisingEffects.Proofs.Parse.Laying
import RaisingEffects.Proofs.Token.Places

/-!
# Spans nest

The span of a node runs from the start of a token to the end of that token or a later one, and lies
within the span of the nearest node above that has one. The body of a function is the exception: it
starts where the span of the function has ended, since that span is of the signature only.

* `Program.Has p n`: the node is the program or lies below it.
* `Node.Under n m`: `m` lies below `n`, and no node between them has a span.

The main result is `Program.parse_spans`.
-/

namespace RaisingEffects

def Span.Within (s t : Span) : Prop := t.start ≤ s.start ∧ s.stop ≤ t.stop

/-- The node is the program or lies below it. -/
def Program.Has (p : Program Span) : Node Span → Prop :=
  Relation.ReflTransGen (fun n m => m ∈ n.parts) (.program p)

/-- The second node lies below the first, and the nodes between them have no span. -/
inductive Node.Under (n : Node Span) : Node Span → Prop
  | part {m : Node Span} (hm : m ∈ n.parts) : Under n m
  | through {k m : Node Span} (h : Under n k) (hk : k.loc? = none) (hm : m ∈ k.parts) : Under n m

def Node.HasBody (n m : Node Span) : Prop := ∃ g, n = .function g ∧ m = .block g.body

/-! ## Stretches of tokens -/

/-- The stretch of a node is made of tokens at two places of the list. -/
theorem Token.extent_of_infix {t : Token} {behind ts : List Token} (h : (t :: behind) <:+: ts) :
    ∃ (i j : Nat) (first last : Token), i ≤ j ∧ ts[i]? = some first ∧ ts[j]? = some last ∧
      t.extent behind = ⟨first.span.start, last.span.stop⟩ := by
  obtain ⟨us, vs, rfl⟩ := h
  refine ⟨us.length, us.length + behind.length, t, behind.getLastD t, by omega, ?_, ?_, rfl⟩
  · simp
  · have hlast : (t :: behind)[behind.length]? = some (behind.getLastD t) := by
      cases behind with
      | nil => rfl
      | cons u behind => simp [List.getLastD_eq_getLast?, List.getLast?_eq_getElem?]
    rw [List.append_assoc, List.getElem?_append_right (by omega), Nat.add_sub_cancel_left,
      List.getElem?_append_left (by simp), hlast]

namespace Token.Ordered

variable {ts behind behind' : List Token} {t t' : Token}

/-- A stretch within another, behind its first token. -/
theorem extent_within (h : Ordered (t :: behind)) (hin : (t' :: behind') <:+: behind) :
    (t'.extent behind').Within (t.extent behind) := by
  have hsub : (t' :: behind') ⊆ behind := hin.subset
  have hlast : behind'.getLastD t' ∈ t' :: behind' := List.getLastD_mem_cons
  refine ⟨?_, ?_⟩
  · have hlt := (List.pairwise_cons.1 h.start_lt_start).1 t' (hsub (by simp))
    exact hlt.le
  · exact (h.sublist (List.sublist_cons_self ..)).stop_le_last (hsub hlast) t

/-- A stretch behind another. -/
theorem extent_before {signature body : List Token} (h : Ordered (t :: (signature ++ body)))
    (hin : (t' :: behind') <:+: body) :
    (t.extent signature).stop ≤ (t'.extent behind').start := by
  have hlast : signature.getLastD t ∈ t :: signature := List.getLastD_mem_cons
  have hpairs : ((t :: signature) ++ body).Pairwise fun t u => t.span.stop ≤ u.span.start :=
    h.stop_le_start
  exact (List.pairwise_append.1 hpairs).2.2 _ hlast t' (hin.subset (by simp))

end Token.Ordered

/-! ## Nodes under nodes -/

namespace Node.Nests

variable {ts : List Token} {n m : Node Span}

/-- What is below a node without a span lies in the same tokens. -/
theorem part_of_none (h : n.Nests ts) (hloc : n.loc? = none) (hm : m ∈ n.parts) : m.Nests ts := by
  cases h with
  | spanned _ _ hsome => simp [hloc] at hsome
  | plain _ h => exact h m hm
  | function => cases hloc

/-- The parts of a function belong to its signature, or are its body. -/
theorem mem_parts_function {g : FunDecl Span} (hm : m ∈ (Node.function g).parts) :
    m ∈ g.signatureParts ∨ m = .block g.body := by
  simp only [Node.parts, Node.params, Node.children, FunDecl.signatureParts, List.mem_append,
    List.mem_cons] at hm ⊢
  tauto

theorem part (h : n.Nests ts) (hm : m ∈ n.parts) : m.Nests ts := by
  cases h with
  | spanned hts _ _ h => exact (h m hm).mono ((List.suffix_cons ..).isInfix.trans hts)
  | plain _ h => exact h m hm
  | @function _ signature body t g hts _ hsignature hbody =>
    rcases mem_parts_function hm with hm | rfl
    · refine (hsignature m hm).mono (List.IsInfix.trans ?_ hts)
      exact ⟨[t], body, by simp⟩
    · refine hbody.mono (List.IsInfix.trans ?_ hts)
      exact ⟨t :: signature, [], by simp⟩

/-- The span of a node is a stretch of the tokens. -/
theorem exists_extent (h : n.Nests ts) {loc : Span} (hloc : n.loc? = some loc) :
    ∃ t behind, (t :: behind) <:+: ts ∧ loc = t.extent behind := by
  cases h with
  | spanned hts _ hsome =>
    rw [hloc] at hsome
    exact ⟨_, _, hts, Option.some.inj hsome⟩
  | plain hnone => simp [hnone] at hloc
  | @function _ signature body t g hts heq =>
    refine ⟨t, signature, List.IsInfix.trans ?_ hts, (Option.some.inj hloc).symm.trans heq⟩
    exact ⟨[], body, by simp⟩

/-- What stands under a node lies behind its first token, but the body of a function does not. -/
theorem of_under {behind : List Token} (h : ∀ k ∈ n.parts, k.Nests behind ∨ n.HasBody k)
    (hm : n.Under m) : m.Nests behind ∨ n.HasBody m := by
  induction hm with
  | part hm => exact h _ hm
  | through _ hk hm ih =>
    rcases ih with ih | ⟨g, -, rfl⟩
    · exact .inl (ih.part_of_none hk hm)
    · cases hk

theorem under_within (h : n.Nests ts) (hts : Token.Ordered ts) (hm : n.Under m) {s s' : Span}
    (hs : n.loc? = some s) (hs' : m.loc? = some s') :
    (n.HasBody m → s.stop ≤ s'.start) ∧ (¬ n.HasBody m → s'.Within s) := by
  cases h with
  | @spanned _ behind t _ hin hn hloc h =>
    cases hs.symm.trans hloc
    have hno : ¬ n.HasBody m := by
      rintro ⟨g, rfl, -⟩
      cases hn
    have hbelow := (of_under (fun k hk => .inl (h k hk)) hm).resolve_right hno
    obtain ⟨t', behind', hin', rfl⟩ := hbelow.exists_extent hs'
    exact ⟨fun hyes => absurd hyes hno, fun _ => (hts.sublist hin.sublist).extent_within hin'⟩
  | plain hnone => simp [hnone] at hs
  | @function _ signature body t g hin hloc hsignature hbody =>
    have hordered := hts.sublist hin.sublist
    obtain rfl : s = t.extent signature := (Option.some.inj hs).symm.trans hloc
    refine ⟨?_, fun hno => ?_⟩
    · rintro ⟨g', hg, rfl⟩
      cases hg
      obtain ⟨t', behind', hin', rfl⟩ := hbody.exists_extent hs'
      exact hordered.extent_before hin'
    · have hparts (k : Node Span) (hk : k ∈ (Node.function g).parts) :
          k.Nests signature ∨ (Node.function g).HasBody k := by
        rcases mem_parts_function hk with hk | rfl
        · exact .inl (hsignature k hk)
        · exact .inr ⟨g, rfl, rfl⟩
      have hbelow := (of_under hparts hm).resolve_right hno
      obtain ⟨t', behind', hin', rfl⟩ := hbelow.exists_extent hs'
      have hsub : (t :: signature).Sublist (t :: (signature ++ body)) := by simp
      exact (hordered.sublist hsub).extent_within hin'

end Node.Nests

theorem Program.Has.nests {p : Program Span} {n : Node Span} {ts : List Token} (h : p.Has n)
    (hp : (Node.program p).Nests ts) : n.Nests ts := by
  induction h with
  | refl => exact hp
  | tail _ hm ih => exact ih.part hm

/-- The tokens of a text but for the end mark, in which the program that is read from it lies. -/
theorem Program.exists_laid {source : String} {r : Reading} (h : Program.parse source = .ok r) :
    ∃ tokens stop, Token.readAll source = .ok (tokens ++ [Token.eofAt stop]) ∧ r.Laid tokens := by
  rw [Program.parse] at h
  split at h
  · rename_i tokens htokens
    obtain ⟨used, rest, hsplit, hrest, hlaid⟩ :=
      Program.ofTokens_laid (Token.readAll_ended htokens) h
    obtain ⟨before, stop, rfl, -⟩ := Token.exists_written htokens
    refine ⟨before, stop, htokens, hlaid.mono ?_⟩
    rcases List.prefix_concat_iff.1 ⟨rest, hsplit.symm⟩ with hall | hsome
    · rw [hall, List.self_eq_append_right] at hsplit
      exact absurd hsplit hrest.ne_nil
    · exact hsome
  · cases h

/-- **Spans nest.** In a program that is read from a text, the span of a node runs from the start of
a token to the end of that token or of a later one, neither of them the end mark. A node under it,
with no span between the two, lies within its span. Only the body of a function does not: it starts
where the span of the function has ended. -/
theorem Program.parse_spans {source : String} {r : Reading} (h : Program.parse source = .ok r) :
    ∃ tokens stop, Token.readAll source = .ok (tokens ++ [Token.eofAt stop]) ∧
      ∀ n s, r.program.Has n → n.loc? = some s →
        (∃ (i j : Nat) (first last : Token), i ≤ j ∧ tokens[i]? = some first ∧
          tokens[j]? = some last ∧ s = ⟨first.span.start, last.span.stop⟩) ∧
        ∀ m s', n.Under m → m.loc? = some s' →
          (n.HasBody m → s.stop ≤ s'.start) ∧ (¬ n.HasBody m → s'.Within s) := by
  obtain ⟨tokens, stop, htokens, hlaid⟩ := Program.exists_laid h
  have hordered := (Token.readAll_ordered htokens).sublist (List.sublist_append_left ..)
  refine ⟨tokens, stop, htokens, fun n s hn hs => ?_⟩
  have hnests : n.Nests tokens := hn.nests hlaid.nests
  refine ⟨?_, fun m s' hm hs' => hnests.under_within hordered hm hs hs'⟩
  obtain ⟨t, behind, hin, rfl⟩ := hnests.exists_extent hs
  exact Token.extent_of_infix hin

/-- A body on a line of its own, and a call behind operators in the test of a conditional, which
have no spans. -/
def spansSource : String := "fn f(g: fn() raises(E)) raises
\x7b if not (g)(|x| x) + 1 \x7b g(); \x7d \x7d
error E;"

theorem Program.parse_spans_nested :
    ∃ r tokens stop, Program.parse spansSource = .ok r ∧
      Token.readAll spansSource = .ok (tokens ++ [Token.eofAt stop]) ∧
      (r.program.nodes.filterMap Node.loc?).take 5 =
        [⟨⟨1, 1⟩, ⟨1, 31⟩⟩, ⟨⟨1, 9⟩, ⟨1, 23⟩⟩, ⟨⟨1, 14⟩, ⟨1, 23⟩⟩, ⟨⟨1, 25⟩, ⟨1, 31⟩⟩,
          ⟨⟨2, 1⟩, ⟨2, 35⟩⟩] ∧
      ∀ n s, r.program.Has n → n.loc? = some s →
        (∃ (i j : Nat) (first last : Token), i ≤ j ∧ tokens[i]? = some first ∧
          tokens[j]? = some last ∧ s = ⟨first.span.start, last.span.stop⟩) ∧
        ∀ m s', n.Under m → m.loc? = some s' →
          (n.HasBody m → s.stop ≤ s'.start) ∧ (¬ n.HasBody m → s'.Within s) := by
  obtain ⟨r, hr, hlocs⟩ := Program.exists_reading spansSource (fun r =>
    (r.program.nodes.filterMap Node.loc?).take 5 =
      [⟨⟨1, 1⟩, ⟨1, 31⟩⟩, ⟨⟨1, 9⟩, ⟨1, 23⟩⟩, ⟨⟨1, 14⟩, ⟨1, 23⟩⟩, ⟨⟨1, 25⟩, ⟨1, 31⟩⟩,
        ⟨⟨2, 1⟩, ⟨2, 35⟩⟩]) rfl (by decide +kernel)
  obtain ⟨tokens, stop, htokens, hspans⟩ := Program.parse_spans hr
  exact ⟨r, tokens, stop, hr, htokens, hlocs, hspans⟩

end RaisingEffects
