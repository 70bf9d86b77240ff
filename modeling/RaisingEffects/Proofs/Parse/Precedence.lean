import RaisingEffects.Proofs.Parse.RoundTrip

/-!
# Operators without needless parentheses

An expression is written with the fewest parentheses: a left operand has them only where its
operator binds looser, a right operand also where it binds as tightly, and the operand of a unary
operator only where it has a binary operator (`Expr.renderings`; `and` and `or` may each be written
as a word or as a sign). Every such text is read back: `Expr.renderings_read`.

An expression is read together with the chain of operators that it stands in (`Parse.Climbs`).
-/

namespace RaisingEffects

variable {α : Type}

/-! ## Renderings -/

/-- The words that a binary operator may be written as. -/
def BinaryOp.spellings : BinaryOp → List Word
  | and => [.keyword .and_, .sign .both]
  | or => [.keyword .or_, .sign .either]
  | op => [op.word]

/-- How tightly an expression holds together. Without a binary operator, that is tightest. -/
def Expr.strength : Expr α → Nat
  | .binary op _ _ => op.precedence
  | _ => 7

theorem BinaryOp.precedence_le (op : BinaryOp) : op.precedence ≤ 6 := by
  cases op <;> decide

theorem Expr.strength_le (e : Expr α) : e.strength ≤ 7 := by
  cases e with
  | binary op left right => exact (BinaryOp.precedence_le op).trans (by omega)
  | _ => exact Nat.le_refl _

/-- The words of an operand, in parentheses if it is weaker than its place asks for. -/
def Expr.wrap (e : Expr α) (least : Nat) (ws : List Word) : List Word :=
  if e.strength < least then .sign .lparen :: (ws ++ [.sign .rparen]) else ws

mutual

/-- The ways to write an expression without closures with the fewest parentheses. -/
def Expr.renderings : Expr α → List (List Word)
  | .name _ id => [[.name id]]
  | .literal _ value => [value.words]
  | .call _ callee args =>
    (Expr.renderingsAll args).map fun items => .name callee :: Word.between .lparen .rparen items
  | .closure .. => []
  | .collection _ kind elements =>
    (Expr.renderingsAll elements).map fun items =>
      kind.words ++ Word.between .lbracket .rbracket items
  | .binary op left right =>
    (Expr.renderings left).flatMap fun ls => op.spellings.flatMap fun w =>
      (Expr.renderings right).map fun rs =>
        left.wrap op.precedence ls ++ w :: right.wrap (op.precedence + 1) rs
  | .unary op operand => (Expr.renderings operand).map fun ws => op.word :: operand.wrap 7 ws

/-- The ways to write each of the expressions. -/
def Expr.renderingsAll : List (Expr α) → List (List (List Word))
  | [] => [[]]
  | e :: es => (Expr.renderings e).flatMap fun ws => (Expr.renderingsAll es).map (ws :: ·)

end

mutual

/-- There is no closure in the expression. -/
def Expr.isPlain : Expr α → Bool
  | .name .. | .literal .. => true
  | .call _ _ args => Expr.isPlainAll args
  | .closure .. => false
  | .collection _ _ elements => Expr.isPlainAll elements
  | .binary _ left right => Expr.isPlain left && Expr.isPlain right
  | .unary _ operand => Expr.isPlain operand

/-- There is no closure in the expressions. -/
def Expr.isPlainAll : List (Expr α) → Bool
  | [] => true
  | e :: es => Expr.isPlain e && Expr.isPlainAll es

end

mutual

theorem Expr.exists_rendering : (e : Expr α) → e.isPlain = true → ∃ ws, ws ∈ e.renderings
  | .name .., _ | .literal .., _ => ⟨_, List.mem_singleton_self _⟩
  | .call _ _ args, h =>
    have ⟨_, hargs⟩ := Expr.exists_renderingAll args h
    ⟨_, List.mem_map_of_mem hargs⟩
  | .collection _ _ elements, h =>
    have ⟨_, helements⟩ := Expr.exists_renderingAll elements h
    ⟨_, List.mem_map_of_mem helements⟩
  | .binary op left right, h => by
    obtain ⟨hl, hr⟩ := Bool.and_eq_true_iff.1 h
    obtain ⟨ls, hls⟩ := Expr.exists_rendering left hl
    obtain ⟨rs, hrs⟩ := Expr.exists_rendering right hr
    have hop : op.word ∈ op.spellings := by cases op <;> exact List.mem_cons_self ..
    exact ⟨_, List.mem_flatMap.2 ⟨ls, hls, List.mem_flatMap.2 ⟨_, hop, List.mem_map_of_mem hrs⟩⟩⟩
  | .unary _ operand, h =>
    have ⟨_, hoperand⟩ := Expr.exists_rendering operand h
    ⟨_, List.mem_map_of_mem hoperand⟩

theorem Expr.exists_renderingAll :
    (es : List (Expr α)) → Expr.isPlainAll es = true → ∃ items, items ∈ Expr.renderingsAll es
  | [], _ => ⟨[], List.mem_singleton_self _⟩
  | e :: es, h => by
    obtain ⟨he, hes⟩ := Bool.and_eq_true_iff.1 h
    obtain ⟨ws, hws⟩ := Expr.exists_rendering e he
    obtain ⟨items, hitems⟩ := Expr.exists_renderingAll es hes
    exact ⟨_, List.mem_flatMap.2 ⟨ws, hws, List.mem_map_of_mem hitems⟩⟩

end

theorem Expr.exists_word_wrap {e : Expr α} {ws : List Word} (least : Nat)
    (h : ∃ w vs, ws = w :: vs ∧ w.kind.opensExpr = true) :
    ∃ w vs, e.wrap least ws = w :: vs ∧ w.kind.opensExpr = true := by
  unfold Expr.wrap
  split
  · exact ⟨_, _, rfl, rfl⟩
  · exact h

/-- A rendering starts with a word that opens an expression. -/
theorem Expr.exists_word_rendering (e : Expr α) {ws : List Word} (h : ws ∈ e.renderings) :
    ∃ w vs, ws = w :: vs ∧ w.kind.opensExpr = true := by
  cases e with
  | name loc id => exact ⟨_, _, List.mem_singleton.1 h, rfl⟩
  | literal loc value =>
    rw [List.mem_singleton.1 h]
    cases value with
    | bool b => cases b <;> exact ⟨_, _, rfl, rfl⟩
    | _ => exact ⟨_, _, rfl, rfl⟩
  | call loc callee args =>
    obtain ⟨items, -, rfl⟩ := List.mem_map.1 h
    exact ⟨_, _, rfl, rfl⟩
  | closure loc params clause body => cases h
  | collection loc kind elements =>
    obtain ⟨items, -, rfl⟩ := List.mem_map.1 h
    cases kind <;> exact ⟨_, _, rfl, rfl⟩
  | binary op left right =>
    obtain ⟨ls, hls, h⟩ := List.mem_flatMap.1 h
    obtain ⟨w, -, h⟩ := List.mem_flatMap.1 h
    obtain ⟨rs, -, rfl⟩ := List.mem_map.1 h
    obtain ⟨v, vs, hwrap, hv⟩ :=
      Expr.exists_word_wrap (e := left) op.precedence (Expr.exists_word_rendering left hls)
    exact ⟨v, _, by rw [hwrap, List.cons_append], hv⟩
  | unary op operand =>
    obtain ⟨ws, -, rfl⟩ := List.mem_map.1 h
    cases op <;> exact ⟨_, _, rfl, rfl⟩

namespace Parse

open TokenKind Sign Keyword
open Word (Fits)

variable {r : Level} {n b least : Nat} {sc : List (List String)} {e : Expr Unit}
  {ws more : List Word}

/-! ## Wrapped operands -/

/-- The words of the expression are read at the depth `n`. -/
structure Recovers (n : Nat) (sc : List (List String)) (e : Expr Unit) (ws : List Word) : Prop where
  climbs : Climbs e.strength (Level.ofDepth n) sc e ws
  unary : e.strength = 7 → ReadsUnary (Level.ofDepth n) sc e ws

theorem ReadsUnary.recovers (h : ReadsUnary (Level.ofDepth n) sc e ws) (he : e.strength = 7) :
    Recovers n sc e ws :=
  ⟨h.climbs he.le, fun _ => h⟩

theorem Recovers.reads (h : Recovers n sc e ws) (hmore : Behind 0 more) :
    Reads (Level.ofDepth (n + 1)).expr ⟨ws ++ more, sc⟩ ⟨more, sc⟩ (·.map unplaced = e) :=
  h.climbs.reads (Nat.zero_le _) hmore

theorem Recovers.parens (h : Recovers n sc e ws) :
    ReadsUnary (Level.ofDepth (n + 1)) sc e (.sign lparen :: (ws ++ [.sign rparen])) :=
  readsUnary_parens fun _ => h.reads (.of_closesExpr rfl)

/-- An operand, in parentheses where it needs them, is read at its place. -/
theorem Recovers.wrap (hfits : Fits (n + 1) (e.wrap least ws)) (hws : ws ∈ e.renderings)
    (h : ∀ {m}, Fits (m + 1) ws → Recovers m sc e ws) (hleast : least ≤ 7) :
    Climbs least (Level.ofDepth n) sc e (e.wrap least ws) ∧
      (least = 7 → ReadsUnary (Level.ofDepth n) sc e (e.wrap least ws)) := by
  by_cases hweak : e.strength < least
  · rw [Expr.wrap, if_pos hweak] at hfits ⊢
    obtain ⟨w, vs, rfl, -⟩ := e.exists_word_rendering hws
    obtain ⟨m, rfl⟩ := hfits.pred.left.exists_succ
    have hparens := (h hfits.pred.left).parens
    exact ⟨hparens.climbs hleast, fun _ => hparens⟩
  · rw [Expr.wrap, if_neg hweak] at hfits ⊢
    refine ⟨(h hfits).climbs.mono (by omega), fun htop => (h hfits).unary ?_⟩
    have := e.strength_le
    omega

theorem binaryOp?_of_mem_spellings {op : BinaryOp} {w : Word} (hw : w ∈ op.spellings) :
    binaryOp? w.kind = some op := by
  revert w
  cases op <;> decide

/-- Items of a list, which are read one after the other. -/
theorem items_reads (close : Sign) (hclose : (symbol close).closesExpr = true)
    (hcomma : close ≠ comma) (hopens : (symbol close).opensExpr = false) (more : List Word)
    {xs : List (Expr Unit × List Word)}
    (h : ∀ x ∈ xs, x.2 ∈ x.1.renderings ∧ Recovers n sc x.1 x.2) :
    Reads (listUntil close (Level.ofDepth (n + 1)).expr)
      ⟨Word.commas (xs.map Prod.snd) ++ .sign close :: more, sc⟩ ⟨more, sc⟩
      fun es => es.map (·.map unplaced) = xs.map Prod.fst := by
  have hitems : ReadsItems (Level.ofDepth (n + 1)).expr (·.map unplaced) Prod.fst Prod.snd close sc
      xs := by
    rintro x hx w ws (rfl | rfl)
    · exact (h x hx).2.reads (.of_closesExpr rfl)
    · exact (h x hx).2.reads (.of_closesExpr hclose)
  refine listUntil_reads close hcomma hitems (fun x hx => ?_) more
  obtain ⟨w, vs, hwords, hw⟩ := Expr.exists_word_rendering _ (h x hx).1
  exact ⟨w, vs, hwords, ne_of_holds hw hopens⟩

end Parse

open Parse Word

/-! ## Every rendering is read back -/

mutual

theorem Expr.recovers : (e : Expr Unit) → {n : Nat} → {sc : List (List String)} →
    {ws : List Word} → e.WellFormed sc.flatten → ws ∈ e.renderings → Fits (n + 1) ws →
      Recovers n sc e ws
  | .name _ id, n, sc, ws, he, hws, h => by
    rw [List.mem_singleton.1 hws]
    exact (readsUnary_name he).recovers rfl
  | .literal _ value, n, sc, ws, he, hws, h => by
    rw [List.mem_singleton.1 hws] at h ⊢
    exact (readsUnary_literal h.spelled).recovers rfl
  | .call _ callee args, n, sc, ws, he, hws, h => by
    obtain ⟨items, hitems, rfl⟩ := List.mem_map.1 hws
    obtain ⟨n, rfl⟩ := h.pred.exists_succ
    obtain ⟨xs, rfl, rfl, hxs⟩ := Expr.recoversAll args he.2 hitems fun ws hws => h.pred.between hws
    exact (readsUnary_call he.1 fun more =>
      items_reads .rparen rfl (by simp) rfl more hxs).recovers rfl
  | .collection _ kind elements, n, sc, ws, he, hws, h => by
    obtain ⟨items, hitems, rfl⟩ := List.mem_map.1 hws
    obtain ⟨n, rfl⟩ : ∃ m, n = m + 1 := by
      have := h.length
      refine ⟨n - 1, ?_⟩
      simp only [between, List.length_append, List.length_cons] at this
      omega
    obtain ⟨xs, rfl, rfl, hxs⟩ := Expr.recoversAll elements he hitems (CollectionKind.fits_items h)
    exact (readsUnary_collection kind fun more =>
      items_reads .rbracket rfl (by simp) rfl more hxs).recovers rfl
  | .binary op left right, n, sc, ws, he, hws, h => by
    obtain ⟨ls, hls, hws⟩ := List.mem_flatMap.1 hws
    obtain ⟨w, hw, hws⟩ := List.mem_flatMap.1 hws
    obtain ⟨rs, hrs, rfl⟩ := List.mem_map.1 hws
    have hle := op.precedence_le
    obtain ⟨hleft, -⟩ := Recovers.wrap h.left hls (Expr.recovers left he.1 hls) (by omega)
    -- a word of the left operand and the operator stand in front of the right operand
    obtain ⟨v, vs, hfirst, -⟩ :=
      Expr.exists_word_wrap (e := left) op.precedence (left.exists_word_rendering hls)
    rw [hfirst] at h
    obtain ⟨n, rfl⟩ := h.pred.right.exists_succ
    obtain ⟨hright, -⟩ :=
      Recovers.wrap h.pred.right.tail hrs (Expr.recovers right he.2 hrs) (by omega)
    refine ⟨climbs_binary (binaryOp?_of_mem_spellings hw) hleft hright, fun htop => ?_⟩
    simp only [Expr.strength] at htop
    omega
  | .unary op operand, n, sc, ws, he, hws, h => by
    obtain ⟨vs, hvs, rfl⟩ := List.mem_map.1 hws
    obtain ⟨v, _, hfirst, -⟩ :=
      Expr.exists_word_wrap (e := operand) 7 (operand.exists_word_rendering hvs)
    obtain ⟨n, rfl⟩ := (hfirst ▸ h.pred).exists_succ
    obtain ⟨-, hoperand⟩ :=
      Recovers.wrap h.pred hvs (Expr.recovers operand he hvs) (Nat.le_refl _)
    exact (hoperand rfl).unary.recovers rfl

theorem Expr.recoversAll : (es : List (Expr Unit)) → {n : Nat} → {sc : List (List String)} →
    {items : List (List Word)} → Expr.WellFormedAll sc.flatten es →
      items ∈ Expr.renderingsAll es → (∀ ws ∈ items, Fits (n + 1) ws) →
        ∃ xs : List (Expr Unit × List Word), xs.map Prod.fst = es ∧ xs.map Prod.snd = items ∧
          ∀ x ∈ xs, x.2 ∈ x.1.renderings ∧ Recovers n sc x.1 x.2
  | [], _, _, items, _, hitems, _ => by
    rw [List.mem_singleton.1 hitems]
    exact ⟨[], rfl, rfl, by simp⟩
  | e :: es, _, _, items, he, hitems, h => by
    obtain ⟨ws, hws, hitems⟩ := List.mem_flatMap.1 hitems
    obtain ⟨items, hrest, rfl⟩ := List.mem_map.1 hitems
    obtain ⟨hfit, hfits⟩ := List.forall_mem_cons.1 h
    obtain ⟨xs, hfst, hsnd, hxs⟩ := Expr.recoversAll es he.2 hrest hfits
    refine ⟨(e, ws) :: xs, by rw [List.map_cons, hfst], by rw [List.map_cons, hsnd], ?_⟩
    exact List.forall_mem_cons.2 ⟨⟨hws, Expr.recovers e he.1 hws hfit⟩, hxs⟩

end

/-- **Operators bind as their precedences say, and to the left.** An expression without closures,
whose names are known, can be written with the fewest parentheses. Every such rendering that can be
spelled is a text of its words, and where nothing behind it belongs to it, its words are read as
the expression. -/
theorem Expr.renderings_read {e : Expr Unit} {sc : List (List String)} (hplain : e.isPlain = true)
    (hknown : e.WellFormed sc.flatten) :
    (∃ ws, ws ∈ e.renderings) ∧ ∀ ws ∈ e.renderings, (∀ w ∈ ws, w.isSpelled = true) →
      (∃ ts, Token.readAll (String.ofList (Word.spell ws)) = .ok ts ∧ Spells ts ws) ∧
      ∀ more, Behind 0 more → ∀ n, ws.length ≤ n →
        Reads (Level.ofDepth n).expr ⟨ws ++ more, sc⟩ ⟨more, sc⟩ (·.map unplaced = e) := by
  refine ⟨e.exists_rendering hplain, fun ws hws hspelled => ⟨?_, fun more hmore n hn => ?_⟩⟩
  · rw [Token.readAll, String.toList_ofList]
    exact Token.readFrom_spell hspelled (Nat.le_refl _) .start
  · obtain ⟨w, vs, rfl, -⟩ := e.exists_word_rendering hws
    obtain ⟨n, rfl⟩ := (Fits.mk hn hspelled).exists_succ
    exact (Expr.recovers e hknown hws ⟨hn, hspelled⟩).reads hmore

/-- The expression `a - b - (b - a) * -a < b && not (a == b) || f(a)`. -/
def mixedChain : Expr Unit :=
  let a : Expr Unit := .name () "a"
  let b : Expr Unit := .name () "b"
  .binary .or
    (.binary .and
      (.binary .lt
        (.binary .sub (.binary .sub a b) (.binary .mul (.binary .sub b a) (.unary .neg a))) b)
      (.unary .not (.binary .eq a b)))
    (.call () "f" [a])

/-- The words of `mixedChain` with the fewest parentheses. -/
def mixedChainWords : List Word :=
  [.name "a", .sign .minus, .name "b", .sign .minus, .sign .lparen, .name "b", .sign .minus,
    .name "a", .sign .rparen, .sign .times, .sign .minus, .name "a", .sign .lt, .name "b",
    .sign .both, .keyword .not_, .sign .lparen, .name "a", .sign .eq, .name "b", .sign .rparen,
    .sign .either, .name "f", .sign .lparen, .name "a", .sign .rparen]

theorem Expr.renderings_read_mixedChain :
    mixedChainWords ∈ mixedChain.renderings ∧
      Reads (Level.ofDepth 26).expr ⟨mixedChainWords, [["a", "b", "f"]]⟩ ⟨[], [["a", "b", "f"]]⟩
        (·.map unplaced = mixedChain) := by
  have hknown : mixedChain.WellFormed [["a", "b", "f"]].flatten := by
    simp [mixedChain, Expr.WellFormed, Expr.WellFormedAll]
  have hread := (Expr.renderings_read (by decide) hknown).2 mixedChainWords (by decide) (by decide)
  exact ⟨by decide, hread.2 [] ⟨by decide, by decide, by decide⟩ 26 (by decide)⟩

end RaisingEffects
