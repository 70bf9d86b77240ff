import RaisingEffects.Proofs.Forwarding.Places
import RaisingEffects.Proofs.Verdict.Run

/-!
# Renamed variables in forwarding functions

The variables of a body are those of its `let`s, loops, handlers and closures. `Block.renamed`
compares a body with one in which some of them have other names: every occurrence has to refer to
the same variable in both, or to the same name from outside.

Raise paths and raises are found by their names alone, so the call of a variable that shadows a
forwarded parameter is taken for a call of the parameter, and the raise of one that shadows the
variable of a handler around it for a raise of the caught value
(`Forwarding.renaming_changes_rule`). A renaming under which, outside closures, no call and no raise
becomes such a one or ceases to be one keeps the rule of the function, what the rule gives and the
raise paths (`Forwarding.ofFunction_renamed`).
-/

namespace RaisingEffects

/-! ## Names on both sides -/

/-- The names of a body and of its renamed form. -/
structure Renaming where
  /-- The variables in scope with their new names, the innermost first. -/
  links : List (String × String)
  /-- The names whose calls are looked for. -/
  called : List String := []
  /-- The variables whose raises are looked for, with their new names. -/
  caught : List (String × String) := []
  /-- Whether raises of the variables of handlers are looked for. -/
  catches : Bool := false

namespace Renaming

/-- Whether two occurrences refer to the same variable, or to the same name from outside. -/
def linked : List (String × String) → String → String → Bool
  | [], x, y => x = y
  | l :: ls, x, y => if x = l.1 ∨ y = l.2 then x = l.1 ∧ y = l.2 else linked ls x y

/-- Whether calls are alike: if one of them is looked for, both are calls of the same name. -/
def callsAlike (r : Renaming) (x y : String) : Bool := x ∈ r.called ∨ y ∈ r.called → x = y

/-- Whether raises are alike: they are taken for raises of the same variables. -/
def raisesAlike (r : Renaming) (e e' : Expr Span) : Bool :=
  r.caught.all fun w => (e.name? = some w.1) == (e'.name? = some w.2)

/-- The names in the scope of a variable. -/
def bind (r : Renaming) (x y : String) : Renaming := { r with links := (x, y) :: r.links }

/-- The names in a handler with a variable. -/
def catching (r : Renaming) (x y : String) : Renaming :=
  { r.bind x y with caught := if r.catches then (x, y) :: r.caught else r.caught }

/-- The names in a closure, where nothing is looked for. -/
def enter (r : Renaming) (ps qs : List (Param Span)) : Renaming :=
  { links := (ps.zip qs).map (fun p => (p.1.name, p.2.name)) ++ r.links }

/-- The names at the start of a body, where calls of the given ones and raises of the variables of
handlers are looked for. -/
def watching (names : List String) : Renaming := { links := [], called := names, catches := true }

/-- The names behind a statement in its block. -/
def after (r : Renaming) : Stmt Span → Stmt Span → Renaming
  | .let_ _ x _ _ _, .let_ _ y _ _ _ => r.bind x y
  | _, _ => r

end Renaming

/-! ## Renamed bodies -/

mutual

/-- Whether an expression is a renamed form of another. Their calls stand at the same places. -/
def Expr.renamed (r : Renaming) : Expr Span → Expr Span → Bool
  | .name _ x, .name _ y => Renaming.linked r.links x y
  | .literal _ v, .literal _ w => v = w
  | .call span x es, .call span' y es' =>
    span = span' && Renaming.linked r.links x y && r.callsAlike x y && Expr.renamedAll r es es'
  | .closure _ ps _ body, .closure _ qs _ body' =>
    ps.length = qs.length && Body.renamed (r.enter ps qs) body body'
  | .collection _ kind es, .collection _ kind' es' => kind = kind' && Expr.renamedAll r es es'
  | .binary op e₁ e₂, .binary op' e₁' e₂' =>
    op = op' && Expr.renamed r e₁ e₁' && Expr.renamed r e₂ e₂'
  | .unary op e, .unary op' e' => op = op' && Expr.renamed r e e'
  | _, _ => false
termination_by structural x => x

def Expr.renamedAll (r : Renaming) : List (Expr Span) → List (Expr Span) → Bool
  | [], [] => true
  | e :: es, e' :: es' => Expr.renamed r e e' && Expr.renamedAll r es es'
  | _, _ => false
termination_by structural x => x

def Body.renamed (r : Renaming) : Body Span → Body Span → Bool
  | .block b, .block b' => Block.renamed r b b'
  | .expr e, .expr e' => Expr.renamed r e e'
  | _, _ => false
termination_by structural x => x

def Block.renamed (r : Renaming) : Block Span → Block Span → Bool
  | .mk _ ss, .mk _ ss' => Stmt.renamedAll r ss ss'
termination_by structural x => x

def Stmt.renamed (r : Renaming) : Stmt Span → Stmt Span → Bool
  | .let_ _ _ m _ e, .let_ _ _ m' _ e' => m = m' && Expr.renamed r e e'
  | .assign _ x e, .assign _ y e' => Renaming.linked r.links x y && Expr.renamed r e e'
  | .return_ _ none, .return_ _ none => true
  | .return_ _ (some e), .return_ _ (some e') => Expr.renamed r e e'
  | .raise _ e, .raise _ e' => r.raisesAlike e e' && Expr.renamed r e e'
  | .try_ _ b none handler, .try_ _ b' none handler' =>
    Block.renamed r b b' && Block.renamed r handler handler'
  | .try_ _ b (some x) handler, .try_ _ b' (some y) handler' =>
    Block.renamed r b b' && Block.renamed (r.catching x y) handler handler'
  | .insert _ x how e, .insert _ y how' e' =>
    how = how' && Renaming.linked r.links x y && Expr.renamed r e e'
  | .for_ x e b, .for_ y e' b' => Expr.renamed r e e' && Block.renamed (r.bind x y) b b'
  | .while_ e b, .while_ e' b' => Expr.renamed r e e' && Block.renamed r b b'
  | .if_ e b rest, .if_ e' b' rest' =>
    Expr.renamed r e e' && Block.renamed r b b' && Else.renamed r rest rest'
  | .expr e, .expr e' => Expr.renamed r e e'
  | _, _ => false
termination_by structural x => x

def Stmt.renamedAll (r : Renaming) : List (Stmt Span) → List (Stmt Span) → Bool
  | [], [] => true
  | s :: ss, s' :: ss' => Stmt.renamed r s s' && Stmt.renamedAll (r.after s s') ss ss'
  | _, _ => false
termination_by structural x => x

def Else.renamed (r : Renaming) : Else Span → Else Span → Bool
  | .none, .none => true
  | .block b, .block b' => Block.renamed r b b'
  | .elif e b rest, .elif e' b' rest' =>
    Expr.renamed r e e' && Block.renamed r b b' && Else.renamed r rest rest'
  | _, _ => false
termination_by structural x => x

end

/-! ## What is found in them -/

namespace Renaming

/-- Calls of the names are looked for, and raises of the variables of handlers. -/
structure Watches (r : Renaming) (names : List String) : Prop where
  called : r.called = names
  catches : r.catches = true

variable {r : Renaming} {names : List String} {x y : String} (h : r.Watches names)

include h

theorem Watches.bind : (r.bind x y).Watches names := ⟨h.called, h.catches⟩

theorem Watches.catching : (r.catching x y).Watches names := ⟨h.called, h.catches⟩

theorem Watches.catching_caught : (r.catching x y).caught = (x, y) :: r.caught :=
  if_pos h.catches

theorem Watches.after (s s' : Stmt Span) :
    (r.after s s').Watches names ∧ (r.after s s').caught = r.caught := by
  unfold Renaming.after
  split
  · exact ⟨h.bind, rfl⟩
  · exact ⟨h, rfl⟩

end Renaming

section Found

variable {r : Renaming} {names : List String}

mutual

theorem Expr.raisePaths_renamed (hr : r.Watches names) (c : Bool) : (e e' : Expr Span) →
    e.renamed r e' → e'.raisePaths names c = e.raisePaths names c
  | .name .., .name .., _ | .literal .., .literal .., _ | .closure .., .closure .., _ => rfl
  | .call span x es, .call span' y es', h => by
    simp only [Expr.renamed, Bool.and_eq_true, decide_eq_true_eq] at h
    obtain ⟨⟨⟨rfl, -⟩, hxy⟩, hes⟩ := h
    rw [Expr.raisePaths, Expr.raisePaths, Expr.raisePathsAll_renamed hr c es es' hes]
    rw [Renaming.callsAlike, hr.called, decide_eq_true_eq] at hxy
    by_cases hfound : x ∈ names ∨ y ∈ names
    · rw [hxy hfound]
    · rw [not_or] at hfound
      rw [if_neg hfound.1, if_neg hfound.2]
  | .collection _ _ es, .collection _ _ es', h =>
    Expr.raisePathsAll_renamed hr c es es' (Bool.and_eq_true_iff.1 h).2
  | .binary _ e₁ e₂, .binary _ e₁' e₂', h => by
    simp only [Expr.renamed, Bool.and_eq_true] at h
    rw [Expr.raisePaths, Expr.raisePaths, Expr.raisePaths_renamed hr c e₁ e₁' h.1.2,
      Expr.raisePaths_renamed hr c e₂ e₂' h.2]
  | .unary _ e, .unary _ e', h => Expr.raisePaths_renamed hr c e e' (Bool.and_eq_true_iff.1 h).2

theorem Expr.raisePathsAll_renamed (hr : r.Watches names) (c : Bool) : (es es' : List (Expr Span)) →
    Expr.renamedAll r es es' → Expr.raisePathsAll names c es' = Expr.raisePathsAll names c es
  | [], [], _ => rfl
  | e :: es, e' :: es', h => by
    rw [Expr.renamedAll, Bool.and_eq_true] at h
    rw [Expr.raisePathsAll, Expr.raisePathsAll, Expr.raisePaths_renamed hr c e e' h.1,
      Expr.raisePathsAll_renamed hr c es es' h.2]

end

/-- What is looked for is found alike in a part and in its renamed form. -/
structure Renaming.Finds (r : Renaming) (again again' : String → Bool)
    (paths paths' : Bool → List RaisePath) : Prop where
  again : ∀ w ∈ r.caught, again' w.2 = again w.1
  paths : ∀ c, paths' c = paths c

/-- What is found in one part, or in another one behind it. -/
theorem Renaming.Finds.or {f f' g g' : String → Bool} {p p' q q' : Bool → List RaisePath}
    (h₁ : r.Finds f f' p p') (h₂ : r.Finds g g' q q') :
    r.Finds (fun x => f x || g x) (fun x => f' x || g' x) (fun c => p c ++ q c)
      fun c => p' c ++ q' c where
  again w hw := congrArg₂ Bool.or (h₁.again w hw) (h₂.again w hw)
  paths c := congrArg₂ List.append (h₁.paths c) (h₂.paths c)

variable (hr : r.Watches names)

include hr

theorem Expr.finds_value {e e' : Expr Span} (h : e.renamed r e') :
    r.Finds (fun _ => false) (fun _ => false) (e.raisePaths names) (e'.raisePaths names) :=
  ⟨fun _ _ => rfl, fun c => Expr.raisePaths_renamed hr c e e' h⟩

theorem Stmt.raise_finds (loc loc' : Span) {e e' : Expr Span} (halike : r.raisesAlike e e')
    (h : e.renamed r e') :
    r.Finds (Stmt.raisesAgain · (.raise loc e)) (Stmt.raisesAgain · (.raise loc' e'))
      (e.raisePaths names) (e'.raisePaths names) where
  again w hw := (eq_of_beq (List.all_eq_true.1 halike w hw)).symm
  paths c := Expr.raisePaths_renamed hr c e e' h

omit hr

mutual

theorem Block.renamed_finds (r : Renaming) (hr : r.Watches names) : (b b' : Block Span) →
    b.renamed r b' → r.Finds (Block.raisesAgain · b) (Block.raisesAgain · b')
      (Block.raisePathsFrom names · b) (Block.raisePathsFrom names · b')
  | .mk _ ss, .mk _ ss', h => Stmt.renamedAll_finds r hr ss ss' h

theorem Stmt.renamed_finds (r : Renaming) (hr : r.Watches names) : (s s' : Stmt Span) →
    s.renamed r s' → r.Finds (Stmt.raisesAgain · s) (Stmt.raisesAgain · s')
      (Stmt.raisePaths names · s) (Stmt.raisePaths names · s')
  | .let_ .., .let_ .., h | .assign .., .assign .., h | .insert .., .insert .., h =>
    Expr.finds_value hr (Bool.and_eq_true_iff.1 h).2
  | .return_ _ none, .return_ _ none, _ => ⟨fun _ _ => rfl, fun _ => rfl⟩
  | .return_ _ (some _), .return_ _ (some _), h => Expr.finds_value hr h
  | .raise loc _, .raise loc' _, h =>
    have h := Bool.and_eq_true_iff.1 h
    Stmt.raise_finds hr loc loc' h.1 h.2
  | .try_ _ b none handler, .try_ _ b' none handler', h => by
    rw [Stmt.renamed, Bool.and_eq_true] at h
    have hb := Block.renamed_finds r hr b b' h.1
    exact .or ⟨hb.again, fun _ => hb.paths _⟩ (Block.renamed_finds r hr handler handler' h.2)
  | .try_ _ b (some x) handler, .try_ _ b' (some y) handler', h => by
    rw [Stmt.renamed, Bool.and_eq_true] at h
    have hb := Block.renamed_finds r hr b b' h.1
    have hh := Block.renamed_finds _ hr.catching handler handler' h.2
    have hcaught := hr.catching_caught (x := x) (y := y)
    have hagain : rethrows (some y) handler' = rethrows (some x) handler :=
      hh.again (x, y) (hcaught ▸ List.mem_cons_self)
    refine .or ⟨hb.again, fun c => ?_⟩ ⟨fun w hw => hh.again w (hcaught ▸ .tail _ hw), hh.paths⟩
    rw [hagain, hb.paths]
  | .for_ x e b, .for_ y e' b', h => by
    rw [Stmt.renamed, Bool.and_eq_true] at h
    have hb := Block.renamed_finds _ hr.bind b b' h.2
    exact (Expr.finds_value hr h.1).or ⟨hb.again, hb.paths⟩
  | .while_ e b, .while_ e' b', h => by
    rw [Stmt.renamed, Bool.and_eq_true] at h
    exact (Expr.finds_value hr h.1).or (Block.renamed_finds r hr b b' h.2)
  | .if_ e b rest, .if_ e' b' rest', h => by
    simp only [Stmt.renamed, Bool.and_eq_true] at h
    exact ((Expr.finds_value hr h.1.1).or (Block.renamed_finds r hr b b' h.1.2)).or
      (Else.renamed_finds r hr rest rest' h.2)
  | .expr _, .expr _, h => Expr.finds_value hr h

theorem Stmt.renamedAll_finds (r : Renaming) (hr : r.Watches names) : (ss ss' : List (Stmt Span)) →
    Stmt.renamedAll r ss ss' → r.Finds (Stmt.anyRaisesAgain · ss) (Stmt.anyRaisesAgain · ss')
      (Stmt.raisePathsAll names · ss) (Stmt.raisePathsAll names · ss')
  | [], [], _ => ⟨fun _ _ => rfl, fun _ => rfl⟩
  | s :: ss, s' :: ss', h => by
    rw [Stmt.renamedAll, Bool.and_eq_true] at h
    obtain ⟨hafter, hcaught⟩ := hr.after s s'
    have hs := Stmt.renamed_finds r hr s s' h.1
    have hss := Stmt.renamedAll_finds _ hafter ss ss' h.2
    exact hs.or ⟨fun w hw => hss.again w (hcaught ▸ hw), hss.paths⟩

theorem Else.renamed_finds (r : Renaming) (hr : r.Watches names) : (t t' : Else Span) →
    t.renamed r t' → r.Finds (Else.raisesAgain · t) (Else.raisesAgain · t')
      (Else.raisePaths names · t) (Else.raisePaths names · t')
  | .none, .none, _ => ⟨fun _ _ => rfl, fun _ => rfl⟩
  | .block b, .block b', h => Block.renamed_finds r hr b b' h
  | .elif e b rest, .elif e' b' rest', h => by
    simp only [Else.renamed, Bool.and_eq_true] at h
    exact ((Expr.finds_value hr h.1.1).or (Block.renamed_finds r hr b b' h.1.2)).or
      (Else.renamed_finds r hr rest rest' h.2)

end

end Found

/-! ## Renamed functions -/

/-- Whether a function has the same signature as another, places apart, and a renamed form of its
body. -/
def FunDecl.renamed (place : Pos → Pos) (r : Renaming) (g g' : FunDecl Span) : Bool :=
  g'.name = g.name && g'.params.map Param.name = g.params.map Param.name &&
    g'.forwards = g.forwards && g'.clause.map Clause.types = g.clause.map Clause.types &&
    g'.loc = g.loc.move place &&
    Block.renamed r (g.body.map (Span.move place)) g'.body

namespace Forwarding

/-- The effect that the rule of a function gives. -/
def outcome (g : FunDecl Span) (effects : Table Effect) : Except Violation Effect := do
  (← ofFunction g effects).resolve effects

/-- **A renamed function forwards as before.** Its raise paths, its rule, and the effect or the
violation that the rule gives are the same, each at its new place. -/
theorem ofFunction_renamed (place : Pos → Pos) (g g' : FunDecl Span)
    (h : g.renamed place (.watching g.forwards) g') (effects : Table Effect) :
    g'.body.raisePaths g'.forwards = (g.body.raisePaths g.forwards).map (RaisePath.move place) ∧
    ofFunction g' effects =
      ((ofFunction g effects).map (Forwarding.move place)).mapError (Violation.move place) ∧
    outcome g' effects = (outcome g effects).mapError (Violation.move place) := by
  simp only [FunDecl.renamed, Bool.and_eq_true, decide_eq_true_eq] at h
  obtain ⟨⟨⟨⟨⟨hname, hparams⟩, hforwards⟩, hclause⟩, hloc⟩, hbody⟩ := h
  have hpaths : g'.body.raisePaths g.forwards =
      (g.body.map (Span.move place)).raisePaths g.forwards :=
    (Block.renamed_finds _ ⟨rfl, rfl⟩ _ _ hbody).paths false
  have hposition (n : String) : g'.params.findIdx (fun p => p.name = n) =
      g.params.findIdx (fun p => p.name = n) := by
    simpa [List.findIdx_map, Function.comp_def] using congrArg (List.findIdx (· = n)) hparams
  have htarget : (g'.clause.bind fun c => c.types.head?) =
      g.clause.bind fun c => c.types.head? := by
    simpa [Option.bind_map, Function.comp_def] using congrArg (Option.bind · List.head?) hclause
  have hrule : ofFunction g' effects =
      ((ofFunction g effects).map (Forwarding.move place)).mapError (Violation.move place) := by
    rw [← ofFunction_move]
    simp only [ofFunction, hname, hforwards, hposition, htarget, hloc, hpaths, FunDecl.map,
      List.findIdx_map, Option.bind_map]
    rfl
  rw [hforwards]
  refine ⟨hpaths.trans (Block.raisePathsFrom_move ..), hrule, ?_⟩
  rw [outcome, outcome, hrule]
  cases ofFunction g effects with
  | error v => rfl
  | ok f => exact f.resolve_move place effects

/-- A function with a variable of each kind. -/
def shortSource : String := "fn f(g: fn(int) raises(X)) forwards(g) raises(E) \x7b
  let a = |x| x;
  try \x7b for i in [g] \x7b a(g(i)); \x7d \x7d catch e \x7b \x7d
  try \x7b g(1); \x7d catch e \x7b raise e; \x7d \x7d"

def longSource : String := "fn f(g: fn(int) raises(X)) forwards(g) raises(E) \x7b
  let alpha = |g| g;
  try \x7b for item in [g] \x7b alpha(g(item)); \x7d \x7d catch g \x7b \x7d
  try \x7b g(1); \x7d catch err \x7b raise err; \x7d \x7d"

/-- Where the positions of calls in the first are in the second. -/
def lengthened (p : Pos) : Pos :=
  ⟨p.line, p.column +
    if p.line = 3 then if p.column ≤ 24 then 3 else if p.column ≤ 28 then 7 else 10
    else if p.line = 4 ∧ 20 < p.column then 4 else 0⟩

def firsts (a b : Except ParseFailure Reading) : Option (FunDecl Span × FunDecl Span) := do
  return (← (← a.toOption).program.functions.head?, ← (← b.toOption).program.functions.head?)

set_option maxRecDepth 8192 in
theorem renamed_longSource : ((firsts (Program.parse shortSource) (Program.parse longSource)).map
    fun p => p.1.renamed lengthened (.watching p.1.forwards) p.2) = some true := by
  rw [Program.parse_eq_ofChars shortSource rfl, Program.parse_eq_ofChars longSource rfl]
  decide +kernel

theorem ofFunction_renamed_longSource :
    let effects : Table Effect := .ofEntries [("g", .raises "X")]
    ∃ g g', firsts (Program.parse shortSource) (Program.parse longSource) = some (g, g') ∧
      g.renamed lengthened (.watching g.forwards) g' ∧
      g'.body.raisePaths g'.forwards =
        (g.body.raisePaths g.forwards).map (RaisePath.move lengthened) ∧
      ofFunction g' effects = ((ofFunction g effects).map (Forwarding.move lengthened)).mapError
        (Violation.move lengthened) ∧
      outcome g' effects = (outcome g effects).mapError (Violation.move lengthened) := by
  obtain ⟨⟨g, g'⟩, hfirsts, hrenamed⟩ := Option.map_eq_some_iff.1 renamed_longSource
  exact ⟨g, g', hfirsts, hrenamed, ofFunction_renamed lengthened g g' hrenamed _⟩

/-- A function that calls a closure of its own. -/
def ownSource : String := "fn f(g: fn() raises(X)) forwards(g) raises(E) \x7b
  if true \x7b let h = || 1; h(); \x7d
  try \x7b g(); \x7d catch \x7b \x7d \x7d"

/-- The closure has the name of the parameter. -/
def ownShadowSource : String := "fn f(g: fn() raises(X)) forwards(g) raises(E) \x7b
  if true \x7b let g = || 1; g(); \x7d
  try \x7b g(); \x7d catch \x7b \x7d \x7d"

/-- A function whose handler has a handler of its own. -/
def caughtSource : String := "fn f(g: fn() raises(X)) forwards(g) raises(E) \x7b
  try \x7b g(); \x7d catch e \x7b try \x7b 1; \x7d catch d \x7b raise d; \x7d \x7d \x7d"

/-- The inner variable has the name of the outer one. -/
def caughtShadowSource : String := "fn f(g: fn() raises(X)) forwards(g) raises(E) \x7b
  try \x7b g(); \x7d catch e \x7b try \x7b 1; \x7d catch e \x7b raise e; \x7d \x7d \x7d"

/-- Whether the first function of the second source is a renamed form of that of the first, with
their raise paths and with what their rules give when `g` raises `X`. -/
def renamingView (a b : Except ParseFailure Reading) :
    Option (Bool × List RaisePath × List RaisePath × Option Effect × Option Effect) :=
  let effects : Table Effect := .ofEntries [("g", .raises "X")]
  (firsts a b).map fun p =>
    (p.1.renamed (fun pos => pos) { links := [] } p.2, p.1.body.raisePaths p.1.forwards,
      p.2.body.raisePaths p.2.forwards, (outcome p.1 effects).toOption,
      (outcome p.2 effects).toOption)

/-- A variable that gets the name of the parameter adds a raise path, and one that gets the name of
an outer handler's variable undoes a conversion. In both cases the rule then gives a violation. -/
theorem renaming_changes_rule :
    renamingView (Program.parse ownSource) (Program.parse ownShadowSource) =
      some (true, [⟨"g", true, some ⟨⟨3, 9⟩, ⟨3, 12⟩⟩⟩],
        [⟨"g", false, some ⟨⟨2, 27⟩, ⟨2, 30⟩⟩⟩, ⟨"g", true, some ⟨⟨3, 9⟩, ⟨3, 12⟩⟩⟩],
        some (.raises "E"), none) ∧
    renamingView (Program.parse caughtSource) (Program.parse caughtShadowSource) =
      some (true, [⟨"g", true, some ⟨⟨2, 9⟩, ⟨2, 12⟩⟩⟩], [⟨"g", false, some ⟨⟨2, 9⟩, ⟨2, 12⟩⟩⟩],
        some (.raises "E"), none) := by
  constructor
  · rw [Program.parse_eq_ofChars ownSource rfl, Program.parse_eq_ofChars ownShadowSource rfl]
    decide +kernel
  · rw [Program.parse_eq_ofChars caughtSource rfl, Program.parse_eq_ofChars caughtShadowSource rfl]
    decide +kernel

end Forwarding

end RaisingEffects
