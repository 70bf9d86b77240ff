import RaisingEffects.Proofs.Verdict.Run

/-!
# What a verdict notes at the nodes

Two statements about every source that is read and checked, under every policy and with every
notion of what an error is.

* `Program.check_joins_uncaught`: the effect of a function's body, and what a `try` catches, is the
  join of the effects noted at exactly the raises and calls that are reached without entering a
  closure or the body of a `try`; the effect of a function or closure is an upper bound of them.
* `Program.check_annotates`: a check always ends with a verdict, and leaves no node without the note
  that belongs to it.
-/

namespace RaisingEffects

/-! ## Effects of bodies -/

namespace Node

/-- `e` is the join of what is noted at the raises and calls that a node exposes, each of which has
an effect. -/
structure JoinsExposed (root : Node Note) (e : Effect) : Prop where
  noted : ∀ n, root.Exposes n → n.contributes = true → ∃ d, n.effect? = some d
  join : ∃ es, e = .joinAll es ∧
    ∀ d, d ∈ es ↔ ∃ n, root.Exposes n ∧ n.contributes = true ∧ n.effect? = some d

/-- `e` is an upper bound of what is noted at the raises and calls that a node exposes, each of
which has an effect. -/
def BoundsExposed (root : Node Note) (e : Effect) : Prop :=
  ∀ n, root.Exposes n → n.contributes = true → ∃ d, n.effect? = some d ∧ d.fits e = true

end Node

/-- A list of the exposed raises and calls gives their join. -/
theorem JoinsTo.joinsExposed {root : Node Note} {ns : List (Node Note)} {e : Effect}
    (h : JoinsTo ns e) (hns : ∀ n, n ∈ ns ↔ root.Exposes n ∧ n.contributes = true) :
    root.JoinsExposed e := by
  obtain ⟨es, hes, rfl⟩ := h
  have hmem (d : Effect) : d ∈ es ↔ ∃ n ∈ ns, n.effect? = some d := by
    have hsome : some d ∈ es.map some ↔ d ∈ es := by simp
    rw [← hsome, ← hes, List.mem_map]
  refine ⟨?_, es, rfl, ?_⟩
  · intro n hn hcontributes
    have hin : n.effect? ∈ es.map some := hes ▸ List.mem_map_of_mem ((hns n).2 ⟨hn, hcontributes⟩)
    obtain ⟨d, -, hd⟩ := List.mem_map.1 hin
    exact ⟨d, hd.symm⟩
  · intro d
    rw [hmem]
    constructor
    · rintro ⟨n, hn, hd⟩
      exact ⟨n, ((hns n).1 hn).1, ((hns n).1 hn).2, hd⟩
    · rintro ⟨n, hexposed, hcontributes, hd⟩
      exact ⟨n, (hns n).2 ⟨hexposed, hcontributes⟩, hd⟩

theorem JoinsTo.boundsExposed {root : Node Note} {ns : List (Node Note)} {b e : Effect}
    (h : JoinsTo ns b) (hns : ∀ n, n ∈ ns ↔ root.Exposes n ∧ n.contributes = true)
    (hbe : b.fits e = true) : root.BoundsExposed e :=
  fun n hn hcontributes => h.fits_iff.1 hbe n ((hns n).2 ⟨hn, hcontributes⟩)

/-- What a verdict says about the bodies of functions, of `try` and of closures. -/
structure Verdict.JoinsUncaught (v : Verdict) : Prop where
  function : ∀ g ∈ v.program.functions, ∃ b e,
    g.loc.bodyEffect = some b ∧ (Node.block g.body).JoinsExposed b ∧
    g.loc.effect = some e ∧ v.effects.get? g.name = some e ∧ (Node.block g.body).BoundsExposed e
  try_ : ∀ loc body binding handler, Node.stmt (.try_ loc body binding handler) ∈ v.program.walk →
    ∃ e, loc.caughtEffect = some e ∧ (Node.block body).JoinsExposed e
  closure : ∀ loc params clause body, Node.expr (.closure loc params clause body) ∈ v.program.walk →
    ∃ e, loc.effect = some e ∧ (Node.ofBody body).BoundsExposed e

/-! ## The table of effects -/

/-- The table has the effect that is noted at a function, if no other function has its name. -/
theorem Analysis.get?_effectTable {interfaces : List (Interface Note)}
    {functions : List (FunDecl Note)} (hnodup : (functions.map FunDecl.name).Nodup)
    {g : FunDecl Note} (hg : g ∈ functions) :
    (effectTable interfaces functions).get? g.name = some (g.loc.effect.getD .nothrow) := by
  obtain ⟨before, after, rfl⟩ := List.append_of_mem hg
  have hafter : ∀ entry ∈ after.map fun g => (g.name, g.loc.effect.getD .nothrow),
      entry.1 ≠ g.name := by
    intro entry hentry heq
    obtain ⟨f, hf, rfl⟩ := List.mem_map.1 hentry
    rw [List.map_append, List.map_cons, List.nodup_append, List.nodup_cons] at hnodup
    exact hnodup.2.1.1 (List.mem_map.2 ⟨f, hf, heq⟩)
  rw [effectTable, List.map_append, List.map_cons, ← List.append_assoc]
  exact Table.get?_ofEntries_of_last hafter

theorem Verdict.Covers.names {isError : String → Bool} {checkBodies : Bool} {p : Program Span}
    {v : Verdict} (h : v.Covers isError checkBodies p) :
    v.program.functions.map FunDecl.name = p.functions.map FunDecl.name := by
  rw [← h.shape]
  simp only [Program.map, List.map_map]
  rfl

theorem Program.mem_walk_of_mem_functions {α : Type} {p : Program α} {g : FunDecl α}
    (hg : g ∈ p.functions) : Node.function g ∈ p.walk := by
  have hmem : Node.function g ∈ p.functions.flatMap FunDecl.walk :=
    List.mem_flatMap.2 ⟨g, hg, List.mem_cons_self ..⟩
  simp [Program.walk, hmem]

theorem Verdict.Covers.joinsUncaught {isError : String → Bool} {p : Program Span} {v : Verdict}
    (h : v.Covers isError true p) (hnodup : (p.functions.map FunDecl.name).Nodup) :
    v.JoinsUncaught where
  function := by
    intro g hg
    obtain ⟨-, b, hb, hjoin⟩ := h.sound _ (Program.mem_walk_of_mem_functions hg)
    obtain ⟨b', e, hb', he, hfits⟩ := (h.functions g hg).effects
    cases hb'.symm.trans hb
    refine ⟨_, e, hb', hjoin.joinsExposed fun _ => Block.mem_uncaught_iff, he, ?_, ?_⟩
    · rw [h.effects, Analysis.get?_effectTable (h.names ▸ hnodup) hg, he]
      rfl
    · exact hjoin.boundsExposed (fun _ => Block.mem_uncaught_iff) (hfits rfl)
  try_ := by
    intro loc body binding handler hmem
    obtain ⟨e, he, hjoin⟩ := h.sound _ hmem
    exact ⟨e, he, hjoin.joinsExposed fun _ => Block.mem_uncaught_iff⟩
  closure := by
    intro loc params clause body hmem
    obtain ⟨e, he, hbounds⟩ := h.sound _ hmem
    exact ⟨e, he, fun n hn hcontributes => hbounds n (Body.mem_uncaught_iff.2 ⟨hn, hcontributes⟩)⟩

/-- **The effects of bodies are the joins of what is uncaught in them.** -/
theorem Program.check_joins_uncaught {source : String} {r : Reading}
    (h : Program.parse source = .ok r) (policy : Policy) (isError : String → Bool) :
    ∃ v, r.program.check { policy } isError r.skipped = .ok v ∧
      v.program.map Note.span = r.program ∧ v.JoinsUncaught := by
  obtain ⟨v, hv, hcovers⟩ := r.program.check_run { policy } isError r.skipped
  exact ⟨v, hv, hcovers.shape, hcovers.joinsUncaught (Program.parse_wellNamed h).nodup⟩

/-- A source with a forwarding function, nested closures, handlers and loops. -/
def nestedSource : String :=
  "error E; error F;
interface Source \x7b fn next() raises(E); \x7d
fn pick(g: fn() raises(E), h: fn()) forwards(g) \x7b
  let xs = [|| \x7b try \x7b g(); \x7d catch \x7b raise F(); \x7d \x7d, || 1];
  for x in xs \x7b try \x7b x(); \x7d catch e \x7b h(); \x7d \x7d
  if len(1) == 0 \x7b g(); \x7d else \x7b while h() \x7b raise E(); \x7d \x7d
\x7d
fn main() \x7b try \x7b pick(|| \x7b raise F(); \x7d, || 0); \x7d catch e \x7b print(e); \x7d \x7d"

set_option maxRecDepth 8192 in
theorem exists_verdict_nestedSource :
    ∃ r v, Program.parse nestedSource = .ok r ∧
      r.program.check { policy := .precise } r.program.declaresError r.skipped = .ok v ∧
      v.effects = [("Source.next", .raises "E"), ("pick", .raises "E"), ("main", .nothrow)] :=
  Program.exists_verdict nestedSource _ _ rfl (by decide +kernel)

theorem Program.check_joins_uncaught_nested :
    ∃ r, Program.parse nestedSource = .ok r ∧
      ∃ v, r.program.check { policy := .precise } r.program.declaresError r.skipped = .ok v ∧
        v.program.map Note.span = r.program ∧ v.JoinsUncaught ∧
        v.effects = [("Source.next", .raises "E"), ("pick", .raises "E"), ("main", .nothrow)] := by
  obtain ⟨r, v, hr, hv, heffects⟩ := exists_verdict_nestedSource
  obtain ⟨w, hw, hshape, hjoins⟩ := Program.check_joins_uncaught hr .precise r.program.declaresError
  cases hv.symm.trans hw
  exact ⟨r, hr, v, hv, hshape, hjoins, heffects⟩

/-! ## Every node is annotated -/

/-- Whether a node carries the note that belongs to it, where the aggregates have the given
values. -/
def Node.annotated (aggregates : List Aggregate) : Node Note → Bool
  | .function g => g.loc.effect.isSome && g.loc.bodyEffect.isSome
  | .member m => m.loc.effect.isSome
  | .expr (.closure loc ..) => loc.effect.isSome
  | .expr (.call loc ..) => loc.effect.isSome
  | .expr (.collection loc ..) => (loc.aggregate.bind fun id => aggregates[id]?).isSome
  | .stmt (.raise loc _) => loc.effect.isSome
  | .stmt (.try_ loc ..) => loc.caughtEffect.isSome
  | _ => true

theorem Node.Sound.annotated {aggregates : List Aggregate} {n : Node Note}
    (h : n.Sound aggregates.length) : n.annotated aggregates = true := by
  unfold Node.annotated
  split
  · obtain ⟨he, b, hb, -⟩ := h
    rw [he, hb]
    rfl
  · exact h
  · obtain ⟨e, he, -⟩ := h
    rw [he]
    rfl
  · exact h
  · obtain ⟨id, hid, hloc⟩ := h
    rw [hloc, Option.bind_some, List.getElem?_eq_getElem hid]
    rfl
  · exact h
  · obtain ⟨e, he, -⟩ := h
    rw [he]
    rfl
  · rfl

/-- **A check ends with a verdict, whatever it finds, and leaves no node without its note.** The
position of every parameter that a function forwards can be found. -/
theorem Program.check_annotates {source : String} {r : Reading}
    (h : Program.parse source = .ok r) (settings : Settings) (isError : String → Bool) :
    ∃ v, r.program.check settings isError r.skipped = .ok v ∧
      v.program.map Note.span = r.program ∧
      (∀ n ∈ v.program.walk, n.annotated v.aggregates = true) ∧
      ∀ g ∈ r.program.functions, ∀ name ∈ g.forwards,
        g.params.findIdx (fun p => p.name = name) < g.params.length := by
  obtain ⟨v, hv, hcovers⟩ := r.program.check_run settings isError r.skipped
  refine ⟨v, hv, hcovers.shape, fun n hn => (hcovers.sound n hn).annotated, ?_⟩
  intro g hg name hname
  have hparam := ((Program.parse_wellNamed h).functions g hg).forwards name hname
  obtain ⟨p, hp, rfl⟩ := List.mem_map.1 hparam
  exact List.findIdx_lt_length_of_exists ⟨p, hp, by simp⟩

theorem Program.check_annotates_nested :
    ∃ r, Program.parse nestedSource = .ok r ∧
      ∃ v, r.program.check { checkBodies := false } (fun _ => false) r.skipped = .ok v ∧
        v.program.map Note.span = r.program ∧
        (∀ n ∈ v.program.walk, n.annotated v.aggregates = true) ∧
        ∀ g ∈ r.program.functions, ∀ name ∈ g.forwards,
          g.params.findIdx (fun p => p.name = name) < g.params.length := by
  obtain ⟨r, -, hr, -⟩ := exists_verdict_nestedSource
  exact ⟨r, hr, Program.check_annotates hr { checkBodies := false } fun _ => false⟩

end RaisingEffects
