import Mathlib.Data.List.Basic
import RaisingEffects.Analysis.Body
import RaisingEffects.Proofs.Tree.Parts

/-!
# The shape of an annotated tree

Changing the locations of a tree keeps its shape. Changing them twice is changing them once
(`Part.map_map`, `Program.map_map`), so `map Note.span` recovers the signatures that were read from
those with blank notes (`Param.list_map_span_blank` and its relatives). Walking a tree goes with
changing its locations (`Part.walk_map`, `Program.walk_map`), so the nodes of two annotated trees of
one source correspond. The nodes of a type carry no effects, which is all that is needed of them.
-/

namespace RaisingEffects

variable {α : Type}

/-! ## Changing the locations twice -/

section Compose

variable {β γ : Type} (g : β → γ) (f : α → β)

theorem Clause.option_map_map (c : Option (Clause α)) :
    (c.map (·.map f)).map (·.map g) = c.map (·.map fun loc => g (f loc)) := by
  cases c <;> rfl

theorem TypeExpr.mapAll_eq_map (ts : List (TypeExpr α)) :
    TypeExpr.mapAll f ts = ts.map (·.map f) := by
  induction ts with
  | nil => rfl
  | cons t ts ih => exact congrArg _ ih

theorem TypeExpr.map_named (loc : α) (name : String) (args : List (TypeExpr α)) :
    (TypeExpr.named loc name args).map f = .named (f loc) name (args.map (·.map f)) :=
  congrArg _ (TypeExpr.mapAll_eq_map f args)

theorem TypeExpr.map_fn (loc : α) (params : List (TypeExpr α)) (clause : Option (Clause α))
    (result : Option (TypeExpr α)) :
    (TypeExpr.fn loc params clause result).map f =
      .fn (f loc) (params.map (·.map f)) (clause.map (·.map f)) (result.map (·.map f)) := by
  rw [← TypeExpr.mapAll_eq_map]
  cases result <;> rfl

theorem TypeExpr.map_map (t : TypeExpr α) : (t.map f).map g = t.map fun loc => g (f loc) := by
  induction t using TypeExpr.induction with
  | named loc name args ih =>
    rw [TypeExpr.map_named, TypeExpr.map_named, TypeExpr.map_named, List.map_map]
    exact congrArg _ (List.map_congr_left ih)
  | fn loc params clause result ihs ih =>
    rw [TypeExpr.map_fn, TypeExpr.map_fn, TypeExpr.map_fn, Clause.option_map_map, List.map_map,
      Option.map_map]
    exact congrArg₂ (TypeExpr.fn _ · _ ·) (List.map_congr_left ihs) (Option.map_congr ih)

theorem TypeExpr.option_map_map (t : Option (TypeExpr α)) :
    (t.map (·.map f)).map (·.map g) = t.map (·.map fun loc => g (f loc)) := by
  cases t with
  | none => rfl
  | some t => exact congrArg some (t.map_map g f)

theorem Param.list_map_map (ps : List (Param α)) :
    (ps.map (·.map f)).map (·.map g) = ps.map (·.map fun loc => g (f loc)) := by
  rw [List.map_map]
  refine List.map_congr_left fun p _ => ?_
  simp only [Function.comp, Param.map, TypeExpr.option_map_map]

theorem Part.map_map (t : Part α) : (t.map f).map g = t.map fun loc => g (f loc) := by
  induction t using Part.induction <;>
    simp_all [Part.map, Expr.map, Expr.mapAll, Body.map, Block.map, Stmt.map, Stmt.mapAll, Else.map,
      Param.list_map_map, Clause.option_map_map, TypeExpr.option_map_map, -List.map_map,
      -Option.map_map]

theorem Body.map_map (b : Body α) : (b.map f).map g = b.map fun loc => g (f loc) :=
  Part.body.inj (Part.map_map g f (.body b))

theorem Expr.mapAll_eq_map (es : List (Expr α)) : Expr.mapAll f es = es.map (·.map f) := by
  induction es with
  | nil => rfl
  | cons e es ih => exact congrArg _ ih

theorem Stmt.mapAll_eq_map (ss : List (Stmt α)) : Stmt.mapAll f ss = ss.map (·.map f) := by
  induction ss with
  | nil => rfl
  | cons s ss ih => exact congrArg _ ih

theorem Param.names_map (ps : List (Param α)) :
    (ps.map (·.map f)).map Param.name = ps.map Param.name :=
  List.map_map ..

theorem Expr.name?_map (e : Expr α) : (e.map f).name? = e.name? := by cases e <;> rfl

theorem Program.functionNames_map (p : Program α) :
    (p.map f).functions.map FunDecl.name = p.functions.map FunDecl.name :=
  List.map_map ..

theorem FunDecl.map_map (h : FunDecl α) : (h.map f).map g = h.map fun loc => g (f loc) := by
  simp only [FunDecl.map, Param.list_map_map, Clause.option_map_map, TypeExpr.option_map_map,
    Part.block.inj (Part.map_map g f (.block h.body))]

theorem Interface.map_map (i : Interface α) : (i.map f).map g = i.map fun loc => g (f loc) := by
  simp only [Interface.map, Member.map, List.map_map, Function.comp_def, Param.map,
    Clause.option_map_map, TypeExpr.option_map_map]

theorem Program.map_map (p : Program α) : (p.map f).map g = p.map fun loc => g (f loc) := by
  simp only [Program.map, List.map_map, Function.comp_def, FunDecl.map_map, Interface.map_map,
    NameDecl.map]

end Compose

/-! ## Changing no location -/

theorem Clause.option_map_id (c : Option (Clause α)) : c.map (·.map fun loc => loc) = c := by
  cases c <;> rfl

theorem TypeExpr.map_id (t : TypeExpr α) : t.map (fun loc => loc) = t := by
  induction t using TypeExpr.induction with
  | named loc name args ih =>
    rw [TypeExpr.map_named, List.map_congr_left ih, List.map_id']
  | fn loc params clause result ihs ih =>
    rw [TypeExpr.map_fn, Clause.option_map_id, List.map_congr_left ihs, List.map_id',
      Option.map_congr ih, Option.map_id']

theorem TypeExpr.option_map_id (t : Option (TypeExpr α)) : t.map (·.map fun loc => loc) = t := by
  cases t with
  | none => rfl
  | some t => exact congrArg some t.map_id

theorem Param.list_map_id (ps : List (Param α)) : ps.map (·.map fun loc => loc) = ps := by
  simp only [Param.map, TypeExpr.option_map_id, List.map_id']

theorem Part.map_id (t : Part α) : t.map (fun loc => loc) = t := by
  induction t using Part.induction <;>
    simp_all [Part.map, Expr.map, Expr.mapAll, Body.map, Block.map, Stmt.map, Stmt.mapAll, Else.map,
      Param.list_map_id, Clause.option_map_id, TypeExpr.option_map_id]

theorem Expr.map_id (e : Expr α) : e.map (fun loc => loc) = e :=
  Part.expr.inj (Part.map_id (.expr e))

theorem Block.map_id (b : Block α) : b.map (fun loc => loc) = b :=
  Part.block.inj (Part.map_id (.block b))

theorem FunDecl.map_id (g : FunDecl α) : g.map (fun loc => loc) = g := by
  simp only [FunDecl.map, Param.list_map_id, Clause.option_map_id, TypeExpr.option_map_id,
    Block.map_id]

/-! ## Blank notes -/

theorem Clause.option_map_span_blank (c : Option (Clause Span)) :
    (c.map (·.map Note.blank)).map (·.map Note.span) = c :=
  (Clause.option_map_map ..).trans (Clause.option_map_id c)

theorem TypeExpr.option_map_span_blank (t : Option (TypeExpr Span)) :
    (t.map (·.map Note.blank)).map (·.map Note.span) = t :=
  (TypeExpr.option_map_map ..).trans (TypeExpr.option_map_id t)

theorem Param.list_map_span_blank (ps : List (Param Span)) :
    (ps.map (·.map Note.blank)).map (·.map Note.span) = ps :=
  (Param.list_map_map ..).trans (Param.list_map_id ps)

theorem NameDecl.list_map_span_blank (ds : List (NameDecl Span)) :
    (ds.map (·.map Note.blank)).map (·.map Note.span) = ds :=
  (List.map_map ..).trans (List.map_id' ds)

/-! ## Moving the places -/

/-- The span between the places that its ends are moved to. -/
def Span.move (place : Pos → Pos) (s : Span) : Span := ⟨place s.start, place s.stop⟩

/-! ## Walking a tree with changed locations -/

section Walk

variable {β : Type} (f : α → β)

def Node.map : Node α → Node β
  | .clause c => .clause (c.map f)
  | .type t => .type (t.map f)
  | .expr e => .expr (e.map f)
  | .block b => .block (b.map f)
  | .stmt s => .stmt (s.map f)
  | .errorDecl d => .errorDecl (d.map f)
  | .typeDecl d => .typeDecl (d.map f)
  | .member m => .member (m.map f)
  | .interface i => .interface (i.map f)
  | .function g => .function (g.map f)
  | .program p => .program (p.map f)

theorem Clause.nodes_map (c : Option (Clause α)) :
    (c.map (·.map f)).toList.map Node.clause = (c.toList.map Node.clause).map (Node.map f) := by
  cases c <;> rfl

theorem TypeExpr.walk_map (t : TypeExpr α) : (t.map f).walk = t.walk.map (Node.map f) := by
  induction t using TypeExpr.induction with
  | named loc name args ih =>
    simp [TypeExpr.map_named, TypeExpr.walk, TypeExpr.walkAll_eq, Node.map, List.flatMap_map,
      List.map_flatMap, List.flatMap_congr ih]
  | fn loc params clause result ihs ih =>
    cases result <;> simp_all [TypeExpr.map_fn, TypeExpr.walk_fn, Node.map, Clause.nodes_map,
      List.flatMap_map, List.map_flatMap, List.flatMap_congr ihs]

theorem TypeExpr.nodes_map (t : Option (TypeExpr α)) :
    (t.map (·.map f)).toList.flatMap TypeExpr.walk =
      (t.toList.flatMap TypeExpr.walk).map (Node.map f) := by
  cases t with
  | none => rfl
  | some t => simp [TypeExpr.walk_map]

theorem Part.walk_map (t : Part α) : (t.map f).walk = t.walk.map (Node.map f) := by
  induction t using Part.induction <;>
    simp_all [Part.map, Part.walk, Expr.map, Expr.mapAll, Body.map, Block.map, Stmt.map,
      Stmt.mapAll, Else.map, Expr.walk, Expr.walkAll, Body.walk, Block.walk, Stmt.walk,
      Stmt.walkAll, Else.walk, Node.map, Clause.nodes_map, TypeExpr.nodes_map]

theorem Block.walk_map (b : Block α) : (b.map f).walk = b.walk.map (Node.map f) :=
  Part.walk_map f (.block b)

theorem Member.walk_map (m : Member α) : (m.map f).walk = m.walk.map (Node.map f) := by
  simp only [Member.walk, List.map_cons, List.map_append, Node.map, ← Clause.nodes_map,
    ← TypeExpr.nodes_map]
  rfl

theorem Interface.walk_map (i : Interface α) : (i.map f).walk = i.walk.map (Node.map f) := by
  simp only [Interface.walk, Interface.map, List.map_cons, Node.map, List.flatMap_map,
    List.map_flatMap, Member.walk_map]

theorem FunDecl.walk_map (g : FunDecl α) : (g.map f).walk = g.walk.map (Node.map f) := by
  simp only [FunDecl.walk, List.map_cons, List.map_append, Node.map, ← Clause.nodes_map,
    ← TypeExpr.nodes_map, ← Block.walk_map]
  rfl

/-- **The nodes of a tree with changed locations are its nodes with changed locations.** -/
theorem Program.walk_map (p : Program α) : (p.map f).walk = p.walk.map (Node.map f) := by
  simp only [Program.walk, Program.map, List.map_cons, List.map_append, Node.map,
    List.flatMap_map, List.map_flatMap, List.map_map, FunDecl.walk_map, Interface.walk_map]
  rfl

end Walk

/-! ## Types have no effects -/

/-- Whether a node is part of a type. -/
def Node.ofSignature : Node α → Bool
  | .clause _ | .type _ => true
  | _ => false

theorem Node.ofSignature_of_mem_clauses {n : Node α} {c : Option (Clause α)}
    (h : n ∈ c.toList.map Node.clause) : n.ofSignature = true := by
  obtain ⟨c, -, rfl⟩ := List.mem_map.1 h
  rfl

theorem TypeExpr.ofSignature_of_mem_walk {n : Node α} (t : TypeExpr α) (h : n ∈ t.walk) :
    n.ofSignature = true := by
  induction t using TypeExpr.induction with
  | named loc name args ih =>
    rw [TypeExpr.walk, TypeExpr.walkAll_eq, List.mem_cons, List.mem_flatMap] at h
    obtain rfl | ⟨t, ht, h⟩ := h
    · rfl
    · exact ih t ht h
  | fn loc params clause result ihs ih =>
    simp only [TypeExpr.walk_fn, List.mem_cons, List.mem_append, List.mem_flatMap] at h
    obtain rfl | ⟨t, ht, h⟩ | h | ⟨t, ht, h⟩ := h
    · rfl
    · exact ihs t ht h
    · exact Node.ofSignature_of_mem_clauses h
    · exact ih t (Option.mem_toList.1 ht) h

theorem Node.ofSignature_of_mem_types {n : Node α} {t : Option (TypeExpr α)}
    (h : n ∈ t.toList.flatMap TypeExpr.walk) : n.ofSignature = true := by
  obtain ⟨t, -, h⟩ := List.mem_flatMap.1 h
  exact TypeExpr.ofSignature_of_mem_walk t h

end RaisingEffects
