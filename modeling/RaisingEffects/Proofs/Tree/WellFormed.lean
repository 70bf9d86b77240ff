import RaisingEffects.Proofs.Parse.Declarations
import RaisingEffects.Proofs.Tree.Parts

/-!
# Well-formed programs

What a reader demands of a program beyond its grammar. Names are used where they are known, names
that are declared side by side are different, and what the grammar leaves open is filled in
sensibly.

* `Expr.WellFormed known e` says it of an expression that stands where the names `known` are
  known, and likewise for closures' bodies, blocks, statements and branches.
* `FunDecl.WellFormed` and `Program.WellFormed` say it of declarations.

A name is known in a block from the statement after its `let` on. The target of a loop and the name
of a caught error are known in the block that follows them only, and the parameters of a function
or closure in its body. That a value is put into a collection by `append` or by `insert` needs no
condition: there is no other `Insertion`.

All of this can be decided, and it is kept when more names are known (`Part.WellFormed.mono`).
-/

namespace RaisingEffects

variable {α : Type}

/-- The name that a statement declares for the statements after it. -/
def Stmt.declares? : Stmt α → Option String
  | .let_ _ name .. => some name
  | _ => none

def Body.isBlock : Body α → Bool
  | .block _ => true
  | .expr _ => false

/-- Whether a clause names one type that is not the type of no error. -/
def Clause.isTarget (c : Clause α) : Bool :=
  match c.types with
  | [t] => t != neverType
  | _ => false

mutual

/-- The expression is well formed where the names `known` are known. -/
def Expr.WellFormed (known : List String) : Expr α → Prop
  | .name _ id => id ∈ known
  | .literal .. => True
  | .call _ callee args => callee ∈ known ∧ Expr.WellFormedAll known args
  | .closure _ params clause body =>
    (params.map Param.name).Nodup ∧ (clause.isSome → body.isBlock) ∧
      Body.WellFormed (params.map Param.name ++ known) body
  | .collection _ _ elements => Expr.WellFormedAll known elements
  | .binary _ left right => Expr.WellFormed known left ∧ Expr.WellFormed known right
  | .unary _ operand => Expr.WellFormed known operand

def Expr.WellFormedAll (known : List String) : List (Expr α) → Prop
  | [] => True
  | e :: es => Expr.WellFormed known e ∧ Expr.WellFormedAll known es

def Body.WellFormed (known : List String) : Body α → Prop
  | .block block => Block.WellFormed known block
  | .expr expr => Expr.WellFormed known expr

/-- The block is well formed where the names `known` are known, and declares no name twice. -/
def Block.WellFormed (known : List String) : Block α → Prop
  | .mk _ ss => (ss.filterMap Stmt.declares?).Nodup ∧ Stmt.WellFormedAll known ss

def Stmt.WellFormed (known : List String) : Stmt α → Prop
  | .let_ _ _ _ _ value => Expr.WellFormed known value
  | .assign _ target value => target ∈ known ∧ Expr.WellFormed known value
  | .return_ _ none => True
  | .return_ _ (some value) => Expr.WellFormed known value
  | .raise _ value => Expr.WellFormed known value
  | .try_ _ body binding handler =>
    Block.WellFormed known body ∧ Block.WellFormed (binding.toList ++ known) handler
  | .insert _ target _ value => target ∈ known ∧ Expr.WellFormed known value
  | .for_ target iterable body =>
    Expr.WellFormed known iterable ∧ Block.WellFormed (target :: known) body
  | .while_ condition body => Expr.WellFormed known condition ∧ Block.WellFormed known body
  | .if_ test body rest =>
    Expr.WellFormed known test ∧ Block.WellFormed known body ∧ Else.WellFormed known rest
  | .expr value => Expr.WellFormed known value

/-- The statements are well formed one after the other, each where the names `known` and those
declared before it are known. -/
def Stmt.WellFormedAll (known : List String) : List (Stmt α) → Prop
  | [] => True
  | t :: ts => Stmt.WellFormed known t ∧ Stmt.WellFormedAll (t.declares?.toList ++ known) ts

def Else.WellFormed (known : List String) : Else α → Prop
  | .none => True
  | .block block => Block.WellFormed known block
  | .elif test body rest =>
    Expr.WellFormed known test ∧ Block.WellFormed known body ∧ Else.WellFormed known rest

end

/-- The function is well formed where the names `known` are known: its parameters have different
names, it forwards parameters only, and the clause of a forwarding function names its target. -/
structure FunDecl.WellFormed (known : List String) (g : FunDecl α) : Prop extends g.WellNamed where
  target : g.forwards ≠ [] → ∀ c ∈ g.clause, c.isTarget
  body : g.body.WellFormed (g.params.map Param.name ++ known)

/-- The words in front of a member are words that may stand there. -/
def Member.WellFormed (m : Member α) : Prop := ∀ word ∈ m.modifiers, word ∈ memberModifiers

namespace Program

/-- The names of functions, errors and types. -/
def declared (p : Program α) : List String :=
  p.functions.map FunDecl.name ++ p.errors.map NameDecl.name ++ p.types.map NameDecl.name

/-- The names of the members of all interfaces. -/
def memberNames (p : Program α) : List String :=
  p.interfaces.flatMap fun i => i.members.map Member.name

/-- The names that the declarations of a program make known everywhere in it. -/
def globals (p : Program α) : List String := p.declared ++ p.memberNames

/-- The declarations of the program are well formed where the names `known` are known, and its
functions have different names. -/
structure WellFormedIn (known : List String) (p : Program α) : Prop where
  nodup : (p.functions.map FunDecl.name).Nodup
  functions : ∀ g ∈ p.functions, g.WellFormed known
  members : ∀ i ∈ p.interfaces, ∀ m ∈ i.members, m.WellFormed

/-- The program is well formed: its own declarations and the names known without one are all that
its functions rely on. -/
def WellFormed (p : Program α) : Prop := p.WellFormedIn (p.globals ++ builtins)

end Program

theorem Program.mem_globals {p : Program α} {name : String} :
    name ∈ p.globals ↔ name ∈ p.functions.map FunDecl.name ∨ name ∈ p.errors.map NameDecl.name ∨
      name ∈ p.types.map NameDecl.name ∨
        ∃ i ∈ p.interfaces, name ∈ i.members.map Member.name := by
  simp only [Program.globals, Program.declared, Program.memberNames, List.mem_append,
    List.mem_flatMap, or_assoc]

/-! ## Lists -/

theorem Expr.wellFormedAll_iff {known : List String} {es : List (Expr α)} :
    Expr.WellFormedAll known es ↔ ∀ e ∈ es, e.WellFormed known := by
  induction es with
  | nil => simp [Expr.WellFormedAll]
  | cons e es ih => simp [Expr.WellFormedAll, ih]

/-! ## More names -/

section Mono

theorem append_subset_append {names known more : List String} (h : known ⊆ more) :
    names ++ known ⊆ names ++ more :=
  List.append_subset.2
    ⟨List.subset_append_left .., List.subset_append_of_subset_right _ h⟩

def Part.WellFormed (known : List String) : Part α → Prop
  | expr e => e.WellFormed known
  | exprs es => Expr.WellFormedAll known es
  | body b => b.WellFormed known
  | block b => b.WellFormed known
  | stmt t => t.WellFormed known
  | stmts ts => Stmt.WellFormedAll known ts
  | rest r => r.WellFormed known

theorem Part.WellFormed.mono {known more : List String} (h : known ⊆ more) (t : Part α)
    (ht : t.WellFormed known) : t.WellFormed more := by
  induction t using Part.induction generalizing known more with
  | closure _ _ _ _ ih => exact ⟨ht.1, ht.2.1, ih (append_subset_append h) ht.2.2⟩
  | for_ _ _ _ ih ih' => exact ⟨ih h ht.1, ih' (List.cons_subset_cons _ h) ht.2⟩
  | try_ _ _ _ _ ih ih' | stmtsCons _ _ ih ih' =>
    exact ⟨ih h ht.1, ih' (append_subset_append h) ht.2⟩
  | _ =>
    grind [WellFormed, Expr.WellFormed, Expr.WellFormedAll, Body.WellFormed, Block.WellFormed,
      Stmt.WellFormed, Stmt.WellFormedAll, Else.WellFormed]

theorem FunDecl.WellFormed.mono {known more : List String} {g : FunDecl α}
    (hg : g.WellFormed known) (h : known ⊆ more) : g.WellFormed more where
  toWellNamed := hg.toWellNamed
  target := hg.target
  body := Part.WellFormed.mono (append_subset_append h) (.block g.body) hg.body

theorem Program.WellFormedIn.mono {known more : List String} {p : Program α}
    (hp : p.WellFormedIn known) (h : known ⊆ more) : p.WellFormedIn more :=
  ⟨hp.nodup, fun g hg => (hp.functions g hg).mono h, hp.members⟩

end Mono

/-! ## Deciding -/

section Decide

mutual

def Expr.decideWellFormed (known : List String) : (e : Expr α) → Decidable (e.WellFormed known)
  | .name _ id => inferInstanceAs (Decidable (id ∈ known))
  | .literal .. => inferInstanceAs (Decidable True)
  | .call _ _ args => @instDecidableAnd _ _ inferInstance (Expr.decideWellFormedAll known args)
  | .closure _ params _ body =>
    @instDecidableAnd _ _ inferInstance (@instDecidableAnd _ _ inferInstance
      (Body.decideWellFormed (params.map Param.name ++ known) body))
  | .collection _ _ elements => Expr.decideWellFormedAll known elements
  | .binary _ left right =>
    @instDecidableAnd _ _ (Expr.decideWellFormed known left) (Expr.decideWellFormed known right)
  | .unary _ operand => Expr.decideWellFormed known operand

def Expr.decideWellFormedAll (known : List String) :
    (es : List (Expr α)) → Decidable (Expr.WellFormedAll known es)
  | [] => inferInstanceAs (Decidable True)
  | e :: es =>
    @instDecidableAnd _ _ (Expr.decideWellFormed known e) (Expr.decideWellFormedAll known es)

def Body.decideWellFormed (known : List String) : (b : Body α) → Decidable (b.WellFormed known)
  | .block block => Block.decideWellFormed known block
  | .expr expr => Expr.decideWellFormed known expr

def Block.decideWellFormed (known : List String) : (b : Block α) → Decidable (b.WellFormed known)
  | .mk _ ss => @instDecidableAnd _ _ inferInstance (Stmt.decideWellFormedAll known ss)

def Stmt.decideWellFormed (known : List String) : (t : Stmt α) → Decidable (t.WellFormed known)
  | .let_ _ _ _ _ value => Expr.decideWellFormed known value
  | .assign _ _ value => @instDecidableAnd _ _ inferInstance (Expr.decideWellFormed known value)
  | .return_ _ none => inferInstanceAs (Decidable True)
  | .return_ _ (some value) => Expr.decideWellFormed known value
  | .raise _ value => Expr.decideWellFormed known value
  | .try_ _ body binding handler =>
    @instDecidableAnd _ _ (Block.decideWellFormed known body)
      (Block.decideWellFormed (binding.toList ++ known) handler)
  | .insert _ _ _ value => @instDecidableAnd _ _ inferInstance (Expr.decideWellFormed known value)
  | .for_ target iterable body =>
    @instDecidableAnd _ _ (Expr.decideWellFormed known iterable)
      (Block.decideWellFormed (target :: known) body)
  | .while_ condition body =>
    @instDecidableAnd _ _ (Expr.decideWellFormed known condition)
      (Block.decideWellFormed known body)
  | .if_ test body rest =>
    @instDecidableAnd _ _ (Expr.decideWellFormed known test)
      (@instDecidableAnd _ _ (Block.decideWellFormed known body)
        (Else.decideWellFormed known rest))
  | .expr value => Expr.decideWellFormed known value

def Stmt.decideWellFormedAll (known : List String) :
    (ts : List (Stmt α)) → Decidable (Stmt.WellFormedAll known ts)
  | [] => inferInstanceAs (Decidable True)
  | t :: ts =>
    @instDecidableAnd _ _ (Stmt.decideWellFormed known t)
      (Stmt.decideWellFormedAll (t.declares?.toList ++ known) ts)

def Else.decideWellFormed (known : List String) : (r : Else α) → Decidable (r.WellFormed known)
  | .none => inferInstanceAs (Decidable True)
  | .block block => Block.decideWellFormed known block
  | .elif test body rest =>
    @instDecidableAnd _ _ (Expr.decideWellFormed known test)
      (@instDecidableAnd _ _ (Block.decideWellFormed known body)
        (Else.decideWellFormed known rest))

end

instance (known : List String) (b : Block α) : Decidable (b.WellFormed known) :=
  b.decideWellFormed known

instance (m : Member α) : Decidable m.WellFormed :=
  inferInstanceAs (Decidable (∀ word ∈ m.modifiers, word ∈ memberModifiers))

theorem FunDecl.wellFormed_iff {known : List String} {g : FunDecl α} :
    g.WellFormed known ↔
      ((g.params.map Param.name).Nodup ∧ ∀ name ∈ g.forwards, name ∈ g.params.map Param.name) ∧
        (g.forwards ≠ [] → ∀ c ∈ g.clause, c.isTarget) ∧
          g.body.WellFormed (g.params.map Param.name ++ known) :=
  ⟨fun h => ⟨⟨h.nodup, h.forwards⟩, h.target, h.body⟩,
    fun h => ⟨⟨h.1.1, h.1.2⟩, h.2.1, h.2.2⟩⟩

instance (known : List String) (g : FunDecl α) : Decidable (g.WellFormed known) :=
  decidable_of_iff' _ FunDecl.wellFormed_iff

theorem Program.wellFormedIn_iff {known : List String} {p : Program α} :
    p.WellFormedIn known ↔
      (p.functions.map FunDecl.name).Nodup ∧ (∀ g ∈ p.functions, g.WellFormed known) ∧
        ∀ i ∈ p.interfaces, ∀ m ∈ i.members, m.WellFormed :=
  ⟨fun h => ⟨h.nodup, h.functions, h.members⟩, fun h => ⟨h.1, h.2.1, h.2.2⟩⟩

instance (p : Program α) : Decidable p.WellFormed :=
  decidable_of_iff' _ Program.wellFormedIn_iff

end Decide

end RaisingEffects
