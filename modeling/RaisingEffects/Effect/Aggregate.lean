import RaisingEffects.Effect.Basic

/-!
# Aggregates

All function values in a collection share one effect. It is fixed when the collection is made, or,
for an empty collection without an annotation, by the first value that is inserted. Once fixed it
never changes, and a value is accepted only if its effect fits.

* `Aggregate.insert` inserts a value.
* `Aggregate.ofElements` is the aggregate of a collection that is written out.
-/

namespace RaisingEffects

/-- The effect that the values of a collection share. -/
structure Aggregate where
  effect : Option Effect
  kind : String := "list"
  declared : Bool := false
  /-- Whether the first raising value makes the effect that of raising anything. -/
  erase : Bool := false
deriving DecidableEq, Repr

/-- A value that does not fit: its index if it is an element, its effect, and the noun and effect
of the collection. -/
structure Misfit where
  index : Option Nat
  element : Effect
  kind : String
  bound : Effect
deriving DecidableEq, Repr

namespace Aggregate

/-- The effect of the values, which is none while there are no values. -/
def current (a : Aggregate) : Effect := a.effect.getD .nothrow

def insert (a : Aggregate) (e : Effect) (index : Option Nat) : Except Misfit Aggregate :=
  match a.effect with
  | none => .ok { a with effect := some (if a.erase && e.isRaising then .raisesAny else e) }
  | some bound => if e.fits bound then .ok a else .error ⟨index, e, a.kind, bound⟩

def insertFrom (a : Aggregate) (index : Nat) : List Effect → Except Misfit Aggregate
  | [] => .ok a
  | e :: es => do
    let a ← a.insert e (some index)
    a.insertFrom (index + 1) es

/-- The aggregate of a collection with the given elements, under a declared effect if there is one.
Without one, the compatibility policy takes the collapsed effect of all elements and the precise
policy that of the first. -/
def ofElements (policy : Policy) (declared : Option Effect) (kind : String) (es : List Effect) :
    Except Misfit Aggregate :=
  match declared, policy, es with
  | some d, _, es => insertFrom { effect := some d, kind, declared := true } 0 es
  | none, p, [] => .ok { effect := none, kind, erase := p = .compatibility }
  | none, .compatibility, es =>
    .ok { effect := some (.collapse .compatibility es), kind, erase := true }
  | none, .precise, e :: es => insertFrom { effect := some e, kind } 1 es

end Aggregate

end RaisingEffects
