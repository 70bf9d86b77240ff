/-!
# Raising effects

What calling a function may raise: nothing, errors of one type, or errors of any type. The three
are ordered, with different types incomparable:

    nothrow < raises(T) < raises

* `Effect.fits` is the order, `Effect.join` and `Effect.joinAll` the least upper bounds.
* `Effect.ofTypes` is the effect of a list of error types, `Effect.collapse` that of the
  candidates of a closure.
-/

namespace RaisingEffects

/-- What a call may raise. -/
inductive Effect where
  | nothrow
  | raises (type : String)
  | raisesAny
deriving DecidableEq, Repr, Inhabited

/-- The type that no error has: `raises(Never)` raises nothing. -/
def neverType : String := "Never"

/-- How the effect of a closure without a clause is inferred. -/
inductive Policy where
  /-- A raising closure raises errors of any type, so that raising closures are interchangeable. -/
  | compatibility
  /-- A closure that raises errors of one type keeps the type. -/
  | precise
deriving DecidableEq, Repr, Inhabited

def Policy.name : Policy → String
  | compatibility => "compatibility"
  | precise => "precise"

namespace Effect

def text : Effect → String
  | nothrow => "nothrow"
  | raises type => s!"raises({type})"
  | raisesAny => "raises"

def isRaising : Effect → Bool
  | nothrow => false
  | _ => true

/-- Whether a function of the first effect may stand where the second is expected. -/
def fits : Effect → Effect → Bool
  | nothrow, _ => true
  | _, raisesAny => true
  | raises s, raises t => s = t
  | _, _ => false

/-- The least effect above both. -/
def join : Effect → Effect → Effect
  | nothrow, e => e
  | e, nothrow => e
  | raises s, raises t => if s = t then raises s else raisesAny
  | _, _ => raisesAny

/-- The least effect above all. -/
def joinAll (es : List Effect) : Effect := es.foldl join nothrow

def ofTypes (types : List String) : Effect :=
  joinAll ((types.filter (· != neverType)).map raises)

/-- The effect of a closure that may raise the given effects. -/
def collapse (policy : Policy) (es : List Effect) : Effect :=
  match policy, joinAll es with
  | .precise, e => e
  | .compatibility, nothrow => nothrow
  | .compatibility, _ => raisesAny

/-- The effect of a clause, given by the types it names: none for no clause, no types for a bare
clause. It is refused for the first type that is no error. -/
def ofClause (isError : String → Bool) : Option (List String) → Except String Effect
  | none => .ok nothrow
  | some [] => .ok raisesAny
  | some types =>
    match types.find? fun t => t != neverType && !isError t with
    | some t => .error t
    | none => .ok (ofTypes types)

end Effect

end RaisingEffects
