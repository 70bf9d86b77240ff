import RaisingEffects.Forwarding.Basic

/-!
# Scopes

What names mean while a body is analysed. A name is looked up from the innermost scope outwards.
Collections are numbered, because several names can denote one collection: the names carry its
number, and all of them follow it when its effect becomes fixed.

* `Env.lookup`, `Env.define` and `Env.rebind` read and change the meaning of a name.
* `Env.follow` gives all names of a collection its effect.
-/

namespace RaisingEffects

inductive BindingKind where
  /-- Calling it contributes its effect. -/
  | callable
  /-- Raising it contributes its effect. -/
  | error
  /-- Its values share the effect of an aggregate. -/
  | collection
  /-- It is the name of a declared type. -/
  | typeName
  /-- It is plain data. -/
  | value
deriving DecidableEq, Repr

structure Binding where
  kind : BindingKind
  effect : Effect := .nothrow
  /-- The effects that the parameters of a callable expect, where they are callables. -/
  params : List (Option Effect) := []
  forwarding : Option Forwarding := none
  aggregate : Option Nat := none
deriving DecidableEq

def Binding.callable (effect : Effect) : Binding := { kind := .callable, effect }

def Binding.error (effect : Effect) : Binding := { kind := .error, effect }

def Binding.value : Binding := { kind := .value }

/-- The scopes around a place, from the inside out. -/
abbrev Env := List (Table Binding)

namespace Env

def lookup (env : Env) (name : String) : Option Binding :=
  env.findSome? fun scope => scope.get? name

def define (env : Env) (name : String) (b : Binding) : Env :=
  match env with
  | scope :: outer => scope.set name b :: outer
  | [] => [[(name, b)]]

def rebind (env : Env) (name : String) (b : Binding) : Env :=
  match env with
  | [] => []
  | scope :: outer =>
    if (scope.get? name).isSome then scope.set name b :: outer else scope :: rebind outer name b

/-- Gives all names of the aggregate `id` its effect. -/
def follow (env : Env) (id : Nat) (e : Effect) : Env :=
  env.map fun scope => scope.map fun (name, b) =>
    (name, if b.aggregate = some id then { b with effect := e } else b)

end Env

end RaisingEffects
