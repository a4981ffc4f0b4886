import PageQuery.Failure
import PageQuery.Sql.Value
/-!
# Binding operands

Building a predicate binds operands.  What was bound stays bound even when the predicate turns
out to be impossible, so a result carries its operands beside its outcome and not inside it.
-/
namespace PageQuery

structure Binding (α : Type) where
  operands : List Value
  outcome : Except CriterionFault α

namespace Binding

def pure {α : Type} (a : α) : Binding α := ⟨[], .ok a⟩

/-- Nothing more is bound after a fault. -/
def bind {α β : Type} (x : Binding α) (f : α → Binding β) : Binding β :=
  match x.outcome with
  | .error e => ⟨x.operands, .error e⟩
  | .ok a => ⟨x.operands ++ (f a).operands, (f a).outcome⟩

instance : Monad Binding where
  pure := Binding.pure
  bind := Binding.bind

def fault {α : Type} (e : CriterionFault) : Binding α := ⟨[], .error e⟩

def ofExcept {α : Type} (x : Except CriterionFault α) : Binding α := ⟨[], x⟩

def operand (x : Except CriterionFault Value) : Binding Value :=
  match x with
  | .ok v => ⟨[v], .ok v⟩
  | .error e => fault e

def operandList (vs : List Value) : Binding (List Value) := ⟨vs, .ok vs⟩

theorem bind_ok {α β : Type} (vs : List Value) (a : α) (f : α → Binding β) :
    Binding.bind ⟨vs, .ok a⟩ f = ⟨vs ++ (f a).operands, (f a).outcome⟩ := rfl

theorem bind_error {α β : Type} (vs : List Value) (e : CriterionFault) (f : α → Binding β) :
    Binding.bind ⟨vs, .error e⟩ f = ⟨vs, .error e⟩ := rfl

end Binding

/-- A bound value and the name it goes by. -/
structure Parameter where
  name : String
  value : Value
  deriving DecidableEq, Repr

end PageQuery
