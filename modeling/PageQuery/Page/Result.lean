/-!
# Pages

A page holds its items, the offset it was asked for and, when known, an estimate of the total,
which is never below the number of items.
-/
namespace PageQuery

/-- The end of a program that asked for what is no word. -/
inductive Panic where
  | overflow
  deriving DecidableEq, Repr

def checkedAdd (a b : UInt64) : Except Panic UInt64 :=
  if a.toNat + b.toNat < UInt64.size then .ok (a + b) else .error .overflow

structure Page (α : Type) where
  items : List α
  offset : UInt64
  estimatedTotal : Option UInt64

namespace Page

variable {α β : Type}

def size (p : Page α) : UInt64 := p.items.length.toUInt64

/-- A page whose total counts at least its own items. -/
def new (items : List α) (offset : UInt64) (total : Option UInt64) : Page α :=
  let n := items.length.toUInt64
  ⟨items, offset, total.map fun t => if t < n then n else t⟩

/-- The number of pages of a size that the total needs; unknown without a total, and for pages
that hold nothing. -/
def totalPages (p : Page α) (size : UInt64) : Option UInt64 :=
  if size = 0 then none
  else p.estimatedTotal.map fun t => if t % size = 0 then t / size else t / size + 1

/-- Whether items follow this page, if the total is known.  Only then the page's end is asked for,
which must be a word. -/
def hasNext (p : Page α) : Except Panic (Option Bool) :=
  match p.estimatedTotal with
  | none => .ok none
  | some t => (checkedAdd p.offset p.size).map fun stop => some (decide (stop < t))

def hasPrevious (p : Page α) : Bool := decide (0 < p.offset)

def map (f : α → β) (p : Page α) : Page β := ⟨p.items.map f, p.offset, p.estimatedTotal⟩

end Page
end PageQuery
