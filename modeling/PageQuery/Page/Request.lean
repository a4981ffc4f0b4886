import PageQuery.Filter.Criterion
/-!
# Page requests

A request names a range, an ordering, and criteria, required or optional, each kind at most one
per path.  It is made by steps whose order does not matter but for repetition: a later range or
criterion replaces the earlier, a criterion keeping its place.  Two mistakes are found at the end,
a limit of zero before an ordering that names a path twice.
-/
namespace PageQuery

structure Ordering where
  path : String
  ascending : Bool
  deriving DecidableEq, Repr

structure Filter where
  path : String
  criterion : Criterion
  deriving Repr

structure Request where
  offset : UInt64
  limit : Option UInt64
  ordering : List Ordering
  required : List Filter
  optional : List Filter
  deriving Repr

inductive RequestStep where
  | offset (n : UInt64)
  | limit (n : UInt64)
  | unbounded
  | orderBy (path : String) (ascending : Bool)
  | require (path : String) (c : MadeCriterion)
  | prefer (path : String) (c : MadeCriterion)

def putFilter (fs : List Filter) (path : String) (c : Criterion) : List Filter :=
  if fs.any (fun f => f.path == path) then
    fs.map fun f => if f.path = path then ⟨path, c⟩ else f
  else fs ++ [⟨path, c⟩]

theorem paths_putFilter (fs : List Filter) (path : String) (c : Criterion) :
    (putFilter fs path c).map Filter.path =
      if path ∈ fs.map Filter.path then fs.map Filter.path else fs.map Filter.path ++ [path] := by
  have same : (fs.map fun f => if f.path = path then ⟨path, c⟩ else f).map Filter.path =
      fs.map Filter.path := by
    rw [List.map_map]
    refine List.map_congr_left fun f _ => ?_
    simp only [Function.comp_apply]
    split
    · next h => exact h.symm
    · rfl
  unfold putFilter
  by_cases h : path ∈ fs.map Filter.path
  · have : fs.any (fun f => f.path == path) = true := by
      obtain ⟨f, hf, rfl⟩ := List.mem_map.1 h
      exact List.any_eq_true.2 ⟨f, hf, by simp⟩
    rw [if_pos this, if_pos h, same]
  · have : ¬ fs.any (fun f => f.path == path) = true := by
      intro ha
      obtain ⟨f, hf, he⟩ := List.any_eq_true.1 ha
      exact h (List.mem_map.2 ⟨f, hf, by simpa using he⟩)
    rw [if_neg this, if_neg h, List.map_append]
    rfl

def firstRepeated (seen : List String) : List Ordering → Option String
  | [] => none
  | o :: os => if seen.contains o.path then some o.path else firstRepeated (o.path :: seen) os

namespace Request

def all : Request := ⟨0, none, [], [], []⟩

def one : Request := { all with limit := some 1 }

def step (r : Request) : RequestStep → Request
  | .offset n => { r with offset := n }
  | .limit n => { r with limit := some n }
  | .unbounded => { r with limit := none }
  | .orderBy path ascending => { r with ordering := r.ordering ++ [⟨path, ascending⟩] }
  | .require path c => { r with required := putFilter r.required path c.criterion }
  | .prefer path c => { r with optional := putFilter r.optional path c.criterion }

def checked (r : Request) : Except RequestFault Request :=
  if r.limit = some 0 then .error .zeroLimit
  else
    match firstRepeated [] r.ordering with
    | some path => .error (.duplicateOrdering path)
    | none => .ok r

def ofSteps (steps : List RequestStep) : Except RequestFault Request :=
  (steps.foldl step all).checked

def capped? (r : Request) (max : UInt64) : Option Request :=
  match r.limit with
  | some n => if n ≤ max then none else some { r with limit := some max }
  | none => some { r with limit := some max }

end Request
end PageQuery
