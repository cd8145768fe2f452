import Dalvik.Machine.Store

/-!
# Comparing values

Numbers compare by what they stand for, exactly, whatever their types are; texts, octets and lists compare
by their first difference. Classes and members of one sort are equal when their signatures are. Everything
else is equal only to itself, and has no order.
-/

namespace Dalvik

def Relation.accepts (r : Relation) (o : Ordering) : Bool :=
  match r with
  | .le => o != .gt
  | .ge => o != .lt
  | .gt => o == .gt
  | .lt => o == .lt
  | .ne => o != .eq
  | .eq => o == .eq

namespace Store

/-- The order of two numbers, which need not be comparable; `none` if one of the values is no number. -/
def compareNumbers? (a b : Value) : Option (Option Ordering) :=
  match a, b with
  | .float x, .float y => some (x.compare? y)
  | .float x, v => v.int?.map fun n => (Double.compareInt? n x).map Ordering.swap
  | v, .float y => v.int?.map fun n => Double.compareInt? n y
  | v, w =>
    match v.int?, w.int? with
    | some n, some m => some (some (compare n m))
    | _, _ => none

def equalSimple (a b : Value) : Act Bool := do
  match compareNumbers? a b with
  | some o => pure (o == some .eq)
  | none =>
    match a, b with
    | .cls _, .cls _ | .method _, .method _ | .field _, .field _ | .annot _, .annot _ =>
      pure ((← member? a).map (·.signature) == (← member? b).map (·.signature))
    | .type m _, .type n _ => pure (m == n)
    | _, _ => pure (decide (a = b))

mutual

/-- Whether two values are equal, where lists are nested at most `n` deep. -/
def equalWithin : Nat → Value → Value → Act Bool
  | 0, .list _, .list _ => throw .endless
  | n + 1, .list i, .list j => do
    let xs ← items i
    let ys ← items j
    if xs.length != ys.length then pure false else equalItems n xs ys
  | _, a, b => equalSimple a b

/-- Whether two lists of the same length have equal members. What is the same is equal here. -/
def equalItems (n : Nat) : List Value → List Value → Act Bool
  | x :: xs, y :: ys => do
    if x = y then equalItems n xs ys
    else if ← equalWithin n x y then equalItems n xs ys
    else pure false
  | _, _ => pure true

end

def equal (a b : Value) : Act Bool :=
  equalWithin nestingLimit a b

/-- Whether two values are told apart: a member is never told apart from something of another sort. -/
def unequal (a b : Value) : Act Bool := do
  let sameSort := match a, b with
    | .cls _, .cls _ | .method _, .method _ | .field _, .field _ | .annot _, .annot _ => true
    | _, _ => false
  if (a.isMember || b.isMember) && !sameSort then pure false
  else pure !(← equal a b)

def compareOctets : List UInt8 → List UInt8 → Ordering
  | [], [] => .eq
  | [], _ :: _ => .lt
  | _ :: _, [] => .gt
  | x :: xs, y :: ys => (compare x.toNat y.toNat).then (compareOctets xs ys)

/-- The first places at which two lists differ. -/
def firstDifference (n : Nat) : List Value → List Value → Act (Option (Value × Value))
  | x :: xs, y :: ys => do
    if x = y then firstDifference n xs ys
    else if ← equalWithin n x y then firstDifference n xs ys
    else pure (some (x, y))
  | _, _ => pure none

/-- Whether two values stand in an order relation, where lists are nested at most `n` deep. -/
def orderedWithin (r : Relation) : Nat → Value → Value → Act Bool
  | n, a, b => do
    match compareNumbers? a b with
    | some o => pure (o.any (r.accepts))
    | none =>
      match n, a, b with
      | _, .text s, .text t => pure (r.accepts (s.cmp t))
      | _, .octets s, .octets t => pure (r.accepts (compareOctets s t))
      | 0, .list _, .list _ => throw .endless
      | n + 1, .list i, .list j =>
        let xs ← items i
        let ys ← items j
        match ← firstDifference n xs ys with
        | some (x, y) => orderedWithin r n x y
        | none => pure (r.accepts (compare xs.length ys.length))
      | _, _, _ => throw .operandType

def related (r : Relation) (a b : Value) : Act Bool :=
  match r with
  | .eq => equal a b
  | .ne => unequal a b
  | r => orderedWithin r nestingLimit a b

end Store

end Dalvik
