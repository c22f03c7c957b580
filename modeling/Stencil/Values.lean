/-
  Values: texts by name.

  * `Values.ofPairs` collects pairs of a name and a text, and `get?_ofPairs` says
    that the last pair of a name holds;
  * `Values.override` lets the values of one collection hold against those of
    another.
-/
import Std.Data.ExtTreeMap

namespace Stencil

/-- Texts by name. -/
structure Values where
  byName : Std.ExtTreeMap String String

namespace Values

/-- The values with one more pair, which holds against an earlier one of the
    same name. -/
def insert (v : Values) (pair : String × String) : Values :=
  ⟨v.byName.insert pair.1 pair.2⟩

/-- No values. -/
def empty : Values :=
  ⟨∅⟩

/-- The values of the given pairs; of several pairs with one name the last
    holds. -/
def ofPairs (pairs : List (String × String)) : Values :=
  pairs.foldl insert empty

/-- The value of a name. -/
def get? (v : Values) (name : String) : Option String :=
  v.byName[name]?

/-- Whether a name has a value. -/
def contains (v : Values) (name : String) : Bool :=
  v.byName.contains name

/-- The names, in order. -/
def names (v : Values) : List String :=
  v.byName.keys

/-- The names with their values, in the order of the names. -/
def toList (v : Values) : List (String × String) :=
  v.byName.toList

/-- The number of names. -/
def size (v : Values) : Nat :=
  v.byName.size

/-- The values of both collections; those of `later` hold. -/
def override (v later : Values) : Values :=
  later.toList.foldl insert v

/-- Values are the same if every name has the same value. -/
@[ext] theorem ext {v w : Values} (h : ∀ name, v.get? name = w.get? name) : v = w := by
  cases v; cases w
  exact congrArg mk (Std.ExtTreeMap.ext_getElem? h)

@[simp] theorem get?_empty (name : String) : empty.get? name = none := by
  simp [get?, empty]

theorem get?_insert (v : Values) (pair : String × String) (name : String) :
    (v.insert pair).get? name = if pair.1 = name then some pair.2 else v.get? name := by
  simp [get?, insert, Std.ExtTreeMap.getElem?_insert]

theorem get?_foldl_insert (pairs : List (String × String)) (v : Values) (name : String) :
    (pairs.foldl insert v).get? name =
      (((pairs.filter fun p => p.1 = name).getLast?).map Prod.snd).or (v.get? name) := by
  induction pairs generalizing v with
  | nil => rfl
  | cons p rest ih =>
    rw [List.foldl_cons, ih, get?_insert]
    by_cases h : p.1 = name
    · subst h
      cases hr : (rest.filter fun q => q.1 = p.1).getLast? <;> simp [List.getLast?_cons, hr]
    · simp [h]

/-- **The last pair of a name holds.** -/
theorem get?_ofPairs (pairs : List (String × String)) (name : String) :
    (ofPairs pairs).get? name = ((pairs.filter fun p => p.1 = name).getLast?).map Prod.snd := by
  simp [ofPairs, get?_foldl_insert]

end Values

end Stencil
