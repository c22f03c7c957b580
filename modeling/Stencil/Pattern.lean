/-
  Patterns over characters, matched with priorities.

  A pattern is tried on the front of a text and passes the rest of the text on
  to what follows it.  Of two alternatives the first is preferred, a repetition
  prefers to go on, and the first way in which everything fits is taken.

  * `Pattern.find` is this meaning: the first success, with the rest of the
    match as a continuation;
  * `Pattern.sweep` computes it for every position of a text at once, from the
    end to the front, so that no position is tried twice (`sweep_places`);
  * `Pattern.match?` matches a pattern against a whole text (`match?_eq_find`).
    A `Match` holds the places that the marks of the pattern noted, and
    `Match.text?` reads the text of a group from it.
-/

namespace Stencil

/-- The two ends of a group. -/
inductive Edge where
  | left
  | right
  deriving DecidableEq, Repr

/-- Patterns whose groups are named by `ι`. -/
inductive Pattern (ι : Type) where
  /-- Fits the empty text. -/
  | empty
  /-- Fits one character of a class. -/
  | one (accepts : Char → Bool)
  /-- Fits characters of a class, as many as possible. -/
  | run (accepts : Char → Bool)
  /-- Fits pairs of a `lead` and a `follow` character and `single` characters, as many
      as possible, and a pair rather than a single character. -/
  | runPairs (lead follow single : Char → Bool)
  /-- Fits `first` and then `second`. -/
  | seq (first second : Pattern ι)
  /-- Fits `preferred`, or else `other`. -/
  | alt (preferred other : Pattern ι)
  /-- Fits the empty text and notes the place as an end of a group. -/
  | mark (group : ι) (edge : Edge)

/-- The places noted during a match: each end of a group with the text that
    was still ahead there. -/
abbrev Match (ι : Type) := List ((ι × Edge) × List Char)

variable {ι : Type}

/-- The text of a group, if both its ends were passed. -/
def Match.text? [DecidableEq ι] (m : Match ι) (group : ι) : Option (List Char) := do
  let ahead ← m.lookup (group, .left)
  let behind ← m.lookup (group, .right)
  return ahead.take (ahead.length - behind.length)

namespace Pattern

/-- A pattern whose text is noted under a name. -/
def group (name : ι) (p : Pattern ι) : Pattern ι :=
  .seq (.mark name .left) (.seq p (.mark name .right))

/-- A character of a class, and more of another class. -/
def word (first more : Char → Bool) : Pattern ι :=
  .seq (.one first) (.run more)

/-- Exactly the given text. -/
def literal (cs : List Char) : Pattern ι :=
  cs.foldr (fun c p => .seq (.one (· == c)) p) .empty

/-! ## The meaning of a pattern -/

/-- What follows a pattern: a match for the rest of the text, if there is one. -/
abbrev Next (ι : Type) := List Char → Option (Match ι)

/-- The first success of a run of characters of a class. -/
def findRun (accepts : Char → Bool) (next : Next ι) : List Char → Option (Match ι)
  | [] => next []
  | c :: r => (if accepts c then findRun accepts next r else none).or (next (c :: r))

/-- The first success of a run of pairs and single characters. -/
def findPairs (lead follow single : Char → Bool) (next : Next ι) : List Char → Option (Match ι)
  | [] => next []
  | [c] => (if single c then next [] else none).or (next [c])
  | c :: d :: r =>
    ((if lead c && follow d then findPairs lead follow single next r else none).or
      (if single c then findPairs lead follow single next (d :: r) else none)).or
      (next (c :: d :: r))

/-- The first way in which a pattern and then `next` fit a text. -/
def find : Pattern ι → Next ι → List Char → Option (Match ι)
  | .empty, next, s => next s
  | .one _, _, [] => none
  | .one accepts, next, c :: r => if accepts c then next r else none
  | .run accepts, next, s => findRun accepts next s
  | .seq p q, next, s => p.find (q.find next) s
  | .alt p q, next, s => (p.find next s).or (q.find next s)
  | .runPairs lead follow single, next, s => findPairs lead follow single next s
  | .mark g e, next, s => (next s).map (((g, e), s) :: ·)

/-- What follows a pattern that has to reach the end of the text. -/
def atEnd : Next ι
  | [] => some []
  | _ :: _ => none

/-! ## All positions at once -/

/-- The positions of a text: what is ahead at each of them. -/
def places : List Char → List (List Char)
  | [] => [[]]
  | c :: r => (c :: r) :: places r

/-- One character, at every position of a text: `ts` holds what follows, for
    the text and each text behind it. -/
def sweepOne (accepts : Char → Bool) : List Char → List (Option (Match ι)) → List (Option (Match ι))
  | c :: r, _ :: ts => (if accepts c then ts.head?.join else none) :: sweepOne accepts r ts
  | _, _ => [none]

/-- A run of characters, at every position of a text. -/
def sweepRun (accepts : Char → Bool) : List Char → List (Option (Match ι)) → List (Option (Match ι))
  | c :: r, t :: ts =>
    let later := sweepRun accepts r ts
    ((if accepts c then later.head?.join else none).or t) :: later
  | _, ts => ts

/-- A run of pairs and single characters, at every position of a text. -/
def sweepPairs (lead follow single : Char → Bool) :
    List Char → List (Option (Match ι)) → List (Option (Match ι))
  | c :: r, t :: ts =>
    let later := sweepPairs lead follow single r ts
    let isPair := lead c && r.head?.any follow
    (((if isPair then later.tail.head?.join else none).or
      (if single c then later.head?.join else none)).or t) :: later
  | _, ts => ts

/-- A mark, at every position of a text. -/
def sweepMark (g : ι) (e : Edge) : List Char → List (Option (Match ι)) → List (Option (Match ι))
  | c :: r, t :: ts => t.map (((g, e), c :: r) :: ·) :: sweepMark g e r ts
  | [], t :: _ => [t.map (((g, e), []) :: ·)]
  | _, [] => []

/-- A pattern at every position of a text, given what follows at every
    position. -/
def sweep : Pattern ι → List Char → List (Option (Match ι)) → List (Option (Match ι))
  | .empty, _, ts => ts
  | .one accepts, s, ts => sweepOne accepts s ts
  | .run accepts, s, ts => sweepRun accepts s ts
  | .seq p q, s, ts => p.sweep s (q.sweep s ts)
  | .alt p q, s, ts => List.zipWith Option.or (p.sweep s ts) (q.sweep s ts)
  | .runPairs lead follow single, s, ts => sweepPairs lead follow single s ts
  | .mark g e, s, ts => sweepMark g e s ts

/-- The match of a pattern with a whole text, if there is one. -/
def match? (p : Pattern ι) (s : List Char) : Option (Match ι) :=
  (p.sweep s ((places s).map atEnd)).head?.join

/-- Whether a pattern fits a whole text. -/
def fits (p : Pattern ι) (s : List Char) : Bool :=
  (p.match? s).isSome

/-! ## The sweep computes the meaning -/

@[simp] theorem head?_places (s : List Char) : (places s).head? = some s := by
  cases s <;> rfl

theorem sweepOne_places (accepts : Char → Bool) (next : Next ι) (s : List Char) :
    sweepOne accepts s ((places s).map next) = (places s).map (find (.one accepts) next) := by
  induction s with
  | nil => rfl
  | cons c r ih => simp [places, sweepOne, ih, find]

theorem sweepRun_places (accepts : Char → Bool) (next : Next ι) (s : List Char) :
    sweepRun accepts s ((places s).map next) = (places s).map (findRun accepts next) := by
  induction s with
  | nil => rfl
  | cons c r ih => simp [places, sweepRun, ih, findRun]

theorem sweepPairs_places (lead follow single : Char → Bool) (next : Next ι) (s : List Char) :
    sweepPairs lead follow single s ((places s).map next) =
      (places s).map (findPairs lead follow single next) := by
  induction s with
  | nil => rfl
  | cons c r ih =>
    cases r with
    | nil => simp [places, sweepPairs, findPairs]
    | cons d r =>
      rw [places, List.map_cons, sweepPairs, ih]
      simp [places, findPairs]

theorem sweepMark_places (g : ι) (e : Edge) (next : Next ι) (s : List Char) :
    sweepMark g e s ((places s).map next) = (places s).map (find (.mark g e) next) := by
  induction s with
  | nil => rfl
  | cons c r ih => simp [places, sweepMark, ih, find]

/-- **Sweeping computes the first success at every position.** -/
theorem sweep_places (p : Pattern ι) (next : Next ι) (s : List Char) :
    p.sweep s ((places s).map next) = (places s).map (p.find next) := by
  induction p generalizing next with
  | empty => rfl
  | one accepts => exact sweepOne_places accepts next s
  | run accepts => exact sweepRun_places accepts next s
  | seq p q ihp ihq => simp only [sweep, ihq, ihp]; rfl
  | alt p q ihp ihq => simp only [sweep, ihp, ihq, List.zipWith_map, List.zipWith_self]; rfl
  | runPairs lead follow single => exact sweepPairs_places lead follow single next s
  | mark g e => exact sweepMark_places g e next s

/-- **Matching a whole text is the first success that reaches its end.** -/
theorem match?_eq_find (p : Pattern ι) (s : List Char) : p.match? s = p.find atEnd s := by
  simp [match?, sweep_places]

end Pattern

end Stencil
