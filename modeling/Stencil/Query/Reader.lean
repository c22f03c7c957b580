/-
  Reading a query.

      query := name join*
      join  := "join" name "on" refs "=" refs
      refs  := ref ("," ref)*
      ref   := name "." name

  A join names a table that is not yet part of the query.  Its two lists of
  references have the same length, and of the two references at each place one
  names the joined table and the other a table in front of it.

  * `Problem` is everything that can be wrong with the tokens of a query, and
    `Problem.reason` says it in words;
  * `readRef`, `readRefs`, `readJoin`, `readJoins` and `readPlan` read the parts
    of the grammar from the front of a list of tokens;
  * `Plan.ofQuery` reads a query.
-/
import Stencil.Outcome
import Stencil.Query.Plan
import Stencil.Query.Token

namespace Stencil.Query

open Text

/-! ## What can be wrong -/

/-- What can be wrong with the tokens of a query. -/
inductive Problem where
  /-- There is no token. -/
  | empty
  /-- Another token than the expected ones, or the end of the query. -/
  | unexpected (expected : String) (found : Option Token)
  | repeatedTable (table : String)
  | arity (left right : Nat)
  /-- Both references at a place name the joined table. -/
  | bothLocal (table : String)
  /-- No reference at a place names the joined table. -/
  | neitherLocal (table : String)
  | notIntroduced (foreign table : String)
  deriving DecidableEq, Repr

/-- The problem in words. -/
def Problem.reason : Problem → String
  | empty => "query is empty"
  | unexpected expected none => "expected " ++ expected ++ ", found end of query"
  | unexpected expected (some t) => "expected " ++ expected ++ ", found `" ++ t.text ++ "`"
  | repeatedTable table => "table `" ++ table ++ "` is already part of the query"
  | arity left right =>
    "left side lists " ++ toString left ++ " column(s) but right side lists " ++ toString right
  | bothLocal table => "both sides name the joined table `" ++ table ++ "`"
  | neitherLocal table => "neither side names the joined table `" ++ table ++ "`"
  | notIntroduced foreign table =>
    "table `" ++ foreign ++ "` is not introduced before `" ++ table ++ "`"

/-- A problem and the bytes at fault; at the end of a query no bytes are. -/
structure Rejection where
  problem : Problem
  span : Option Span
  deriving DecidableEq, Repr

/-- Another token than the expected ones. -/
def unexpected {α : Type} (expected : String) : List Token → Except Rejection α
  | [] => .error ⟨.unexpected expected none, none⟩
  | t :: _ => .error ⟨.unexpected expected (some t), some t.span⟩

/-! ## Single tokens -/

/-- A token of a kind. -/
def readKind (kind : Kind) : List Token → Except Rejection (Token × List Token)
  | [] => unexpected kind.describe []
  | t :: rest => if t.kind = kind then .ok (t, rest) else unexpected kind.describe (t :: rest)

/-- A name; `expected` says what it should be the name of. -/
def readName (expected : String) : List Token → Except Rejection (Token × List Token)
  | [] => unexpected expected []
  | t :: rest => if t.kind = .identifier then .ok (t, rest) else unexpected expected (t :: rest)

theorem readKind_eq_ok {kind : Kind} {ts rest : List Token} {t : Token} :
    readKind kind ts = .ok (t, rest) ↔ ts = t :: rest ∧ t.kind = kind := by
  cases ts with
  | nil => simp [readKind, unexpected]
  | cons u us =>
    simp only [readKind]
    split
    · rename_i h
      simp only [Except.ok.injEq, Prod.mk.injEq, List.cons.injEq]
      exact ⟨fun e => ⟨e, e.1 ▸ h⟩, fun e => e.1⟩
    · rename_i h
      simp only [unexpected, List.cons.injEq, reduceCtorEq, false_iff]
      exact fun e => h (e.1.1 ▸ e.2)

theorem readName_eq_ok {expected : String} {ts rest : List Token} {t : Token} :
    readName expected ts = .ok (t, rest) ↔ ts = t :: rest ∧ t.kind = .identifier := by
  cases ts with
  | nil => simp [readName, unexpected]
  | cons u us =>
    simp only [readName]
    split
    · rename_i h
      simp only [Except.ok.injEq, Prod.mk.injEq, List.cons.injEq]
      exact ⟨fun e => ⟨e, e.1 ▸ h⟩, fun e => e.1⟩
    · rename_i h
      simp only [unexpected, List.cons.injEq, reduceCtorEq, false_iff]
      exact fun e => h (e.1.1 ▸ e.2)

/-! ## References -/

/-- A column of a table, with the bytes that name it. -/
structure Ref where
  table : String
  column : String
  span : Span
  deriving DecidableEq, Repr

/-- The reference that two names make up. -/
def Ref.ofTokens (table column : Token) : Ref :=
  ⟨table.text, column.text, ⟨table.span.start, column.span.stop⟩⟩

/-- A reference. -/
def readRef (ts : List Token) : Except Rejection (Ref × List Token) := do
  let (table, ts) ← readName "a `table.column` reference" ts
  let (_, ts) ← readKind .dot ts
  let (column, ts) ← readName "a column name after `.`" ts
  return (.ofTokens table column, ts)

/-- A reference is a name, a dot and a name. -/
theorem readRef_eq_ok {ts rest : List Token} {ref : Ref} :
    readRef ts = .ok (ref, rest) ↔ ∃ table dot column,
      ts = table :: dot :: column :: rest ∧ table.kind = .identifier ∧ dot.kind = .dot ∧
        column.kind = .identifier ∧ ref = .ofTokens table column := by
  simp only [readRef, bind_eq_ok, Prod.exists, readName_eq_ok, readKind_eq_ok, pure, Except.pure,
    Except.ok.injEq, Prod.mk.injEq]
  constructor
  · rintro ⟨t, _, ⟨rfl, ht⟩, d, _, ⟨rfl, hd⟩, c, _, ⟨rfl, hc⟩, rfl, rfl⟩
    exact ⟨t, d, c, rfl, ht, hd, hc, rfl⟩
  · rintro ⟨t, d, c, rfl, ht, hd, hc, rfl⟩
    exact ⟨t, _, ⟨rfl, ht⟩, d, _, ⟨rfl, hd⟩, c, _, ⟨rfl, hc⟩, rfl, rfl⟩

/-- References with commas between them. -/
def readRefs (ts : List Token) : Except Rejection (List Ref × List Token) :=
  match _h : readRef ts with
  | .error e => .error e
  | .ok (ref, []) => .ok ([ref], [])
  | .ok (ref, t :: rest) =>
    if t.kind = .comma then
      match readRefs rest with
      | .error e => .error e
      | .ok (refs, rest) => .ok (ref :: refs, rest)
    else .ok ([ref], t :: rest)
termination_by ts.length
decreasing_by
  obtain ⟨_, _, _, rfl, _⟩ := readRef_eq_ok.1 _h
  simp only [List.length_cons]; omega

/-- References take at least three tokens. -/
theorem length_of_readRefs {ts rest : List Token} {refs : List Ref}
    (h : readRefs ts = .ok (refs, rest)) : rest.length < ts.length := by
  fun_induction readRefs ts generalizing refs rest with
  | case1 => simp at h
  | case2 ts ref hr =>
    obtain ⟨_, _, _, rfl, _⟩ := readRef_eq_ok.1 hr
    simp only [Except.ok.injEq, Prod.mk.injEq] at h
    simp [← h.2]
  | case3 => simp at h
  | case4 ts ref t rest' hr _ refs' rest'' hr' ih =>
    obtain ⟨_, _, _, rfl, _⟩ := readRef_eq_ok.1 hr
    simp only [Except.ok.injEq, Prod.mk.injEq] at h
    have := ih hr'
    simp only [← h.2, List.length_cons]; omega
  | case5 ts ref t rest' hr =>
    obtain ⟨_, _, _, rfl, _⟩ := readRef_eq_ok.1 hr
    simp only [Except.ok.injEq, Prod.mk.injEq] at h
    simp only [← h.2, List.length_cons]; omega

/-! ## Joins -/

/-- The key that two references at one place make up, where `table` is joined to
    the tables `introduced`. -/
def key (introduced : List String) (table : String) (left right : Ref) : Except Rejection Key :=
  let pair : Span := ⟨left.span.start, right.span.stop⟩
  let make := fun (foreign own : Ref) =>
    match introduced.idxOf? foreign.table with
    | some position => .ok ⟨position, foreign.column, own.column⟩
    | none => .error ⟨.notIntroduced foreign.table table, some foreign.span⟩
  if left.table = table then
    if right.table = table then .error ⟨.bothLocal table, some pair⟩ else make right left
  else if right.table = table then make left right
  else .error ⟨.neitherLocal table, some pair⟩

/-- The keys that two lists of references make up, place by place. -/
def keys (introduced : List String) (table : String) (left right : List Ref) :
    Except Rejection (List Key) :=
  if left.length = right.length then
    (left.zip right).mapM fun p => key introduced table p.1 p.2
  else
    .error ⟨.arity left.length right.length,
      some ⟨(left.head?.map (·.span.start)).getD 0, (right.getLast?.map (·.span.stop)).getD 0⟩⟩

/-- What stands behind the word `join`. -/
def readJoin (introduced : List String) (ts : List Token) :
    Except Rejection (Join × List Token) := do
  let (table, ts) ← readName "a table name after `join`" ts
  if table.text ∈ introduced then
    throw ⟨.repeatedTable table.text, some table.span⟩
  let (_, ts) ← readKind .on ts
  let (left, ts) ← readRefs ts
  let (_, ts) ← readKind .equals ts
  let (right, ts) ← readRefs ts
  let keys ← keys introduced table.text left right
  return (⟨table.text, keys⟩, ts)

/-- A join takes tokens. -/
theorem length_of_readJoin {introduced : List String} {ts rest : List Token} {join : Join}
    (h : readJoin introduced ts = .ok (join, rest)) : rest.length < ts.length := by
  simp only [readJoin, bind_eq_ok, Prod.exists, readName_eq_ok] at h
  obtain ⟨table, ts', ⟨rfl, _⟩, h⟩ := h
  split at h
  · simp [throw, throwThe, MonadExceptOf.throw, bind, Except.bind] at h
  · simp only [bind_eq_ok, Prod.exists, readKind_eq_ok, pure, Except.pure] at h
    obtain ⟨_, _, ⟨rfl, _⟩, _, _, hl, _, _, ⟨rfl, _⟩, _, _, hr, _, _, h⟩ := h
    have hl := length_of_readRefs hl
    have hr := length_of_readRefs hr
    simp only [Except.ok.injEq, Prod.mk.injEq] at h
    simp only [List.length_cons, ← h.2] at hl ⊢
    omega

/-- Joins up to the end of the query. -/
def readJoins (introduced : List String) (ts : List Token) : Except Rejection (List Join) :=
  match ts with
  | [] => .ok []
  | t :: rest =>
    if t.kind = .join then
      match _h : readJoin introduced rest with
      | .error e => .error e
      | .ok (join, rest) => (join :: ·) <$> readJoins (introduced ++ [join.table]) rest
    else unexpected "`join` or end of query" (t :: rest)
termination_by ts.length
decreasing_by
  have := length_of_readJoin _h
  simp only [List.length_cons]; omega

/-! ## Queries -/

/-- The plan that the tokens of a query say. -/
def readPlan (ts : List Token) : Except Rejection Plan := do
  if ts = [] then
    throw ⟨.empty, none⟩
  let (base, ts) ← readName "a table name" ts
  let joins ← readJoins [base.text] ts
  return ⟨base.text, joins⟩

/-- The error for a rejection: at the end of a query its last token is at fault,
    and in a query without tokens all of it. -/
def Rejection.error (r : Rejection) (query : String) (ts : List Token) : SyntaxError where
  query := query
  span := (r.span.or (ts.getLast?.map (·.span))).getD ⟨0, byteSize query.toList⟩
  reason := r.problem.reason

/-- The plan of a query. -/
def Plan.ofQuery (query : String) : Except SyntaxError Plan := do
  let ts ← tokens query
  (readPlan ts).mapError (·.error query ts)

end Stencil.Query
