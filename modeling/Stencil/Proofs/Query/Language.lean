/-
  The language of queries.

      sentence := name clause*
      clause   := "join" name "on" refs "=" refs
      refs     := ref ("," ref)*
      ref      := name "." name

  * `IsClause`, `IsClauses` and `IsSentence` are the rules of this grammar (`IsRefs` is
    that of references).  They look at the kinds of tokens only;
  * `Sentence.Says`: what has to hold of the tables and columns that a sentence names, and
    the plan that it then says;
  * `ofQuery_eq_ok_iff_sentence`: a query says a plan if its tokens are those of a sentence
    that says it.
-/
import Stencil.Proofs.Query.RoundTrip

namespace Stencil.Query

/-! ## The grammar -/

/-- A join as it is written: its table and the references on the two sides. -/
structure Clause where
  table : String
  left : List Ref
  right : List Ref

/-- A query as it is written. -/
structure Sentence where
  base : String
  clauses : List Clause

inductive IsClause : List Token → Clause → Prop
  | intro {word table on equals ls rs left right} :
      word.kind = .join → table.kind = .identifier → on.kind = .on → IsRefs ls left →
      equals.kind = .equals → IsRefs rs right →
      IsClause (word :: table :: on :: (ls ++ equals :: rs)) ⟨table.text, left, right⟩

inductive IsClauses : List Token → List Clause → Prop
  | nil : IsClauses [] []
  | cons {ts rest clause clauses} :
      IsClause ts clause → IsClauses rest clauses → IsClauses (ts ++ rest) (clause :: clauses)

inductive IsSentence : List Token → Sentence → Prop
  | intro {base ts clauses} :
      base.kind = .identifier → IsClauses ts clauses →
      IsSentence (base :: ts) ⟨base.text, clauses⟩

/-! ## What a sentence says -/

/-- Two references at one place say a key: one of them names a column of `table` and the other
    a column of a table that was introduced. -/
def SaysKey (introduced : List String) (table : String) (left right : Ref) (key : Key) : Prop :=
  ∃ own foreign : Ref, (own = left ∧ foreign = right ∨ own = right ∧ foreign = left) ∧
    own.table = table ∧ foreign.table ≠ table ∧
    introduced[key.foreignTable]? = some foreign.table ∧
    key.foreignColumn = foreign.column ∧ key.localColumn = own.column

/-- A clause behind the tables `introduced` says a join. -/
structure Clause.Says (introduced : List String) (clause : Clause) (join : Join) : Prop where
  table_notMem : clause.table ∉ introduced
  table_eq : join.table = clause.table
  length_eq : clause.left.length = clause.right.length
  keys : List.Forall₂ (fun sides key => SaysKey introduced clause.table sides.1 sides.2 key)
    (clause.left.zip clause.right) join.keys

/-- Clauses behind the tables `introduced` say joins: each is behind the tables of the clauses
    in front of it, too. -/
structure SaysJoins (introduced : List String) (clauses : List Clause) (joins : List Join) :
    Prop where
  length_eq : joins.length = clauses.length
  clause : ∀ (k : Nat) (clause : Clause) (join : Join), clauses[k]? = some clause →
    joins[k]? = some join → clause.Says (introduced ++ (clauses.take k).map (·.table)) join

/-- A sentence says a plan. -/
structure Sentence.Says (s : Sentence) (p : Plan) : Prop where
  base_eq : p.base = s.base
  joins : SaysJoins [s.base] s.clauses p.joins

/-! ## Derivations of clauses and of joins -/

/-- A table is introduced once, so its position is the only one at which it stands. -/
theorem saysKey_iff {introduced : List String} (hn : introduced.Nodup) {table : String}
    {left right : Ref} {key : Key} :
    SaysKey introduced table left right key ↔ IsKey introduced table left right key := by
  constructor
  · rintro ⟨own, foreign, hsides, hown, hforeign, hposition, hf, ho⟩
    obtain ⟨position, foreignColumn, localColumn⟩ := key
    dsimp only at hf ho hposition
    subst hf ho
    rw [← idxOf?_eq_some_iff_getElem? hn] at hposition
    rcases hsides with ⟨rfl, rfl⟩ | ⟨rfl, rfl⟩
    · exact .foreignRight hown hforeign hposition
    · exact .foreignLeft hown hforeign hposition
  · rintro (⟨hown, hforeign, hposition⟩ | ⟨hown, hforeign, hposition⟩)
    · exact ⟨_, _, Or.inr ⟨rfl, rfl⟩, hown, hforeign,
        (idxOf?_eq_some_iff_getElem? hn).1 hposition, rfl, rfl⟩
    · exact ⟨_, _, Or.inl ⟨rfl, rfl⟩, hown, hforeign,
        (idxOf?_eq_some_iff_getElem? hn).1 hposition, rfl, rfl⟩

theorem isJoin_iff {introduced : List String} (hn : introduced.Nodup) {word : Token}
    (hword : word.kind = .join) {ts : List Token} {join : Join} :
    IsJoin introduced ts join ↔
      ∃ clause : Clause, IsClause (word :: ts) clause ∧ clause.Says introduced join := by
  constructor
  · rintro ⟨htable, hnew, hon, hleft, hequals, hright, hlength, hkeys⟩
    exact ⟨_, .intro hword htable hon hleft hequals hright, hnew, rfl, hlength,
      hkeys.imp fun _ _ => (saysKey_iff hn).2⟩
  · rintro ⟨_, ⟨-, htable, hon, hleft, hequals, hright⟩, hsaid⟩
    obtain ⟨table, keys⟩ := join
    have htext : table = _ := hsaid.table_eq
    subst htext
    exact .intro htable hsaid.table_notMem hon hleft hequals hright hsaid.length_eq
      (hsaid.keys.imp fun _ _ => (saysKey_iff hn).1)

theorem saysJoins_cons {introduced : List String} {clause : Clause} {clauses : List Clause}
    {join : Join} {joins : List Join} :
    SaysJoins introduced (clause :: clauses) (join :: joins) ↔
      clause.Says introduced join ∧ SaysJoins (introduced ++ [clause.table]) clauses joins := by
  have hfront : ∀ k, introduced ++ ((clause :: clauses).take (k + 1)).map (·.table) =
      introduced ++ [clause.table] ++ (clauses.take k).map (·.table) := by simp
  constructor
  · rintro ⟨hlength, hsaid⟩
    refine ⟨?_, ?_, fun k c j hc hj => ?_⟩
    · simpa using hsaid 0 clause join rfl rfl
    · simpa using hlength
    · rw [← hfront]
      exact hsaid (k + 1) c j hc hj
  · rintro ⟨hfirst, hlength, hsaid⟩
    refine ⟨by simpa using hlength, fun k c j hc hj => ?_⟩
    rcases k with _ | k
    · cases hc
      cases hj
      simpa using hfirst
    · rw [hfront]
      exact hsaid k c j hc hj

/-- **Tokens make up joins** if they are those of clauses that say them. -/
theorem isJoins_iff {introduced : List String} (hn : introduced.Nodup) {ts : List Token}
    {joins : List Join} :
    IsJoins introduced ts joins ↔
      ∃ clauses, IsClauses ts clauses ∧ SaysJoins introduced clauses joins := by
  have hsnoc : ∀ {introduced : List String} {table : String}, introduced.Nodup →
      table ∉ introduced → (introduced ++ [table]).Nodup := fun hn hnew =>
    hn.append (List.nodup_singleton _) (List.disjoint_singleton.2 hnew)
  constructor
  · intro h
    induction h with
    | nil => exact ⟨[], .nil, rfl, nofun⟩
    | cons hword hjoin _ ih =>
      obtain ⟨clause, hclause, hsaid⟩ := (isJoin_iff hn hword).1 hjoin
      rw [hsaid.table_eq] at ih
      obtain ⟨clauses, hclauses, hrest⟩ := ih (hsnoc hn hsaid.table_notMem)
      exact ⟨clause :: clauses, .cons hclause hclauses, saysJoins_cons.2 ⟨hsaid, hrest⟩⟩
  · rintro ⟨clauses, hclauses, hsaid⟩
    induction hclauses generalizing introduced joins with
    | nil =>
      obtain rfl := List.length_eq_zero_iff.1 hsaid.length_eq
      exact .nil
    | @cons ts rest clause clauses hclause _ ih =>
      rcases joins with _ | ⟨join, joins⟩
      · cases hsaid.length_eq
      obtain ⟨hfirst, hrest⟩ := saysJoins_cons.1 hsaid
      have hjoins := ih (hsnoc hn hfirst.table_notMem) hrest
      rw [← hfirst.table_eq] at hjoins
      -- the word in front of a clause belongs to the list of joins
      rcases hclause with ⟨hword, htable, hon, hleft, hequals, hright⟩
      exact .cons hword
        ((isJoin_iff hn hword).2 ⟨_, .intro hword htable hon hleft hequals hright, hfirst⟩) hjoins

theorem isQuery_iff {ts : List Token} {p : Plan} :
    IsQuery ts p ↔ ∃ s : Sentence, IsSentence ts s ∧ s.Says p := by
  constructor
  · rintro ⟨hbase, hjoins⟩
    obtain ⟨clauses, hclauses, hsaid⟩ := (isJoins_iff (List.nodup_singleton _)).1 hjoins
    exact ⟨_, .intro hbase hclauses, rfl, hsaid⟩
  · rintro ⟨_, ⟨hbase, hclauses⟩, hsaid⟩
    obtain ⟨base, joins⟩ := p
    have hname : base = _ := hsaid.base_eq
    subst hname
    exact .intro hbase ((isJoins_iff (List.nodup_singleton _)).2 ⟨_, hclauses, hsaid.joins⟩)

/-- **The language of queries.**  A query says a plan if it can be cut into tokens, these are
    the tokens of a sentence, and the sentence says the plan. -/
theorem ofQuery_eq_ok_iff_sentence (query : String) (p : Plan) :
    Plan.ofQuery query = .ok p ↔
      ∃ ts s, tokens query = .ok ts ∧ IsSentence ts s ∧ s.Says p := by
  rw [ofQuery_eq_ok]
  constructor
  · rintro ⟨ts, hts, hquery⟩
    obtain ⟨s, hs, hsaid⟩ := isQuery_iff.1 hquery
    exact ⟨ts, s, mapError_eq_ok.2 hts, hs, hsaid⟩
  · rintro ⟨ts, s, hts, hs, hsaid⟩
    exact ⟨ts, mapError_eq_ok.1 hts, isQuery_iff.2 ⟨s, hs, hsaid⟩⟩

end Stencil.Query
