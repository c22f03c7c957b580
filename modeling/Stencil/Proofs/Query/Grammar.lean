/-
  The grammar of queries, as derivations.

  * `IsRefs`, `IsJoin`, `IsJoins` and `IsQuery` say which tokens make up lists of
    references, joins and queries, and what plan they say.  They look at the kinds
    and the texts of the tokens only, and never ahead;
  * `IsKey` says which key two references make up;
  * `readPlan_eq_ok`: the reader accepts the tokens that make up a query, and gives
    the plan that they say.
-/
import Stencil.Proofs.Outcome
import Stencil.Query.Reader

namespace Stencil.Query

/-! ## Derivations -/

/-- Tokens that make up references: names with dots between them, and commas between
    the references. -/
inductive IsRefs : List Token → List Ref → Prop
  | last {table dot column} :
      table.kind = .identifier → dot.kind = .dot → column.kind = .identifier →
      IsRefs [table, dot, column] [.ofTokens table column]
  | more {table dot column comma ts refs} :
      table.kind = .identifier → dot.kind = .dot → column.kind = .identifier →
      comma.kind = .comma → IsRefs ts refs →
      IsRefs (table :: dot :: column :: comma :: ts) (.ofTokens table column :: refs)

/-- The key that two references at one place make up, where `table` is joined to the
    tables `introduced`: one names a column of `table`, the other one of these. -/
inductive IsKey (introduced : List String) (table : String) : Ref → Ref → Key → Prop
  | foreignLeft {foreign own : Ref} {position : Nat} :
      own.table = table → foreign.table ≠ table →
      introduced.idxOf? foreign.table = some position →
      IsKey introduced table foreign own ⟨position, foreign.column, own.column⟩
  | foreignRight {foreign own : Ref} {position : Nat} :
      own.table = table → foreign.table ≠ table →
      introduced.idxOf? foreign.table = some position →
      IsKey introduced table own foreign ⟨position, foreign.column, own.column⟩

/-- Tokens that stand behind the word `join`: a new table and two lists of references
    of one length, which make up the keys place by place. -/
inductive IsJoin (introduced : List String) : List Token → Join → Prop
  | intro {table on equals ls rs left right keys} :
      table.kind = .identifier → table.text ∉ introduced → on.kind = .on →
      IsRefs ls left → equals.kind = .equals → IsRefs rs right → left.length = right.length →
      List.Forall₂ (fun p k => IsKey introduced table.text p.1 p.2 k) (left.zip right) keys →
      IsJoin introduced (table :: on :: (ls ++ equals :: rs)) ⟨table.text, keys⟩

/-- Tokens that make up joins, each of which introduces its table to the next ones. -/
inductive IsJoins : List String → List Token → List Join → Prop
  | nil {introduced} : IsJoins introduced [] []
  | cons {introduced word ts rest join joins} :
      word.kind = .join → IsJoin introduced ts join →
      IsJoins (introduced ++ [join.table]) rest joins →
      IsJoins introduced (word :: (ts ++ rest)) (join :: joins)

/-- Tokens that make up a query: a table and the joins to it. -/
inductive IsQuery : List Token → Plan → Prop
  | intro {base ts joins} :
      base.kind = .identifier → IsJoins [base.text] ts joins →
      IsQuery (base :: ts) ⟨base.text, joins⟩

/-! ## References -/

/-- No reference follows: the tokens do not start with a comma. -/
def EndsRefs (ts : List Token) : Prop :=
  ∀ t ∈ ts.head?, t.kind ≠ .comma

theorem IsRefs.ne_nil {ts : List Token} {refs : List Ref} (h : IsRefs ts refs) : refs ≠ [] := by
  cases h <;> simp

/-- The reader takes as many references as there are. -/
theorem readRefs_eq_ok {ts rest : List Token} {refs : List Ref} :
    readRefs ts = .ok (refs, rest) ↔
      ∃ front, ts = front ++ rest ∧ IsRefs front refs ∧ EndsRefs rest := by
  constructor
  · intro h
    fun_induction readRefs ts generalizing refs rest with
    | case1 => cases h
    | case2 ts ref hr =>
      obtain ⟨table, dot, column, rfl, ht, hd, hc, rfl⟩ := readRef_eq_ok.1 hr
      cases h
      exact ⟨_, rfl, .last ht hd hc, by simp [EndsRefs]⟩
    | case3 => cases h
    | case4 ts ref comma rest' hr hcomma refs' rest'' hr' ih =>
      obtain ⟨table, dot, column, rfl, ht, hd, hc, rfl⟩ := readRef_eq_ok.1 hr
      cases h
      obtain ⟨front, rfl, hfront, hends⟩ := ih hr'
      exact ⟨table :: dot :: column :: comma :: front, rfl, .more ht hd hc hcomma hfront, hends⟩
    | case5 ts ref t rest' hr hcomma =>
      obtain ⟨table, dot, column, rfl, ht, hd, hc, rfl⟩ := readRef_eq_ok.1 hr
      cases h
      exact ⟨[table, dot, column], rfl, .last ht hd hc, by simpa [EndsRefs] using hcomma⟩
  · rintro ⟨front, rfl, hfront, hends⟩
    induction hfront with
    | @last table dot column ht hd hc =>
      have hr : readRef ([table, dot, column] ++ rest) = .ok (.ofTokens table column, rest) :=
        readRef_eq_ok.2 ⟨table, dot, column, rfl, ht, hd, hc, rfl⟩
      rw [readRefs]
      split
      · rename_i e he
        rw [hr] at he
        cases he
      · rename_i ref he
        rw [hr] at he
        cases he
        rfl
      · rename_i ref t rest' he
        rw [hr] at he
        cases he
        rw [if_neg (hends t rfl)]
    | @more table dot column comma ts refs ht hd hc hcomma _ ih =>
      have hr : readRef (table :: dot :: column :: comma :: ts ++ rest) =
          .ok (.ofTokens table column, comma :: (ts ++ rest)) :=
        readRef_eq_ok.2 ⟨table, dot, column, rfl, ht, hd, hc, rfl⟩
      rw [readRefs]
      split
      · rename_i e he
        rw [hr] at he
        cases he
      · rename_i ref he
        rw [hr] at he
        cases he
      · rename_i ref t rest' he
        rw [hr] at he
        cases he
        rw [if_pos hcomma, ih]

/-! ## Keys -/

theorem key_eq_ok {introduced : List String} {table : String} {left right : Ref} {k : Key} :
    key introduced table left right = .ok k ↔ IsKey introduced table left right k := by
  constructor
  · intro h
    simp only [key] at h
    split_ifs at h with hl hr hr
    · split at h
      · rename_i position hp
        cases h
        exact .foreignRight hl hr hp
      · cases h
    · split at h
      · rename_i position hp
        cases h
        exact .foreignLeft hr hl hp
      · cases h
  · rintro (⟨ht, hne, hp⟩ | ⟨ht, hne, hp⟩)
    · simp only [key, if_neg hne, if_pos ht, hp]
    · simp only [key, if_neg hne, if_pos ht, hp]

theorem keys_eq_ok {introduced : List String} {table : String} {left right : List Ref}
    {ks : List Key} :
    keys introduced table left right = .ok ks ↔ left.length = right.length ∧
      List.Forall₂ (fun p k => IsKey introduced table p.1 p.2 k) (left.zip right) ks := by
  unfold keys
  split_ifs with hlen
  · simp only [mapM_eq_ok, key_eq_ok, hlen, true_and]
  · simp [hlen]

/-! ## Joins and queries -/

theorem readJoin_eq_ok {introduced : List String} {ts rest : List Token} {join : Join} :
    readJoin introduced ts = .ok (join, rest) ↔
      ∃ front, ts = front ++ rest ∧ IsJoin introduced front join ∧ EndsRefs rest := by
  simp only [readJoin, bind_eq_ok, Prod.exists, readName_eq_ok]
  constructor
  · rintro ⟨table, _, ⟨rfl, ht⟩, h⟩
    split at h
    · simp [throw, throwThe, MonadExceptOf.throw, bind, Except.bind] at h
    · rename_i hnew
      simp only [bind_eq_ok, Prod.exists, readKind_eq_ok, readRefs_eq_ok, keys_eq_ok, pure,
        Except.pure, Except.ok.injEq, Prod.mk.injEq] at h
      obtain ⟨on, _, ⟨rfl, hon⟩, left, _, ⟨ls, rfl, hl, -⟩, equals, _, ⟨rfl, heq⟩, right, _,
        ⟨rs, rfl, hr, hends⟩, ks, ⟨hlen, hks⟩, rfl, rfl⟩ := h
      exact ⟨_, by simp, .intro ht hnew hon hl heq hr hlen hks, hends⟩
  · rintro ⟨_, rfl, ⟨ht, hnew, hon, hl, heq, hr, hlen, hks⟩, hends⟩
    rename_i table on equals ls rs left right ks
    refine ⟨table, _, ⟨rfl, ht⟩, ?_⟩
    rw [if_neg hnew]
    simp only [bind_eq_ok, Prod.exists, readKind_eq_ok, readRefs_eq_ok, keys_eq_ok, pure,
      Except.pure, Except.ok.injEq, Prod.mk.injEq]
    refine ⟨on, ls ++ equals :: (rs ++ rest), ⟨by simp, hon⟩, left, equals :: (rs ++ rest),
      ⟨ls, rfl, hl, ?_⟩, equals, rs ++ rest, ⟨rfl, heq⟩, right, rest, ⟨rs, rfl, hr, hends⟩, ks,
      ⟨hlen, hks⟩, rfl, rfl⟩
    simp [EndsRefs, heq]

theorem IsJoins.endsRefs {introduced : List String} {ts : List Token} {joins : List Join}
    (h : IsJoins introduced ts joins) : EndsRefs ts := by
  cases h with
  | nil => simp [EndsRefs]
  | cons hword => simp [EndsRefs, hword]

theorem readJoins_eq_ok {introduced : List String} {ts : List Token} {joins : List Join} :
    readJoins introduced ts = .ok joins ↔ IsJoins introduced ts joins := by
  constructor
  · intro h
    fun_induction readJoins introduced ts generalizing joins with
    | case1 => cases h; exact .nil
    | case2 => cases h
    | case3 introduced word ts hword join rest hj ih =>
      obtain ⟨front, rfl, hfront, -⟩ := readJoin_eq_ok.1 hj
      obtain ⟨joins, hjoins, rfl⟩ := map_eq_ok.1 h
      exact .cons hword hfront (ih hjoins)
    | case4 => cases h
  · intro h
    induction h with
    | nil => rw [readJoins]
    | @cons introduced word ts rest join joins hword hj hjoins ih =>
      have hread : readJoin introduced (ts ++ rest) = .ok (join, rest) :=
        readJoin_eq_ok.2 ⟨ts, rfl, hj, hjoins.endsRefs⟩
      rw [readJoins, if_pos hword]
      split
      · rename_i e he
        rw [hread] at he
        cases he
      · rename_i join' rest' he
        rw [hread] at he
        cases he
        rw [ih]
        rfl

/-- **The reader accepts the tokens that make up a query**, and gives its plan. -/
theorem readPlan_eq_ok {ts : List Token} {p : Plan} : readPlan ts = .ok p ↔ IsQuery ts p := by
  cases ts with
  | nil =>
    refine ⟨fun h => ?_, nofun⟩
    simp [readPlan, throw, throwThe, MonadExceptOf.throw, bind, Except.bind] at h
  | cons base ts =>
    simp only [readPlan, reduceCtorEq, if_false, bind_eq_ok, Prod.exists, readName_eq_ok,
      readJoins_eq_ok, pure, Except.pure, Except.ok.injEq]
    constructor
    · rintro ⟨_, _, ⟨h, hbase⟩, joins, hjoins, rfl⟩
      cases h
      exact .intro hbase hjoins
    · rintro ⟨hbase, hjoins⟩
      exact ⟨base, ts, ⟨rfl, hbase⟩, _, hjoins, rfl⟩

end Stencil.Query
