/-
  What a query says, whatever bytes its tokens cover.

  Two lists of tokens are alike if they have the same lexemes, but for clauses in which references
  on the two sides of the equals sign are exchanged.  The reader is run on both.

  * `verdict`: the plan of a query, or the reason why it has none;
  * `Agree`: two steps with related results, or with rejections for the same reason;
  * `Clause.Exchanged`: at each place the same references, or the same ones exchanged;
  * `Alike` relates lists of tokens, and `agree_readPlan` is that they say the same plan;
  * `verdict_of_lexemes`: the verdict on a query depends on its lexemes only;
  * `verdict_of_alike`: queries whose tokens are alike have the same verdict.
-/
import Stencil.Proofs.Query.Cut
import Stencil.Proofs.Query.Language

namespace Stencil.Query

open Text

/-- The plan of a query, or the reason why it has none. -/
def verdict (query : String) : Except String Plan :=
  (Plan.ofQuery query).mapError (·.reason)

/-! ## Steps that agree -/

section
variable {α β γ δ : Type}

/-- Two steps with related results, or with rejections for the same reason. -/
inductive Agree (R : α → β → Prop) : Except Rejection α → Except Rejection β → Prop
  | ok {a b} : R a b → Agree R (.ok a) (.ok b)
  | error {e f} : e.problem.reason = f.problem.reason → Agree R (.error e) (.error f)

variable {R : α → β → Prop} {S : γ → δ → Prop} {x : Except Rejection α} {y : Except Rejection β}

theorem Agree.bind {f : α → Except Rejection γ} {g : β → Except Rejection δ} (h : Agree R x y)
    (hfg : ∀ a b, x = .ok a → R a b → Agree S (f a) (g b)) : Agree S (x >>= f) (y >>= g) := by
  cases h with
  | ok hab => exact hfg _ _ rfl hab
  | error he => exact .error he

theorem agree_ite {p q : Prop} [Decidable p] [Decidable q] (hpq : p ↔ q)
    {x x' : Except Rejection α} {y y' : Except Rejection β} (h : p → q → Agree R x y)
    (h' : ¬p → ¬q → Agree R x' y') : Agree R (if p then x else x') (if q then y else y') := by
  by_cases hp : p
  · rw [if_pos hp, if_pos (hpq.1 hp)]
    exact h hp (hpq.1 hp)
  · rw [if_neg hp, if_neg (hp ∘ hpq.2)]
    exact h' hp (hp ∘ hpq.2)

theorem agree_mapM {f : α → Except Rejection γ} {g : β → Except Rejection γ} {l : List α}
    {r : List β} (h : List.Forall₂ (fun a b => Agree (· = ·) (f a) (g b)) l r) :
    Agree (· = ·) (l.mapM f) (r.mapM g) := by
  induction h with
  | nil => exact .ok rfl
  | cons hab _ ih =>
    rw [List.mapM_cons, List.mapM_cons]
    refine hab.bind fun c _ _ hc => ih.bind fun cs _ _ hcs => .ok ?_
    rw [hc, hcs]

theorem Agree.trans {x y z : Except Rejection α} (h : Agree (· = ·) x y)
    (h' : Agree (· = ·) y z) : Agree (· = ·) x z := by
  cases h with
  | ok hab =>
    cases hab
    exact h'
  | error he =>
    cases h' with
    | error he' => exact .error (he.trans he')

/-- Steps that agree on one result have the same outcome. -/
theorem Agree.mapError_eq {x y : Except Rejection α} (h : Agree (· = ·) x y) :
    x.mapError (·.problem.reason) = y.mapError (·.problem.reason) := by
  cases h with
  | ok hab => rw [hab]
  | error he => exact congrArg Except.error he

end

/-! ## Tokens that are alike -/

/-- The names in two references at one place, or the same exchanged. -/
def SameSides (p q : (String × String) × (String × String)) : Prop :=
  q = p ∨ q = p.swap

/-- The names in the references of a clause, place by place. -/
def Clause.sides (c : Clause) : List ((String × String) × (String × String)) :=
  (c.left.map Ref.names).zip (c.right.map Ref.names)

/-- Two clauses of one table with as many references on each side of the equals sign, at each
    place the same ones, or the same ones exchanged. -/
structure Clause.Exchanged (c d : Clause) : Prop where
  table_eq : c.table = d.table
  length_eq : c.left.length = c.right.length
  length_eq' : d.left.length = d.right.length
  sides : List.Forall₂ SameSides c.sides d.sides

/-- Tokens with the same lexemes, but for references that are exchanged within their clauses. -/
inductive Alike : List Token → List Token → Prop
  | nil : Alike [] []
  | token {t u ts us} : t.lexeme = u.lexeme → Alike ts us → Alike (t :: ts) (u :: us)
  | clause {word word' front front' clause clause' rest rest'} :
      word.lexeme = word'.lexeme → IsClause (word :: front) clause →
      IsClause (word' :: front') clause' → clause.Exchanged clause' → EndsRefs rest →
      Alike rest rest' → Alike (word :: (front ++ rest)) (word' :: (front' ++ rest'))

theorem kind_eq_of_lexeme {t u : Token} (h : t.lexeme = u.lexeme) : t.kind = u.kind :=
  congrArg Lexeme.kind h

theorem text_eq_of_lexeme {t u : Token} (h : t.lexeme = u.lexeme) : t.text = u.text :=
  congrArg Lexeme.text h

theorem alike_of_lexemes {ts us : List Token} (h : ts.map Token.lexeme = us.map Token.lexeme) :
    Alike ts us := by
  induction ts generalizing us with
  | nil =>
    obtain rfl := List.map_eq_nil_iff.1 h.symm
    exact .nil
  | cons t ts ih =>
    obtain ⟨u, us, rfl, hu, hus⟩ := List.map_eq_cons_iff.1 h.symm
    exact .token hu.symm (ih hus.symm)

/-- Tokens that are alike begin with the same lexeme, and go on alike behind any but `join`. -/
theorem Alike.cases_head {ts us : List Token} (h : Alike ts us) :
    ts = [] ∧ us = [] ∨ ∃ t u ts' us', ts = t :: ts' ∧ us = u :: us' ∧ t.lexeme = u.lexeme ∧
      (t.kind ≠ .join → Alike ts' us') := by
  cases h with
  | nil => exact Or.inl ⟨rfl, rfl⟩
  | token hlexeme hrest => exact Or.inr ⟨_, _, _, _, rfl, rfl, hlexeme, fun _ => hrest⟩
  | clause hlexeme hclause =>
    refine Or.inr ⟨_, _, _, _, rfl, rfl, hlexeme, fun hne => ?_⟩
    cases hclause with
    | intro hword => exact absurd hword hne

theorem Alike.endsRefs {ts us : List Token} (h : Alike ts us) (hends : EndsRefs ts) :
    EndsRefs us := by
  obtain ⟨rfl, rfl⟩ | ⟨t, u, ts, us, rfl, rfl, hlexeme, -⟩ := h.cases_head
  · exact hends
  · intro v hv
    obtain rfl : u = v := Option.some.inj hv
    rw [← kind_eq_of_lexeme hlexeme]
    exact hends t rfl

/-! ## Single tokens -/

/-- A token and the tokens behind it, in two runs. -/
def SameToken (p q : Token × List Token) : Prop :=
  p.1.lexeme = q.1.lexeme ∧ Alike p.2 q.2

theorem agree_unexpected {α β : Type} {R : α → β → Prop} {ts us : List Token} (h : Alike ts us)
    (expected : String) : Agree R (unexpected expected ts) (unexpected expected us) := by
  obtain ⟨rfl, rfl⟩ | ⟨t, u, ts, us, rfl, rfl, hlexeme, -⟩ := h.cases_head
  · exact .error rfl
  · exact .error (congrArg (fun text => "expected " ++ expected ++ ", found `" ++ text ++ "`")
      (text_eq_of_lexeme hlexeme))

theorem agree_readKind {ts us : List Token} (h : Alike ts us) {kind : Kind}
    (hkind : kind ≠ .join) : Agree SameToken (readKind kind ts) (readKind kind us) := by
  obtain ⟨rfl, rfl⟩ | ⟨t, u, ts, us, rfl, rfl, hlexeme, hrest⟩ := h.cases_head
  · exact .error rfl
  · rw [readKind, readKind, ← kind_eq_of_lexeme hlexeme]
    refine agree_ite Iff.rfl (fun ht _ => .ok ⟨hlexeme, hrest ?_⟩) fun _ _ => agree_unexpected h _
    rw [ht]
    exact hkind

theorem agree_readName {ts us : List Token} (h : Alike ts us) (expected : String) :
    Agree SameToken (readName expected ts) (readName expected us) := by
  obtain ⟨rfl, rfl⟩ | ⟨t, u, ts, us, rfl, rfl, hlexeme, hrest⟩ := h.cases_head
  · exact .error rfl
  · rw [readName, readName, ← kind_eq_of_lexeme hlexeme]
    refine agree_ite Iff.rfl (fun ht _ => .ok ⟨hlexeme, hrest ?_⟩) fun _ _ => agree_unexpected h _
    rw [ht]
    decide

/-! ## References -/

theorem names_ofTokens {table column table' column' : Token} (ht : table.lexeme = table'.lexeme)
    (hc : column.lexeme = column'.lexeme) :
    (Ref.ofTokens table column).names = (Ref.ofTokens table' column').names :=
  Prod.ext (text_eq_of_lexeme ht) (text_eq_of_lexeme hc)

theorem agree_readRef {ts us : List Token} (h : Alike ts us) :
    Agree (fun p q => p.1.names = q.1.names ∧ Alike p.2 q.2) (readRef ts) (readRef us) := by
  refine (agree_readName h _).bind ?_
  rintro ⟨table, ts⟩ ⟨table', us⟩ - ⟨htable, h⟩
  refine (agree_readKind h (nofun : Kind.dot ≠ .join)).bind ?_
  rintro ⟨dot, ts⟩ ⟨dot', us⟩ - ⟨-, h⟩
  refine (agree_readName h _).bind ?_
  rintro ⟨column, ts⟩ ⟨column', us⟩ - ⟨hcolumn, h⟩
  exact .ok ⟨names_ofTokens htable hcolumn, h⟩

/-- References are read one by one, as long as there is a comma. -/
theorem readRefs_eq (ts : List Token) :
    readRefs ts = readRef ts >>= fun p =>
      match p.2 with
      | [] => .ok ([p.1], [])
      | t :: rest =>
        if t.kind = .comma then readRefs rest >>= fun q => .ok (p.1 :: q.1, q.2)
        else .ok ([p.1], t :: rest) := by
  rw [readRefs]
  split
  · rename_i e he
    rw [he]
    rfl
  · rename_i ref he
    rw [he]
    rfl
  · rename_i ref t rest he
    rw [he, ok_bind]
    dsimp only
    by_cases hcomma : t.kind = .comma
    · rw [if_pos hcomma, if_pos hcomma]
      cases readRefs rest <;> rfl
    · rw [if_neg hcomma, if_neg hcomma]

theorem agree_readRefs {ts us : List Token} (h : Alike ts us) :
    Agree (fun p q => p.1.map Ref.names = q.1.map Ref.names ∧ Alike p.2 q.2)
      (readRefs ts) (readRefs us) := by
  induction hn : ts.length using Nat.strongRecOn generalizing ts us with
  | ind n ih =>
    subst hn
    rw [readRefs_eq ts, readRefs_eq us]
    refine (agree_readRef h).bind ?_
    rintro ⟨ref, ts⟩ ⟨ref', us⟩ href ⟨hnames, h⟩
    obtain ⟨rfl, rfl⟩ | ⟨t, u, ts, us, rfl, rfl, hlexeme, hrest⟩ := h.cases_head
    · exact .ok ⟨congrArg ([·]) hnames, .nil⟩
    · dsimp only
      rw [← kind_eq_of_lexeme hlexeme]
      refine agree_ite Iff.rfl (fun hcomma _ => ?_) fun _ _ => .ok ⟨congrArg ([·]) hnames, h⟩
      have hlt : ts.length < ts.length + 4 := Nat.lt_add_of_pos_right (by decide)
      obtain ⟨_, _, _, rfl, -⟩ := readRef_eq_ok.1 href
      refine (ih _ hlt (hrest (hcomma ▸ nofun)) rfl).bind ?_
      rintro ⟨refs, ts⟩ ⟨refs', us⟩ - ⟨hrefs, h⟩
      exact .ok ⟨by rw [List.map_cons, List.map_cons, hnames, hrefs], h⟩

/-! ## Keys -/

theorem table_eq_of_names {r s : Ref} (h : r.names = s.names) : r.table = s.table :=
  congrArg Prod.fst h

theorem column_eq_of_names {r s : Ref} (h : r.names = s.names) : r.column = s.column :=
  congrArg Prod.snd h

/-- The key of a reference to a table in front and one to the joined table. -/
def keyOf (introduced : List String) (table : String) (foreign own : Ref) :
    Except Rejection Key :=
  match introduced.idxOf? foreign.table with
  | some position => .ok ⟨position, foreign.column, own.column⟩
  | none => .error ⟨.notIntroduced foreign.table table, some foreign.span⟩

section
variable (introduced : List String) (table : String)

theorem agree_keyOf {foreign own foreign' own' : Ref} (hforeign : foreign.names = foreign'.names)
    (hown : own.names = own'.names) :
    Agree (· = ·) (keyOf introduced table foreign own) (keyOf introduced table foreign' own') := by
  unfold keyOf
  rw [table_eq_of_names hforeign, column_eq_of_names hforeign, column_eq_of_names hown]
  split
  · exact .ok rfl
  · exact .error rfl

variable {table} in
theorem key_of_left {own foreign : Ref} (hown : own.table = table)
    (hforeign : foreign.table ≠ table) :
    key introduced table own foreign = keyOf introduced table foreign own := by
  rw [key, if_pos hown, if_neg hforeign]
  rfl

variable {table} in
theorem key_of_right {own foreign : Ref} (hown : own.table = table)
    (hforeign : foreign.table ≠ table) :
    key introduced table foreign own = keyOf introduced table foreign own := by
  rw [key, if_neg hforeign, if_pos hown]
  rfl

/-- A key depends on the names of its references only. -/
theorem agree_key_of_names {left right left' right' : Ref} (hl : left.names = left'.names)
    (hr : right.names = right'.names) :
    Agree (· = ·) (key introduced table left right) (key introduced table left' right') := by
  have hlt := table_eq_of_names hl
  have hrt := table_eq_of_names hr
  by_cases hleft : left'.table = table <;> by_cases hright : right'.table = table
  · rw [key, key, if_pos (hlt.trans hleft), if_pos (hrt.trans hright), if_pos hleft, if_pos hright]
    exact .error rfl
  · rw [key_of_left _ (hlt.trans hleft) (hrt ▸ hright), key_of_left _ hleft hright]
    exact agree_keyOf introduced table hr hl
  · rw [key_of_right _ (hrt.trans hright) (hlt ▸ hleft), key_of_right _ hright hleft]
    exact agree_keyOf introduced table hl hr
  · rw [key, key, if_neg (hlt ▸ hleft), if_neg (hrt ▸ hright), if_neg hleft, if_neg hright]
    exact .error rfl

/-- **A key does not depend on which side a reference stands on.** -/
theorem agree_key_swap (left right : Ref) :
    Agree (· = ·) (key introduced table left right) (key introduced table right left) := by
  by_cases hleft : left.table = table <;> by_cases hright : right.table = table
  · rw [key, key, if_pos hleft, if_pos hright, if_pos hright, if_pos hleft]
    exact .error rfl
  · rw [key_of_left _ hleft hright, key_of_right _ hleft hright]
    exact agree_keyOf introduced table rfl rfl
  · rw [key_of_right _ hright hleft, key_of_left _ hright hleft]
    exact agree_keyOf introduced table rfl rfl
  · rw [key, key, if_neg hleft, if_neg hright, if_neg hright, if_neg hleft]
    exact .error rfl

theorem agree_key {left right left' right' : Ref}
    (h : SameSides (left.names, right.names) (left'.names, right'.names)) :
    Agree (· = ·) (key introduced table left right) (key introduced table left' right') := by
  rcases h with h | h
  · obtain ⟨hl, hr⟩ := Prod.mk.inj h
    exact agree_key_of_names introduced table hl.symm hr.symm
  · obtain ⟨hr, hl⟩ := Prod.mk.inj h
    exact (agree_key_swap introduced table left right).trans
      (agree_key_of_names introduced table hr.symm hl.symm)

theorem agree_keys {left right left' right' : List Ref} (hlength : left.length = right.length)
    (hlength' : left'.length = right'.length)
    (h : List.Forall₂ SameSides ((left.map Ref.names).zip (right.map Ref.names))
      ((left'.map Ref.names).zip (right'.map Ref.names))) :
    Agree (· = ·) (keys introduced table left right) (keys introduced table left' right') := by
  rw [keys, keys, if_pos hlength, if_pos hlength']
  rw [List.zip_map, List.zip_map, List.forall₂_map_left_iff, List.forall₂_map_right_iff] at h
  exact agree_mapM (h.imp fun _ _ hsides => agree_key introduced table hsides)

/-- The keys depend on the names of the references only. -/
theorem agree_keys_of_names {left right left' right' : List Ref}
    (hl : left.map Ref.names = left'.map Ref.names)
    (hr : right.map Ref.names = right'.map Ref.names) :
    Agree (· = ·) (keys introduced table left right) (keys introduced table left' right') := by
  have hleft : left.length = left'.length := by simpa using congrArg List.length hl
  have hright : right.length = right'.length := by simpa using congrArg List.length hr
  by_cases hlength : left.length = right.length
  · refine agree_keys introduced table hlength (hleft ▸ hright ▸ hlength) ?_
    rw [hl, hr]
    exact List.forall₂_same.2 fun _ _ => Or.inl rfl
  · rw [keys, keys, if_neg hlength, if_neg (hleft ▸ hright ▸ hlength), hleft, hright]
    exact .error rfl

end

/-! ## Joins -/

/-- A join and the tokens behind it, in two runs. -/
def SameJoin (p q : Join × List Token) : Prop :=
  p.1 = q.1 ∧ Alike p.2 q.2

theorem agree_repeatedTable {α β : Type} {R : α → β → Prop} {t u : Token}
    (h : t.lexeme = u.lexeme) :
    Agree R (.error ⟨.repeatedTable t.text, some t.span⟩)
      (.error ⟨.repeatedTable u.text, some u.span⟩) :=
  .error (congrArg (fun text => Problem.reason (.repeatedTable text)) (text_eq_of_lexeme h))

theorem agree_readJoin_of_alike (introduced : List String) {ts us : List Token} (h : Alike ts us) :
    Agree SameJoin (readJoin introduced ts) (readJoin introduced us) := by
  refine (agree_readName h _).bind ?_
  rintro ⟨table, ts⟩ ⟨table', us⟩ - ⟨htable, h⟩
  have htext := text_eq_of_lexeme htable
  refine agree_ite (by rw [htext]) (fun _ _ => agree_repeatedTable htable) fun _ _ => ?_
  refine (agree_readKind h (nofun : Kind.on ≠ .join)).bind ?_
  rintro ⟨on, ts⟩ ⟨on', us⟩ - ⟨-, h⟩
  refine (agree_readRefs h).bind ?_
  rintro ⟨left, ts⟩ ⟨left', us⟩ - ⟨hleft, h⟩
  refine (agree_readKind h (nofun : Kind.equals ≠ .join)).bind ?_
  rintro ⟨equals, ts⟩ ⟨equals', us⟩ - ⟨-, h⟩
  refine (agree_readRefs h).bind ?_
  rintro ⟨right, ts⟩ ⟨right', us⟩ - ⟨hright, h⟩
  rw [← htext]
  refine (agree_keys_of_names introduced table.text hleft hright).bind ?_
  rintro ks _ - rfl
  exact .ok ⟨by rw [htext], h⟩

/-- What is read of a clause are its table, which has to be new, and its keys. -/
theorem readJoin_of_isClause (introduced : List String) {word : Token} {front rest : List Token}
    {clause : Clause} (h : IsClause (word :: front) clause) (hends : EndsRefs rest) :
    ∃ span, readJoin introduced (front ++ rest) =
      if clause.table ∈ introduced then .error ⟨.repeatedTable clause.table, span⟩
      else keys introduced clause.table clause.left clause.right >>= fun ks =>
        .ok (⟨clause.table, ks⟩, rest) := by
  obtain ⟨-, htable, hon, hleft, hequals, hright⟩ := h
  rename_i table on equals ls rs left right
  have hname : ∀ expected, readName expected (table :: on :: (ls ++ equals :: rs) ++ rest) =
      .ok (table, on :: (ls ++ equals :: rs) ++ rest) := fun _ => readName_eq_ok.2 ⟨rfl, htable⟩
  have hkind : readKind .on (on :: (ls ++ equals :: rs) ++ rest) =
      .ok (on, ls ++ equals :: (rs ++ rest)) := readKind_eq_ok.2 ⟨by simp, hon⟩
  have hlefts : readRefs (ls ++ equals :: (rs ++ rest)) = .ok (left, equals :: (rs ++ rest)) := by
    refine readRefs_eq_ok.2 ⟨ls, rfl, hleft, ?_⟩
    simp [EndsRefs, hequals]
  have hsign : readKind .equals (equals :: (rs ++ rest)) = .ok (equals, rs ++ rest) :=
    readKind_eq_ok.2 ⟨rfl, hequals⟩
  have hrights : readRefs (rs ++ rest) = .ok (right, rest) :=
    readRefs_eq_ok.2 ⟨rs, rfl, hright, hends⟩
  refine ⟨some table.span, ?_⟩
  rw [readJoin, hname, ok_bind]
  dsimp only
  by_cases hmem : table.text ∈ introduced
  · rw [if_pos hmem, if_pos hmem]
    rfl
  · rw [if_neg hmem, if_neg hmem, hkind, ok_bind]
    dsimp only
    rw [hlefts, ok_bind]
    dsimp only
    rw [hsign, ok_bind]
    dsimp only
    rw [hrights, ok_bind]
    rfl

/-- **What stands behind the word `join`** is read alike. -/
theorem agree_readJoin (introduced : List String) {t u : Token} {ts us : List Token}
    (h : Alike (t :: ts) (u :: us)) :
    Agree SameJoin (readJoin introduced ts) (readJoin introduced us) := by
  cases h with
  | token _ h => exact agree_readJoin_of_alike introduced h
  | clause _ hclause hclause' hsame hends h =>
    obtain ⟨span, hread⟩ := readJoin_of_isClause introduced hclause hends
    obtain ⟨span', hread'⟩ := readJoin_of_isClause introduced hclause' (h.endsRefs hends)
    rw [hread, hread', hsame.table_eq]
    refine agree_ite Iff.rfl (fun _ _ => .error rfl) fun _ _ => ?_
    refine (agree_keys introduced _ hsame.length_eq hsame.length_eq' hsame.sides).bind ?_
    rintro ks _ - rfl
    exact .ok ⟨rfl, h⟩

theorem readJoins_cons (introduced : List String) (t : Token) (ts : List Token) :
    readJoins introduced (t :: ts) =
      if t.kind = .join then readJoin introduced ts >>= fun p =>
        (p.1 :: ·) <$> readJoins (introduced ++ [p.1.table]) p.2
      else unexpected "`join` or end of query" (t :: ts) := by
  rw [readJoins]
  by_cases hword : t.kind = .join
  · rw [if_pos hword, if_pos hword]
    split
    · rename_i e he
      rw [he]
      rfl
    · rename_i join rest he
      rw [he]
      rfl
  · rw [if_neg hword, if_neg hword]

theorem agree_readJoins (introduced : List String) {ts us : List Token} (h : Alike ts us) :
    Agree (· = ·) (readJoins introduced ts) (readJoins introduced us) := by
  induction hn : ts.length using Nat.strongRecOn generalizing introduced ts us with
  | ind n ih =>
    subst hn
    obtain ⟨rfl, rfl⟩ | ⟨t, u, ts, us, rfl, rfl, hlexeme, -⟩ := h.cases_head
    · rw [readJoins]
      exact .ok rfl
    · rw [readJoins_cons, readJoins_cons, ← kind_eq_of_lexeme hlexeme]
      refine agree_ite Iff.rfl (fun _ _ => ?_) fun _ _ => agree_unexpected h _
      refine (agree_readJoin introduced h).bind ?_
      rintro ⟨join, rest⟩ ⟨_, rest'⟩ hread ⟨rfl, hrest⟩
      have hlt : rest.length < (t :: ts).length :=
        Nat.lt_succ_of_lt (length_of_readJoin hread)
      refine (ih _ hlt _ hrest rfl).bind ?_
      rintro joins _ - rfl
      exact .ok rfl

/-! ## Queries -/

/-- **Tokens that are alike say the same plan**, or are rejected for the same reason. -/
theorem agree_readPlan {ts us : List Token} (h : Alike ts us) :
    Agree (· = ·) (readPlan ts) (readPlan us) := by
  have hnil : ts = [] ↔ us = [] := by
    obtain ⟨rfl, rfl⟩ | ⟨t, u, ts, us, rfl, rfl, -⟩ := h.cases_head
    · exact Iff.rfl
    · simp
  refine agree_ite hnil (fun _ _ => .error rfl) fun _ _ => ?_
  refine (agree_readName h _).bind ?_
  rintro ⟨base, ts⟩ ⟨base', us⟩ - ⟨hbase, h⟩
  dsimp only
  rw [text_eq_of_lexeme hbase]
  refine (agree_readJoins _ h).bind ?_
  rintro joins _ - rfl
  exact .ok rfl

theorem verdict_of_tokens {query : String} {ts : List Token} (h : tokens query = .ok ts) :
    verdict query = (readPlan ts).mapError (·.problem.reason) := by
  rw [verdict, Plan.ofQuery, h, ok_bind]
  cases readPlan ts <;> rfl

/-- **Queries whose tokens are alike have the same verdict.** -/
theorem verdict_of_alike {q q' : String} {ts us : List Token} (hq : tokens q = .ok ts)
    (hq' : tokens q' = .ok us) (h : Alike ts us) : verdict q = verdict q' := by
  rw [verdict_of_tokens hq, verdict_of_tokens hq']
  exact (agree_readPlan h).mapError_eq

/-- A query that cannot be cut into tokens is rejected for the first character that starts none. -/
theorem verdict_of_char {query : String} {c : Char} (h : lexemes query.toList = .error c) :
    verdict query = .error ("unexpected character `" ++ String.singleton c ++ "`") := by
  obtain ⟨bad, hbad, rfl⟩ := lexemes_eq_error.1 h
  rw [verdict, Plan.ofQuery, tokens, hbad]
  rfl

/-- **The verdict on a query depends on its lexemes only.** -/
theorem verdict_of_lexemes {query : String} {ts : List Token}
    (h : lexemes query.toList = .ok (ts.map Token.lexeme)) :
    verdict query = (readPlan ts).mapError (·.problem.reason) := by
  obtain ⟨us, hus, hlexemes⟩ := (lexemes_eq_ok 0).1 h
  rw [verdict_of_tokens (mapError_eq_ok.2 hus)]
  exact (agree_readPlan (alike_of_lexemes hlexemes)).mapError_eq

end Stencil.Query
