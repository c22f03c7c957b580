/-
  A plan and its text determine each other.

  * `Plan.WellFormed`: the names of a plan can be written in a query, and its keys
    look back;
  * `IsQuery.wellFormed`: the plan of a query is well-formed;
  * `scans_text`: the tokens of a plan's text make up a query for this plan;
  * `wellFormed_tfae`: the well-formed plans are those that some query says, and
    each is said by its own text.
-/
import Mathlib.Data.Set.Operations
import Mathlib.Tactic.TFAE
import Stencil.Proofs.Position
import Stencil.Proofs.Query.Grammar
import Stencil.Proofs.Query.Scan

namespace Stencil.Query

open Text

/-- A plan that can be written as a query: its tables are different words, and a join
    has keys, whose columns are words and whose other tables stand in front of it. -/
structure Plan.WellFormed (p : Plan) : Prop where
  isWord_names : ∀ name ∈ p.names, IsWord name
  nodup_names : p.names.Nodup
  keys_ne_nil : ∀ join ∈ p.joins, join.keys ≠ []
  foreignTable_le : ∀ (k : Nat) (join : Join), p.joins[k]? = some join →
    ∀ key ∈ join.keys, key.foreignTable ≤ k
  isWord_columns : ∀ join ∈ p.joins, ∀ key ∈ join.keys,
    IsWord key.foreignColumn ∧ IsWord key.localColumn

/-! ## Joins one after the other -/

/-- A join that can be written behind the tables `introduced`. -/
structure Join.FollowsFrom (introduced : List String) (join : Join) : Prop where
  table_notMem : join.table ∉ introduced
  isWord_table : IsWord join.table
  keys_ne_nil : join.keys ≠ []
  foreignTable_lt : ∀ key ∈ join.keys, key.foreignTable < introduced.length
  isWord_columns : ∀ key ∈ join.keys, IsWord key.foreignColumn ∧ IsWord key.localColumn

/-- Joins that can be written one after the other behind the tables `introduced`. -/
inductive Follow : List String → List Join → Prop
  | nil {introduced} : Follow introduced []
  | cons {introduced join joins} : join.FollowsFrom introduced →
      Follow (introduced ++ [join.table]) joins → Follow introduced (join :: joins)

/-- Joins that follow, by their numbers. -/
theorem follow_iff {introduced : List String} {joins : List Join} (hn : introduced.Nodup) :
    Follow introduced joins ↔ (introduced ++ joins.map (·.table)).Nodup ∧
      (∀ join ∈ joins, IsWord join.table ∧ join.keys ≠ [] ∧
        ∀ key ∈ join.keys, IsWord key.foreignColumn ∧ IsWord key.localColumn) ∧
      ∀ (k : Nat) (join : Join), joins[k]? = some join →
        ∀ key ∈ join.keys, key.foreignTable < introduced.length + k := by
  induction joins generalizing introduced with
  | nil => simp [Follow.nil, hn]
  | cons join joins ih =>
    have hcons : introduced ++ (join :: joins).map (·.table) =
        introduced ++ [join.table] ++ joins.map (·.table) := by simp
    rw [List.forall_mem_cons, hcons]
    constructor
    · rintro (_ | ⟨hj, hjoins⟩)
      have hn' : (introduced ++ [join.table]).Nodup := by
        rw [List.nodup_append]
        refine ⟨hn, List.nodup_singleton _, fun a ha b hb => ?_⟩
        obtain rfl := List.mem_singleton.1 hb
        exact fun e => hj.table_notMem (e ▸ ha)
      obtain ⟨hnames, hwords, hback⟩ := (ih hn').1 hjoins
      refine ⟨hnames, ⟨⟨hj.isWord_table, hj.keys_ne_nil, hj.isWord_columns⟩, hwords⟩, ?_⟩
      intro k other hk key hkey
      rcases k with _ | k
      · cases hk
        exact hj.foreignTable_lt key hkey
      · have := hback k other hk key hkey
        rw [List.length_append, List.length_singleton] at this
        omega
    · rintro ⟨hnames, ⟨⟨htable, hkeys, hcolumns⟩, hwords⟩, hback⟩
      have hn' := (List.nodup_append.1 hnames).1
      refine .cons ⟨?_, htable, hkeys, hback 0 join rfl, hcolumns⟩
        ((ih hn').2 ⟨hnames, hwords, fun k other hk key hkey => ?_⟩)
      · intro hmem
        exact (List.nodup_append.1 hn').2.2 _ hmem _ (List.mem_singleton_self _) rfl
      · have := hback (k + 1) other hk key hkey
        rw [List.length_append, List.length_singleton]
        omega

/-- A plan is well-formed if its table is a word and its joins follow. -/
theorem wellFormed_iff {p : Plan} : p.WellFormed ↔ IsWord p.base ∧ Follow [p.base] p.joins := by
  rw [follow_iff (List.nodup_singleton _)]
  constructor
  · intro h
    have hnames := List.forall_mem_cons.1 h.isWord_names
    refine ⟨hnames.1, h.nodup_names, fun join hj => ?_, fun k join hk key hkey => ?_⟩
    · exact ⟨hnames.2 _ (List.mem_map_of_mem hj), h.keys_ne_nil join hj, h.isWord_columns join hj⟩
    · have := h.foreignTable_le k join hk key hkey
      rw [List.length_singleton]
      omega
  · rintro ⟨hbase, hnames, hjoins, hback⟩
    refine ⟨?_, hnames, fun join hj => (hjoins join hj).2.1, fun k join hk key hkey => ?_,
      fun join hj => (hjoins join hj).2.2⟩
    · refine List.forall_mem_cons.2 ⟨hbase, ?_⟩
      simpa using fun join hj => (hjoins join hj).1
    · have := hback k join hk key hkey
      rw [List.length_singleton] at this
      omega

/-! ## Plans of queries -/

theorem IsRefs.isWord {ts : List Token} {refs : List Ref} (h : IsRefs ts refs) (hw : Words ts) :
    ∀ ref ∈ refs, IsWord ref.column := by
  induction h with
  | last ht hd hc =>
    simp only [Words, List.forall_mem_cons] at hw
    exact List.forall_mem_singleton.2 (hw.2.2.1 hc)
  | more ht hd hc hcomma _ ih =>
    simp only [Words, List.forall_mem_cons] at hw ih
    exact List.forall_mem_cons.2 ⟨hw.2.2.1 hc, ih hw.2.2.2.2⟩

theorem IsKey.foreignTable_lt {introduced : List String} {table : String} {left right : Ref}
    {key : Key} (h : IsKey introduced table left right key) :
    key.foreignTable < introduced.length := by
  cases h with
  | foreignLeft _ _ hp => exact (List.idxOf?_eq_some_iff.1 hp).1
  | foreignRight _ _ hp => exact (List.idxOf?_eq_some_iff.1 hp).1

theorem IsKey.isWord {introduced : List String} {table : String} {left right : Ref}
    {key : Key} (h : IsKey introduced table left right key) (hl : IsWord left.column)
    (hr : IsWord right.column) : IsWord key.foreignColumn ∧ IsWord key.localColumn := by
  cases h with
  | foreignLeft => exact ⟨hl, hr⟩
  | foreignRight => exact ⟨hr, hl⟩

theorem IsJoin.followsFrom {introduced : List String} {ts : List Token} {join : Join}
    (h : IsJoin introduced ts join) (hw : Words ts) : join.FollowsFrom introduced := by
  obtain ⟨ht, hnew, hon, hl, heq, hr, hlen, hks⟩ := h
  rename_i table on equals ls rs left right ks
  simp only [Words, List.forall_mem_cons, List.forall_mem_append] at hw
  obtain ⟨htable, -, hls, -, hrs⟩ := hw
  have hpairs : ∀ p ∈ left.zip right, IsWord p.1.column ∧ IsWord p.2.column := fun p hp =>
    ⟨hl.isWord hls _ (List.of_mem_zip hp).1, hr.isWord hrs _ (List.of_mem_zip hp).2⟩
  have hkeys := exists_mem_of_forall₂ hks
  refine ⟨hnew, htable ht, ?_, fun key hkey => ?_, fun key hkey => ?_⟩
  · rintro rfl
    have hzip : (left.zip right).length = 0 := hks.length_eq
    have := List.length_pos_iff.2 hl.ne_nil
    rw [List.length_zip] at hzip
    omega
  · obtain ⟨p, -, hp⟩ := hkeys key hkey
    exact hp.foreignTable_lt
  · obtain ⟨p, hmem, hp⟩ := hkeys key hkey
    exact hp.isWord (hpairs p hmem).1 (hpairs p hmem).2

theorem IsJoins.follow {introduced : List String} {ts : List Token} {joins : List Join}
    (h : IsJoins introduced ts joins) (hw : Words ts) : Follow introduced joins := by
  induction h with
  | nil => exact .nil
  | cons _ hj _ ih =>
    simp only [Words, List.forall_mem_cons, List.forall_mem_append] at hw
    exact .cons (hj.followsFrom hw.2.1) (ih hw.2.2)

/-- **The plan of a query is well-formed.** -/
theorem IsQuery.wellFormed {ts : List Token} {p : Plan} (h : IsQuery ts p) (hw : Words ts) :
    p.WellFormed := by
  obtain ⟨hbase, hjoins⟩ := h
  obtain ⟨hword, hrest⟩ := List.forall_mem_cons.1 hw
  exact wellFormed_iff.2 ⟨hword hbase, hjoins.follow hrest⟩

/-! ## Queries of plans -/

/-- The names in a reference. -/
def Ref.names (ref : Ref) : String × String :=
  (ref.table, ref.column)

/-- The text of references with commas between them. -/
def refsText (refs : List (String × String)) : String :=
  ", ".intercalate (refs.map fun ref => ref.1 ++ "." ++ ref.2)

theorem scans_name {w : String} (hw : IsWord w) {cs : List Char} (hcs : EndsWord cs)
    {P : List Token → Prop} (h : Scans cs P) :
    Scans (w.toList ++ cs) fun ts =>
      ∃ t rest, ts = t :: rest ∧ t.kind = .identifier ∧ t.text = w ∧ P rest := by
  rw [← ofWord_eq_identifier.2 hw.2]
  exact scans_word hw.1 hcs h

/-- The text of a reference in front of a text. -/
theorem scans_ref {table column : String} (ht : IsWord table) (hc : IsWord column)
    {cs : List Char} (hcs : EndsWord cs) {P : List Token → Prop} (h : Scans cs P) :
    Scans (table.toList ++ '.' :: (column.toList ++ cs)) fun ts =>
      ∃ t d c rest, ts = t :: d :: c :: rest ∧ t.kind = .identifier ∧ d.kind = .dot ∧
        c.kind = .identifier ∧ (Ref.ofTokens t c).names = (table, column) ∧ P rest := by
  refine (scans_name ht (endsWord_cons rfl _)
    (scans_mark rfl rfl (scans_name hc hcs h))).imp ?_
  rintro _ ⟨t, _, rfl, htk, rfl, d, _, rfl, hdk, c, rest, rfl, hck, rfl, hP⟩
  exact ⟨t, d, c, rest, rfl, htk, hdk, hck, rfl, hP⟩

/-- **The text of references in front of a text**: its tokens make up these
    references. -/
theorem scans_refs {refs : List (String × String)} (hne : refs ≠ [])
    (hw : ∀ ref ∈ refs, IsWord ref.1 ∧ IsWord ref.2) {cs : List Char} (hcs : EndsWord cs)
    {P : List Token → Prop} (h : Scans cs P) :
    Scans ((refsText refs).toList ++ cs) fun ts =>
      ∃ front rest found, ts = front ++ rest ∧ IsRefs front found ∧ found.map Ref.names = refs ∧
        P rest := by
  induction refs with
  | nil => exact absurd rfl hne
  | cons ref refs ih =>
    obtain ⟨⟨ht, hc⟩, hrefs⟩ := List.forall_mem_cons.1 hw
    cases refs with
    | nil =>
      have htext : (refsText [ref]).toList ++ cs =
          ref.1.toList ++ '.' :: (ref.2.toList ++ cs) := by simp [refsText]
      rw [htext]
      refine (scans_ref ht hc hcs h).imp ?_
      rintro _ ⟨t, d, c, rest, rfl, htk, hdk, hck, hnames, hP⟩
      exact ⟨[t, d, c], rest, [.ofTokens t c], rfl, .last htk hdk hck, by simp [hnames], hP⟩
    | cons next refs =>
      have htext : (refsText (ref :: next :: refs)).toList ++ cs =
          ref.1.toList ++ '.' :: (ref.2.toList ++
            ',' :: ' ' :: ((refsText (next :: refs)).toList ++ cs)) := by
        simp [refsText]
      rw [htext]
      refine (scans_ref ht hc (endsWord_cons rfl _)
        (scans_mark rfl rfl (scans_blank rfl (ih (by simp) hrefs)))).imp ?_
      rintro _ ⟨t, d, c, _, rfl, htk, hdk, hck, hnames, comma, _, rfl, hcomma, front, rest, found,
        rfl, hfront, hfound, hP⟩
      exact ⟨t :: d :: c :: comma :: front, rest, .ofTokens t c :: found, rfl,
        .more htk hdk hck hcomma hfront, by simp [hnames, hfound], hP⟩

/-- The tables in front of a join are the first of the plan. -/
theorem getD_introduced {introduced names : List String} (h : introduced <+: names) {i : Nat}
    (hi : i < introduced.length) : names.getD i "?" = introduced[i] := by
  obtain ⟨more, rfl⟩ := h
  rw [List.getD_eq_getElem?_getD, List.getElem?_append_left hi, List.getElem?_eq_getElem hi]
  rfl

/-- The references on the two sides of a join's keys make up the keys. -/
theorem isKey_of_names {introduced names : List String} {join : Join}
    (hnames : introduced <+: names) (hn : introduced.Nodup) (hj : join.FollowsFrom introduced)
    {left right : List Ref}
    (hl : left.map Ref.names =
      join.keys.map fun k => (names.getD k.foreignTable "?", k.foreignColumn))
    (hr : right.map Ref.names = join.keys.map fun k => (join.table, k.localColumn)) :
    left.length = right.length ∧
      List.Forall₂ (fun p k => IsKey introduced join.table p.1 p.2 k) (left.zip right) join.keys := by
  have hforeign := hj.foreignTable_lt
  generalize join.keys = keys at hl hr hforeign
  induction keys generalizing left right with
  | nil =>
    rw [List.map_nil, List.map_eq_nil_iff] at hl hr
    subst hl hr
    exact ⟨rfl, .nil⟩
  | cons k keys ih =>
    obtain ⟨foreign, left, rfl, hf, hl⟩ := List.map_eq_cons_iff.1 hl
    obtain ⟨own, right, rfl, ho, hr⟩ := List.map_eq_cons_iff.1 hr
    obtain ⟨hk, hforeign⟩ := List.forall_mem_cons.1 hforeign
    obtain ⟨hlen, hkeys⟩ := ih hl hr hforeign
    refine ⟨by simp [hlen], .cons ?_ hkeys⟩
    simp only [Ref.names, Prod.mk.injEq] at hf ho
    have hget : introduced[k.foreignTable]? = some foreign.table := by
      rw [hf.1, getD_introduced hnames hk]
      exact List.getElem?_eq_getElem hk
    -- the foreign side is on the left, as the other table was introduced before
    have hne : foreign.table ≠ join.table := fun e =>
      hj.table_notMem (e ▸ List.mem_of_getElem? hget)
    have hkey := IsKey.foreignLeft ho.1 hne ((idxOf?_eq_some_iff_getElem? hn).2 hget)
    rwa [hf.2, ho.2] at hkey

theorem isName_join : IsName "join" := by decide

theorem isName_on : IsName "on" := by decide

/-- **The text of a join in front of a text**: its tokens make up this join. -/
theorem scans_join {introduced names : List String} {join : Join}
    (hnames : introduced <+: names) (hn : introduced.Nodup) (hj : join.FollowsFrom introduced)
    (hwords : ∀ name ∈ introduced, IsWord name) {cs : List Char} (hcs : EndsWord cs)
    {P : List Token → Prop} (h : Scans cs P) :
    Scans ((join.text names).toList ++ cs) fun ts =>
      ∃ word front rest, ts = word :: (front ++ rest) ∧ word.kind = .join ∧
        IsJoin introduced front join ∧ P rest := by
  have hforeign : ∀ ref ∈ join.keys.map fun k => (names.getD k.foreignTable "?", k.foreignColumn),
      IsWord ref.1 ∧ IsWord ref.2 := by
    simp only [List.forall_mem_map]
    intro k hk
    have hlt := hj.foreignTable_lt k hk
    rw [getD_introduced hnames hlt]
    exact ⟨hwords _ (List.getElem_mem hlt), (hj.isWord_columns k hk).1⟩
  have hown : ∀ ref ∈ join.keys.map fun k => (join.table, k.localColumn),
      IsWord ref.1 ∧ IsWord ref.2 := by
    simp only [List.forall_mem_map]
    exact fun k hk => ⟨hj.isWord_table, (hj.isWord_columns k hk).2⟩
  have hne : ∀ f : Key → String × String, join.keys.map f ≠ [] := fun f =>
    (List.map_eq_nil_iff.not).2 hj.keys_ne_nil
  have htext : (join.text names).toList ++ cs = ' ' :: ("join".toList ++ ' ' ::
      (join.table.toList ++ ' ' :: ("on".toList ++ ' ' ::
        ((refsText (join.keys.map fun k => (names.getD k.foreignTable "?", k.foreignColumn))).toList ++
          ' ' :: '=' :: ' ' ::
            ((refsText (join.keys.map fun k => (join.table, k.localColumn))).toList ++ cs))))) := by
    simp [Join.text, refsText, Function.comp_def, Key.foreignText]
  rw [htext]
  refine (scans_blank rfl (scans_word isName_join (endsWord_cons rfl _) (scans_blank rfl
    (scans_name hj.isWord_table (endsWord_cons rfl _) (scans_blank rfl
      (scans_word isName_on (endsWord_cons rfl _) (scans_blank rfl
        (scans_refs (hne _) hforeign (endsWord_cons rfl _) (scans_blank rfl (scans_mark rfl rfl
          (scans_blank rfl (scans_refs (hne _) hown hcs h)))))))))))).imp ?_
  rintro _ ⟨word, _, rfl, hword, -, table, _, rfl, htable, htable', on, _, rfl, hon, -, ls, _, left,
    rfl, hls, hleft, equals, _, rfl, hequals, rs, rest, right, rfl, hrs, hright, hP⟩
  obtain ⟨hlen, hkeys⟩ := isKey_of_names hnames hn hj hleft hright
  have hmem := hj.table_notMem
  rw [← htable'] at hmem hkeys
  have hjoin := IsJoin.intro htable hmem hon hls hequals hrs hlen hkeys
  rw [htable'] at hjoin
  exact ⟨word, _, rest, by simp, hword, hjoin, hP⟩

theorem endsWord_joins (names : List String) (joins : List Join) :
    EndsWord (String.join (joins.map (·.text names))).toList := by
  cases joins with
  | nil => simp [EndsWord]
  | cons join joins =>
    have htext : (join.text names).toList.head? = some ' ' := by simp [Join.text]
    intro c hc
    rw [List.map_cons, String.join_cons, String.toList_append, List.head?_append, htext] at hc
    cases hc
    rfl

/-- **The text of joins**: its tokens make up these joins. -/
theorem scans_joins {introduced names : List String} {joins : List Join}
    (h : Follow introduced joins) (hnames : introduced ++ joins.map (·.table) = names)
    (hn : names.Nodup) (hwords : ∀ name ∈ names, IsWord name) :
    Scans (String.join (joins.map (·.text names))).toList fun ts =>
      IsJoins introduced ts joins := by
  induction h with
  | nil => exact scans_nil .nil
  | @cons introduced join joins hj _ ih =>
    have hfront : introduced <+: names := ⟨_, hnames⟩
    have hjoins := ih (by rw [← hnames]; simp)
    rw [List.map_cons, String.join_cons, String.toList_append]
    refine (scans_join hfront (hn.sublist hfront.sublist) hj
      (fun name hname => hwords name (hfront.subset hname)) (endsWord_joins names joins)
      hjoins).imp ?_
    rintro _ ⟨word, front, rest, rfl, hword, hfront, hrest⟩
    exact .cons hword hfront hrest

/-- **The text of a plan**: its tokens make up a query that says this plan. -/
theorem scans_text {p : Plan} (h : p.WellFormed) : Scans p.text.toList fun ts => IsQuery ts p := by
  obtain ⟨hbase, hjoins⟩ := wellFormed_iff.1 h
  have htokens : Scans (String.join (p.joins.map (·.text p.names))).toList fun ts =>
      IsJoins [p.base] ts p.joins := scans_joins hjoins rfl h.nodup_names h.isWord_names
  rw [Plan.text, String.toList_append]
  refine (scans_name hbase (endsWord_joins p.names p.joins) htokens).imp ?_
  rintro _ ⟨base, rest, rfl, hkind, htext, hrest⟩
  rw [← htext] at hrest
  have hquery := IsQuery.intro hkind hrest
  rwa [htext] at hquery

/-! ## Plans and queries -/

/-- **A query says a plan** if its tokens make up a query for it. -/
theorem ofQuery_eq_ok {query : String} {p : Plan} :
    Plan.ofQuery query = .ok p ↔ ∃ ts, scan 0 query.toList = .ok ts ∧ IsQuery ts p := by
  simp only [Plan.ofQuery, tokens, bind_eq_ok, mapError_eq_ok, readPlan_eq_ok]

theorem wellFormed_of_ofQuery {query : String} {p : Plan} (h : Plan.ofQuery query = .ok p) :
    p.WellFormed := by
  obtain ⟨ts, hts, hquery⟩ := ofQuery_eq_ok.1 h
  exact hquery.wellFormed (scan_words hts)

theorem ofQuery_of_wellFormed {p : Plan} (h : p.WellFormed) : Plan.ofQuery p.text = .ok p :=
  ofQuery_eq_ok.2 (scans_text h 0)

/-- **The well-formed plans are those that some query says**, and each of them is said
    by its own text, so that different plans have different texts. -/
theorem wellFormed_tfae :
    (∀ p : Plan, [p.WellFormed, Plan.ofQuery p.text = .ok p,
      ∃ query, Plan.ofQuery query = .ok p].TFAE) ∧
    Set.InjOn Plan.text {p | p.WellFormed} := by
  refine ⟨fun p => ?_, fun p hp q hq htext => ?_⟩
  · tfae_have 1 → 2 := ofQuery_of_wellFormed
    tfae_have 2 → 3 := fun h => ⟨_, h⟩
    tfae_have 3 → 1 := fun ⟨_, h⟩ => wellFormed_of_ofQuery h
    tfae_finish
  · have hp := ofQuery_of_wellFormed hp
    rw [htext, ofQuery_of_wellFormed hq] at hp
    exact (Except.ok.inj hp).symm

end Stencil.Query
