/-
  Which part of a query is at fault.

  * `Placed`: tokens that stand in a text in order, each with the span that it covers;
    `placed_of_scan` is that the tokens of a query do;
  * `FromTokens`: a span from the start of a token to the stop of the same or a later one;
    `fromTokens_of_readPlan` is that whatever is at fault in tokens has such a span;
  * `span_of_ofQuery`: the span of an error covers a part of the query that is not empty, and
    the diagnostic shows this part.
-/
import Stencil.Fault.Diagnosis
import Stencil.Proofs.Query.Grammar
import Stencil.Proofs.Text.Clean
import Stencil.Proofs.Text.Span

namespace Stencil.Query

open Text

/-! ## Tokens in order -/

/-- Tokens that stand in a source in order, from an offset on, and cover their texts, none of
    which is empty. -/
structure Placed (source : List Char) (offset : Nat) (ts : List Token) : Prop where
  covers : ∀ t ∈ ts, t.text.toList ≠ [] ∧ t.span.Covers source t.text.toList
  le_start : ∀ t ∈ ts, offset ≤ t.span.start
  pairwise : ts.Pairwise fun a b => a.span.stop ≤ b.span.start

theorem placed_nil (source : List Char) (offset : Nat) : Placed source offset [] :=
  ⟨nofun, nofun, .nil⟩

theorem Placed.mono {source : List Char} {m n : Nat} {ts : List Token} (h : Placed source n ts)
    (hmn : m ≤ n) : Placed source m ts :=
  ⟨h.covers, fun t ht => hmn.trans (h.le_start t ht), h.pairwise⟩

/-- A text in front of placed tokens is a token in front of them. -/
theorem Placed.ofText {before text after : List Char} {ts : List Token} (hne : text ≠ [])
    (h : Placed (before ++ text ++ after) (byteSize (before ++ text)) ts) (kind : Kind) :
    Placed (before ++ text ++ after) (byteSize before)
      (.ofText kind text (byteSize before) :: ts) where
  covers := by
    refine List.forall_mem_cons.2 ⟨?_, h.covers⟩
    rw [Token.ofText, String.toList_ofList]
    exact ⟨hne, before, after, rfl, rfl⟩
  le_start := by
    refine List.forall_mem_cons.2 ⟨Nat.le_refl _, fun t ht => ?_⟩
    have := h.le_start t ht
    rw [byteSize_append] at this
    omega
  pairwise := by
    refine List.pairwise_cons.2 ⟨fun t ht => ?_, h.pairwise⟩
    rw [Token.ofText, ← byteSize_append]
    exact h.le_start t ht

/-- **The tokens of a text stand in it in order.** -/
theorem placed_of_scan {before s : List Char} {offset : Nat} {ts : List Token}
    (h : scan offset s = .ok ts) (hoffset : offset = byteSize before) :
    Placed (before ++ s) offset ts := by
  fun_induction scan offset s generalizing before ts with
  | case1 =>
    cases h
    exact placed_nil _ _
  | case2 offset c r _ ih =>
    have hrest := @ih (before ++ [c]) ts h (by simp [hoffset])
    rw [List.append_assoc, List.singleton_append] at hrest
    exact hrest.mono (Nat.le_add_right _ _)
  | case3 offset c r _ kind _ ih =>
    obtain ⟨rest, hrest, rfl⟩ := map_eq_ok.1 h
    have hplaced := @ih (before ++ [c]) rest hrest (by simp [hoffset])
    subst hoffset
    rw [List.append_cons]
    exact Placed.ofText (by simp) (by simpa using hplaced) kind
  | case4 offset c r _ _ _ word =>
    rename_i ih
    obtain ⟨rest, hrest, rfl⟩ := map_eq_ok.1 h
    have hplaced := @ih (before ++ word) rest hrest (by rw [hoffset, byteSize_append])
    subst hoffset
    have hsource : before ++ c :: r = before ++ word ++ r.dropWhile isNameChar := by
      rw [List.append_assoc, List.cons_append, List.takeWhile_append_dropWhile]
    rw [hsource]
    exact Placed.ofText (by simp [word]) (by simpa using hplaced) _
  | case5 => cases h

/-- A character that starts no token stands in the text. -/
theorem covers_of_scan {before s : List Char} {offset : Nat} {bad : BadChar}
    (h : scan offset s = .error bad) (hoffset : offset = byteSize before) :
    Span.Covers ⟨bad.offset, bad.offset + bad.char.utf8Size⟩ (before ++ s) [bad.char] := by
  fun_induction scan offset s generalizing before with
  | case1 => cases h
  | case2 offset c r _ ih =>
    have hrest := @ih (before ++ [c]) h (by simp [hoffset])
    rwa [List.append_assoc, List.singleton_append] at hrest
  | case3 offset c r _ kind _ ih =>
    have hrest := @ih (before ++ [c]) (error?_eq_some.1 (by rw [← error?_map, h]; rfl))
      (by simp [hoffset])
    rwa [List.append_assoc, List.singleton_append] at hrest
  | case4 offset c r _ _ _ word =>
    rename_i ih
    have hrest := @ih (before ++ word) (error?_eq_some.1 (by rw [← error?_map, h]; rfl))
      (by rw [hoffset, byteSize_append])
    rwa [List.append_assoc, List.cons_append, List.takeWhile_append_dropWhile] at hrest
  | case5 offset c r =>
    cases h
    exact ⟨before, r, by simp, by simp [hoffset]⟩

/-! ## Spans between tokens -/

/-- A span from the start of a token to the stop of the same or a later one. -/
def FromTokens (ts : List Token) (p : Span) : Prop :=
  ∃ a b, (a = b ∧ a ∈ ts ∨ [a, b].Sublist ts) ∧ p = ⟨a.span.start, b.span.stop⟩

theorem fromTokens_of_mem {ts : List Token} {t : Token} (h : t ∈ ts) : FromTokens ts t.span :=
  ⟨t, t, Or.inl ⟨rfl, h⟩, rfl⟩

theorem FromTokens.mono {ts us : List Token} {p : Span} (h : FromTokens ts p)
    (hsub : ts.Sublist us) : FromTokens us p := by
  obtain ⟨a, b, hab, rfl⟩ := h
  exact ⟨a, b, hab.imp (fun h => ⟨h.1, hsub.subset h.2⟩) fun h => h.trans hsub, rfl⟩

/-- Such a span covers a text that is not empty. -/
theorem Placed.exists_covers {source : List Char} {offset : Nat} {ts : List Token}
    (h : Placed source offset ts) {p : Span} (hp : FromTokens ts p) :
    ∃ text, text ≠ [] ∧ p.Covers source text := by
  obtain ⟨a, b, ⟨rfl, ha⟩ | hab, rfl⟩ := hp
  · exact ⟨_, h.covers a ha⟩
  · obtain ⟨hne, hcovers⟩ := h.covers a (hab.subset (by simp))
    obtain ⟨-, hlater⟩ := h.covers b (hab.subset (by simp))
    have hle := List.pairwise_pair.1 (h.pairwise.sublist hab)
    obtain ⟨gap, hjoined⟩ := hcovers.join hlater hle
    exact ⟨_, by simp [hne], hjoined⟩

/-! ## What readers find at fault -/

/-- What is at fault, if it is a part of the query, has a span between tokens. -/
def Rejection.At (ts : List Token) (r : Rejection) : Prop :=
  ∀ p ∈ r.span, FromTokens ts p

theorem failsWith_at_mono {α : Type} {ts us : List Token} {x : Except Rejection α}
    (h : FailsWith (Rejection.At ts) x) (hsub : ts.Sublist us) : FailsWith (Rejection.At us) x :=
  h.imp fun _ hr p hp => (hr p hp).mono hsub

theorem failsWith_unexpected {α : Type} (expected : String) (ts : List Token) :
    FailsWith (Rejection.At ts) (unexpected (α := α) expected ts) := by
  cases ts with
  | nil => exact failsWith_error nofun
  | cons t ts =>
    refine failsWith_error ?_
    rintro _ ⟨⟩
    exact fromTokens_of_mem List.mem_cons_self

theorem failsWith_readKind (kind : Kind) (ts : List Token) :
    FailsWith (Rejection.At ts) (readKind kind ts) := by
  cases ts with
  | nil => exact failsWith_unexpected _ []
  | cons t ts => exact failsWith_ite (fun _ => failsWith_ok _) fun _ => failsWith_unexpected _ _

theorem failsWith_readName (expected : String) (ts : List Token) :
    FailsWith (Rejection.At ts) (readName expected ts) := by
  cases ts with
  | nil => exact failsWith_unexpected _ []
  | cons t ts => exact failsWith_ite (fun _ => failsWith_ok _) fun _ => failsWith_unexpected _ _

theorem failsWith_readRef (ts : List Token) : FailsWith (Rejection.At ts) (readRef ts) := by
  refine failsWith_bind (failsWith_readName _ _) ?_
  rintro ⟨table, ts'⟩ htable
  obtain ⟨rfl, -⟩ := readName_eq_ok.1 htable
  refine failsWith_at_mono (failsWith_bind (failsWith_readKind _ _) ?_) (List.sublist_cons_self ..)
  rintro ⟨dot, ts⟩ hdot
  obtain ⟨rfl, -⟩ := readKind_eq_ok.1 hdot
  refine failsWith_at_mono (failsWith_bind (failsWith_readName _ _) ?_) (List.sublist_cons_self ..)
  exact fun _ _ => failsWith_ok _

theorem failsWith_readRefs (ts : List Token) : FailsWith (Rejection.At ts) (readRefs ts) := by
  fun_induction readRefs ts with
  | case1 ts e h => exact failsWith_error (failsWith_readRef ts e h)
  | case2 => exact failsWith_ok _
  | case3 ts ref comma rest h hcomma e hrest ih =>
    obtain ⟨table, dot, column, rfl, -⟩ := readRef_eq_ok.1 h
    rw [hrest] at ih
    exact failsWith_at_mono ih ((List.suffix_append [table, dot, column, comma] rest).sublist)
  | case4 => exact failsWith_ok _
  | case5 => exact failsWith_ok _

/-- A reference whose table and column are tokens, one behind the other. -/
def Ref.From (ts : List Token) (ref : Ref) : Prop :=
  ∃ a b, [a, b].Sublist ts ∧ ref.span = ⟨a.span.start, b.span.stop⟩

theorem IsRefs.from {ts : List Token} {refs : List Ref} (h : IsRefs ts refs) :
    ∀ ref ∈ refs, ref.From ts := by
  induction h with
  | @last table dot column =>
    refine List.forall_mem_cons.2 ⟨⟨table, column, ?_, rfl⟩, nofun⟩
    exact .cons_cons table (.cons dot (.refl _))
  | @more table dot column comma ts refs _ _ _ _ _ ih =>
    refine List.forall_mem_cons.2 ⟨⟨table, column, ?_, rfl⟩, fun ref href => ?_⟩
    · exact .cons_cons table (.cons dot (.cons_cons column (List.nil_sublist _)))
    · obtain ⟨a, b, hab, hspan⟩ := ih ref href
      exact ⟨a, b, hab.trans (List.suffix_append [table, dot, column, comma] ts).sublist, hspan⟩

section
variable {ls rs ts : List Token} (hsub : (ls ++ rs).Sublist ts)
include hsub

theorem fromTokens_left {left : Ref} (h : left.From ls) : FromTokens ts left.span := by
  obtain ⟨a, b, hab, hspan⟩ := h
  exact ⟨a, b, Or.inr (hab.trans ((List.sublist_append_left ..).trans hsub)), hspan⟩

theorem fromTokens_right {right : Ref} (h : right.From rs) : FromTokens ts right.span := by
  obtain ⟨a, b, hab, hspan⟩ := h
  exact ⟨a, b, Or.inr (hab.trans ((List.sublist_append_right ..).trans hsub)), hspan⟩

/-- From a reference on the left to one on the right. -/
theorem fromTokens_pair {left right : Ref} (hleft : left.From ls) (hright : right.From rs) :
    FromTokens ts ⟨left.span.start, right.span.stop⟩ := by
  obtain ⟨a, b, hab, hleft⟩ := hleft
  obtain ⟨c, d, hcd, hright⟩ := hright
  refine ⟨a, d, Or.inr (List.Sublist.trans ?_ hsub), by rw [hleft, hright]⟩
  have ha : [a].Sublist ls := (List.sublist_append_left [a] [b]).trans hab
  have hd : [d].Sublist rs := (List.sublist_append_right [c] [d]).trans hcd
  exact ha.append hd

theorem failsWith_key {left right : Ref} (hleft : left.From ls) (hright : right.From rs)
    (introduced : List String) (table : String) :
    FailsWith (Rejection.At ts) (key introduced table left right) := by
  have hat : ∀ problem span, FromTokens ts span →
      Rejection.At ts ⟨problem, some span⟩ := by
    rintro problem _ hspan _ ⟨⟩
    exact hspan
  have hpair := fromTokens_pair hsub hleft hright
  unfold key
  refine failsWith_ite (fun _ => failsWith_ite (fun _ => ?_) fun _ => ?_)
    fun _ => failsWith_ite (fun _ => ?_) fun _ => ?_
  · exact failsWith_error (hat _ _ hpair)
  · dsimp only
    split
    · exact failsWith_ok _
    · exact failsWith_error (hat _ _ (fromTokens_right hsub hright))
  · dsimp only
    split
    · exact failsWith_ok _
    · exact failsWith_error (hat _ _ (fromTokens_left hsub hleft))
  · exact failsWith_error (hat _ _ hpair)

theorem failsWith_keys {left right : List Ref} (hleft : IsRefs ls left) (hright : IsRefs rs right)
    (introduced : List String) (table : String) :
    FailsWith (Rejection.At ts) (keys introduced table left right) := by
  refine failsWith_ite (fun _ => failsWith_mapM fun p hp => ?_) fun _ => failsWith_error ?_
  · obtain ⟨hl, hr⟩ := List.of_mem_zip hp
    exact failsWith_key hsub (hleft.from _ hl) (hright.from _ hr) introduced table
  · rintro _ ⟨⟩
    obtain ⟨first, more, hfirst⟩ := List.exists_cons_of_ne_nil hleft.ne_nil
    obtain ⟨front, last, hlast⟩ := List.eq_nil_or_concat right |>.resolve_left hright.ne_nil
    subst hfirst hlast
    simpa using fromTokens_pair hsub (hleft.from first (by simp)) (hright.from last (by simp))

end

theorem failsWith_readJoin (introduced : List String) (ts : List Token) :
    FailsWith (Rejection.At ts) (readJoin introduced ts) := by
  refine failsWith_bind (failsWith_readName _ _) ?_
  rintro ⟨table, ts'⟩ htable
  obtain ⟨rfl, -⟩ := readName_eq_ok.1 htable
  refine failsWith_ite (fun _ => ?_) fun _ => ?_
  · refine failsWith_bind (failsWith_error ?_) nofun
    rintro _ ⟨⟩
    exact fromTokens_of_mem List.mem_cons_self
  refine failsWith_at_mono (failsWith_bind (failsWith_readKind _ _) ?_) (List.sublist_cons_self ..)
  rintro ⟨on, ts⟩ hon
  obtain ⟨rfl, -⟩ := readKind_eq_ok.1 hon
  refine failsWith_at_mono (failsWith_bind (failsWith_readRefs _) ?_) (List.sublist_cons_self ..)
  rintro ⟨left, ts⟩ hread
  obtain ⟨ls, rfl, hleft, -⟩ := readRefs_eq_ok.1 hread
  refine failsWith_bind (failsWith_at_mono (failsWith_readKind _ _)
    (List.sublist_append_right ..)) ?_
  rintro ⟨equals, ts⟩ hequals
  obtain ⟨rfl, -⟩ := readKind_eq_ok.1 hequals
  refine failsWith_bind (failsWith_at_mono (failsWith_readRefs _)
    ((List.sublist_cons_self ..).trans (List.sublist_append_right ..))) ?_
  rintro ⟨right, rest⟩ hread
  obtain ⟨rs, rfl, hright, -⟩ := readRefs_eq_ok.1 hread
  have hsub : (ls ++ rs).Sublist (ls ++ equals :: (rs ++ rest)) :=
    (List.Sublist.refl ls).append (.cons equals (List.sublist_append_left rs rest))
  exact failsWith_bind (failsWith_keys hsub hleft hright introduced table.text)
    fun _ _ => failsWith_ok _

theorem failsWith_readJoins (introduced : List String) (ts : List Token) :
    FailsWith (Rejection.At ts) (readJoins introduced ts) := by
  fun_induction readJoins introduced ts with
  | case1 => exact failsWith_ok _
  | case2 introduced word ts hword e h =>
    have he := failsWith_readJoin introduced ts e h
    exact failsWith_error fun p hp => (he p hp).mono (List.sublist_cons_self ..)
  | case3 introduced word ts hword join rest h ih =>
    obtain ⟨front, rfl, -⟩ := readJoin_eq_ok.1 h
    refine failsWith_map (failsWith_at_mono ih ?_)
    exact (List.sublist_append_right front rest).trans (List.sublist_cons_self ..)
  | case4 introduced word ts hword => exact failsWith_unexpected _ _

/-- **What is at fault in tokens has a span between two of them.** -/
theorem fromTokens_of_readPlan {ts : List Token} {r : Rejection} (h : readPlan ts = .error r) :
    r.At ts := by
  refine (?_ : FailsWith (Rejection.At ts) (readPlan ts)) r h
  refine failsWith_ite (fun _ => failsWith_bind (failsWith_error nofun) nofun) fun _ => ?_
  refine failsWith_bind (failsWith_readName _ _) ?_
  rintro ⟨base, ts⟩ hbase
  obtain ⟨rfl, -⟩ := readName_eq_ok.1 hbase
  refine failsWith_at_mono (failsWith_bind (failsWith_readJoins _ _) ?_)
    (List.sublist_cons_self ..)
  exact fun _ _ => failsWith_ok _

/-! ## Errors -/

/-- **The span of an error covers a part of the query that is not empty**, if the query itself is
    not. -/
theorem exists_covers_of_ofQuery {query : String} (hne : query ≠ "") {e : SyntaxError}
    (h : Plan.ofQuery query = .error e) :
    e.query = query ∧ ∃ text, text ≠ [] ∧ e.span.Covers query.toList text := by
  have hall : Span.Covers ⟨0, byteSize query.toList⟩ query.toList query.toList :=
    ⟨[], [], by simp, by simp⟩
  rcases bind_eq_error.1 h with h | ⟨ts, hts, h⟩
  · obtain ⟨bad, hbad, rfl⟩ := mapError_eq_error.1 h
    exact ⟨rfl, [bad.char], by simp, @covers_of_scan [] _ _ _ hbad rfl⟩
  · obtain ⟨r, hr, rfl⟩ := mapError_eq_error.1 h
    have hplaced := @placed_of_scan [] _ _ _ (mapError_eq_ok.1 hts) rfl
    refine ⟨rfl, ?_⟩
    rw [Rejection.error]
    cases hspan : r.span with
    | some p => exact hplaced.exists_covers (fromTokens_of_readPlan hr p hspan)
    | none =>
      cases hlast : ts.getLast? with
      | some t =>
        exact hplaced.exists_covers (fromTokens_of_mem (List.mem_of_getLast? hlast))
      | none => exact ⟨query.toList, fun hnil => hne (String.toList_eq_nil_iff.1 hnil), hall⟩

/-- A query has a snippet if it does not consist of blanks. -/
theorem snippet?_eq_some {e : SyntaxError} {s : Snippet} :
    e.snippet? = some s ↔
      (∃ c ∈ e.query.toList, isBlank c = false) ∧ s = ⟨"repeater_parameters", e.query, e.span⟩ := by
  rw [SyntaxError.snippet?, Option.ite_none_left_eq_some, trim_eq_nil_iff]
  simp only [not_forall, exists_prop, Bool.not_eq_true, Option.some.injEq]
  exact and_congr_right fun _ => eq_comm

/-- **An error shows a part of the query.**  Its span is not empty, lies within the query and
    begins and ends between two characters, the message quotes what stands there, and the
    diagnostic has a snippet of it unless the query consists of blanks. -/
theorem span_of_ofQuery {query : String} (hne : query ≠ "") {e : SyntaxError}
    (h : Plan.ofQuery query = .error e) :
    e.query = query ∧ e.span.start < e.span.stop ∧ e.span.stop ≤ query.utf8ByteSize ∧
      (∃ before after, query = before ++ e.fragment ++ after ∧ e.fragment ≠ "" ∧
        before.utf8ByteSize = e.span.start ∧
        (before ++ e.fragment).utf8ByteSize = e.span.stop) ∧
      e.message = "invalid query: " ++ e.reason ++ " in `" ++ e.fragment ++ "`" ∧
      ((Fault.querySyntax e).diagnostic.snippet.isSome ↔ ∃ c ∈ query.toList, isBlank c = false) ∧
      ∀ s ∈ (Fault.querySyntax e).diagnostic.snippet,
        s.source = query ∧ s.span = e.span ∧ s.fragment = e.fragment := by
  obtain ⟨rfl, text, htext, hcovers⟩ := exists_covers_of_ofQuery hne h
  have hlt := hcovers.lt htext
  have hfragment : e.fragment = String.ofList text := hcovers.fragment_eq
  have hsnippet : (Fault.querySyntax e).diagnostic.snippet = e.snippet? := rfl
  refine ⟨rfl, hlt, ?_, ?_, ?_, ?_, ?_⟩
  · rw [← String.ofList_toList (s := e.query), utf8ByteSize_ofList]
    exact hcovers.stop_le
  · obtain ⟨before, after, hquery, hspan⟩ := hcovers
    refine ⟨String.ofList before, String.ofList after, ?_, ?_, ?_, ?_⟩
    · rw [hfragment, ← String.ofList_append, ← String.ofList_append, ← hquery,
        String.ofList_toList]
    · rw [hfragment]
      exact fun hnil => htext (String.ofList_eq_empty_iff.1 hnil)
    · rw [utf8ByteSize_ofList, hspan]
    · rw [hfragment, ← String.ofList_append, utf8ByteSize_ofList, byteSize_append, hspan]
  · rw [SyntaxError.message, Span.isEmpty, if_neg (by simpa using hlt)]
  · rw [hsnippet, Option.isSome_iff_exists]
    simp [snippet?_eq_some]
  · rw [hsnippet]
    intro s hs
    obtain ⟨-, rfl⟩ := snippet?_eq_some.1 hs
    exact ⟨rfl, rfl, rfl⟩

/-- An error from one reference to the next one, behind a blank of three bytes. -/
theorem span_of_both_sides :
    let query := "a\u3000join b on b.x = b.y"
    let e : SyntaxError := ⟨query, ⟨14, 23⟩, "both sides name the joined table `b`"⟩
    Plan.ofQuery query = .error e ∧
      ∃ before after, query = before ++ e.fragment ++ after ∧ e.fragment ≠ "" ∧
        before.utf8ByteSize = e.span.start ∧
        (before ++ e.fragment).utf8ByteSize = e.span.stop := by
  intro query e
  have hread : Plan.ofQuery query = .error e := by decide +kernel
  obtain ⟨-, -, -, hsplit, -⟩ := span_of_ofQuery (by decide) hread
  exact ⟨hread, hsplit⟩

end Stencil.Query
