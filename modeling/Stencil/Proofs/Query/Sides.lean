/-
  The two sides of a join key.

  * `scan_cut`: a text is cut between two of its tokens;
  * `lexemes_exchange`: two parts of a text that begin and end with words are exchanged;
  * `IsClause.exchange`: two references of a clause are exchanged;
  * `verdict_of_part`: a part of a query is replaced by one whose tokens are alike;
  * `Exchange`: the texts of the two references at one place of a clause are exchanged in a query;
  * `sides_interchangeable`: the query says the same plan, or is rejected for the same reason.
-/
import Mathlib.Logic.Relation
import Stencil.Proofs.Query.ErrorSpan
import Stencil.Proofs.Query.Verdict

namespace Stencil.Query

open Text

/-! ## References of a clause -/

/-- The tokens of a reference. -/
inductive IsRef : List Token → Ref → Prop
  | intro {table dot column} :
      table.kind = .identifier → dot.kind = .dot → column.kind = .identifier →
      IsRef [table, dot, column] (.ofTokens table column)

/-- **One of several references can be replaced by another one.** -/
theorem IsRefs.replace {ts : List Token} {front back : List Ref} {ref : Ref}
    (h : IsRefs ts (front ++ ref :: back)) :
    ∃ us vs ws, ts = us ++ (vs ++ ws) ∧ IsRef vs ref ∧
      ∀ vs' ref', IsRef vs' ref' → IsRefs (us ++ (vs' ++ ws)) (front ++ ref' :: back) := by
  generalize hrefs : front ++ ref :: back = refs at h
  induction h generalizing front with
  | @last table dot column ht hd hc =>
    obtain ⟨rfl, hsingle⟩ : front = [] ∧ [ref] ++ back = [.ofTokens table column] := by
      cases front with
      | nil => exact ⟨rfl, hrefs⟩
      | cons _ front => simp at hrefs
    obtain ⟨rfl, rfl⟩ := List.cons.inj hsingle
    refine ⟨[], [table, dot, column], [], rfl, .intro ht hd hc, ?_⟩
    rintro _ _ ⟨ht', hd', hc'⟩
    exact .last ht' hd' hc'
  | @more table dot column comma ts refs ht hd hc hcomma hrest ih =>
    cases front with
    | nil =>
      obtain ⟨rfl, rfl⟩ := List.cons.inj hrefs
      refine ⟨[], [table, dot, column], comma :: ts, rfl, .intro ht hd hc, ?_⟩
      rintro _ _ ⟨ht', hd', hc'⟩
      exact .more ht' hd' hc' hcomma hrest
    | cons first front =>
      obtain ⟨rfl, hmore⟩ := List.cons.inj hrefs
      obtain ⟨us, vs, ws, rfl, href, hreplace⟩ := ih hmore
      exact ⟨table :: dot :: column :: comma :: us, vs, ws, rfl, href, fun vs' ref' h' =>
        .more ht hd hc hcomma (hreplace vs' ref' h')⟩

/-- **Two references of a clause can be exchanged**, one on each side. -/
theorem IsClause.exchange {ts : List Token} {table : String} {lfront lback rfront rback : List Ref}
    {l r : Ref} (h : IsClause ts ⟨table, lfront ++ l :: lback, rfront ++ r :: rback⟩) :
    ∃ us vs ws vs' xs, ts = us ++ vs ++ ws ++ vs' ++ xs ∧ us ≠ [] ∧ IsRef vs l ∧ ws ≠ [] ∧
      IsRef vs' r ∧ IsClause (us ++ vs' ++ ws ++ vs ++ xs)
        ⟨table, lfront ++ r :: lback, rfront ++ l :: rback⟩ := by
  cases h with
  | @intro word name on equals ls rs left right hword htable hon hleft hequals hright =>
    obtain ⟨lus, vs, lws, rfl, hl, hlreplace⟩ := hleft.replace
    obtain ⟨rus, vs', rws, rfl, hr, hrreplace⟩ := hright.replace
    refine ⟨word :: name :: on :: lus, vs, lws ++ equals :: rus, vs', rws, by simp, by simp, hl,
      by simp, hr, ?_⟩
    have hclause := IsClause.intro hword htable hon (hlreplace _ _ hr) hequals (hrreplace _ _ hl)
    simpa using hclause

/-- One exchange leaves the other places of a clause as they are. -/
theorem exchanged_of_exchange {table : String} {lfront lback rfront rback : List Ref} {l r : Ref}
    (hfront : lfront.length = rfront.length) (hback : lback.length = rback.length) :
    Clause.Exchanged ⟨table, lfront ++ l :: lback, rfront ++ r :: rback⟩
      ⟨table, lfront ++ r :: lback, rfront ++ l :: rback⟩ where
  table_eq := rfl
  length_eq := by simp [hfront, hback]
  length_eq' := by simp [hfront, hback]
  sides := by
    have hsame : ∀ s, List.Forall₂ SameSides s s := fun s =>
      List.forall₂_same.2 fun _ _ => Or.inl rfl
    have hzip : (lfront.map Ref.names).length = (rfront.map Ref.names).length := by simp [hfront]
    rw [Clause.sides, Clause.sides]
    simp only [List.map_append, List.map_cons]
    rw [List.zip_append hzip, List.zip_append hzip]
    exact List.rel_append (hsame _) (.cons (Or.inr rfl) (hsame _))

/-! ## Cuts between tokens -/

/-- A text is cut at a place where some tokens stop and the others start. -/
theorem scan_cut {a b : List Char} {ts us : List Token} (h : scan 0 (a ++ b) = .ok (ts ++ us))
    (hts : ∀ t ∈ ts, t.span.stop ≤ byteSize a) (hus : ∀ u ∈ us, byteSize a ≤ u.span.start) :
    Apart a b ∧ scan 0 a = .ok ts ∧ scan (byteSize a) b = .ok us := by
  have hapart : Apart a b := by
    refine apart_of_scan h fun t ht => ?_
    rw [Nat.zero_add]
    exact (List.mem_append.1 ht).imp (hts t) (hus t)
  obtain ⟨ts', us', hts', hus', heq⟩ := (scan_append_eq_ok hapart).1 h
  rw [Nat.zero_add] at hus'
  have hleft := @placed_of_scan [] _ _ _ hts' rfl
  have hright := @placed_of_scan a _ _ _ hus' rfl
  refine ⟨hapart, ?_⟩
  rcases List.append_eq_append_iff.1 heq with ⟨gap, rfl, rfl⟩ | ⟨gap, rfl, rfl⟩
  · cases gap with
    | nil => exact ⟨by simpa using hts', hus'⟩
    | cons t gap =>
      have hcovers := hleft.covers t (by simp)
      have hstart := hus t (by simp)
      have hlt := hcovers.2.lt hcovers.1
      have hstop := hcovers.2.stop_le
      rw [List.nil_append] at hstop
      omega
  · cases gap with
    | nil => exact ⟨by simpa using hts', hus'⟩
    | cons t gap =>
      have hcovers := hright.covers t (by simp)
      have hstart := hright.le_start t (by simp)
      have hlt := hcovers.2.lt hcovers.1
      have hstop := hts t (by simp)
      omega

section
variable {a b : List Char} {ts us : List Token} {t : Token}

theorem scan_cut_start (h : scan 0 (a ++ b) = .ok (ts ++ t :: us))
    (ht : t.span.start = byteSize a) :
    Apart a b ∧ scan 0 a = .ok ts ∧ scan (byteSize a) b = .ok (t :: us) := by
  have hplaced := @placed_of_scan [] _ _ _ h rfl
  obtain ⟨-, htail, hcross⟩ := List.pairwise_append.1 hplaced.pairwise
  have hcovers := hplaced.covers t (by simp)
  have hlt := hcovers.2.lt hcovers.1
  refine scan_cut h (fun s hs => ?_) (List.forall_mem_cons.2 ⟨ht.ge, fun u hu => ?_⟩)
  · have := hcross s hs t List.mem_cons_self
    omega
  · have := (List.pairwise_cons.1 htail).1 u hu
    omega

theorem scan_cut_stop (h : scan 0 (a ++ b) = .ok (ts ++ t :: us))
    (ht : t.span.stop = byteSize a) :
    Apart a b ∧ scan 0 a = .ok (ts ++ [t]) ∧ scan (byteSize a) b = .ok us := by
  have hplaced := @placed_of_scan [] _ _ _ h rfl
  obtain ⟨-, htail, hcross⟩ := List.pairwise_append.1 hplaced.pairwise
  have hcovers := hplaced.covers t (by simp)
  have hlt := hcovers.2.lt hcovers.1
  rw [List.append_cons] at h
  refine scan_cut h (List.forall_mem_append.2 ⟨fun s hs => ?_, List.forall_mem_singleton.2 ht.le⟩)
    fun u hu => ?_
  · have := hcross s hs t List.mem_cons_self
    omega
  · have := (List.pairwise_cons.1 htail).1 u hu
    omega

end

/-! ## Texts of references -/

/-- A text that begins and ends with characters of names. -/
structure Wordy (s : List Char) : Prop where
  begins : ¬EndsWord s
  ends : ∃ c ∈ s.getLast?, isNameChar c = true

theorem Wordy.ne_nil {s : List Char} (h : Wordy s) : s ≠ [] := by
  rintro rfl
  exact h.begins nofun

/-- Whether a word goes on with a text is a question of its first character. -/
theorem endsWord_append {s b : List Char} (hs : s ≠ []) : EndsWord (s ++ b) ↔ EndsWord s := by
  obtain ⟨c, s, rfl⟩ := List.exists_cons_of_ne_nil hs
  exact Iff.rfl

/-- No word goes on behind what stands in front of such a text. -/
theorem Wordy.apart_of_apart {a s : List Char} (hs : Wordy s) (h : Apart a s) (b : List Char) :
    Apart a b := fun c hc hchar =>
  absurd (h c hc hchar) hs.begins

/-- No word goes on with what stands behind such a text. -/
theorem Wordy.endsWord_of_apart {a s b : List Char} (hs : Wordy s) (h : Apart (a ++ s) b) :
    EndsWord b := by
  obtain ⟨c, hc, hchar⟩ := hs.ends
  exact (apart_append hs.ne_nil).1 h c hc hchar

/-- The text of a reference begins and ends with words. -/
theorem wordy_of_isRef {a s : List Char} {ts us : List Token} {ref : Ref}
    (h : scan 0 (a ++ s) = .ok (ts ++ us)) (href : IsRef us ref)
    (hspan : ref.span = ⟨byteSize a, byteSize (a ++ s)⟩) : Wordy s := by
  have hwords := scan_words h
  have hplaced := @placed_of_scan [] _ _ _ h rfl
  rw [List.nil_append] at hplaced
  obtain ⟨ht, -, hc⟩ := href
  rename_i table dot column
  obtain ⟨hstart, hstop⟩ := Span.mk.inj hspan
  have hbegins : ¬EndsWord s := by
    obtain ⟨hname, -⟩ := hwords table (by simp) ht
    obtain ⟨before, after, hsource, hcovers⟩ := (hplaced.covers table (by simp)).2
    rw [hcovers] at hstart
    rw [List.append_assoc] at hsource
    obtain ⟨-, rfl⟩ := Span.append_inj_of_byteSize_eq hsource hstart.symm
    exact not_endsWord_of_isName hname _
  refine ⟨hbegins, ?_⟩
  have hne : s ≠ [] := by
    rintro rfl
    exact hbegins nofun
  obtain ⟨hname, -⟩ := hwords column (by simp) hc
  obtain ⟨hcolumn, hchar⟩ := forall_isNameChar hname
  obtain ⟨before, after, hsource, hcovers⟩ := (hplaced.covers column (by simp)).2
  rw [hcovers] at hstop
  have hafter : [] = after := by
    have hall : a ++ s ++ [] = before ++ column.text.toList ++ after := by
      rw [List.append_nil, hsource]
    refine (Span.append_inj_of_byteSize_eq hall ?_).2
    rw [byteSize_append before]
    exact hstop.symm
  have hlast : (a ++ s).getLast? = (before ++ column.text.toList).getLast? := by
    rw [hsource, ← hafter, List.append_nil]
  rw [List.getLast?_append, List.getLast?_append, Option.or_of_isSome (List.getLast?_isSome.2 hne),
    Option.or_of_isSome (List.getLast?_isSome.2 hcolumn)] at hlast
  rw [hlast]
  exact ⟨_, List.getLast?_eq_getLast_of_ne_nil hcolumn, hchar _ (List.getLast_mem hcolumn)⟩

/-! ## Texts that are exchanged -/

/-- **A text is cut around a reference.** -/
theorem scan_cut_ref {a s b : List Char} {ts vs us : List Token} {ref : Ref}
    (h : scan 0 (a ++ s ++ b) = .ok (ts ++ vs ++ us)) (href : IsRef vs ref)
    (hspan : ref.span = ⟨byteSize a, byteSize (a ++ s)⟩) :
    Wordy s ∧ Apart a s ∧ Apart (a ++ s) b ∧ scan 0 a = .ok ts ∧
      lexemes s = .ok (vs.map Token.lexeme) ∧ lexemes b = .ok (us.map Token.lexeme) := by
  obtain ⟨hstart, hstop⟩ := Span.mk.inj hspan
  have hbehind : Apart (a ++ s) b ∧ scan 0 (a ++ s) = .ok (ts ++ vs) ∧
      scan (byteSize (a ++ s)) b = .ok us := by
    cases href with
    | @intro table dot column =>
      have h : scan 0 (a ++ s ++ b) = .ok (ts ++ [table, dot] ++ column :: us) := by simpa using h
      simpa using scan_cut_stop h hstop
  obtain ⟨hbehind, h, hus⟩ := hbehind
  have hfront : Apart a s ∧ scan 0 a = .ok ts ∧ scan (byteSize a) s = .ok vs := by
    cases href with
    | intro => exact scan_cut_start h hstart
  obtain ⟨hfront, hts, hvs⟩ := hfront
  exact ⟨wordy_of_isRef h href hspan, hfront, hbehind, hts, (lexemes_eq_ok _).2 ⟨vs, hvs, rfl⟩,
    (lexemes_eq_ok _).2 ⟨us, hus, rfl⟩⟩

theorem lexemes_append_ok {a b : List Char} {ls ms : List Lexeme} (h : Apart a b)
    (ha : lexemes a = .ok ls) (hb : lexemes b = .ok ms) : lexemes (a ++ b) = .ok (ls ++ ms) := by
  rw [lexemes_append h, ha, hb]
  rfl

theorem ne_nil_of_scan {offset : Nat} {s : List Char} {ts : List Token}
    (h : scan offset s = .ok ts) (hts : ts ≠ []) : s ≠ [] := by
  rintro rfl
  rw [scan_nil] at h
  cases h
  exact hts rfl

section
variable {front left middle right behind : List Char} {us vs ws vs' xs : List Token} {l r : Ref}

/-- **The texts of two references can be exchanged**, with their lexemes. -/
theorem lexemes_exchange
    (h : scan 0 (front ++ left ++ middle ++ right ++ behind) = .ok (us ++ vs ++ ws ++ vs' ++ xs))
    (hl : IsRef vs l) (hr : IsRef vs' r)
    (hlspan : l.span = ⟨byteSize front, byteSize (front ++ left)⟩)
    (hrspan : r.span =
      ⟨byteSize (front ++ left ++ middle), byteSize (front ++ left ++ middle ++ right)⟩)
    (hus : us ≠ []) (hws : ws ≠ []) :
    front ≠ [] ∧ Wordy right ∧
      lexemes (front ++ right ++ middle ++ left ++ behind) =
        .ok ((us ++ vs' ++ ws ++ vs ++ xs).map Token.lexeme) := by
  obtain ⟨hright, hmiddleRight, hrightBehind, h, hvs', hxs⟩ := scan_cut_ref h hr hrspan
  obtain ⟨hleft, hfrontLeft, hleftMiddle, hfront, hvs, hms⟩ := scan_cut_ref h hl hlspan
  have hmiddle : middle ≠ [] := by
    obtain ⟨ts, hts, hlexemes⟩ := (lexemes_eq_ok 0).1 hms
    refine ne_nil_of_scan hts fun hnil => hws ?_
    rw [hnil] at hlexemes
    exact List.map_eq_nil_iff.1 hlexemes.symm
  have hfs : lexemes front = .ok (us.map Token.lexeme) := (lexemes_eq_ok 0).2 ⟨us, hfront, rfl⟩
  refine ⟨ne_nil_of_scan hfront hus, hright, ?_⟩
  have hfrontRight : Apart front right := hleft.apart_of_apart hfrontLeft right
  have hrightMiddle : Apart (front ++ right) middle :=
    .of_endsWord (hleft.endsWord_of_apart hleftMiddle)
  have hmiddleLeft : Apart (front ++ right ++ middle) left :=
    (apart_append hmiddle).2 (hright.apart_of_apart ((apart_append hmiddle).1 hmiddleRight) left)
  have hleftBehind : Apart (front ++ right ++ middle ++ left) behind :=
    .of_endsWord (hright.endsWord_of_apart hrightBehind)
  simp only [List.map_append]
  exact lexemes_append_ok hleftBehind (lexemes_append_ok hmiddleLeft (lexemes_append_ok hrightMiddle
    (lexemes_append_ok hfrontRight hfs hvs') hms) hvs) hxs

end

/-! ## Queries -/

/-- The text of a clause between two other texts: no word goes on over its ends, and no further
    reference follows. -/
structure ClauseText (before text after : String) (clause : Clause) : Prop where
  isClause : ∃ ts, tokens text = .ok ts ∧ IsClause ts clause
  apart_before : Apart before.toList text.toList
  apart_after : Apart text.toList after.toList
  endsRefs : ∀ rest, tokens after = .ok rest → EndsRefs rest

/-- In a clause with as many references on each side of the equals sign, the texts of the two
    references at one place are exchanged. -/
inductive Exchange : String → String → Prop
  | intro {before front left middle right behind after : String} {clause : Clause} {i : Nat}
      {l r : Ref} :
      ClauseText before (front ++ left ++ middle ++ right ++ behind) after clause →
      clause.left.length = clause.right.length → clause.left[i]? = some l →
      clause.right[i]? = some r →
      l.span = ⟨byteSize front.toList, byteSize (front ++ left).toList⟩ →
      r.span = ⟨byteSize (front ++ left ++ middle).toList,
        byteSize (front ++ left ++ middle ++ right).toList⟩ →
      Exchange (before ++ (front ++ left ++ middle ++ right ++ behind) ++ after)
        (before ++ (front ++ right ++ middle ++ left ++ behind) ++ after)

/-- The lists on both sides of a position. -/
theorem exists_append_of_getElem? {α : Type} {l : List α} {i : Nat} {a : α} (h : l[i]? = some a) :
    ∃ front back, l = front ++ a :: back ∧ front.length = i := by
  induction l generalizing i with
  | nil => cases h
  | cons b l ih =>
    cases i with
    | zero =>
      cases h
      exact ⟨[], l, rfl, rfl⟩
    | succ i =>
      obtain ⟨front, back, rfl, hlength⟩ := ih h
      exact ⟨b :: front, back, rfl, congrArg (· + 1) hlength⟩

theorem Alike.append_left {ts us : List Token} (h : Alike ts us) (front : List Token) :
    Alike (front ++ ts) (front ++ us) := by
  induction front with
  | nil => exact h
  | cons t front ih => exact .token rfl ih

/-! ## Parts of queries -/

/-- A part of a query between two other texts: no word goes on over its ends. -/
structure Part (before text after : String) : Prop where
  ne_nil : text.toList ≠ []
  apart_before : Apart before.toList text.toList
  apart_after : Apart text.toList after.toList

section
variable {before text text' after : String}

theorem Part.lexemes_eq (h : Part before text after) :
    lexemes (before ++ text ++ after).toList = (do
      let ls ← lexemes before.toList
      let ms ← lexemes text.toList
      let ns ← lexemes after.toList
      return ls ++ ms ++ ns) := by
  rw [String.toList_append, String.toList_append,
    lexemes_append ((apart_append h.ne_nil).2 h.apart_after), lexemes_append h.apart_before]
  cases lexemes before.toList with
  | error e => rfl
  | ok ls => cases lexemes text.toList <;> rfl

/-- An exchange changes nothing at the ends of a part. -/
theorem Part.exchange {front left middle right behind : String}
    (h : Part before (front ++ left ++ middle ++ right ++ behind) after)
    (hfront : front.toList ≠ []) (hright : Wordy right.toList) :
    Part before (front ++ right ++ middle ++ left ++ behind) after := by
  obtain ⟨-, hbefore, hafter⟩ := h
  simp only [String.toList_append] at hbefore hafter
  refine ⟨by simp [hfront], ?_, ?_⟩
  · intro c hc hchar
    have hends := hbefore c hc hchar
    simp only [String.toList_append, List.append_assoc, endsWord_append hfront] at hends ⊢
    exact hends
  · simp only [String.toList_append]
    by_cases hbehind : behind.toList = []
    · rw [hbehind, List.append_nil] at hafter
      exact .of_endsWord (hright.endsWord_of_apart hafter)
    · rw [apart_append hbehind] at hafter ⊢
      exact hafter

/-- **A part of a query can be replaced** by one whose tokens are alike among the other ones. -/
theorem verdict_of_part {ts us : List Token} (h : Part before text after)
    (h' : Part before text' after) (hts : lexemes text.toList = .ok (ts.map Token.lexeme))
    (hus : lexemes text'.toList = .ok (us.map Token.lexeme))
    (halike : ∀ front rest, tokens after = .ok rest →
      Alike (front ++ ts ++ rest) (front ++ us ++ rest)) :
    verdict (before ++ text ++ after) = verdict (before ++ text' ++ after) := by
  have hq := h.lexemes_eq
  have hq' := h'.lexemes_eq
  rw [hts] at hq
  rw [hus] at hq'
  cases hb : lexemes before.toList with
  | error c =>
    rw [hb] at hq hq'
    rw [verdict_of_char hq, verdict_of_char hq']
  | ok bs =>
    cases ha : lexemes after.toList with
    | error c =>
      rw [hb, ha] at hq hq'
      rw [verdict_of_char hq, verdict_of_char hq']
    | ok as =>
      obtain ⟨front, -, rfl⟩ := (lexemes_eq_ok 0).1 hb
      obtain ⟨rest, hrest, rfl⟩ := (lexemes_eq_ok 0).1 ha
      rw [hb, ha] at hq hq'
      have hmap : ∀ vs, front.map Token.lexeme ++ vs.map Token.lexeme ++ rest.map Token.lexeme =
          (front ++ vs ++ rest).map Token.lexeme := fun vs => by
        rw [List.map_append, List.map_append]
      rw [verdict_of_lexemes (hq.trans (congrArg Except.ok (hmap ts))),
        verdict_of_lexemes (hq'.trans (congrArg Except.ok (hmap us)))]
      exact (agree_readPlan (halike front rest (mapError_eq_ok.2 hrest))).mapError_eq

end

/-! ## Keys -/

/-- The tokens around a clause in which references are exchanged are alike. -/
theorem alike_around {ts us rest : List Token} {clause clause' : Clause} {word : Token}
    (h : IsClause (word :: ts) clause) (h' : IsClause (word :: us) clause')
    (hsame : clause.Exchanged clause') (hends : EndsRefs rest) (front : List Token) :
    Alike (front ++ word :: ts ++ rest) (front ++ word :: us ++ rest) := by
  rw [List.append_assoc, List.append_assoc]
  exact (Alike.clause rfl h h' hsame hends (alike_of_lexemes rfl)).append_left front

/-- **An exchange does not change the verdict.** -/
theorem verdict_of_exchange {q q' : String} (h : Exchange q q') : verdict q = verdict q' := by
  obtain ⟨htext, hlength, hl, hr, hlspan, hrspan⟩ := h
  rename_i before front left middle right behind after clause i l r
  obtain ⟨table, lefts, rights⟩ := clause
  obtain ⟨lfront, lback, rfl, hlfront⟩ := exists_append_of_getElem? hl
  obtain ⟨rfront, rback, rfl, hrfront⟩ := exists_append_of_getElem? hr
  obtain ⟨⟨_, hts, hclause⟩, hbefore, hafter, hends⟩ := htext
  obtain ⟨us, vs, ws, vs', xs, rfl, hus, hvs, hws, hvs', hclause'⟩ := hclause.exchange
  obtain ⟨word, us, rfl⟩ := List.exists_cons_of_ne_nil hus
  have hscan := mapError_eq_ok.1 hts
  simp only [String.toList_append] at hscan hlspan hrspan
  obtain ⟨hfront, hright, hlexemes'⟩ := lexemes_exchange hscan hvs hvs' hlspan hrspan hus hws
  have hlexemes := (lexemes_eq_ok 0).2 ⟨_, hscan, rfl⟩
  simp only [← String.toList_append] at hlexemes hlexemes'
  have hpart : Part before (front ++ left ++ middle ++ right ++ behind) after :=
    ⟨by simp [hfront], hbefore, hafter⟩
  have hlengths : lback.length = rback.length := by simpa [hlfront, hrfront] using hlength
  have hpart' := hpart.exchange hfront hright
  refine verdict_of_part hpart hpart' hlexemes hlexemes' fun ts rest hrest => ?_
  have hsame := @exchanged_of_exchange table lfront lback rfront rback l r
    (hlfront.trans hrfront.symm) hlengths
  exact alike_around hclause hclause' hsame (hends rest hrest) ts

/-- **The two sides of a key are interchangeable.**  If the texts of two references are exchanged,
    at any number of places in any clauses of a query, then the query says the same plan, or is
    rejected for the same reason.  So do any two queries whose tokens are the same but for their
    bytes and for references that are exchanged. -/
theorem sides_interchangeable :
    (∀ q q', Relation.ReflTransGen Exchange q q' → verdict q = verdict q') ∧
    ∀ q q' ts us, tokens q = .ok ts → tokens q' = .ok us → Alike ts us →
      verdict q = verdict q' := by
  refine ⟨fun q q' hsteps => ?_, fun q q' ts us hts hus halike => verdict_of_alike hts hus halike⟩
  induction hsteps with
  | refl => rfl
  | tail _ hstep ih => exact ih.trans (verdict_of_exchange hstep)

/-- In a clause with two keys, the two sides of the second one are exchanged. -/
theorem sides_interchangeable_second :
    let query := "a join b on a.x, b.q = b.y, a.p join c on c.z = a.x"
    let exchanged := "a join b on a.x, a.p = b.y, b.q join c on c.z = a.x"
    let plan : Plan := ⟨"a", [⟨"b", [⟨0, "x", "y"⟩, ⟨0, "p", "q"⟩]⟩, ⟨"c", [⟨0, "x", "z"⟩]⟩]⟩
    Exchange query exchanged ∧ verdict query = .ok plan ∧ verdict exchanged = .ok plan := by
  intro query exchanged plan
  let ts : List Token := [⟨.join, "join", ⟨0, 4⟩⟩, ⟨.identifier, "b", ⟨5, 6⟩⟩, ⟨.on, "on", ⟨7, 9⟩⟩,
    ⟨.identifier, "a", ⟨10, 11⟩⟩, ⟨.dot, ".", ⟨11, 12⟩⟩, ⟨.identifier, "x", ⟨12, 13⟩⟩,
    ⟨.comma, ",", ⟨13, 14⟩⟩, ⟨.identifier, "b", ⟨15, 16⟩⟩, ⟨.dot, ".", ⟨16, 17⟩⟩,
    ⟨.identifier, "q", ⟨17, 18⟩⟩, ⟨.equals, "=", ⟨19, 20⟩⟩, ⟨.identifier, "b", ⟨21, 22⟩⟩,
    ⟨.dot, ".", ⟨22, 23⟩⟩, ⟨.identifier, "y", ⟨23, 24⟩⟩, ⟨.comma, ",", ⟨24, 25⟩⟩,
    ⟨.identifier, "a", ⟨26, 27⟩⟩, ⟨.dot, ".", ⟨27, 28⟩⟩, ⟨.identifier, "p", ⟨28, 29⟩⟩]
  let clause : Clause := ⟨"b", [⟨"a", "x", ⟨10, 13⟩⟩, ⟨"b", "q", ⟨15, 18⟩⟩],
    [⟨"b", "y", ⟨21, 24⟩⟩, ⟨"a", "p", ⟨26, 29⟩⟩]⟩
  have hclause : IsClause ts clause :=
    .intro rfl rfl rfl (.more rfl rfl rfl rfl (.last rfl rfl rfl)) rfl
      (.more rfl rfl rfl rfl (.last rfl rfl rfl))
  have htext : ClauseText "a " "join b on a.x, b.q = b.y, a.p" " join c on c.z = a.x" clause := by
    refine ⟨⟨ts, by decide +kernel, hclause⟩, by decide, by decide, fun rest hrest => ?_⟩
    have hafter : tokens " join c on c.z = a.x" =
        .ok ((tokens " join c on c.z = a.x").toOption.getD []) := by decide +kernel
    cases hafter.symm.trans hrest
    rw [EndsRefs]
    decide +kernel
  have hexchange : Exchange query exchanged :=
    @Exchange.intro "a " "join b on a.x, " "b.q" " = b.y, " "a.p" "" " join c on c.z = a.x" clause 1
      _ _ htext rfl rfl rfl (by decide) (by decide)
  have hplan : verdict query = .ok plan := by decide +kernel
  exact ⟨hexchange, hplan, (sides_interchangeable.1 _ _ (.single hexchange)).symm.trans hplan⟩

end Stencil.Query
