/-
  The tokens of a query, and what stands between them.

  * `Reads`: a text is made up of blanks, marks and longest words, and has these tokens;
    `reads_iff` is that they are the tokens that are found;
  * `IsAlien`: a character at a place where it belongs to no token and is no blank;
  * `Lossless`: tokens from which a query can be put together again but for its blanks;
  * `tokens_lossless`: the tokens of a query are lossless, and a query has none exactly if it has
    an alien character, the first of which is reported.
-/
import Stencil.Proofs.Query.Cut
import Stencil.Proofs.Query.ErrorSpan

namespace Stencil.Query

open Text

/-! ## Texts and their tokens -/

/-- A text that starts at an offset is made up of blanks, marks and words that do not go on, and has
    these tokens. -/
inductive Reads : Nat → List Char → List Token → Prop
  | nil {n} : Reads n [] []
  | blank {n c cs ts} : isBlank c = true → Reads (n + c.utf8Size) cs ts → Reads n (c :: cs) ts
  | mark {n c kind cs ts} : isBlank c = false → Kind.ofChar? c = some kind →
      Reads (n + c.utf8Size) cs ts → Reads n (c :: cs) (.ofText kind [c] n :: ts)
  | word {n w cs ts} : isName w = true → EndsWord cs → Reads (n + byteSize w) cs ts →
      Reads n (w ++ cs) (.ofText (.ofWord w) w n :: ts)

/-- **The tokens of a text are those that are found.** -/
theorem reads_iff {n : Nat} {s : List Char} {ts : List Token} :
    Reads n s ts ↔ scan n s = .ok ts := by
  constructor
  · intro h
    induction h with
    | nil => exact scan_nil _
    | blank hc _ ih => rw [scan_blank hc, ih]
    | mark hc hkind _ ih =>
      rw [scan_mark hc hkind, ih]
      rfl
    | word hw hcs _ ih =>
      rw [scan_word hw hcs, ih]
      rfl
  · intro h
    induction s using scan_induction generalizing n ts with
    | nil =>
      rw [scan_nil] at h
      cases h
      exact .nil
    | blank c cs hc ih =>
      rw [scan_blank hc] at h
      exact .blank hc (ih h)
    | mark c kind cs hc hkind ih =>
      rw [scan_mark hc hkind] at h
      obtain ⟨ts, hts, rfl⟩ := map_eq_ok.1 h
      exact .mark hc hkind (ih hts)
    | word w cs hw hcs ih =>
      rw [scan_word hw hcs] at h
      obtain ⟨ts, hts, rfl⟩ := map_eq_ok.1 h
      exact .word hw hcs (ih hts)
    | bad c cs hc hkind hstart =>
      rw [scan_bad hc hkind hstart] at h
      cases h

theorem Reads.le_start {n : Nat} {s : List Char} {ts : List Token} (h : Reads n s ts) :
    ∀ t ∈ ts, n ≤ t.span.start ∧ t.span.start < t.span.stop := by
  have hcons : ∀ {n : Nat} {text : List Char} {ts : List Token} (kind : Kind), text ≠ [] →
      (∀ t ∈ ts, n + byteSize text ≤ t.span.start ∧ t.span.start < t.span.stop) →
      ∀ t ∈ Token.ofText kind text n :: ts, n ≤ t.span.start ∧ t.span.start < t.span.stop := by
    intro n text ts kind hne hts
    have hpos := byteSize_pos hne
    refine List.forall_mem_cons.2 ⟨⟨Nat.le_refl _, Nat.lt_add_of_pos_right hpos⟩, fun t ht => ?_⟩
    have := hts t ht
    omega
  induction h with
  | nil => exact nofun
  | blank _ _ ih =>
    intro t ht
    have := ih t ht
    omega
  | mark _ _ _ ih => exact hcons _ (List.cons_ne_nil _ _) ih
  | word hw _ _ ih => exact hcons _ (forall_isNameChar hw).1 ih

/-! ## Kinds of tokens -/

theorem ofWord_eq_join {s : String} : Kind.ofWord s.toList = .join ↔ s = "join" := by
  rw [← String.toList_inj]
  unfold Kind.ofWord
  split_ifs with hjoin hon
  · exact iff_of_true rfl hjoin
  · exact iff_of_false (by decide) hjoin
  · exact iff_of_false (by decide) hjoin

theorem ofWord_eq_on {s : String} : Kind.ofWord s.toList = .on ↔ s = "on" := by
  rw [← String.toList_inj]
  unfold Kind.ofWord
  split_ifs with hjoin hon
  · exact iff_of_false (by decide) (by rw [hjoin]; decide)
  · exact iff_of_true rfl hon
  · exact iff_of_false (by decide) hon

theorem isWord_of_ofChar? {c : Char} {kind : Kind} (h : Kind.ofChar? c = some kind) :
    kind.isWord = false ∧ kind ≠ .eof := by
  unfold Kind.ofChar? at h
  split_ifs at h <;> cases h <;> decide

/-- A token is a word of its kind, or a mark. -/
theorem Reads.kind {n : Nat} {s : List Char} {ts : List Token} (h : Reads n s ts) :
    ∀ t ∈ ts, (IsName t.text ∧ t.kind = .ofWord t.text.toList) ∨
      ∃ c, t.text = String.singleton c ∧ Kind.ofChar? c = some t.kind := by
  induction h with
  | nil => exact nofun
  | blank _ _ ih => exact ih
  | @mark n c kind cs ts _ hkind _ ih =>
    refine List.forall_mem_cons.2 ⟨Or.inr ⟨c, ?_, hkind⟩, ih⟩
    exact String.singleton_eq_ofList.symm
  | @word n w cs ts hw _ _ ih =>
    refine List.forall_mem_cons.2 ⟨Or.inl ?_, ih⟩
    rw [Token.ofText, IsName, String.toList_ofList]
    exact ⟨hw, rfl⟩

/-! ## Longest words -/

/-- A place behind a token of the second of two texts is a place of the second one. -/
theorem Reads.exists_gap {n : Nat} {u s front after : List Char} {ts : List Token} {t : Token}
    (h : Reads (n + byteSize u) s ts) (ht : t ∈ ts) (hs : u ++ s = front ++ after)
    (hstop : t.span.stop = n + byteSize front) :
    ∃ gap, s = gap ++ after ∧ t.span.stop = n + byteSize u + byteSize gap := by
  have hlt := h.le_start t ht
  obtain ⟨gap, rfl⟩ := Span.exists_append_of_byteSize_le hs (by omega)
  rw [List.append_assoc] at hs
  exact ⟨gap, List.append_cancel_left hs, by rw [hstop, byteSize_append, Nat.add_assoc]⟩

/-- **No word goes on behind its token.** -/
theorem Reads.longest {n : Nat} {s : List Char} {ts : List Token} (h : Reads n s ts) {t : Token}
    (ht : t ∈ ts) (hword : t.kind.isWord = true) {front after : List Char} (hs : s = front ++ after)
    (hstop : t.span.stop = n + byteSize front) : EndsWord after := by
  induction h generalizing front with
  | nil => cases ht
  | @blank n c _ _ _ hrest ih =>
    obtain ⟨gap, hgap, hstop⟩ := Reads.exists_gap (u := [c]) hrest ht hs hstop
    exact ih ht hgap hstop
  | @mark n c _ _ _ _ hkind hrest ih =>
    rcases List.mem_cons.1 ht with rfl | ht
    · exact absurd hword (by simp [Token.ofText, (isWord_of_ofChar? hkind).1])
    · obtain ⟨gap, hgap, hstop⟩ := Reads.exists_gap (u := [c]) hrest ht hs hstop
      exact ih ht hgap hstop
  | word _ hcs hrest ih =>
    rcases List.mem_cons.1 ht with rfl | ht
    · obtain ⟨-, rfl⟩ := Span.append_inj_of_byteSize_eq hs (Nat.add_left_cancel hstop)
      exact hcs
    · obtain ⟨gap, hgap, hstop⟩ := hrest.exists_gap ht hs hstop
      exact ih ht hgap hstop

/-! ## Characters inside tokens -/

/-- A character of two texts stands in the second one, or in the first one. -/
theorem exists_of_append_eq {w cs front after : List Char} {c : Char}
    (h : w ++ cs = front ++ c :: after) :
    (∃ gap, front = w ++ gap ∧ cs = gap ++ c :: after) ∨ ∃ rest, w = front ++ c :: rest := by
  rcases List.append_eq_append_iff.1 h with ⟨gap, hfront, hcs⟩ | ⟨gap, hw, hgap⟩
  · exact Or.inl ⟨gap, hfront, hcs⟩
  · cases gap with
    | nil => exact Or.inl ⟨[], by simp [hw], by simpa using hgap.symm⟩
    | cons d gap =>
      obtain ⟨rfl, -⟩ := List.cons.inj hgap
      exact Or.inr ⟨gap, hw⟩

/-- An offset at which a token has a byte. -/
def Inside (ts : List Token) (offset : Nat) : Prop :=
  ∃ t ∈ ts, t.span.start ≤ offset ∧ offset < t.span.stop

theorem Reads.not_inside {n : Nat} {s : List Char} {ts : List Token} (h : Reads n s ts)
    {offset : Nat} (hlt : offset < n) : ¬Inside ts offset := by
  rintro ⟨t, ht, hstart, -⟩
  have := h.le_start t ht
  omega

/-- Behind a token without blanks the characters outside the tokens are those of the rest. -/
theorem isBlank_iff_ofText {n : Nat} {u s front after : List Char} {c : Char} {ts : List Token}
    {kind : Kind} (hu : ∀ d ∈ u, isBlank d = false) (hs : u ++ s = front ++ c :: after)
    (hrest : ∀ {gap}, s = gap ++ c :: after →
      (isBlank c = true ↔ ¬Inside ts (n + byteSize u + byteSize gap))) :
    isBlank c = true ↔ ¬Inside (.ofText kind u n :: ts) (n + byteSize front) := by
  simp only [Inside, List.mem_cons, exists_eq_or_imp, Token.ofText]
  rcases exists_of_append_eq hs with ⟨gap, rfl, hgap⟩ | ⟨rest, rfl⟩
  · rw [byteSize_append, ← Nat.add_assoc]
    refine (hrest hgap).trans (not_congr (or_iff_right ?_).symm)
    omega
  · have hsize := c.utf8Size_pos
    refine iff_of_false (by simp [hu c]) (not_not.2 (Or.inl ⟨Nat.le_add_right _ _, ?_⟩))
    rw [byteSize_append, byteSize_cons]
    omega

/-- **The characters outside the tokens are the blanks.** -/
theorem Reads.isBlank_iff {n : Nat} {s : List Char} {ts : List Token} (h : Reads n s ts)
    {front after : List Char} {c : Char} (hs : s = front ++ c :: after) :
    isBlank c = true ↔ ¬Inside ts (n + byteSize front) := by
  induction h generalizing front with
  | nil => simp at hs
  | blank hd hrest ih =>
    cases front with
    | nil =>
      obtain ⟨rfl, rfl⟩ := List.cons.inj hs
      exact iff_of_true hd (hrest.not_inside (Nat.lt_add_of_pos_right (Char.utf8Size_pos _)))
    | cons d front =>
      obtain ⟨rfl, rfl⟩ := List.cons.inj hs
      have hrest := ih rfl
      rwa [Nat.add_assoc] at hrest
  | @mark n d _ _ _ hd _ _ ih => exact isBlank_iff_ofText (u := [d]) (by simpa using hd) hs ih
  | word hw _ _ ih =>
    have hchars := (forall_isNameChar hw).2
    exact isBlank_iff_ofText (fun d hd => not_isBlank_of_isNameChar (hchars d hd)) hs ih

/-! ## Alien characters -/

/-- A character behind a text that is no blank, no mark and not part of a word.  Since a word is
    one up to each of its characters (`noAlien_word`), the last is that no word ends with it. -/
structure IsAlien (before : List Char) (c : Char) : Prop where
  blank : isBlank c = false
  mark : c ≠ '.' ∧ c ≠ ',' ∧ c ≠ '='
  word : ∀ w, isName w = true → ¬w <:+ before ++ [c]

/-- No character of a text behind another one is alien. -/
def NoAlien (before s : List Char) : Prop :=
  ∀ front c after, s = front ++ c :: after → ¬IsAlien (before ++ front) c

theorem noAlien_nil (before : List Char) : NoAlien before [] :=
  fun _ _ _ hs => absurd hs.symm (by simp)

theorem noAlien_singleton {before : List Char} {c : Char} (h : ¬IsAlien before c) :
    NoAlien before [c] := by
  intro front d after hs
  cases front with
  | nil =>
    obtain ⟨rfl, -⟩ := List.cons.inj hs
    rwa [List.append_nil]
  | cons e front => exact absurd (List.cons.inj hs).2.symm (by simp)

theorem NoAlien.append {before u s : List Char} (hu : NoAlien before u)
    (hs : NoAlien (before ++ u) s) : NoAlien before (u ++ s) := by
  intro front c after heq
  rcases exists_of_append_eq heq with ⟨gap, rfl, rfl⟩ | ⟨rest, rfl⟩
  · rw [← List.append_assoc]
    exact hs gap c after rfl
  · exact hu front c rest rfl

theorem ofChar?_eq_none {c : Char} : Kind.ofChar? c = none ↔ c ≠ '.' ∧ c ≠ ',' ∧ c ≠ '=' := by
  unfold Kind.ofChar?
  split_ifs with hdot hcomma hequals
  · simp [hdot]
  · simp [hcomma]
  · simp [hequals]
  · simp [hdot, hcomma, hequals]

theorem noAlien_blank (before : List Char) {c : Char} (hc : isBlank c = true) :
    NoAlien before [c] :=
  noAlien_singleton fun h => by
    rw [h.blank] at hc
    cases hc

theorem noAlien_mark (before : List Char) {c : Char} {kind : Kind}
    (hkind : Kind.ofChar? c = some kind) : NoAlien before [c] :=
  noAlien_singleton fun h => by
    rw [ofChar?_eq_none.2 h.mark] at hkind
    cases hkind

/-- Up to each of its characters a word is a word. -/
theorem noAlien_word (before : List Char) {w : List Char} (hw : isName w = true) :
    NoAlien before w := by
  rintro front c after rfl halien
  refine halien.word (front ++ [c]) ?_ ⟨before, by rw [List.append_assoc]⟩
  cases front with
  | nil => simpa [isName] using (Bool.and_eq_true_iff.1 hw).1
  | cons d front =>
    simp only [List.cons_append, isName, List.all_append, List.all_cons, Bool.and_eq_true] at hw ⊢
    exact ⟨hw.1, hw.2.1, hw.2.2.1, List.all_nil⟩

/-- A character that starts nothing is alien where no word goes on. -/
theorem isAlien_of_bad {before cs : List Char} {c : Char} (hapart : Apart before (c :: cs))
    (hc : isBlank c = false) (hkind : Kind.ofChar? c = none) (hstart : isNameStart c = false) :
    IsAlien before c := by
  refine ⟨hc, ofChar?_eq_none.1 hkind, fun w hw hsuffix => ?_⟩
  obtain ⟨hne, hchars⟩ := forall_isNameChar hw
  obtain rfl | ⟨t, rfl, u, rfl⟩ := List.suffix_concat_iff.1 hsuffix
  · exact hne rfl
  · by_cases ht : t = []
    · subst ht
      simp [isName, hstart] at hw
    · -- the word in front of the character would go on with it
      have hlast := List.getLast?_eq_getLast_of_ne_nil ht
      have hmem := List.mem_append_left [c] (List.getLast_mem ht)
      have hends := hapart.of_append _ hlast (hchars _ hmem)
      have hchar := hchars c (by simp)
      rw [hends c rfl] at hchar
      cases hchar

/-- The alien character that is found in a text behind another one is the first one; if none is
    found, there is none. -/
def FindsAlien (before s : List Char) (n : Nat) : Option BadChar → Prop
  | none => NoAlien before s
  | some bad => ∃ front after, s = front ++ bad.char :: after ∧ bad.offset = n + byteSize front ∧
      IsAlien (before ++ front) bad.char ∧ NoAlien before front

theorem FindsAlien.append {before u s : List Char} {n : Nat} {bad : Option BadChar}
    (hu : NoAlien before u) (h : FindsAlien (before ++ u) s (n + byteSize u) bad) :
    FindsAlien before (u ++ s) n bad := by
  cases bad with
  | none => exact hu.append h
  | some bad =>
    obtain ⟨front, after, rfl, hoffset, halien, hfront⟩ := h
    refine ⟨u ++ front, after, by rw [List.append_assoc], ?_, ?_, hu.append hfront⟩
    · rw [hoffset, byteSize_append, Nat.add_assoc]
    · rwa [← List.append_assoc]

theorem apart_concat {before cs : List Char} {c : Char} (hc : isNameChar c = false) :
    Apart (before ++ [c]) cs := by
  intro d hd hchar
  obtain rfl : c = d := by simpa using hd
  rw [hc] at hchar
  cases hchar

/-- **The first alien character is found**, where no word goes on into the text. -/
theorem findsAlien_scan {before s : List Char} (h : Apart before s) (n : Nat) :
    FindsAlien before s n (error? (scan n s)) := by
  induction s using scan_induction generalizing before n with
  | nil =>
    rw [scan_nil]
    exact noAlien_nil before
  | blank c cs hc ih =>
    rw [scan_blank hc]
    exact .append (u := [c]) (noAlien_blank before hc)
      (ih (apart_concat (not_isNameChar_of_isBlank hc)) _)
  | mark c kind cs hc hkind ih =>
    rw [scan_mark hc hkind, error?_map]
    exact .append (u := [c]) (noAlien_mark before hkind)
      (ih (apart_concat (not_isNameChar_of_ofChar? hkind)) _)
  | word w cs hw hcs ih =>
    rw [scan_word hw hcs, error?_map]
    exact .append (noAlien_word before hw) (ih (.of_endsWord hcs) _)
  | bad c cs hc hkind hstart =>
    rw [scan_bad hc hkind hstart]
    refine ⟨[], cs, rfl, rfl, ?_, noAlien_nil before⟩
    rw [List.append_nil]
    exact isAlien_of_bad h hc hkind hstart

/-! ## Lossless tokens -/

/-- Tokens from which a query can be put together again but for its blanks. -/
structure Lossless (query : String) (ts : List Token) : Prop where
  /-- The last token, and no other, is the end of the query. -/
  eof : ∃ front, ts = front ++ [⟨.eof, "", ⟨byteSize query.toList, byteSize query.toList⟩⟩] ∧
    ∀ t ∈ front, t.kind ≠ .eof ∧ t.span.start < t.span.stop
  ordered : ts.Pairwise fun a b => a.span.stop ≤ b.span.start
  slice : ∀ t ∈ ts, t.span.slice? query.toList = some t.text.toList
  outside : ∀ before c after, query.toList = before ++ c :: after →
    (isBlank c = true ↔ ¬Inside ts (byteSize before))
  /-- No two words touch. -/
  apart : ts.Pairwise fun a b => a.kind.isWord = true → b.kind.isWord = true →
    a.span.stop < b.span.start
  /-- No word goes on behind its token. -/
  longest : ∀ t ∈ ts, t.kind.isWord = true → ∀ before after, query.toList = before ++ after →
    t.span.stop = byteSize before → EndsWord after
  word : ∀ t ∈ ts, t.kind.isWord = true ↔ IsName t.text
  mark : ∀ t ∈ ts, t.kind.isWord = true ∨ t.kind = .eof ∨
    ∃ c, t.text = String.singleton c ∧ Kind.ofChar? c = some t.kind
  join : ∀ t ∈ ts, t.kind.isWord = true → (t.kind = .join ↔ t.text = "join")
  on : ∀ t ∈ ts, t.kind.isWord = true → (t.kind = .on ↔ t.text = "on")

theorem pairwise_append_eof {ts : List Token} {e : Token} {R : Token → Token → Prop}
    (h : ts.Pairwise R) (he : ∀ t ∈ ts, R t e) : (ts ++ [e]).Pairwise R :=
  List.pairwise_append.2 ⟨h, List.pairwise_singleton _ _, fun t ht =>
    List.forall_mem_singleton.2 (he t ht)⟩

theorem forall_append_eof {ts : List Token} {e : Token} {P : Token → Prop} (h : ∀ t ∈ ts, P t)
    (he : P e) : ∀ t ∈ ts ++ [e], P t :=
  List.forall_mem_append.2 ⟨h, List.forall_mem_singleton.2 he⟩

theorem isWord_eq_true_iff {t : Token} (h : (IsName t.text ∧ t.kind = .ofWord t.text.toList) ∨
    ∃ c, t.text = String.singleton c ∧ Kind.ofChar? c = some t.kind) :
    t.kind.isWord = true ↔ IsName t.text := by
  obtain ⟨hname, hkind⟩ | ⟨c, htext, hkind⟩ := h
  · rw [hkind]
    exact iff_of_true (isWord_ofWord _) hname
  · refine iff_of_false (by simp [(isWord_of_ofChar? hkind).1]) fun hname => ?_
    rw [htext, IsName, String.toList_singleton] at hname
    have hchar := (forall_isNameChar hname).2 c (List.mem_singleton_self c)
    rw [ofChar?_of_isNameChar hchar] at hkind
    cases hkind

/-- A word that begins where another one ends goes on with it. -/
theorem lt_start_of_longest {source : List Char} {t u : Token} (hle : t.span.stop ≤ u.span.start)
    (hlongest : ∀ before after, source = before ++ after → t.span.stop = byteSize before →
      EndsWord after) (hcovers : u.span.Covers source u.text.toList) (hname : IsName u.text) :
    t.span.stop < u.span.start := by
  refine Nat.lt_of_le_of_ne hle fun heq => ?_
  obtain ⟨before, after, hsource, hspan⟩ := hcovers
  rw [List.append_assoc] at hsource
  refine not_endsWord_of_isName hname after (hlongest before _ hsource ?_)
  rw [heq, hspan]

/-- **The tokens of a query are lossless.** -/
theorem lossless_of_scan {query : String} {ts : List Token} (h : scan 0 query.toList = .ok ts) :
    Lossless query (ts ++ [eof query]) := by
  have hreads := reads_iff.2 h
  have hplaced : Placed query.toList 0 ts := @placed_of_scan [] _ _ _ h rfl
  have hkind := hreads.kind
  have hword : ∀ t ∈ ts, (t.kind.isWord = true ↔ IsName t.text) :=
    fun t ht => isWord_eq_true_iff (hkind t ht)
  have hlongest : ∀ t ∈ ts, t.kind.isWord = true → ∀ before after,
      query.toList = before ++ after → t.span.stop = byteSize before → EndsWord after :=
    fun t ht hw before after hs hstop => hreads.longest ht hw hs (by rw [hstop, Nat.zero_add])
  have hwords : ∀ t ∈ ts, t.kind.isWord = true → t.kind = .ofWord t.text.toList := by
    intro t ht hw
    obtain ⟨-, hkind⟩ | ⟨c, -, hkind⟩ := hkind t ht
    · exact hkind
    · rw [(isWord_of_ofChar? hkind).1] at hw
      cases hw
  have heof : Span.Covers (eof query).span query.toList [] :=
    ⟨query.toList, [], by simp, rfl⟩
  refine
    { eof := ⟨ts, rfl, fun t ht => ⟨?_, (hreads.le_start t ht).2⟩⟩
      ordered := pairwise_append_eof hplaced.pairwise fun t ht => (hplaced.covers t ht).2.stop_le
      slice := forall_append_eof (fun t ht => (hplaced.covers t ht).2.slice?_eq) heof.slice?_eq
      outside := fun before c after hs => ?_
      apart := pairwise_append_eof ?_ fun t ht _ hword => by cases hword
      longest := forall_append_eof hlongest fun hword => by cases hword
      word := forall_append_eof hword (iff_of_false Bool.false_ne_true (by decide : ¬IsName ""))
      mark := forall_append_eof (fun t ht => ?_) (Or.inr (Or.inl rfl))
      join := forall_append_eof (fun t ht hw => ?_) fun hword => by cases hword
      on := forall_append_eof (fun t ht hw => ?_) fun hword => by cases hword }
  · obtain ⟨hname, hword⟩ | ⟨c, -, hmark⟩ := hkind t ht
    · rw [hword]
      unfold Kind.ofWord
      split_ifs <;> decide
    · exact (isWord_of_ofChar? hmark).2
  · have hblank := hreads.isBlank_iff hs
    rw [Nat.zero_add] at hblank
    refine hblank.trans (not_congr ⟨?_, ?_⟩)
    · rintro ⟨t, ht, hinside⟩
      exact ⟨t, List.mem_append_left _ ht, hinside⟩
    · rintro ⟨t, ht, hstart, hstop⟩
      refine ⟨t, (List.mem_append.1 ht).resolve_right fun hmem => ?_, hstart, hstop⟩
      obtain rfl := List.mem_singleton.1 hmem
      have hempty : (eof query).span.stop = (eof query).span.start := rfl
      omega
  · refine hplaced.pairwise.imp_of_mem fun ht hu hle hwt hwu => ?_
    exact lt_start_of_longest hle (hlongest _ ht hwt) (hplaced.covers _ hu).2 ((hword _ hu).1 hwu)
  · obtain ⟨hname, -⟩ | hmark := hkind t ht
    · exact Or.inl ((hword t ht).2 hname)
    · exact Or.inr (Or.inr hmark)
  · rw [hwords t ht hw]
    exact ofWord_eq_join
  · rw [hwords t ht hw]
    exact ofWord_eq_on

/-- Two first alien characters of a text stand at the same place. -/
theorem eq_of_first_alien {before after front behind : List Char} {c d : Char}
    (h : before ++ c :: after = front ++ d :: behind) (hc : IsAlien before c)
    (hbefore : NoAlien [] before) (hd : IsAlien front d) (hfront : NoAlien [] front) :
    before = front ∧ c = d := by
  obtain ⟨gap, rfl, hgap⟩ | ⟨rest, rfl⟩ := exists_of_append_eq h
  · cases gap with
    | nil => exact ⟨(List.append_nil before).symm, (List.cons.inj hgap).1⟩
    | cons e gap =>
      obtain ⟨rfl, -⟩ := List.cons.inj hgap
      exact absurd hc (hfront before c gap rfl)
  · exact absurd hd (hbefore front d rest rfl)

theorem tokens_eq_error {query : String} {e : SyntaxError} :
    tokens query = .error e ↔ ∃ bad, scan 0 query.toList = .error bad ∧ bad.error query = e :=
  mapError_eq_error

/-- **The first alien character is reported.** -/
theorem tokens_eq_error_iff {query : String} {e : SyntaxError} :
    tokens query = .error e ↔ ∃ before c after, query.toList = before ++ c :: after ∧
      IsAlien before c ∧ NoAlien [] before ∧ e = (BadChar.mk c (byteSize before)).error query := by
  have hfinds := findsAlien_scan (apart_nil_left query.toList) 0
  rw [tokens_eq_error]
  constructor
  · rintro ⟨bad, hbad, rfl⟩
    rw [hbad] at hfinds
    obtain ⟨before, after, hs, hoffset, halien, hbefore⟩ := hfinds
    rw [Nat.zero_add] at hoffset
    exact ⟨before, bad.char, after, hs, halien, hbefore, hoffset ▸ rfl⟩
  · rintro ⟨before, c, after, hs, halien, hbefore, rfl⟩
    cases hscan : scan 0 query.toList with
    | ok ts =>
      rw [hscan] at hfinds
      exact absurd halien (hfinds before c after hs)
    | error bad =>
      rw [hscan] at hfinds
      obtain ⟨front, behind, hs', hoffset, halien', hfront⟩ := hfinds
      obtain ⟨rfl, rfl⟩ := eq_of_first_alien (hs.symm.trans hs') halien hbefore halien' hfront
      rw [Nat.zero_add] at hoffset
      exact ⟨bad, rfl, hoffset ▸ rfl⟩

/-- A query has no tokens exactly if it has an alien character. -/
theorem exists_error_iff {query : String} :
    (∃ e, tokens query = .error e) ↔
      ∃ before c after, query.toList = before ++ c :: after ∧ IsAlien before c := by
  constructor
  · rintro ⟨e, he⟩
    obtain ⟨before, c, after, hs, halien, -⟩ := tokens_eq_error_iff.1 he
    exact ⟨before, c, after, hs, halien⟩
  · rintro ⟨before, c, after, hs, halien⟩
    have hfinds := findsAlien_scan (apart_nil_left query.toList) 0
    cases hscan : scan 0 query.toList with
    | ok ts =>
      rw [hscan] at hfinds
      exact absurd halien (hfinds before c after hs)
    | error bad => exact ⟨_, tokens_eq_error.2 ⟨bad, hscan, rfl⟩⟩

/-- **The tokens of a query** are lossless, and words are as long as they can be.  A query has none
    exactly if it has an alien character; the first one is reported, with the bytes that it
    covers. -/
theorem tokens_lossless (query : String) :
    (∀ ts, tokens query = .ok ts → Lossless query (ts ++ [eof query])) ∧
    ((∃ e, tokens query = .error e) ↔
      ∃ before c after, query.toList = before ++ c :: after ∧ IsAlien before c) ∧
    ∀ e, tokens query = .error e ↔ ∃ before c after, query.toList = before ++ c :: after ∧
      IsAlien before c ∧ (∀ front d rest, before = front ++ d :: rest → ¬IsAlien front d) ∧
      e = ⟨query, ⟨byteSize before, byteSize before + c.utf8Size⟩,
        "unexpected character `" ++ String.singleton c ++ "`"⟩ :=
  ⟨fun _ hts => lossless_of_scan (mapError_eq_ok.1 hts), exists_error_iff,
    fun _ => tokens_eq_error_iff⟩

/-- A blank of three bytes, a word with a digit, and words that only marks and a blank keep apart;
    and a letter of two bytes, which is alien, in front of a digit that starts no word. -/
theorem tokens_lossless_wide :
    tokens "\u3000a1.on join" = .ok [.ofText .identifier ['a', '1'] 3, .ofText .dot ['.'] 5,
      .ofText .on ['o', 'n'] 6, .ofText .join ['j', 'o', 'i', 'n'] 9] ∧
    Lossless "\u3000a1.on join" [.ofText .identifier ['a', '1'] 3, .ofText .dot ['.'] 5,
      .ofText .on ['o', 'n'] 6, .ofText .join ['j', 'o', 'i', 'n'] 9, eof "\u3000a1.on join"] ∧
    IsAlien ['a', ' '] 'é' ∧
    tokens "a é 9" = .error ⟨"a é 9", ⟨2, 4⟩, "unexpected character `é`"⟩ := by
  have htokens : tokens "\u3000a1.on join" = .ok [.ofText .identifier ['a', '1'] 3,
      .ofText .dot ['.'] 5, .ofText .on ['o', 'n'] 6, .ofText .join ['j', 'o', 'i', 'n'] 9] := by
    decide +kernel
  have halien : IsAlien ['a', ' '] 'é' :=
    @isAlien_of_bad _ [] _ (by decide) (by decide) (by decide) (by decide)
  have hfirst : NoAlien [] ['a', ' '] :=
    .append (u := ['a']) (noAlien_word [] (by decide)) (noAlien_blank _ (by decide))
  exact ⟨htokens, (tokens_lossless _).1 _ htokens, halien,
    ((tokens_lossless "a é 9").2.2 _).2
      ⟨['a', ' '], 'é', [' ', '9'], rfl, halien, hfirst, by decide +kernel⟩⟩

end Stencil.Query
