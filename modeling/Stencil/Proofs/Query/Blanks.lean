/-
  Blanks between the tokens of a query.

  * `Respaced`: blanks are put at a place inside no token, or taken away, but not all of those
    between two words;
  * `lexemes_of_respaced`: the lexemes of the query stay the same;
  * `blanks_insignificant`: so do its tokens but for their bytes, and these do not matter for what
    the query says.
-/
import Mathlib.Logic.Relation
import Stencil.Proofs.Query.Verdict

namespace Stencil.Query

open Text

/-- Blanks are put between tokens, or taken away. -/
inductive Respaced : String → String → Prop
  /-- Blanks at a place inside no token. -/
  | insert {front blanks back : String} {ts : List Token} : tokens (front ++ back) = .ok ts →
      (∀ c ∈ blanks.toList, isBlank c = true) →
      (∀ t ∈ ts, t.span.stop ≤ byteSize front.toList ∨ byteSize front.toList ≤ t.span.start) →
      Respaced (front ++ back) (front ++ blanks ++ back)
  /-- Any blanks but all of those from one word to the next one. -/
  | delete {front blanks back : String} {ts : List Token} :
      tokens (front ++ blanks ++ back) = .ok ts → blanks ≠ "" →
      (∀ c ∈ blanks.toList, isBlank c = true) →
      (∀ t ∈ ts, ∀ u ∈ ts, t.kind.isWord = true → u.kind.isWord = true →
        t.span.stop = byteSize front.toList →
        u.span.start = byteSize (front ++ blanks).toList → False) →
      Respaced (front ++ blanks ++ back) (front ++ back)

/-! ## Words at the ends of a text -/

/-- A text that ends with a character of a name ends with a word. -/
theorem exists_word_of_getLast? {s : List Char} {offset : Nat} {ts : List Token}
    (h : scan offset s = .ok ts) {c : Char} (hc : c ∈ s.getLast?) (hchar : isNameChar c = true) :
    ∃ t ∈ ts, t.kind.isWord = true ∧ t.span.stop = offset + byteSize s := by
  have hrest : ∀ {d : Char} {cs : List Char}, c ∈ (d :: cs).getLast? → isNameChar d = false →
      c ∈ cs.getLast? := by
    intro d cs hc hd
    cases cs with
    | nil =>
      obtain rfl : d = c := by simpa using hc
      rw [hd] at hchar
      cases hchar
    | cons e cs => exact hc
  induction s using scan_induction generalizing offset ts with
  | nil => cases hc
  | blank d cs hd ih =>
    rw [scan_blank hd] at h
    rw [byteSize_cons, ← Nat.add_assoc]
    exact ih h (hrest hc (not_isNameChar_of_isBlank hd))
  | mark d kind cs hd hkind ih =>
    rw [scan_mark hd hkind] at h
    obtain ⟨ts, hts, rfl⟩ := map_eq_ok.1 h
    obtain ⟨t, ht, hword, hstop⟩ := ih hts (hrest hc (not_isNameChar_of_ofChar? hkind))
    rw [byteSize_cons, ← Nat.add_assoc]
    exact ⟨t, List.mem_cons_of_mem _ ht, hword, hstop⟩
  | word w cs hw hcs ih =>
    rw [scan_word hw hcs] at h
    obtain ⟨ts, hts, rfl⟩ := map_eq_ok.1 h
    rw [byteSize_append, ← Nat.add_assoc]
    by_cases hnil : cs = []
    · exact ⟨_, List.mem_cons_self, isWord_ofWord w, by rw [hnil]; rfl⟩
    · rw [List.getLast?_append, Option.or_of_isSome (List.getLast?_isSome.2 hnil)] at hc
      obtain ⟨t, ht, hword, hstop⟩ := ih hts hc
      exact ⟨t, List.mem_cons_of_mem _ ht, hword, hstop⟩
  | bad d cs hd hkind hstart =>
    rw [scan_bad hd hkind hstart] at h
    cases h

/-- A text that begins with a character of a name begins with a word. -/
theorem exists_word_of_not_endsWord {s : List Char} {offset : Nat} {ts : List Token}
    (h : scan offset s = .ok ts) (hs : ¬EndsWord s) :
    ∃ t ∈ ts, t.kind.isWord = true ∧ t.span.start = offset := by
  induction s using scan_induction with
  | nil => exact absurd nofun hs
  | blank d cs hd => exact absurd (endsWord_cons (not_isNameChar_of_isBlank hd) cs) hs
  | mark d kind cs hd hkind =>
    exact absurd (endsWord_cons (not_isNameChar_of_ofChar? hkind) cs) hs
  | word w cs hw hcs =>
    rw [scan_word hw hcs] at h
    obtain ⟨ts, -, rfl⟩ := map_eq_ok.1 h
    exact ⟨_, List.mem_cons_self, isWord_ofWord w, rfl⟩
  | bad d cs hd hkind hstart =>
    rw [scan_bad hd hkind hstart] at h
    cases h

/-! ## Lexemes -/

theorem endsWord_of_blanks {blanks : List Char} (h : ∀ c ∈ blanks, isBlank c = true) :
    EndsWord blanks := fun c hc =>
  not_isNameChar_of_isBlank (h c (List.mem_of_mem_head? hc))

theorem apart_of_blanks {blanks : List Char} (h : ∀ c ∈ blanks, isBlank c = true)
    (s : List Char) : Apart blanks s := by
  intro c hc hchar
  rw [not_isNameChar_of_isBlank (h c (List.mem_of_getLast? hc))] at hchar
  cases hchar

/-- **Blanks between two texts that are apart have no lexemes.** -/
theorem lexemes_insert {front blanks back : List Char} (h : Apart front back)
    (hblanks : ∀ c ∈ blanks, isBlank c = true) :
    lexemes (front ++ blanks ++ back) = lexemes (front ++ back) := by
  by_cases hne : blanks = []
  · rw [hne, List.append_nil]
  · have hfront : Apart front blanks := .of_endsWord (endsWord_of_blanks hblanks)
    have hback : Apart (front ++ blanks) back := (apart_append hne).2 (apart_of_blanks hblanks back)
    rw [lexemes_append hback, lexemes_append hfront, lexemes_append h, lexemes_blanks hblanks]
    cases lexemes front with
    | error c => rfl
    | ok ls =>
      cases lexemes back with
      | error c => rfl
      | ok ms => exact congrArg (fun l => Except.ok (l ++ ms)) (List.append_nil ls)

/-- What is left of a text when blanks are taken away is apart where they stood, unless they were
    all that stood between two words. -/
theorem apart_of_delete {front blanks back : List Char} {ts : List Token}
    (h : scan 0 (front ++ blanks ++ back) = .ok ts) (hne : blanks ≠ [])
    (hblanks : ∀ c ∈ blanks, isBlank c = true)
    (hwords : ∀ t ∈ ts, ∀ u ∈ ts, t.kind.isWord = true → u.kind.isWord = true →
      t.span.stop = byteSize front → u.span.start = byteSize (front ++ blanks) → False) :
    Apart front back := by
  have hfront : Apart front blanks := .of_endsWord (endsWord_of_blanks hblanks)
  have hback : Apart (front ++ blanks) back := (apart_append hne).2 (apart_of_blanks hblanks back)
  obtain ⟨_, vs, hall, hvs, rfl⟩ := (scan_append_eq_ok hback).1 h
  obtain ⟨us, ws, hus, -, rfl⟩ := (scan_append_eq_ok hfront).1 hall
  rw [Nat.zero_add] at hvs
  intro c hc hchar
  by_contra hends
  obtain ⟨t, ht, htword, hstop⟩ := exists_word_of_getLast? hus hc hchar
  obtain ⟨u, hu, huword, hstart⟩ := exists_word_of_not_endsWord hvs hends
  rw [Nat.zero_add] at hstop
  exact hwords t (by simp [ht]) u (by simp [hu]) htword huword hstop hstart

theorem lexemes_of_respaced {q q' : String} (h : Respaced q q') :
    lexemes q.toList = lexemes q'.toList := by
  cases h with
  | insert hts hblanks hplace =>
    have hts := mapError_eq_ok.1 hts
    rw [String.toList_append] at hts
    simp only [String.toList_append]
    refine (lexemes_insert (apart_of_scan hts fun t ht => ?_) hblanks).symm
    rw [Nat.zero_add]
    exact hplace t ht
  | delete hts hne hblanks hwords =>
    have hts := mapError_eq_ok.1 hts
    simp only [String.toList_append] at hts hwords ⊢
    have hne := mt String.toList_eq_nil_iff.1 hne
    exact lexemes_insert (apart_of_delete hts hne hblanks hwords) hblanks

/-- **Blanks between tokens do not matter.**  If they are put in or taken away, any number of
    times, the tokens stay the same but for the bytes that they cover.  Queries whose tokens are
    the same but for these say the same plan, or are rejected for the same reason. -/
theorem blanks_insignificant :
    (∀ q q' ts, tokens q = .ok ts → Relation.ReflTransGen Respaced q q' →
      ∃ ts', tokens q' = .ok ts' ∧
        (ts' ++ [eof q']).map Token.lexeme = (ts ++ [eof q]).map Token.lexeme) ∧
    ∀ q q' ts ts', tokens q = .ok ts → tokens q' = .ok ts' →
      (ts' ++ [eof q']).map Token.lexeme = (ts ++ [eof q]).map Token.lexeme →
      verdict q' = verdict q := by
  have heof : ∀ (q q' : String) (ts ts' : List Token),
      (ts' ++ [eof q']).map Token.lexeme = (ts ++ [eof q]).map Token.lexeme ↔
        ts'.map Token.lexeme = ts.map Token.lexeme := by
    intro q q' ts ts'
    rw [List.map_append, List.map_append]
    exact List.append_left_inj [(⟨.eof, ""⟩ : Lexeme)]
  constructor
  · intro q q' ts hts hsteps
    have hlexemes : lexemes q.toList = lexemes q'.toList := by
      induction hsteps with
      | refl => rfl
      | tail _ hstep ih => exact ih.trans (lexemes_of_respaced hstep)
    have hq := (lexemes_eq_ok 0).2 ⟨ts, mapError_eq_ok.1 hts, rfl⟩
    obtain ⟨ts', hts', heq⟩ := (lexemes_eq_ok 0).1 (hlexemes ▸ hq)
    exact ⟨ts', mapError_eq_ok.2 hts', (heof _ _ _ _).2 heq⟩
  · intro q q' ts ts' hts hts' heq
    exact verdict_of_alike hts' hts (alike_of_lexemes ((heof _ _ _ _).1 heq))

/-- A tab in front of a dot, and no blank in front of the equals sign. -/
theorem blanks_insignificant_tab :
    let query := "a join b on a.x = b.y"
    let respaced := "a join b on a\t.x= b.y"
    let plan : Plan := ⟨"a", [⟨"b", [⟨0, "x", "y"⟩]⟩]⟩
    (∃ ts ts', tokens query = .ok ts ∧ tokens respaced = .ok ts' ∧
      (ts' ++ [eof respaced]).map Token.lexeme = (ts ++ [eof query]).map Token.lexeme) ∧
    verdict query = .ok plan ∧ verdict respaced = .ok plan := by
  intro query respaced plan
  let ts := (tokens query).toOption.getD []
  let us := (tokens "a join b on a\t.x = b.y").toOption.getD []
  have hts : tokens query = .ok ts := by decide +kernel
  have hus : tokens "a join b on a\t.x = b.y" = .ok us := by decide +kernel
  have hinsert : Respaced query "a join b on a\t.x = b.y" :=
    @Respaced.insert "a join b on a" "\t" ".x = b.y" ts hts (List.all_eq_true.1 rfl)
      (by decide +kernel)
  have hdelete : Respaced "a join b on a\t.x = b.y" respaced :=
    @Respaced.delete "a join b on a\t.x" " " "= b.y" us hus (by decide) (List.all_eq_true.1 rfl)
      (by decide +kernel)
  obtain ⟨hsame, hverdict⟩ := blanks_insignificant
  obtain ⟨ts', hts', heq⟩ := hsame _ _ _ hts (.head hinsert (.single hdelete))
  have hplan : verdict query = .ok plan := by decide +kernel
  exact ⟨⟨ts, ts', hts, hts', heq⟩, hplan, (hverdict _ _ _ _ hts hts' heq).trans hplan⟩

end Stencil.Query
