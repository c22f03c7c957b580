/-
  Where a query can be cut in two.

  A word goes on as long as it can, so that a text cannot be cut inside a word.  Anywhere else its
  tokens are those of the two parts.

  * `scan_induction`: a text is put together from blanks, marks and words;
  * `Apart`: no word goes on from one text to the next one;
  * `scan_append`: the tokens of two such texts, one behind the other;
  * `Lexeme`: a token without the bytes that it covers, and `lexemes` those of a text;
  * `lexemes_scan`: they do not depend on where the text stands;
  * `apart_of_scan`: a text can be cut at a place that lies inside no token.
-/
import Stencil.Proofs.Outcome
import Stencil.Proofs.Query.Scan
import Stencil.Proofs.Text.Span

namespace Stencil.Query

open Text

/-! ## Texts by their units -/

theorem scan_bad {c : Char} (hc : isBlank c = false) (hkind : Kind.ofChar? c = none)
    (hstart : isNameStart c = false) (offset : Nat) (cs : List Char) :
    scan offset (c :: cs) = .error ⟨c, offset⟩ := by
  rw [scan, if_neg (by simp [hc])]
  simp only [hkind, hstart]
  rfl

theorem endsWord_dropWhile (cs : List Char) : EndsWord (cs.dropWhile isNameChar) := by
  intro c hc
  have h := List.head?_dropWhile_not isNameChar cs
  rw [hc] at h
  exact h

/-- **A text is put together from units**: a blank, a mark, a word that is as long as it can be, or
    a character that starts nothing. -/
@[elab_as_elim]
theorem scan_induction {motive : List Char → Prop} (nil : motive [])
    (blank : ∀ c cs, isBlank c = true → motive cs → motive (c :: cs))
    (mark : ∀ c kind cs, isBlank c = false → Kind.ofChar? c = some kind → motive cs →
      motive (c :: cs))
    (word : ∀ w cs, isName w = true → EndsWord cs → motive cs → motive (w ++ cs))
    (bad : ∀ c cs, isBlank c = false → Kind.ofChar? c = none → isNameStart c = false →
      motive (c :: cs)) (s : List Char) : motive s := by
  fun_induction scan 0 s with
  | case1 => exact nil
  | case2 _ c r hc ih => exact blank c r hc ih
  | case3 _ c r hc kind hkind ih => exact mark c kind r (Bool.not_eq_true _ ▸ hc) hkind ih
  | case4 _ c r _ _ hstart w ih =>
    have hname : isName w = true := by
      simp only [w, isName, hstart, Bool.true_and]
      exact List.all_takeWhile
    have hcut : w ++ r.dropWhile isNameChar = c :: r := by
      rw [List.cons_append, List.takeWhile_append_dropWhile]
    rw [← hcut]
    exact word w _ hname (endsWord_dropWhile r) ih
  | case5 _ c r hc hkind hstart =>
    exact bad c r (Bool.not_eq_true _ ▸ hc) hkind (Bool.not_eq_true _ ▸ hstart)

/-! ## Two texts -/

/-- No word goes on from one text to the next one. -/
def Apart (a b : List Char) : Prop :=
  ∀ c ∈ a.getLast?, isNameChar c = true → EndsWord b

instance (s : List Char) : Decidable (EndsWord s) :=
  Option.decidableForallMem s.head?

instance (a b : List Char) : Decidable (Apart a b) :=
  Option.decidableForallMem a.getLast?

theorem apart_nil_left (b : List Char) : Apart [] b :=
  nofun

theorem Apart.of_endsWord {a b : List Char} (h : EndsWord b) : Apart a b :=
  fun _ _ _ => h

theorem apart_append {u a b : List Char} (ha : a ≠ []) : Apart (u ++ a) b ↔ Apart a b := by
  rw [Apart, List.getLast?_append, Option.or_of_isSome (List.getLast?_isSome.2 ha)]
  exact Iff.rfl

theorem Apart.of_append {u a b : List Char} (h : Apart (u ++ a) b) : Apart a b := by
  by_cases ha : a = []
  · rw [ha]
    exact apart_nil_left b
  · exact (apart_append ha).1 h

theorem Apart.cons {c : Char} {a b : List Char} (hc : isNameChar c = false) (h : Apart a b) :
    Apart (c :: a) b := by
  by_cases ha : a = []
  · intro d hd hchar
    obtain rfl : c = d := by simpa [ha] using hd
    rw [hc] at hchar
    cases hchar
  · exact (apart_append (u := [c]) ha).2 h

/-- **The tokens of two texts that are apart** are those of the first one and then those of the
    second one. -/
theorem scan_append {a b : List Char} (h : Apart a b) (offset : Nat) :
    scan offset (a ++ b) = (do
      let ts ← scan offset a
      let us ← scan (offset + byteSize a) b
      return ts ++ us) := by
  induction a using scan_induction generalizing offset with
  | nil =>
    rw [scan_nil, List.nil_append, byteSize_nil, Nat.add_zero]
    cases scan offset b <;> rfl
  | blank c cs hc ih =>
    rw [List.cons_append, scan_blank hc, scan_blank hc, ih (h.of_append (u := [c])), byteSize_cons,
      Nat.add_assoc]
  | mark c kind cs hc hkind ih =>
    rw [List.cons_append, scan_mark hc hkind, scan_mark hc hkind, ih (h.of_append (u := [c])),
      byteSize_cons, Nat.add_assoc]
    cases scan (offset + c.utf8Size) cs with
    | error e => rfl
    | ok ts => cases scan (offset + (c.utf8Size + byteSize cs)) b <;> rfl
  | word w cs hw hcs ih =>
    have hends : EndsWord (cs ++ b) := by
      cases cs with
      | nil =>
        obtain ⟨hne, hchar⟩ := forall_isNameChar hw
        have hlast := List.getLast?_eq_getLast_of_ne_nil hne
        rw [List.append_nil] at h
        exact h _ hlast (hchar _ (List.getLast_mem hne))
      | cons c cs => exact endsWord_cons (hcs c rfl) _
    rw [List.append_assoc, scan_word hw hends, scan_word hw hcs, ih h.of_append, byteSize_append,
      Nat.add_assoc]
    cases scan (offset + byteSize w) cs with
    | error e => rfl
    | ok ts => cases scan (offset + (byteSize w + byteSize cs)) b <;> rfl
  | bad c cs hc hkind hstart =>
    rw [List.cons_append, scan_bad hc hkind hstart, scan_bad hc hkind hstart]
    rfl

theorem scan_append_eq_ok {a b : List Char} (h : Apart a b) {offset : Nat} {ts : List Token} :
    scan offset (a ++ b) = .ok ts ↔ ∃ us vs, scan offset a = .ok us ∧
      scan (offset + byteSize a) b = .ok vs ∧ ts = us ++ vs := by
  simp only [scan_append h, bind_eq_ok, pure, Except.pure, Except.ok.injEq]
  constructor
  · rintro ⟨us, hus, vs, hvs, rfl⟩
    exact ⟨us, vs, hus, hvs, rfl⟩
  · rintro ⟨us, vs, hus, hvs, rfl⟩
    exact ⟨us, hus, vs, hvs, rfl⟩

/-- Blanks have no tokens. -/
theorem scan_blanks {w : List Char} (hw : ∀ c ∈ w, isBlank c = true) (offset : Nat) :
    scan offset w = .ok [] := by
  induction w generalizing offset with
  | nil => exact scan_nil offset
  | cons c w ih =>
    obtain ⟨hc, hw⟩ := List.forall_mem_cons.1 hw
    rw [scan_blank hc, ih hw]

/-! ## Lexemes -/

/-- A token without the bytes that it covers. -/
structure Lexeme where
  kind : Kind
  text : String
  deriving DecidableEq, Repr

def Token.lexeme (t : Token) : Lexeme :=
  ⟨t.kind, t.text⟩

/-- The lexemes of a text, or the first character that starts none. -/
def lexemes (s : List Char) : Except Char (List Lexeme) :=
  List.map Token.lexeme <$> (scan 0 s).mapError (·.char)

/-- **The lexemes of a text do not depend on where it stands.** -/
theorem lexemes_scan (offset : Nat) (s : List Char) :
    List.map Token.lexeme <$> (scan offset s).mapError (·.char) = lexemes s := by
  have hcons : ∀ (t : Token) (x : Except BadChar (List Token)),
      List.map Token.lexeme <$> ((t :: ·) <$> x).mapError (·.char) =
        (t.lexeme :: ·) <$> List.map Token.lexeme <$> x.mapError (·.char) := by
    intro t x
    cases x <;> rfl
  rw [lexemes]
  generalize 0 = other
  induction s using scan_induction generalizing offset other with
  | nil => rw [scan_nil, scan_nil]
  | blank c cs hc ih => rw [scan_blank hc, scan_blank hc, ih]
  | mark c kind cs hc hkind ih =>
    rw [scan_mark hc hkind, scan_mark hc hkind, hcons, hcons, ih]
    rfl
  | word w cs hw hcs ih =>
    rw [scan_word hw hcs, scan_word hw hcs, hcons, hcons, ih]
    rfl
  | bad c cs hc hkind hstart =>
    rw [scan_bad hc hkind hstart, scan_bad hc hkind hstart]
    rfl

theorem lexemes_eq_ok {s : List Char} {ls : List Lexeme} (offset : Nat) :
    lexemes s = .ok ls ↔ ∃ ts, scan offset s = .ok ts ∧ ts.map Token.lexeme = ls := by
  rw [← lexemes_scan offset, map_eq_ok]
  simp only [mapError_eq_ok]

theorem lexemes_eq_error {s : List Char} {c : Char} :
    lexemes s = .error c ↔ ∃ bad, scan 0 s = .error bad ∧ bad.char = c := by
  rw [lexemes, ← error?_eq_some, error?_map, error?_eq_some, mapError_eq_error]

/-- **The lexemes of two texts that are apart.** -/
theorem lexemes_append {a b : List Char} (h : Apart a b) :
    lexemes (a ++ b) = (do
      let ls ← lexemes a
      let ms ← lexemes b
      return ls ++ ms) := by
  rw [← lexemes_scan (0 + byteSize a) b, lexemes, lexemes, scan_append h]
  cases scan 0 a with
  | error e => rfl
  | ok ts =>
    cases hb : scan (0 + byteSize a) b with
    | error e => rfl
    | ok us => exact congrArg Except.ok List.map_append

theorem lexemes_blanks {w : List Char} (hw : ∀ c ∈ w, isBlank c = true) : lexemes w = .ok [] := by
  rw [lexemes, scan_blanks hw]
  rfl

/-! ## Places inside no token -/

theorem not_isNameChar_of_ofChar? {c : Char} {kind : Kind} (h : Kind.ofChar? c = some kind) :
    isNameChar c = false := by
  rw [← Bool.not_eq_true]
  intro hchar
  rw [ofChar?_of_isNameChar hchar] at h
  cases h

/-- **A text can be cut at a place inside no token.** -/
theorem apart_of_scan {a b : List Char} {offset : Nat} {ts : List Token}
    (h : scan offset (a ++ b) = .ok ts)
    (hplace : ∀ t ∈ ts, t.span.stop ≤ offset + byteSize a ∨ offset + byteSize a ≤ t.span.start) :
    Apart a b := by
  generalize hs : a ++ b = s at h
  induction s using scan_induction generalizing a offset ts with
  | nil =>
    obtain ⟨rfl, rfl⟩ := List.append_eq_nil_iff.1 hs
    exact apart_nil_left _
  | blank c cs hc ih =>
    cases a with
    | nil => exact apart_nil_left _
    | cons d a =>
      obtain ⟨rfl, rfl⟩ := List.cons.inj hs
      rw [scan_blank hc] at h
      simp only [byteSize_cons, ← Nat.add_assoc] at hplace
      exact (ih hplace rfl h).cons (not_isNameChar_of_isBlank hc)
  | mark c kind cs hc hkind ih =>
    cases a with
    | nil => exact apart_nil_left _
    | cons d a =>
      obtain ⟨rfl, rfl⟩ := List.cons.inj hs
      rw [scan_mark hc hkind] at h
      obtain ⟨ts, hts, rfl⟩ := map_eq_ok.1 h
      simp only [byteSize_cons, ← Nat.add_assoc] at hplace
      exact (ih (List.forall_mem_cons.1 hplace).2 rfl hts).cons (not_isNameChar_of_ofChar? hkind)
  | word w cs hw hcs ih =>
    by_cases ha : a = []
    · rw [ha]
      exact apart_nil_left _
    rw [scan_word hw hcs] at h
    obtain ⟨ts, hts, rfl⟩ := map_eq_ok.1 h
    obtain ⟨hfirst, hrest⟩ := List.forall_mem_cons.1 hplace
    have hle : byteSize w ≤ byteSize a := by
      have hpos := byteSize_pos ha
      simp only [Token.ofText] at hfirst
      omega
    obtain ⟨gap, rfl⟩ := Span.exists_append_of_byteSize_le hs.symm hle
    rw [List.append_assoc, List.append_cancel_left_eq] at hs
    by_cases hgap : gap = []
    · subst hgap hs
      exact .of_endsWord hcs
    · simp only [byteSize_append, ← Nat.add_assoc] at hrest
      exact (apart_append hgap).2 (ih hrest hs hts)
  | bad c cs hc hkind hstart =>
    rw [scan_bad hc hkind hstart] at h
    cases h

end Stencil.Query
