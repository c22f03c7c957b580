/-
  How the texts of a query are cut into tokens.

  * `scan_words`: the names among the tokens are words, and no keywords;
  * `scan_blank`, `scan_mark` and `scan_word`: the tokens of a text with a blank, a
    mark or a word in front of it;
  * `Scans` says what the tokens of a text are like, wherever it stands in a query.
-/
import Mathlib.Tactic.SplitIfs
import Stencil.Outcome
import Stencil.Proofs.Text.Name
import Stencil.Query.Token

namespace Stencil.Query

open Text

/-- A name that is no keyword. -/
def IsWord (s : String) : Prop :=
  IsName s ∧ s ≠ "join" ∧ s ≠ "on"

instance : DecidablePred IsWord := fun s =>
  inferInstanceAs (Decidable (IsName s ∧ s ≠ "join" ∧ s ≠ "on"))

/-- The kinds of words. -/
def Kind.isWord : Kind → Bool
  | .identifier | .join | .on => true
  | .dot | .comma | .equals | .eof => false

theorem isWord_ofWord (w : List Char) : (Kind.ofWord w).isWord = true := by
  unfold Kind.ofWord
  split_ifs <;> rfl

theorem ofWord_eq_identifier {s : String} :
    Kind.ofWord s.toList = .identifier ↔ s ≠ "join" ∧ s ≠ "on" := by
  have hjoin : s.toList = ['j', 'o', 'i', 'n'] ↔ s = "join" := by
    rw [← String.toList_inj]
    rfl
  have hon : s.toList = ['o', 'n'] ↔ s = "on" := by
    rw [← String.toList_inj]
    rfl
  simp only [Kind.ofWord, hjoin, hon]
  split_ifs with h h
  · simp [h]
  · simp [h]
  · simp [*]

theorem ofChar?_ne_identifier {c : Char} {kind : Kind} (h : Kind.ofChar? c = some kind) :
    kind ≠ .identifier := by
  rintro rfl
  unfold Kind.ofChar? at h
  split_ifs at h <;> cases h

/-- The names among tokens are words. -/
def Words (ts : List Token) : Prop :=
  ∀ t ∈ ts, t.kind = .identifier → IsWord t.text

/-- **The names among the tokens of a query are words.** -/
theorem scan_words {offset : Nat} {s : List Char} {ts : List Token} (h : scan offset s = .ok ts) :
    Words ts := by
  fun_induction scan offset s generalizing ts with
  | case1 => cases h; exact nofun
  | case2 offset c r _ ih => exact ih h
  | case3 offset c r _ kind hkind ih =>
    obtain ⟨ts, hts, rfl⟩ := map_eq_ok.1 h
    refine List.forall_mem_cons.2 ⟨fun ht => ?_, ih hts⟩
    exact absurd ht (ofChar?_ne_identifier hkind)
  | case4 offset c r _ _ hstart word =>
    rename_i ih
    obtain ⟨ts, hts, rfl⟩ := map_eq_ok.1 h
    refine List.forall_mem_cons.2 ⟨fun ht => ?_, ih hts⟩
    have hname : IsName (String.ofList word) := by
      simp only [IsName, String.toList_ofList, word, isName, hstart, Bool.true_and]
      exact List.all_takeWhile
    refine ⟨hname, ofWord_eq_identifier.1 ?_⟩
    rwa [Token.ofText, String.toList_ofList]
  | case5 => cases h

/-! ## Texts in front of texts -/

theorem scan_nil (offset : Nat) : scan offset [] = .ok [] := by
  rw [scan]

theorem scan_blank {c : Char} (hc : isBlank c = true) (offset : Nat) (cs : List Char) :
    scan offset (c :: cs) = scan (offset + c.utf8Size) cs := by
  rw [scan, if_pos hc]

theorem scan_mark {c : Char} {kind : Kind} (hc : isBlank c = false)
    (hkind : Kind.ofChar? c = some kind) (offset : Nat) (cs : List Char) :
    scan offset (c :: cs) =
      (Token.ofText kind [c] offset :: ·) <$> scan (offset + c.utf8Size) cs := by
  rw [scan, if_neg (by simp [hc])]
  simp only [hkind]

/-- A text that no word goes on with. -/
def EndsWord (cs : List Char) : Prop :=
  ∀ c ∈ cs.head?, isNameChar c = false

theorem endsWord_cons {c : Char} (h : isNameChar c = false) (cs : List Char) :
    EndsWord (c :: cs) := by
  rintro _ ⟨⟩
  exact h

theorem EndsWord.takeWhile {cs : List Char} (h : EndsWord cs) :
    cs.takeWhile isNameChar = [] := by
  cases cs with
  | nil => rfl
  | cons c r => simp [h c rfl]

theorem EndsWord.dropWhile {cs : List Char} (h : EndsWord cs) :
    cs.dropWhile isNameChar = cs := by
  cases cs with
  | nil => rfl
  | cons c r => simp [h c rfl]

/-- A word goes on with every text that begins with one. -/
theorem not_endsWord_of_isName {w : List Char} (h : isName w = true) (cs : List Char) :
    ¬EndsWord (w ++ cs) := by
  obtain ⟨hne, hchar⟩ := forall_isNameChar h
  obtain ⟨c, w, rfl⟩ := List.exists_cons_of_ne_nil hne
  intro hends
  have hc := hends c rfl
  rw [hchar c List.mem_cons_self] at hc
  cases hc

theorem ofChar?_of_isNameChar {c : Char} (h : isNameChar c = true) : Kind.ofChar? c = none := by
  have hdot : c ≠ '.' := ne_of_isNameChar h rfl
  have hcomma : c ≠ ',' := ne_of_isNameChar h rfl
  have hequals : c ≠ '=' := ne_of_isNameChar h rfl
  simp [Kind.ofChar?, hdot, hcomma, hequals]

theorem scan_word {w : List Char} (hw : isName w = true) {cs : List Char} (hcs : EndsWord cs)
    (offset : Nat) :
    scan offset (w ++ cs) =
      (Token.ofText (.ofWord w) w offset :: ·) <$> scan (offset + byteSize w) cs := by
  cases w with
  | nil => cases hw
  | cons c r =>
    obtain ⟨hstart, hrest⟩ : isNameStart c = true ∧ ∀ d ∈ r, isNameChar d = true := by
      simpa [isName] using hw
    have hchar := isNameChar_of_isNameStart hstart
    have htake : (r ++ cs).takeWhile isNameChar = r := by
      rw [List.takeWhile_append_of_pos hrest, hcs.takeWhile, List.append_nil]
    have hdrop : (r ++ cs).dropWhile isNameChar = cs := by
      rw [List.dropWhile_append_of_pos hrest, hcs.dropWhile]
    rw [List.cons_append, scan, if_neg (by simp [not_isBlank_of_isNameChar hchar])]
    simp only [ofChar?_of_isNameChar hchar, hstart, if_true, htake, hdrop]

/-- The tokens of a text are like this, wherever it stands in a query. -/
def Scans (cs : List Char) (P : List Token → Prop) : Prop :=
  ∀ offset, ∃ ts, scan offset cs = .ok ts ∧ P ts

theorem Scans.imp {cs : List Char} {P Q : List Token → Prop} (h : Scans cs P)
    (hPQ : ∀ ts, P ts → Q ts) : Scans cs Q := fun offset =>
  let ⟨ts, hts, hP⟩ := h offset
  ⟨ts, hts, hPQ ts hP⟩

theorem scans_nil {P : List Token → Prop} (h : P []) : Scans [] P :=
  fun offset => ⟨[], scan_nil offset, h⟩

theorem scans_blank {c : Char} (hc : isBlank c = true) {cs : List Char} {P : List Token → Prop}
    (h : Scans cs P) : Scans (c :: cs) P := by
  intro offset
  obtain ⟨ts, hts, hP⟩ := h (offset + c.utf8Size)
  exact ⟨ts, by rw [scan_blank hc, hts], hP⟩

theorem scans_mark {c : Char} {kind : Kind} (hc : isBlank c = false)
    (hkind : Kind.ofChar? c = some kind) {cs : List Char} {P : List Token → Prop}
    (h : Scans cs P) :
    Scans (c :: cs) fun ts => ∃ t rest, ts = t :: rest ∧ t.kind = kind ∧ P rest := by
  intro offset
  obtain ⟨ts, hts, hP⟩ := h (offset + c.utf8Size)
  refine ⟨_, ?_, Token.ofText kind [c] offset, ts, rfl, rfl, hP⟩
  rw [scan_mark hc hkind, hts]
  rfl

theorem scans_word {w : String} (hw : IsName w) {cs : List Char} (hcs : EndsWord cs)
    {P : List Token → Prop} (h : Scans cs P) :
    Scans (w.toList ++ cs) fun ts =>
      ∃ t rest, ts = t :: rest ∧ t.kind = .ofWord w.toList ∧ t.text = w ∧ P rest := by
  intro offset
  obtain ⟨ts, hts, hP⟩ := h (offset + byteSize w.toList)
  refine ⟨_, ?_, Token.ofText (.ofWord w.toList) w.toList offset, ts, rfl, rfl,
    String.ofList_toList, hP⟩
  rw [scan_word hw hcs, hts]
  rfl

end Stencil.Query
