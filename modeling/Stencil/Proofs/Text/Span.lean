/-
  What a span covers.

  * `Span.Covers`: a text stands in a source from the start of a span to its stop, so that both
    lie between two characters;
  * `Span.Covers.fragment_eq`: the fragment of a span is what it covers;
  * `Span.Covers.join`: a span from the start of one to the stop of a later one;
  * `charsBefore_append`: how many characters start in front of a place between two texts.
-/
import Stencil.Text.Span

namespace Stencil.Text

/-- The bytes of a text are those of the string that it makes up. -/
theorem utf8ByteSize_ofList (cs : List Char) : (String.ofList cs).utf8ByteSize = byteSize cs := by
  induction cs with
  | nil => rfl
  | cons c cs ih =>
    rw [byteSize_cons, ← ih, ← List.singleton_append, String.ofList_append,
      String.utf8ByteSize_append, ← String.singleton_eq_ofList, String.utf8ByteSize_singleton]

theorem byteSize_pos {cs : List Char} (h : cs ≠ []) : 0 < byteSize cs := by
  cases cs with
  | nil => exact absurd rfl h
  | cons c cs =>
    have := c.utf8Size_pos
    rw [byteSize_cons]
    omega

theorem dropBytes?_append (front rest : List Char) :
    dropBytes? (byteSize front) (front ++ rest) = some rest := by
  induction front with
  | nil => rw [byteSize_nil, List.nil_append, dropBytes?]
  | cons c front ih =>
    obtain ⟨n, hn⟩ : ∃ n, c.utf8Size + byteSize front = n + 1 :=
      Nat.exists_eq_add_one_of_ne_zero (by have := c.utf8Size_pos; omega)
    rw [byteSize_cons, hn, List.cons_append, dropBytes?, if_pos (by omega), ← hn,
      Nat.add_sub_cancel_left, ih]

theorem takeBytes?_append (text rest : List Char) :
    takeBytes? (byteSize text) (text ++ rest) = some text := by
  induction text with
  | nil => rw [byteSize_nil, List.nil_append, takeBytes?]
  | cons c text ih =>
    obtain ⟨n, hn⟩ : ∃ n, c.utf8Size + byteSize text = n + 1 :=
      Nat.exists_eq_add_one_of_ne_zero (by have := c.utf8Size_pos; omega)
    rw [byteSize_cons, hn, List.cons_append, takeBytes?, if_pos (by omega), ← hn,
      Nat.add_sub_cancel_left, ih]
    rfl

theorem charsBefore_append (front rest : List Char) :
    charsBefore (byteSize front) (front ++ rest) = front.length := by
  induction front with
  | nil => rw [byteSize_nil, charsBefore, List.length_nil]
  | cons c front ih =>
    obtain ⟨n, hn⟩ : ∃ n, c.utf8Size + byteSize front = n + 1 :=
      Nat.exists_eq_add_one_of_ne_zero (by have := c.utf8Size_pos; omega)
    rw [byteSize_cons, hn, List.cons_append, charsBefore, ← hn, Nat.add_sub_cancel_left, ih,
      List.length_cons]

namespace Span

/-- A text stands in a source from the start of a span to its stop. -/
def Covers (p : Span) (source text : List Char) : Prop :=
  ∃ before after, source = before ++ text ++ after ∧
    p = ⟨byteSize before, byteSize before + byteSize text⟩

variable {p q : Span} {source text : List Char}

theorem Covers.lt (h : p.Covers source text) (hne : text ≠ []) : p.start < p.stop := by
  obtain ⟨before, after, -, rfl⟩ := h
  exact Nat.lt_add_of_pos_right (byteSize_pos hne)

theorem Covers.stop_le (h : p.Covers source text) : p.stop ≤ byteSize source := by
  obtain ⟨before, after, rfl, rfl⟩ := h
  rw [byteSize_append, byteSize_append]
  exact Nat.le_add_right _ _

theorem Covers.slice?_eq (h : p.Covers source text) : p.slice? source = some text := by
  obtain ⟨before, after, rfl, rfl⟩ := h
  rw [slice?, if_pos (Nat.le_add_right _ _), List.append_assoc, dropBytes?_append, Option.bind_some,
    Nat.add_sub_cancel_left, takeBytes?_append]

/-- **The fragment of a span is what it covers.** -/
theorem Covers.fragment_eq {s : String} (h : p.Covers s.toList text) :
    p.fragment s = String.ofList text := by
  rw [fragment, h.slice?_eq, Option.getD_some]

/-- Of two texts in front of the same source the shorter one stands in front of the longer one. -/
theorem exists_append_of_byteSize_le {a b as bs : List Char} (h : a ++ as = b ++ bs)
    (hle : byteSize a ≤ byteSize b) : ∃ gap, b = a ++ gap := by
  rcases List.append_eq_append_iff.1 h with ⟨gap, rfl, -⟩ | ⟨gap, rfl, -⟩
  · exact ⟨gap, rfl⟩
  · cases gap with
    | nil => exact ⟨[], by simp⟩
    | cons c gap =>
      have := c.utf8Size_pos
      rw [byteSize_append, byteSize_cons] at hle
      omega

/-- Two texts of one size in front of the same source are the same. -/
theorem append_inj_of_byteSize_eq {a b as bs : List Char} (h : a ++ as = b ++ bs)
    (heq : byteSize a = byteSize b) : a = b ∧ as = bs := by
  obtain ⟨gap, rfl⟩ := exists_append_of_byteSize_le h (Nat.le_of_eq heq)
  cases gap with
  | nil =>
    rw [List.append_nil] at h ⊢
    exact ⟨rfl, List.append_cancel_left h⟩
  | cons c gap =>
    have := c.utf8Size_pos
    rw [byteSize_append, byteSize_cons] at heq
    omega

/-- **From the start of a span to the stop of a later one** there are the texts of both, and what
    stands between them. -/
theorem Covers.join {later : List Char} (hp : p.Covers source text) (hq : q.Covers source later)
    (hle : p.stop ≤ q.start) : ∃ gap, Covers ⟨p.start, q.stop⟩ source (text ++ gap ++ later) := by
  obtain ⟨before, after, hsource, rfl⟩ := hp
  obtain ⟨front, behind, rfl, rfl⟩ := hq
  have hfront : before ++ text ++ after = front ++ (later ++ behind) := by
    rw [← hsource, List.append_assoc]
  obtain ⟨gap, rfl⟩ := exists_append_of_byteSize_le hfront (by simpa using hle)
  refine ⟨gap, before, behind, by simp, ?_⟩
  simp [Nat.add_assoc]

end Span

end Stencil.Text
