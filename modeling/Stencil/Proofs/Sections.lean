/-
  The lines of a section, and sections in another order.

  * `linesOf`: the lines of a section, said of the headers in front of each line;
    `lines?_scan_eq`: these are what scanning finds;
  * `Reordered`: pieces of a text in another order, where pieces with a header of one name
    keep their order;
  * `scan_of_reordered`: this leaves the sections as they are, and with them all that is
    read from an input.
-/
import Mathlib.Data.List.Induction
import Stencil.Input.Checked
import Stencil.Proofs.Text.Line

namespace Stencil.Sections

open Text

/-! ## The lines of a section -/

/-- The name of the last header among lines. -/
def lastHeader? (lines : List String) : Option String :=
  (lines.filterMap headerName?).getLast?

/-- The lines of a section, in order: a line belongs to it if it is no header and the last
    header in front of it has the name of the section. -/
def linesOf (lines : List String) (name : String) : List String :=
  (lines.zipIdx.filter fun e =>
    headerName? e.1 = none ∧ lastHeader? (lines.take e.2) = some name).map Prod.fst

theorem lastHeader?_cons (line : String) (lines : List String) :
    lastHeader? (line :: lines) = (lastHeader? lines).or (headerName? line) := by
  unfold lastHeader?
  cases hline : headerName? line with
  | none => simp [hline]
  | some name =>
    simp only [List.filterMap_cons, hline, List.getLast?_cons]
    cases (lines.filterMap headerName?).getLast? <;> rfl

theorem owned_nil (current : Option String) : owned current [] = [] :=
  rfl

theorem owned_cons (current : Option String) (line : String) (lines : List String) :
    owned current (line :: lines) =
      (if headerName? line = none then (current.map fun name => (name, line)).toList else []) ++
        owned ((headerName? line).or current) lines := by
  rw [owned.eq_def]
  dsimp only
  -- so that no step below reads the line as a header
  generalize headerName? line = header
  cases header <;> cases current <;> rfl

/-- Behind lines, the last header among them counts. -/
theorem owned_append (current : Option String) (front back : List String) :
    owned current (front ++ back) =
      owned current front ++ owned ((lastHeader? front).or current) back := by
  induction front generalizing current with
  | nil => rfl
  | cons line front ih =>
    rw [List.cons_append, owned_cons, owned_cons, ih, lastHeader?_cons, List.append_assoc,
      Option.or_assoc]

theorem linesOf_append_singleton (lines : List String) (line name : String) :
    linesOf (lines ++ [line]) name =
      linesOf lines name ++
        if headerName? line = none ∧ lastHeader? lines = some name then [line] else [] := by
  have hfront : (lines.zipIdx.filter fun e => headerName? e.1 = none ∧
        lastHeader? ((lines ++ [line]).take e.2) = some name) =
      lines.zipIdx.filter fun e => headerName? e.1 = none ∧
        lastHeader? (lines.take e.2) = some name := by
    refine List.filter_congr fun e he => ?_
    have hlt := (List.getElem?_eq_some_iff.1 (List.mem_zipIdx_iff_getElem?.1 he)).1
    rw [List.take_append_of_le_length (Nat.le_of_lt hlt)]
  have hlast : (lines ++ [line]).take (0 + lines.length) = lines := by
    rw [Nat.zero_add, List.take_left]
  rw [linesOf, List.zipIdx_append, List.filter_append, List.map_append, hfront, ← linesOf,
    List.zipIdx_singleton, List.filter_cons, List.filter_nil, hlast]
  by_cases h : headerName? line = none ∧ lastHeader? lines = some name
  · rw [if_pos (decide_eq_true h), if_pos h, List.map_singleton]
  · rw [if_neg (by simpa using h), if_neg h, List.map_nil]

/-- What a section owns are its lines. -/
theorem filter_owned (lines : List String) (name : String) :
    ((owned none lines).filter fun e => e.1 = name).map Prod.snd = linesOf lines name := by
  induction lines using List.reverseRecOn with
  | nil => rfl
  | append_singleton lines line ih =>
    rw [owned_append, List.filter_append, List.map_append, ih, linesOf_append_singleton,
      owned_cons, owned_nil, List.append_nil, Option.or_none]
    refine congrArg (linesOf lines name ++ ·) ?_
    by_cases hline : headerName? line = none
    · cases hlast : lastHeader? lines with
      | none => simp [hline]
      | some last => by_cases hname : last = name <;> simp [hline, hname]
    · simp [hline]

/-- **Scanning finds the lines of each section.**  A section without lines is not there. -/
theorem lines?_scan_eq (text name : String) :
    (scan text).lines? name =
      if linesOf (lines text) name = [] then none else some (linesOf (lines text) name) := by
  rw [lines?_scan, filter_owned]
  by_cases h : linesOf (lines text) name = [] <;> simp [h]

/-! ## Pieces in another order -/

/-- The names of the headers in a text. -/
def headers (text : String) : List String :=
  (lines text).filterMap headerName?

/-- A piece of a text that starts with a header and ends with a line. -/
structure IsPiece (piece : String) : Prop where
  header : ∃ line rest name, lines piece = line :: rest ∧ headerName? line = some name
  lineFeed : piece.toList.getLast? = some '\n'

/-- The same pieces in another order.  Those with a header of one name keep their order. -/
structure Reordered (pieces others : List String) : Prop where
  perm : pieces.Perm others
  order : ∀ name, (pieces.filter fun piece => name ∈ headers piece) =
    others.filter fun piece => name ∈ headers piece

theorem lines_join {pieces : List String} (h : ∀ piece ∈ pieces, IsPiece piece) :
    lines (String.join pieces) = pieces.flatMap lines := by
  induction pieces with
  | nil => rfl
  | cons piece pieces ih =>
    obtain ⟨hpiece, hpieces⟩ := List.forall_mem_cons.1 h
    rw [String.join_cons, lines_append hpiece.lineFeed, ih hpieces, List.flatMap_cons]

/-- What stands in front of a piece does not matter for its lines. -/
theorem owned_piece {piece : String} (h : IsPiece piece) (current : Option String) :
    owned current (lines piece) = owned none (lines piece) := by
  obtain ⟨line, rest, name, hlines, hname⟩ := h.header
  rw [hlines, owned_cons, owned_cons, hname]
  rfl

theorem owned_pieces {pieces : List String} (h : ∀ piece ∈ pieces, IsPiece piece)
    (current : Option String) :
    owned current (pieces.flatMap lines) =
      pieces.flatMap fun piece => owned none (lines piece) := by
  induction pieces generalizing current with
  | nil => rfl
  | cons piece pieces ih =>
    obtain ⟨hpiece, hpieces⟩ := List.forall_mem_cons.1 h
    rw [List.flatMap_cons, owned_append, owned_piece hpiece, ih hpieces, List.flatMap_cons]

theorem mem_headers_of_mem_owned {lines : List String} {current : Option String}
    {name line : String} (h : (name, line) ∈ owned current lines) :
    current = some name ∨ name ∈ lines.filterMap headerName? := by
  induction lines generalizing current with
  | nil => cases h
  | cons l lines ih =>
    rw [owned_cons, List.mem_append] at h
    rcases h with h | h
    · split at h
      · simp only [Option.mem_toList, Option.map_eq_some_iff, Prod.mk.injEq] at h
        obtain ⟨_, hcurrent, rfl, -⟩ := h
        exact Or.inl hcurrent
      · cases h
    · rcases ih h with hcurrent | hmem
      · cases hl : headerName? l with
        | none =>
          rw [hl, Option.none_or] at hcurrent
          exact Or.inl hcurrent
        | some header =>
          rw [hl, Option.some_or] at hcurrent
          cases hcurrent
          exact Or.inr (List.mem_filterMap.2 ⟨l, List.mem_cons_self .., hl⟩)
      · obtain ⟨header, hheader, hname⟩ := List.mem_filterMap.1 hmem
        exact Or.inr (List.mem_filterMap.2 ⟨header, List.mem_cons_of_mem _ hheader, hname⟩)

/-- The lines that a section owns in pieces are those of the pieces with its header. -/
theorem filter_owned_join {pieces : List String} (h : ∀ piece ∈ pieces, IsPiece piece)
    (name : String) :
    ((owned none (lines (String.join pieces))).filter fun e => e.1 = name) =
      (pieces.filter fun piece => name ∈ headers piece).flatMap fun piece =>
        (owned none (lines piece)).filter fun e => e.1 = name := by
  have hnone : ∀ piece, name ∉ headers piece →
      ((owned none (lines piece)).filter fun e => e.1 = name) = [] := by
    intro piece hpiece
    refine List.filter_eq_nil_iff.2 fun e he hname => hpiece ?_
    obtain rfl := of_decide_eq_true hname
    exact (mem_headers_of_mem_owned he).resolve_left (by simp)
  rw [lines_join h, owned_pieces h, List.filter_flatMap]
  induction pieces with
  | nil => rfl
  | cons piece pieces ih =>
    rw [List.flatMap_cons, ih (List.forall_mem_cons.1 h).2, List.filter_cons]
    by_cases hpiece : name ∈ headers piece
    · rw [if_pos (decide_eq_true hpiece), List.flatMap_cons]
    · rw [if_neg (by simpa using hpiece), hnone piece hpiece, List.nil_append]

/-- **The order of sections does not matter.** -/
theorem scan_of_reordered {pieces others : List String} (h : ∀ piece ∈ pieces, IsPiece piece)
    (hreordered : Reordered pieces others) :
    scan (String.join pieces) = scan (String.join others) := by
  have hothers : ∀ piece ∈ others, IsPiece piece :=
    fun piece hpiece => h piece (hreordered.perm.mem_iff.2 hpiece)
  refine congrArg Sections.mk (groups_congr fun name => ?_)
  rw [filter_owned_join h, filter_owned_join hothers, hreordered.order]

/-- **The sections of a text.**  A section holds the lines behind its headers, as they are and
    in order.  Pieces of the text that start with a header can change places, as long as
    those with a header of one name keep their order: sections, plan, checks and output stay
    the same. -/
theorem lines?_scan_and_order :
    (∀ (text : String) (ls : List String),
      lines text = ls ↔ IsLines text.toList (ls.map String.toList)) ∧
    (∀ text name, (scan text).lines? name =
      if linesOf (lines text) name = [] then none else some (linesOf (lines text) name)) ∧
    ∀ pieces others, (∀ piece ∈ pieces, IsPiece piece) → Reordered pieces others →
      scan (String.join pieces) = scan (String.join others) ∧
      ∀ settings,
        Input.Checked.ofText settings (String.join pieces) =
          Input.Checked.ofText settings (String.join others) ∧
        Input.planOfText settings (String.join pieces) =
          Input.planOfText settings (String.join others) ∧
        Input.generateText settings (String.join pieces) =
          Input.generateText settings (String.join others) := by
  refine ⟨fun _ _ => lines_eq_iff, lines?_scan_eq, fun pieces others h hreordered => ?_⟩
  have hscan := scan_of_reordered h hreordered
  have hchecked : ∀ settings, Input.Checked.ofText settings (String.join pieces) =
      Input.Checked.ofText settings (String.join others) := by
    intro settings
    rw [Input.Checked.ofText, hscan, Input.Checked.ofText]
  refine ⟨hscan, fun settings => ⟨hchecked settings, ?_, ?_⟩⟩
  · rw [Input.planOfText, hscan, Input.planOfText]
  · rw [Input.generateText, hchecked, Input.generateText]

/-- A section in two pieces, around another. -/
theorem lines?_scan_around :
    let pieces := ["[a]\nx\n", "[b] # note\ny\n", "[a]\nz\n"]
    let others := ["[b] # note\ny\n", "[a]\nx\n", "[a]\nz\n"]
    scan (String.join pieces) = scan (String.join others) ∧
      (scan (String.join pieces)).lines? "a" = some ["x\n", "z\n"] := by
  intro pieces others
  obtain ⟨-, hlines, horder⟩ := lines?_scan_and_order
  have hpieces : ∀ piece ∈ pieces, IsPiece piece := by
    simp only [pieces, List.forall_mem_cons, List.not_mem_nil, false_implies, implies_true,
      and_true]
    exact ⟨⟨⟨"[a]\n", ["x\n"], "a", by decide +kernel⟩, rfl⟩,
      ⟨⟨"[b] # note\n", ["y\n"], "b", by decide +kernel⟩, rfl⟩,
      ⟨⟨"[a]\n", ["z\n"], "a", by decide +kernel⟩, rfl⟩⟩
  -- the pieces are kept apart from their texts, which no step here has to look into
  have hfilter : ∀ x y z : String, headers x = ["a"] → headers y = ["b"] → headers z = ["a"] →
      ∀ name, ([x, y, z].filter fun piece => name ∈ headers piece) =
        [y, x, z].filter fun piece => name ∈ headers piece := by
    intro x y z hx hy hz name
    by_cases ha : name = "a" <;> simp [List.filter_cons, hx, hy, hz, ha]
  have hreordered : Reordered pieces others :=
    ⟨.swap .., hfilter _ _ _ (by decide +kernel) (by decide +kernel) (by decide +kernel)⟩
  refine ⟨(horder pieces others hpieces hreordered).1, ?_⟩
  rw [hlines]
  have hfound : linesOf (lines (String.join pieces)) "a" = ["x\n", "z\n"] := by decide +kernel
  rw [hfound]
  rfl

end Stencil.Sections
