/-
  Tables whose rows stand in another order.

  * `Reordered`: two tables with the same columns and, up to order, the same rows;
  * `ReorderedLines`: two sections whose lines behind the header are the same up to order;
  * `exists_ofLines_of_reorderedLines`: in row layout, such sections hold such tables.
-/
import Mathlib.Data.List.Perm.Basic
import Stencil.Proofs.Table.Layout

namespace Stencil.Table

open Text

/-- Two tables of one name with the same columns and, up to order, the same rows. -/
structure Reordered (t u : Table) : Prop where
  name_eq : t.name = u.name
  columns_eq : t.columns = u.columns
  rows_perm : t.rows.Perm u.rows

/-- Two sections whose lines behind the header are the same up to order.  The header is the first
    line that says something, and it is not the flat marker. -/
inductive ReorderedLines (marker : String) : List String → List String → Prop
  | intro {front header body moved} : (∀ line ∈ front, clean line = "") → clean header ≠ "" →
      LineForm.isFlatMarker marker (clean header) = false → body.Perm moved →
      ReorderedLines marker (front ++ header :: body) (front ++ header :: moved)

theorem cleanLines_of_header {front body : List String} {header : String}
    (hfront : ∀ line ∈ front, clean line = "") (hheader : clean header ≠ "") :
    cleanLines (front ++ header :: body) = clean header :: cleanLines body := by
  have hnone : (front.map clean).filter (· ≠ "") = [] := by
    simpa [List.filter_eq_nil_iff] using hfront
  rw [cleanLines, List.map_append, List.filter_append, hnone, List.nil_append, List.map_cons,
    List.filter_cons_of_pos (by simpa using hheader), ← cleanLines]

theorem perm_cleanLines {body moved : List String} (h : body.Perm moved) :
    (cleanLines body).Perm (cleanLines moved) :=
  (h.map clean).filter _

/-- What is read from lines in row layout is read from the same lines in another order, with the
    rows in another order. -/
theorem exists_reads_of_reorderedLines {settings : Settings} {lines moved : List String}
    {columns : List String} {rows : List (List String)}
    (h : ReorderedLines settings.flatMarker lines moved)
    (hreads : Reads settings lines false columns rows) :
    ∃ others, Reads settings moved false columns others ∧ rows.Perm others := by
  obtain ⟨hfront, hheader, hmarker, hbody⟩ := h
  rename_i front header body moved
  have hsplit : ∀ rest, split settings.flatMarker (cleanLines (front ++ header :: rest)) =
      some ⟨false, clean header, cleanLines rest⟩ := by
    intro rest
    rw [cleanLines_of_header hfront hheader, split_inRows _ hmarker]
  obtain ⟨parts, hparts, hcolumns, hrows⟩ := hreads
  cases (hsplit body).symm.trans hparts
  obtain ⟨others, hothers, hperm⟩ :=
    List.perm_comp_forall₂ (perm_cleanLines hbody.symm) (cells_eq_ok.1 hrows)
  exact ⟨others, ⟨_, hsplit moved, hcolumns, cells_eq_ok.2 hothers⟩, hperm.symm⟩

/-- **Lines in another order hold the rows in another order.** -/
theorem exists_ofLines_of_reorderedLines {settings : Settings} {name : String}
    {lines moved : List String} {t : Table}
    (h : ReorderedLines settings.flatMarker lines moved)
    (ht : ofLines settings name lines false = .ok t) :
    ∃ u, ofLines settings name moved false = .ok u ∧ Reordered t u := by
  obtain ⟨parts, hparts, hcolumns, hrows, hname⟩ := ofLines_eq_ok ht
  obtain ⟨others, hothers, hperm⟩ :=
    exists_reads_of_reorderedLines h ⟨parts, hparts, hcolumns, hrows⟩
  obtain ⟨u, hu, huname, hucolumns, hurows⟩ := hothers.exists_ofLines t.nodup_columns name
  exact ⟨u, hu, hname.trans huname.symm, hucolumns.symm, hurows ▸ hperm⟩

end Stencil.Table
