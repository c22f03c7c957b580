/-
  Paths with a suffix.

  `walk_append_ne`: a suffix that is not empty and has no slash leads away from a file.
-/
import Mathlib.Tactic.SplitIfs
import Stencil.Proofs.File.Tree

namespace Stencil.FileSystem

theorem pathNames_of_notMem {s : List Char} (h : '/' ∉ s) : pathNames s = [s] := by
  induction s with
  | nil => rfl
  | cons c s ih =>
    simp only [List.mem_cons, not_or] at h
    rw [pathNames_cons, ih h.2]
    exact if_neg (Ne.symm h.1)

/-- A suffix without a slash belongs to the last name of a path. -/
theorem pathNames_append (s : List Char) {suffix : List Char} (h : '/' ∉ suffix) :
    ∃ front last, pathNames s = front ++ [last] ∧
      pathNames (s ++ suffix) = front ++ [last ++ suffix] := by
  induction s with
  | nil => exact ⟨[], [], rfl, pathNames_of_notMem h⟩
  | cons c s ih =>
    obtain ⟨front, last, hs, happend⟩ := ih
    by_cases hc : c = '/'
    · refine ⟨[] :: front, last, ?_, ?_⟩
      · rw [pathNames_cons, hs]
        cases front <;> simp [hc]
      · rw [List.cons_append, pathNames_cons, happend]
        cases front <;> simp [hc]
    · cases front with
      | nil =>
        refine ⟨[], c :: last, ?_, ?_⟩
        · rw [pathNames_cons, hs]
          simp [hc]
        · rw [List.cons_append, pathNames_cons, happend]
          simp [hc]
      | cons name front =>
        refine ⟨(c :: name) :: front, last, ?_, ?_⟩
        · rw [pathNames_cons, hs]
          simp [hc]
        · rw [List.cons_append, pathNames_cons, happend]
          simp [hc]

/-- A name with a suffix is no dot, unless the name is one or empty. -/
theorem append_ne_dots {name suffix : String} (hsuffix : suffix ≠ "") (hempty : name ≠ "")
    (hdot : name ≠ ".") :
    name ++ suffix ≠ "" ∧ name ++ suffix ≠ "." ∧ name ++ suffix ≠ ".." := by
  have hs : suffix.toList ≠ [] := by simpa using hsuffix
  have hn : name.toList ≠ [] := by simpa using hempty
  have hd : name.toList ≠ ['.'] := fun h => hdot (String.toList_inj.1 h)
  obtain ⟨d, r, hs⟩ := List.exists_cons_of_ne_nil hs
  obtain ⟨c, rest, hn⟩ := List.exists_cons_of_ne_nil hn
  rw [hn] at hd
  refine ⟨fun h => ?_, fun h => ?_, fun h => ?_⟩
  · have := congrArg String.toList h
    simp [hn] at this
  · have := congrArg String.toList h
    simp [hn, hs] at this
  · have := congrArg String.toList h
    simp only [String.toList_append, hn, hs] at this
    cases rest with
    | nil =>
      have hc : c = '.' := (List.cons.inj this).1
      exact hd (by rw [hc])
    | cons e rest =>
      have hlen := congrArg List.length this
      simp at hlen

/-- A name with a suffix leads elsewhere than the name, if this leads away at all. -/
theorem child_append_ne {place : Place} {name suffix : String} (hsuffix : suffix ≠ "")
    (hname : child place name ≠ place) : child place (name ++ suffix) ≠ child place name := by
  have hempty : name ≠ "" := by
    rintro rfl
    exact hname (by simp [child])
  have hdot : name ≠ "." := by
    rintro rfl
    exact hname (by simp [child])
  obtain ⟨hempty', hdot', hdots'⟩ := append_ne_dots hsuffix hempty hdot
  have hself : name ++ suffix ≠ name := by
    intro h
    exact hsuffix (by simpa using h)
  have happend : child place (name ++ suffix) = place ++ [name ++ suffix] := by
    simp [child, hempty', hdot', hdots']
  rw [happend]
  intro h
  -- going up or staying makes no place longer, so only the last names can be the same
  have hlen := congrArg List.length h
  unfold child at h hlen
  split_ifs at h hlen with _ hdots hroot houter
  · simp at hlen
  · simp at hlen
  · exact hdots' (by simpa using h)
  · simp at hlen
    omega
  · exact hself (by simpa using h)

/-- **A suffix that is not empty and has no slash leads away from a file.** -/
theorem walk_append_ne {fs : FileSystem} {path suffix : String} (hsuffix : suffix ≠ "")
    (hslash : '/' ∉ suffix.toList) {place : Place} {bytes : ByteArray}
    (hwalk : fs.walk path = .ok place) (hlookup : fs.lookup place = .ok (some (.file bytes))) :
    fs.walk (path ++ suffix) ≠ .ok place := by
  intro happend
  obtain ⟨front, last, hnames, hnames'⟩ := pathNames_append path.toList hslash
  obtain ⟨_, hcheck, hpath⟩ := bind_eq_ok.1 hwalk
  obtain ⟨_, -, hpath'⟩ := bind_eq_ok.1 happend
  have hne : path ≠ "" := by
    rintro rfl
    cases hcheck
  have hhead : (path ++ suffix).toList.head? = path.toList.head? := by
    have hlist : path.toList ≠ [] := by simpa using hne
    obtain ⟨c, rest, hlist⟩ := List.exists_cons_of_ne_nil hlist
    simp [hlist]
  rw [hnames] at hpath
  rw [hhead, String.toList_append, hnames'] at hpath'
  simp only [List.map_append, List.map_cons, List.map_nil, walkNames_append, bind_eq_ok,
    walkNames, Except.ok.injEq] at hpath hpath'
  obtain ⟨here, hfront, _, henter, hlast⟩ := hpath
  obtain ⟨here', hfront', _, -, hlast'⟩ := hpath'
  rw [hfront] at hfront'
  cases hfront'
  have haway : child here (String.ofList last) ≠ here := by
    intro hsame
    rw [hsame] at hlast
    subst hlast
    rw [enter_eq_ok, hlookup] at henter
    cases henter
  refine child_append_ne hsuffix haway ?_
  rw [hlast, ← hlast']
  congr 1
  simp

end Stencil.FileSystem
