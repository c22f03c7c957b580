/-
  What the operations on a tree of files do to it.

  * `put` is the tree with other bytes at one place; where no directory stands, this
    changes neither the other places nor where paths lead (`walk_put`);
  * `writable_eq_ok`: the paths that can be written, and `writable_of_file`: those of
    files are among them;
  * `write_eq_ok` and `copy_eq_ok`: writing and copying put bytes at one place.
-/
import Mathlib.Data.List.Basic
import Stencil.File.System
import Stencil.Outcome

namespace Stencil.FileSystem

/-! ## Other bytes at one place -/

/-- The tree with a file of the given bytes at a place. -/
def put (fs : FileSystem) (place : Place) (bytes : ByteArray) : FileSystem :=
  ⟨fs.nodes.insert place (.file bytes)⟩

theorem node?_put_self {fs : FileSystem} {place : Place} (h : isOuter place = false)
    (bytes : ByteArray) : (fs.put place bytes).node? place = some (.file bytes) := by
  simp [node?, put, h]

theorem node?_put_of_ne {fs : FileSystem} {place other : Place} (h : place ≠ other)
    (bytes : ByteArray) : (fs.put place bytes).node? other = fs.node? other := by
  simp [node?, put, Std.ExtTreeMap.getElem?_insert, h]

/-- A place where no directory stands is below the working directory. -/
theorem isOuter_eq_false {fs : FileSystem} {place : Place}
    (h : fs.node? place ≠ some .directory) : isOuter place = false := by
  rw [← Bool.not_eq_true]
  intro houter
  exact h (by simp [node?, houter])

theorem lookup_eq_ok {fs : FileSystem} {place : Place} {node : Option Node} :
    fs.lookup place = .ok node ↔
      (place.getLast?.getD "").utf8ByteSize ≤ maxNameSize ∧ fs.node? place = node := by
  unfold lookup
  split
  · rename_i hlong
    simp only [reduceCtorEq, false_iff]
    omega
  · rename_i hshort
    rw [Except.ok.injEq]
    exact ⟨fun h => ⟨Nat.le_of_not_lt hshort, h⟩, fun h => h.2⟩

theorem enter_eq_ok {fs : FileSystem} {place : Place} :
    fs.enter place = .ok () ↔ fs.lookup place = .ok (some .directory) := by
  unfold enter
  rw [bind_eq_ok]
  constructor
  · rintro ⟨node, hlookup, h⟩
    rcases node with _ | ⟨_ | _⟩
    · cases h
    · cases h
    · exact hlookup
  · intro hlookup
    exact ⟨_, hlookup, rfl⟩

/-- A path enters the same places as before. -/
theorem enter_put {fs : FileSystem} {place : Place} (h : fs.node? place ≠ some .directory)
    (bytes : ByteArray) (other : Place) :
    (fs.put place bytes).enter other = .ok () ↔ fs.enter other = .ok () := by
  rw [enter_eq_ok, enter_eq_ok, lookup_eq_ok, lookup_eq_ok]
  by_cases hplace : place = other
  · subst hplace
    rw [node?_put_self (isOuter_eq_false h)]
    simp [h]
  · rw [node?_put_of_ne hplace]

theorem walkNames_put {fs : FileSystem} {place : Place} (h : fs.node? place ≠ some .directory)
    (bytes : ByteArray) {names : List String} {start target : Place} :
    (fs.put place bytes).walkNames start names = .ok target ↔
      fs.walkNames start names = .ok target := by
  induction names generalizing start with
  | nil => rfl
  | cons name names ih =>
    simp only [walkNames, bind_eq_ok, ih]
    constructor
    · rintro ⟨_, henter, hwalk⟩
      exact ⟨(), (enter_put h bytes start).1 henter, hwalk⟩
    · rintro ⟨_, henter, hwalk⟩
      exact ⟨(), (enter_put h bytes start).2 henter, hwalk⟩

/-- **Paths lead where they led before.** -/
theorem walk_put {fs : FileSystem} {place : Place} (h : fs.node? place ≠ some .directory)
    (bytes : ByteArray) {path : String} {target : Place} :
    (fs.put place bytes).walk path = .ok target ↔ fs.walk path = .ok target := by
  simp only [walk, bind_eq_ok, walkNames_put h]

/-! ## Reading -/

theorem find_eq_ok {fs : FileSystem} {path : String} {node : Node} :
    fs.find path = .ok node ↔
      ∃ place, fs.walk path = .ok place ∧ fs.lookup place = .ok (some node) := by
  simp only [find, bind_eq_ok]
  constructor
  · rintro ⟨place, hwalk, found, hlookup, hfound⟩
    cases found with
    | none => cases hfound
    | some found =>
      cases hfound
      exact ⟨place, hwalk, hlookup⟩
  · rintro ⟨place, hwalk, hlookup⟩
    exact ⟨place, hwalk, some node, hlookup, rfl⟩

theorem read_eq_ok {fs : FileSystem} {path : String} {bytes : ByteArray} :
    fs.read path = .ok bytes ↔
      ∃ place, fs.walk path = .ok place ∧ fs.lookup place = .ok (some (.file bytes)) := by
  rw [← find_eq_ok]
  simp only [read, bind_eq_ok]
  constructor
  · rintro ⟨node, hfind, hnode⟩
    cases node with
    | directory => cases hnode
    | file found =>
      cases hnode
      exact hfind
  · intro hfind
    exact ⟨.file bytes, hfind, rfl⟩

/-- A path that leads elsewhere is read as before. -/
theorem read_put_of_ne {fs : FileSystem} {place : Place} (h : fs.node? place ≠ some .directory)
    {path : String} (hpath : fs.walk path ≠ .ok place) (bytes : ByteArray) {found : ByteArray} :
    (fs.put place bytes).read path = .ok found ↔ fs.read path = .ok found := by
  simp only [read_eq_ok, walk_put h, lookup_eq_ok]
  refine exists_congr fun other => and_congr_right fun hwalk => ?_
  have hne : place ≠ other := by
    rintro rfl
    exact hpath hwalk
  rw [node?_put_of_ne hne]

/-! ## Writing -/

theorem pathNames_cons (c : Char) (s : List Char) :
    pathNames (c :: s) =
      match pathNames s with
      | name :: rest => if c = '/' then [] :: name :: rest else (c :: name) :: rest
      | [] => [] := rfl

/-- The names of a path with a slash behind it end in an empty one. -/
theorem exists_pathNames {s : List Char} (h : s.getLast? = some '/') :
    ∃ names, names ≠ [] ∧ pathNames s = names ++ [[]] := by
  obtain ⟨front, rfl⟩ : ∃ front, s = front ++ ['/'] := List.getLast?_eq_some_iff.1 h
  clear h
  induction front with
  | nil => exact ⟨[[]], by simp, rfl⟩
  | cons c front ih =>
    obtain ⟨names, hne, hnames⟩ := ih
    obtain ⟨name, rest, rfl⟩ := List.exists_cons_of_ne_nil hne
    rw [List.cons_append, pathNames_cons, hnames]
    by_cases hc : c = '/'
    · exact ⟨[] :: name :: rest, by simp, if_pos hc⟩
    · exact ⟨(c :: name) :: rest, by simp, if_neg hc⟩

theorem walkNames_append {fs : FileSystem} {start : Place} {front back : List String} :
    fs.walkNames start (front ++ back) = fs.walkNames start front >>= (fs.walkNames · back) := by
  induction front generalizing start with
  | nil => rfl
  | cons name front ih =>
    simp only [List.cons_append, walkNames, ih, bind_assoc]

/-- A path with a slash behind it leads to a directory. -/
theorem enter_of_slash {fs : FileSystem} {path : String} {place : Place}
    (hslash : path.toList.getLast? = some '/') (h : fs.walk path = .ok place) :
    fs.enter place = .ok () := by
  obtain ⟨names, -, hnames⟩ := exists_pathNames hslash
  simp only [walk, bind_eq_ok, hnames, List.map_append, walkNames_append] at h
  obtain ⟨-, -, target, -, hlast⟩ := h
  simp only [List.map_cons, List.map_nil, walkNames, bind_eq_ok] at hlast
  obtain ⟨_, henter, hplace⟩ := hlast
  cases hplace
  simpa [child] using henter

/-- **The paths that can be written** lead to a place where no directory stands, and end
    in no slash. -/
theorem writable_eq_ok {fs : FileSystem} {path : String} {place : Place} :
    fs.writable path = .ok place ↔
      ¬(path.toList.getLast? = some '/' ∧ trimSlashes path ≠ "") ∧
        fs.walk path = .ok place ∧ ∃ node, fs.lookup place = .ok node ∧ node ≠ some .directory := by
  unfold writable
  rw [bind_eq_ok]
  constructor
  · rintro ⟨-, -, h⟩
    split at h
    · simp only [bind_eq_ok] at h
      obtain ⟨-, -, _, hthrow, -⟩ := h
      cases hthrow
    · rename_i hslash
      simp only [bind_eq_ok] at h
      obtain ⟨found, hwalk, node, hlookup, hnode⟩ := h
      split at hnode
      · cases hnode
      · rename_i hdirectory
        cases hnode
        exact ⟨hslash, hwalk, node, hlookup, hdirectory⟩
  · rintro ⟨hslash, hwalk, node, hlookup, hnode⟩
    obtain ⟨_, hcheck, -⟩ := bind_eq_ok.1 hwalk
    refine ⟨(), hcheck, ?_⟩
    rw [if_neg hslash]
    simp only [bind_eq_ok]
    refine ⟨place, hwalk, node, hlookup, ?_⟩
    split
    · exact absurd rfl hnode
    · rfl

theorem node?_of_writable {fs : FileSystem} {path : String} {place : Place}
    (h : fs.writable path = .ok place) : fs.node? place ≠ some .directory := by
  obtain ⟨-, -, node, hlookup, hnode⟩ := writable_eq_ok.1 h
  rwa [(lookup_eq_ok.1 hlookup).2]

/-- **The path of a file can be written.** -/
theorem writable_of_file {fs : FileSystem} {path : String} {place : Place} {bytes : ByteArray}
    (hwalk : fs.walk path = .ok place) (hlookup : fs.lookup place = .ok (some (.file bytes))) :
    fs.writable path = .ok place := by
  refine writable_eq_ok.2 ⟨fun h => ?_, hwalk, _, hlookup, by simp⟩
  have henter := enter_eq_ok.1 (enter_of_slash h.1 hwalk)
  rw [hlookup] at henter
  cases henter

/-- A path that can be written can be read behind that. -/
theorem read_put_self {fs : FileSystem} {path : String} {place : Place}
    (h : fs.writable path = .ok place) (bytes : ByteArray) :
    (fs.put place bytes).read path = .ok bytes := by
  have hnode := node?_of_writable h
  obtain ⟨-, hwalk, node, hlookup, -⟩ := writable_eq_ok.1 h
  exact read_eq_ok.2 ⟨place, (walk_put hnode bytes).2 hwalk,
    lookup_eq_ok.2 ⟨(lookup_eq_ok.1 hlookup).1, node?_put_self (isOuter_eq_false hnode) bytes⟩⟩

/-- A path that can be written can be written again. -/
theorem writable_put {fs : FileSystem} {path : String} {place : Place}
    (h : fs.writable path = .ok place) {other : Place} (hother : fs.node? other ≠ some .directory)
    (bytes : ByteArray) : (fs.put other bytes).writable path = .ok place := by
  obtain ⟨hslash, hwalk, node, hlookup, hnode⟩ := writable_eq_ok.1 h
  obtain ⟨hshort, rfl⟩ := lookup_eq_ok.1 hlookup
  refine writable_eq_ok.2 ⟨hslash, (walk_put hother bytes).2 hwalk, _,
    lookup_eq_ok.2 ⟨hshort, rfl⟩, ?_⟩
  by_cases hplace : other = place
  · subst hplace
    rw [node?_put_self (isOuter_eq_false hother)]
    simp
  · rwa [node?_put_of_ne hplace]

theorem write_eq_ok {fs fs' : FileSystem} {path : String} {bytes : ByteArray} :
    fs.write path bytes = .ok fs' ↔
      ∃ place, fs.writable path = .ok place ∧ fs.put place bytes = fs' := by
  simp only [write, bind_eq_ok, pure, Except.pure, Except.ok.injEq, put]

/-- What is read of a file where a place was emptied: its bytes, unless it stood there. -/
theorem read_emptied {fs : FileSystem} {path : String} {here place : Place} {bytes : ByteArray}
    (hwalk : fs.walk path = .ok here) (hlookup : fs.lookup here = .ok (some (.file bytes)))
    (hplace : fs.node? place ≠ some .directory) :
    (fs.put place .empty).read path = .ok (if here = place then .empty else bytes) := by
  by_cases hsame : here = place
  · subst hsame
    rw [if_pos rfl, read_put_self (writable_of_file hwalk hlookup)]
  · have hne : fs.walk path ≠ .ok place := by
      rw [hwalk]
      exact fun h => hsame (Except.ok.inj h)
    rw [if_neg hsame, read_put_of_ne hplace hne]
    exact read_eq_ok.2 ⟨here, hwalk, hlookup⟩

/-- **Copying a file** puts its bytes at the other path.  If this leads to the file
    itself, it is empty before it is read. -/
theorem copy_eq_ok {fs fs' : FileSystem} {source target : String} :
    fs.copy source target = .ok fs' ↔
      ∃ bytes here place, fs.walk source = .ok here ∧ fs.lookup here = .ok (some (.file bytes)) ∧
        fs.writable target = .ok place ∧
        (fs.put place .empty).put place (if here = place then .empty else bytes) = fs' := by
  simp only [copy, bind_eq_ok]
  constructor
  · rintro ⟨node, hfind, h⟩
    cases node with
    | directory => cases h
    | file bytes =>
      obtain ⟨here, hwalk, hlookup⟩ := find_eq_ok.1 hfind
      simp only [bind_eq_ok] at h
      obtain ⟨_, hempty, found, hread, hwrite⟩ := h
      -- the target leads to the same place in the tree where it is empty
      obtain ⟨place, hplace, rfl⟩ := write_eq_ok.1 hempty
      have hnode := node?_of_writable hplace
      rw [read_emptied hwalk hlookup hnode] at hread
      cases hread
      obtain ⟨again, hagain, rfl⟩ := write_eq_ok.1 hwrite
      rw [writable_put hplace hnode] at hagain
      cases hagain
      exact ⟨bytes, here, place, hwalk, hlookup, hplace, rfl⟩
  · rintro ⟨bytes, here, place, hwalk, hlookup, hplace, rfl⟩
    have hnode := node?_of_writable hplace
    refine ⟨.file bytes, find_eq_ok.2 ⟨here, hwalk, hlookup⟩, ?_⟩
    simp only [bind_eq_ok]
    exact ⟨_, write_eq_ok.2 ⟨place, hplace, rfl⟩, _, read_emptied hwalk hlookup hnode,
      write_eq_ok.2 ⟨place, writable_put hplace hnode .empty, rfl⟩⟩

/-- A path leads to a file or a directory. -/
theorem present_eq_true {fs : FileSystem} {path : String} :
    fs.present path = true ↔ ∃ node, fs.find path = .ok node := by
  unfold present
  cases fs.find path <;> simp [Except.isOk, Except.toBool]

/-- What can be written is a file if it is there. -/
theorem lookup_of_present {fs : FileSystem} {path : String} {place : Place}
    (hpresent : fs.present path = true) (hplace : fs.writable path = .ok place) :
    ∃ bytes, fs.walk path = .ok place ∧ fs.lookup place = .ok (some (.file bytes)) := by
  obtain ⟨node, hfind⟩ := present_eq_true.1 hpresent
  obtain ⟨found, hfound, hlookup⟩ := find_eq_ok.1 hfind
  obtain ⟨-, hwalk, -⟩ := writable_eq_ok.1 hplace
  obtain rfl : found = place := Except.ok.inj (hfound.symm.trans hwalk)
  have hnode := node?_of_writable hplace
  rw [(lookup_eq_ok.1 hlookup).2] at hnode
  cases node with
  | directory => exact absurd rfl hnode
  | file bytes => exact ⟨bytes, hwalk, hlookup⟩

end Stencil.FileSystem
