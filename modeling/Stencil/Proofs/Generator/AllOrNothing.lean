/-
  Generating a file does all of its work or none.

  * `CanGenerate`: the input passes its checks, and the output file and its backup can
    be written;
  * `Generated`: the output file holds the blocks of the input, the backup what was in
    the output file, and nothing else is touched;
  * `generate_all_or_nothing`: if an output can be generated, it is; otherwise the tree
    of files stays as it is.
-/
import Stencil.Proofs.File.Suffix
import Stencil.Proofs.Generator.Run
import Stencil.Proofs.Input.Rendering

namespace Stencil.Generator

open Input

/-! ## Writing the output -/

/-- An output can be generated: the input passes its checks, and the output file can be
    written, as can its backup if it is there. -/
structure CanGenerate (settings : Settings) (input output : String) (fs : FileSystem) : Prop where
  exists_checked : ∃ checked, Holds settings fs input checked
  exists_place : ∃ place, fs.writable output = .ok place
  exists_backup : fs.present output = true →
    ∃ place, fs.writable (backupPath settings output) = .ok place

/-- The tree of files behind the generation of an output with `n` blocks. -/
structure Generated (settings : Settings) (input output : String) (fs : FileSystem) (n : Nat)
    (fs' : FileSystem) : Prop where
  /-- The output file holds the blocks of the input that was there before. -/
  read_output : ∃ checked blocks, Holds settings fs input checked ∧ checked.blocks = .ok blocks ∧
    n = checked.rows.length ∧ fs'.read output = .ok (String.join blocks).toUTF8
  /-- The backup holds what was in the output file, unless its path leads there too. -/
  read_backup : fs.present output = true → ∃ bytes, fs.read output = .ok bytes ∧
    (fs.walk (backupPath settings output) ≠ fs.walk output →
      fs'.read (backupPath settings output) = .ok bytes)
  /-- The path of the backup leads elsewhere if the suffix is not empty and has no slash. -/
  walk_backup_ne : fs.present output = true → settings.backupSuffix ≠ "" →
    '/' ∉ settings.backupSuffix.toList → fs.walk (backupPath settings output) ≠ fs.walk output
  /-- Paths lead where they led before. -/
  walk_eq : ∀ path place, fs'.walk path = .ok place ↔ fs.walk path = .ok place
  /-- Nothing changes at other places. -/
  node?_eq : ∀ place, fs.walk output ≠ .ok place →
    (fs.present output = true → fs.walk (backupPath settings output) ≠ .ok place) →
    fs'.node? place = fs.node? place

section
variable {settings : Settings} {input output : String} {fs : FileSystem} {checked : Checked}
  {blocks : List String}

/-- Writing the output is the last step. -/
theorem run_write_ok {place : Place} (h : fs.writable output = .ok place) (bytes : ByteArray)
    (n : Nat) :
    run (do accessing output (MonadFiles.write output bytes); return n) fs =
      (.ok n, fs.put place bytes) :=
  run_bind_ok (run_update_ok output (FileSystem.write_eq_ok.2 ⟨place, h, rfl⟩)) _

theorem run_write_error (h : ∀ place, fs.writable output ≠ .ok place) (bytes : ByteArray)
    (n : Nat) :
    ∃ fault, run (do accessing output (MonadFiles.write output bytes); return n) fs =
      (.error fault, fs) := by
  cases hwrite : fs.write output bytes with
  | ok fs' =>
    obtain ⟨place, hplace, -⟩ := FileSystem.write_eq_ok.1 hwrite
    exact absurd hplace (h place)
  | error e => exact ⟨_, run_bind_error (run_update_error output hwrite) _⟩

/-- Behind the checks, an output file that is there is copied before it is written. -/
theorem run_generate (h : Holds settings fs input checked) (hblocks : checked.blocks = .ok blocks) :
    run (generate settings input output) fs =
      run (do
        if fs.present output then
          accessing (backupPath settings output)
            (MonadFiles.copy output (backupPath settings output))
        accessing output (MonadFiles.write output (String.join blocks).toUTF8)
        return blocks.length) fs := by
  have hcheck : run (check settings input) fs = (.ok checked, fs) := by
    rw [run_check, ofText_textOf_eq_ok.2 h]
  have hrender : run (liftExcept checked.blocks) fs = (.ok blocks, fs) := by
    rw [run_liftExcept, hblocks]
  rw [generate, run_bind_ok hcheck, run_bind_ok hrender, run_bind_ok (run_present output)]

theorem run_generate_invalid (h : ∀ checked, ¬Holds settings fs input checked) :
    ∃ fault, run (generate settings input output) fs = (.error fault, fs) := by
  have hcheck := run_check settings input fs
  cases hresult : textOf fs input >>= Checked.ofText settings with
  | ok checked => exact absurd (ofText_textOf_eq_ok.1 hresult) (h checked)
  | error fault =>
    rw [hresult] at hcheck
    exact ⟨fault, run_bind_error hcheck _⟩

theorem Holds.exists_blocks (h : Holds settings fs input checked) :
    ∃ blocks, checked.blocks = .ok blocks := by
  obtain ⟨bytes, text, -, -, hchecked⟩ := h
  exact (sound_of_ofText hchecked).exists_blocks

theorem length_of_blocks (hblocks : checked.blocks = .ok blocks) :
    blocks.length = checked.rows.length :=
  (mapM_eq_ok.1 hblocks).length_eq.symm

/-- The tree behind an output that was not there. -/
theorem generated_of_absent (h : Holds settings fs input checked)
    (hblocks : checked.blocks = .ok blocks) (habsent : fs.present output = false) {place : Place}
    (hplace : fs.writable output = .ok place) :
    Generated settings input output fs blocks.length
      (fs.put place (String.join blocks).toUTF8) where
  read_output := ⟨checked, blocks, h, hblocks, length_of_blocks hblocks,
    FileSystem.read_put_self hplace _⟩
  read_backup := fun hpresent => by simp [habsent] at hpresent
  walk_backup_ne := fun hpresent => by simp [habsent] at hpresent
  walk_eq := fun _ _ => FileSystem.walk_put (FileSystem.node?_of_writable hplace) _
  node?_eq := fun other hother _ => by
    obtain ⟨-, hwalk, -⟩ := FileSystem.writable_eq_ok.1 hplace
    refine FileSystem.node?_put_of_ne ?_ _
    rintro rfl
    exact hother hwalk

/-- The tree behind an output that was there, at `here`, and has its backup at `place`. -/
theorem generated_of_present (h : Holds settings fs input checked)
    (hblocks : checked.blocks = .ok blocks) {here place : Place} {old : ByteArray}
    (hwalk : fs.walk output = .ok here) (hlookup : fs.lookup here = .ok (some (.file old)))
    (hbackup : fs.writable (backupPath settings output) = .ok place) :
    let copied := (fs.put place .empty).put place (if here = place then .empty else old)
    copied.writable output = .ok here ∧
      Generated settings input output fs blocks.length
        (copied.put here (String.join blocks).toUTF8) := by
  intro copied
  -- the backup is written twice: it is emptied before it is filled
  have hplace := FileSystem.node?_of_writable hbackup
  have hemptied := FileSystem.node?_of_writable (FileSystem.writable_put hbackup hplace .empty)
  have hwritable : copied.writable output = .ok here :=
    FileSystem.writable_put (FileSystem.writable_put
      (FileSystem.writable_of_file hwalk hlookup) hplace _) hemptied _
  have hhere := FileSystem.node?_of_writable hwritable
  obtain ⟨-, hwalk', -⟩ := FileSystem.writable_eq_ok.1 hbackup
  have hcopied : ∀ {path target}, copied.walk path = .ok target ↔ fs.walk path = .ok target := by
    intro path target
    rw [FileSystem.walk_put hemptied, FileSystem.walk_put hplace]
  refine ⟨hwritable, ?_⟩
  constructor
  · exact ⟨checked, blocks, h, hblocks, length_of_blocks hblocks,
      FileSystem.read_put_self hwritable _⟩
  · refine fun _ => ⟨old, FileSystem.read_eq_ok.2 ⟨here, hwalk, hlookup⟩, fun hne => ?_⟩
    have hne' : here ≠ place := by
      rintro rfl
      exact hne (hwalk'.trans hwalk.symm)
    have helse : copied.walk (backupPath settings output) ≠ .ok here := by
      rw [Ne, hcopied, hwalk']
      exact fun e => hne' (Except.ok.inj e).symm
    rw [FileSystem.read_put_of_ne hhere helse]
    refine (FileSystem.read_put_self (FileSystem.writable_put hbackup hplace .empty) _).trans ?_
    rw [if_neg hne']
  · intro _ hsuffix hslash
    rw [hwalk]
    exact FileSystem.walk_append_ne hsuffix hslash hwalk hlookup
  · intro path target
    rw [FileSystem.walk_put hhere, hcopied]
  · intro other houtput hother
    have hpresent : fs.present output = true :=
      FileSystem.present_eq_true.2 ⟨_, FileSystem.find_eq_ok.2 ⟨here, hwalk, hlookup⟩⟩
    have hne : here ≠ other := by
      rintro rfl
      exact houtput hwalk
    have hne' : place ≠ other := by
      rintro rfl
      exact hother hpresent hwalk'
    rw [FileSystem.node?_put_of_ne hne, FileSystem.node?_put_of_ne hne',
      FileSystem.node?_put_of_ne hne']

theorem exists_generated (h : CanGenerate settings input output fs) :
    ∃ n fs', run (generate settings input output) fs = (.ok n, fs') ∧
      Generated settings input output fs n fs' := by
  obtain ⟨checked, hchecked⟩ := h.exists_checked
  obtain ⟨place, hplace⟩ := h.exists_place
  obtain ⟨blocks, hblocks⟩ := hchecked.exists_blocks
  rw [run_generate hchecked hblocks]
  cases hpresent : fs.present output with
  | false =>
    rw [if_neg (by simp)]
    exact ⟨_, _, run_write_ok hplace _ _, generated_of_absent hchecked hblocks hpresent hplace⟩
  | true =>
    obtain ⟨backup, hbackup⟩ := h.exists_backup hpresent
    obtain ⟨old, hwalk, hlookup⟩ := FileSystem.lookup_of_present hpresent hplace
    obtain ⟨hwritable, hgenerated⟩ := generated_of_present hchecked hblocks hwalk hlookup hbackup
    have hcopy := FileSystem.copy_eq_ok.2 ⟨old, place, backup, hwalk, hlookup, hbackup, rfl⟩
    rw [if_pos rfl, run_bind_ok (run_copy_ok hcopy)]
    exact ⟨_, _, run_write_ok hwritable _ _, hgenerated⟩

theorem exists_fault (h : ¬CanGenerate settings input output fs) :
    ∃ fault, run (generate settings input output) fs = (.error fault, fs) := by
  by_cases hinput : ∃ checked, Holds settings fs input checked
  · obtain ⟨checked, hchecked⟩ := hinput
    obtain ⟨blocks, hblocks⟩ := hchecked.exists_blocks
    rw [run_generate hchecked hblocks]
    cases hpresent : fs.present output with
    | false =>
      rw [if_neg (by simp)]
      refine run_write_error (fun place hplace => h ?_) _ _
      exact ⟨⟨checked, hchecked⟩, ⟨place, hplace⟩, by simp [hpresent]⟩
    | true =>
      cases hcopy : fs.copy output (backupPath settings output) with
      | error e => exact ⟨_, run_bind_error (run_copy_error hcopy) _⟩
      | ok copied =>
        -- a file that was copied can be written, so nothing was missing
        obtain ⟨old, here, place, hwalk, hlookup, hplace, -⟩ := FileSystem.copy_eq_ok.1 hcopy
        have hhere := FileSystem.writable_of_file hwalk hlookup
        exact absurd ⟨⟨checked, hchecked⟩, ⟨here, hhere⟩, fun _ => ⟨place, hplace⟩⟩ h
  · exact run_generate_invalid fun checked hchecked => hinput ⟨checked, hchecked⟩

end

/-- **An output is generated whole or not at all.**  If the input passes its checks and
    the output file and its backup can be written, then the output file holds the blocks
    of the input, the backup what was in the output file, and nothing else is touched.
    Otherwise there is a fault, and the tree of files is as it was. -/
theorem generate_all_or_nothing (settings : Settings) (input output : String) (fs : FileSystem) :
    (CanGenerate settings input output fs ∧ ∃ n fs',
      run (generate settings input output) fs = (.ok n, fs') ∧
        Generated settings input output fs n fs') ∨
    (¬CanGenerate settings input output fs ∧ ∃ fault,
      run (generate settings input output) fs = (.error fault, fs)) := by
  by_cases h : CanGenerate settings input output fs
  · exact Or.inl ⟨h, exists_generated h⟩
  · exact Or.inr ⟨h, exists_fault h⟩

/-- A suffix whose path leads back to the output file: nothing is left of what was there. -/
theorem generate_over_backup :
    let settings : Settings := ⟨"C", ⟨"t", "g", "r", "f"⟩, "*", "x/../out"⟩
    let text := "[C]\nt=T\ng=G\nr=A\n[T]\n$x\n[G]\nz=1\n[A]\nx\n1\n"
    let fs : FileSystem := ⟨.ofList [(["outx"], Node.directory), (["in"], Node.file text.toUTF8),
      (["out"], Node.file "previous".toUTF8)]⟩
    let after := run (generate settings "in" "out") fs
    backupPath settings "out" ≠ "out" ∧ (fs.read "out").toOption = some "previous".toUTF8 ∧
      after.1.toOption = some 1 ∧
      (after.2.read (backupPath settings "out")).toOption ≠ some "previous".toUTF8 := by
  decide +kernel

end Stencil.Generator
