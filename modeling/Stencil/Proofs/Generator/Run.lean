/-
  What the generator's actions do with a tree of files.

  * `run` is the result of an action and the tree behind it;
  * `run_check`, `run_plan` and `run_render`: checking an input, planning and rendering
    touch no file, and what they give is read off its text; `Holds`: what a file holds passes
    the checks.
-/
import Stencil.File.System
import Stencil.Generator
import Stencil.Outcome

namespace Stencil.Generator

open Input

/-! ## Actions on a tree of files -/

/-- What an action does with a tree of files: its result, and the tree behind it. -/
def run {α : Type} (action : ExceptT Fault (StateM FileSystem) α) (fs : FileSystem) :
    Except Fault α × FileSystem :=
  StateT.run (ExceptT.run action) fs

section
variable {α β : Type} {fs fs' : FileSystem}

theorem run_bind_ok {x : ExceptT Fault (StateM FileSystem) α} {a : α} (h : run x fs = (.ok a, fs'))
    (f : α → ExceptT Fault (StateM FileSystem) β) : run (x >>= f) fs = run (f a) fs' := by
  simp only [run, ExceptT.run_bind, StateT.run_bind] at h ⊢
  rw [h]
  rfl

theorem run_bind_error {x : ExceptT Fault (StateM FileSystem) α} {e : Fault}
    (h : run x fs = (.error e, fs')) (f : α → ExceptT Fault (StateM FileSystem) β) :
    run (x >>= f) fs = (.error e, fs') := by
  simp only [run, ExceptT.run_bind, StateT.run_bind] at h ⊢
  rw [h]
  rfl

/-- Actions that leave the tree as it is, one behind the other. -/
theorem run_bind_of_keeps {x : ExceptT Fault (StateM FileSystem) α} {r : Except Fault α}
    {f : α → ExceptT Fault (StateM FileSystem) β} {g : α → Except Fault β}
    (hx : run x fs = (r, fs)) (hf : ∀ a, run (f a) fs = (g a, fs)) :
    run (x >>= f) fs = (r >>= g, fs) := by
  cases r with
  | error e => exact run_bind_error hx f
  | ok a => exact (run_bind_ok hx f).trans (hf a)

/-- An action whose result is replaced. -/
theorem run_discard (x : ExceptT Fault (StateM FileSystem) α) (b : β) :
    run (do discard x; return b) fs = ((fun _ => b) <$> (run x fs).1, (run x fs).2) := by
  have hdiscard : discard x = x >>= fun _ => pure () := rfl
  rw [hdiscard, bind_assoc]
  cases hx : run x fs with
  | mk result fs' =>
    cases result with
    | error fault => exact run_bind_error hx _
    | ok a => exact run_bind_ok hx _

theorem run_liftExcept (x : Except Fault α) :
    run (liftExcept x) fs = (x, fs) := by
  cases x <;> rfl

theorem run_present (path : String) :
    run (liftM (MonadFiles.present path : StateM FileSystem Bool)) fs =
      (.ok (fs.present path), fs) := rfl

/-- An access goes on with the tree that it leaves. -/
theorem run_accessing (path : String) (access : StateM FileSystem (Except FileError α)) :
    run (accessing path access) fs =
      ((access.run fs).1.mapError fun e => .fileAccess path e.message, (access.run fs).2) := rfl

theorem run_update_ok {change : FileSystem → Except FileError FileSystem} (path : String)
    (h : change fs = .ok fs') :
    run (accessing path (FileSystem.update change)) fs = (.ok (), fs') := by
  have hupdate : (FileSystem.update change).run fs = (.ok (), fs') := by
    simp only [StateT.run, FileSystem.update, h]
  rw [run_accessing, hupdate]
  rfl

/-- A change that fails leaves the tree as it is. -/
theorem run_update_error {change : FileSystem → Except FileError FileSystem} {e : FileError}
    (path : String) (h : change fs = .error e) :
    run (accessing path (FileSystem.update change)) fs =
      (.error (.fileAccess path e.message), fs) := by
  have hupdate : (FileSystem.update change).run fs = (.error e, fs) := by
    simp only [StateT.run, FileSystem.update, h]
  rw [run_accessing, hupdate]
  rfl

theorem run_copy_ok {source target : String} (h : fs.copy source target = .ok fs') :
    run (accessing target (MonadFiles.copy source target)) fs = (.ok (), fs') :=
  run_update_ok target h

theorem run_copy_error {source target : String} {e : FileError}
    (h : fs.copy source target = .error e) :
    run (accessing target (MonadFiles.copy source target)) fs =
      (.error (.fileAccess target e.message), fs) :=
  run_update_error target h

end

/-! ## Reading and checking the input -/

/-- The input in a file, which passed its checks. -/
def Holds (settings : Settings) (fs : FileSystem) (input : String) (checked : Checked) : Prop :=
  ∃ bytes text, fs.read input = .ok bytes ∧ String.fromUTF8? bytes = some text ∧
    Checked.ofText settings text = .ok checked

/-- The text of a file, as reading it gives it. -/
def textOf (fs : FileSystem) (path : String) : Except Fault String := do
  let bytes ← (fs.read path).mapError fun e => Fault.fileAccess path e.message
  (decode bytes).mapError fun e => Fault.fileAccess path e.message

theorem decode_eq_ok {bytes : ByteArray} {text : String} :
    decode bytes = .ok text ↔ String.fromUTF8? bytes = some text := by
  unfold decode
  cases String.fromUTF8? bytes <;> simp

/-- Reading a text touches no file. -/
theorem run_readText (path : String) (fs : FileSystem) :
    run (readText path) fs = (textOf fs path, fs) :=
  run_bind_of_keeps (run_accessing path _) fun _ => run_liftExcept _

/-- Checking an input touches no file. -/
theorem run_check (settings : Settings) (input : String) (fs : FileSystem) :
    run (check settings input) fs = (textOf fs input >>= Checked.ofText settings, fs) :=
  run_bind_of_keeps (run_readText input fs) fun _ => run_liftExcept _

/-- Planning touches no file. -/
theorem run_plan (settings : Settings) (input : String) (fs : FileSystem) :
    run (plan settings input) fs = (textOf fs input >>= planOfText settings, fs) :=
  run_bind_of_keeps (run_readText input fs) fun _ => run_liftExcept _

/-- Rendering touches no file. -/
theorem run_render (settings : Settings) (input : String) (fs : FileSystem) :
    run (render settings input) fs =
      (textOf fs input >>= Checked.ofText settings >>= Checked.render, fs) :=
  run_bind_of_keeps (run_check settings input fs) fun _ => run_liftExcept _

theorem ofText_textOf_eq_ok {settings : Settings} {fs : FileSystem} {input : String}
    {checked : Checked} :
    textOf fs input >>= Checked.ofText settings = .ok checked ↔
      Holds settings fs input checked := by
  simp only [textOf, bind_eq_ok, mapError_eq_ok, decode_eq_ok, Holds]
  constructor
  · rintro ⟨text, ⟨bytes, hread, hdecode⟩, hchecked⟩
    exact ⟨bytes, text, hread, hdecode, hchecked⟩
  · rintro ⟨bytes, text, hread, hdecode, hchecked⟩
    exact ⟨text, ⟨bytes, hread, hdecode⟩, hchecked⟩

end Stencil.Generator
