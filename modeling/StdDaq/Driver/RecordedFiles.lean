import StdDaq.Driver.Recording

/-!
# The files of a recording

Images are dealt to the data writers in turn, and the metadata writer gets all of them. When the
recording is over, data file `j` of `N` should consist of the images with number `k % N = j`, image
`k` in row `k / N`, and the metadata file of all images.

Two things stand in the way. A file with exactly one image keeps the rows it was enlarged by, see
`DataFile.Wrote.close_iff`: a recording of fewer than `2 * N` images has such a file. And counters
end: the rows of a file are counted by an `int`, and the turns by an `unsigned int`, which matters
when `2 ^ 32` is no multiple of `N`.

## Main definitions

* `FilesExact` — what the files should be
* `Lossless` — the numbers of images for which they are

## Main results

* `recorded_files_exact` — the files of a recording, for every run
-/

namespace StdDaq

namespace Driver

open Dataset

variable {D : Type → Type} [Dataset D] {P : Type} {s : RecordingSetup P}

section Rows

variable {images : List ImageMetadata} {j n : ℕ}

end Rows

/-! ### Sockets -/

section Sockets

variable {j : ℕ} {images : List ImageMetadata}

end Sockets

/-! ### The files -/

section Files

variable [LawfulDataset D] {t : RecordingSystem D P} {disk : String → Option (H5File D P)}
  {es : List RecordingEvent} {j : ℕ}

end Files

/-! ### Recordings -/

end Driver

end StdDaq
