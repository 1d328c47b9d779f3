import StdDaq.Buffer.FileHandler
import StdDaq.Lib.Decimal
import StdDaq.Lib.SortedSearch
import Mathlib.Order.Bounds.Basic

/-!
# Finding the first file of the image buffer

`FileHandler::get_first_matching_root_id` finds the first file that can hold an image or a later
one. It lists the root directory, reads the names as numbers, sorts these and searches the folder of
the image; if there is no file from the image's on in that folder, the answer is the first file of
the next folder.

On a disk that was filled by writes the answer is exact: it is the smallest block of a thousand ids
that has an image and is not before the block of the image that is asked for. That the names that
are read back are the numbers they were made of is part of this.

## Main results

* `stoul_folderName`, `stoul_stem_fileName` — names are read back
* `Layout.append` — what a write does to the directory
* `getFirstMatchingRootId_spec` — the search is exact
-/

namespace StdDaq

namespace Buffer

/-- What the functions of the standard library that are used here throw, and what is undefined. -/
inductive Failure where
  | invalidArgument
  | outOfRange
  | filesystemError
  /-- `front()` of an empty vector. -/
  | emptyFront
  deriving DecidableEq, Repr

/-- `std::isspace` in the C locale. -/
def isSpace (c : Char) : Bool := c = ' ' || (9 ≤ c.toNat && c.toNat ≤ 13)

/-- `std::stoull`: the value, and what comes after the digits. -/
def stoull (text : Name) : Except Failure (ℕ × Name) :=
  let text := text.dropWhile isSpace
  let negative := text.head? = some '-'
  let unsigned := if negative ∨ text.head? = some '+' then text.tail else text
  let digits := unsigned.takeWhile Char.isDigit
  let value := Nat.ofDigitChars 10 digits 0
  if digits = [] then .error .invalidArgument
  else if 2 ^ 64 ≤ value then .error .outOfRange
  else .ok (if negative then (2 ^ 64 - value) % 2 ^ 64 else value, unsigned.dropWhile Char.isDigit)

/-- `std::stoul`, on a platform where `unsigned long` has 64 bits. -/
def stoul (text : Name) : Except Failure ℕ := (stoull text).map Prod.fst

/-- `std::filesystem::path::stem` of the name of a directory entry, which is never `.` or `..`. -/
def stem (name : Name) : Name :=
  match name.reverse.dropWhile (· ≠ '.') with
  | [] | [_] => name
  | _ :: before => before.reverse

namespace FileHandler

/-- `get_folder_ids_in_root_directory`. -/
def getFolderIdsInRootDirectory (disk : Disk) : Except Failure (List ℕ) :=
  (disk.keys.mapM stoul).map fun ids => ids.insertionSort (· ≤ ·)

/-- `get_file_ids_in_folder`. -/
def getFileIdsInFolder (disk : Disk) (folderId : ℕ) : Except Failure (List ℕ) :=
  match disk.lookup (folderName folderId) with
  | none => .error .filesystemError
  | some folder =>
    (folder.keys.mapM fun name => stoul (stem name)).map fun ids => ids.insertionSort (· ≤ ·)

/-- The end of `get_first_matching_root_id`: the first file in the first folder. -/
def firstFileOf (disk : Disk) : List ℕ → Except Failure (Option ℕ)
  | [] => .ok none
  | folder :: _ => do
    match ← getFileIdsInFolder disk folder with
    | [] => .error .emptyFront
    | file :: _ => .ok (some file)

/-- `get_first_matching_root_id` from `folder_it` on, with the folders from there on. -/
def searchFolders (disk : Disk) (targetFolder blockId : ℕ) : List ℕ → Except Failure (Option ℕ)
  | [] => .ok none
  | folder :: rest =>
    if folder = targetFolder then do
      let fileIds ← getFileIdsInFolder disk folder
      match fileIds.dropWhile (· < blockId) with
      | file :: _ => .ok (some file)
      | [] => firstFileOf disk rest
    else firstFileOf disk (folder :: rest)

/-- `get_first_matching_root_id`. -/
def getFirstMatchingRootId (disk : Disk) (imageId : ℕ) : Except Failure (Option ℕ) := do
  let folderIds ← getFolderIdsInRootDirectory disk
  if folderIds = [] then .ok none
  else
    let targetFolder := imageId / 1000000 * 1000000
    let blockId := imageId / 1000 * 1000
    searchFolders disk targetFolder blockId (folderIds.dropWhile (· < targetFolder))

end FileHandler

/-! ### Names -/

theorem toText_injective {i j : ℕ} (h : toText i = toText j) : i = j := Decimal.toDigits_injective h

theorem not_isSpace_of_isDigit {c : Char} (h : c.isDigit) : ¬ isSpace c := by
  have hge : 48 ≤ c.toNat := by
    simp only [Char.isDigit, Bool.and_eq_true, decide_eq_true_eq] at h
    exact h.1
  intro hspace
  simp only [isSpace, Bool.or_eq_true, Bool.and_eq_true, decide_eq_true_eq] at hspace
  rcases hspace with rfl | hspace
  · exact absurd hge (by decide)
  · omega

theorem stoull_of_digits {text : Name} (hne : text ≠ []) (hdigits : ∀ c ∈ text, c.isDigit)
    (hlt : Nat.ofDigitChars 10 text 0 < 2 ^ 64) :
    stoull text = .ok (Nat.ofDigitChars 10 text 0, []) := by
  obtain ⟨c, rest, rfl⟩ := List.exists_cons_of_ne_nil hne
  have hc : c.isDigit := hdigits c List.mem_cons_self
  have hspace : (c :: rest).dropWhile isSpace = c :: rest :=
    List.dropWhile_cons_of_neg (not_isSpace_of_isDigit hc)
  have hminus : c ≠ '-' := by rintro rfl; revert hc; decide
  have hplus : c ≠ '+' := by rintro rfl; revert hc; decide
  have htake : (c :: rest).takeWhile Char.isDigit = c :: rest :=
    List.takeWhile_eq_self_iff.mpr hdigits
  have hdrop : (c :: rest).dropWhile Char.isDigit = [] := List.dropWhile_eq_nil_iff.mpr hdigits
  rw [stoull]
  simpa [hspace, hminus, hplus, htake, hdrop] using hlt

/-- A numeral with zeros after it is read as the number with these zeros. -/
theorem stoul_toText_zeros {n : ℕ} (k : ℕ) (h : n * 10 ^ k < 2 ^ 64) :
    stoul (toText n ++ List.replicate k '0') = .ok (n * 10 ^ k) := by
  have hvalue := Decimal.ofDigitChars_toDigits_zeros n k
  have hne : toText n ++ List.replicate k '0' ≠ [] :=
    List.append_ne_nil_of_left_ne_nil Nat.toDigits_ne_nil _
  have hdigits : ∀ c ∈ toText n ++ List.replicate k '0', c.isDigit := by
    intro c hc
    rcases List.mem_append.mp hc with hc | hc
    · exact Decimal.isDigit_of_mem_toDigits hc
    · rw [List.eq_of_mem_replicate hc]
      decide
  rw [stoul, stoull_of_digits hne hdigits (hvalue.trans_lt h)]
  exact congrArg _ hvalue

theorem stoul_folderName {i : ℕ} (h : i < 2 ^ 64) :
    stoul (folderName i) = .ok (i / 1000000 * 1000000) :=
  stoul_toText_zeros 6 ((Nat.div_mul_le_self i 1000000).trans_lt h)

theorem stem_fileName (i : ℕ) : stem (fileName i) = toText (i / 1000) ++ List.replicate 3 '0' := by
  have hdrop : (fileName i).reverse.dropWhile (· ≠ '.') =
      '.' :: '0' :: '0' :: '0' :: (toText (i / 1000)).reverse := by
    rw [fileName, List.reverse_append]
    rfl
  rw [stem, hdrop]
  simp [List.replicate]

theorem stoul_stem_fileName {i : ℕ} (h : i < 2 ^ 64) :
    stoul (stem (fileName i)) = .ok (i / 1000 * 1000) := by
  rw [stem_fileName]
  exact stoul_toText_zeros 3 ((Nat.div_mul_le_self i 1000).trans_lt h)

theorem folderName_eq_iff {i j : ℕ} : folderName i = folderName j ↔ i / 1000000 = j / 1000000 := by
  rw [folderName, folderName, List.append_left_inj]
  exact ⟨toText_injective, congrArg _⟩

theorem fileName_eq_iff {i j : ℕ} : fileName i = fileName j ↔ i / 1000 = j / 1000 := by
  rw [fileName, fileName, List.append_left_inj]
  exact ⟨toText_injective, congrArg _⟩

/-! ### The directory of a set of images -/

/-- The directory has exactly the folders and files of these ids. -/
structure Layout (disk : Disk) (ids : Set ℕ) : Prop where
  folders : ∀ name, name ∈ disk ↔ ∃ i ∈ ids, folderName i = name
  files : ∀ name folder, disk.lookup name = some folder →
    ∀ file, file ∈ folder ↔ ∃ i ∈ ids, folderName i = name ∧ fileName i = file

theorem layout_empty : Layout ∅ ∅ where
  folders name := by simp
  files name folder h := by simp at h

variable {disk : Disk} {ids : Set ℕ}

theorem Layout.mem_getD (h : Layout disk ids) (name file : Name) :
    file ∈ (disk.lookup name).getD ∅ ↔ ∃ i ∈ ids, folderName i = name ∧ fileName i = file := by
  cases hlookup : disk.lookup name with
  | some folder => exact h.files name folder hlookup file
  | none =>
    have hnot : name ∉ disk := AList.lookup_eq_none.mp hlookup
    refine ⟨fun hmem => absurd hmem (AList.notMem_empty file), ?_⟩
    rintro ⟨i, hi, hname, -⟩
    exact absurd ((h.folders name).mpr ⟨i, hi, hname⟩) hnot

/-- A write makes its folder and its file. -/
theorem Layout.append (h : Layout disk ids) (i : ℕ) (bytes : List UInt8) :
    Layout (disk.append (getFilename i) bytes) (insert i ids) := by
  constructor
  · intro name
    rw [Disk.append, AList.mem_insert, h.folders]
    simp only [getFilename, Set.mem_insert_iff, exists_eq_or_imp, @eq_comm _ name]
  · intro name folder hlookup file
    simp only [Set.mem_insert_iff, exists_eq_or_imp]
    rw [Disk.append] at hlookup
    by_cases hname : name = folderName i
    · subst hname
      rw [getFilename, AList.lookup_insert, Option.some.injEq] at hlookup
      rw [← hlookup, AList.mem_insert, h.mem_getD]
      simp only [true_and, @eq_comm _ file]
    · have hne : name ≠ (getFilename i).folder := hname
      rw [AList.lookup_insert_ne hne] at hlookup
      rw [h.files name folder hlookup]
      simp only [Ne.symm hname, false_and, false_or]

/-- An image in a file that is there already changes nothing. -/
theorem Layout.insert_of_filename_eq (h : Layout disk ids) {i j : ℕ} (hj : j ∈ ids)
    (hsame : getFilename j = getFilename i) : Layout disk (insert i ids) := by
  obtain ⟨hfolder, hfile⟩ := Path.mk.inj hsame
  constructor
  · intro name
    rw [h.folders]
    simp only [Set.mem_insert_iff, exists_eq_or_imp]
    exact ⟨.inr, fun hname => hname.elim (fun hi => ⟨j, hj, hfolder.trans hi⟩) id⟩
  · intro name folder hlookup file
    rw [h.files name folder hlookup]
    simp only [Set.mem_insert_iff, exists_eq_or_imp]
    exact ⟨.inr, fun hname => hname.elim
      (fun hi => ⟨j, hj, hfolder.trans hi.1, hfile.trans hi.2⟩) id⟩

/-! ### The search -/

/-- The blocks of a later folder are later. -/
theorem block_lt_of_folder_lt {i j : ℕ} (h : i / 1000000 * 1000000 < j / 1000000 * 1000000) :
    i / 1000 * 1000 < j / 1000 * 1000 := by
  have hfolder : i / 1000000 < j / 1000000 := Nat.lt_of_mul_lt_mul_right h
  have hblock : i / 1000 < j / 1000 := by omega
  exact Nat.mul_lt_mul_of_pos_right hblock (by decide)

/-- What the search is for: the first block from that of `imageId` on. -/
def IsFirstBlock (ids : Set ℕ) (imageId : ℕ) : Option ℕ → Prop
  | none => ∀ i ∈ ids, i / 1000 * 1000 < imageId / 1000 * 1000
  | some block =>
    IsLeast {c | imageId / 1000 * 1000 ≤ c ∧ ∃ i ∈ ids, i / 1000 * 1000 = c} block

/-- The names of a directory, read as numbers and sorted: if the names are those of the members of
a set and numbers tell them apart, the result is the set of these numbers. -/
theorem sorted_values {names : List Name} (hnodup : names.Nodup) {members : Set ℕ}
    {name : ℕ → Name} (value : ℕ → ℕ) (parse : Name → Except Failure ℕ)
    (hnames : ∀ x, x ∈ names ↔ ∃ i ∈ members, name i = x)
    (hparse : ∀ i ∈ members, parse (name i) = .ok (value i))
    (hinj : ∀ i ∈ members, ∀ j ∈ members, value i = value j → name i = name j) :
    ∃ values, (names.mapM parse).map (fun ids => ids.insertionSort (· ≤ ·)) = .ok values ∧
      values.Pairwise (· < ·) ∧ ∀ v, v ∈ values ↔ ∃ i ∈ members, value i = v := by
  let read : Name → ℕ := fun x => (parse x).toOption.getD 0
  have hread : ∀ i ∈ members, read (name i) = value i := by
    intro i hi
    simp only [read, hparse i hi]
    rfl
  have hmap : names.mapM parse = .ok (names.map read) := by
    refine List.mapM_ok fun x hx => ?_
    obtain ⟨i, hi, rfl⟩ := (hnames x).mp hx
    rw [hread i hi, hparse i hi]
  refine ⟨(names.map read).insertionSort (· ≤ ·), by rw [hmap]; rfl,
    List.sortedLT_insertionSort ?_, fun v => ?_⟩
  · refine List.Nodup.map_on (fun x hx y hy heq => ?_) hnodup
    obtain ⟨i, hi, rfl⟩ := (hnames x).mp hx
    obtain ⟨j, hj, rfl⟩ := (hnames y).mp hy
    rw [hread i hi, hread j hj] at heq
    exact hinj i hi j hj heq
  · rw [List.mem_insertionSort, List.mem_map]
    constructor
    · rintro ⟨x, hx, rfl⟩
      obtain ⟨i, hi, rfl⟩ := (hnames x).mp hx
      exact ⟨i, hi, (hread i hi).symm⟩
    · rintro ⟨i, hi, rfl⟩
      exact ⟨name i, (hnames _).mpr ⟨i, hi, rfl⟩, hread i hi⟩

section Search

variable (h : Layout disk ids) (hfits : ∀ i ∈ ids, i < 2 ^ 64)

include h hfits

theorem getFolderIdsInRootDirectory_spec :
    ∃ folderIds, FileHandler.getFolderIdsInRootDirectory disk = .ok folderIds ∧
      folderIds.Pairwise (· < ·) ∧ ∀ v, v ∈ folderIds ↔ ∃ i ∈ ids, i / 1000000 * 1000000 = v :=
  sorted_values disk.keys_nodup (fun i => i / 1000000 * 1000000) stoul h.folders
    (fun i hi => stoul_folderName (hfits i hi))
    fun i _ j _ heq => folderName_eq_iff.mpr (by omega)

theorem getFileIdsInFolder_spec {i : ℕ} (hi : i ∈ ids) :
    ∃ fileIds, FileHandler.getFileIdsInFolder disk (i / 1000000 * 1000000) = .ok fileIds ∧
      fileIds.Pairwise (· < ·) ∧
      ∀ v, v ∈ fileIds ↔ ∃ j ∈ ids, j / 1000000 = i / 1000000 ∧ j / 1000 * 1000 = v := by
  have hname : folderName (i / 1000000 * 1000000) = folderName i :=
    folderName_eq_iff.mpr (Nat.mul_div_cancel _ (by decide))
  obtain ⟨folder, hfolder⟩ := Option.isSome_iff_exists.mp
    (AList.lookup_isSome.mpr ((h.folders (folderName i)).mpr ⟨i, hi, rfl⟩))
  have hmem : ∀ file, file ∈ folder.keys ↔
      ∃ j ∈ {j | j ∈ ids ∧ j / 1000000 = i / 1000000}, fileName j = file := by
    intro file
    rw [← AList.mem_keys, h.files _ folder hfolder]
    simp only [folderName_eq_iff, Set.mem_ofPred_eq, and_assoc]
  obtain ⟨fileIds, hok, hsorted, hall⟩ := sorted_values folder.keys_nodup (fun j => j / 1000 * 1000)
    (fun name => stoul (stem name)) hmem (fun j hj => stoul_stem_fileName (hfits j hj.1))
    fun j _ k _ heq => fileName_eq_iff.mpr (by omega)
  refine ⟨fileIds, ?_, hsorted, fun v => ?_⟩
  · rw [FileHandler.getFileIdsInFolder, hname, hfolder]
    exact hok
  · rw [hall]
    simp only [Set.mem_ofPred_eq, and_assoc]

/-- The first file of the first of some folders. -/
theorem firstFileOf_spec {i : ℕ} (hi : i ∈ ids) (rest : List ℕ) :
    ∃ block, FileHandler.firstFileOf disk (i / 1000000 * 1000000 :: rest) = .ok (some block) ∧
      IsLeast {c | ∃ j ∈ ids, j / 1000000 = i / 1000000 ∧ j / 1000 * 1000 = c} block := by
  obtain ⟨fileIds, hok, hsorted, hall⟩ := getFileIdsInFolder_spec h hfits hi
  cases fileIds with
  | nil => exact absurd ((hall _).mpr ⟨i, hi, rfl, rfl⟩) List.not_mem_nil
  | cons block later =>
    refine ⟨block, ?_, (hall _).mp List.mem_cons_self, fun c hc => ?_⟩
    · rw [FileHandler.firstFileOf, hok]
      rfl
    · rcases List.mem_cons.mp ((hall c).mpr hc) with rfl | hlater
      · exact le_rfl
      · exact ((List.pairwise_cons.mp hsorted).1 c hlater).le

/-- From the first folder after a bound on, the first file is the first one after the bound. -/
theorem firstFileOf_isFirstBlock {imageId : ℕ} {folders : List ℕ}
    (hsorted : folders.Pairwise (· < ·))
    (hmem : ∀ v ∈ folders, ∃ i ∈ ids, i / 1000000 * 1000000 = v)
    (hlater : ∀ v ∈ folders, imageId / 1000000 * 1000000 < v)
    (hall : ∀ i ∈ ids, imageId / 1000 * 1000 ≤ i / 1000 * 1000 → i / 1000000 * 1000000 ∈ folders) :
    ∃ r, FileHandler.firstFileOf disk folders = .ok r ∧ IsFirstBlock ids imageId r := by
  cases folders with
  | nil =>
    refine ⟨none, rfl, fun i hi => ?_⟩
    by_contra hge
    exact absurd (hall i hi (Nat.not_lt.mp hge)) List.not_mem_nil
  | cons folder rest =>
    obtain ⟨i, hi, rfl⟩ := hmem _ List.mem_cons_self
    obtain ⟨block, hok, ⟨j, hj, hji, rfl⟩, hleast⟩ := firstFileOf_spec h hfits hi rest
    have hafter := block_lt_of_folder_lt (hji ▸ hlater _ List.mem_cons_self)
    refine ⟨_, hok, ⟨hafter.le, j, hj, rfl⟩, ?_⟩
    rintro c ⟨hle, k, hk, rfl⟩
    rcases List.mem_cons.mp (hall k hk hle) with heq | hrest
    · exact hleast ⟨k, hk, by omega, rfl⟩
    · have hlt := (List.pairwise_cons.mp hsorted).1 _ hrest
      exact (block_lt_of_folder_lt (hji ▸ hlt)).le

/-- The search in the folder of the image, and after it. -/
theorem searchFolders_spec {imageId folder : ℕ} {folderIds rest : List ℕ}
    (hsorted : folderIds.Pairwise (· < ·))
    (hall : ∀ v, v ∈ folderIds ↔ ∃ i ∈ ids, i / 1000000 * 1000000 = v)
    (hdrop : folderIds.dropWhile (· < imageId / 1000000 * 1000000) = folder :: rest) :
    ∃ r, FileHandler.searchFolders disk (imageId / 1000000 * 1000000) (imageId / 1000 * 1000)
      (folder :: rest) = .ok r ∧ IsFirstBlock ids imageId r := by
  obtain ⟨hle, hfolder, hrest, hfrom, hsub⟩ := List.dropWhile_lt_eq_cons hsorted hdrop
  have hfromId : ∀ i ∈ ids, imageId / 1000 * 1000 ≤ i / 1000 * 1000 →
      i / 1000000 * 1000000 ∈ folder :: rest := fun i hi hge =>
    hfrom _ ((hall _).mpr ⟨i, hi, rfl⟩)
      (Nat.not_lt.mp fun hlt => absurd hge (Nat.not_le.mpr (block_lt_of_folder_lt hlt)))
  have hmem : ∀ v ∈ folder :: rest, ∃ i ∈ ids, i / 1000000 * 1000000 = v := by
    intro v hv
    rcases List.mem_cons.mp hv with rfl | hv
    · exact (hall v).mp hfolder
    · exact (hall v).mp (hsub v hv)
  have hafter := (List.pairwise_cons.mp hrest).1
  rw [FileHandler.searchFolders]
  split
  next htarget =>
    obtain ⟨i, hi, hifolder⟩ := (hall folder).mp hfolder
    obtain ⟨fileIds, hfiles, hfilesSorted, hfilesAll⟩ := getFileIdsInFolder_spec h hfits hi
    rw [hifolder] at hfiles
    rw [hfiles]
    change ∃ r, (match fileIds.dropWhile (· < imageId / 1000 * 1000) with
      | file :: _ => .ok (some file)
      | [] => FileHandler.firstFileOf disk rest) = Except.ok r ∧ _
    cases hfile : fileIds.dropWhile (· < imageId / 1000 * 1000) with
    | nil =>
      -- No file of this folder comes into question, so the next folder has the answer.
      refine firstFileOf_isFirstBlock h hfits (List.pairwise_cons.mp hrest).2
        (fun v hv => hmem v (List.mem_cons_of_mem _ hv)) (fun v hv => htarget ▸ hafter v hv) ?_
      intro j hj hge
      rcases List.mem_cons.mp (hfromId j hj hge) with heq | hlater
      · have := List.dropWhile_lt_eq_nil hfile _ ((hfilesAll _).mpr ⟨j, hj, by omega, rfl⟩)
        omega
      · exact hlater
    | cons file later =>
      obtain ⟨hfileLe, hfileMem, hfileRest, hfileFrom, -⟩ :=
        List.dropWhile_lt_eq_cons hfilesSorted hfile
      obtain ⟨j, hj, hji, rfl⟩ := (hfilesAll file).mp hfileMem
      refine ⟨_, rfl, ⟨hfileLe, j, hj, rfl⟩, ?_⟩
      rintro c ⟨hge, k, hk, rfl⟩
      rcases List.mem_cons.mp (hfromId k hk hge) with heq | hlater
      · rcases List.mem_cons.mp (hfileFrom _ ((hfilesAll _).mpr ⟨k, hk, by omega, rfl⟩) hge) with
          heq' | hlater'
        · exact heq'.ge
        · exact ((List.pairwise_cons.mp hfileRest).1 _ hlater').le
      · have hlt := hafter _ hlater
        rw [← hifolder, ← hji] at hlt
        exact (block_lt_of_folder_lt hlt).le
  next htarget =>
    refine firstFileOf_isFirstBlock h hfits hrest hmem (fun v hv => ?_) hfromId
    rcases List.mem_cons.mp hv with rfl | hv
    · omega
    · exact hle.trans_lt (hafter v hv)

/-- **The search is exact** on a directory that has exactly the files of some images: it finds the
smallest block that has an image and is not before the block of `imageId`. -/
theorem getFirstMatchingRootId_spec (imageId : ℕ) :
    ∃ r, FileHandler.getFirstMatchingRootId disk imageId = .ok r ∧ IsFirstBlock ids imageId r := by
  obtain ⟨folderIds, hok, hsorted, hall⟩ := getFolderIdsInRootDirectory_spec h hfits
  have hsearch : ∃ r, FileHandler.searchFolders disk (imageId / 1000000 * 1000000)
      (imageId / 1000 * 1000) (folderIds.dropWhile (· < imageId / 1000000 * 1000000)) = .ok r ∧
      IsFirstBlock ids imageId r := by
    cases hdrop : folderIds.dropWhile (· < imageId / 1000000 * 1000000) with
    | nil =>
      refine ⟨none, rfl, fun i hi => ?_⟩
      exact block_lt_of_folder_lt (List.dropWhile_lt_eq_nil hdrop _ ((hall _).mpr ⟨i, hi, rfl⟩))
    | cons folder rest =>
      exact searchFolders_spec h hfits hsorted hall hdrop
  rw [FileHandler.getFirstMatchingRootId, hok]
  change ∃ r, (if folderIds = [] then _ else _) = _ ∧ _
  split
  next hnil =>
    subst hnil
    refine ⟨none, rfl, fun i hi => ?_⟩
    exact absurd ((hall _).mpr ⟨i, hi, rfl⟩) List.not_mem_nil
  next => exact hsearch

end Search

end Buffer

end StdDaq
