import Mathlib
import StdDaq.Bitshuffle.Frames
import StdDaq.Bitshuffle.Schedules

/-!
# Compressing with several threads

The loop over the blocks is shared out among threads, which call the block function through the
chain of `IoChain`. Its counts are added up, and every block that fails stores its count in the same
variable, so the error that is returned can be that of any of them.

A block function writes only between its output pointer and the next, `Tidy`, so the result is that
of one thread: `inevitable_blockedWrapFun`.

## Main results

* `inevitable_blockedWrapFun` — with any number of threads the wrapper comes to an end, and its
  outcome is that of the serial loop
-/

namespace StdDaq.Bitshuffle

open Memory

/-- The cells that messages write, in their order. -/
def cellsOf (writes : List (ℕ × List UInt8)) : List (ℕ × UInt8) :=
  writes.flatMap fun w => w.2.mapIdx fun i x => (w.1 + i, x)

section Cells

variable {writes : List (ℕ × List UInt8)} {m : Bytes}

theorem storeAll_message {xs : List UInt8} {p : ℕ} :
    storeAll m (xs.mapIdx fun i x => (p + i, x)) = blit m p xs := by
  induction xs using List.reverseRecOn with
  | nil => exact blit_nil.symm
  | append_singleton xs x ih =>
    rw [List.mapIdx_append, storeAll_append, ih, ← blit_blit, blit_singleton]
    simp only [List.mapIdx_cons, List.mapIdx_nil, Nat.zero_add]
    rfl

theorem storeAll_cellsOf : storeAll m (cellsOf writes) = blits m writes := by
  induction writes generalizing m with
  | nil => rfl
  | cons w writes ih =>
    rw [cellsOf, List.flatMap_cons, storeAll_append, storeAll_message, blits_cons]
    exact ih

theorem mem_cellsOf {c : ℕ × UInt8} (h : c ∈ cellsOf writes) :
    ∃ w ∈ writes, w.1 ≤ c.1 ∧ c.1 < w.1 + w.2.length := by
  obtain ⟨w, hw, hc⟩ := List.mem_flatMap.mp h
  obtain ⟨i, hi, rfl⟩ := List.mem_mapIdx.mp hc
  exact ⟨w, hw, Nat.le_add_right _ _, Nat.add_lt_add_left hi _⟩

end Cells

/-! ### Block functions in the chain -/

/-- The block function as the chain takes it. -/
def Block.toBlockFun (fn : Block) : BlockFun ℕ ℕ UInt8 where
  nextIn := fn.nextIn
  nextOut := fn.nextOut
  stores p q := cellsOf (fn.stores p q)

/-- It writes between its output pointer and the next. -/
structure Block.Tidy (fn : Block) : Prop where
  le_nextOut : ∀ p q, q ≤ fn.nextOut p q
  inside : ∀ p q, ∀ w ∈ fn.stores p q, q ≤ w.1 ∧ w.1 + w.2.length ≤ fn.nextOut p q

section Serial

variable (fn : Block) (s : WrapState) (k : ℕ)

/-- The serial loop of the chain is the loop of the wrapper. -/
theorem iterate_callBlock :
    ((callBlock fn)^[k] s).inPtr = fn.toBlockFun.inAt s.inPtr k ∧
      ((callBlock fn)^[k] s).outPtr = fn.toBlockFun.outAt s.inPtr s.outPtr k ∧
      ((callBlock fn)^[k] s).mem = fn.toBlockFun.serial s.inPtr s.outPtr s.mem k := by
  induction k with
  | zero => exact ⟨rfl, rfl, rfl⟩
  | succ k ih =>
    obtain ⟨hin, hout, hmem⟩ := ih
    rw [Function.iterate_succ_apply']
    refine ⟨?_, ?_, ?_⟩
    · rw [BlockFun.inAt, ← hin]
      rfl
    · rw [BlockFun.outAt, ← hin, ← hout]
      rfl
    · rw [BlockFun.serial, ← hmem, BlockFun.cellsAt, ← hin, ← hout]
      exact storeAll_cellsOf.symm

/-- The counts of the first blocks. -/
def counts (fn : Block) (s : WrapState) (blocks : ℕ) : List ℤ :=
  (List.range blocks).map fun k => fn.count (fn.toBlockFun.inAt s.inPtr k)

theorem iterate_callBlock_cumCount :
    ((callBlock fn)^[k] s).cumCount = s.cumCount + (counts fn s k).sum := by
  induction k with
  | zero => exact (Int.add_zero _).symm
  | succ k ih =>
    rw [Function.iterate_succ_apply', callBlock, ih, (iterate_callBlock fn s k).1, counts, counts,
      List.range_succ, List.map_append, List.sum_append, List.map_singleton, List.sum_singleton,
      Int.add_assoc]

/-- What the variable of the error can hold, when all blocks store to it in any order. -/
def ErrorOf (counts : List ℤ) (err : ℤ) : Prop :=
  (err = 0 ∧ ∀ c ∈ counts, 0 ≤ c) ∨ (err < 0 ∧ err ∈ counts)

variable {fn s k} {j : ℕ}

theorem iterate_callBlock_err (herr : s.err = 0) :
    ErrorOf (counts fn s k) ((callBlock fn)^[k] s).err := by
  induction k with
  | zero => exact .inl ⟨herr, fun c hc => by cases hc⟩
  | succ k ih =>
    have hcounts : counts fn s (k + 1)
        = counts fn s k ++ [fn.count ((callBlock fn)^[k] s).inPtr] := by
      rw [counts, counts, List.range_succ, List.map_append, List.map_singleton,
        (iterate_callBlock fn s k).1]
    rw [Function.iterate_succ_apply', hcounts]
    change ErrorOf _ (if fn.count _ < 0 then _ else _)
    split
    case isTrue hneg =>
      exact .inr ⟨hneg, List.mem_append_right _ (List.mem_singleton_self _)⟩
    case isFalse hpos =>
      refine ih.imp (fun h => ⟨h.1, fun c hc => ?_⟩) fun h => ⟨h.1, List.mem_append_left _ h.2⟩
      rcases List.mem_append.mp hc with hc | hc
      · exact h.2 c hc
      · rw [List.mem_singleton.mp hc]
        exact Int.not_lt.mp hpos

/-- Whether there was an error does not depend on the order. -/
theorem ErrorOf.eq_or_neg {l : List ℤ} {err err' : ℤ} (h : ErrorOf l err) (h' : ErrorOf l err') :
    err = err' ∨ (err < 0 ∧ err' < 0) := by
  rcases h with ⟨rfl, hall⟩ | ⟨hneg, hmem⟩ <;> rcases h' with ⟨rfl, hall'⟩ | ⟨hneg', hmem'⟩
  · exact .inl rfl
  · exact absurd (hall _ hmem') (Int.not_le.mpr hneg')
  · exact absurd (hall' _ hmem) (Int.not_le.mpr hneg)
  · exact .inr ⟨hneg, hneg'⟩

theorem Block.Tidy.outAt_mono (h : fn.Tidy) {p q : ℕ} (hjk : j ≤ k) :
    fn.toBlockFun.outAt p q j ≤ fn.toBlockFun.outAt p q k := by
  induction hjk with
  | refl => exact le_rfl
  | step _ ih => exact ih.trans (h.le_nextOut _ _)

/-- The cells of a block lie between its output pointer and the next. -/
theorem Block.Tidy.mem_cellsAt (h : fn.Tidy) {p q : ℕ} {c : ℕ × UInt8}
    (hc : c ∈ fn.toBlockFun.cellsAt p q k) :
    fn.toBlockFun.outAt p q k ≤ c.1 ∧ c.1 < fn.toBlockFun.outAt p q (k + 1) := by
  obtain ⟨w, hw, hle, hlt⟩ := mem_cellsOf hc
  obtain ⟨hle', hlt'⟩ := h.inside _ _ w hw
  exact ⟨hle'.trans hle, hlt.trans_le hlt'⟩

/-- **The blocks of a tidy function do not overlap.** -/
theorem Block.Tidy.apart (h : fn.Tidy) (p q blocks : ℕ) : fn.toBlockFun.Apart p q blocks := by
  intro j _ k _ hne c hc c' hc' heq
  obtain ⟨hle, hlt⟩ := h.mem_cellsAt hc
  obtain ⟨hle', hlt'⟩ := h.mem_cellsAt hc'
  rcases Nat.lt_or_ge j k with hjk | hkj
  · have := h.outAt_mono (p := p) (q := q) (j := j + 1) hjk
    omega
  · have := h.outAt_mono (p := p) (q := q) (j := k + 1) (lt_of_le_of_ne hkj hne.symm)
    omega

end Serial

/-! ### The four block functions -/

section Functions

variable (lz4 : Lz4) (junk inp : Bytes) (elemSize size : ℕ)

theorem tidy_compressLz4Block : (compressLz4Block lz4 junk inp elemSize size).Tidy where
  le_nextOut p q := by
    simp only [compressLz4Block]
    split <;> omega
  inside p q w hw := by
    simp only [compressLz4Block] at hw ⊢
    split at hw
    case h_1 => cases hw
    case h_2 tmpBufLz4 _ =>
      rcases List.mem_cons.mp hw with rfl | hw
      · rw [length_writeUint32BE]
        omega
      · obtain rfl := List.mem_singleton.mp hw
        exact ⟨Nat.le_add_right q 4, (Nat.add_right_comm q 4 _).le⟩

theorem tidy_decompressLz4Block : (decompressLz4Block lz4 junk inp elemSize size).Tidy where
  le_nextOut _ q := Nat.le_add_right q _
  inside p q w hw := by
    simp only [decompressLz4Block] at hw ⊢
    split at hw
    case h_1 => cases hw
    case h_2 => rw [List.mem_singleton.mp hw, length_slice]; omega

theorem tidy_shuffledBlock (shuffle : Bytes → Bytes → ℕ → ℕ → Outcome) :
    (shuffledBlock junk inp elemSize size shuffle).Tidy where
  le_nextOut _ q := Nat.le_add_right q _
  inside p q w hw := by
    simp only [shuffledBlock] at hw ⊢
    split at hw
    case h_1 => cases hw
    case h_2 => rw [List.mem_singleton.mp hw, length_slice]; omega

/-- The functions the wrapper is called with. -/
def blockFunctions : List (ℕ → Block) :=
  [compressLz4Block lz4 junk inp elemSize, decompressLz4Block lz4 junk inp elemSize,
    bitshuffleBlock junk inp elemSize, bitunshuffleBlock junk inp elemSize]

variable {lz4 junk inp elemSize} in
theorem tidy_of_mem {fn : ℕ → Block} (h : fn ∈ blockFunctions lz4 junk inp elemSize) :
    (fn size).Tidy := by
  simp only [blockFunctions, List.mem_cons, List.not_mem_nil, or_false] at h
  rcases h with rfl | rfl | rfl | rfl
  · exact tidy_compressLz4Block lz4 junk inp elemSize size
  · exact tidy_decompressLz4Block lz4 junk inp elemSize size
  · exact tidy_shuffledBlock junk inp elemSize size _
  · exact tidy_shuffledBlock junk inp elemSize size _

end Functions

/-! ### The wrapper -/

/-- The number of places in the rings. -/
def iocSize : ℕ := 33

section Wrapper

variable {τ : Type*} {lz4 : Lz4} {junk inp out : Bytes} {fn : ℕ → Block} {ins outs : ℕ → ℕ}
  {size elemSize blockSize : ℕ}

/-- What the wrapper returns when the threads are done with the loop, where `err` is in the variable
of the error. The counts of all blocks have been added up. -/
def afterThreads (fn : ℕ → Block) (inp out : Bytes) (size elemSize blockSize : ℕ) (err : ℤ)
    (s : Chain τ ℕ ℕ UInt8) : Except ℤ (ℤ × Bytes) :=
  let blocks := size / blockSize
  afterLoop fn inp size elemSize blockSize
    { inPtr := s.inPtr (blocks % iocSize)
      outPtr := s.outPtr (blocks % iocSize)
      err := err
      cumCount := (counts (fn blockSize) ⟨0, 0, 0, 0, out⟩ blocks).sum
      mem := s.mem }

/-- After an error of the loop the wrapper fails, with the error of some block. -/
theorem afterLoop_of_err {s : WrapState} (herr : s.err < 0) :
    (afterLoop fn inp size elemSize blockSize s).toOption = none := by
  have hlast : (if lastBlockSize size blockSize ≠ 0 then
      callBlock (fn (lastBlockSize size blockSize)) s else s).err < 0 := by
    split
    · change (if Block.count _ _ < 0 then _ else _) < _
      split <;> assumption
    · exact herr
  rw [afterLoop, if_pos hlast]
  rfl

/-- **Any number of threads compress as one does**, and so for the other functions: the loop comes
to an end whatever the order in which the threads go on, and then the wrapper returns what the
serial one returns, or an error if that returns an error. -/
theorem inevitable_blockedWrapFun [DecidableEq τ] [Fintype τ] [Nonempty τ]
    (hfn : fn ∈ blockFunctions lz4 junk inp elemSize)
    (hblock : Allowed elemSize blockSize) (hins : ins 0 = 0) (houts : outs 0 = 0) :
    Inevitable
      (Steps.guarded (Chain.step (τ := τ) (fn (blockElems elemSize blockSize)).toBlockFun iocSize
        (size / blockElems elemSize blockSize)))
      (fun s => s.Done (size / blockElems elemSize blockSize) ∧
        ∀ err, ErrorOf (counts (fn (blockElems elemSize blockSize)) ⟨0, 0, 0, 0, out⟩
            (size / blockElems elemSize blockSize)) err →
          (afterThreads fn inp out size elemSize (blockElems elemSize blockSize) err s).toOption
            = (blockedWrapFun fn inp out size elemSize blockSize).toOption)
      (Chain.init ins outs out) := by
  have hapart := (tidy_of_mem (blockElems elemSize blockSize) hfn).apart (ins 0) (outs 0)
    (size / blockElems elemSize blockSize)
  have hserial : Inevitable
      (Steps.guarded (Chain.step (τ := τ) (fn (blockElems elemSize blockSize)).toBlockFun iocSize
        (size / blockElems elemSize blockSize)))
      (Chain.DoneSerially (fn (blockElems elemSize blockSize)).toBlockFun (ins 0) (outs 0) out
        iocSize (size / blockElems elemSize blockSize))
      (Chain.init ins outs out) := inevitable_serial (by decide) hapart
  rw [hins, houts] at hserial
  refine hserial.mono fun s hs => ⟨hs.done, fun err herr => ?_⟩
  rw [blockedWrapFun, if_neg (not_not.mpr hblock.mult)]
  obtain ⟨hin, hout, hmem⟩ := iterate_callBlock (fn (blockElems elemSize blockSize))
    ⟨0, 0, 0, 0, out⟩ (size / blockElems elemSize blockSize)
  rcases herr.eq_or_neg (iterate_callBlock_err rfl) with heq | ⟨hneg, hneg'⟩
  · refine congrArg (fun s => (afterLoop fn inp size elemSize _ s).toOption) ?_
    refine WrapState.ext (hs.inPtr.trans hin.symm) (hs.outPtr.trans hout.symm) heq ?_
      (hs.mem.trans hmem.symm)
    exact ((iterate_callBlock_cumCount _ _ _).trans (Int.zero_add _)).symm
  · rw [afterLoop_of_err hneg']
    exact afterLoop_of_err hneg

theorem inevitable_blockedWrapFun_bytes :
    let inp : Bytes := UInt8.ofNat
    Inevitable
      (Steps.guarded (Chain.step (τ := Fin 2)
        (compressLz4Block literalLz4 inp inp 2 (blockElems 2 8)).toBlockFun iocSize
        (21 / blockElems 2 8)))
      (fun s => s.Done (21 / blockElems 2 8) ∧
        ∀ err, ErrorOf (counts (compressLz4Block literalLz4 inp inp 2 (blockElems 2 8))
            ⟨0, 0, 0, 0, inp⟩ (21 / blockElems 2 8)) err →
          (afterThreads (compressLz4Block literalLz4 inp inp 2) inp inp 21 2 (blockElems 2 8) err
              s).toOption
            = (blockedWrapFun (compressLz4Block literalLz4 inp inp 2) inp inp 21 2 8).toOption)
      (Chain.init (fun i => i) (fun i => i) inp) :=
  inevitable_blockedWrapFun List.mem_cons_self ⟨by decide, by decide⟩ rfl rfl

end Wrapper

end StdDaq.Bitshuffle
