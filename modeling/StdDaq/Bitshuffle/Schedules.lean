import Mathlib
import StdDaq.Bitshuffle.IoChain

/-!
# Blocks in any order of the threads

Whatever the order in which the threads go on, they do what one thread does that takes the blocks
one after the other: `BlockFun.serial`. The pointers a thread reads are the ones this thread would
have, and the cells of different blocks do not overlap, so it does not matter that a block is stored
while others are.

## Main results

* `Coherent.step` — what every step preserves
* `inevitable_serial` — every block gets done, however many threads there are, and then the memory
  and the pointers are those of the serial loop
-/

namespace StdDaq.Bitshuffle

variable {P Q α : Type*}

/-- Store cells one after the other. -/
def storeAll (m : ℕ → α) (cells : List (ℕ × α)) : ℕ → α :=
  cells.foldl (fun m c => Function.update m c.1 c.2) m

namespace BlockFun

variable (b : BlockFun P Q α) (in₀ : P) (out₀ : Q) (mem₀ : ℕ → α)

/-- The input pointer of the block `k`. -/
def inAt : ℕ → P
  | 0 => in₀
  | k + 1 => b.nextIn (inAt k)

/-- The output pointer of the block `k`. -/
def outAt : ℕ → Q
  | 0 => out₀
  | k + 1 => b.nextOut (b.inAt in₀ k) (outAt k)

/-- The cells of the block `k`. -/
def cellsAt (k : ℕ) : List (ℕ × α) := b.stores (b.inAt in₀ k) (b.outAt in₀ out₀ k)

/-- The memory after `blocks` blocks, one after the other. -/
def serial : ℕ → ℕ → α
  | 0 => mem₀
  | k + 1 => storeAll (serial k) (b.cellsAt in₀ out₀ k)

/-- Different blocks store different cells. -/
def Apart (blocks : ℕ) : Prop :=
  ∀ j < blocks, ∀ k < blocks, j ≠ k →
    ∀ c ∈ b.cellsAt in₀ out₀ j, ∀ c' ∈ b.cellsAt in₀ out₀ k, c.1 ≠ c'.1

end BlockFun

/-! ### Stores -/

section StoreAll

variable {m : ℕ → α} {l l₁ l₂ : List (ℕ × α)} {a : ℕ} {x : α}

theorem storeAll_append : storeAll m (l₁ ++ l₂) = storeAll (storeAll m l₁) l₂ := List.foldl_append

/-- The store of a cell that none of the others concerns may come first. -/
theorem storeAll_update (h : ∀ c ∈ l, a ≠ c.1) :
    storeAll (Function.update m a x) l = Function.update (storeAll m l) a x := by
  induction l generalizing m with
  | nil => rfl
  | cons c l ih =>
    rw [List.forall_mem_cons] at h
    change storeAll (Function.update (Function.update m a x) c.1 c.2) l = _
    rw [Function.update_comm h.1, ih h.2]
    rfl

/-- A number in a range, and the numbers around it. -/
theorem exists_range_split {k n : ℕ} (hk : k < n) :
    ∃ l₁ l₂, List.range n = l₁ ++ k :: l₂ ∧ k ∉ l₁ ∧ k ∉ l₂ := by
  obtain ⟨l₁, l₂, hsplit⟩ := List.append_of_mem (List.mem_range.mpr hk)
  have hnodup := List.nodup_range (n := n)
  rw [hsplit] at hnodup
  have hmiddle := List.nodup_middle.mp hnodup
  rw [List.nodup_cons, List.mem_append, not_or] at hmiddle
  exact ⟨l₁, l₂, hsplit, hmiddle.1.1, hmiddle.1.2⟩

/-- One more cell of the block `k`, when the blocks are stored up to what `done` says. -/
theorem storeAll_succ {blocks k : ℕ} {S : ℕ → List (ℕ × α)} {done : ℕ → ℕ} (hk : k < blocks)
    (happart : ∀ j < blocks, j ≠ k → ∀ c ∈ S j, a ≠ c.1) (hcell : (S k)[done k]? = some (a, x)) :
    storeAll m ((List.range blocks).flatMap fun j =>
        (S j).take (Function.update done k (done k + 1) j))
      = Function.update (storeAll m ((List.range blocks).flatMap fun j => (S j).take (done j)))
          a x := by
  obtain ⟨l₁, l₂, hsplit, hl₁, hl₂⟩ := exists_range_split hk
  have hothers (l : List ℕ) (hl : k ∉ l) :
      (l.flatMap fun j => (S j).take (Function.update done k (done k + 1) j))
        = l.flatMap fun j => (S j).take (done j) := by
    refine List.flatMap_congr fun j hj => ?_
    have hjk : j ≠ k := fun heq => hl (heq ▸ hj)
    rw [Function.update_of_ne hjk]
  have hlater : ∀ c ∈ l₂.flatMap fun j => (S j).take (done j), a ≠ c.1 := by
    intro c hc
    obtain ⟨j, hj, hc⟩ := List.mem_flatMap.mp hc
    have hjk : j ≠ k := fun heq => hl₂ (heq ▸ hj)
    have hjn : j < blocks := by
      rw [← List.mem_range, hsplit]
      exact List.mem_append_right _ (List.mem_cons_of_mem _ hj)
    exact happart j hjn hjk c (List.mem_of_mem_take hc)
  rw [hsplit, List.flatMap_append, List.flatMap_append, List.flatMap_cons, List.flatMap_cons,
    hothers l₁ hl₁, hothers l₂ hl₂, Function.update_self, List.take_add_one, hcell,
    Option.toList_some]
  simp only [storeAll_append]
  rw [← storeAll_update hlater]
  rfl

/-- All cells of all blocks. -/
theorem storeAll_all {blocks : ℕ} {S : ℕ → List (ℕ × α)} {done : ℕ → ℕ}
    (h : ∀ k < blocks, (S k).length ≤ done k) :
    ((List.range blocks).flatMap fun k => (S k).take (done k)) = (List.range blocks).flatMap S :=
  List.flatMap_congr fun k hk => List.take_of_length_le (h k (List.mem_range.mp hk))

theorem serial_eq (b : BlockFun P Q α) (in₀ : P) (out₀ : Q) (m : ℕ → α) (blocks : ℕ) :
    b.serial in₀ out₀ m blocks
      = storeAll m ((List.range blocks).flatMap (b.cellsAt in₀ out₀)) := by
  induction blocks with
  | zero => rfl
  | succ k ih =>
    rw [BlockFun.serial, ih, List.range_succ, List.flatMap_append, storeAll_append,
      List.flatMap_singleton]

end StoreAll

/-! ### What the threads know -/

section Coherent

variable (b : BlockFun P Q α) (in₀ : P) (out₀ : Q)

/-- The local variables of a thread, when the first `done k` cells of each block `k` are stored. -/
structure Local (done : ℕ → ℕ) (c : Worker P Q α) : Prop where
  inp : 6 ≤ c.phase.rank → c.inp = b.inAt in₀ c.thisIter
  out : 9 ≤ c.phase.rank → c.out = b.outAt in₀ out₀ c.thisIter
  fresh : c.phase.rank ≤ 10 → done c.thisIter = 0
  todo : c.phase.rank = 11 →
    c.todo = (b.cellsAt in₀ out₀ c.thisIter).drop (done c.thisIter)

section Phases

variable {b in₀ out₀} {done : ℕ → ℕ} {c : Worker P Q α}

/-- Nothing is known of the pointers before the input pointer has been read. -/
theorem Local.early (p : Phase) (hc : c.phase = p) (hle : p.rank ≤ 5)
    (hfresh : done c.thisIter = 0) : Local b in₀ out₀ done c := by
  rw [← hc] at hle
  exact ⟨fun h6 => by omega, fun h9 => by omega, fun _ => hfresh, fun h11 => by omega⟩

theorem Local.middle (p : Phase) (hc : c.phase = p) (hle : p.rank ≤ 8)
    (hinp : c.inp = b.inAt in₀ c.thisIter) (hfresh : done c.thisIter = 0) :
    Local b in₀ out₀ done c := by
  rw [← hc] at hle
  exact ⟨fun _ => hinp, fun h9 => by omega, fun _ => hfresh, fun h11 => by omega⟩

theorem Local.late (p : Phase) (hc : c.phase = p) (hle : p.rank ≤ 10)
    (hinp : c.inp = b.inAt in₀ c.thisIter) (hout : c.out = b.outAt in₀ out₀ c.thisIter)
    (hfresh : done c.thisIter = 0) : Local b in₀ out₀ done c := by
  rw [← hc] at hle
  exact ⟨fun _ => hinp, fun _ => hout, fun _ => hfresh, fun h11 => by omega⟩

end Phases

variable {τ : Type*} (mem₀ : ℕ → α) (ring blocks : ℕ)

/-- The chain after any steps: `w` input pointers and `v` output pointers have been set, and the
first `done k` cells of each block `k` are stored. -/
structure Coherent (s : Chain τ P Q α) (w v : ℕ) (done : ℕ → ℕ) : Prop where
  ordered : Ordered ring s.next s.ph s.it w v
  next_le : s.next ≤ blocks
  inPtr : s.inPtr (w % ring) = b.inAt in₀ w
  outPtr : s.outPtr (v % ring) = b.outAt in₀ out₀ v
  locals : ∀ t, 0 < s.ph t → Local b in₀ out₀ done (s.workers t)
  /-- Nothing of a block that has not begun is stored, -/
  later : ∀ k, s.next ≤ k → done k = 0
  /-- and all of a block that is no longer with a thread. -/
  finished : ∀ k < s.next, (∀ t, 0 < s.ph t → s.it t ≠ k) →
    (b.cellsAt in₀ out₀ k).length ≤ done k
  mem : s.mem = storeAll mem₀
    ((List.range blocks).flatMap fun k => (b.cellsAt in₀ out₀ k).take (done k))

end Coherent

section Steps

variable {b : BlockFun P Q α} {ins : ℕ → P} {outs : ℕ → Q} {mem₀ : ℕ → α} {ring blocks : ℕ}
variable {τ : Type*} {s s' : Chain τ P Q α} {t : τ} {c : Worker P Q α} {w v w' v' : ℕ}
variable {done : ℕ → ℕ}

theorem coherent_init :
    Coherent b (ins 0) (outs 0) mem₀ ring blocks (Chain.init (τ := τ) ins outs mem₀) 0 0
      fun _ => 0 where
  ordered := by
    constructor
    · exact fun t hpos => absurd hpos (Nat.lt_irrefl 0)
    · exact fun t t' hpos => absurd hpos (Nat.lt_irrefl 0)
    · exact fun j _ hj => absurd hj (Nat.not_lt_zero j)
    · exact le_rfl
    · exact le_rfl
    · exact fun t t' h3 => absurd (show 3 ≤ 0 from h3) (by decide)
  next_le := Nat.zero_le _
  inPtr := by
    rw [Nat.zero_mod]
    rfl
  outPtr := by
    rw [Nat.zero_mod]
    rfl
  locals t hpos := absurd hpos (Nat.lt_irrefl 0)
  later _ _ := rfl
  finished k hk := absurd hk (Nat.not_lt_zero k)
  mem := by
    rw [List.flatMap_eq_nil_iff.mpr fun k _ => List.take_zero]
    rfl

variable [DecidableEq τ]

/-- The phases after a thread has moved. -/
theorem ph_move (hworkers : s'.workers = Function.update s.workers t c) :
    s'.ph t = c.phase.rank ∧ ∀ t', t' ≠ t → s'.ph t' = s.ph t' := by
  refine ⟨?_, fun t' ht' => ?_⟩
  · rw [Chain.ph, hworkers, Function.update_self]
  · rw [Chain.ph, hworkers, Function.update_of_ne ht', Chain.ph]

/-- The numbers after a thread has moved. -/
theorem it_move (hworkers : s'.workers = Function.update s.workers t c) :
    s'.it t = c.thisIter ∧ ∀ t', t' ≠ t → s'.it t' = s.it t' := by
  refine ⟨?_, fun t' ht' => ?_⟩
  · rw [Chain.it, hworkers, Function.update_self]
  · rw [Chain.it, hworkers, Function.update_of_ne ht', Chain.it]

theorem it_eq (hworkers : s'.workers = Function.update s.workers t c)
    (hiter : c.thisIter = s.it t) : s'.it = s.it := by
  funext t'
  by_cases heq : t' = t
  · rw [heq, (it_move hworkers).1, hiter]
  · rw [(it_move hworkers).2 t' heq]

/-- A step to the next phase of a block, that stores nothing. -/
theorem Coherent.up (h : Coherent b (ins 0) (outs 0) mem₀ ring blocks s w v done)
    (hworkers : s'.workers = Function.update s.workers t c) (hnext : s'.next = s.next)
    (hmem : s'.mem = s.mem) (hrank : c.phase.rank = s.ph t + 1) (hiter : c.thisIter = s.it t)
    (hordered : Ordered ring s.next s'.ph s.it w' v')
    (hlocal : Local b (ins 0) (outs 0) done c)
    (hin : s'.inPtr (w' % ring) = b.inAt (ins 0) w')
    (hout : s'.outPtr (v' % ring) = b.outAt (ins 0) (outs 0) v') :
    Coherent b (ins 0) (outs 0) mem₀ ring blocks s' w' v' done where
  ordered := by rwa [hnext, it_eq hworkers hiter]
  next_le := hnext ▸ h.next_le
  inPtr := hin
  outPtr := hout
  locals t' hpos' := by
    by_cases heq : t' = t
    · rwa [heq, hworkers, Function.update_self]
    · rw [(ph_move hworkers).2 t' heq] at hpos'
      rw [hworkers, Function.update_of_ne heq]
      exact h.locals t' hpos'
  later k hk := h.later k (hnext ▸ hk)
  finished k hk hnone := by
    refine h.finished k (hnext ▸ hk) fun t' hpos' => ?_
    rw [← it_eq hworkers hiter]
    refine hnone t' (Ordered.is_pos ?_ (ph_move hworkers).2 hpos')
    rw [(ph_move hworkers).1, hrank]
  mem := hmem.trans h.mem

/-- A step to the next phase that sets no pointer either. -/
theorem Coherent.quiet (h : Coherent b (ins 0) (outs 0) mem₀ ring blocks s w v done)
    (hs' : s' = s.move t c) (hpos : 0 < s.ph t) (hle : s.ph t ≤ 10) (h6 : s.ph t ≠ 6)
    (h9 : s.ph t ≠ 9) (hrank : c.phase.rank = s.ph t + 1) (hiter : c.thisIter = s.it t)
    (hturn : s.ph t = 1 → s.it t = w)
    (hroom : s.ph t = 2 → ∀ t', 0 < s.ph t' → s.ph t' ≤ 10 → w + 1 < s.it t' + ring)
    (hturn' : s.ph t = 7 → s.it t = v) (hlocal : Local b (ins 0) (outs 0) done c) :
    Coherent b (ins 0) (outs 0) mem₀ ring blocks s' w v done := by
  subst hs'
  have hworkers : (s.move t c).workers = Function.update s.workers t c := rfl
  have hph := ph_move hworkers
  refine h.up hworkers rfl rfl hrank hiter ?_ hlocal h.inPtr h.outPtr
  exact h.ordered.next_phase hpos hle h6 h9 hturn hroom hturn' (hph.1.trans hrank) hph.2

/-- A thread sets the next input pointer. -/
theorem Coherent.set_in (h : Coherent b (ins 0) (outs 0) mem₀ ring blocks s w v done)
    (ht : s.ph t = 6) (hworkers : s'.workers = Function.update s.workers t c)
    (hnext : s'.next = s.next) (hmem : s'.mem = s.mem) (hrank : c.phase.rank = 7)
    (hiter : c.thisIter = s.it t) (hlocal : Local b (ins 0) (outs 0) done c)
    (hin : s'.inPtr = Function.update s.inPtr ((s.it t + 1) % ring) (b.inAt (ins 0) (s.it t + 1)))
    (hout : s'.outPtr = s.outPtr) :
    Coherent b (ins 0) (outs 0) mem₀ ring blocks s' (w + 1) v done := by
  have hph := ph_move hworkers
  have hturn : s.it t = w := (h.ordered.inPlace t (by omega)).inTurn (by omega) (by omega)
  refine h.up hworkers hnext hmem (by rw [hrank, ht]) hiter
    (h.ordered.set_in ht (hph.1.trans hrank) hph.2) hlocal ?_ (hout ▸ h.outPtr)
  rw [hin, hturn, Function.update_self]

/-- A thread sets the next output pointer. -/
theorem Coherent.set_out (h : Coherent b (ins 0) (outs 0) mem₀ ring blocks s w v done)
    (ht : s.ph t = 9) (hworkers : s'.workers = Function.update s.workers t c)
    (hnext : s'.next = s.next) (hmem : s'.mem = s.mem) (hrank : c.phase.rank = 10)
    (hiter : c.thisIter = s.it t) (hlocal : Local b (ins 0) (outs 0) done c)
    (hin : s'.inPtr = s.inPtr)
    (hout : s'.outPtr
      = Function.update s.outPtr ((s.it t + 1) % ring) (b.outAt (ins 0) (outs 0) (s.it t + 1))) :
    Coherent b (ins 0) (outs 0) mem₀ ring blocks s' w (v + 1) done := by
  have hph := ph_move hworkers
  have hturn : s.it t = v := (h.ordered.inPlace t (by omega)).outTurn (by omega) (by omega)
  refine h.up hworkers hnext hmem (by rw [hrank, ht]) hiter
    (h.ordered.set_out ht (hph.1.trans hrank) hph.2) hlocal (hin ▸ h.inPtr) ?_
  rw [hout, hturn, Function.update_self]

/-- A thread takes a number. -/
theorem Coherent.enter (h : Coherent b (ins 0) (outs 0) mem₀ ring blocks s w v done)
    (hring : 0 < ring) (hidle : s.ph t = 0) (hopen : s.next < blocks)
    (hfree : ∀ t', ¬ HoldsNext (s.ph t'))
    (hworkers : s'.workers = Function.update s.workers t c) (hnext : s'.next = s.next + 1)
    (hin : s'.inPtr = s.inPtr) (hout : s'.outPtr = s.outPtr) (hmem : s'.mem = s.mem)
    (hrank : c.phase.rank = 1) (hiter : c.thisIter = s.next) :
    Coherent b (ins 0) (outs 0) mem₀ ring blocks s' w v done := by
  have hph := ph_move hworkers
  have hit := it_move hworkers
  rw [hrank] at hph
  rw [hiter] at hit
  constructor
  · rw [hnext]
    exact h.ordered.enter hring hfree hidle hph.1 hit.1 fun t' ht' => ⟨hph.2 t' ht', hit.2 t' ht'⟩
  · exact hnext ▸ hopen
  · exact hin ▸ h.inPtr
  · exact hout ▸ h.outPtr
  · intro t' hpos
    by_cases heq : t' = t
    · rw [heq, hworkers, Function.update_self]
      refine ⟨fun h6 => ?_, fun h9 => ?_, fun _ => ?_, fun h11 => ?_⟩
      · omega
      · omega
      · rw [hiter]
        exact h.later _ le_rfl
      · omega
    · rw [hph.2 t' heq] at hpos
      rw [hworkers, Function.update_of_ne heq]
      exact h.locals t' hpos
  · intro k hk
    rw [hnext] at hk
    exact h.later k (Nat.le_of_succ_le hk)
  · intro k hk hnone
    rw [hnext] at hk
    rcases Nat.lt_succ_iff_lt_or_eq.mp hk with hlt | rfl
    · refine h.finished k hlt fun t' hpos hk' => ?_
      have heq : t' ≠ t := fun heq => by
        rw [heq, hidle] at hpos
        exact Nat.lt_irrefl 0 hpos
      exact hnone t' (by rwa [hph.2 t' heq]) ((hit.2 t' heq).trans hk')
    · exact absurd hit.1 (hnone t (by rw [hph.1]; exact Nat.one_pos))
  · exact hmem.trans h.mem

/-- A thread stores a cell. -/
theorem Coherent.store (h : Coherent b (ins 0) (outs 0) mem₀ ring blocks s w v done)
    (hapart : b.Apart (ins 0) (outs 0) blocks) (hstoring : s.ph t = 11) {a : ℕ} {x : α}
    {rest : List (ℕ × α)} (htodo : (s.workers t).todo = (a, x) :: rest)
    (hworkers : s'.workers
      = Function.update s.workers t { s.workers t with phase := .storing, todo := rest })
    (hnext : s'.next = s.next) (hin : s'.inPtr = s.inPtr) (hout : s'.outPtr = s.outPtr)
    (hmem : s'.mem = Function.update s.mem a x) :
    Coherent b (ins 0) (outs 0) mem₀ ring blocks s' w v
      (Function.update done (s.it t) (done (s.it t) + 1)) := by
  have hph : s'.ph = s.ph := by
    funext t'
    by_cases heq : t' = t
    · rw [heq, (ph_move hworkers).1, hstoring]
      rfl
    · exact (ph_move hworkers).2 t' heq
  have hit : s'.it = s.it := it_eq hworkers rfl
  have hpos : 0 < s.ph t := by omega
  have hlt := (h.ordered.inPlace t hpos).lt_next
  have hlocal := h.locals t hpos
  have hdrop := hlocal.todo hstoring
  rw [htodo] at hdrop
  have hcell : (b.cellsAt (ins 0) (outs 0) (s.it t))[done (s.it t)]? = some (a, x) := by
    have hfirst := congrArg (fun l => l[0]?) hdrop
    rw [List.getElem?_drop, Nat.add_zero] at hfirst
    exact hfirst.symm
  have hrest : rest = (b.cellsAt (ins 0) (outs 0) (s.it t)).drop (done (s.it t) + 1) := by
    have htail := congrArg List.tail hdrop
    rwa [List.tail_cons, List.tail_drop] at htail
  constructor
  · rw [hnext, hph, hit]
    exact h.ordered
  · exact hnext ▸ h.next_le
  · exact hin ▸ h.inPtr
  · exact hout ▸ h.outPtr
  · intro t' hpos'
    rw [hph] at hpos'
    by_cases heq : t' = t
    · rw [heq, hworkers, Function.update_self]
      refine ⟨fun _ => hlocal.inp ?_, fun _ => hlocal.out ?_, fun h10 => ?_, fun _ => ?_⟩
      · exact Nat.le_of_lt (Nat.lt_of_lt_of_eq (by decide) hstoring.symm)
      · exact Nat.le_of_lt (Nat.lt_of_lt_of_eq (by decide) hstoring.symm)
      · exact absurd (show 11 ≤ 10 from h10) (by decide)
      · rw [show (s.workers t).thisIter = s.it t from rfl, Function.update_self]
        exact hrest
    · have hk : (s.workers t').thisIter ≠ s.it t := fun hk =>
        heq (h.ordered.distinct t' t hpos' hpos hk)
      have hlocal' := h.locals t' hpos'
      rw [hworkers, Function.update_of_ne heq]
      refine ⟨hlocal'.inp, hlocal'.out, ?_, ?_⟩
      · rw [Function.update_of_ne hk]
        exact hlocal'.fresh
      · rw [Function.update_of_ne hk]
        exact hlocal'.todo
  · intro k hk
    rw [hnext] at hk
    rw [Function.update_of_ne (by omega)]
    exact h.later k hk
  · intro k hk hnone
    rw [hnext] at hk
    rw [hph, hit] at hnone
    have hkt : k ≠ s.it t := fun hkt => hnone t hpos hkt.symm
    rw [Function.update_of_ne hkt]
    exact h.finished k hk hnone
  · rw [hmem, h.mem]
    refine (storeAll_succ (hlt.trans_le h.next_le) (fun j hj hjk c hc => ?_) hcell).symm
    exact hapart _ (hlt.trans_le h.next_le) j hj (Ne.symm hjk) (a, x)
      (List.mem_of_getElem? hcell) c hc

/-- A thread is done with its block. -/
theorem Coherent.leave (h : Coherent b (ins 0) (outs 0) mem₀ ring blocks s w v done)
    (hstoring : s.ph t = 11) (htodo : (s.workers t).todo = [])
    (hworkers : s'.workers = Function.update s.workers t c) (hnext : s'.next = s.next)
    (hin : s'.inPtr = s.inPtr) (hout : s'.outPtr = s.outPtr) (hmem : s'.mem = s.mem)
    (hrank : c.phase.rank = 0) (hiter : c.thisIter = s.it t) :
    Coherent b (ins 0) (outs 0) mem₀ ring blocks s' w v done := by
  have hph := ph_move hworkers
  have hit : s'.it = s.it := it_eq hworkers hiter
  rw [hrank] at hph
  have hpos : 0 < s.ph t := by omega
  have hother {t' : τ} (hpos' : 0 < s'.ph t') : t' ≠ t := fun heq => by
    rw [heq, hph.1] at hpos'
    exact Nat.lt_irrefl 0 hpos'
  constructor
  · rw [hnext, hit]
    exact h.ordered.leave hstoring hph.1 hph.2
  · exact hnext ▸ h.next_le
  · exact hin ▸ h.inPtr
  · exact hout ▸ h.outPtr
  · intro t' hpos'
    have heq := hother hpos'
    rw [hph.2 t' heq] at hpos'
    rw [hworkers, Function.update_of_ne heq]
    exact h.locals t' hpos'
  · exact fun k hk => h.later k (hnext ▸ hk)
  · intro k hk hnone
    rw [hnext] at hk
    by_cases hkt : k = s.it t
    · -- the block of the thread, of which nothing is left to store
      have hdrop := (h.locals t hpos).todo hstoring
      rw [htodo] at hdrop
      subst hkt
      exact List.drop_eq_nil_iff.mp hdrop.symm
    · refine h.finished k hk fun t' hpos' hk' => ?_
      have heq : t' ≠ t := fun heq => hkt (by rw [← hk', heq])
      rw [hit] at hnone
      exact hnone t' (by rwa [hph.2 t' heq]) hk'
  · exact hmem.trans h.mem

variable [Fintype τ]

/-- A guarded step was possible, and led to the given state. -/
theorem of_guard {σ : Type*} {p : Prop} [Decidable p] {x y : σ}
    (h : (if p then some x else none) = some y) : p ∧ y = x := by
  split at h
  · exact ⟨‹p›, (Option.some.inj h).symm⟩
  · cases h

/-- A thread takes a lock or gives one back. -/
theorem Coherent.step_lock (h : Coherent b (ins 0) (outs 0) mem₀ ring blocks s w v done)
    (hphase : (s.workers t).phase ∈
      [Phase.gotNext, .gotIn, .gotNextIn, .gotNextOut, .setIn])
    (hstep : Chain.step b ring blocks s t = some s') :
    Coherent b (ins 0) (outs 0) mem₀ ring blocks s' w v done := by
  have hrank : s.ph t = (s.workers t).phase.rank := rfl
  simp only [List.mem_cons, List.not_mem_nil, or_false] at hphase
  rcases hphase with hphase | hphase | hphase | hphase | hphase
  all_goals
    simp only [Chain.step, hphase] at hstep
    rw [hphase, Phase.rank] at hrank
    have hpos : 0 < s.ph t := hrank ▸ Nat.succ_pos _
    obtain ⟨hinp, -, hfresh, -⟩ := h.locals t hpos
    rw [hphase, Phase.rank] at hinp hfresh
  · obtain ⟨hfree, rfl⟩ := of_guard hstep
    exact h.quiet rfl hpos (by omega) (by omega) (by omega) (by rw [hrank]; rfl) rfl
      (fun _ => h.ordered.in_turn hrank hfree) (by omega) (by omega)
      (.early .gotIn rfl (by decide) (hfresh (by decide)))
  · obtain ⟨hfree, rfl⟩ := of_guard hstep
    exact h.quiet rfl hpos (by omega) (by omega) (by omega) (by rw [hrank]; rfl) rfl
      (by omega) (fun _ => h.ordered.room hrank hfree) (by omega)
      (.early .gotNextIn rfl (by decide) (hfresh (by decide)))
  · obtain ⟨hfree, rfl⟩ := of_guard hstep
    exact h.quiet rfl hpos (by omega) (by omega) (by omega) (by rw [hrank]; rfl) rfl
      (by omega) (by omega) (by omega)
      (.early .gotNextOut rfl (by decide) (hfresh (by decide)))
  · exact h.quiet (Option.some.inj hstep).symm hpos (by omega) (by omega) (by omega)
      (by rw [hrank]; rfl) rfl (by omega) (by omega) (by omega)
      (.early .released rfl (by decide) (hfresh (by decide)))
  · obtain ⟨hfree, rfl⟩ := of_guard hstep
    exact h.quiet rfl hpos (by omega) (by omega) (by omega) (by rw [hrank]; rfl) rfl
      (by omega) (by omega) (fun _ => h.ordered.out_turn hrank hfree)
      (.middle .gotOut rfl (by decide) (hinp (by decide)) (hfresh (by decide)))

/-- A thread reads its pointers when it is its turn: they are the ones that were set last. -/
theorem Coherent.step_read (h : Coherent b (ins 0) (outs 0) mem₀ ring blocks s w v done)
    (hphase : (s.workers t).phase = .released ∨ (s.workers t).phase = .gotOut)
    (hstep : Chain.step b ring blocks s t = some s') :
    Coherent b (ins 0) (outs 0) mem₀ ring blocks s' w v done := by
  have hrank : s.ph t = (s.workers t).phase.rank := rfl
  rcases hphase with hphase | hphase
  all_goals
    simp only [Chain.step, hphase] at hstep
    rw [hphase, Phase.rank] at hrank
    have hpos : 0 < s.ph t := hrank ▸ Nat.succ_pos _
    have hself := h.ordered.inPlace t hpos
    obtain ⟨hinp, -, hfresh, -⟩ := h.locals t hpos
    rw [hphase, Phase.rank] at hinp hfresh
  · have hread : s.inPtr (s.it t % ring) = b.inAt (ins 0) (s.it t) := by
      rw [hself.inTurn (by omega) (by omega)]
      exact h.inPtr
    exact h.quiet (Option.some.inj hstep).symm hpos (by omega) (by omega) (by omega)
      (by rw [hrank]; rfl) rfl (by omega) (by omega) (by omega)
      (.middle .haveIn rfl (by decide) hread (hfresh (by decide)))
  · have hread : s.outPtr (s.it t % ring) = b.outAt (ins 0) (outs 0) (s.it t) := by
      rw [hself.outTurn (by omega) (by omega)]
      exact h.outPtr
    exact h.quiet (Option.some.inj hstep).symm hpos (by omega) (by omega) (by omega)
      (by rw [hrank]; rfl) rfl (by omega) (by omega) (by omega)
      (.late .haveOut rfl (by decide) (hinp (by decide)) hread (hfresh (by decide)))

/-- A thread sets the pointers for the next block. -/
theorem Coherent.step_set (h : Coherent b (ins 0) (outs 0) mem₀ ring blocks s w v done)
    (hphase : (s.workers t).phase = .haveIn ∨ (s.workers t).phase = .haveOut)
    (hstep : Chain.step b ring blocks s t = some s') :
    ∃ w' v', Coherent b (ins 0) (outs 0) mem₀ ring blocks s' w' v' done := by
  have hrank : s.ph t = (s.workers t).phase.rank := rfl
  rcases hphase with hphase | hphase
  all_goals
    simp only [Chain.step, hphase] at hstep
    rw [hphase, Phase.rank] at hrank
    have hpos : 0 < s.ph t := hrank ▸ Nat.succ_pos _
    obtain ⟨hinp, hout, hfresh, -⟩ := h.locals t hpos
    rw [hphase, Phase.rank] at hinp hout hfresh
    obtain rfl := Option.some.inj hstep
    have hinp := hinp (by decide)
  · exact ⟨w + 1, v, h.set_in hrank rfl rfl rfl rfl rfl
      (.middle .setIn rfl (by decide) hinp (hfresh (by decide))) (by rw [hinp]; rfl) rfl⟩
  · have hout := hout (by decide)
    exact ⟨w, v + 1, h.set_out hrank rfl rfl rfl rfl rfl
      (.late .setOut rfl (by decide) hinp hout (hfresh (by decide))) rfl
      (by rw [hinp, hout]; rfl)⟩

/-- A thread makes the result of its block, stores it cell by cell, and leaves. -/
theorem Coherent.step_result (h : Coherent b (ins 0) (outs 0) mem₀ ring blocks s w v done)
    (hapart : b.Apart (ins 0) (outs 0) blocks)
    (hphase : (s.workers t).phase = .setOut ∨ (s.workers t).phase = .storing)
    (hstep : Chain.step b ring blocks s t = some s') :
    ∃ done', Coherent b (ins 0) (outs 0) mem₀ ring blocks s' w v done' := by
  have hrank : s.ph t = (s.workers t).phase.rank := rfl
  rcases hphase with hphase | hphase
  all_goals
    simp only [Chain.step, hphase] at hstep
    rw [hphase, Phase.rank] at hrank
  · have hpos : 0 < s.ph t := hrank ▸ Nat.succ_pos _
    obtain ⟨hinp, hout, hfresh, -⟩ := h.locals t hpos
    rw [hphase, Phase.rank] at hinp hout hfresh
    have hinp := hinp (by decide)
    have hout := hout (by decide)
    refine ⟨done, h.quiet (Option.some.inj hstep).symm hpos (by omega) (by omega) (by omega)
      (by rw [hrank]; rfl) rfl (by omega) (by omega) (by omega)
      ⟨fun _ => hinp, fun _ => hout, fun h10 => ?_, fun _ => ?_⟩⟩
    · exact absurd (show 11 ≤ 10 from h10) (by decide)
    · change b.stores (s.workers t).inp (s.workers t).out = _
      rw [hfresh (by decide), List.drop_zero, hinp, hout]
      rfl
  · cases htodo : (s.workers t).todo with
    | nil =>
      rw [htodo] at hstep
      obtain rfl := Option.some.inj hstep
      exact ⟨done, h.leave hrank htodo rfl rfl rfl rfl rfl rfl rfl⟩
    | cons cell rest =>
      rw [htodo] at hstep
      obtain rfl := Option.some.inj hstep
      exact ⟨_, h.store hapart hrank htodo rfl rfl rfl rfl rfl⟩

/-- **What every step preserves**, whoever makes it. -/
theorem Coherent.step (h : Coherent b (ins 0) (outs 0) mem₀ ring blocks s w v done)
    (hring : 0 < ring) (hapart : b.Apart (ins 0) (outs 0) blocks)
    (hstep : Chain.step b ring blocks s t = some s') :
    ∃ w' v' done', Coherent b (ins 0) (outs 0) mem₀ ring blocks s' w' v' done' := by
  cases hphase : (s.workers t).phase with
  | idle =>
    have hrank : s.ph t = 0 := congrArg Phase.rank hphase
    simp only [Chain.step, hphase] at hstep
    obtain ⟨⟨hopen, hfree⟩, rfl⟩ := of_guard hstep
    exact ⟨w, v, done, h.enter hring hrank hopen hfree rfl rfl rfl rfl rfl rfl rfl⟩
  | gotNext | gotIn | gotNextIn | gotNextOut | setIn =>
    exact ⟨w, v, done, h.step_lock (by simp [hphase]) hstep⟩
  | released | gotOut => exact ⟨w, v, done, h.step_read (by simp [hphase]) hstep⟩
  | haveIn | haveOut =>
    obtain ⟨w', v', hset⟩ := h.step_set (by simp [hphase]) hstep
    exact ⟨w', v', done, hset⟩
  | setOut | storing =>
    obtain ⟨done', hresult⟩ := h.step_result hapart (by simp [hphase]) hstep
    exact ⟨w, v, done', hresult⟩

/-- All blocks are done. -/
def Chain.Done (s : Chain τ P Q α) (blocks : ℕ) : Prop :=
  s.next = blocks ∧ ∀ t, (s.workers t).phase = .idle

omit [DecidableEq τ] [Fintype τ] in
/-- The memory and the pointers when all blocks are done. -/
theorem Coherent.of_done (h : Coherent b (ins 0) (outs 0) mem₀ ring blocks s w v done)
    (hdone : s.Done blocks) :
    s.mem = b.serial (ins 0) (outs 0) mem₀ blocks ∧
      s.inPtr (blocks % ring) = b.inAt (ins 0) blocks ∧
      s.outPtr (blocks % ring) = b.outAt (ins 0) (outs 0) blocks := by
  obtain ⟨hall, hidle⟩ := hdone
  have hnone (t : τ) : ¬ 0 < s.ph t := by
    rw [Chain.ph, hidle t]
    decide
  -- every pointer has been set
  have hv : v = blocks := by
    have hvw := h.ordered.out_le_in
    have hwn := h.ordered.in_le_next
    by_contra hne
    obtain ⟨t, hpos, -⟩ := h.ordered.inFlight v le_rfl (by omega)
    exact hnone t hpos
  have hw : w = blocks := by
    have hvw := h.ordered.out_le_in
    have hwn := h.ordered.in_le_next
    omega
  subst hw
  refine ⟨?_, h.inPtr, ?_⟩
  · rw [h.mem, serial_eq, storeAll_all]
    intro k hk
    exact h.finished k (hall.symm ▸ hk) fun t hpos => absurd hpos (hnone t)
  · rw [← hv]
    exact hv ▸ h.outPtr

/-! ### Every block gets done -/

/-- The steps a thread has to make until it is done with its block. -/
def Worker.remaining (cells : ℕ → ℕ) (c : Worker P Q α) : ℕ :=
  match c.phase with
  | .idle => 0
  | .storing => 1 + c.todo.length
  | p => 12 - p.rank + cells c.thisIter

/-- The blocks that have not begun, and the steps left in those that have. -/
def Chain.rank (s : Chain τ P Q α) (cells : ℕ → ℕ) (blocks : ℕ) : ℕ ×ₗ ℕ :=
  toLex (blocks - s.next, ∑ t, (s.workers t).remaining cells)

theorem rank_lt_of_move {cells : ℕ → ℕ} (hnext : s'.next = s.next)
    (hworkers : s'.workers = Function.update s.workers t c)
    (hlt : c.remaining cells < (s.workers t).remaining cells) :
    s'.rank cells blocks < s.rank cells blocks := by
  rw [Chain.rank, Chain.rank, hnext, hworkers]
  refine Prod.Lex.right _ (Finset.sum_lt_sum (fun t' _ => ?_) ⟨t, Finset.mem_univ t, ?_⟩)
  · by_cases heq : t' = t
    · rw [heq, Function.update_self]
      exact hlt.le
    · rw [Function.update_of_ne heq]
  · rwa [Function.update_self]

/-- **Every step lowers the rank.** -/
theorem Coherent.rank_lt (h : Coherent b (ins 0) (outs 0) mem₀ ring blocks s w v done)
    (hstep : Chain.step b ring blocks s t = some s') :
    s'.rank (fun k => (b.cellsAt (ins 0) (outs 0) k).length) blocks
      < s.rank (fun k => (b.cellsAt (ins 0) (outs 0) k).length) blocks := by
  have hrank : s.ph t = (s.workers t).phase.rank := rfl
  cases hphase : (s.workers t).phase <;>
    simp only [Chain.step, hphase] at hstep <;> rw [hphase, Phase.rank] at hrank
  case idle =>
    obtain ⟨⟨hopen, -⟩, rfl⟩ := of_guard hstep
    have hlt : blocks - (s.next + 1) < blocks - s.next := by omega
    exact Prod.Lex.left _ _ hlt
  case gotNext | gotIn | gotNextIn | setIn =>
    obtain ⟨-, rfl⟩ := of_guard hstep
    refine rank_lt_of_move rfl rfl ?_
    simp only [Worker.remaining, hphase, Phase.rank]
    omega
  case gotNextOut | released | haveIn | gotOut | haveOut =>
    obtain rfl := Option.some.inj hstep
    refine rank_lt_of_move rfl rfl ?_
    simp only [Worker.remaining, hphase, Phase.rank]
    omega
  case setOut =>
    obtain rfl := Option.some.inj hstep
    obtain ⟨hinp, hout, -, -⟩ := h.locals t (by omega)
    rw [hphase, Phase.rank] at hinp hout
    refine rank_lt_of_move rfl rfl ?_
    simp only [Worker.remaining, hphase, Phase.rank]
    rw [hinp (by decide), hout (by decide)]
    change 1 + (b.cellsAt (ins 0) (outs 0) (s.workers t).thisIter).length < _
    omega
  case storing =>
    cases htodo : (s.workers t).todo with
    | nil =>
      rw [htodo] at hstep
      obtain rfl := Option.some.inj hstep
      refine rank_lt_of_move rfl rfl ?_
      simp only [Worker.remaining, hphase]
      omega
    | cons cell rest =>
      rw [htodo] at hstep
      obtain rfl := Option.some.inj hstep
      refine rank_lt_of_move rfl rfl ?_
      simp only [Worker.remaining, hphase, htodo, List.length_cons]
      omega

/-- **No deadlock**: while there is a block to do some thread can go on. -/
theorem Coherent.enabled [Nonempty τ]
    (h : Coherent b (ins 0) (outs 0) mem₀ ring blocks s w v done) (hring : 2 ≤ ring)
    (hopen : ¬ s.Done blocks) : ∃ t s', Chain.step b ring blocks s t = some s' := by
  by_cases hsome : ∃ t, 0 < s.ph t
  · obtain ⟨t₀, ht₀⟩ := hsome
    obtain ⟨t, hpos, hin, hroom, hroom', hout⟩ := h.ordered.exists_ready hring ht₀
    have hrank : s.ph t = (s.workers t).phase.rank := rfl
    cases hphase : (s.workers t).phase <;> rw [hphase, Phase.rank] at hrank
    case idle => exact absurd hpos (by omega)
    case gotNext => exact ⟨t, _, by simp only [Chain.step, hphase]; exact if_pos (hin hrank)⟩
    case gotIn => exact ⟨t, _, by simp only [Chain.step, hphase]; exact if_pos (hroom hrank)⟩
    case gotNextIn => exact ⟨t, _, by simp only [Chain.step, hphase]; exact if_pos (hroom' hrank)⟩
    case setIn => exact ⟨t, _, by simp only [Chain.step, hphase]; exact if_pos (hout hrank)⟩
    case gotNextOut | released | haveIn | gotOut | haveOut | setOut =>
      exact ⟨t, _, by simp only [Chain.step, hphase]; rfl⟩
    case storing =>
      cases htodo : (s.workers t).todo with
      | nil => exact ⟨t, _, by simp only [Chain.step, hphase, htodo]; rfl⟩
      | cons cell rest => exact ⟨t, _, by simp only [Chain.step, hphase, htodo]; rfl⟩
  · -- all threads are idle, and any of them can begin
    obtain ⟨t⟩ := ‹Nonempty τ›
    have hzero (t' : τ) : s.ph t' = 0 := Nat.eq_zero_of_not_pos fun hpos => hsome ⟨t', hpos⟩
    have hidle (t' : τ) : (s.workers t').phase = .idle := by
      have hrank : (s.workers t').phase.rank = 0 := hzero t'
      cases hphase : (s.workers t').phase <;> rw [hphase, Phase.rank] at hrank <;> first
        | rfl
        | cases hrank
    have hlt : s.next < blocks := lt_of_le_of_ne h.next_le fun heq => hopen ⟨heq, hidle⟩
    have hfree : ∀ t', ¬ HoldsNext (s.ph t') := fun t' hholds => by
      rw [hzero t'] at hholds
      exact absurd hholds.1 (by decide)
    exact ⟨t, _, by simp only [Chain.step, hidle t]; exact if_pos ⟨hlt, hfree⟩⟩

/-- All blocks are done, with the memory and the pointers of the serial loop. -/
structure Chain.DoneSerially (b : BlockFun P Q α) (in₀ : P) (out₀ : Q) (mem₀ : ℕ → α)
    (ring blocks : ℕ) (s : Chain τ P Q α) : Prop where
  done : s.Done blocks
  mem : s.mem = b.serial in₀ out₀ mem₀ blocks
  inPtr : s.inPtr (blocks % ring) = b.inAt in₀ blocks
  outPtr : s.outPtr (blocks % ring) = b.outAt in₀ out₀ blocks

/-- **Every block gets done, and as by one thread.** With rings of two places or more and any number
of threads, the chain comes to an end whatever the order in which the threads go on, and then the
memory and the pointers are those of the serial loop. -/
theorem inevitable_serial [Nonempty τ] (hring : 2 ≤ ring)
    (hapart : b.Apart (ins 0) (outs 0) blocks) :
    Inevitable (Steps.guarded (Chain.step (τ := τ) b ring blocks))
      (Chain.DoneSerially b (ins 0) (outs 0) mem₀ ring blocks) (Chain.init ins outs mem₀) := by
  have hpos : 0 < ring := Nat.lt_of_lt_of_le (by decide) hring
  have hgoal (s : Chain τ P Q α)
      (h : ∃ w v done, Coherent b (ins 0) (outs 0) mem₀ ring blocks s w v done)
      (hdone : s.Done blocks) : s.DoneSerially b (ins 0) (outs 0) mem₀ ring blocks := by
    obtain ⟨w, v, done, h⟩ := h
    obtain ⟨hmem, hin, hout⟩ := h.of_done hdone
    exact ⟨hdone, hmem, hin, hout⟩
  have hinit : ∃ w v done, Coherent b (ins 0) (outs 0) mem₀ ring blocks
      (Chain.init (τ := τ) ins outs mem₀) w v done := ⟨0, 0, _, coherent_init⟩
  by_cases hdone : (Chain.init (τ := τ) ins outs mem₀).Done blocks
  · exact .now (hgoal _ hinit hdone)
  · refine Inevitable.of_rank
      (P := fun s => (∃ w v done, Coherent b (ins 0) (outs 0) mem₀ ring blocks s w v done) ∧
        ¬ s.Done blocks)
      (fun s => s.rank (fun k => (b.cellsAt (ins 0) (outs 0) k).length) blocks)
      (fun s t s' hs hstep => ?_) (fun s hs => ?_) ⟨hinit, hdone⟩
    · obtain ⟨⟨w, v, done, h⟩, -⟩ := hs
      have h' := h.step hpos hapart hstep
      by_cases hdone' : s'.Done blocks
      · exact .inl (hgoal s' h' hdone')
      · exact .inr ⟨⟨h', hdone'⟩, h.rank_lt hstep⟩
    · obtain ⟨⟨w, v, done, h⟩, hopen⟩ := hs
      exact h.enabled hring hopen

end Steps

end StdDaq.Bitshuffle
