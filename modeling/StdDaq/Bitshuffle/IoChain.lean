import Mathlib
import StdDaq.Lib.Inevitable

/-!
# The chain of blocks

Several threads compress the blocks of an image at once, and yet the blocks stand one behind the
other in the output: where a block begins is known only when the block before it has been
compressed. The threads hand each other the places through a ring of input pointers and one of
output pointers, each with a lock, and a lock for the counter that numbers the blocks.

A thread goes through the phases of a block in the order of `Phase`. Its steps are the calls that
take a lock and what is done between two such calls. A lock is not a variable of its own: who holds
it follows from the phases.

The block itself is a parameter: how far it moves the two pointers and which cells it stores. What
it stores it stores at the end, cell by cell, while other threads go on.

## Main definitions

* `Chain.step` — one step of one thread
* `Ordered` — which phases the threads can be in together, whatever the size of the ring
-/

namespace StdDaq.Bitshuffle

/-- Where a thread is in the processing of a block. -/
inductive Phase where
  /-- Between two blocks. -/
  | idle
  /-- It holds the lock of the counter and has taken its number. -/
  | gotNext
  /-- It holds the lock of its input pointer as well, -/
  | gotIn
  /-- that of the next input pointer, -/
  | gotNextIn
  /-- and that of the next output pointer. -/
  | gotNextOut
  /-- It has released the lock of the counter. -/
  | released
  /-- It has read its input pointer. -/
  | haveIn
  /-- It has set the next input pointer and released its lock. -/
  | setIn
  /-- It holds the lock of its output pointer. -/
  | gotOut
  /-- It has read its output pointer and released the lock. -/
  | haveOut
  /-- It has set the next output pointer and released its lock. -/
  | setOut
  /-- It has released the lock of its input pointer and stores its block. -/
  | storing
  deriving DecidableEq, Repr

/-- The place of a phase in the order of the phases. -/
def Phase.rank : Phase → ℕ
  | idle => 0
  | gotNext => 1
  | gotIn => 2
  | gotNextIn => 3
  | gotNextOut => 4
  | released => 5
  | haveIn => 6
  | setIn => 7
  | gotOut => 8
  | haveOut => 9
  | setOut => 10
  | storing => 11

/-- What a block does with the pointers and the memory. -/
structure BlockFun (P Q α : Type*) where
  /-- The next input pointer. -/
  nextIn : P → P
  /-- The next output pointer, which can depend on what the block holds. -/
  nextOut : P → Q → Q
  /-- The cells that are stored. -/
  stores : P → Q → List (ℕ × α)

/-- A thread, with its local variables. -/
structure Worker (P Q α : Type*) where
  phase : Phase
  /-- The number of the block. -/
  thisIter : ℕ
  inp : P
  out : Q
  /-- The cells that are still to be stored. -/
  todo : List (ℕ × α)

/-- The chain, the threads and the memory. -/
structure Chain (τ P Q α : Type*) where
  next : ℕ
  inPtr : ℕ → P
  outPtr : ℕ → Q
  workers : τ → Worker P Q α
  mem : ℕ → α

section Locks

variable (ring p k i : ℕ)

/-- A thread in phase `p` holds the lock of the counter. -/
def HoldsNext : Prop := 1 ≤ p ∧ p ≤ 4

/-- A thread in phase `p` of the block `k` holds the lock of the input pointer `i`: its own, or the
next. -/
def HoldsIn : Prop :=
  (2 ≤ p ∧ p ≤ 10 ∧ k % ring = i) ∨ (3 ≤ p ∧ p ≤ 6 ∧ (k + 1) % ring = i)

/-- A thread in phase `p` of the block `k` holds the lock of the output pointer `i`: its own, or the
next. -/
def HoldsOut : Prop :=
  (p = 8 ∧ k % ring = i) ∨ (4 ≤ p ∧ p ≤ 9 ∧ (k + 1) % ring = i)

instance : Decidable (HoldsNext p) := inferInstanceAs (Decidable (_ ∧ _))

instance : Decidable (HoldsIn ring p k i) := inferInstanceAs (Decidable (_ ∨ _))

instance : Decidable (HoldsOut ring p k i) := inferInstanceAs (Decidable (_ ∨ _))

end Locks

namespace Chain

variable {τ P Q α : Type*}

/-- The chain at the beginning, with threads that have nothing to do. Of the pointers only the first
two are set, and the others hold anything. -/
def init (ins : ℕ → P) (outs : ℕ → Q) (mem₀ : ℕ → α) : Chain τ P Q α where
  next := 0
  inPtr := ins
  outPtr := outs
  workers := fun _ => ⟨.idle, 0, ins 0, outs 0, []⟩
  mem := mem₀

/-- The phases of the threads. -/
def ph (s : Chain τ P Q α) (t : τ) : ℕ := (s.workers t).phase.rank

/-- The numbers of their blocks. -/
def it (s : Chain τ P Q α) (t : τ) : ℕ := (s.workers t).thisIter

variable [DecidableEq τ] [Fintype τ]

/-- A thread in its next phase. -/
def move (s : Chain τ P Q α) (t : τ) (c : Worker P Q α) : Chain τ P Q α :=
  { s with workers := Function.update s.workers t c }

/-- **One step of the thread `t`**, of a chain with rings of `ring` pointers and `blocks` blocks. A
step that waits for a lock cannot be made while anyone holds the lock, the thread itself
included. -/
def step (b : BlockFun P Q α) (ring blocks : ℕ) (s : Chain τ P Q α) (t : τ) :
    Option (Chain τ P Q α) :=
  let c := s.workers t
  match c.phase with
  | .idle =>
    if s.next < blocks ∧ ∀ t', ¬ HoldsNext (s.ph t') then
      some { s.move t { c with phase := .gotNext, thisIter := s.next } with next := s.next + 1 }
    else none
  | .gotNext =>
    if ∀ t', ¬ HoldsIn ring (s.ph t') (s.it t') (c.thisIter % ring) then
      some (s.move t { c with phase := .gotIn })
    else none
  | .gotIn =>
    if ∀ t', ¬ HoldsIn ring (s.ph t') (s.it t') ((c.thisIter + 1) % ring) then
      some (s.move t { c with phase := .gotNextIn })
    else none
  | .gotNextIn =>
    if ∀ t', ¬ HoldsOut ring (s.ph t') (s.it t') ((c.thisIter + 1) % ring) then
      some (s.move t { c with phase := .gotNextOut })
    else none
  | .gotNextOut => some (s.move t { c with phase := .released })
  | .released => some (s.move t { c with phase := .haveIn, inp := s.inPtr (c.thisIter % ring) })
  | .haveIn =>
    some { s.move t { c with phase := .setIn } with
      inPtr := Function.update s.inPtr ((c.thisIter + 1) % ring) (b.nextIn c.inp) }
  | .setIn =>
    if ∀ t', ¬ HoldsOut ring (s.ph t') (s.it t') (c.thisIter % ring) then
      some (s.move t { c with phase := .gotOut })
    else none
  | .gotOut => some (s.move t { c with phase := .haveOut, out := s.outPtr (c.thisIter % ring) })
  | .haveOut =>
    some { s.move t { c with phase := .setOut } with
      outPtr := Function.update s.outPtr ((c.thisIter + 1) % ring) (b.nextOut c.inp c.out) }
  | .setOut => some (s.move t { c with phase := .storing, todo := b.stores c.inp c.out })
  | .storing =>
    match c.todo with
    | [] => some (s.move t { c with phase := .idle })
    | (a, x) :: rest =>
      some { s.move t { c with todo := rest } with mem := Function.update s.mem a x }

end Chain

/-! ### The order of the threads -/

/-- A thread in phase `p` of the block `k`, when `next` numbers have been taken, the input pointers
up to `w` have been set and the output pointers up to `v`. -/
structure InPlace (ring next w v p k : ℕ) : Prop where
  lt_next : k < next
  inSet : 7 ≤ p ↔ k < w
  outSet : 10 ≤ p ↔ k < v
  /-- The lock of the counter belongs to the last number. -/
  last : p ≤ 4 → k + 1 = next
  inTurn : 2 ≤ p → p ≤ 6 → k = w
  outTurn : 8 ≤ p → p ≤ 9 → k = v
  /-- No one is a whole ring ahead. -/
  window : p ≤ 10 → w < k + ring

/-- The phases and the numbers of all threads, of which those in phase 0 have no block. -/
structure Ordered {τ : Type*} (ring next : ℕ) (ph it : τ → ℕ) (w v : ℕ) : Prop where
  inPlace : ∀ t, 0 < ph t → InPlace ring next w v (ph t) (it t)
  distinct : ∀ t t', 0 < ph t → 0 < ph t' → it t = it t' → t = t'
  /-- A block whose next output pointer has not been set is still with its thread. -/
  inFlight : ∀ j, v ≤ j → j < next → ∃ t, 0 < ph t ∧ it t = j
  out_le_in : v ≤ w
  in_le_next : w ≤ next
  /-- Whoever holds the lock of the next input pointer has room for it. -/
  nextWindow : ∀ t t', 3 ≤ ph t → ph t ≤ 6 → 0 < ph t' → ph t' ≤ 10 → w + 1 < it t' + ring

namespace InPlace

variable {ring next w v p k : ℕ}

/-- Another thread sets the next input pointer. -/
theorem set_in (h : InPlace ring next w v p k) (hk : k ≠ w) (hroom : p ≤ 10 → w + 1 < k + ring) :
    InPlace ring next (w + 1) v p k where
  lt_next := h.lt_next
  inSet := by
    have := h.inSet
    omega
  outSet := h.outSet
  last := h.last
  inTurn h2 h6 := absurd (h.inTurn h2 h6) hk
  outTurn := h.outTurn
  window := hroom

/-- Another thread sets the next output pointer. -/
theorem set_out (h : InPlace ring next w v p k) (hk : k ≠ v) : InPlace ring next w (v + 1) p k where
  lt_next := h.lt_next
  inSet := h.inSet
  outSet := by
    have := h.outSet
    omega
  last := h.last
  inTurn := h.inTurn
  outTurn h8 h9 := absurd (h.outTurn h8 h9) hk
  window := h.window

/-- The thread itself goes to its next phase, and sets no pointer. -/
theorem next_phase (h : InPlace ring next w v p k) (hle : p ≤ 10) (h6 : p ≠ 6) (h9 : p ≠ 9)
    (hpos : 0 < p) (hin : p = 1 → k = w) (hout : p = 7 → k = v) :
    InPlace ring next w v (p + 1) k where
  lt_next := h.lt_next
  inSet := by
    have := h.inSet
    omega
  outSet := by
    have := h.outSet
    omega
  last h4 := h.last (by omega)
  inTurn h2 h6 := by
    rcases Nat.lt_or_ge 1 p with h1 | h1
    · exact h.inTurn h1 (by omega)
    · exact hin (by omega)
  outTurn h8 h9 := by
    rcases Nat.lt_or_ge 7 p with h7 | h7
    · exact h.outTurn h7 (by omega)
    · exact hout (by omega)
  window _ := h.window hle

/-- The thread itself sets the next input pointer. -/
theorem sets_in (h : InPlace ring next w v 6 k) (hroom : w + 1 < k + ring) :
    InPlace ring next (w + 1) v 7 k where
  lt_next := h.lt_next
  inSet := by
    have := h.inTurn (by decide) le_rfl
    omega
  outSet := by
    have := h.outSet
    omega
  last h4 := absurd h4 (by decide)
  inTurn _ h6 := absurd h6 (by decide)
  outTurn h8 := absurd h8 (by decide)
  window _ := hroom

/-- The thread itself sets the next output pointer. -/
theorem sets_out (h : InPlace ring next w v 9 k) : InPlace ring next w (v + 1) 10 k where
  lt_next := h.lt_next
  inSet := by
    have := h.inSet
    omega
  outSet := by
    have := h.outTurn (by decide) le_rfl
    omega
  last h4 := absurd h4 (by decide)
  inTurn _ h6 := absurd h6 (by decide)
  outTurn _ h9 := absurd h9 (by decide)
  window _ := h.window (by decide)

end InPlace

namespace Ordered
variable {τ : Type*} {ring next : ℕ} {ph it ph' it' : τ → ℕ} {w v : ℕ} {t : τ}

section Phases

/-- A thread that is in a block was in it before. -/
theorem was_pos {t' : τ} (hpos : 0 < ph t) (hother : ∀ t', t' ≠ t → ph' t' = ph t')
    (hpos' : 0 < ph' t') : 0 < ph t' := by
  by_cases heq : t' = t
  · rwa [heq]
  · rwa [← hother t' heq]

theorem is_pos {t' : τ} (hph : ph' t = ph t + 1) (hother : ∀ t', t' ≠ t → ph' t' = ph t')
    (hpos' : 0 < ph t') : 0 < ph' t' := by
  by_cases heq : t' = t
  · rw [heq, hph]
    exact Nat.succ_pos _
  · rwa [hother t' heq]

theorem was_before {t' : τ} (hpos : 0 < ph t) (hle : ph t ≤ 10)
    (hother : ∀ t', t' ≠ t → ph' t' = ph t') (hpos' : 0 < ph' t') (h10 : ph' t' ≤ 10) :
    0 < ph t' ∧ ph t' ≤ 10 := by
  by_cases heq : t' = t
  · rw [heq]
    exact ⟨hpos, hle⟩
  · rw [hother t' heq] at hpos' h10
    exact ⟨hpos', h10⟩

end Phases

/-- A thread takes the next number. -/
theorem enter (h : Ordered ring next ph it w v) (hring : 0 < ring)
    (hfree : ∀ t', ¬ HoldsNext (ph t')) (ht : ph t = 0) (hph : ph' t = 1) (hit : it' t = next)
    (hother : ∀ t', t' ≠ t → ph' t' = ph t' ∧ it' t' = it t') :
    Ordered ring (next + 1) ph' it' w v := by
  have hwn := h.in_le_next
  have hvw := h.out_le_in
  constructor
  · intro t' hpos
    by_cases heq : t' = t
    · subst heq
      constructor <;> omega
    · obtain ⟨hp, hk⟩ := hother t' heq
      obtain ⟨hlt, hin, hout, hlast, hinTurn, houtTurn, hwin⟩ := h.inPlace t' (hp ▸ hpos)
      have hnext : ¬ (1 ≤ ph t' ∧ ph t' ≤ 4) := hfree t'
      constructor <;> omega
  · intro t' t'' hpos hpos' hk
    by_cases heq : t' = t <;> by_cases heq' : t'' = t
    · rw [heq, heq']
    · obtain ⟨hp, hk'⟩ := hother t'' heq'
      have := (h.inPlace t'' (hp ▸ hpos')).lt_next
      subst heq
      omega
    · obtain ⟨hp, hk'⟩ := hother t' heq
      have := (h.inPlace t' (hp ▸ hpos)).lt_next
      subst heq'
      omega
    · rw [(hother t' heq).1] at hpos
      rw [(hother t'' heq').1] at hpos'
      exact h.distinct t' t'' hpos hpos' (by rw [← (hother t' heq).2, ← (hother t'' heq').2, hk])
  · intro j hv hj
    rcases Nat.lt_or_ge j next with hlt | hge
    · obtain ⟨t', hpos, rfl⟩ := h.inFlight j hv hlt
      have heq : t' ≠ t := by
        rintro rfl
        omega
      exact ⟨t', (hother t' heq).1 ▸ hpos, (hother t' heq).2⟩
    · exact ⟨t, by omega, by omega⟩
  · exact hvw
  · omega
  · intro t' t'' h3 h6 hpos h10
    have heq : t' ≠ t := by
      rintro rfl
      omega
    rw [(hother t' heq).1] at h3 h6
    by_cases heq' : t'' = t
    · subst heq'
      have hin := h.inPlace t' (by omega)
      have := hin.inTurn (by omega) h6
      have := hin.lt_next
      omega
    · rw [(hother t'' heq').1] at hpos h10
      rw [(hother t'' heq').2]
      exact h.nextWindow t' t'' h3 h6 hpos h10

/-- A thread goes to its next phase, and sets no pointer. -/
theorem next_phase (h : Ordered ring next ph it w v) (hpos : 0 < ph t) (hle : ph t ≤ 10)
    (h6 : ph t ≠ 6) (h9 : ph t ≠ 9) (hin : ph t = 1 → it t = w)
    (hroom : ph t = 2 → ∀ t', 0 < ph t' → ph t' ≤ 10 → w + 1 < it t' + ring)
    (hout : ph t = 7 → it t = v) (hph : ph' t = ph t + 1)
    (hother : ∀ t', t' ≠ t → ph' t' = ph t') : Ordered ring next ph' it w v where
  inPlace t' hpos' := by
    by_cases heq : t' = t
    · rw [heq, hph]
      exact (h.inPlace t hpos).next_phase hle h6 h9 hpos hin hout
    · rw [hother t' heq] at hpos' ⊢
      exact h.inPlace t' hpos'
  distinct t' t'' hpos' hpos'' := h.distinct t' t'' (was_pos hpos hother hpos')
    (was_pos hpos hother hpos'')
  inFlight j hv hj := by
    obtain ⟨t', hpos', rfl⟩ := h.inFlight j hv hj
    exact ⟨t', is_pos hph hother hpos', rfl⟩
  out_le_in := h.out_le_in
  in_le_next := h.in_le_next
  nextWindow t' t'' h3 h6' hpos' h10 := by
    obtain ⟨hpos', h10⟩ := was_before hpos hle hother hpos' h10
    by_cases heq : t' = t
    · rw [heq, hph] at h3 h6'
      rcases Nat.lt_or_ge (ph t) 3 with h2 | h2
      · exact hroom (by omega) t'' hpos' h10
      · exact h.nextWindow t t'' h2 (by omega) hpos' h10
    · rw [hother t' heq] at h3 h6'
      exact h.nextWindow t' t'' h3 h6' hpos' h10

/-- A thread sets the next input pointer. -/
theorem set_in (h : Ordered ring next ph it w v) (ht : ph t = 6) (hph : ph' t = 7)
    (hother : ∀ t', t' ≠ t → ph' t' = ph t') : Ordered ring next ph' it (w + 1) v := by
  have hpos : 0 < ph t := by omega
  have hself := h.inPlace t hpos
  have hturn : it t = w := hself.inTurn (by omega) (by omega)
  have hroom (t' : τ) (hpos' : 0 < ph t') (hle : ph t' ≤ 10) : w + 1 < it t' + ring :=
    h.nextWindow t t' (by omega) (by omega) hpos' hle
  constructor
  · intro t' hpos'
    by_cases heq : t' = t
    · rw [heq, hph]
      rw [ht] at hself
      exact hself.sets_in (hroom t hpos (by omega))
    · rw [hother t' heq] at hpos' ⊢
      refine (h.inPlace t' hpos').set_in (fun hk => heq ?_) (hroom t' hpos')
      exact h.distinct t' t hpos' hpos (hk.trans hturn.symm)
  · exact fun t' t'' hpos' hpos'' => h.distinct t' t'' (was_pos hpos hother hpos')
      (was_pos hpos hother hpos'')
  · intro j hv hj
    obtain ⟨t', hpos', rfl⟩ := h.inFlight j hv hj
    exact ⟨t', is_pos (by rw [hph, ht]) hother hpos', rfl⟩
  · exact h.out_le_in.trans (Nat.le_succ w)
  · have := hself.lt_next
    omega
  · -- no other thread is between the lock of its input pointer and setting the next one
    intro t' t'' h3 h6 hpos' h10
    by_cases heq : t' = t
    · rw [heq, hph] at h6
      exact absurd h6 (by decide)
    · rw [hother t' heq] at h3 h6
      have hturn' := (h.inPlace t' (by omega)).inTurn (by omega) h6
      exact absurd (h.distinct t' t (by omega) hpos (hturn'.trans hturn.symm)) heq

/-- A thread sets the next output pointer. -/
theorem set_out (h : Ordered ring next ph it w v) (ht : ph t = 9) (hph : ph' t = 10)
    (hother : ∀ t', t' ≠ t → ph' t' = ph t') : Ordered ring next ph' it w (v + 1) := by
  have hpos : 0 < ph t := by omega
  have hself := h.inPlace t hpos
  have hturn : it t = v := hself.outTurn (by omega) (by omega)
  constructor
  · intro t' hpos'
    by_cases heq : t' = t
    · rw [heq, hph]
      rw [ht] at hself
      exact hself.sets_out
    · rw [hother t' heq] at hpos' ⊢
      refine (h.inPlace t' hpos').set_out fun hk => heq ?_
      exact h.distinct t' t hpos' hpos (hk.trans hturn.symm)
  · exact fun t' t'' hpos' hpos'' => h.distinct t' t'' (was_pos hpos hother hpos')
      (was_pos hpos hother hpos'')
  · intro j hv hj
    obtain ⟨t', hpos', rfl⟩ := h.inFlight j (by omega) hj
    exact ⟨t', is_pos (by rw [hph, ht]) hother hpos', rfl⟩
  · have := hself.inSet
    omega
  · exact h.in_le_next
  · intro t' t'' h3 h6 hpos' h10
    obtain ⟨hpos', h10⟩ := was_before hpos (by omega) hother hpos' h10
    have heq : t' ≠ t := fun heq => by
      rw [heq, hph] at h6
      exact absurd h6 (by decide)
    rw [hother t' heq] at h3 h6
    exact h.nextWindow t' t'' h3 h6 hpos' h10

/-- A thread is done with its block. -/
theorem leave (h : Ordered ring next ph it w v) (ht : ph t = 11) (hph : ph' t = 0)
    (hother : ∀ t', t' ≠ t → ph' t' = ph t') : Ordered ring next ph' it w v := by
  have hsame (t' : τ) (hpos : 0 < ph' t') : ph' t' = ph t' := by
    refine hother t' fun heq => ?_
    rw [heq, hph] at hpos
    exact Nat.lt_irrefl 0 hpos
  constructor
  · intro t' hpos
    have hp := hsame t' hpos
    rw [hp] at hpos ⊢
    exact h.inPlace t' hpos
  · intro t' t'' hpos hpos'
    have hp := hsame t' hpos
    have hp' := hsame t'' hpos'
    exact h.distinct t' t'' (hp ▸ hpos) (hp' ▸ hpos')
  · intro j hv hj
    obtain ⟨t', hpos, rfl⟩ := h.inFlight j hv hj
    have heq : t' ≠ t := by
      rintro rfl
      have := (h.inPlace t' hpos).outSet
      omega
    exact ⟨t', (hother t' heq).symm ▸ hpos, rfl⟩
  · exact h.out_le_in
  · exact h.in_le_next
  · intro t' t'' h3 h6 hpos h10
    have hp := hsame t' (Nat.lt_of_lt_of_le (by decide) h3)
    have hp' := hsame t'' hpos
    rw [hp] at h3 h6
    rw [hp'] at hpos h10
    exact h.nextWindow t' t'' h3 h6 hpos h10

/-- The lock of the own input pointer is free only when it is the thread's turn. -/
theorem in_turn (h : Ordered ring next ph it w v) (ht : ph t = 1)
    (hfree : ∀ t', ¬ HoldsIn ring (ph t') (it t') (it t % ring)) : it t = w := by
  have hself := h.inPlace t (by omega)
  have hlt := hself.lt_next
  have hin := hself.inSet
  have hvw := h.out_le_in
  by_contra hne
  -- the thread before this one has not set the pointer and holds the lock
  obtain ⟨t', hpos, hk⟩ := h.inFlight (it t - 1) (by omega) (by omega)
  have hin' := (h.inPlace t' hpos).inSet
  have hlast' := (h.inPlace t' hpos).last
  refine hfree t' (.inr ⟨by omega, by omega, ?_⟩)
  congr 1
  omega

/-- The lock of the next input pointer is free only when the ring has room for it. -/
theorem room (h : Ordered ring next ph it w v) (ht : ph t = 2)
    (hfree : ∀ t', ¬ HoldsIn ring (ph t') (it t') ((it t + 1) % ring)) (t' : τ)
    (hpos : 0 < ph t') (hle : ph t' ≤ 10) : w + 1 < it t' + ring := by
  have hself := h.inPlace t (by omega)
  have hturn := hself.inTurn (by omega) (by omega)
  have hlast := hself.last (by omega)
  have hwin := (h.inPlace t' hpos).window hle
  by_contra hge
  have hround : it t + 1 = it t' + ring := by omega
  rcases Nat.lt_or_ge (ph t') 2 with h1 | h2
  · -- only one thread has the lock of the counter
    have hlast' := (h.inPlace t' hpos).last (by omega)
    have heq := h.distinct t t' (by omega) hpos (by omega)
    rw [← heq, ht] at h1
    exact absurd h1 (by decide)
  · refine hfree t' (.inl ⟨h2, hle, ?_⟩)
    rw [hround, Nat.add_mod_right]

/-- The lock of the own output pointer is free only when it is the thread's turn. -/
theorem out_turn (h : Ordered ring next ph it w v) (ht : ph t = 7)
    (hfree : ∀ t', ¬ HoldsOut ring (ph t') (it t') (it t % ring)) : it t = v := by
  have hself := h.inPlace t (by omega)
  have hlt := hself.lt_next
  have hout := hself.outSet
  by_contra hne
  obtain ⟨t', hpos, hk⟩ := h.inFlight (it t - 1) (by omega) (by omega)
  have hout' := (h.inPlace t' hpos).outSet
  have hlast' := (h.inPlace t' hpos).last
  refine hfree t' (.inr ⟨by omega, by omega, ?_⟩)
  congr 1
  omega

/-- Two numbers less than a ring apart have different places. -/
theorem mod_ne {a b : ℕ} (hlt : b < a) (hround : a < b + ring) : a % ring ≠ b % ring := by
  intro heq
  have hzero := Nat.sub_mod_eq_zero_of_mod_eq heq
  rw [Nat.mod_eq_of_lt (by omega)] at hzero
  omega

/-- **Someone can always go on**, if the ring has two places: a thread whose step takes no lock, or
the first thread that has not set its output pointer. -/
theorem exists_ready (h : Ordered ring next ph it w v) (hring : 2 ≤ ring) {t₀ : τ}
    (ht₀ : 0 < ph t₀) :
    ∃ t, 0 < ph t ∧
      (ph t = 1 → ∀ t', ¬ HoldsIn ring (ph t') (it t') (it t % ring)) ∧
      (ph t = 2 → ∀ t', ¬ HoldsIn ring (ph t') (it t') ((it t + 1) % ring)) ∧
      (ph t = 3 → ∀ t', ¬ HoldsOut ring (ph t') (it t') ((it t + 1) % ring)) ∧
      (ph t = 7 → ∀ t', ¬ HoldsOut ring (ph t') (it t') (it t % ring)) := by
  by_cases hmoving : ∃ t, 0 < ph t ∧ ph t ≠ 1 ∧ ph t ≠ 2 ∧ ph t ≠ 3 ∧ ph t ≠ 7
  · obtain ⟨t, hpos, h1, h2, h3, h7⟩ := hmoving
    exact ⟨t, hpos, fun h => absurd h h1, fun h => absurd h h2, fun h => absurd h h3,
      fun h => absurd h h7⟩
  · have hphase (t' : τ) (hpos : 0 < ph t') : ph t' = 1 ∨ ph t' = 2 ∨ ph t' = 3 ∨ ph t' = 7 := by
      by_contra hother
      exact hmoving ⟨t', hpos, by omega⟩
    have hge (t' : τ) (hpos : 0 < ph t') : v ≤ it t' := by
      have hout := (h.inPlace t' hpos).outSet
      have := hphase t' hpos
      omega
    obtain ⟨t, hpos, hk⟩ := h.inFlight v le_rfl
      ((hge t₀ ht₀).trans_lt (h.inPlace t₀ ht₀).lt_next)
    have hself := h.inPlace t hpos
    -- before the lock of the counter is released the thread is alone
    have halone (hlow : ph t ≤ 4) (t' : τ) (hpos' : 0 < ph t') : t' = t := by
      have hlast := hself.last hlow
      have hlt := (h.inPlace t' hpos').lt_next
      have := hge t' hpos'
      exact h.distinct t' t hpos' hpos (by omega)
    refine ⟨t, hpos, fun h1 t' hholds => ?_, fun h2 t' hholds => ?_, fun h3 t' hholds => ?_,
      fun h7 t' hholds => ?_⟩
    · have hpos' : 0 < ph t' := hholds.elim (fun h => by omega) fun h => by omega
      rw [halone (by omega) t' hpos', h1] at hholds
      rcases hholds with hholds | hholds <;> exact absurd hholds.1 (by decide)
    · have hpos' : 0 < ph t' := hholds.elim (fun h => by omega) fun h => by omega
      rw [halone (by omega) t' hpos', h2] at hholds
      rcases hholds with hholds | hholds
      · exact mod_ne (Nat.lt_succ_self _) (by omega) hholds.2.2.symm
      · exact absurd hholds.1 (by decide)
    · have hpos' : 0 < ph t' := hholds.elim (fun h => by omega) fun h => by omega
      rw [halone (by omega) t' hpos', h3] at hholds
      rcases hholds with hholds | hholds <;> exact absurd hholds.1 (by decide)
    · have hpos' : 0 < ph t' := hholds.elim (fun h => by omega) fun h => by omega
      have hcase := hphase t' hpos'
      rcases hholds with hholds | hholds
      · omega
      · -- a thread that is a ring ahead would have overtaken this one
        have hin := (h.inPlace t' hpos').inSet
        have hwin := hself.window (by omega)
        have := hge t' hpos'
        rw [hk] at hholds hwin
        exact mod_ne (by omega) (by omega) hholds.2.2

end Ordered

end StdDaq.Bitshuffle
