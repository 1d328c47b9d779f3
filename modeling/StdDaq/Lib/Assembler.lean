import Mathlib.Data.List.Chain
import Mathlib.Data.List.Forall2
import Mathlib.Data.List.Induction

/-!
# Assembling frames from a stream of packets

A receiver of packets keeps one frame at a time. Packets of the frame it works on are accumulated;
a packet of any other frame means that nothing more of the old one will come, so the old frame is
sent and a new one begins. A packet may also be known to be the last of its frame, and then the
frame is sent at once. After that there is no current frame: the header says so by a key that no
packet has.

`Assembler` is such a receiver, over whatever headers and buffers are. Two receivers can differ in
whether the last packet of a frame is recognised when it is also the first one that arrives:
`eager`.

On a stream that is a concatenation of frames each frame is sent once, in order, with the header
and the buffer that its packets make. Only the last frame can still be pending.

## Main results

* `Assembler.assembled_of_frames` — what has been sent after a concatenation of frames
* `Assembler.headerFor_of_frames` — the header a packet is counted on
-/

/-- A receiver that assembles frames: `κ` are the keys of frames, `P` the packets, `M` the headers,
`B` the buffers and `S` what is sent for a frame. -/
structure Assembler (κ P M B S : Type*) where
  /-- The frame of a packet. -/
  key : P → κ
  /-- The frame a header is for. -/
  current : M → κ
  /-- The key of a header without a frame. -/
  idle : κ
  /-- The packet is the last of its frame. -/
  closes : P → Bool
  /-- A frame is sent at once even when its last packet is the first to arrive. -/
  eager : Bool
  /-- The header of a frame that begins with this packet. -/
  init : M → P → M
  /-- Count a packet. -/
  receive : M → P → M
  /-- The header after its frame has been sent. -/
  close : M → M
  /-- Store the data of a packet. -/
  copy : B → P → B
  /-- What is sent for a frame. -/
  emit : M → B → S

namespace Assembler

variable {κ P M B S : Type*} [DecidableEq κ] (a : Assembler κ P M B S)

/-- The header and the buffer of the frame that is being assembled, and what was sent so far. -/
structure State (M B S : Type*) where
  header : M
  buffer : B
  sent : List S

/-- Send the current frame. -/
def send (s : State M B S) : State M B S :=
  { s with header := a.close s.header, sent := s.sent ++ [a.emit s.header s.buffer] }

/-- Take a packet into the current frame, and send the frame if it is to be sent now. -/
def accept (s : State M B S) (p : P) (flush : Bool) : State M B S :=
  let s := { s with header := a.receive s.header p, buffer := a.copy s.buffer p }
  if flush then a.send s else s

/-- Send the frame that a packet of another one ends, if there is a frame. -/
def flushOld (s : State M B S) : State M B S :=
  if a.current s.header = a.idle then s else a.send s

/-- Handle one packet. -/
def step (s : State M B S) (p : P) : State M B S :=
  if a.current s.header = a.key p then a.accept s p (a.closes p)
  else
    let s := a.flushOld s
    a.accept { s with header := a.init s.header p } p (a.eager && a.closes p)

/-- The header that a packet will be counted on. -/
def headerFor (s : State M B S) (p : P) : M :=
  if a.current s.header = a.key p then s.header else a.init (a.flushOld s).header p

/-- What an assembler relies on: the three ways to make a header set its frame as they should. -/
structure Lawful : Prop where
  current_init : ∀ m p, a.current (a.init m p) = a.key p
  current_receive : ∀ m p, a.current (a.receive m p) = a.current m
  current_close : ∀ m, a.current (a.close m) = a.idle

/-- Packets of one frame, in order: only the last of them may be the one that closes it. -/
structure IsFrame (f : List P) : Prop where
  ne_nil : f ≠ []
  same : ∀ p ∈ f, ∀ q ∈ f, a.key p = a.key q
  keyed : ∀ p ∈ f, a.key p ≠ a.idle
  open_before : ∀ p ∈ f.dropLast, a.closes p = false

/-- The frame is sent as soon as its packets have been handled. -/
def Closes (f : List P) : Prop :=
  (∃ p ∈ f.getLast?, a.closes p = true) ∧ (a.eager = true ∨ 2 ≤ f.length)

/-- The header after the packets of a frame. -/
def accumulate (m : M) : List P → M
  | [] => m
  | p :: f => (p :: f).foldl a.receive (a.init m p)

/-- What is sent for a frame, up to the header and the buffer that were there before. -/
def Emitted (f : List P) (s : S) : Prop :=
  ∃ m b, s = a.emit (a.accumulate m f) (f.foldl a.copy b)

/-- The state after a list of frames: all of them have been sent, or the last is pending. -/
inductive Assembled : List (List P) → State M B S → Prop where
  | closed {fs : List (List P)} {s : State M B S} (sent : List.Forall₂ a.Emitted fs s.sent)
      (current : a.current s.header = a.idle) (last : ∀ f ∈ fs.getLast?, a.Closes f) :
      Assembled fs s
  | pending {fs : List (List P)} {f : List P} {s : State M B S} {m : M} {b : B}
      (sent : List.Forall₂ a.Emitted fs s.sent) (header : s.header = a.accumulate m f)
      (buffer : s.buffer = f.foldl a.copy b) (current : ∀ p ∈ f, a.current s.header = a.key p)
      (last : ¬ a.Closes f) : Assembled (fs ++ [f]) s

section Lemmas

variable {a} {s : State M B S} {p : P} {f : List P} {fs : List (List P)}

theorem step_of_current (h : a.current s.header = a.key p) :
    a.step s p = a.accept s p (a.closes p) := by
  rw [step, if_pos h]

theorem step_of_ne (h : a.current s.header ≠ a.key p) :
    a.step s p = a.accept { a.flushOld s with header := a.init (a.flushOld s).header p } p
      (a.eager && a.closes p) := by
  rw [step, if_neg h]

theorem flushOld_of_idle (h : a.current s.header = a.idle) : a.flushOld s = s := by
  rw [flushOld, if_pos h]

theorem flushOld_of_ne (h : a.current s.header ≠ a.idle) : a.flushOld s = a.send s := by
  rw [flushOld, if_neg h]

omit [DecidableEq κ] in
theorem accumulate_snoc {m : M} (hf : f ≠ []) :
    a.accumulate m (f ++ [p]) = a.receive (a.accumulate m f) p := by
  obtain ⟨q, rest, rfl⟩ := List.exists_cons_of_ne_nil hf
  change (q :: rest ++ [p]).foldl a.receive (a.init m q) = _
  rw [List.foldl_append]
  rfl

omit [DecidableEq κ] in
theorem forall₂_snoc {ss : List S} {x : S} (h : List.Forall₂ a.Emitted fs ss)
    (hx : a.Emitted f x) : List.Forall₂ a.Emitted (fs ++ [f]) (ss ++ [x]) :=
  List.rel_append h (.cons hx .nil)

omit [DecidableEq κ] in
theorem IsFrame.init (h : a.IsFrame (f ++ [p])) (hf : f ≠ []) : a.IsFrame f where
  ne_nil := hf
  same q hq r hr := h.same q (List.mem_append_left _ hq) r (List.mem_append_left _ hr)
  keyed q hq := h.keyed q (List.mem_append_left _ hq)
  open_before q hq := h.open_before q (by
    rw [List.dropLast_concat]
    exact List.dropLast_subset f hq)

omit [DecidableEq κ] in
/-- A frame that another packet of it follows has not been sent. -/
theorem IsFrame.not_closes_init (h : a.IsFrame (f ++ [p])) : ¬ a.Closes f := by
  rintro ⟨⟨q, hq, hcloses⟩, -⟩
  have hmem : q ∈ (f ++ [p]).dropLast := by
    rw [List.dropLast_concat]
    exact List.mem_of_getLast? hq
  rw [h.open_before q hmem] at hcloses
  cases hcloses

/-- The state after the frame that a new one ends has been sent. -/
theorem Assembled.flushOld (h : a.Assembled fs s)
    (hkeyed : ∀ f ∈ fs, a.IsFrame f) :
    List.Forall₂ a.Emitted fs (a.flushOld s).sent ∧ (a.flushOld s).buffer = s.buffer := by
  cases h with
  | closed sent current last =>
    rw [flushOld_of_idle current]
    exact ⟨sent, rfl⟩
  | @pending fs f _ m b sent header buffer current last =>
    have hf := hkeyed f (by simp)
    obtain ⟨q, rest, rfl⟩ := List.exists_cons_of_ne_nil hf.ne_nil
    have hne : a.current s.header ≠ a.idle := by
      rw [current q List.mem_cons_self]
      exact hf.keyed q List.mem_cons_self
    rw [flushOld_of_ne hne]
    exact ⟨forall₂_snoc sent ⟨m, b, by rw [header, buffer]⟩, rfl⟩

omit [DecidableEq κ] in
/-- A frame that was not sent at once is pending. -/
theorem Assembled.pending_of_not_closes (h : a.Assembled (fs ++ [f]) s) (hf : ¬ a.Closes f) :
    ∃ m b, List.Forall₂ a.Emitted fs s.sent ∧ s.header = a.accumulate m f ∧
      s.buffer = f.foldl a.copy b ∧ ∀ p ∈ f, a.current s.header = a.key p := by
  generalize hall : fs ++ [f] = all at h
  cases h with
  | closed sent current last =>
    subst hall
    exact absurd (last f (by simp)) hf
  | pending sent header buffer current last =>
    obtain ⟨rfl, hlast⟩ := List.append_inj' hall rfl
    obtain rfl := List.head_eq_of_cons_eq hlast
    exact ⟨_, _, sent, header, buffer, current⟩

omit [DecidableEq κ] in
/-- A packet of a new frame does not belong to the current one. -/
theorem Assembled.current_ne (h : a.Assembled fs s) (hframes : ∀ f ∈ fs, a.IsFrame f)
    (hp : a.key p ≠ a.idle) (hnext : ∀ g ∈ fs.getLast?, ∀ q ∈ g, a.key q ≠ a.key p) :
    a.current s.header ≠ a.key p := by
  cases h with
  | closed sent current last => rw [current]; exact hp.symm
  | @pending fs f _ m b sent header buffer current last =>
    obtain ⟨q, rest, rfl⟩ := List.exists_cons_of_ne_nil (hframes f (by simp)).ne_nil
    rw [current q List.mem_cons_self]
    exact hnext (q :: rest) (by simp) q List.mem_cons_self

/-- The first packet of a frame. -/
theorem Assembled.first (h : a.Assembled fs s) (hlaw : a.Lawful)
    (hframes : ∀ f ∈ fs, a.IsFrame f) (hp : a.key p ≠ a.idle)
    (hnext : ∀ g ∈ fs.getLast?, ∀ q ∈ g, a.key q ≠ a.key p) :
    a.Assembled (fs ++ [[p]]) (a.step s p) := by
  obtain ⟨hsent, hbuffer⟩ := h.flushOld hframes
  rw [step_of_ne (h.current_ne hframes hp hnext), accept]
  by_cases hflush : (a.eager && a.closes p) = true
  · rw [if_pos hflush]
    have hflush : a.eager = true ∧ a.closes p = true := by simpa using hflush
    refine .closed (forall₂_snoc hsent ⟨_, _, rfl⟩) (hlaw.current_close _) fun f hf => ?_
    obtain rfl : [p] = f := by simpa using hf
    exact ⟨⟨p, rfl, hflush.2⟩, .inl hflush.1⟩
  · rw [if_neg hflush]
    refine .pending (m := (a.flushOld s).header) (b := s.buffer) hsent rfl ?_ (fun q hq => ?_) ?_
    · change a.copy (a.flushOld s).buffer p = _
      rw [hbuffer]
      rfl
    · change a.current (a.receive (a.init _ p) p) = a.key q
      rw [List.mem_singleton.mp hq, hlaw.current_receive, hlaw.current_init]
    · rintro ⟨⟨q, hq, hcloses⟩, heager | hlen⟩
      · obtain rfl : p = q := by simpa using hq
        exact hflush (by simp [heager, hcloses])
      · simp at hlen

/-- A further packet of the frame that is pending. -/
theorem Assembled.next (h : a.Assembled (fs ++ [f]) s) (hlaw : a.Lawful)
    (hframe : a.IsFrame (f ++ [p])) (hf : f ≠ []) :
    a.Assembled (fs ++ [f ++ [p]]) (a.step s p) := by
  obtain ⟨m, b, hsent, hheader, hbuffer, hcurrent⟩ :=
    h.pending_of_not_closes hframe.not_closes_init
  have hkey : ∀ q ∈ f ++ [p], a.key p = a.key q := fun q hq => hframe.same p (by simp) q hq
  have hp : a.current s.header = a.key p := by
    obtain ⟨q, hq⟩ := List.exists_mem_of_ne_nil f hf
    rw [hcurrent q hq, hkey q (List.mem_append_left _ hq)]
  have hlen : 2 ≤ (f ++ [p]).length := by
    have := List.length_pos_iff.mpr hf
    rw [List.length_append, List.length_singleton]
    omega
  have hheader' : a.receive s.header p = a.accumulate m (f ++ [p]) := by
    rw [accumulate_snoc hf, hheader]
  have hbuffer' : a.copy s.buffer p = (f ++ [p]).foldl a.copy b := by
    rw [List.foldl_append, hbuffer]
    rfl
  rw [step_of_current hp, accept]
  by_cases hcloses : a.closes p = true
  · rw [if_pos hcloses]
    refine .closed (forall₂_snoc hsent ⟨m, b, ?_⟩) (hlaw.current_close _) fun g hg => ?_
    · change a.emit (a.receive s.header p) (a.copy s.buffer p) = _
      rw [hheader', hbuffer']
    · obtain rfl : f ++ [p] = g := by simpa using hg
      exact ⟨⟨p, by simp, hcloses⟩, .inr hlen⟩
  · rw [if_neg hcloses]
    refine .pending hsent hheader' hbuffer' (fun q hq => ?_) ?_
    · change a.current (a.receive s.header p) = a.key q
      rw [hlaw.current_receive, hp, hkey q hq]
    · rintro ⟨⟨q, hq, hqcloses⟩, -⟩
      obtain rfl : p = q := by simpa using hq
      exact hcloses hqcloses

/-- A whole frame. -/
theorem Assembled.frame (h : a.Assembled fs s) (hlaw : a.Lawful)
    (hframes : ∀ f ∈ fs, a.IsFrame f) (hframe : a.IsFrame f)
    (hnext : ∀ g ∈ fs.getLast?, ∀ q ∈ g, ∀ p ∈ f, a.key q ≠ a.key p) :
    a.Assembled (fs ++ [f]) (f.foldl a.step s) := by
  induction f using List.reverseRecOn with
  | nil => exact absurd rfl hframe.ne_nil
  | append_singleton f p ih =>
    rw [List.foldl_append]
    change a.Assembled _ (a.step (f.foldl a.step s) p)
    rcases eq_or_ne f [] with rfl | hf
    · exact h.first hlaw hframes (hframe.keyed p (by simp))
        fun g hg q hq => hnext g hg q hq p (by simp)
    · refine (ih (hframe.init hf) fun g hg q hq r hr => ?_).next hlaw hframe hf
      exact hnext g hg q hq r (List.mem_append_left _ hr)

end Lemmas

/-- A stream that is a concatenation of frames, neighbouring ones with different keys. -/
structure IsStream (fs : List (List P)) : Prop where
  frames : ∀ f ∈ fs, a.IsFrame f
  neighbours : fs.IsChain fun f g => ∀ p ∈ f, ∀ q ∈ g, a.key p ≠ a.key q

section Streams

variable {a} {s : State M B S} {fs : List (List P)}

omit [DecidableEq κ] in
theorem IsStream.init {f : List P} (h : a.IsStream (fs ++ [f])) : a.IsStream fs :=
  ⟨fun g hg => h.frames g (List.mem_append_left _ hg), h.neighbours.left_of_append⟩

omit [DecidableEq κ] in
theorem IsStream.last_ne {f : List P} (h : a.IsStream (fs ++ [f])) :
    ∀ g ∈ fs.getLast?, ∀ q ∈ g, ∀ p ∈ f, a.key q ≠ a.key p := by
  intro g hg
  exact (List.isChain_append.mp h.neighbours).2.2 g hg f (by simp)

/-- **Every frame of a stream is sent, in order.** -/
theorem assembled_of_frames (hlaw : a.Lawful) (hstart : a.current s.header = a.idle)
    (hsent : s.sent = []) (h : a.IsStream fs) : a.Assembled fs (fs.flatten.foldl a.step s) := by
  induction fs using List.reverseRecOn with
  | nil =>
    refine .closed ?_ hstart (by simp)
    rw [List.flatten_nil, List.foldl_nil, hsent]
    exact .nil
  | append_singleton fs f ih =>
    rw [List.flatten_append, List.flatten_singleton, List.foldl_append]
    exact (ih h.init).frame hlaw (fun g hg => h.init.frames g hg) (h.frames f (by simp)) h.last_ne

omit [DecidableEq κ] in
/-- A stream cut off inside a frame. -/
theorem IsStream.cut {f g : List P} {gs : List (List P)} (h : a.IsStream (fs ++ (f ++ g) :: gs))
    (hf : f ≠ []) : a.IsStream (fs ++ [f]) := by
  have hmem : (f ++ g) ∈ fs ++ (f ++ g) :: gs := by simp
  refine ⟨fun f' hf' => ?_, ?_⟩
  · rcases List.mem_append.mp hf' with hf' | hf'
    · exact h.frames f' (List.mem_append_left _ hf')
    · obtain rfl := List.mem_singleton.mp hf'
      refine ⟨hf, fun p hp q hq => ?_, fun p hp => ?_, fun p hp => ?_⟩
      · exact (h.frames _ hmem).same p (List.mem_append_left _ hp) q (List.mem_append_left _ hq)
      · exact (h.frames _ hmem).keyed p (List.mem_append_left _ hp)
      · refine (h.frames _ hmem).open_before p ?_
        rcases eq_or_ne g [] with rfl | hg
        · rwa [List.append_nil]
        · rw [List.dropLast_append_of_ne_nil hg]
          exact List.mem_append_left _ (List.dropLast_subset _ hp)
  · obtain ⟨hleft, -, hjoin⟩ := List.isChain_append.mp h.neighbours
    refine List.isChain_append.mpr ⟨hleft, List.isChain_singleton _, ?_⟩
    intro f' hf' g' hg' p hp q hq
    obtain rfl : f = g' := by simpa using hg'
    exact hjoin f' hf' (f ++ g) (by simp) p hp q (List.mem_append_left _ hq)

omit [DecidableEq κ] in
/-- Where a packet of a stream stands. -/
theorem IsStream.exists_frame (h : a.IsStream fs) {before after : List P} {p : P}
    (hsplit : fs.flatten = before ++ p :: after) :
    ∃ gs f g hs, fs = gs ++ (f ++ p :: g) :: hs ∧ before = gs.flatten ++ f := by
  rcases List.flatten_eq_append_iff.mp hsplit with ⟨gs, rest, rfl, rfl, hrest⟩ |
    ⟨gs, f, q, g, hs, rfl, rfl, hrest⟩
  · obtain ⟨empty, g, hs, rfl, hempty, -⟩ := List.flatten_eq_cons_iff.mp hrest.symm
    -- no frame is empty
    have hnil : empty = [] := by
      refine List.eq_nil_iff_forall_not_mem.mpr fun f hf => ?_
      exact (h.frames f (by simp [hf])).ne_nil (hempty f hf)
    subst hnil
    exact ⟨gs, [], g, hs, rfl, by simp⟩
  · obtain rfl : p = q := List.head_eq_of_cons_eq hrest
    exact ⟨gs, f, g, hs, rfl, rfl⟩

/-- **The header a packet is counted on.** When a packet of a stream is handled, the header holds
what the packets of the same frame before it have made of it. -/
theorem headerFor_of_frames (hlaw : a.Lawful) (hstart : a.current s.header = a.idle)
    (hsent : s.sent = []) (h : a.IsStream fs) {before after : List P} {p : P}
    (hsplit : fs.flatten = before ++ p :: after) :
    ∃ f g m first, f ++ p :: g ∈ fs ∧ first ∈ (f ++ [p]).head? ∧
      a.headerFor (before.foldl a.step s) p = f.foldl a.receive (a.init m first) := by
  obtain ⟨gs, f, g, hs, rfl, rfl⟩ := h.exists_frame hsplit
  have hwhole : a.IsStream (gs ++ (f ++ [p] ++ g) :: hs) := by simpa using h
  have hcut : a.IsStream (gs ++ [f ++ [p]]) := hwhole.cut (by simp)
  have hframe : a.IsFrame (f ++ [p]) := hcut.frames _ (by simp)
  rw [List.foldl_append, headerFor]
  rcases eq_or_ne f [] with rfl | hf
  · have hgs := assembled_of_frames hlaw hstart hsent hcut.init
    have hne := hgs.current_ne (fun f hf => hcut.init.frames f hf) (hframe.keyed p (by simp))
      fun g' hg' q hq => hcut.last_ne g' hg' q hq p (by simp)
    rw [List.foldl_nil, if_neg hne]
    exact ⟨[], g, _, p, by simp, rfl, rfl⟩
  · have hstream : a.IsStream (gs ++ [f]) := h.cut hf
    have hassembled := assembled_of_frames hlaw hstart hsent hstream
    rw [List.flatten_append, List.flatten_singleton, List.foldl_append] at hassembled
    obtain ⟨m, b, -, hheader, -, hcurrent⟩ :=
      hassembled.pending_of_not_closes hframe.not_closes_init
    obtain ⟨first, rest, rfl⟩ := List.exists_cons_of_ne_nil hf
    have hp : a.key first = a.key p := hframe.same first (by simp) p (by simp)
    rw [if_pos ((hcurrent first List.mem_cons_self).trans hp), hheader]
    exact ⟨first :: rest, g, m, first, by simp, rfl, rfl⟩

end Streams

end Assembler
