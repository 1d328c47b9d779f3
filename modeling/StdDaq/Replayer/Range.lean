import StdDaq.Replayer.Undisturbed

/-!
# The requested range

What an undisturbed replay with an end does when it goes well. `control_reader` visits the stored
ids from the start on, and `forward_images` handles what it visits in the same order. A last
acknowledgement can be beyond the end; then `control_reader` waits for an image that is never sent,
and by that keeps the replay going.

It goes well when two things are right. Some acknowledged id has to be larger than the value
`last_sent_id` had before the replay: waiting for that one is what makes `control_reader` wait for
`forward_images` before it ends the replay. And the requests must not come around: the id after
2⁶⁴ - 1 is 0.

## Main results

* `Right.step` — the invariant of the replay
* `Right.inevitable` — the rank that goes down until all images are pushed
-/

namespace StdDaq

namespace Replayer

variable {stored : StoredIds} {start last lastSentId x : ℕ} {t u v : Process} {r r' : Replay}

/-- An id that the reader acknowledges in a replay: something is asked for, and all smaller ids from
the start on are in front of the end, so that the next image is asked for after them. -/
structure StoredIds.Acknowledges (stored : StoredIds) (start last a : ℕ) : Prop where
  mem : a ∈ stored.ids
  asked : start ≤ last
  start_le : start ≤ a
  before : ∀ b ∈ stored.ids, start ≤ b → b < a → b < last

theorem StoredIds.IsNext.acknowledges {w : ℕ} (h : stored.IsNext x (some w)) (hstart : start ≤ x)
    (hx : x ≤ last) : stored.Acknowledges start last w := by
  obtain ⟨hmem, hle, hleast⟩ := h
  refine ⟨hmem, hstart.trans hx, hstart.trans hle, fun b hb _ hlt => ?_⟩
  by_contra hge
  have := hleast b hb (by omega)
  omega

/-- No request and no response is on its way. -/
def Process.Quiet (t : Process) : Prop := t.request = none ∧ t.response = none

/-- `forward_images` has caught up, unless all ids in front of `x` are stale. -/
def Caught (stored : StoredIds) (start lastSentId : ℕ) (t : Process) (x : ℕ) : Prop :=
  (∃ a ∈ stored.ids.between start x, lastSentId < a) → t.published = []

/-- Where `control_reader` and the reader are, when all ids in front of `x` have been visited. -/
inductive Phase (stored : StoredIds) (start last lastSentId : ℕ) (t : Process) (r : Replay) :
    ℕ → Prop where
  | test {newRequest : Bool} {x : ℕ} (hpc : r.control = .test newRequest x) (hquiet : t.Quiet)
      (hcaught : Caught stored start lastSentId t x) : Phase stored start last lastSentId t r x
  | asked {newRequest : Bool} {x : ℕ} (hpc : r.control = .receive x)
      (hrequest : t.request = some ⟨x, newRequest⟩) (hresponse : t.response = none)
      (hx : x ≤ last) (hcaught : Caught stored start lastSentId t x) :
      Phase stored start last lastSentId t r x
  | acked {i w : ℕ} (hw : stored.Acknowledges start last w) (hpc : r.control = .receive i)
      (hrequest : t.request = none) (hresponse : t.response = some (.ack w)) :
      Phase stored start last lastSentId t r (w + 1)
  | noImage {x : ℕ} (hpc : r.control = .receive x) (hrequest : t.request = none)
      (hresponse : t.response = some .noImage) (hnone : stored.IsNext x none)
      (hcaught : Caught stored start lastSentId t x) : Phase stored start last lastSentId t r x
  | look {w : ℕ} (hw : stored.Acknowledges start last w)
      (hpc : r.control = .look w ((w + 1) % 2 ^ 64)) (hquiet : t.Quiet) :
      Phase stored start last lastSentId t r (w + 1)
  | dozing {w : ℕ} (hw : stored.Acknowledges start last w)
      (hpc : r.control = .sleep w ((w + 1) % 2 ^ 64) ∨
        r.control = .asleep w ((w + 1) % 2 ^ 64)) (hquiet : t.Quiet)
      (hnotify : w ≤ t.lastSentId → ∃ nImages, r.forward = .notify nImages) :
      Phase stored start last lastSentId t r (w + 1)
  | left {x : ℕ} (hpc : r.control = .finish ∨ r.control = .returned) (hquiet : t.Quiet)
      (hdone : last < x ∨ stored.IsNext x none) (hcaught : Caught stored start lastSentId t x) :
      Phase stored start last lastSentId t r x

/-- The invariant: all ids in front of `x` have been visited, and `forward_images` handles them in
order. -/
structure Right (stored : StoredIds) (start last lastSentId : ℕ) (t : Process) (r : Replay)
    (x : ℕ) : Prop where
  settings : r.settings = ⟨start, some last⟩
  phase : Phase stored start last lastSentId t r x
  frontier : x = start ∨ ∃ w, stored.Acknowledges start last w ∧ x = w + 1
  visited : r.processed ++ t.published = stored.ids.between start x
  pushed : r.pushed = r.processed.filter (· ≤ last)
  sent : t.lastSentId = r.pushed.getLast?.getD lastSentId
  busy : r.control = .returned ∨ t.manager.state = .replaying
  leaving : r.forward = .finish ∨ r.forward = .returned → r.control = .returned

theorem Right.start_le (h : Right stored start last lastSentId t r x) : start ≤ x := by
  rcases h.frontier with rfl | ⟨w, hw, rfl⟩
  · exact le_rfl
  · exact hw.start_le.trans w.le_succ

theorem Right.reaches_iff (h : Right stored start last lastSentId t r x) {i : ℕ} :
    r.settings.reaches i = true ↔ i ≤ last := by
  rw [h.settings, ReplaySettings.reaches, decide_eq_true_eq]

/-- A step that is not one of `control_reader` keeps its phase. -/
theorem Phase.replace (h : Phase stored start last lastSentId t r x)
    (hcontrol : r'.control = r.control) (hrequest : v.request = t.request)
    (hresponse : v.response = t.response) (hpublished : t.published = [] → v.published = [])
    (hnotify : ∀ w, (w ≤ t.lastSentId → ∃ nImages, r.forward = .notify nImages) →
      w ≤ v.lastSentId → ∃ nImages, r'.forward = .notify nImages) :
    Phase stored start last lastSentId v r' x := by
  have hcaught' : ∀ y, Caught stored start lastSentId t y → Caught stored start lastSentId v y :=
    fun y hcaught hfresh => hpublished (hcaught hfresh)
  have hquiet' : t.Quiet → v.Quiet :=
    fun hquiet => ⟨hrequest.trans hquiet.1, hresponse.trans hquiet.2⟩
  cases h with
  | test hpc hquiet hcaught =>
    exact .test (hcontrol.trans hpc) (hquiet' hquiet) (hcaught' _ hcaught)
  | asked hpc hreq hresp hx hcaught =>
    exact .asked (hcontrol.trans hpc) (hrequest.trans hreq) (hresponse.trans hresp) hx
      (hcaught' _ hcaught)
  | acked hw hpc hreq hresp =>
    exact .acked hw (hcontrol.trans hpc) (hrequest.trans hreq) (hresponse.trans hresp)
  | noImage hpc hreq hresp hnone hcaught =>
    exact .noImage (hcontrol.trans hpc) (hrequest.trans hreq) (hresponse.trans hresp) hnone
      (hcaught' _ hcaught)
  | look hw hpc hquiet => exact .look hw (hcontrol.trans hpc) (hquiet' hquiet)
  | dozing hw hpc hquiet hasleep =>
    exact .dozing hw (hcontrol ▸ hpc) (hquiet' hquiet) (hnotify _ hasleep)
  | left hpc hquiet hdone hcaught =>
    exact .left (hcontrol ▸ hpc) (hquiet' hquiet) hdone (hcaught' _ hcaught)

theorem Right.with_replays (h : Right stored start last lastSentId t r x) {replays : List Replay} :
    Right stored start last lastSentId { t with replays := replays } r x :=
  ⟨h.settings, h.phase.replace rfl rfl rfl id fun _ hnotify => hnotify, h.frontier, h.visited,
    h.pushed, h.sent, h.busy, h.leaving⟩

/-- The requests do not come around. -/
def NoWrap (stored : StoredIds) (start last lastSentId : ℕ) : Prop :=
  stored.Acknowledges start last (2 ^ 64 - 1) → last < 2 ^ 64 - 1 ∧ lastSentId < 2 ^ 64 - 1

theorem Right.sent_cases (h : Right stored start last lastSentId t r x) :
    t.lastSentId = lastSentId ∨
      t.lastSentId ≤ last ∧ t.lastSentId ∈ r.processed ∧ t.lastSentId < x := by
  have hsent := h.sent
  cases hlast : r.pushed.getLast? with
  | none =>
    rw [hlast] at hsent
    exact .inl hsent
  | some id =>
    rw [hlast] at hsent
    obtain rfl : t.lastSentId = id := hsent
    have hmem := List.mem_of_getLast? hlast
    rw [h.pushed, List.mem_filter, decide_eq_true_eq] at hmem
    have hvisited : t.lastSentId ∈ stored.ids.between start x :=
      h.visited ▸ List.mem_append_left _ hmem.1
    exact .inr ⟨hmem.2, hmem.1, (Finset.mem_between.mp hvisited).2.2⟩

/-- `control_reader` gets past its wait for an image: the next id is the one after it, and if the
image was not stale from the beginning, `forward_images` has handled it. -/
theorem Right.passed {w : ℕ} (h : Right stored start last lastSentId t r (w + 1))
    (hwrap : NoWrap stored start last lastSentId) (hw : stored.Acknowledges start last w)
    (hsent : w ≤ t.lastSentId) :
    (w + 1) % 2 ^ 64 = w + 1 ∧ Caught stored start lastSentId t (w + 1) := by
  constructor
  · have hlt := stored.lt w hw.mem
    refine Nat.mod_eq_of_lt (Nat.lt_of_le_of_ne hlt fun heq => ?_)
    obtain rfl : w = 2 ^ 64 - 1 := by omega
    obtain ⟨hlast, hstale⟩ := hwrap hw
    rcases h.sent_cases with hcase | ⟨hcase, -⟩ <;> omega
  · rintro ⟨a, ha, hfresh⟩
    have ha := Finset.mem_between.mp ha
    rcases h.sent_cases with hcase | ⟨-, hprocessed, hle⟩
    · omega
    · obtain rfl : t.lastSentId = w := by omega
      -- what is still on its way comes after `w`, but `w` is the last one visited
      refine List.eq_nil_iff_forall_not_mem.mpr fun b hb => ?_
      have hsorted := stored.ids.between_pairwise start (t.lastSentId + 1)
      rw [← h.visited, List.pairwise_append] at hsorted
      have hlt := hsorted.2.2 _ hprocessed b hb
      have hmem : b ∈ stored.ids.between start (t.lastSentId + 1) :=
        h.visited ▸ List.mem_append_right _ hb
      have := (Finset.mem_between.mp hmem).2.2
      omega

/-- The phase after a step of `control_reader`. -/
theorem Right.phase_control (h : Right stored start last lastSentId t r x)
    (hwrap : NoWrap stored start last lastSentId) {pc : ControlPc}
    (hcontrol : Process.ControlStep r.settings t r.control v pc) :
    Phase stored start last lastSentId v { r with control := pc } x ∧
      (pc = .returned ∨ v.manager.state = .replaying) := by
  cases h.phase with
  | test hpc hquiet hcaught =>
    have hstate := h.busy.resolve_left (by simp [hpc])
    rw [hpc] at hcontrol
    cases hcontrol with
    | ask hreaches =>
      rw [Process.send, if_pos (by simp [hquiet.1, hquiet.2])]
      exact ⟨.asked rfl rfl hquiet.2 (h.reaches_iff.mp hreaches) hcaught, .inr hstate⟩
    | leave hleave =>
      have hbeyond := hleave.resolve_right (not_not_intro hstate)
      have hx : last < x := by
        rw [Bool.eq_false_iff, ne_eq, h.reaches_iff] at hbeyond
        omega
      exact ⟨.left (.inl rfl) hquiet (.inl hx) hcaught, .inr hstate⟩
  | asked hpc hrequest hresponse =>
    rw [hpc] at hcontrol
    cases hcontrol with
    | ack hresp | noImage hresp => cases hresponse.symm.trans hresp
    | retry _ hreq => cases hrequest.symm.trans hreq
  | acked hw hpc hrequest hresponse =>
    have hstate := h.busy.resolve_left (by simp [hpc])
    rw [hpc] at hcontrol
    cases hcontrol with
    | ack hresp =>
      obtain ⟨rfl⟩ := hresponse.symm.trans hresp
      exact ⟨.look hw rfl ⟨hrequest, rfl⟩, .inr hstate⟩
    | noImage hresp | retry hresp => cases hresponse.symm.trans hresp
  | noImage hpc hrequest hresponse hnone hcaught =>
    have hstate := h.busy.resolve_left (by simp [hpc])
    rw [hpc] at hcontrol
    cases hcontrol with
    | noImage hresp =>
      exact ⟨.left (.inl rfl) ⟨hrequest, rfl⟩ (.inr hnone) hcaught, .inr hstate⟩
    | ack hresp | retry hresp => cases hresponse.symm.trans hresp
  | look hw hpc hquiet =>
    have hstate := h.busy.resolve_left (by simp [hpc])
    rw [hpc] at hcontrol
    cases hcontrol with
    | pass hsent =>
      obtain ⟨hnext, hcaught⟩ := h.passed hwrap hw hsent
      rw [hnext]
      exact ⟨.test rfl hquiet hcaught, .inr hstate⟩
    | wait hsent =>
      exact ⟨.dozing hw (.inl rfl) hquiet fun hle => absurd hle (Nat.not_le_of_lt hsent),
        .inr hstate⟩
  | dozing hw hpc hquiet hnotify =>
    rcases hpc with hpc | hpc
    · have hstate := h.busy.resolve_left (by simp [hpc])
      rw [hpc] at hcontrol
      cases hcontrol
      exact ⟨.dozing hw (.inr rfl) hquiet hnotify, .inr hstate⟩
    · rw [hpc] at hcontrol
      cases hcontrol
  | left hpc hquiet hdone hcaught =>
    rcases hpc with hpc | hpc
    · rw [hpc] at hcontrol
      cases hcontrol
      exact ⟨.left (.inr rfl) hquiet hdone hcaught, .inl rfl⟩
    · rw [hpc] at hcontrol
      cases hcontrol

theorem Right.control (h : Right stored start last lastSentId t r x)
    (hwrap : NoWrap stored start last lastSentId) {pc : ControlPc}
    (hcontrol : Process.ControlStep r.settings t r.control v pc) :
    Right stored start last lastSentId v { r with control := pc } x := by
  obtain ⟨hphase, hbusy⟩ := h.phase_control hwrap hcontrol
  refine ⟨h.settings, hphase, h.frontier, ?_, h.pushed, ?_, hbusy, fun hleaving => ?_⟩
  · rw [hcontrol.published]
    exact h.visited
  · rw [hcontrol.lastSentId]
    exact h.sent
  · have hreturned := h.leaving hleaving
    exact absurd hreturned hcontrol.not_returned

theorem Right.forward (h : Right stored start last lastSentId t r x)
    (hforward : Process.ForwardStep t r v r') : Right stored start last lastSentId v r' x := by
  cases hforward with
  | again hpc =>
    refine ⟨h.settings, h.phase.replace rfl rfl rfl id fun w hnotify hle => ?_, h.frontier,
      h.visited, h.pushed, h.sent, h.busy, by simp⟩
    obtain ⟨nImages, hforward⟩ := hnotify hle
    cases hpc.symm.trans hforward
  | leave hpc hstate =>
    refine ⟨h.settings, h.phase.replace rfl rfl rfl id fun w hnotify hle => ?_, h.frontier,
      h.visited, h.pushed, h.sent, h.busy, fun _ => h.busy.resolve_right hstate⟩
    obtain ⟨nImages, hforward⟩ := hnotify hle
    cases hpc.symm.trans hforward
  | @push nImages id rest hpc hpublished hreaches =>
    refine ⟨h.settings, h.phase.replace rfl rfl rfl (by simp [hpublished]) fun _ _ _ => ⟨_, rfl⟩,
      h.frontier, ?_, ?_, ?_, h.busy, by simp⟩
    · simpa [hpublished] using h.visited
    · simp [h.pushed, h.reaches_iff.mp hreaches]
    · simp
  | @skip nImages id rest hpc hpublished hreaches =>
    have hbeyond : ¬ id ≤ last := by
      rw [← h.reaches_iff, hreaches]
      exact Bool.false_ne_true
    refine ⟨h.settings, h.phase.replace rfl rfl rfl (by simp [hpublished]) fun _ _ _ => ⟨_, rfl⟩,
      h.frontier, ?_, ?_, h.sent, h.busy, by simp⟩
    · simpa [hpublished] using h.visited
    · simp [h.pushed, hbeyond]
  | finish hpc =>
    have hreturned := h.leaving (.inl hpc)
    refine ⟨h.settings, h.phase.replace rfl rfl rfl id fun w hnotify hle => ?_, h.frontier,
      h.visited, h.pushed, h.sent, .inl hreturned, fun _ => hreturned⟩
    obtain ⟨nImages, hforward⟩ := hnotify hle
    cases hpc.symm.trans hforward

theorem Right.timeout (h : Right stored start last lastSentId t r x) {nImages : ℕ}
    (hpc : r.forward = .receive nImages) :
    Right stored start last lastSentId t { r with forward := .test nImages } x := by
  refine ⟨h.settings, h.phase.replace rfl rfl rfl id fun w hnotify hle => ?_, h.frontier,
    h.visited, h.pushed, h.sent, h.busy, by simp⟩
  obtain ⟨n, hforward⟩ := hnotify hle
  cases hpc.symm.trans hforward

theorem Right.notify (h : Right stored start last lastSentId t r x) (nImages : ℕ)
    (hheard : r.isFallingAsleep = false) :
    Right stored start last lastSentId t { r with forward := .test nImages }.wake x := by
  cases hasleep : { r with forward := ForwardPc.test nImages }.isAsleep with
  | true =>
    obtain ⟨w, i, hcontrol⟩ := Replay.isAsleep_iff.mp hasleep
    have hcontrol : r.control = .asleep w i := hcontrol
    have hphase : Phase stored start last lastSentId t { r with
        control := .look w i, forward := .test nImages } x := by
      cases h.phase with
      | dozing hw hpc hquiet =>
        rcases hpc with hpc | hpc
        · cases hcontrol.symm.trans hpc
        · cases hcontrol.symm.trans hpc
          exact .look hw rfl hquiet
      | test hpc | asked hpc | acked _ hpc | noImage hpc | look _ hpc =>
        cases hcontrol.symm.trans hpc
      | left hpc =>
        rcases hpc with hpc | hpc <;> cases hcontrol.symm.trans hpc
    have hwake : { r with forward := ForwardPc.test nImages }.wake =
        { r with control := .look w i, forward := .test nImages } := by
      rw [Replay.wake, hcontrol]
    have hstate := h.busy.resolve_left (by simp [hcontrol])
    rw [hwake]
    exact ⟨h.settings, hphase, h.frontier, h.visited, h.pushed, h.sent, .inr hstate, by simp⟩
  | false =>
    rw [Replay.wake_of_not_asleep hasleep]
    have hphase : Phase stored start last lastSentId t { r with forward := .test nImages } x := by
      cases h.phase with
      | dozing hw hpc hquiet hnotify =>
        -- nobody sleeps, and nobody is about to
        rcases hpc with hpc | hpc
        · rw [Replay.isFallingAsleep, hpc] at hheard
          cases hheard
        · rw [Replay.isAsleep, hpc] at hasleep
          cases hasleep
      | test hpc hquiet hcaught => exact .test hpc hquiet hcaught
      | asked hpc hrequest hresponse hx hcaught =>
        exact .asked hpc hrequest hresponse hx hcaught
      | acked hw hpc hrequest hresponse => exact .acked hw hpc hrequest hresponse
      | noImage hpc hrequest hresponse hnone hcaught =>
        exact .noImage hpc hrequest hresponse hnone hcaught
      | look hw hpc hquiet => exact .look hw hpc hquiet
      | left hpc hquiet hdone hcaught => exact .left hpc hquiet hdone hcaught
    exact ⟨h.settings, hphase, h.frontier, h.visited, h.pushed, h.sent, h.busy, by simp⟩

theorem Right.read (h : Right stored start last lastSentId t r x) {request : RequestNextImage}
    {answer : Option ℕ} (hrequest : t.request = some request)
    (hnext : stored.IsNext request.imageId answer) :
    ∃ y, Right stored start last lastSentId (t.answer answer true) r y := by
  cases h.phase with
  | asked hpc hreq hresponse hx hcaught =>
    obtain rfl := Option.some.inj (hrequest.symm.trans hreq)
    cases answer with
    | none =>
      exact ⟨x, h.settings, .noImage hpc rfl rfl hnext hcaught, h.frontier, h.visited, h.pushed,
        h.sent, h.busy, h.leaving⟩
    | some w =>
      obtain ⟨hstored, hle, hleast⟩ := hnext
      have hw : stored.Acknowledges start last w :=
        StoredIds.IsNext.acknowledges ⟨hstored, hle, hleast⟩ h.start_le hx
      refine ⟨w + 1, h.settings, .acked hw hpc rfl rfl, .inr ⟨w, hw, rfl⟩, ?_, h.pushed, h.sent,
        h.busy, h.leaving⟩
      rw [Finset.between_succ h.start_le hstored hle hleast, ← h.visited]
      exact (List.append_assoc ..).symm
  | test _ hquiet | look _ _ hquiet | dozing _ _ hquiet | left _ hquiet =>
    cases hrequest.symm.trans hquiet.1
  | acked _ _ hnone | noImage _ hnone => cases hrequest.symm.trans hnone

/-- **The invariant of an undisturbed replay.** -/
theorem Right.step (h : Right stored start last lastSentId t r x)
    (hwrap : NoWrap stored start last lastSentId) (hsolo : SoloStep stored t r v r') :
    ∃ y, Right stored start last lastSentId v r' y := by
  cases hsolo with
  | control hcontrol => exact ⟨x, h.control hwrap hcontrol⟩
  | forward hforward => exact ⟨x, h.forward hforward⟩
  | timeout hpc => exact ⟨x, h.timeout hpc⟩
  | notify _ hheard => exact ⟨x, h.notify _ hheard⟩
  | read hrequest hnext => exact h.read hrequest hnext

theorem right_start : Right stored start last lastSentId
    (.replaying ⟨start, some last⟩ lastSentId) (.fresh ⟨start, some last⟩) start where
  settings := rfl
  phase := .test rfl ⟨rfl, rfl⟩ fun _ => rfl
  frontier := .inl rfl
  visited := (Finset.between_eq_nil_iff.mpr fun _ _ h => h).symm
  pushed := rfl
  sent := rfl
  busy := .inr rfl
  leaving := by simp [Replay.fresh]

/-! ### What is pushed -/

/-- What has been pushed is the beginning of what was asked for. -/
theorem Right.pushed_prefix (h : Right stored start last lastSentId t r x) :
    r.pushed <+: requested stored ⟨start, some last⟩ := by
  rw [h.pushed, requested_some]
  have hprocessed : r.processed <+: stored.ids.between start x := ⟨t.published, h.visited⟩
  refine (hprocessed.filter _).trans ?_
  rw [Finset.between_filter_le]
  rcases Nat.le_total start (last + 1) with hle | hge
  · exact Finset.between_prefix (le_min h.start_le hle) (min_le_right _ _)
  · rw [Finset.between_eq_nil_iff.mpr fun i _ hi => (min_le_right _ _).trans (hge.trans hi)]
    exact List.nil_prefix

/-- When everything in the range has been visited and nothing is on its way, all has been pushed. -/
theorem Right.pushed_eq (h : Right stored start last lastSentId t r x)
    (hdone : ∀ i ∈ stored.ids, start ≤ i → i ≤ last → i < x) (hpublished : t.published = []) :
    r.pushed = requested stored ⟨start, some last⟩ := by
  have hvisited := h.visited
  rw [hpublished, List.append_nil] at hvisited
  rw [h.pushed, requested_some, hvisited, Finset.between_filter_le]
  refine Finset.eq_between (Finset.between_pairwise _ _ _) fun i => ?_
  rw [Finset.mem_between]
  constructor
  · rintro ⟨hs, hi⟩
    exact ⟨hs, by omega⟩
  · rintro ⟨hs, hi⟩
    have := hdone i hs hi.1 (by omega)
    exact ⟨hs, by omega⟩

/-- `control_reader` ends the replay after all images have been pushed, if it has waited for one of
them. -/
theorem Right.pushed_of_left (h : Right stored start last lastSentId t r x)
    (hfresh : ∃ a, stored.Acknowledges start last a ∧ lastSentId < a)
    (hpc : r.control = .finish ∨ r.control = .returned) :
    r.pushed = requested stored ⟨start, some last⟩ := by
  obtain ⟨hdone, hcaught⟩ : (last < x ∨ stored.IsNext x none) ∧
      Caught stored start lastSentId t x := by
    cases h.phase with
    | left _ _ hdone hcaught => exact ⟨hdone, hcaught⟩
    | test hpc' | asked hpc' | acked _ hpc' | noImage hpc' | look _ hpc' =>
      rcases hpc with hpc | hpc <;> cases hpc.symm.trans hpc'
    | dozing _ hpc' =>
      rcases hpc with hpc | hpc <;> rcases hpc' with hpc' | hpc' <;> cases hpc.symm.trans hpc'
  refine h.pushed_eq (fun i hi hstart hlast => ?_) (hcaught ?_)
  · rcases hdone with hx | hnone
    · omega
    · exact hnone i hi
  · obtain ⟨a, ha, hfresh⟩ := hfresh
    refine ⟨a, Finset.mem_between.mpr ⟨ha.mem, ha.start_le, ?_⟩, hfresh⟩
    rcases hdone with hx | hnone
    · -- the last id that was visited is at or after the end, and `a` is asked for after it
      rcases h.frontier with rfl | ⟨w, hw, rfl⟩
      · have := ha.asked
        omega
      · by_contra hge
        have := ha.before w hw.mem hw.start_le (by omega)
        omega
    · exact hnone a ha.mem

/-! ### The rank -/

/-- How far `control_reader` is from its next request. -/
def controlRank (response : Option NextImageResponse) : ControlPc → ℕ
  | .test _ _ => 8
  | .receive _ =>
    match response with
    | some (.ack _) => 12
    | some .noImage => 6
    | none => 7
  | .look _ _ => 11
  | .sleep _ _ => 10
  | .asleep _ _ => 9
  | .finish => 5
  | .returned => 4

/-- How far `forward_images` is from its next image. -/
def forwardRank : ForwardPc → ℕ
  | .notify _ => 5
  | .test _ | .receive _ => 2
  | .finish => 1
  | .returned => 0

/-- What there is to do. An image that has not been visited weighs more than one that is on its way,
and a notification pays for the look that it causes. -/
def rankOf (stored : StoredIds) (t : Process) (r : Replay) : ℕ :=
  20 * (stored.ids.card - (r.processed.length + t.published.length)) + 10 * t.published.length +
    controlRank t.response r.control + forwardRank r.forward

theorem Right.visited_le (h : Right stored start last lastSentId t r x) :
    r.processed.length + t.published.length ≤ stored.ids.card := by
  rw [← List.length_append, h.visited]
  exact stored.ids.length_between_le start x

theorem Right.controlRank_lt (h : Right stored start last lastSentId t r x) {pc : ControlPc}
    (hcontrol : Process.ControlStep r.settings t r.control v pc) :
    controlRank v.response pc < controlRank t.response r.control := by
  have hphase := h.phase
  generalize hpc₀ : r.control = pc₀ at hcontrol ⊢
  cases hcontrol with
  | ask =>
    cases hphase with
    | test _ hquiet =>
      rw [Process.send, if_pos (by simp [hquiet.1, hquiet.2])]
      simp [controlRank, hquiet.2]
    | asked hpc | acked _ hpc | noImage hpc | look _ hpc => cases hpc₀.symm.trans hpc
    | dozing _ hpc | left hpc => rcases hpc with hpc | hpc <;> cases hpc₀.symm.trans hpc
  | retry hresponse hrequest =>
    -- a request or a response is on its way
    cases hphase with
    | asked _ hreq => cases hrequest.symm.trans hreq
    | acked _ _ _ hresp | noImage _ _ hresp => cases hresponse.symm.trans hresp
    | test hpc | look _ hpc => cases hpc₀.symm.trans hpc
    | dozing _ hpc | left hpc => rcases hpc with hpc | hpc <;> cases hpc₀.symm.trans hpc
  | ack hresponse | noImage hresponse => simp [controlRank, hresponse]
  | leave | pass | wait | sleep | finish => simp [controlRank]

/-- Waiting leaves the rank as it is. -/
theorem rankOf_of_idlesTo (hsolo : SoloStep stored t r v r') (hidle : r.IdlesTo r') :
    r'.pushed = r.pushed ∧ rankOf stored v r' = rankOf stored t r := by
  cases hsolo with
  | control => exact absurd hidle (Replay.not_idlesTo_of_eq rfl)
  | forward hforward =>
    cases hforward with
    | again hpc => exact ⟨rfl, by simp only [rankOf, hpc, forwardRank]⟩
    | leave | push | skip | finish =>
      obtain ⟨n, ⟨-, hafter⟩ | ⟨-, hafter⟩⟩ := hidle <;> cases hafter
  | timeout hpc => exact ⟨rfl, by simp only [rankOf, hpc, forwardRank]⟩
  | notify hpc => exact absurd hidle (Replay.not_idlesTo_notify hpc)
  | read => exact absurd hidle (Replay.not_idlesTo_of_eq rfl)

/-- Every other step lowers the rank. -/
theorem Right.rankOf_lt (h : Right stored start last lastSentId t r x)
    (hsolo : SoloStep stored t r v r') {y : ℕ} (h' : Right stored start last lastSentId v r' y)
    (hidle : ¬ r.IdlesTo r') : rankOf stored v r' < rankOf stored t r := by
  cases hsolo with
  | control hcontrol =>
    have := h.controlRank_lt hcontrol
    simp only [rankOf, hcontrol.published]
    omega
  | forward hforward =>
    cases hforward with
    | @again nImages hpc => exact absurd ⟨nImages, .inr ⟨hpc, rfl⟩⟩ hidle
    | leave hpc | finish hpc =>
      simp only [rankOf, hpc, forwardRank]
      omega
    | push hpc hpublished | skip hpc hpublished =>
      simp only [rankOf, hpc, hpublished, forwardRank, controlRank, List.length_append,
        List.length_cons, List.length_nil]
      omega
  | @timeout nImages hpc => exact absurd ⟨nImages, .inl ⟨hpc, rfl⟩⟩ hidle
  | @notify nImages hpc hheard =>
    have hwake : controlRank t.response { r with forward := .test nImages }.wake.control ≤
        controlRank t.response r.control + 2 := by
      rw [Replay.wake]
      split
      · next hcontrol => simp [controlRank, show r.control = _ from hcontrol]
      · simp
    have hrest : { r with forward := .test nImages }.wake.forward = .test nImages ∧
        { r with forward := .test nImages }.wake.processed = r.processed := by
      rw [Replay.wake]
      split <;> exact ⟨rfl, rfl⟩
    simp only [rankOf, hpc, hrest.1, hrest.2, forwardRank]
    omega
  | @read request answer hrequest hnext =>
    have hle := h'.visited_le
    cases h.phase with
    | asked hpc _ hresponse =>
      cases answer with
      | none =>
        simp [rankOf, hpc, Process.answer, controlRank, hresponse]
      | some w =>
        simp only [Process.answer, if_true, List.length_append, List.length_singleton] at hle
        simp only [rankOf, hpc, Process.answer, if_true, List.length_append, List.length_singleton,
          controlRank, hresponse]
        omega
    | test _ hquiet | look _ _ hquiet | dozing _ _ hquiet | left _ hquiet =>
      cases hrequest.symm.trans hquiet.1
    | acked _ _ hnone | noImage _ hnone => cases hrequest.symm.trans hnone

/-! ### Progress -/

theorem SoloStep.goingOn (hr : t.replays = [r]) (h : SoloStep stored t r v r')
    (hidle : ¬ r.IdlesTo r') : ∃ e u, GoingOn stored t e u := by
  obtain ⟨e, hstep⟩ := h.exists_step hr
  exact ⟨e, _, [], t, .nil, fun hidles => hidle ((idles_iff hr hstep rfl).mp hidles), hstep⟩

theorem ControlStep.goingOn {pc pc' : ControlPc} (hr : t.replays = [r]) (hpc : r.control = pc)
    (h : Process.ControlStep r.settings t pc v pc') : ∃ e u, GoingOn stored t e u := by
  subst hpc
  exact SoloStep.goingOn hr (.control h) (Replay.not_idlesTo_of_eq rfl)

/-- `forward_images` receives what has been published, also when it is at the test of the loop. -/
theorem goingOn_of_published {nImages id : ℕ} {rest : List ℕ} (hr : t.replays = [r])
    (hstate : t.manager.state = .replaying)
    (hforward : r.forward = .test nImages ∨ r.forward = .receive nImages)
    (hpublished : t.published = id :: rest) : ∃ e u, GoingOn stored t e u := by
  have hreceive : ∀ t r, t.replays = [r] → r.forward = .receive nImages →
      t.published = id :: rest → ∃ e u, GoingOn stored t e u := by
    intro t r hr hforward hpublished
    have hidle : ∀ {r' : Replay} {n : ℕ}, r'.forward = .notify n → ¬ r.IdlesTo r' := by
      rintro r' n hnotify ⟨m, ⟨-, hafter⟩ | ⟨-, hafter⟩⟩ <;> cases hnotify.symm.trans hafter
    cases hreaches : r.settings.reaches id with
    | true => exact SoloStep.goingOn hr (.forward (.push hforward hpublished hreaches)) (hidle rfl)
    | false => exact SoloStep.goingOn hr (.forward (.skip hforward hpublished hreaches)) (hidle rfl)
  rcases hforward with hforward | hforward
  · have hsolo : SoloStep stored t r t { r with forward := .receive nImages } :=
      .forward (.again hforward hstate)
    obtain ⟨e, hstep⟩ := hsolo.exists_step hr
    have hidles : Idles t e := (idles_iff hr hstep rfl).mpr ⟨nImages, .inr ⟨hforward, rfl⟩⟩
    obtain ⟨e', u, es, t', hrun, hlast⟩ := hreceive
      { t with replays := [{ r with forward := .receive nImages }] } _ rfl rfl hpublished
    exact ⟨e', u, e :: es, t', Run.cons_iff.mpr ⟨_, ⟨hidles, hstep⟩, hrun⟩, hlast⟩
  · exact hreceive t r hr hforward hpublished

/-- When nothing is on its way to `forward_images` that has a notification to come, the image that
`control_reader` waits for is beyond the end. -/
theorem Right.beyond_of_published_eq_nil {w : ℕ}
    (h : Right stored start last lastSentId t r (w + 1)) (hw : stored.Acknowledges start last w)
    (hpublished : t.published = []) (hsent : ¬ w ≤ t.lastSentId) : last < w := by
  by_contra hle
  refine hsent ?_
  have hvisited := h.visited
  rw [hpublished, List.append_nil,
    Finset.between_succ hw.start_le hw.mem le_rfl fun _ _ hj => hj] at hvisited
  have hpushed := h.pushed
  rw [hvisited, List.filter_append, List.filter_singleton] at hpushed
  rw [h.sent, hpushed]
  simp [Nat.le_of_not_lt hle]

/-- While there is an image to push, one of the threads or the reader can go on. -/
theorem Right.enabled (h : Right stored start last lastSentId t r x) (hr : t.replays = [r])
    (hfresh : ∃ a, stored.Acknowledges start last a ∧ lastSentId < a)
    (hopen : r.pushed ≠ requested stored ⟨start, some last⟩) :
    ∃ e u, GoingOn stored t e u := by
  cases h.phase with
  | test hpc hquiet =>
    have hstate := h.busy.resolve_left (by simp [hpc])
    cases hreaches : r.settings.reaches x with
    | true => exact ControlStep.goingOn hr hpc (.ask hreaches hstate)
    | false => exact ControlStep.goingOn hr hpc (.leave (.inl hreaches))
  | asked hpc hrequest =>
    obtain ⟨answer, hnext⟩ := stored.exists_isNext x
    exact SoloStep.goingOn hr (.read hrequest hnext) (Replay.not_idlesTo_of_eq rfl)
  | acked _ hpc _ hresponse => exact ControlStep.goingOn hr hpc (.ack hresponse)
  | noImage hpc _ hresponse => exact ControlStep.goingOn hr hpc (.noImage hresponse)
  | @look w _ hpc =>
    rcases Nat.lt_or_ge t.lastSentId w with hlt | hge
    · exact ControlStep.goingOn hr hpc (.wait hlt)
    · exact ControlStep.goingOn hr hpc (.pass hge)
  | @dozing w hw hpc _ hnotify =>
    rcases hpc with hpc | hpc
    · exact ControlStep.goingOn hr hpc .sleep
    · -- `control_reader` sleeps, so `forward_images` has something to do
      have hstate := h.busy.resolve_left (by simp [hpc])
      have hreceive : ∀ nImages, r.forward = .test nImages ∨ r.forward = .receive nImages →
          ∃ e u, GoingOn stored t e u := by
        intro nImages hforward
        cases hpublished : t.published with
        | nil =>
          have hbeyond : last < w := by
            refine h.beyond_of_published_eq_nil hw hpublished fun hsent => ?_
            obtain ⟨n, hn⟩ := hnotify hsent
            rcases hforward with hforward | hforward <;> cases hforward.symm.trans hn
          exact absurd (h.pushed_eq (fun i _ _ hi => by omega) hpublished) hopen
        | cons id rest => exact goingOn_of_published hr hstate hforward hpublished
      cases hforward : r.forward with
      | test nImages => exact hreceive nImages (.inl hforward)
      | receive nImages => exact hreceive nImages (.inr hforward)
      | notify nImages =>
        exact SoloStep.goingOn hr (.notify hforward (by rw [Replay.isFallingAsleep, hpc]))
          (Replay.not_idlesTo_notify hforward)
      | finish | returned => cases hpc.symm.trans (h.leaving (by simp [hforward]))
  | left hpc => exact absurd (h.pushed_of_left hfresh hpc) hopen

/-- The rank of a process with one replay. -/
def rank (stored : StoredIds) (t : Process) : ℕ := (t.replays.map (rankOf stored t)).sum

/-- The process is in order and has something to push. -/
def Open (stored : StoredIds) (start last lastSentId : ℕ) (t : Process) : Prop :=
  ∃ r x, t.replays = [r] ∧ Right stored start last lastSentId t r x ∧
    r.pushed ≠ requested stored ⟨start, some last⟩

/-- What a step does to a process that has something to push. -/
theorem Open.step (h : Open stored start last lastSentId t)
    (hwrap : NoWrap stored start last lastSentId) {e : Event}
    (hstep : UndisturbedStep stored t e u) :
    (Idles t e → Open stored start last lastSentId u ∧ rank stored u ≤ rank stored t) ∧
      (¬ Idles t e → PushedAll stored ⟨start, some last⟩ u ∨
        Open stored start last lastSentId u ∧ rank stored u < rank stored t) := by
  obtain ⟨r, x, hr, h, hopen⟩ := h
  obtain ⟨v, r', hsolo, rfl⟩ := soloStep_of_step hr hstep
  obtain ⟨y, h'⟩ := h.step hwrap hsolo
  have hrank : rank stored t = rankOf stored t r := by simp [rank, hr]
  have hrank' : rank stored { v with replays := [r'] } = rankOf stored v r' := by
    simp [rank, rankOf]
  rw [idles_iff hr hstep rfl, hrank, hrank']
  constructor
  · intro hidle
    obtain ⟨hpushed, heq⟩ := rankOf_of_idlesTo hsolo hidle
    exact ⟨⟨r', y, rfl, h'.with_replays, hpushed ▸ hopen⟩, heq.le⟩
  · intro hidle
    by_cases hall : r'.pushed = requested stored ⟨start, some last⟩
    · exact .inl ⟨r', rfl, hall⟩
    · exact .inr ⟨⟨r', y, rfl, h'.with_replays, hall⟩, h.rankOf_lt hsolo h' hidle⟩

/-- **All that was asked for is pushed**, whatever the threads and the reader do when. -/
theorem Right.inevitable (h : Right stored start last lastSentId t r x) (hr : t.replays = [r])
    (hwrap : NoWrap stored start last lastSentId)
    (hfresh : ∃ a, stored.Acknowledges start last a ∧ lastSentId < a) :
    Inevitable (GoingOn stored) (PushedAll stored ⟨start, some last⟩) t := by
  by_cases hopen : r.pushed = requested stored ⟨start, some last⟩
  · exact .now ⟨r, hr, hopen⟩
  refine Inevitable.of_rank_delayed (rank stored) (P := Open stored start last lastSentId)
    ?_ ?_ ?_ ⟨r, x, hr, h, hopen⟩
  · exact fun t e u h hidle hstep => (h.step hwrap hstep).1 hidle
  · exact fun t e u h hidle hstep => (h.step hwrap hstep).2 hidle
  · rintro t ⟨r, x, hr, h, hopen⟩
    exact h.enabled hr hfresh hopen

/-- In every state of an undisturbed replay that does not come around, the invariant holds. -/
theorem right_of_run (hwrap : NoWrap stored start last lastSentId) {es : List Event}
    (hrun : Run (UndisturbedStep stored) (.replaying ⟨start, some last⟩ lastSentId) es t) :
    ∃ r x, t.replays = [r] ∧ Right stored start last lastSentId t r x := by
  refine hrun.invariant (P := fun t => ∃ r x, t.replays = [r] ∧
    Right stored start last lastSentId t r x) ?_ ⟨_, _, rfl, right_start⟩
  rintro t e u ⟨r, x, hr, h⟩ hstep
  obtain ⟨v, r', hsolo, rfl⟩ := soloStep_of_step hr hstep
  obtain ⟨y, h'⟩ := h.step hwrap hsolo
  exact ⟨r', y, rfl, h'.with_replays⟩

end Replayer

end StdDaq
