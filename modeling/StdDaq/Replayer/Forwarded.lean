import StdDaq.Replayer.Range

/-!
# When a replay forwards the requested range

The replays that go wrong, and with them the exact condition. There are three kinds.

Without an end nothing is forwarded. The comparison with an empty `std::optional` is always false,
so `control_reader` asks for nothing at all.

When every id that is acknowledged is at most the `last_sent_id` of an earlier replay,
`control_reader` waits for nothing. It can be through with its requests and end the replay before
`forward_images` has received an image.

When the id 2⁶⁴ - 1 is acknowledged and waited for with success, the next request is for the id 0,
and images are forwarded that were not asked for, or once more.

## Main results

* `replaysRange_iff` — when a replay forwards exactly the requested range
-/

namespace StdDaq

namespace Replayer

variable {stored : StoredIds} {start last lastSentId x w : ℕ} {newRequest : Bool}
  {settings : ReplaySettings} {published pushed : List ℕ} {t u v : Process} {r r' : Replay}

/-! ### Building runs -/

/-- Where a replay is, when it is on: between two steps of `control_reader` and of the reader, with
`forward_images` at `forward`. -/
structure Situation where
  settings : ReplaySettings
  control : ControlPc
  request : Option RequestNextImage := none
  response : Option NextImageResponse := none
  forward : ForwardPc
  published : List ℕ
  lastSentId : ℕ
  pushed : List ℕ

/-- The only replay is in the situation. -/
structure Situation.At (s : Situation) (t : Process) (r : Replay) : Prop where
  settings : r.settings = s.settings
  control : r.control = s.control
  request : t.request = s.request
  response : t.response = s.response
  forward : r.forward = s.forward
  published : t.published = s.published
  sent : t.lastSentId = s.lastSentId
  pushed : r.pushed = s.pushed
  state : t.manager.state = .replaying

def Situation.Holds (s : Situation) (t : Process) : Prop := ∃ r, t.replays = [r] ∧ s.At t r

/-- A step of the replay. -/
theorem canReach_of_solo {s s' : Situation}
    (hstep : ∀ t r, s.At t r → ∃ v r', SoloStep stored t r v r' ∧ s'.At v r') :
    CanReach (UndisturbedStep stored) s.Holds s'.Holds := by
  refine .single ?_
  rintro t ⟨r, hr, hat⟩
  obtain ⟨v, r', hsolo, hat'⟩ := hstep t r hat
  obtain ⟨e, hundisturbed⟩ := hsolo.exists_step hr
  refine ⟨e, _, hundisturbed, r', rfl, ?_⟩
  exact ⟨hat'.settings, hat'.control, hat'.request, hat'.response, hat'.forward, hat'.published,
    hat'.sent, hat'.pushed, hat'.state⟩

section Turn

variable {s : Situation}

theorem canReach_ask (hcontrol : s.control = .test newRequest x) (hrequest : s.request = none)
    (hresponse : s.response = none) (hreaches : s.settings.reaches x = true) :
    CanReach (UndisturbedStep stored) s.Holds
      { s with control := .receive x, request := some ⟨x, newRequest⟩ : Situation }.Holds := by
  refine canReach_of_solo fun t r hat =>
    ⟨t.send ⟨x, newRequest⟩, { r with control := .receive x }, .control ?_, ?_⟩
  · rw [hat.control, hat.settings, hcontrol]
    exact .ask hreaches hat.state
  · rw [Process.send, if_pos (by simp [hat.request, hat.response, hrequest, hresponse])]
    exact ⟨hat.settings, rfl, rfl, hat.response, hat.forward, hat.published, hat.sent, hat.pushed,
      hat.state⟩

theorem canReach_answer {request : RequestNextImage} (hrequest : s.request = some request)
    (hnext : stored.IsNext request.imageId (some w)) :
    CanReach (UndisturbedStep stored) s.Holds
      { s with
        request := none
        response := some (.ack w)
        published := s.published ++ [w] : Situation }.Holds := by
  refine canReach_of_solo fun t r hat => ⟨_, r, .read (hat.request.trans hrequest) hnext, ?_⟩
  refine ⟨hat.settings, hat.control, rfl, rfl, hat.forward, ?_, hat.sent, hat.pushed, hat.state⟩
  simp [Process.answer, hat.published]

theorem canReach_ack (hcontrol : s.control = .receive x) (hresponse : s.response = some (.ack w)) :
    CanReach (UndisturbedStep stored) s.Holds
      { s with control := .look w ((w + 1) % 2 ^ 64), response := none : Situation }.Holds := by
  refine canReach_of_solo fun t r hat => ⟨{ t with response := none },
    { r with control := .look w ((w + 1) % 2 ^ 64) }, .control ?_, ?_⟩
  · rw [hat.control, hcontrol]
    exact .ack (hat.response.trans hresponse)
  · exact ⟨hat.settings, rfl, hat.request, rfl, hat.forward, hat.published, hat.sent, hat.pushed,
      hat.state⟩

theorem canReach_pass (hcontrol : s.control = .look w x) (hsent : w ≤ s.lastSentId) :
    CanReach (UndisturbedStep stored) s.Holds
      { s with control := .test false x : Situation }.Holds := by
  refine canReach_of_solo fun t r hat =>
    ⟨t, { r with control := .test false x }, .control ?_, ?_⟩
  · rw [hat.control, hcontrol]
    exact .pass (hat.sent ▸ hsent)
  · exact ⟨hat.settings, rfl, hat.request, hat.response, hat.forward, hat.published, hat.sent,
      hat.pushed, hat.state⟩

/-- A request and its answer. -/
theorem canReach_read (hcontrol : s.control = .test newRequest x) (hrequest : s.request = none)
    (hresponse : s.response = none) (hreaches : s.settings.reaches x = true)
    (hnext : stored.IsNext x (some w)) :
    CanReach (UndisturbedStep stored) s.Holds
      { s with
        control := .receive x
        request := none
        response := some (.ack w)
        published := s.published ++ [w] : Situation }.Holds :=
  (canReach_ask hcontrol hrequest hresponse hreaches).trans (canReach_answer rfl hnext)

/-- A wait that is over at once. -/
theorem canReach_next (hcontrol : s.control = .receive x) (hresponse : s.response = some (.ack w))
    (hsent : w ≤ s.lastSentId) :
    CanReach (UndisturbedStep stored) s.Holds
      { s with control := .test false ((w + 1) % 2 ^ 64), response := none : Situation }.Holds :=
  (canReach_ack hcontrol hresponse).trans (canReach_pass rfl hsent)

/-- The end of the range. -/
theorem canReach_leave (hcontrol : s.control = .test newRequest x)
    (hreaches : s.settings.reaches x = false) :
    CanReach (UndisturbedStep stored) s.Holds
      { s with control := .finish : Situation }.Holds := by
  refine canReach_of_solo fun t r hat => ⟨t, { r with control := .finish }, .control ?_, ?_⟩
  · rw [hat.control, hat.settings, hcontrol]
    exact .leave (.inl hreaches)
  · exact ⟨hat.settings, rfl, hat.request, hat.response, hat.forward, hat.published, hat.sent,
      hat.pushed, hat.state⟩

/-- The end of the stored images. -/
theorem canReach_noImage (hcontrol : s.control = .test newRequest x) (hrequest : s.request = none)
    (hresponse : s.response = none) (hreaches : s.settings.reaches x = true)
    (hnext : stored.IsNext x none) :
    CanReach (UndisturbedStep stored) s.Holds
      { s with control := .finish : Situation }.Holds := by
  have hanswer : CanReach (UndisturbedStep stored)
      { s with control := .receive x, request := some ⟨x, newRequest⟩ : Situation }.Holds
      { s with control := .receive x, response := some .noImage : Situation }.Holds := by
    refine canReach_of_solo fun t r hat => ⟨_, r, .read hat.request hnext, ?_⟩
    exact ⟨hat.settings, hat.control, hrequest.symm, rfl, hat.forward, hat.published, hat.sent,
      hat.pushed, hat.state⟩
  have hfinish : CanReach (UndisturbedStep stored)
      { s with control := .receive x, response := some .noImage : Situation }.Holds
      { s with control := .finish : Situation }.Holds := by
    refine canReach_of_solo fun t r hat => ⟨{ t with response := none },
      { r with control := .finish }, .control ?_, ?_⟩
    · rw [hat.control]
      exact .noImage hat.response
    · exact ⟨hat.settings, rfl, hat.request, hresponse.symm, hat.forward, hat.published, hat.sent,
        hat.pushed, hat.state⟩
  exact ((canReach_ask hcontrol hrequest hresponse hreaches).trans hanswer).trans hfinish

end Turn

/-- `forward_images` handles an image while `control_reader` is at its receive. -/
theorem canReach_forward (stored : StoredIds) {s : Situation} {nImages id : ℕ} {rest : List ℕ}
    (hcontrol : s.control = .receive x) (hforward : s.forward = .test nImages)
    (hpublished : s.published = id :: rest) :
    CanReach (UndisturbedStep stored) s.Holds
      { s with
        forward := .test (if s.settings.reaches id then nImages + 1 else nImages)
        published := rest
        lastSentId := if s.settings.reaches id then id else s.lastSentId
        pushed := s.pushed ++ [id].filter s.settings.reaches : Situation }.Holds := by
  have hagain : CanReach (UndisturbedStep stored) s.Holds
      { s with forward := .receive nImages : Situation }.Holds := by
    refine canReach_of_solo fun t r hat =>
      ⟨t, _, .forward (.again (hat.forward.trans hforward) hat.state), ?_⟩
    exact ⟨hat.settings, hat.control, hat.request, hat.response, rfl, hat.published, hat.sent,
      hat.pushed, hat.state⟩
  have hnotify : ∀ {s' : Situation} {n : ℕ}, s'.control = .receive x → s'.forward = .notify n →
      CanReach (UndisturbedStep stored) s'.Holds
        { s' with forward := .test n : Situation }.Holds := by
    intro s' n hcontrol' hforward'
    refine canReach_of_solo fun t r hat => ?_
    have hpc := hat.control.trans hcontrol'
    refine ⟨t, _, .notify (hat.forward.trans hforward') (by rw [Replay.isFallingAsleep, hpc]), ?_⟩
    rw [Replay.wake_of_not_asleep (by rw [Replay.isAsleep, hpc])]
    exact ⟨hat.settings, hat.control, hat.request, hat.response, rfl, hat.published, hat.sent,
      hat.pushed, hat.state⟩
  cases hreaches : s.settings.reaches id with
  | true =>
    have hpush : CanReach (UndisturbedStep stored)
        { s with forward := .receive nImages : Situation }.Holds
        { s with
          forward := .notify (nImages + 1)
          published := rest
          lastSentId := id
          pushed := s.pushed ++ [id] : Situation }.Holds := by
      refine canReach_of_solo fun t r hat =>
        ⟨_, _, .forward (.push hat.forward (hat.published.trans hpublished) ?_), ?_⟩
      · exact hat.settings ▸ hreaches
      · exact ⟨hat.settings, hat.control, hat.request, hat.response, rfl, rfl, rfl,
          congrArg (· ++ [id]) hat.pushed, hat.state⟩
    have hfilter : [id].filter s.settings.reaches = [id] := by simp [hreaches]
    rw [hfilter]
    exact (hagain.trans hpush).trans (hnotify hcontrol rfl)
  | false =>
    have hskip : CanReach (UndisturbedStep stored)
        { s with forward := .receive nImages : Situation }.Holds
        { s with forward := .notify nImages, published := rest : Situation }.Holds := by
      refine canReach_of_solo fun t r hat =>
        ⟨_, _, .forward (.skip hat.forward (hat.published.trans hpublished) ?_), ?_⟩
      · exact hat.settings ▸ hreaches
      · exact ⟨hat.settings, hat.control, hat.request, hat.response, rfl, rfl, hat.sent, hat.pushed,
          hat.state⟩
    have hfilter : [id].filter s.settings.reaches = [] := by simp [hreaches]
    rw [hfilter, List.append_nil]
    exact (hagain.trans hskip).trans (hnotify hcontrol rfl)

/-- `forward_images` handles all that is on its way. -/
theorem canReach_drain {s : Situation} {nImages : ℕ} (hcontrol : s.control = .receive x)
    (hforward : s.forward = .test nImages) :
    CanReach (UndisturbedStep stored) s.Holds
      (fun t => ∃ r, t.replays = [r] ∧
        r.pushed = s.pushed ++ s.published.filter s.settings.reaches) := by
  generalize hpublished : s.published = l
  induction l generalizing s nImages with
  | nil =>
    refine .of_imp ?_
    rintro t ⟨r, hr, hat⟩
    exact ⟨r, hr, by simp [hat.pushed]⟩
  | cons id rest ih =>
    refine (canReach_forward stored hcontrol hforward hpublished).trans ?_
    have hrest := ih (s := { s with
        forward := .test (if s.settings.reaches id then nImages + 1 else nImages)
        published := rest
        lastSentId := if s.settings.reaches id then id else s.lastSentId
        pushed := s.pushed ++ [id].filter s.settings.reaches }) hcontrol rfl rfl
    rw [List.append_assoc, ← List.filter_append] at hrest
    exact hrest

/-! ### Ending early -/

/-- `control_reader` has ended the replay before `forward_images` received an image. -/
def EndedEarly (t : Process) : Prop :=
  ∃ r, t.replays = [r] ∧ r.pushed = [] ∧ r.control = .returned ∧ t.manager.state = .finishing ∧
    ∃ nImages, r.forward = .test nImages

theorem canReach_finish {s : Situation} {nImages : ℕ}
    (hpushed : s.pushed = [])
    (hcontrol : s.control = .finish) (hforward : s.forward = .test nImages) :
    CanReach (UndisturbedStep stored) s.Holds EndedEarly := by
  refine .single ?_
  rintro t ⟨r, hr, hat⟩
  have hempty := hat.pushed.trans hpushed
  have hsolo : SoloStep stored t r { t with manager := t.manager.changeState .finishing }
      { r with control := .returned } :=
    .control (by rw [hat.control, hcontrol]; exact .finish)
  obtain ⟨e, hstep⟩ := hsolo.exists_step hr
  exact ⟨e, _, hstep, _, rfl, hempty, rfl, rfl, nImages, hat.forward.trans hforward⟩

/-- When all acknowledged ids are stale, `control_reader` goes through all of its requests without
waiting. The induction is on what is left of the 64 bits. -/
theorem canReach_endedEarly {s : Situation} {nImages : ℕ}
    (hpushed : s.pushed = [])
    (hsettings : s.settings = ⟨start, some last⟩)
    (hstale : ∀ a, stored.Acknowledges start last a → a ≤ s.lastSentId ∧ a < 2 ^ 64 - 1)
    (hcontrol : s.control = .test newRequest x) (hforward : s.forward = .test nImages)
    (hrequest : s.request = none) (hresponse : s.response = none) (hstart : start ≤ x) :
    CanReach (UndisturbedStep stored) s.Holds EndedEarly := by
  induction hk : 2 ^ 64 - x using Nat.strong_induction_on generalizing s x newRequest with
  | _ k ih =>
    cases hreaches : s.settings.reaches x with
    | false =>
      exact (canReach_leave hcontrol hreaches).trans (canReach_finish hpushed rfl hforward)
    | true =>
      obtain ⟨answer, hnext⟩ := stored.exists_isNext x
      cases answer with
      | none =>
        exact (canReach_noImage hcontrol hrequest hresponse hreaches hnext).trans
          (canReach_finish hpushed rfl hforward)
      | some w =>
        have hx : x ≤ last := by
          rw [hsettings, ReplaySettings.reaches, decide_eq_true_eq] at hreaches
          exact hreaches
        have hle : x ≤ w := hnext.2.1
        have hw : stored.Acknowledges start last w := hnext.acknowledges hstart hx
        obtain ⟨hsent, hlt⟩ := hstale w hw
        have hmod : (w + 1) % 2 ^ 64 = w + 1 := Nat.mod_eq_of_lt (by omega)
        refine ((canReach_read hcontrol hrequest hresponse hreaches hnext).trans
          (canReach_next rfl rfl hsent)).trans ?_
        exact ih (2 ^ 64 - (w + 1)) (by omega) hpushed hsettings hstale (congrArg _ hmod) hforward
          rfl rfl (by omega) rfl

/-- After an early end nothing is pushed any more. -/
theorem EndedEarly.not_inevitable (h : EndedEarly t) (hrequested : requested stored settings ≠ []) :
    ¬ Inevitable (GoingOn stored) (PushedAll stored settings) t := by
  intro hinevitable
  obtain ⟨_, u, hgoing, ⟨r, hr, hpushed⟩⟩ := hinevitable.exists_run
  obtain ⟨es, hrun⟩ := hgoing.of_delayed
  have hinv : ∃ r, u.replays = [r] ∧ r.pushed = [] ∧ r.control = .returned ∧
      u.manager.state ≠ .replaying ∧ ∀ nImages, r.forward ≠ .receive nImages := by
    refine hrun.invariant (P := fun u => ∃ r, u.replays = [r] ∧ r.pushed = [] ∧
      r.control = .returned ∧ u.manager.state ≠ .replaying ∧
        ∀ nImages, r.forward ≠ .receive nImages) ?_ ?_
    · rintro t e u ⟨r, hr, hempty, hreturned, hstate, hforward⟩ hstep
      obtain ⟨v, r', hsolo, rfl⟩ := soloStep_of_step hr hstep
      refine ⟨r', rfl, ?_⟩
      cases hsolo with
      | control hcontrol => exact absurd hreturned hcontrol.not_returned
      | forward hstep =>
        cases hstep with
        | again _ hreplaying => exact absurd hreplaying hstate
        | leave => exact ⟨hempty, hreturned, hstate, by simp⟩
        | push hpc | skip hpc => exact absurd hpc (hforward _)
        | finish => exact ⟨hempty, hreturned, by simp, by simp⟩
      | timeout hpc => exact absurd hpc (hforward _)
      | notify =>
        rw [Replay.wake, hreturned]
        exact ⟨hempty, rfl, hstate, by simp⟩
      | @read request answer =>
        cases answer <;> exact ⟨hempty, hreturned, hstate, hforward⟩
    · obtain ⟨r, hr, hempty, hreturned, hstate, nImages, hforward⟩ := h
      exact ⟨r, hr, hempty, hreturned, by simp [hstate], by simp [hforward]⟩
  obtain ⟨r', hr', hempty, -⟩ := hinv
  obtain ⟨rfl⟩ := hr.symm.trans hr'
  exact hrequested (hpushed.symm.trans hempty)

/-! ### Coming around -/

/-- Requests that are answered one after the other come around after the id 2⁶⁴ - 1. Here
`T x visited` stands for the request of `x` after some ids have been visited. -/
theorem canReach_around {step : Process → Event → Process → Prop} {T : ℕ → List ℕ → Process → Prop}
    (hlast : stored.Acknowledges start last (2 ^ 64 - 1))
    (hturn : ∀ x visited w, start ≤ x → x ≤ last → stored.IsNext x (some w) →
      CanReach step (T x visited) (T ((w + 1) % 2 ^ 64) (visited ++ [w])))
    {visited : List ℕ} (hstart : start ≤ x) (hx : x ≤ last) (hbound : x < 2 ^ 64) :
    CanReach step (T x visited) (T 0 (visited ++ stored.ids.between x (2 ^ 64))) := by
  induction hk : 2 ^ 64 - x using Nat.strong_induction_on generalizing x visited with
  | _ k ih =>
    obtain ⟨answer, hnext⟩ := stored.exists_isNext x
    cases answer with
    | none =>
      have := hnext _ hlast.mem
      omega
    | some w =>
      have hle : x ≤ w := hnext.2.1
      have hw : w ≤ 2 ^ 64 - 1 := hnext.2.2 _ hlast.mem (by omega)
      have hone : stored.ids.between x (w + 1) = [w] := by
        rw [Finset.between_succ le_rfl hnext.1 hle hnext.2.2,
          Finset.between_eq_nil_iff.mpr fun _ _ h => h, List.nil_append]
      have hgo := hturn x visited w hstart hx hnext
      rcases Nat.lt_or_ge w (2 ^ 64 - 1) with hlt | hge
      · have hbefore : w < last := hlast.before w hnext.1 (by omega) hlt
        rw [Nat.mod_eq_of_lt (by omega)] at hgo
        rw [Finset.between_append (hle.trans w.le_succ) (show w + 1 ≤ 2 ^ 64 by omega), hone,
          ← List.append_assoc]
        exact hgo.trans (ih (2 ^ 64 - (w + 1)) (by omega) (by omega) (by omega) (by omega) rfl)
      · obtain rfl : w = 2 ^ 64 - 1 := by omega
        rw [← hone] at hgo
        exact hgo

/-- A replay that comes around pushes an image that was not asked for. -/
theorem not_replaysRange_of_around {s : Situation} {nImages : ℕ}
    (hsettings : s.settings = ⟨start, some last⟩) (hcontrol : s.control = .test newRequest 0)
    (hforward : s.forward = .test nImages) (hrequest : s.request = none)
    (hresponse : s.response = none) (hmem : ∃ i ∈ stored.ids, i ≤ last)
    (hpushed : s.pushed ++ s.published.filter s.settings.reaches =
      requested stored ⟨start, some last⟩)
    (hreach : ∃ es t, Run (UndisturbedStep stored)
      (.replaying ⟨start, some last⟩ lastSentId) es t ∧ s.Holds t) :
    ¬ ReplaysRange stored ⟨start, some last⟩ lastSentId := by
  intro h
  obtain ⟨answer, hnext⟩ := stored.exists_isNext 0
  cases answer with
  | none =>
    obtain ⟨i, hi, -⟩ := hmem
    exact absurd (hnext i hi) (Nat.not_lt_zero i)
  | some d =>
    obtain ⟨i, hi, hle⟩ := hmem
    have hreaches : ∀ j ≤ last, s.settings.reaches j = true := by
      intro j hj
      rw [hsettings, ReplaySettings.reaches, decide_eq_true_eq]
      exact hj
    have hd : s.settings.reaches d = true := hreaches d ((hnext.2.2 i hi (Nat.zero_le i)).trans hle)
    obtain ⟨es, t, hrun, ht⟩ := hreach
    obtain ⟨es', u, hmore, r, hr, hextra⟩ :=
      ((canReach_read hcontrol hrequest hresponse
        (hreaches 0 (Nat.zero_le _)) hnext).trans (canReach_drain rfl hforward)) t ht
    obtain ⟨r', hr', hprefix⟩ := h.beginning _ u (hrun.append hmore)
    obtain ⟨rfl⟩ := hr.symm.trans hr'
    -- one image more than was asked for
    have hlength := hprefix.length_le
    rw [hextra, List.filter_append, ← List.append_assoc, hpushed, List.length_append] at hlength
    rw [List.filter_singleton, hd] at hlength
    exact absurd hlength (Nat.not_succ_le_self _)

theorem filter_between_eq_requested (stored : StoredIds) (start last : ℕ) :
    (stored.ids.between start (2 ^ 64)).filter (ReplaySettings.reaches ⟨start, some last⟩) =
      requested stored ⟨start, some last⟩ := by
  rw [requested_some]
  change (stored.ids.between start (2 ^ 64)).filter (· ≤ last) = _
  rw [Finset.between_filter_le]
  refine Finset.eq_between (Finset.between_pairwise _ _ _) fun i => ?_
  rw [Finset.mem_between]
  constructor
  · rintro ⟨hs, hi⟩
    exact ⟨hs, by omega⟩
  · rintro ⟨hs, hi⟩
    have := stored.lt i hs
    exact ⟨hs, by omega⟩

/-- The request of `x` in a replay whose `forward_images` has not begun, with the ids visited. -/
def Situation.alone (start last lastSentId : ℕ) (newRequest : Bool) (x : ℕ) (visited : List ℕ) :
    Situation where
  settings := ⟨start, some last⟩
  control := .test newRequest x
  forward := .test 0
  published := visited
  lastSentId := lastSentId
  pushed := []

/-- The request of `x` in a replay whose `forward_images` has handled all ids visited. -/
def Situation.lockstep (start last lastSentId nImages : ℕ) (newRequest : Bool) (x : ℕ)
    (visited : List ℕ) : Situation where
  settings := ⟨start, some last⟩
  control := .test newRequest x
  forward := .test nImages
  published := []
  lastSentId := lastSentId
  pushed := visited

theorem canReach_alone {visited : List ℕ} (hx : x ≤ last) (hnext : stored.IsNext x (some w))
    (hstale : w ≤ lastSentId) :
    CanReach (UndisturbedStep stored)
      (fun t => ∃ newRequest, (Situation.alone start last lastSentId newRequest x visited).Holds t)
      (fun t => ∃ newRequest, (Situation.alone start last lastSentId newRequest ((w + 1) % 2 ^ 64)
        (visited ++ [w])).Holds t) := by
  rintro t ⟨newRequest, ht⟩
  have hread := canReach_read (s := .alone start last lastSentId newRequest x visited) rfl rfl rfl
    (decide_eq_true hx) hnext
  obtain ⟨es, u, hrun, hu⟩ :=
    (hread.trans (canReach_next rfl rfl hstale)) t ht
  exact ⟨es, u, hrun, false, hu⟩

theorem canReach_lockstep {visited : List ℕ} (hx : x ≤ last) (hnext : stored.IsNext x (some w))
    (hw : w ≤ last) :
    CanReach (UndisturbedStep stored)
      (fun t => ∃ sent nImages newRequest,
        (Situation.lockstep start last sent nImages newRequest x visited).Holds t)
      (fun t => ∃ sent nImages newRequest,
        (Situation.lockstep start last sent nImages newRequest ((w + 1) % 2 ^ 64)
          (visited ++ [w])).Holds t) := by
  rintro t ⟨sent, nImages, newRequest, ht⟩
  have hreaches : ReplaySettings.reaches ⟨start, some last⟩ w = true := decide_eq_true hw
  have hread := canReach_read (s := .lockstep start last sent nImages newRequest x visited) rfl rfl
    rfl (decide_eq_true hx) hnext
  have hforward := hread.trans (canReach_forward stored rfl rfl rfl)
  simp only [Situation.lockstep, hreaches, List.filter_cons, List.filter_nil, if_true] at hforward
  obtain ⟨es, u, hrun, hu⟩ :=
    (hforward.trans (canReach_next rfl rfl le_rfl)) t ht
  exact ⟨es, u, hrun, w, nImages + 1, false, hu⟩

/-- The requests come around when `last_sent_id` is 2⁶⁴ - 1: `control_reader` waits for nothing. -/
theorem not_replaysRange_of_stale (hlast : stored.Acknowledges start last (2 ^ 64 - 1))
    (hstale : 2 ^ 64 - 1 ≤ lastSentId) (hmem : ∃ i ∈ stored.ids, i ≤ last) :
    ¬ ReplaysRange stored ⟨start, some last⟩ lastSentId := by
  have hstart := hlast.start_le
  obtain ⟨es, t, hrun, newRequest, ht⟩ := canReach_around hlast
    (T := fun x visited t => ∃ newRequest,
      (Situation.alone start last lastSentId newRequest x visited).Holds t)
    (fun x visited w _ hx hnext => canReach_alone hx hnext (by
      have := stored.lt w hnext.1
      omega))
    le_rfl hlast.asked (by omega) (.replaying ⟨start, some last⟩ lastSentId)
    ⟨true, _, rfl, rfl, rfl, rfl, rfl, rfl, rfl, rfl, rfl, rfl⟩
  exact not_replaysRange_of_around
    (s := .alone start last lastSentId newRequest 0 (stored.ids.between start (2 ^ 64)))
    rfl rfl rfl rfl rfl hmem (filter_between_eq_requested stored start last) ⟨es, t, hrun, ht⟩

/-- The requests come around when the end is 2⁶⁴ - 1: every image is sent, and waited for. -/
theorem not_replaysRange_of_end (hlast : stored.Acknowledges start last (2 ^ 64 - 1))
    (hend : 2 ^ 64 - 1 ≤ last) (hmem : ∃ i ∈ stored.ids, i ≤ last) :
    ¬ ReplaysRange stored ⟨start, some last⟩ lastSentId := by
  have hstart := hlast.start_le
  have hreaches : ∀ i ∈ stored.ids, i ≤ last := fun i hi => by
    have := stored.lt i hi
    omega
  obtain ⟨es, t, hrun, sent, nImages, newRequest, ht⟩ := canReach_around hlast
    (T := fun x visited t => ∃ sent nImages newRequest,
      (Situation.lockstep start last sent nImages newRequest x visited).Holds t)
    (fun x visited w _ hx hnext => canReach_lockstep hx hnext (hreaches w hnext.1))
    le_rfl hlast.asked (by omega) (.replaying ⟨start, some last⟩ lastSentId)
    ⟨lastSentId, 0, true, _, rfl, rfl, rfl, rfl, rfl, rfl, rfl, rfl, rfl, rfl⟩
  refine not_replaysRange_of_around
    (s := .lockstep start last sent nImages newRequest 0 (stored.ids.between start (2 ^ 64)))
    rfl rfl rfl rfl rfl hmem ?_ ⟨es, t, hrun, ht⟩
  rw [← filter_between_eq_requested]
  refine (List.append_nil _).trans (List.filter_eq_self.mpr fun i hi => ?_).symm
  exact decide_eq_true (hreaches i (Finset.mem_between.mp hi).1)

/-! ### The condition -/

/-- When a replay goes well. Without an end: when no stored image is to be replayed. With an end:
when there is an image in the range, some acknowledged id is larger than `last_sent_id` was before
the replay; and when the id 2⁶⁴ - 1 is acknowledged, and either the end or `last_sent_id` is as
large, all stored images are beyond the end. -/
def GoesWell (stored : StoredIds) (settings : ReplaySettings) (lastSentId : ℕ) : Prop :=
  match settings.endImageId with
  | none => ∀ i ∈ stored.ids, i < settings.startImageId
  | some last =>
    ((∃ i ∈ stored.ids, settings.startImageId ≤ i ∧ i ≤ last) →
      ∃ a, stored.Acknowledges settings.startImageId last a ∧ lastSentId < a) ∧
    (stored.Acknowledges settings.startImageId last (2 ^ 64 - 1) →
      2 ^ 64 - 1 ≤ last ∨ 2 ^ 64 - 1 ≤ lastSentId → ∀ i ∈ stored.ids, last < i)

theorem requested_eq_nil_iff :
    requested stored settings = [] ↔ ∀ i ∈ stored.ids, ¬ settings.InRange i := by
  rw [List.eq_nil_iff_forall_not_mem]
  simp only [mem_requested, not_and]

/-- Where nothing is pushed, nothing may be asked for. -/
theorem replaysRange_of_beyond (hbeyond : ∀ i ∈ stored.ids, settings.reaches i = false) :
    ReplaysRange stored settings lastSentId ↔ requested stored settings = [] := by
  constructor
  · intro h
    obtain ⟨_, t, hgoing, r, hr, hpushed⟩ := (h.all [] _ .nil).exists_run
    obtain ⟨es, hrun⟩ := hgoing.of_delayed
    obtain ⟨r', hr', hempty⟩ := pushed_eq_nil_of_run hbeyond hrun
    obtain ⟨rfl⟩ := hr.symm.trans hr'
    exact hpushed.symm.trans hempty
  · intro hnil
    refine ⟨fun es t hrun => ?_, fun es t hrun => ?_⟩
    · obtain ⟨r, hr, hempty⟩ := pushed_eq_nil_of_run hbeyond hrun
      exact ⟨r, hr, hempty ▸ List.nil_prefix⟩
    · obtain ⟨r, hr, hempty⟩ := pushed_eq_nil_of_run hbeyond hrun
      exact .now ⟨r, hr, hempty.trans hnil.symm⟩

/-- With stored images in front of the end: the replay goes well. -/
theorem GoesWell.replaysRange (h : GoesWell stored ⟨start, some last⟩ lastSentId)
    (hmem : ∃ i ∈ stored.ids, i ≤ last) : ReplaysRange stored ⟨start, some last⟩ lastSentId := by
  obtain ⟨hfresh, haround⟩ := h
  obtain ⟨j, hj, hjlast⟩ := hmem
  have hwrap : NoWrap stored start last lastSentId := by
    intro hack
    by_contra hcontra
    have := haround hack (by omega) j hj
    omega
  refine ⟨fun es t hrun => ?_, fun es t hrun => ?_⟩
  · obtain ⟨r, x, hr, hright⟩ := right_of_run hwrap hrun
    exact ⟨r, hr, hright.pushed_prefix⟩
  · obtain ⟨r, x, hr, hright⟩ := right_of_run hwrap hrun
    by_cases hrange : ∃ i ∈ stored.ids, start ≤ i ∧ i ≤ last
    · exact hright.inevitable hr hwrap (hfresh hrange)
    · have hnil : requested stored ⟨start, some last⟩ = [] :=
        requested_eq_nil_iff.mpr fun i hi hin => hrange ⟨i, hi, hin.1, hin.2 last rfl⟩
      refine .now ⟨r, hr, ?_⟩
      rw [hnil]
      exact List.prefix_nil.mp (hnil ▸ hright.pushed_prefix)

/-- With stored images in front of the end: a replay that forwards the range goes well. -/
theorem ReplaysRange.goesWell (h : ReplaysRange stored ⟨start, some last⟩ lastSentId)
    (hmem : ∃ i ∈ stored.ids, i ≤ last) : GoesWell stored ⟨start, some last⟩ lastSentId := by
  have haround : stored.Acknowledges start last (2 ^ 64 - 1) →
      ¬ (2 ^ 64 - 1 ≤ last ∨ 2 ^ 64 - 1 ≤ lastSentId) := by
    rintro hack (hend | hstale)
    · exact not_replaysRange_of_end hack hend hmem h
    · exact not_replaysRange_of_stale hack hstale hmem h
  refine ⟨fun hrange => ?_, fun hack hlarge => absurd hlarge (haround hack)⟩
  by_contra hnone
  obtain ⟨i, hi, hstart, hlast⟩ := hrange
  have hrequested : requested stored ⟨start, some last⟩ ≠ [] := by
    rw [ne_eq, requested_eq_nil_iff]
    exact fun hnot => hnot i hi ⟨hstart, fun _ h => Option.some.inj h ▸ hlast⟩
  have hstale : ∀ a, stored.Acknowledges start last a → a ≤ lastSentId ∧ a < 2 ^ 64 - 1 := by
    intro a ha
    have hle : a ≤ lastSentId := Nat.le_of_not_lt fun hlt => hnone ⟨a, ha, hlt⟩
    refine ⟨hle, ?_⟩
    by_contra hge
    have hlt := stored.lt a ha.mem
    obtain rfl : a = 2 ^ 64 - 1 := by omega
    exact haround ha (.inr hle)
  -- `control_reader` on its own, without an image being pushed
  obtain ⟨es, t, hrun, hended⟩ := canReach_endedEarly
    (s := .alone start last lastSentId true start []) rfl rfl hstale rfl rfl rfl rfl le_rfl
    (.replaying ⟨start, some last⟩ lastSentId) ⟨_, rfl, rfl, rfl, rfl, rfl, rfl, rfl, rfl, rfl, rfl⟩
  exact hended.not_inevitable hrequested (h.all es t hrun)

/-- **A replay forwards exactly the requested range if and only if it goes well.** For every range,
every set of stored images and every value that `last_sent_id` has before the replay. -/
theorem replaysRange_iff (stored : StoredIds) (settings : ReplaySettings) (lastSentId : ℕ) :
    ReplaysRange stored settings lastSentId ↔ GoesWell stored settings lastSentId := by
  obtain ⟨start, _ | last⟩ := settings
  · rw [replaysRange_of_beyond fun _ _ => rfl, requested_eq_nil_iff]
    simp [ReplaySettings.InRange, GoesWell]
  · by_cases hmem : ∃ i ∈ stored.ids, i ≤ last
    · exact ⟨fun h => h.goesWell hmem, fun h => h.replaysRange hmem⟩
    · have hbeyond : ∀ i ∈ stored.ids, last < i :=
        fun i hi => Nat.lt_of_not_le fun hle => hmem ⟨i, hi, hle⟩
      have hreaches : ∀ i ∈ stored.ids, ReplaySettings.reaches ⟨start, some last⟩ i = false :=
        fun i hi => decide_eq_false (Nat.not_le_of_lt (hbeyond i hi))
      rw [replaysRange_of_beyond hreaches, requested_eq_nil_iff]
      refine ⟨fun _ => ⟨?_, fun _ _ => hbeyond⟩, fun _ i hi hin => ?_⟩
      · rintro ⟨i, hi, -, hle⟩
        exact absurd (hbeyond i hi) (Nat.not_lt_of_le hle)
      · exact absurd (hin.2 last rfl) (Nat.not_le_of_lt (hbeyond i hi))

example : ∃ t, Run (UndisturbedStep ⟨{5, 6}, by decide⟩) (.replaying ⟨5, some 6⟩ 0)
      [.control 0, .read (some 5) true, .forward 0, .control 0, .control 0, .control 0, .forward 0,
        .notify 0 (some 0), .control 0, .control 0, .read (some 6) true, .forward 0, .forward 0,
        .notify 0 none, .control 0, .control 0, .control 0, .control 0, .forward 0, .forward 0] t ∧
    t.replays.map Replay.pushed = [[5, 6]] ∧ t.manager.state = .finished :=
  ⟨_, .of_exec_only rfl, rfl, rfl⟩

/-- A buffer with one image. -/
def oneImage : StoredIds := ⟨{5}, by decide⟩

/-- A request without an end forwards nothing. -/
theorem not_replaysRange_without_end :
    ¬ ∀ (stored : StoredIds) (settings : ReplaySettings) (lastSentId : ℕ),
      ReplaysRange stored settings lastSentId := by
  intro h
  have hnil := (replaysRange_of_beyond fun _ _ => rfl).mp (h oneImage ⟨5, none⟩ 0)
  exact requested_eq_nil_iff.mp hnil 5 (by decide) (by decide)

end Replayer

end StdDaq
