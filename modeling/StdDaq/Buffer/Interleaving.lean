import StdDaq.Buffer.NextImage
import Mathlib.Data.Prod.Lex

/-!
# The two threads of a replay

The requester and the loader are never out of step on a buffer that can be replayed. A request goes
through phases: the loader has not seen it, looks for the file, pushes the images or says that there
are none, and the requester is told. `Phase` lists them with what the threads have agreed on, and
each step of either thread leads from a phase to a phase.

The same steps show that a request cannot stay open. The stage of the loader and the number of steps
until both threads sleep are a rank that every step lowers, until the request is answered.

## Main results

* `Right.loaderStep`, `Right.requesterStep` — steps keep the answers right and lower the rank
-/

namespace StdDaq

namespace Buffer

variable {ids : Set ℕ} {x start endImageId : ℕ} {b : BufferTrace}

/-! ### The two threads -/

/-- What is left to push. -/
def Loader.rest : Loader → List BufferedMetadata
  | .pushing rest => rest
  | _ => []

/-- The loader is done with looking for a file. -/
def Loader.Delivering : Loader → Prop
  | .waiting _ => True
  | .pushing _ => True
  | .fetching => False
  | .noData => False

theorem Loader.Delivering.cases {loader : Loader} (h : loader.Delivering) :
    (∃ woken, loader = .waiting woken) ∨ ∃ rest, loader = .pushing rest := by
  cases loader with
  | waiting woken => exact .inl ⟨woken, rfl⟩
  | pushing rest => exact .inr ⟨rest, rfl⟩
  | fetching => exact h.elim
  | noData => exact h.elim

namespace Replay

/-- The ids of the images that are loaded or being loaded. -/
def pending (s : Replay) : List ℕ :=
  s.handler.metadatas.map (·.imageId) ++ s.loader.rest.map (·.metadata.imageId)

end Replay

/-- How far the two threads are with a request, and what they have agreed on. -/
inductive Phase (ids : Set ℕ) (start endImageId : ℕ) (s : Replay) : Prop where
  /-- Nothing is requested. -/
  | idle (x : ℕ) (hrequester : s.requester = .idle x) (hx : start ≤ x)
      (hloader : s.loader.Delivering) (hactive : s.handler.loaderActive = false)
      (hmore : s.handler.noMoreData = false) (hsegment : Segment ids x s.pending)
      (hclean : x ≤ endImageId → s.pending = [] → CleanStart ids x)
  /-- The loader has not yet seen the request. -/
  | requested (x : ℕ) (woken : Bool) (hrequester : s.requester = .waiting x woken)
      (hx : x ∈ Set.Icc start endImageId) (hempty : s.handler.metadatas = [])
      (hloader : s.loader = .waiting true ∨ s.loader = .pushing [])
      (hactive : s.handler.loaderActive = true) (himage : s.handler.loaderImageId = x)
      (hmore : s.handler.noMoreData = false) (hclean : CleanStart ids x)
  /-- The loader looks for the file. -/
  | fetching (x : ℕ) (woken : Bool) (hrequester : s.requester = .waiting x woken)
      (hx : x ∈ Set.Icc start endImageId) (hempty : s.handler.metadatas = [])
      (hloader : s.loader = .fetching) (hactive : s.handler.loaderActive = false)
      (himage : s.handler.loaderImageId = x) (hmore : s.handler.noMoreData = false)
      (hclean : CleanStart ids x)
  /-- The loader has found nothing. -/
  | noData (x : ℕ) (woken : Bool) (hrequester : s.requester = .waiting x woken)
      (hempty : s.handler.metadatas = []) (hloader : s.loader = .noData)
      (hactive : s.handler.loaderActive = false) (hmore : s.handler.noMoreData = false)
      (hnone : ∀ i ∈ ids, i < x)
  /-- The loader has said that there is nothing. -/
  | exhausted (x : ℕ) (hrequester : s.requester = .waiting x true) (hloader : s.loader.Delivering)
      (hactive : s.handler.loaderActive = false) (hmore : s.handler.noMoreData = true)
      (hnone : ∀ i ∈ ids, i < x)
  /-- The next image is about to be pushed. -/
  | awaiting (x : ℕ) (woken : Bool) (message : BufferedMetadata) (rest : List BufferedMetadata)
      (hrequester : s.requester = .waiting x woken) (hx : x ∈ Set.Icc start endImageId)
      (hempty : s.handler.metadatas = []) (hloader : s.loader = .pushing (message :: rest))
      (hmore : s.handler.noMoreData = false) (hloaded : Loaded ids x s.pending)
  /-- There is an image, and the requester has been told. -/
  | served (x : ℕ) (hrequester : s.requester = .waiting x true) (hx : x ∈ Set.Icc start endImageId)
      (hne : s.handler.metadatas ≠ []) (hloader : s.loader.Delivering)
      (hactive : s.handler.loaderActive = false) (hmore : s.handler.noMoreData = false)
      (hloaded : Loaded ids x s.pending)

/-- What holds while a replay goes on. -/
structure Live (b : BufferTrace) (start endImageId : ℕ) (s : Replay) : Prop where
  front : ∀ image ∈ s.handler.metadatas, IsImageOf b image.imageId image
  rest : ∀ m ∈ s.loader.rest, b.storage.redis.getMetadata m.metadata.imageId = some m
  phase : Phase b.ids start endImageId s

/-- The answers are right, and the replay goes on or is over. -/
structure Right (b : BufferTrace) (start endImageId : ℕ) (s : Replay) : Prop where
  answers : ∀ a ∈ s.answers, IsAnswer b a.1 a.2
  live : s.requester = .finished ∨ Live b start endImageId s

variable {s s' : Replay}

theorem mem_ids_of_isImageOf {i : ℕ} {image : ImageMetadata} (h : IsImageOf b i image) :
    i ∈ b.ids := by
  obtain ⟨written, -, hlast, -⟩ := h
  exact Option.isSome_iff_exists.mpr ⟨written, hlast⟩

theorem right_start (hr : Replayable b.ids start endImageId) :
    Right b start endImageId { requester := .idle start } where
  answers := List.forall_mem_nil _
  live := .inr ⟨List.forall_mem_nil _, List.forall_mem_nil _,
    .idle start rfl le_rfl trivial rfl rfl (segment_nil _ _) fun _ _ => hr.clean⟩

/-! ### Answers -/

theorem answers_answer (s : Replay) (x : ℕ) :
    ∃ r, (s.answer x).answers = s.answers ++ [(x, r)] := by
  rw [Replay.answer]
  cases s.handler.tryPopImage x with
  | none => exact ⟨none, rfl⟩
  | some popped => exact ⟨some popped.1, rfl⟩

theorem Right.append_answer (h : Right b start endImageId s) {r : Option ImageMetadata}
    (hr : IsAnswer b x r) :
    ∀ a ∈ s.answers ++ [(x, r)], IsAnswer b a.1 a.2 := by
  intro a ha
  rcases List.mem_append.mp ha with ha | ha
  · exact h.answers a ha
  · rw [List.mem_singleton.mp ha]
    exact hr

/-- The front of the images from `x` on is returned, and the next request follows it. -/
theorem Right.pop (h : Right b start endImageId s) (hlive : Live b start endImageId s)
    (hr : Replayable b.ids start endImageId) (hx : x ∈ Set.Icc start endImageId)
    (hne : s.handler.metadatas ≠ []) (hloader : s.loader.Delivering)
    (hactive : s.handler.loaderActive = false) (hmore : s.handler.noMoreData = false)
    (hsegment : Segment b.ids x s.pending) : Right b start endImageId (s.answer x) := by
  obtain ⟨image, later, hdeque⟩ := List.exists_cons_of_ne_nil hne
  have hpending : s.pending = image.imageId ::
      (later.map (·.imageId) ++ s.loader.rest.map (·.metadata.imageId)) := by
    rw [Replay.pending, hdeque]
    rfl
  rw [hpending] at hsegment
  obtain ⟨hid, hle⟩ := hsegment.mem _ List.mem_cons_self
  have hlast := hr.last _ (reached_of_isLeast hx hsegment.isLeast)
  have hnext : (image.imageId + 1) % 2 ^ 64 = image.imageId + 1 := Nat.mod_eq_of_lt (by omega)
  have hanswer : s.answer x = { s with
      handler := { s.handler with metadatas := later }
      requester := .idle (image.imageId + 1)
      answers := s.answers ++ [(x, some image)] } := by
    simp only [Replay.answer, BufferHandler.tryPopImage, hdeque, hle, if_true, hnext]
  have hfront := hlive.front
  rw [hdeque] at hfront
  rw [hanswer]
  refine ⟨h.append_answer ⟨_, hsegment.isLeast, hfront image List.mem_cons_self⟩, .inr ⟨?_, ?_, ?_⟩⟩
  · exact fun m hm => hfront m (List.mem_cons_of_mem image hm)
  · exact hlive.rest
  · have hstart := hx.1
    refine .idle _ rfl (by omega) hloader hactive hmore hsegment.tail fun hend hnil => ?_
    have hnil : later.map (·.imageId) ++ s.loader.rest.map (·.metadata.imageId) = [] := hnil
    rw [hnil] at hsegment
    exact hsegment.cleanStart hr hx.1 hend

/-- Nothing is returned, if there is nothing from `x` on. -/
theorem Right.giveUp (h : Right b start endImageId s) (hlive : Live b start endImageId s)
    (hnone : ∀ i ∈ b.ids, i < x) : Right b start endImageId (s.answer x) := by
  have hpop : s.handler.tryPopImage x = none := by
    rw [BufferHandler.tryPopImage]
    split
    next => rfl
    next front later hdeque =>
      have hfront := hnone _ (mem_ids_of_isImageOf
        (hlive.front front (by rw [hdeque]; exact List.mem_cons_self)))
      rw [if_neg (Nat.not_le.mpr hfront)]
  rw [Replay.answer, hpop]
  exact ⟨h.append_answer hnone, .inl rfl⟩

/-! ### Ranks -/

/-- Whether the requester is going to look at its condition. -/
def Requester.wakeups : Requester → ℕ
  | .waiting _ true => 1
  | _ => 0

/-- The steps before the loader sleeps: a push may wake the requester, and the notification at the
end wakes it once more. -/
def Loader.work : Loader → ℕ
  | .waiting true => 1
  | .waiting false => 0
  | .fetching => 0
  | .noData => 3
  | .pushing rest => 2 * rest.length + 3

namespace Replay

/-- How much the loader has to do before it has found a file. -/
def stage (s : Replay) : ℕ :=
  match s.loader with
  | .fetching => 1
  | .waiting _ => if s.handler.loaderActive then 2 else 0
  | .pushing [] => if s.handler.loaderActive then 2 else 0
  | .pushing (_ :: _) => 0
  | .noData => 0

/-- A bound on the number of steps within a stage. -/
def work (s : Replay) : ℕ := s.requester.wakeups + s.loader.work

/-- What every step of a request lowers. -/
def rank (s : Replay) : ℕ ×ₗ ℕ := toLex (s.stage, s.work)

end Replay

theorem rank_lt_of_stage (h : s'.stage < s.stage) : s'.rank < s.rank :=
  Prod.Lex.toLex_lt_toLex.mpr (.inl h)

theorem Requester.wakeups_le_one (requester : Requester) : requester.wakeups ≤ 1 := by
  cases requester with
  | idle next => exact Nat.zero_le 1
  | waiting imageId woken => cases woken <;> simp [Requester.wakeups]
  | finished => exact Nat.zero_le 1

/-- A notification costs less than what the loader has done before it. -/
theorem work_lt_of_notified (hloader' : s'.loader = .waiting true) (hloader : 3 ≤ s.loader.work) :
    s'.work < s.work := by
  have hone := s'.requester.wakeups_le_one
  rw [Replay.work, Replay.work, hloader', Loader.work]
  omega

theorem rank_lt_of_work (hstage : s'.stage = s.stage) (hwork : s'.work < s.work) :
    s'.rank < s.rank :=
  Prod.Lex.toLex_lt_toLex.mpr (.inr ⟨hstage, hwork⟩)

/-- What a step does for a request: it is answered, or it goes on with a lower rank. -/
def Progress (s s' : Replay) : Prop :=
  ∀ x woken, s.requester = .waiting x woken →
    (∃ r, s'.answers = s.answers ++ [(x, r)]) ∨
      (∃ woken', s'.requester = .waiting x woken') ∧ s'.answers = s.answers ∧ s'.rank < s.rank

/-! ### Steps of the loader -/

theorem notifyAll_eq_self (hrequester : s.notifyAll.requester = s.requester)
    (hloader : s.notifyAll.loader = s.loader) : s.notifyAll = s := by
  cases s
  simp only [Replay.notifyAll] at hrequester hloader ⊢
  rw [hrequester, hloader]

variable {blosc : Blosc} {nSlots : ℕ}

/-- What a step of a loader that brings its images changes: nothing that the requester looks at,
except that there is more in front. -/
structure Delivered (b : BufferTrace) (s s' : Replay) : Prop where
  requester : s'.requester = s.requester
  answers : s'.answers = s.answers
  loader : s'.loader.Delivering
  active : s'.handler.loaderActive = false
  more : s'.handler.noMoreData = s.handler.noMoreData
  pending : s'.pending = s.pending
  nonempty : s.handler.metadatas ≠ [] → s'.handler.metadatas ≠ []
  front : ∀ image ∈ s'.handler.metadatas, IsImageOf b image.imageId image
  rest : ∀ m ∈ s'.loader.rest, b.storage.redis.getMetadata m.metadata.imageId = some m
  rank : s'.rank < s.rank

/-- The state after an image was pushed, before anyone is notified. -/
def Replay.pushed (s : Replay) (image : ImageMetadata) (fileHandler : FileHandler)
    (slots : ℕ → Option (List UInt8)) (rest : List BufferedMetadata) : Replay :=
  { s with
    handler := { s.handler with
      metadatas := s.handler.metadatas ++ [image]
      loaderActive := !s.handler.metadatas.isEmpty && s.handler.loaderActive
      fileHandler := fileHandler
      slots := slots }
    loader := .pushing rest }

/-- A push never fails. -/
theorem loaderStep_push (blosc : Blosc) (nSlots : ℕ) (hc : Consistent b)
    (hlive : Live b start endImageId s) {message : BufferedMetadata} {rest : List BufferedMetadata}
    (hloader : s.loader = .pushing (message :: rest)) :
    ∃ image fileHandler slots,
      s.loaderStep blosc nSlots b.storage =
        some (if s.handler.metadatas.isEmpty then (s.pushed image fileHandler slots rest).notifyAll
          else s.pushed image fileHandler slots rest) ∧
      image.imageId = message.metadata.imageId ∧ IsImageOf b image.imageId image := by
  have hmessage := hlive.rest message (by rw [hloader]; exact List.mem_cons_self)
  obtain ⟨image, fileHandler, slots, hread, hid, himage⟩ :=
    readSingleImage_spec hc blosc nSlots s.handler hmessage
  refine ⟨image, fileHandler, slots, ?_, hid, hid ▸ himage⟩
  simp only [Replay.loaderStep, hloader, hread]
  rfl

theorem delivered_of_loaderStep (hc : Consistent b) (hlive : Live b start endImageId s)
    (hloader : s.loader.Delivering) (hactive : s.handler.loaderActive = false)
    (hwoken : s.notifyAll.requester = s.requester)
    (hstep : s.loaderStep blosc nSlots b.storage = some s') : Delivered b s s' := by
  obtain ⟨woken, hl⟩ | ⟨rest, hl⟩ := hloader.cases
  · cases woken with
    | false => simp [Replay.loaderStep, hl] at hstep
    | true =>
      simp only [Replay.loaderStep, hl, hactive, Bool.false_eq_true, if_false,
        Option.some.injEq] at hstep
      subst hstep
      refine ⟨rfl, rfl, trivial, hactive, rfl, ?_, id, hlive.front, List.forall_mem_nil _,
        rank_lt_of_work ?_ ?_⟩
      · simp only [Replay.pending, hl, Loader.rest]
      · simp only [Replay.stage, hl, hactive]
      · simp only [Replay.work, hl, Loader.work]
        omega
  · cases rest with
    | nil =>
      simp only [Replay.loaderStep, hl, Option.some.injEq] at hstep
      subst hstep
      refine ⟨hwoken, rfl, trivial, hactive, rfl, ?_, id, hlive.front, List.forall_mem_nil _,
        rank_lt_of_work ?_ (work_lt_of_notified rfl ?_)⟩
      · simp only [Replay.pending, hl, Loader.rest, Replay.notifyAll]
      · simp only [Replay.stage, hl, hactive, Replay.notifyAll]
      · simp [hl, Loader.work]
    | cons message rest =>
      obtain ⟨image, fileHandler, slots, hpush, hid, himage⟩ :=
        loaderStep_push blosc nSlots hc hlive hl
      -- The requester is awake or does not wait, so the notification changes nothing.
      have hnotify : (s.pushed image fileHandler slots rest).notifyAll =
          s.pushed image fileHandler slots rest := notifyAll_eq_self hwoken rfl
      rw [hpush, Option.some.injEq, hnotify, ite_self] at hstep
      subst hstep
      refine ⟨rfl, rfl, trivial, ?_, rfl, ?_, fun _ => ?_, ?_, ?_, rank_lt_of_work ?_ ?_⟩
      · simp [Replay.pushed, hactive]
      · simp [Replay.pending, Replay.pushed, hl, Loader.rest, hid]
      · simp [Replay.pushed]
      · intro m hm
        rcases List.mem_append.mp hm with hm | hm
        · exact hlive.front m hm
        · rw [List.mem_singleton.mp hm]
          exact himage
      · exact fun m hm => hlive.rest m (by rw [hl]; exact List.mem_cons_of_mem message hm)
      · cases rest <;> simp [Replay.stage, Replay.pushed, hl, hactive]
      · simp only [Replay.work, Replay.pushed, hl, Loader.work, List.length_cons]
        omega

theorem Right.of_live (h : Right b start endImageId s) (hanswers : s'.answers = s.answers)
    (hlive : Live b start endImageId s') : Right b start endImageId s' :=
  ⟨hanswers ▸ h.answers, .inr hlive⟩

theorem progress_of_waiting {woken woken' : Bool} (hrequester : s.requester = .waiting x woken)
    (hrequester' : s'.requester = .waiting x woken') (hanswers : s'.answers = s.answers)
    (hrank : s'.rank < s.rank) : Progress s s' := by
  intro y woken'' hy
  obtain ⟨rfl, -⟩ := Requester.waiting.inj (hrequester.symm.trans hy)
  exact .inr ⟨⟨woken', hrequester'⟩, hanswers, hrank⟩

theorem progress_of_idle (hrequester : s.requester = .idle x) : Progress s s' := by
  intro y woken hy
  cases hrequester.symm.trans hy

theorem notifyAll_waiting {woken : Bool} (h : s.requester = .waiting x woken) :
    s.notifyAll.requester = .waiting x true := by
  simp only [Replay.notifyAll, h]

/-- The loader sees the request. -/
theorem loaderStep_requested (h : Right b start endImageId s) (hlive : Live b start endImageId s)
    {woken : Bool} (hrequester : s.requester = .waiting x woken) (hx : x ∈ Set.Icc start endImageId)
    (hempty : s.handler.metadatas = [])
    (hloader : s.loader = .waiting true ∨ s.loader = .pushing [])
    (hactive : s.handler.loaderActive = true) (himage : s.handler.loaderImageId = x)
    (hmore : s.handler.noMoreData = false) (hclean : CleanStart b.ids x)
    (hstep : s.loaderStep blosc nSlots b.storage = some s') :
    Right b start endImageId s' ∧ Progress s s' := by
  rcases hloader with hloader | hloader
  · simp only [Replay.loaderStep, hloader, hactive, if_true, Option.some.injEq] at hstep
    subst hstep
    refine ⟨h.of_live rfl ⟨List.forall_mem_nil _, List.forall_mem_nil _,
        .fetching x woken hrequester hx rfl rfl rfl himage rfl hclean⟩,
      progress_of_waiting hrequester hrequester rfl (rank_lt_of_stage ?_)⟩
    simp [Replay.stage, hloader, hactive]
  · simp only [Replay.loaderStep, hloader, Option.some.injEq] at hstep
    subst hstep
    have hnotified := notifyAll_waiting hrequester
    refine ⟨h.of_live rfl ⟨hlive.front, List.forall_mem_nil _,
        .requested x true hnotified hx hempty (.inl rfl) hactive himage hmore hclean⟩,
      progress_of_waiting hrequester hnotified rfl
        (rank_lt_of_work ?_ (work_lt_of_notified rfl ?_))⟩
    · simp [Replay.stage, Replay.notifyAll, hloader, hactive]
    · simp [hloader, Loader.work]

/-- The loader finds the file, or finds that there is none. -/
theorem loaderStep_fetching (hc : Consistent b) (hr : Replayable b.ids start endImageId)
    (h : Right b start endImageId s) (hlive : Live b start endImageId s) {woken : Bool}
    (hrequester : s.requester = .waiting x woken) (hx : x ∈ Set.Icc start endImageId)
    (hempty : s.handler.metadatas = []) (hloader : s.loader = .fetching)
    (hactive : s.handler.loaderActive = false) (himage : s.handler.loaderImageId = x)
    (hmore : s.handler.noMoreData = false) (hclean : CleanStart b.ids x)
    (hstep : s.loaderStep blosc nSlots b.storage = some s') :
    Right b start endImageId s' ∧ Progress s s' := by
  obtain ⟨fetched, hfetch, hnone, hsome⟩ := fetchNextMetadatas_spec hc hr hx hclean
  cases fetched with
  | none =>
    simp only [Replay.loaderStep, hloader, himage, hfetch, Option.some.injEq] at hstep
    subst hstep
    refine ⟨h.of_live rfl ⟨hlive.front, List.forall_mem_nil _,
        .noData x woken hrequester hempty rfl hactive hmore (hnone rfl)⟩,
      progress_of_waiting hrequester hrequester rfl (rank_lt_of_stage ?_)⟩
    simp [Replay.stage, hloader]
  | some metadatas =>
    obtain ⟨hne, hstored, hloaded⟩ := hsome metadatas rfl
    obtain ⟨message, rest, rfl⟩ := List.exists_cons_of_ne_nil hne
    simp only [Replay.loaderStep, hloader, himage, hfetch, Option.some.injEq] at hstep
    subst hstep
    refine ⟨h.of_live rfl ⟨hlive.front, hstored,
        .awaiting x woken message rest hrequester hx hempty rfl hmore ?_⟩,
      progress_of_waiting hrequester hrequester rfl (rank_lt_of_stage ?_)⟩
    · simpa [Replay.pending, hempty, Loader.rest] using hloaded
    · simp [Replay.stage, hloader]

/-- The loader says that there is nothing. -/
theorem loaderStep_noData (h : Right b start endImageId s) (hlive : Live b start endImageId s)
    {woken : Bool} (hrequester : s.requester = .waiting x woken) (hloader : s.loader = .noData)
    (hactive : s.handler.loaderActive = false) (hnone : ∀ i ∈ b.ids, i < x)
    (hstep : s.loaderStep blosc nSlots b.storage = some s') :
    Right b start endImageId s' ∧ Progress s s' := by
  simp only [Replay.loaderStep, hloader, Option.some.injEq] at hstep
  subst hstep
  have hnotified := notifyAll_waiting hrequester
  refine ⟨h.of_live rfl ⟨hlive.front, List.forall_mem_nil _,
      .exhausted x hnotified trivial hactive rfl hnone⟩,
    progress_of_waiting hrequester hnotified rfl
      (rank_lt_of_work ?_ (work_lt_of_notified rfl ?_))⟩
  · simp [Replay.stage, Replay.notifyAll, hloader, hactive]
  · simp [hloader, Loader.work]

/-- The first image of a file wakes the requester. -/
theorem loaderStep_awaiting (hc : Consistent b) (h : Right b start endImageId s)
    (hlive : Live b start endImageId s) {woken : Bool} {message : BufferedMetadata}
    {rest : List BufferedMetadata} (hrequester : s.requester = .waiting x woken)
    (hx : x ∈ Set.Icc start endImageId) (hempty : s.handler.metadatas = [])
    (hloader : s.loader = .pushing (message :: rest)) (hmore : s.handler.noMoreData = false)
    (hloaded : Loaded b.ids x s.pending) (hstep : s.loaderStep blosc nSlots b.storage = some s') :
    Right b start endImageId s' ∧ Progress s s' := by
  obtain ⟨image, fileHandler, slots, hpush, hid, himage⟩ :=
    loaderStep_push blosc nSlots hc hlive hloader
  rw [hpush, hempty, List.isEmpty_nil, if_pos rfl, Option.some.injEq] at hstep
  subst hstep
  have hnotified := notifyAll_waiting hrequester
  refine ⟨h.of_live rfl ⟨fun m hm => ?_, fun m hm => ?_,
      .served x hnotified hx ?_ trivial ?_ hmore ?_⟩,
    progress_of_waiting hrequester hnotified rfl (rank_lt_of_work ?_ ?_)⟩
  · simp only [Replay.notifyAll, Replay.pushed, hempty, List.nil_append, List.mem_singleton] at hm
    rw [hm]
    exact himage
  · exact hlive.rest m (by rw [hloader]; exact List.mem_cons_of_mem message hm)
  · simp [Replay.notifyAll, Replay.pushed]
  · simp [Replay.notifyAll, Replay.pushed, hempty]
  · simpa [Replay.pending, Replay.notifyAll, Replay.pushed, hempty, hloader, Loader.rest, hid]
      using hloaded
  · cases rest <;> simp [Replay.stage, Replay.notifyAll, Replay.pushed, hloader, hempty]
  · change s.notifyAll.requester.wakeups + (2 * rest.length + 3) <
      s.requester.wakeups + s.loader.work
    rw [hnotified, hloader, Loader.work, Requester.wakeups, List.length_cons]
    omega

/-- The loader does not touch the answers, and it does nothing to a requester but wake it. -/
theorem loaderStep_frame (hstep : s.loaderStep blosc nSlots b.storage = some s') :
    s'.answers = s.answers ∧
      (s'.requester = s.requester ∨ s'.requester = s.notifyAll.requester) := by
  rw [Replay.loaderStep] at hstep
  split at hstep
  next =>
    obtain rfl := Option.some.inj hstep
    split <;> exact ⟨rfl, .inl rfl⟩
  next => cases hstep
  next =>
    split at hstep
    · cases hstep
    · obtain rfl := Option.some.inj hstep
      exact ⟨rfl, .inl rfl⟩
    · obtain rfl := Option.some.inj hstep
      exact ⟨rfl, .inl rfl⟩
  next =>
    obtain rfl := Option.some.inj hstep
    exact ⟨rfl, .inr rfl⟩
  next =>
    split at hstep
    · cases hstep
    · obtain rfl := Option.some.inj hstep
      split
      · exact ⟨rfl, .inr rfl⟩
      · exact ⟨rfl, .inl rfl⟩
  next =>
    obtain rfl := Option.some.inj hstep
    exact ⟨rfl, .inr rfl⟩

/-- **The loader** keeps everything right, and brings every request forward. -/
theorem Right.loaderStep (hc : Consistent b) (hr : Replayable b.ids start endImageId)
    (h : Right b start endImageId s) (hstep : s.loaderStep blosc nSlots b.storage = some s') :
    Right b start endImageId s' ∧ Progress s s' := by
  rcases h.live with hfinished | hlive
  · obtain ⟨hanswers, hrequester⟩ := loaderStep_frame hstep
    have hfinished' : s'.requester = .finished := by
      rcases hrequester with hrequester | hrequester
      · rw [hrequester, hfinished]
      · rw [hrequester]
        simp only [Replay.notifyAll, hfinished]
    refine ⟨⟨hanswers ▸ h.answers, .inl hfinished'⟩, fun y woken hy => ?_⟩
    cases hfinished.symm.trans hy
  cases hlive.phase with
  | idle x hrequester hx hloader hactive hmore hsegment hclean =>
    have d := delivered_of_loaderStep hc hlive hloader hactive
      (by simp only [Replay.notifyAll, hrequester]) hstep
    refine ⟨h.of_live d.answers ⟨d.front, d.rest, ?_⟩, progress_of_idle hrequester⟩
    exact .idle x (d.requester.trans hrequester) hx d.loader d.active (d.more.trans hmore)
      (d.pending ▸ hsegment) (d.pending ▸ hclean)
  | requested x woken hrequester hx hempty hloader hactive himage hmore hclean =>
    exact loaderStep_requested h hlive hrequester hx hempty hloader hactive himage hmore hclean
      hstep
  | fetching x woken hrequester hx hempty hloader hactive himage hmore hclean =>
    exact loaderStep_fetching hc hr h hlive hrequester hx hempty hloader hactive himage hmore hclean
      hstep
  | noData x woken hrequester hempty hloader hactive hmore hnone =>
    exact loaderStep_noData h hlive hrequester hloader hactive hnone hstep
  | exhausted x hrequester hloader hactive hmore hnone =>
    have d := delivered_of_loaderStep hc hlive hloader hactive
      (by simp only [Replay.notifyAll, hrequester]) hstep
    refine ⟨h.of_live d.answers ⟨d.front, d.rest, ?_⟩,
      progress_of_waiting hrequester (d.requester.trans hrequester) d.answers d.rank⟩
    exact .exhausted x (d.requester.trans hrequester) d.loader d.active (d.more.trans hmore) hnone
  | awaiting x woken message rest hrequester hx hempty hloader hmore hloaded =>
    exact loaderStep_awaiting hc h hlive hrequester hx hempty hloader hmore hloaded hstep
  | served x hrequester hx hne hloader hactive hmore hloaded =>
    have d := delivered_of_loaderStep hc hlive hloader hactive
      (by simp only [Replay.notifyAll, hrequester]) hstep
    refine ⟨h.of_live d.answers ⟨d.front, d.rest, ?_⟩,
      progress_of_waiting hrequester (d.requester.trans hrequester) d.answers d.rank⟩
    exact .served x (d.requester.trans hrequester) hx (d.nonempty hne) d.loader d.active
      (d.more.trans hmore) (d.pending ▸ hloaded)

/-! ### Steps of the requester -/

theorem progress_of_answer {woken : Bool} (hrequester : s.requester = .waiting x woken) :
    Progress s (s.answer x) := by
  intro y woken' hy
  obtain ⟨rfl, -⟩ := Requester.waiting.inj (hrequester.symm.trans hy)
  exact .inl (answers_answer s x)

/-- A request that finds nothing in front is handed to the loader. -/
theorem requesterStep_request (h : Right b start endImageId s) (hlive : Live b start endImageId s)
    (hx : x ∈ Set.Icc start endImageId) (hempty : s.handler.metadatas = [])
    (hloader : s.loader.Delivering) (hactive : s.handler.loaderActive = false)
    (hmore : s.handler.noMoreData = false) (hsegment : Segment b.ids x s.pending)
    (hclean : s.pending = [] → CleanStart b.ids x) :
    Right b start endImageId (s.request x) := by
  have hrequest : s.request x = { s with
      handler := s.handler.requestLoader x
      loader := s.notifyAll.loader
      requester := .waiting x false } := by
    simp only [Replay.request, BufferHandler.needsLoader, hactive, Bool.not_false, Bool.true_or,
      if_true]
    rw [if_neg]
    · rfl
    · simp [Replay.notifyAll, BufferHandler.requestLoader, BufferHandler.imageAvailable, hempty,
        hmore]
  rw [hrequest]
  refine h.of_live rfl ⟨hlive.front, fun m hm => ?_, ?_⟩
  · refine hlive.rest m ?_
    cases hl : s.loader <;> simp_all [Replay.notifyAll, Loader.rest]
  · obtain ⟨woken, hl⟩ | ⟨rest, hl⟩ := hloader.cases
    · refine .requested x false rfl hx hempty (.inl ?_) rfl rfl hmore (hclean ?_)
      · simp only [Replay.notifyAll, hl]
      · simp [Replay.pending, hempty, hl, Loader.rest]
    · cases rest with
      | nil =>
        refine .requested x false rfl hx hempty (.inr ?_) rfl rfl hmore (hclean ?_)
        · simp only [Replay.notifyAll, hl]
        · simp [Replay.pending, hempty, hl, Loader.rest]
      | cons message rest =>
        refine .awaiting x false message rest rfl hx hempty ?_ hmore (.inl ?_)
        · simp only [Replay.notifyAll, hl]
        · simpa [Replay.pending, Replay.notifyAll, BufferHandler.requestLoader, hempty, hl,
            Loader.rest] using hsegment

/-- A requester that was woken too early sleeps again. -/
theorem requesterStep_sleep (h : Right b start endImageId s) (hlive : Live b start endImageId s)
    (hrequester : s.requester = .waiting x true) (hempty : s.handler.metadatas = [])
    (hmore : s.handler.noMoreData = false)
    (hphase : Phase b.ids start endImageId { s with requester := .waiting x false })
    (hstep : s.requesterStep endImageId = some s') : Right b start endImageId s' ∧ Progress s s' :=
    by
  have hnot : s.handler.imageAvailable = false := by
    simp [BufferHandler.imageAvailable, hempty, hmore]
  simp only [Replay.requesterStep, hrequester, hnot, Bool.false_eq_true, if_false,
    Option.some.injEq] at hstep
  subst hstep
  refine ⟨h.of_live rfl ⟨hlive.front, hlive.rest, hphase⟩,
    progress_of_waiting hrequester rfl rfl (rank_lt_of_work rfl ?_)⟩
  simp only [Replay.work, hrequester, Requester.wakeups]
  omega

/-- A requester that is woken in time returns. -/
theorem requesterStep_return (h : Right b start endImageId (s.answer x))
    (hrequester : s.requester = .waiting x true) (havailable : s.handler.imageAvailable = true)
    (hstep : s.requesterStep endImageId = some s') : Right b start endImageId s' ∧ Progress s s' :=
    by
  simp only [Replay.requesterStep, hrequester, havailable, if_true, Option.some.injEq] at hstep
  subst hstep
  exact ⟨h, progress_of_answer hrequester⟩

/-- **The requester** returns only what is right, and sleeps only when the loader goes on. -/
theorem Right.requesterStep (hr : Replayable b.ids start endImageId)
    (h : Right b start endImageId s) (hstep : s.requesterStep endImageId = some s') : Right b start
    endImageId s' ∧ Progress s s' := by
  rcases h.live with hfinished | hlive
  · simp [Replay.requesterStep, hfinished] at hstep
  -- A requester that sleeps does nothing.
  have hawake : ∀ {x : ℕ} {woken : Bool}, s.requester = .waiting x woken → woken = true := by
    intro x woken hrequester
    cases woken with
    | true => rfl
    | false => simp [Replay.requesterStep, hrequester] at hstep
  cases hlive.phase with
  | idle x hrequester hx hloader hactive hmore hsegment hclean =>
    refine ⟨?_, progress_of_idle hrequester⟩
    simp only [Replay.requesterStep, hrequester, Option.ite_none_right_eq_some,
      Option.some.injEq] at hstep
    obtain ⟨hend, rfl⟩ := hstep
    split
    next hpop =>
      have hne : s.handler.metadatas ≠ [] := by
        intro hempty
        simp [BufferHandler.tryPopImage, hempty] at hpop
      exact h.pop hlive hr ⟨hx, hend⟩ hne hloader hactive hmore hsegment
    next hpop =>
      refine requesterStep_request h hlive ⟨hx, hend⟩ ?_ hloader hactive hmore hsegment
        (hclean hend)
      by_contra hne
      obtain ⟨image, later, hdeque⟩ := List.exists_cons_of_ne_nil hne
      have hle := (hsegment.mem image.imageId (by simp [Replay.pending, hdeque])).2
      simp [BufferHandler.tryPopImage, hdeque, hle] at hpop
  | requested x woken hrequester hx hempty hloader hactive himage hmore hclean =>
    obtain rfl := hawake hrequester
    exact requesterStep_sleep h hlive hrequester hempty hmore
      (.requested x false rfl hx hempty hloader hactive himage hmore hclean) hstep
  | fetching x woken hrequester hx hempty hloader hactive himage hmore hclean =>
    obtain rfl := hawake hrequester
    exact requesterStep_sleep h hlive hrequester hempty hmore
      (.fetching x false rfl hx hempty hloader hactive himage hmore hclean) hstep
  | noData x woken hrequester hempty hloader hactive hmore hnone =>
    obtain rfl := hawake hrequester
    exact requesterStep_sleep h hlive hrequester hempty hmore
      (.noData x false rfl hempty hloader hactive hmore hnone) hstep
  | exhausted x hrequester hloader hactive hmore hnone =>
    refine requesterStep_return (h.giveUp hlive hnone) hrequester ?_ hstep
    simp [BufferHandler.imageAvailable, hmore]
  | awaiting x woken message rest hrequester hx hempty hloader hmore hloaded =>
    obtain rfl := hawake hrequester
    exact requesterStep_sleep h hlive hrequester hempty hmore
      (.awaiting x false message rest rfl hx hempty hloader hmore hloaded) hstep
  | served x hrequester hx hne hloader hactive hmore hloaded =>
    have hright : Right b start endImageId (s.answer x) := by
      rcases hloaded with hsegment | hnone
      · exact h.pop hlive hr hx hne hloader hactive hmore hsegment
      · exact h.giveUp hlive hnone
    refine requesterStep_return hright hrequester ?_ hstep
    simp [BufferHandler.imageAvailable, hne]

end Buffer

end StdDaq
