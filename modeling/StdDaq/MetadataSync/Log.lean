import StdDaq.MetadataSync

/-!
# The log of the metadata synchronizer

What a call of the synchronizer does depends on the order of the calls before it: images may come
before any metadata, and the sending thread may have emptied the cache. The log of a run says which
metadata were stored, dropped and returned, and which images were received while what was the head
of the cache. One call writes at most two entries, and an entry stands for one change of the
containers: `Logs`.

## Main results

* `logs_of_step` — what one call does
* `invariant_of_logs` — what every change preserves, every run preserves
-/

namespace StdDaq

namespace MetadataSync

open Synchronizer SyncTrace

/-- What happens to the containers. -/
inductive LogEntry where
  /-- `add_metadata` stores metadata under an id. -/
  | stored (id : ℕ)
  /-- `add_metadata` drops the first entry of the cache. -/
  | dropped (id : ℕ)
  /-- `get_next_received_image` returns the first entry of the cache. -/
  | returned (id : ℕ)
  /-- `add_received_image` with an id, and the first id in the cache. -/
  | received (id first : ℕ)
  deriving DecidableEq, Repr

/-- A synchronizer with the record and the log of a run. -/
structure LoggedTrace where
  trace : SyncTrace
  log : List LogEntry

/-- The entries that a call writes. -/
def entriesOf (sync : Synchronizer) (s : State) : SyncCall → List LogEntry
  | .addMetadata m =>
    let cache := s.metadataCache.insert m.imageId m
    .stored m.imageId ::
      if sync.nImagesBuffer < cache.size then (cache.first?.map fun e => .dropped e.1).toList
      else []
  | .addReceivedImage id => (s.metadataCache.first?.map fun e => .received id e.1).toList
  | .getNextReceivedImage =>
    ((getNextReceivedImage s).2.bind fun _ =>
      s.metadataCache.first?.map fun e => .returned e.1).toList

namespace LoggedTrace

/-- A new synchronizer. -/
def start : LoggedTrace := ⟨SyncTrace.start, []⟩

/-- One call. -/
def step (sync : Synchronizer) (t : LoggedTrace) (call : SyncCall) : Option LoggedTrace :=
  (t.trace.step sync call).map fun trace => ⟨trace, t.log ++ entriesOf sync t.trace.state call⟩

end LoggedTrace

/-- The change of the containers that an entry of the log stands for. -/
inductive Logs (t : LoggedTrace) : LoggedTrace → Prop where
  | stored (m : ImageMetadata) :
      Logs t
        { trace := { t.trace with
            state := { t.trace.state with
              metadataCache := t.trace.state.metadataCache.insert m.imageId m }
            added := t.trace.added ++ [m] }
          log := t.log ++ [.stored m.imageId] }
  | dropped {first : ℕ} {data : ImageMetadata}
      (hfirst : t.trace.state.metadataCache.first? = some (first, data)) :
      Logs t
        { trace := { t.trace with
            state := { t.trace.state with
              metadataCache := t.trace.state.metadataCache.erase first } }
          log := t.log ++ [.dropped first] }
  | returned {first : ℕ} {data : ImageMetadata}
      (hfirst : t.trace.state.metadataCache.first? = some (first, data))
      (hmin : t.trace.state.receivedImages.min = (first : WithTop ℕ)) :
      Logs t
        { trace := { t.trace with
            state :=
              { receivedImages := t.trace.state.receivedImages.erase first
                metadataCache := t.trace.state.metadataCache.erase first }
            returned := t.trace.returned ++ [data] }
          log := t.log ++ [.returned first] }
  | received (id : ℕ) {first : ℕ} {data : ImageMetadata}
      (hfirst : t.trace.state.metadataCache.first? = some (first, data)) :
      Logs t
        { trace := { t.trace with
            state := { t.trace.state with
              receivedImages := (insert id t.trace.state.receivedImages).filter (first ≤ ·) }
            received := t.trace.received ++ [id] }
          log := t.log ++ [.received id first] }

variable {sync : Synchronizer} {t u : LoggedTrace}

/-- **What one call does**: nothing, one change, or two, when metadata is stored and the cache is
full. -/
theorem logs_of_step {call : SyncCall} (h : t.step sync call = some u) :
    u = t ∨ Logs t u ∨ ∃ v, Logs t v ∧ Logs v u := by
  obtain ⟨trace, htrace, rfl⟩ := Option.map_eq_some_iff.mp h
  cases call with
  | addMetadata m =>
    obtain rfl := Option.some.inj htrace
    rw [addMetadata, entriesOf]
    by_cases hfull : sync.nImagesBuffer < (t.trace.state.metadataCache.insert m.imageId m).size
    · obtain ⟨⟨first, data⟩, hfirst⟩ :
          ∃ e, (t.trace.state.metadataCache.insert m.imageId m).first? = some e := by
        refine Option.ne_none_iff_exists'.mp fun hnone => ?_
        have hget := Std.TreeMap.first?_eq_none_iff.mp hnone m.imageId
        rw [Std.TreeMap.getElem?_insert_nat, if_pos rfl] at hget
        cases hget
      refine .inr (.inr ⟨_, .stored m, ?_⟩)
      have hdropped := Logs.dropped (t := ⟨{ t.trace with
        state := { t.trace.state with
          metadataCache := t.trace.state.metadataCache.insert m.imageId m }
        added := t.trace.added ++ [m] }, t.log ++ [.stored m.imageId]⟩) hfirst
      simp only [if_pos hfull, gt_iff_lt, Std.TreeMap.eraseFirst, hfirst, Option.map_some,
        Option.toList_some]
      simpa only [List.append_assoc, List.singleton_append] using hdropped
    · refine .inr (.inl ?_)
      simp only [if_neg hfull, gt_iff_lt]
      exact .stored m
  | addReceivedImage id =>
    obtain ⟨state, hstate, rfl⟩ := Option.map_eq_some_iff.mp htrace
    obtain ⟨⟨first, data⟩, hfirst, rfl⟩ := Option.map_eq_some_iff.mp hstate
    refine .inr (.inl ?_)
    rw [entriesOf, hfirst]
    exact .received id hfirst
  | getNextReceivedImage =>
    obtain rfl := Option.some.inj htrace
    rw [next, entriesOf, getNextReceivedImage]
    cases hfirst : t.trace.state.metadataCache.first? with
    | none =>
      left
      simp
    | some e =>
      obtain ⟨first, data⟩ := e
      by_cases hmin : t.trace.state.receivedImages.min = (first : WithTop ℕ)
      · refine .inr (.inl ?_)
        simp only [if_pos hmin, Std.TreeMap.eraseFirst, hfirst]
        exact .returned hfirst hmin
      · left
        simp [if_neg hmin]

/-- **The invariant rule**: what every change preserves, every run preserves. -/
theorem invariant_of_logs {P : LoggedTrace → Prop} (hlogs : ∀ {t u}, P t → Logs t u → P u)
    {calls : List SyncCall} (hrun : Run (Steps.guarded (LoggedTrace.step sync)) t calls u)
    (h : P t) : P u := by
  refine hrun.invariant (fun v call w hv hstep => ?_) h
  rcases logs_of_step hstep with rfl | hw | ⟨x, hx, hw⟩
  · exact hv
  · exact hlogs hv hw
  · exact hlogs (hlogs hv hx) hw

end MetadataSync

end StdDaq
