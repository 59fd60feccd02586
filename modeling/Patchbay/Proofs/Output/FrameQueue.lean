import Patchbay.Output.FrameQueue
import Patchbay.Proofs.Ring
import Patchbay.Proofs.Sample.Frame
/-!
# A frame queue is a queue of frames

What the operations of a `FrameQueue` do when its ring holds a list. Adding samples takes as many of
their frames as fit, whatever the batches; a stopped queue keeps what it has, and one that plays
gives it up from the front and counts a frame that is not there.
-/

namespace Patchbay.FrameQueue

variable {n : Nat} {q : FrameQueue n} {l : List Frame}

theorem create_holds {chunkFrames depthMs : Nat} (h : create? n chunkFrames depthMs = some q) :
    q.ring.Holds [] ∧ q.active = false ∧ q.underruns = 0 := by
  obtain ⟨ring, hring, rfl⟩ := Option.map_eq_some_iff.1 h
  exact ⟨Ring.Holds.empty hring, rfl, rfl⟩

/-! ## Adding frames -/

/-- As many frames are taken as fit, and the queue grows by them. -/
theorem enqueue_count (q : FrameQueue n) (samples : List Int16) :
    (q.enqueue samples).1 = min (samples.length / 2) (n - 1 - q.ring.size) ∧
      (q.enqueue samples).2.ring.size = q.ring.size + (q.enqueue samples).1 := by
  fun_induction enqueue samples q with
  | case1 samples q hempty =>
    rw [List.isEmpty_iff.1 hempty]
    exact ⟨by simp, rfl⟩
  | case2 samples q hne batch taken ring hpush q' =>
    rename_i hshort
    have hcount := q.ring.pushMany_count batch
    have hsize := q.ring.size_pushMany batch
    rw [hpush] at hcount hsize
    have hframes : batch.length + _ = _ :=
      Frame.length_ofSamples_take_add_drop batchFrames samples
    refine ⟨?_, hsize⟩
    change taken = min (samples.length / 2) (n - 1 - q.ring.size)
    omega
  | case3 samples q hne batch taken ring hpush q' hfull more q'' hrest =>
    rename_i ih
    have hcount := q.ring.pushMany_count batch
    have hsize := q.ring.size_pushMany batch
    rw [hpush] at hcount hsize
    have hframes : batch.length + _ = _ :=
      Frame.length_ofSamples_take_add_drop batchFrames samples
    rw [Frame.length_ofSamples (samples.drop _)] at hframes
    rw [hrest] at ih
    obtain ⟨hmore, hgrown⟩ := ih
    change more = min _ (n - 1 - ring.size) at hmore
    change q''.ring.size = ring.size + more at hgrown
    change ring.size = q.ring.size + taken at hsize
    refine ⟨?_, ?_⟩
    · change taken + more = min (samples.length / 2) (n - 1 - q.ring.size)
      omega
    · change q''.ring.size = q.ring.size + (taken + more)
      omega

theorem enqueue_holds (h : q.ring.Holds l) (samples : List Int16) :
    let room := n - 1 - l.length
    let result := q.enqueue samples
    result.1 = min (samples.length / 2) room ∧
      result.2 = { q with ring := result.2.ring } ∧
      result.2.ring.Holds (l ++ (Frame.ofSamples samples).take room) := by
  have hlength := h.length_lt
  refine ⟨by rw [(q.enqueue_count samples).1, h.size_eq], ?_⟩
  fun_induction enqueue samples q generalizing l with
  | case1 samples q hempty =>
    rw [List.isEmpty_iff.1 hempty]
    refine ⟨rfl, ?_⟩
    simpa [Frame.ofSamples] using h
  | case2 samples q hne batch taken ring hpush q' =>
    rename_i hshort
    obtain ⟨htaken, hring⟩ := h.pushMany batch
    rw [hpush] at htaken hring
    have hcut : batch ++ _ = _ := Frame.ofSamples_take_append_drop batchFrames samples
    have hroom : n - 1 - l.length < batch.length := by omega
    refine ⟨rfl, ?_⟩
    rw [← hcut, List.take_append_of_le_length (Nat.le_of_lt hroom)]
    exact hring
  | case3 samples q hne batch taken ring hpush q' hfull more q'' hrest =>
    rename_i ih
    obtain ⟨htaken, hring⟩ := h.pushMany batch
    rw [hpush] at htaken hring
    have hcut : batch ++ _ = _ := Frame.ofSamples_take_append_drop batchFrames samples
    have hroom : batch.length ≤ n - 1 - l.length := by omega
    rw [List.take_of_length_le hroom] at hring
    obtain ⟨hq, hholds⟩ := ih hring (by rw [List.length_append]; omega)
    rw [hrest, List.length_append] at hholds
    rw [hrest] at hq
    refine ⟨hq, ?_⟩
    rw [← hcut, List.take_append, List.take_of_length_le hroom, ← List.append_assoc,
      Nat.sub_sub, Nat.sub_sub, ← Nat.add_assoc]
    rw [Nat.sub_sub, ← Nat.add_assoc] at hholds
    exact hholds

/-- Starting changes nothing but whether the queue plays. -/
theorem start_queue (q : FrameQueue n) : ∃ active, q.start.value.2 = { q with active } := by
  unfold start
  split
  · exact ⟨q.active, rfl⟩
  · exact ⟨true, rfl⟩

theorem start_of_size_pos (h : 0 < q.ring.size) :
    q.start.value = (.ok (), { q with active := true }) := by
  have hsome : q.ring.tail ≠ q.ring.head := mt Ring.size_eq_zero_iff.2 (Nat.ne_of_gt h)
  have hfull : q.ring.isEmpty = false := beq_false_of_ne hsome
  unfold start
  rw [hfull]
  rfl

/-! ## Taking frames -/

theorem pop_stopped (hstopped : q.active = false) : q.pop = (.silent, q) := by
  unfold pop
  rw [hstopped]
  rfl

theorem pop_nil (h : q.ring.Holds []) (hplaying : q.active = true) :
    q.pop = (.silent, { q with underruns := q.underruns + 1 }) := by
  unfold pop
  rw [if_pos hplaying, h.pop_nil]

theorem pop_cons {frame : Frame} (h : q.ring.Holds (frame :: l)) (hplaying : q.active = true) :
    ∃ ring, q.pop = (frame, { q with ring }) ∧ ring.Holds l := by
  obtain ⟨hframe, hring⟩ := h.pop_cons
  refine ⟨q.ring.pop.2, ?_, hring⟩
  have hpop : q.ring.pop = (some frame, q.ring.pop.2) := by rw [← hframe]
  unfold pop
  rw [if_pos hplaying, hpop]

end Patchbay.FrameQueue
