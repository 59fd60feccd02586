import Mathlib.Data.Nat.Basic
import Patchbay.Proofs.Output.PwmSession
/-!
# The order of playback

A PWM output plays the frames of its chunks in turn, one at each interrupt, from when it started
until it stops or starts again. It fetches a chunk when the last one is used up, and a start throws
the rest of a chunk away. None of this depends on which writes to the channels fail
(`performAll_order`). Where in the chunk the output stands is a `position`, which goes from sample
to sample by `Effect.position_eq`.
-/

namespace Patchbay

variable {frames : Nat}

/-- The interrupts since the last start, one call later. A start that fails changes nothing. -/
def Moment.note (plays? : Option (List (Moment frames))) (m : Moment frames) :
    Option (List (Moment frames)) :=
  match m.act with
  | .start => if m.ok then some [] else plays?
  | .stop => none
  | .interrupt => plays?.map (· ++ [m])

/-- The interrupts since an output last started, or `none` while it is stopped. -/
def since (history : List (Moment frames)) : Option (List (Moment frames)) :=
  history.foldl Moment.note none

theorem since_append (history : List (Moment frames)) (m : Moment frames) :
    since (history ++ [m]) = Moment.note (since history) m := by
  unfold since
  rw [List.foldl_append]
  rfl

/-- An interrupt is the one that should follow those since the start. It fetches a chunk if the last
one is used up, and plays the next frame of the chunk that was fetched last, whose source is itself
or one of the others. -/
structure Moment.Follows (silence : UInt16) (plays : List (Moment frames)) (m : Moment frames) :
    Prop where
  fetched_length : m.fetched.length = if plays.length % frames = 0 then 1 else 0
  told : ∃ source fetch left right,
    (plays ++ [m])[plays.length - plays.length % frames]? = some source ∧
      source.fetched = [fetch] ∧
      (fetch.samples silence)[2 * (plays.length % frames)]? = some left ∧
      (fetch.samples silence)[2 * (plays.length % frames) + 1]? = some right ∧
      Told left right m.ok m.left m.right

namespace PwmOutput

variable {κ ρ φ γ : Type}

/-! ## Positions in the chunk

The output knows the next frame; its position is the index of the sample that this frame begins
with. -/

/-- Where an output reads its chunk next: at the left sample of the next frame, or past the last
sample when the chunk is used up. -/
def position (o : PwmOutput κ ρ frames) : Nat :=
  o.next.elim (2 * frames) fun i => 2 * i.val

theorem position_of_next {o : PwmOutput κ ρ frames} {i : Fin frames} (h : o.next = some i) :
    o.position = 2 * i.val := by
  rw [position, h]
  rfl

theorem position_of_end {o : PwmOutput κ ρ frames} (h : o.next = none) :
    o.position = 2 * frames := by
  rw [position, h]
  rfl

theorem position_eq_end_iff (o : PwmOutput κ ρ frames) :
    o.position = 2 * frames ↔ o.next = none := by
  cases hnext : o.next with
  | none => exact iff_of_true (position_of_end hnext) rfl
  | some i =>
    have hi := i.isLt
    rw [position_of_next hnext]
    exact iff_of_false (by omega) nofun

/-- Behind a frame is the next one, or the end of the chunk. -/
theorem position_after {o : PwmOutput κ ρ frames} {i : Fin frames} (h : o.next = after i) :
    o.position = 2 * i.val + 2 := by
  unfold after at h
  split at h
  · exact position_of_next h
  · next hlast =>
    have hi := i.isLt
    rw [position_of_end h]
    omega

/-- How a call moves the position: a start that succeeds goes to the end, and an interrupt of an
active output goes on by one frame, from the beginning if it was at the end. -/
theorem Effect.position_eq {s : PwmOutput κ ρ frames × γ} {call : PwmCall frames γ}
    {r : Moment frames × (PwmOutput κ ρ frames × γ)} (h : Effect s call r) :
    r.2.1.position =
      match call with
      | .start => if r.1.ok then 2 * frames else s.1.position
      | .stop => s.1.position
      | .interrupt _ =>
        if s.1.active then (if s.1.position = 2 * frames then 0 else s.1.position) + 2
        else s.1.position := by
  cases h with
  | started => rfl
  | refused => rfl
  | stopped => rfl
  | ignored stopped =>
    simp only [stopped]
    rfl
  | continued ok c c' active next told =>
    have hinside : s.1.position ≠ 2 * frames := by
      rw [Ne, position_eq_end_iff, next]
      nofun
    rw [position_after rfl, if_pos active, if_neg hinside, position_of_next next]
  | refilled ok c c' active next fetched filled begins told =>
    rw [position_after rfl, if_pos active, if_pos (position_of_end next), begins]

/-! ## Where the output stands -/

/-- The next frame is the one that is due after some plays, in the chunk that they fetched last. -/
structure Positioned (silence : UInt16) (plays : List (Moment frames))
    (o : PwmOutput κ ρ frames) : Prop where
  next_eq : o.next.map Fin.val =
    if plays.length % frames = 0 then none else some (plays.length % frames)
  chunk_eq : plays.length % frames ≠ 0 → ∃ source fetch,
    plays[plays.length - plays.length % frames]? = some source ∧ source.fetched = [fetch] ∧
      o.chunk.toList = fetch.samples silence

structure InStep (silence : UInt16) (plays? : Option (List (Moment frames)))
    (o : PwmOutput κ ρ frames) : Prop where
  silence_eq : o.silence = silence
  active_eq : o.active = plays?.isSome
  positioned : ∀ plays, plays? = some plays → Positioned silence plays o

theorem succ_mod (k : Nat) (h : 0 < frames) :
    (k + 1) % frames = if k % frames + 1 < frames then k % frames + 1 else 0 := by
  have hlt : k % frames < frames := Nat.mod_lt k h
  rw [← Nat.mod_add_mod]
  split
  · next hinside => exact Nat.mod_eq_of_lt hinside
  · next hend =>
    have hwhole : k % frames + 1 = frames := by omega
    rw [hwhole, Nat.mod_self]

/-- The frame after the one that is due is the one that is due next. -/
theorem after_due {i : Fin frames} {k : Nat} (h : i.val = k % frames) :
    (after i).map Fin.val = if (k + 1) % frames = 0 then none else some ((k + 1) % frames) := by
  have hpos : 0 < frames := Nat.lt_of_le_of_lt (Nat.zero_le _) i.isLt
  unfold after
  rw [succ_mod k hpos, ← h]
  by_cases hinside : i.val + 1 < frames
  · rw [dif_pos hinside, if_pos hinside, if_neg (Nat.succ_ne_zero _)]
    rfl
  · rw [dif_neg hinside, if_neg hinside, if_pos rfl]
    rfl

/-- An interrupt after some plays, and the output behind it: it played the frame that was due, out
of the chunk that a source fetched. -/
structure Played (silence : UInt16) (plays : List (Moment frames)) (m : Moment frames)
    (o : PwmOutput κ ρ frames) (i : Fin frames) (source : Moment frames) (fetch : Fetch frames) :
    Prop where
  due : i.val = plays.length % frames
  fetched_length : m.fetched.length = if plays.length % frames = 0 then 1 else 0
  source_eq : (plays ++ [m])[plays.length - plays.length % frames]? = some source
  fetch_eq : source.fetched = [fetch]
  chunk_eq : o.chunk.toList = fetch.samples silence
  next_eq : o.next = after i
  told : Told (o.frameAt i).1 (o.frameAt i).2 m.ok m.left m.right

namespace Played

variable {silence : UInt16} {plays : List (Moment frames)} {m source : Moment frames}
  {o : PwmOutput κ ρ frames} {i : Fin frames} {fetch : Fetch frames}

theorem positioned (h : Played silence plays m o i source fetch) :
    Positioned silence (plays ++ [m]) o := by
  have hpos : 0 < frames := o.frames_pos
  have hlength : (plays ++ [m]).length = plays.length + 1 := List.length_append
  refine ⟨?_, ?_⟩
  · rw [h.next_eq, hlength]
    exact after_due h.due
  · intro hinside
    rw [hlength] at hinside ⊢
    have hsucc : (plays.length + 1) % frames = plays.length % frames + 1 := by
      rw [succ_mod _ hpos] at hinside ⊢
      by_cases hmore : plays.length % frames + 1 < frames
      · exact if_pos hmore
      · exact absurd (if_neg hmore) hinside
    rw [hsucc, Nat.add_sub_add_right]
    exact ⟨source, fetch, h.source_eq, h.fetch_eq, h.chunk_eq⟩

theorem follows (h : Played silence plays m o i source fetch) : m.Follows silence plays := by
  have hsample (j : Nat) (hj : j < 2 * frames) :
      (fetch.samples silence)[j]? = some o.chunk[j] := by
    rw [← h.chunk_eq, Vector.getElem?_toList]
    exact Vector.getElem?_eq_getElem hj
  refine ⟨h.fetched_length, source, fetch, _, _, h.source_eq, h.fetch_eq, ?_, ?_, h.told⟩
  · rw [← h.due]
    exact hsample _ _
  · rw [← h.due]
    exact hsample _ _

end Played

/-! ## One call -/

section Step

variable {silence : UInt16} {s : PwmOutput κ ρ frames × γ} {call : PwmCall frames γ}
  {fill : Fill UInt16 (2 * frames) γ} {r : Moment frames × (PwmOutput κ ρ frames × γ)}

/-- While the output is stopped, an interrupt does nothing at all. -/
theorem Effect.inert (h : Effect s (.interrupt fill) r) (hs : s.1.active = false) :
    r = (⟨.interrupt, true, [], [], []⟩, s) := by
  cases h with
  | ignored _ => rfl
  | continued _ _ _ active => cases hs.symm.trans active
  | refilled _ _ _ active => cases hs.symm.trans active

/-- A start parks both channels, and fails if one does. -/
theorem Effect.start_told (h : Effect s .start r) :
    Told s.1.silence s.1.silence r.1.ok r.1.left r.1.right := by
  cases h with
  | started _ _ told => exact told
  | refused _ _ told => exact told

/-- A start that fails changes nothing but what the channels do with it. -/
theorem Effect.of_failed_start (h : Effect s .start r) (hfailed : r.1.ok = false) :
    ∃ c c', r.2 = ({ s.1 with left := c, right := c' }, s.2) := by
  cases h with
  | started => cases hfailed
  | refused c c' => exact ⟨c, c', rfl⟩

/-- While the output is active, an interrupt plays the frame that is due. -/
theorem Effect.played {plays : List (Moment frames)} (h : Effect s (.interrupt fill) r)
    (hs : InStep silence (some plays) s.1) :
    r.1.act = .interrupt ∧ r.2.1.active = true ∧ r.2.1.silence = silence ∧
      ∃ i source fetch, Played silence plays r.1 r.2.1 i source fetch := by
  have hposition := hs.positioned plays rfl
  have hnext := hposition.next_eq
  cases h with
  | ignored stopped => cases hs.active_eq.symm.trans stopped
  | @continued _ ok c c' left right i active next told =>
    rw [next] at hnext
    by_cases hfirst : plays.length % frames = 0
    · rw [if_pos hfirst] at hnext
      cases hnext
    · rw [if_neg hfirst] at hnext
      obtain ⟨source, fetch, hsource, hfetch, hchunk⟩ := hposition.chunk_eq hfirst
      have hearlier := (List.getElem?_eq_some_iff.1 hsource).1
      refine ⟨rfl, active, hs.silence_eq, i, source, fetch, ?_⟩
      exact {
        due := Option.some.inj hnext
        fetched_length := (if_neg hfirst).symm
        source_eq := (List.getElem?_append_left hearlier).trans hsource
        fetch_eq := hfetch
        chunk_eq := hchunk
        next_eq := rfl
        told }
  | @refilled _ ok c c' g left right fetch chunk first active next fetched filled begins told =>
    rw [next] at hnext
    by_cases hfirst : plays.length % frames = 0
    · -- The chunk is new, so the interrupt is its own source.
      refine ⟨rfl, active, hs.silence_eq, first, ⟨.interrupt, ok, [fetch], left, right⟩, fetch, ?_⟩
      exact {
        due := begins.trans hfirst.symm
        fetched_length := (if_pos hfirst).symm
        source_eq := by
          rw [hfirst]
          exact List.getElem?_concat_length
        fetch_eq := rfl
        chunk_eq := hs.silence_eq ▸ filled
        next_eq := rfl
        told }
    · rw [if_neg hfirst] at hnext
      cases hnext

theorem Effect.inStep {history : List (Moment frames)} (h : Effect s call r)
    (hs : InStep silence (since history) s.1) :
    InStep silence (since (history ++ [r.1])) r.2.1 := by
  rw [since_append]
  cases call with
  | start =>
    cases h with
    | started =>
      refine ⟨hs.silence_eq, rfl, ?_⟩
      intro plays hplays
      obtain rfl := Option.some.inj hplays
      refine ⟨?_, ?_⟩
      · exact (if_pos (Nat.zero_mod frames)).symm
      · intro hinside
        exact absurd (Nat.zero_mod frames) hinside
    | refused => exact ⟨hs.silence_eq, hs.active_eq, fun plays hplays =>
        ⟨(hs.positioned plays hplays).next_eq, (hs.positioned plays hplays).chunk_eq⟩⟩
  | stop =>
    cases h with
    | stopped => exact ⟨hs.silence_eq, rfl, fun plays hplays => nomatch hplays⟩
  | interrupt fill =>
    cases hplays : since history with
    | none =>
      rw [hplays] at hs
      obtain rfl := h.inert hs.active_eq
      exact hs
    | some plays =>
      rw [hplays] at hs
      obtain ⟨hact, hactive, hsilence, i, source, fetch, hplayed⟩ := h.played hs
      have hnote : Moment.note (some plays) r.1 = some (plays ++ [r.1]) := by
        unfold Moment.note
        rw [hact]
        rfl
      rw [hnote]
      refine ⟨hsilence, hactive, ?_⟩
      intro plays' hplays'
      obtain rfl := Option.some.inj hplays'
      exact hplayed.positioned

end Step

/-! ## Whole runs -/

variable [DutyChannel κ φ] [DutyChannel ρ φ]

theorem performAll_inStep {silence : UInt16} (history : List (Moment frames))
    (s : PwmOutput κ ρ frames × γ) (calls : List (PwmCall frames γ))
    (hs : InStep silence (since history) s.1) :
    InStep silence (since (history ++ (performAll s calls).1)) (performAll s calls).2.1 := by
  induction calls generalizing history s with
  | nil =>
    change InStep silence (since (history ++ [])) s.1
    rw [List.append_nil]
    exact hs
  | cons call calls ih =>
    have hstep := (perform_effect s call).inStep hs
    have hrest := ih (history ++ [(perform s call).1]) (perform s call).2 hstep
    rw [List.append_assoc] at hrest
    exact hrest

/-- Whatever is called on an output and whichever writes fail, it plays as it should at every
interrupt that comes next: not at all while it is stopped, and the frame that is due after those
since the start while it is active. A start parks both channels; if that fails, it changes nothing
else. -/
theorem performAll_order {samples : Nat} (hsome : 2 ≤ samples) (heven : samples % 2 = 0) (left : κ)
    (right : ρ) :
    ∃ o, create? samples left right = some o ∧
      ∀ {γ : Type} (g : γ) (calls : List (PwmCall (samples / 2) γ)),
        let run := performAll (o, g) calls
        run.2.1.active = (since run.1).isSome ∧
          (∀ fill, since run.1 = none →
            perform run.2 (.interrupt fill) = (⟨.interrupt, true, [], [], []⟩, run.2)) ∧
          (∀ fill plays, since run.1 = some plays →
            (perform run.2 (.interrupt fill)).1.Follows o.silence plays) ∧
          let started := perform run.2 .start
          Told o.silence o.silence started.1.ok started.1.left started.1.right ∧
            (started.1.ok = false → ∃ c c',
              started.2 = ({ run.2.1 with left := c, right := c' }, run.2.2)) := by
  obtain ⟨o, hcreate, hactive, -, -⟩ := create?_of_even hsome heven left right
  have hstart : InStep o.silence (since []) o :=
    ⟨rfl, hactive, fun plays hplays => nomatch hplays⟩
  refine ⟨o, hcreate, ?_⟩
  intro γ g calls run
  have hrun : InStep o.silence (since run.1) run.2.1 := performAll_inStep [] (o, g) calls hstart
  refine ⟨hrun.active_eq, ?_, ?_, ?_, ?_⟩
  · intro fill hstopped
    rw [hstopped] at hrun
    exact (perform_effect run.2 _).inert hrun.active_eq
  · intro fill plays hplays
    rw [hplays] at hrun
    obtain ⟨-, -, -, i, source, fetch, hplayed⟩ := (perform_effect run.2 _).played hrun
    exact hplayed.follows
  · rw [← hrun.silence_eq]
    exact (perform_effect run.2 .start).start_told
  · intro hfailed
    exact (perform_effect run.2 .start).of_failed_start hfailed

/-- The output starts, and the right channel and then the left one fail at an interrupt; the second
start fails too. A fill of three samples is played with silence behind it. -/
theorem performAll_order_flaky :
    let fill : Fill UInt16 4 UInt16 := fun _ n => (3, #v[n, n + 1, n + 2, n + 3], n + 10)
    let run := performAll (flakyOutput, 0)
      [.interrupt fill, .start, .interrupt fill, .interrupt fill, .start, .interrupt fill]
    run.1.map Moment.ok = [true, true, false, false, false, true] ∧
      ∃ plays, since run.1 = some plays ∧ plays.length = 3 ∧
        (perform run.2 (.interrupt fill)).1.Follows flakyOutput.silence plays := by
  intro fill run
  have hcreate : create? 4 flakyOutput.left flakyOutput.right = some flakyOutput := rfl
  obtain ⟨o, ho, hrun⟩ :=
    performAll_order (by decide : 2 ≤ 4) (by decide) flakyOutput.left flakyOutput.right
  obtain rfl := Option.some.inj (hcreate.symm.trans ho)
  obtain ⟨-, -, hplays, -⟩ := hrun (0 : UInt16)
    [.interrupt fill, .start, .interrupt fill, .interrupt fill, .start, .interrupt fill]
  exact ⟨by decide, _, rfl, by decide, hplays fill _ rfl⟩

end PwmOutput

end Patchbay
