import Mathlib.Data.Nat.Basic
import Patchbay.Render.Bridge
/-!
# Runs that fit

What a bridge that was created has to do with the layout and the capacity it was created for
(`CreatedFor`). Its buffers hold the samples of every run that it lets the engine do (`run_fits`),
and of the largest run that a chunk of the layout asks for (`CreatedFor.le_maxTicks`).
-/

namespace Patchbay.Bridge

variable {b : Bridge} {ticks : Nat}

theorem widest_pos (b : Bridge) : 0 < max b.inputs b.outputs :=
  Nat.lt_of_lt_of_le b.outputs_pos (Nat.le_max_right _ _)

theorem maxTicks_pos (b : Bridge) : 0 < b.maxTicks := by
  unfold maxTicks
  exact Nat.div_pos b.tick_fits (Nat.mul_pos b.block_pos b.widest_pos)

theorem ticksFor_pos (b : Bridge) (asked : Nat) : 0 < b.ticksFor asked :=
  Nat.le_max_left _ _

theorem ticksFor_le (b : Bridge) (asked : Nat) : b.ticksFor asked ≤ b.maxTicks :=
  Nat.max_le.2 ⟨b.maxTicks_pos, Nat.min_le_left _ _⟩

theorem ticksFor_eq (hpos : 0 < ticks) (hmax : ticks ≤ b.maxTicks) : b.ticksFor ticks = ticks := by
  unfold ticksFor
  omega

theorem run_fits (h : ticks ≤ b.maxTicks) {channels : Nat}
    (hchannels : channels ≤ max b.inputs b.outputs) : ticks * b.block * channels ≤ b.capacity :=
  calc ticks * b.block * channels
      ≤ ticks * b.block * max b.inputs b.outputs := Nat.mul_le_mul_left _ hchannels
    _ = ticks * (b.block * max b.inputs b.outputs) := Nat.mul_assoc _ _ _
    _ ≤ b.maxTicks * (b.block * max b.inputs b.outputs) := Nat.mul_le_mul_right _ h
    _ ≤ b.capacity := Nat.div_mul_le_self _ _

/-- What holds of the bridge that was created for a layout, with buffers of a capacity. -/
structure CreatedFor (capacity block : Nat) (layout : BridgeLayout) (b : Bridge) : Prop where
  capacity_eq : b.capacity = capacity
  block_eq : b.block = block
  inputs_eq : b.inputs = layout.inputs
  outputs_eq : b.outputs = layout.outputs
  range_eq : b.range = layout.range
  chunk_fits : framesPerCall block layout.chunkFrames * max layout.inputs layout.outputs ≤ capacity

theorem createdFor_of_create {capacity block : Nat} {layout : BridgeLayout}
    (h : (create capacity block layout).value = .ok b) : CreatedFor capacity block layout b := by
  simp only [create] at h
  split at h
  · cases h
  · split at h
    · cases h
    · split at h
      · cases h
      · split at h
        · cases h
        · next hfits =>
          obtain rfl := Except.ok.inj h
          exact ⟨rfl, rfl, rfl, rfl, rfl, Nat.le_of_not_lt hfits⟩

namespace CreatedFor

variable {capacity block : Nat} {layout : BridgeLayout}

theorem le_maxTicks (h : CreatedFor capacity block layout b) :
    max 1 (layout.chunkFrames / block) ≤ b.maxTicks := by
  have hdivisor := Nat.mul_pos b.block_pos b.widest_pos
  have hfits := h.chunk_fits
  unfold maxTicks
  rw [Nat.le_div_iff_mul_le hdivisor, h.block_eq, h.inputs_eq, h.outputs_eq, h.capacity_eq]
  calc max 1 (layout.chunkFrames / block) * (block * max layout.inputs layout.outputs)
      = framesPerCall block layout.chunkFrames * max layout.inputs layout.outputs := by
        unfold framesPerCall
        rw [← Nat.mul_assoc, Nat.mul_comm block]
    _ ≤ capacity := hfits

/-- A request of at most a chunk runs all its blocks. -/
theorem ticks_le_maxTicks (h : CreatedFor capacity block layout b) {frames : Nat}
    (hframes : frames ≤ layout.chunkFrames) : max 1 (frames / block) ≤ b.maxTicks := by
  refine Nat.le_trans (Nat.max_le.2 ⟨Nat.le_max_left _ _, ?_⟩) h.le_maxTicks
  exact Nat.le_trans (Nat.div_le_div_right hframes) (Nat.le_max_right _ _)

end CreatedFor

end Patchbay.Bridge
