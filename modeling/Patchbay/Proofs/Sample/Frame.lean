import Patchbay.Sample.Frame
/-!
# Frames of samples

Interleaved samples pair up from the front, so a cut after a whole number of frames is a cut between
two frames. A word holds both samples of its frame, each in a half of its own (`ofWord_toWord`), so
whole frames come out of their words as they went in (`unpack_pack`).
-/

namespace Patchbay.Frame

theorem length_ofSamples : ∀ samples : List Int16,
    (ofSamples samples).length = samples.length / 2
  | [] => by simp [ofSamples]
  | [_] => by simp [ofSamples]
  | left :: right :: rest => by
    have ih := length_ofSamples rest
    simp only [ofSamples, List.length_cons, ih]
    omega

theorem ofSamples_append : ∀ {front : List Int16}, front.length % 2 = 0 → ∀ back : List Int16,
    ofSamples (front ++ back) = ofSamples front ++ ofSamples back
  | [], _, _ => rfl
  | [_], heven, _ => by cases heven
  | left :: right :: rest, heven, back => by
    have hrest : rest.length % 2 = 0 := by
      simp only [List.length_cons] at heven
      omega
    have ih := ofSamples_append hrest back
    rw [List.cons_append, List.cons_append, ofSamples, ih, ofSamples, List.cons_append]

theorem ofSamples_take_append_drop (frames : Nat) (samples : List Int16) :
    ofSamples (samples.take (2 * frames)) ++ ofSamples (samples.drop (2 * frames)) =
      ofSamples samples := by
  rcases Nat.lt_or_ge samples.length (2 * frames) with hshort | hlong
  · rw [List.take_of_length_le (Nat.le_of_lt hshort), List.drop_of_length_le (Nat.le_of_lt hshort)]
    exact List.append_nil _
  · have heven : (samples.take (2 * frames)).length % 2 = 0 := by
      rw [List.length_take]
      omega
    rw [← ofSamples_append heven, List.take_append_drop]

theorem length_ofSamples_take_add_drop (frames : Nat) (samples : List Int16) :
    (ofSamples (samples.take (2 * frames))).length + (ofSamples (samples.drop (2 * frames))).length =
      samples.length / 2 := by
  rw [← List.length_append, ofSamples_take_append_drop, length_ofSamples]

theorem ofSamples_map_range (sample : Nat → Int16) (frames : Nat) :
    ofSamples ((List.range (2 * frames)).map sample) =
      (List.range frames).map fun i => ⟨sample (2 * i), sample (2 * i + 1)⟩ := by
  induction frames with
  | zero => rfl
  | succ frames ih =>
    have heven : ((List.range (2 * frames)).map sample).length % 2 = 0 := by simp
    rw [Nat.mul_succ, List.range_succ, List.range_succ, List.append_assoc, List.map_append,
      ofSamples_append heven, ih, List.range_succ, List.map_append, List.map_append]
    rfl

theorem getElem?_ofSamples : ∀ (samples : List Int16) {i : Nat} {left right : Int16},
    samples[2 * i]? = some left → samples[2 * i + 1]? = some right →
      (ofSamples samples)[i]? = some ⟨left, right⟩
  | [], i, _, _, hleft, _ => by simp at hleft
  | [_], 0, _, _, _, hright => by cases hright
  | [_], i + 1, _, _, hleft, _ => by simp at hleft
  | _ :: _ :: _, 0, _, _, hleft, hright => by
    cases hleft
    cases hright
    rfl
  | _ :: _ :: rest, _ + 1, _, _, hleft, hright => getElem?_ofSamples rest hleft hright

theorem flatMap_samples_ofSamples : ∀ {samples : List Int16}, samples.length % 2 = 0 →
    (ofSamples samples).flatMap Frame.samples = samples
  | [], _ => rfl
  | [_], heven => by cases heven
  | left :: right :: rest, heven => by
    have hrest : rest.length % 2 = 0 := by
      simp only [List.length_cons] at heven
      omega
    have ih := flatMap_samples_ofSamples hrest
    rw [ofSamples, List.flatMap_cons, ih]
    rfl

/-! ## Words -/

theorem ofWord_toWord (f : Frame) : ofWord f.toWord = f := by
  have hleft := f.left.toUInt16.toNat_lt
  have hright := f.right.toUInt16.toNat_lt
  have hword : f.toWord.toNat = f.left.toUInt16.toNat + UInt16.size * f.right.toUInt16.toNat := by
    apply UInt32.toNat_ofNat_of_lt'
    unfold UInt32.size UInt16.size
    omega
  have hlow : f.toWord.toNat % UInt16.size = f.left.toUInt16.toNat := by
    rw [hword, Nat.add_mul_mod_self_left]
    exact Nat.mod_eq_of_lt hleft
  have hhigh : f.toWord.toNat / UInt16.size = f.right.toUInt16.toNat := by
    rw [hword, Nat.add_mul_div_left _ _ (by decide), Nat.div_eq_of_lt hleft, Nat.zero_add]
  unfold ofWord
  rw [hlow, hhigh, UInt16.ofNat_toNat, UInt16.ofNat_toNat, Int16.toInt16_toUInt16,
    Int16.toInt16_toUInt16]

theorem unpack_pack {samples : List Int16} (heven : samples.length % 2 = 0) :
    unpack (pack samples) = samples := by
  unfold unpack pack
  rw [List.flatMap_map]
  simp only [ofWord_toWord]
  exact flatMap_samples_ofSamples heven

theorem length_pack (samples : List Int16) : (pack samples).length = samples.length / 2 := by
  rw [pack, List.length_map, length_ofSamples]

/-- The words of a buffer, made one after another. -/
theorem toList_words {words : Nat} (v : Vector Int16 (2 * words)) {left right : Fin words → Int16}
    (hleft : ∀ i : Fin words, v[2 * i.val]? = some (left i))
    (hright : ∀ i : Fin words, v[2 * i.val + 1]? = some (right i)) :
    (Vector.ofFn fun i => toWord ⟨left i, right i⟩).toList = pack v.toList := by
  apply List.ext_getElem
  · rw [Vector.length_toList, length_pack, Vector.length_toList,
      Nat.mul_div_cancel_left _ Nat.two_pos]
  · intro i hi hi'
    rw [Vector.length_toList] at hi
    have hframe : (ofSamples v.toList)[i]? = some ⟨left ⟨i, hi⟩, right ⟨i, hi⟩⟩ := by
      apply getElem?_ofSamples
      · rw [Vector.getElem?_toList]
        exact hleft ⟨i, hi⟩
      · rw [Vector.getElem?_toList]
        exact hright ⟨i, hi⟩
    have hword : (pack v.toList)[i]? = some (toWord ⟨left ⟨i, hi⟩, right ⟨i, hi⟩⟩) := by
      rw [pack, List.getElem?_map, hframe, Option.map_some]
    rw [Vector.getElem_toList, Vector.getElem_ofFn]
    exact (Option.some.inj ((List.getElem?_eq_getElem hi').symm.trans hword)).symm

end Patchbay.Frame
