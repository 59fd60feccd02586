import Patchbay.Fudi.Sender
import Patchbay.Proofs.Run
import Patchbay.Proofs.Text.Bytes
/-!
# What a sink has taken

A sink may take any part of what it is offered, as long as it says how much (`SerialSink.Truthful`).
Then a sender that answers `true` has put its whole line into the sink, whatever the sizes of the
single writes.
-/

namespace Patchbay

/-- A sink takes the front of what it is offered, as long as it says. `taken` is all it took. -/
structure SerialSink.Truthful {ω : Type} [SerialSink ω] (taken : ω → List UInt8) : Prop where
  write : ∀ {bytes sink n sink'}, SerialSink.write bytes sink = (some n, sink') →
    n ≤ bytes.length ∧ taken sink' = taken sink ++ bytes.take n

/-- The bytes of the line for a message. -/
def Message.line (m : Message) : List UInt8 :=
  Text.bytes (Fudi.Sender.line m.receiver m.payload)

namespace Fudi.Sender

variable {ω : Type} [SerialSink ω] {taken : ω → List UInt8}

theorem drain_taken (hsink : SerialSink.Truthful taken) (bytes : List UInt8) (sink : ω)
    (hdone : (drain bytes sink).1 = true) :
    taken (drain bytes sink).2 = taken sink ++ bytes := by
  fun_induction drain bytes sink with
  | case1 sink => simp
  | case2 sink byte rest sink' hwrite => cases hdone
  | case3 sink byte rest sink' hwrite => cases hdone
  | case4 sink byte rest n sink' hwrite ih =>
    obtain ⟨-, htaken⟩ := hsink.write hwrite
    rw [ih hdone, htaken, List.append_assoc]
    congr 1
    exact List.take_append_drop (n + 1) (byte :: rest)

theorem send_taken (hsink : SerialSink.Truthful taken) {m : Message} {s : Sender ω}
    (hsent : (send m s).1 = true) :
    m.line.length ≤ Limits.maxLineBytes ∧
      taken (send m s).2.sink = taken s.sink ++ m.line := by
  have hdrain := drain_taken hsink m.line s.sink
  unfold send sendText at hsent ⊢
  by_cases hlong : Limits.maxLineBytes < (line m.receiver m.payload).utf8ByteSize
  · simp [hlong] at hsent
  · have hfits : m.line.length ≤ Limits.maxLineBytes := by
      rw [Message.line, Text.length_bytes]
      exact Nat.le_of_not_lt hlong
    refine ⟨hfits, ?_⟩
    simp only [if_neg hlong] at hsent ⊢
    rcases hrun : drain (line m.receiver m.payload).toUTF8.data.toList s.sink with ⟨done, sink⟩
    rw [Message.line, Text.bytes, hrun] at hdrain
    rw [hrun] at hsent
    cases done with
    | true => exact hdrain rfl
    | false => cases hsent

/-- Sends messages in order and says of each whether it was written in full. -/
def sendAll (ms : List Message) (s : Sender ω) : List Bool × Sender ω :=
  runAll (fun s m => send m s) s ms

theorem sendAll_taken (hsink : SerialSink.Truthful taken) {ms : List Message} {s : Sender ω}
    (hsent : ∀ answer ∈ (sendAll ms s).1, answer = true) :
    (∀ m ∈ ms, m.line.length ≤ Limits.maxLineBytes) ∧
      taken (sendAll ms s).2.sink = taken s.sink ++ ms.flatMap Message.line := by
  induction ms generalizing s with
  | nil => simp [sendAll, runAll]
  | cons m ms ih =>
    obtain ⟨hfirst, hrest⟩ := List.forall_mem_cons.1 hsent
    obtain ⟨hfits, htaken⟩ := send_taken hsink hfirst
    obtain ⟨hallFit, hallTaken⟩ := ih hrest
    refine ⟨List.forall_mem_cons.2 ⟨hfits, hallFit⟩, ?_⟩
    rw [List.flatMap_cons, ← List.append_assoc, ← htaken]
    exact hallTaken

end Fudi.Sender

end Patchbay
