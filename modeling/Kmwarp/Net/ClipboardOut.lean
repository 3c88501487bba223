import Kmwarp.Core.Clipboard

/-!
# Outbound clipboard tasks

Both programs forward a clipboard change in the same way: a change that echoes
the last remote write is skipped, and the frames of any other one are offered
in order to the outbound channel until the first is refused.
-/

namespace Kmwarp.Net

open Foundation Wire

/-- The frames that the task sets out to send for a change. -/
def changeFrames (sha256 : List UInt8 → Bytes32) (echoGuard : EchoGuard)
    (text : String) : List Message :=
  if echoGuard.isEchoOfRemote sha256 text then [] else Chunker.split text

/-- What is left to send when the frame in front has been tried: a refused one
ends the payload. -/
def afterTrySend (sending : List Message) (accepted : Bool) : List Message :=
  if accepted then sending.tail else []

/-- The frames accepted when `accepts` gives the outcome of each `try_send`. -/
def sendFrames (accepts : Nat → Bool) : Nat → List Message → List Message
  | _, [] => []
  | index, msg :: msgs =>
      if accepts index then msg :: sendFrames accepts (index + 1) msgs else []

/-- What is accepted is a prefix, and all of it exactly when nothing is
refused. -/
theorem sendFrames_spec (accepts : Nat → Bool) (index : Nat) (msgs : List Message) :
    ∃ count ≤ msgs.length, sendFrames accepts index msgs = msgs.take count ∧
      (count = msgs.length ↔ ∀ offset < msgs.length, accepts (index + offset) = true) := by
  induction msgs generalizing index with
  | nil => exact ⟨0, Nat.le_refl _, rfl, by simp⟩
  | cons msg msgs ih =>
      cases outcome : accepts index with
      | false =>
          refine ⟨0, Nat.zero_le _, by simp [sendFrames, outcome], ?_⟩
          constructor
          · intro none
            cases none
          · intro all
            have first := all 0 (Nat.zero_lt_succ _)
            rw [Nat.add_zero, outcome] at first
            cases first
      | true =>
          obtain ⟨count, bound, accepted, whole⟩ := ih (index + 1)
          refine ⟨count + 1, Nat.succ_le_succ bound, ?_, ?_⟩
          · rw [sendFrames, outcome, if_pos rfl, accepted, List.take_succ_cons]
          · rw [List.length_cons, Nat.add_right_cancel_iff, whole]
            constructor
            · intro later offset inside
              cases offset with
              | zero => exact outcome
              | succ offset =>
                  have next := later offset (Nat.lt_of_succ_lt_succ inside)
                  rwa [Nat.add_assoc, Nat.add_comm 1] at next
            · intro all offset inside
              have next := all (offset + 1) (Nat.succ_lt_succ inside)
              rwa [Nat.add_assoc, Nat.add_comm 1]

end Kmwarp.Net
