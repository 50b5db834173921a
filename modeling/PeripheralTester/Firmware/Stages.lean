import PeripheralTester.Lib.Steps
import PeripheralTester.Firmware.Ideal

/-! # The stages of an iteration

The six backends of the buses are written out one by one, but an iteration of each of them is the
same four stages: a transfer forth, its comparison, a transfer back, and its comparison.  The first
stage that fails ends the iteration (`Loopback.iteration_eq`). -/

namespace PeripheralTester.Firmware

open Lib Handler

/-- The stages in the order in which they are performed. -/
def Stage.all : List Stage := [.forth, .forthCompared, .back, .backCompared]

theorem Stage.mem_all (stage : Stage) : stage ∈ Stage.all := by
  cases stage <;> decide

/-- A buffer is compared with the command's pattern. -/
def comparePattern (c : Command) (buffer : Buffer) : Handler Bool := do
  let actual ← bytes buffer
  compare c.pattern.toList actual c.patternLen

/-- A stage of an iteration, without what is logged when it fails.  What the first transfer received
is sent back. -/
def Loopback.stage (x : Loopback) (c : Command) : Stage → Handler Bool
  | .forth => do
      x.prepare
      x.forth.run c.pattern.toList x.received c.patternLen
  | .forthCompared => comparePattern c x.received
  | .back => do
      x.between
      let there ← bytes x.received
      x.back.run there x.returned c.patternLen
  | .backCompared => comparePattern c x.returned

/-- A failure ends the iteration. -/
theorem allOf_checked_cons {ι : Type} {stage : ι → Handler Bool} {line : ι → String} (i : ι)
    (l : List ι) :
    Replay.allOf (i :: l) (fun j => Replay.checked (stage j) (failWith (line j))) =
      (stage i >>= fun passed =>
        if passed then Replay.allOf l fun j => Replay.checked (stage j) (failWith (line j))
        else failWith (line i)) := by
  rw [Replay.allOf_cons, Replay.checked, bind_assoc]
  refine congrArg _ (funext fun passed => ?_)
  cases passed with
  | true => simp
  | false => simp [failWith]

/-- **An iteration is its four stages**, in every backend. -/
theorem Loopback.iteration_eq (x : Loopback) (failed : Fin 4 → String) (name : String)
    (c : Command) (i : ℕ) :
    (x.test failed name).iteration c i = Replay.allOf Stage.all fun stage =>
      Replay.checked (x.stage c stage) ((x.test failed name).fail i stage.exit) := by
  unfold BusTest.fail Stage.all
  rw [allOf_checked_cons, allOf_checked_cons, allOf_checked_cons, allOf_checked_cons]
  simp only [BusTest.iteration, Loopback.stage, comparePattern, bind_assoc]
  rfl

end PeripheralTester.Firmware
