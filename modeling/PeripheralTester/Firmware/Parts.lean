import PeripheralTester.Firmware.Transfer

/-! # The parts that are a helper's own

What a transfer helper does besides starting its operations and waiting for them is put together
from a few calls.  `Prepares` and `Resets` say from which, so that what holds of these calls and of
sequences holds of the own parts of all ten helpers and of the backends: a proof by induction has a
case for each call, and none for each helper. -/

namespace PeripheralTester.Firmware

open Lib Handler

/-- Delays, and fills buffers. -/
inductive Prepares : Handler Unit → Prop
  | pure : Prepares (pure ())
  | delay (ms : ℕ) : Prepares (vTaskDelay ms)
  | memset (buffer : Buffer) (value : UInt8) (length : ℕ) : Prepares (memset buffer value length)
  | after {m m' : Handler Unit} : Prepares m → Prepares m' → Prepares (m >>= fun _ => m')

/-- Stops handles, sets them up again, and clears flags. -/
inductive Resets : Handler Unit → Prop
  | pure : Resets (pure ())
  | abort (h : Handle) : Resets (halStop .abort h)
  | deInit (h : Handle) : Resets (halStop .deInit h)
  | init (h : Handle) : Resets (halInit h)
  | delay (ms : ℕ) : Resets (vTaskDelay ms)
  | clear (l : List Flag) : Resets (pause >>= fun _ => clearFlags l)
  | after {m m' : Handler Unit} : Resets m → Resets m' → Resets (m >>= fun _ => m')

theorem resets_appUartTestAbortTransfer (txUart rxUart : UartHandle) :
    Resets (appUartTestAbortTransfer txUart rxUart) :=
  .after (.abort _) (.after (.abort _) (.after (.deInit _) (.after (.init _)
    (.after (.deInit _) (.after (.init _) (.clear _))))))

theorem resets_appSpiTestAbortTransfer (masterSpi slaveSpi : SpiHandle) :
    Resets (appSpiTestAbortTransfer masterSpi slaveSpi) :=
  .after (.abort _) (.after (.abort _) (.after (.deInit _) (.after (.deInit _) (.after (.delay 2)
    (.after (.init _) (.after (.init _) (.clear _)))))))

theorem resets_appI2cTestAbortTransfer (masterI2c slaveI2c : I2cHandle) :
    Resets (appI2cTestAbortTransfer masterI2c slaveI2c) :=
  .after (.abort _) (.after (.deInit _) (.after (.init _) (.after (.deInit _) (.after (.init _)
    (.clear _)))))

/-- The own parts of a helper. -/
structure Helper.Plain (x : Helper) : Prop where
  before : Resets x.before
  prepare : Prepares x.prepare
  between : Prepares x.between
  abort : Resets x.abort

end PeripheralTester.Firmware
