import PeripheralTester.Lib.Counter

/-! # HAL callbacks and the wait for completion

The test modules start a pair of transfers and poll flags that the HAL callbacks set from
interrupts.  Here are the flags, what each callback does to them, and the decision a transfer
helper makes at each poll. -/

namespace PeripheralTester.Firmware

open Lib

/-! ### Callbacks -/

/-- The UARTs: the debug UART, and the two of the test. -/
inductive UartHandle where
  | huart3
  | huart4
  | huart5
deriving DecidableEq, Repr

/-- `APP_SPI_TEST_MASTER_SPI` is `hspi1` and `APP_SPI_TEST_SLAVE_SPI` is `hspi2`. -/
inductive SpiHandle where
  | hspi1
  | hspi2
deriving DecidableEq, Repr

/-- `APP_I2C_TEST_MASTER_I2C` is `hi2c1` and `APP_I2C_TEST_SLAVE_I2C` is `hi2c2`. -/
inductive I2cHandle where
  | hi2c1
  | hi2c2
deriving DecidableEq, Repr

/-- The transfer flags of the three test modules. -/
inductive Flag where
  | appUartTxDone
  | appUartRxDone
  | appUartError
  | appSpiMasterDone
  | appSpiSlaveDone
  | appSpiError
  | appI2cMasterTxDone
  | appI2cMasterRxDone
  | appI2cSlaveTxDone
  | appI2cSlaveRxDone
  | appI2cError
deriving DecidableEq, Repr

abbrev Flags := Flag → Bool

/-- The flags at the start of the program. -/
def Flags.init : Flags := fun _ => false

/-- Each of the listed flags becomes `0U`. -/
def Flags.clear (f : Flags) (l : List Flag) : Flags := fun x => if x ∈ l then false else f x

/-- The HAL callbacks that the test modules define. -/
inductive Callback where
  | halUartTxCplt (huart : UartHandle)
  | halUartRxCplt (huart : UartHandle)
  | halUartError (huart : UartHandle)
  | halSpiTxRxCplt (hspi : SpiHandle)
  | halSpiError (hspi : SpiHandle)
  | halI2cMasterTxCplt (hi2c : I2cHandle)
  | halI2cMasterRxCplt (hi2c : I2cHandle)
  | halI2cSlaveTxCplt (hi2c : I2cHandle)
  | halI2cSlaveRxCplt (hi2c : I2cHandle)
  | halI2cError (hi2c : I2cHandle)
deriving DecidableEq, Repr

/-- The flag a callback sets.  The UART's do not look at their handle. -/
def Callback.flag : Callback → Option Flag
  | .halUartTxCplt _ => some .appUartTxDone
  | .halUartRxCplt _ => some .appUartRxDone
  | .halUartError _ => some .appUartError
  | .halSpiTxRxCplt .hspi1 => some .appSpiMasterDone
  | .halSpiTxRxCplt .hspi2 => some .appSpiSlaveDone
  | .halSpiError _ => some .appSpiError
  | .halI2cMasterTxCplt hi2c => if hi2c = .hi2c1 then some .appI2cMasterTxDone else none
  | .halI2cMasterRxCplt hi2c => if hi2c = .hi2c1 then some .appI2cMasterRxDone else none
  | .halI2cSlaveTxCplt hi2c => if hi2c = .hi2c2 then some .appI2cSlaveTxDone else none
  | .halI2cSlaveRxCplt hi2c => if hi2c = .hi2c2 then some .appI2cSlaveRxDone else none
  | .halI2cError _ => some .appI2cError

/-- The callback calls `APP_LOG`. -/
def Callback.logs : Callback → Bool
  | .halUartError _ => true
  | _ => false

/-- The stores of a callback. -/
def Callback.store (c : Callback) (f : Flags) : Flags :=
  match c.flag with
  | some x => Function.update f x true
  | none => f

/-! ### Transfers -/

/-- The transfer helpers, by what they wait for. -/
inductive Transfer where
  | uart
  | spi
  | i2cMasterToSlave
  | i2cSlaveToMaster
deriving DecidableEq, Repr

/-- The two completion flags a helper waits for. -/
def Transfer.done : Transfer → Flag × Flag
  | .uart => (.appUartTxDone, .appUartRxDone)
  | .spi => (.appSpiMasterDone, .appSpiSlaveDone)
  | .i2cMasterToSlave => (.appI2cMasterTxDone, .appI2cSlaveRxDone)
  | .i2cSlaveToMaster => (.appI2cMasterRxDone, .appI2cSlaveTxDone)

/-- The error flag a helper looks at. -/
def Transfer.error : Transfer → Flag
  | .uart => .appUartError
  | .spi => .appSpiError
  | .i2cMasterToSlave | .i2cSlaveToMaster => .appI2cError

/-- The flags a helper clears before it starts its operations. -/
def Transfer.cleared (t : Transfer) : List Flag := [t.done.1, t.done.2, t.error]

/-- The flags that the abort function of the module clears. -/
def Transfer.abortCleared : Transfer → List Flag
  | .uart => [.appUartTxDone, .appUartRxDone, .appUartError]
  | .spi => [.appSpiMasterDone, .appSpiSlaveDone, .appSpiError]
  | .i2cMasterToSlave | .i2cSlaveToMaster =>
      [.appI2cMasterTxDone, .appI2cMasterRxDone, .appI2cSlaveTxDone, .appI2cSlaveRxDone,
        .appI2cError]

/-- `APP_UART_TEST_TIMEOUT_MS`, `APP_SPI_TEST_TIMEOUT_MS` and `APP_I2C_TEST_TIMEOUT_MS`. -/
def appTestTimeoutMs : UInt32 := 1000

/-- What one round of a helper's wait loop decides. -/
inductive Poll where
  | done
  | error
  | timeout
  | delay
deriving DecidableEq, Repr

/-- The loop ends: both completion flags are set. -/
def Transfer.completed (t : Transfer) (f : Flags) : Bool := f t.done.1 && f t.done.2

/-- More than the timeout has passed. -/
def timedOut (startTick now : UInt32) : Bool := now - startTick > appTestTimeoutMs

/-- A round of the wait loop: the loop test, the test of the error flag, and the test of the
elapsed time. -/
def Transfer.poll (t : Transfer) (f : Flags) (startTick now : UInt32) : Poll :=
  if t.completed f then .done
  else if f t.error then .error
  else if timedOut startTick now then .timeout
  else .delay

/-- The difference of two readings decides by the time between them, wherever the tick wraps. -/
theorem timedOut_add (startTick : UInt32) {elapsed : ℕ} (h : elapsed < 2 ^ 32) :
    timedOut startTick (startTick + UInt32.ofNat elapsed) = true ↔ 1000 < elapsed := by
  have hlimit : appTestTimeoutMs.toNat = 1000 := rfl
  unfold timedOut
  rw [decide_eq_true_iff, gt_iff_lt, UInt32.lt_iff_toNat_lt, hlimit, toNat_add_sub _ h]

/-- A poll that comes late enough leaves the loop. -/
theorem Transfer.poll_late (t : Transfer) (f : Flags) (startTick : UInt32) :
    t.poll f startTick (startTick + 1001) ≠ .delay := by
  have hlate : timedOut startTick (startTick + 1001) = true :=
    (timedOut_add startTick (by decide)).mpr (by decide)
  unfold Transfer.poll
  rw [if_pos hlate]
  split
  · decide
  · split <;> decide

end PeripheralTester.Firmware
