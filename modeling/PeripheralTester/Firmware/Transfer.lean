import PeripheralTester.Firmware.Hardware

/-! # Transfer helpers

The UART module has one transfer helper for each mode, the SPI and the I2C module one for each
mode and direction.  All ten clear their flags, start an operation on each of two handles, and
wait until both completion flags are set, an error flag is set, or a second has passed; a helper
that fails aborts the transfer.  `Helper` holds what differs and `Helper.run` is the code; each
helper is this code with its own values.

Pointers are not `NULL` in any call, so the checks for `NULL` have no counterpart. -/

namespace PeripheralTester.Firmware

open Lib Handler

/-! ### The wait loop -/

/-- The wait loop from a given tick: how it ends.  A round tests the completion flags, the error
flag and the tick, with a point of interruption before each, and delays. -/
def waitLoop (t : Transfer) (startTick : UInt32) :
    Board → List Slot → Option (Outcome Board Slot Act Poll)
  | _, [] => none
  | b, a₁ :: env =>
      let b₁ := b.advance a₁
      let acts₁ := a₁.fired.map Act.callback
      if t.completed b₁.flags then some ⟨.done, b₁, env, acts₁⟩
      else
        match env with
        | [] => none
        | a₂ :: env =>
            let b₂ := b₁.advance a₂
            let acts₂ := acts₁ ++ a₂.fired.map Act.callback
            if b₂.flags t.error then some ⟨.error, b₂, env, acts₂⟩
            else
              match env with
              | [] => none
              | a₃ :: env =>
                  let b₃ := b₂.advance a₃
                  let acts₃ := acts₂ ++ a₃.fired.map Act.callback
                  if timedOut startTick a₃.count then some ⟨.timeout, b₃, env, acts₃⟩
                  else
                    -- vTaskDelay(pdMS_TO_TICKS(1U))
                    (waitLoop t startTick b₃ env).map fun o =>
                      { o with trace := acts₃ ++ .delay 1 :: o.trace }

/-! ### The common code -/

/-- What a transfer helper has of its own. -/
structure Helper where
  transfer : Transfer
  /-- Before the flags are cleared, after it, and between the two starts. -/
  before : Handler Unit
  prepare : Handler Unit
  between : Handler Unit
  first : Operation
  second : Operation
  /-- The lines it logs before it aborts. -/
  firstFailed : Option String
  secondFailed : Option String
  errorSeen : Option String
  timeoutSeen : Option String
  abort : Handler Unit

/-- The exits with `FAIL`. -/
def Helper.fail (x : Helper) (line : Option String) : Handler Bool := do
  appLogIf line
  x.abort
  pure false

/-- The exits of the wait loop. -/
def Helper.finish (x : Helper) (startTick : UInt32) : Handler Bool := do
  let how ← waitLoop x.transfer startTick
  match how with
  | .done => do
      act (.completed x.transfer)
      pure true
  | .error => x.fail x.errorSeen
  | _ => x.fail x.timeoutSeen

/-- A transfer helper with a length; whether it returns OK. -/
def Helper.run (x : Helper) (length : UInt8) : Handler Bool :=
  if length = 0 then pure false
  else do
    x.before
    clearFlags x.transfer.cleared
    x.prepare
    let started ← halStart x.first
    if started then do
      x.between
      let started ← halStart x.second
      if started then do
        let startTick ← halGetTick
        x.finish startTick
      else x.fail x.secondFailed
    else x.fail x.firstFailed

/-! ### UART -/

/-- `app_uart_test_abort_transfer`. -/
def appUartTestAbortTransfer (txUart rxUart : UartHandle) : Handler Unit := do
  halStop .abort (.uart txUart)
  halStop .abort (.uart rxUart)
  halStop .deInit (.uart txUart)
  halInit ((.uart txUart))
  halStop .deInit (.uart rxUart)
  halInit ((.uart rxUart))
  let _ ← pause
  clearFlags Transfer.uart.abortCleared

/-- `app_uart_test_transfer_it`. -/
def appUartTestTransferIt (txUart rxUart : UartHandle) (txData : List UInt8) (rxData : Buffer)
    (length : UInt8) : Handler Bool :=
  Helper.run
    { transfer := .uart
      before := pure ()
      prepare := pure ()
      between := pure ()
      first := ⟨.it, .uart rxUart, none, some rxData, length.toNat⟩
      second := ⟨.it, .uart txUart, some txData, none, length.toNat⟩
      firstFailed := some "UART FAIL: HAL_UART_Receive_IT failed\r\n"
      secondFailed := some "UART FAIL: HAL_UART_Transmit_IT failed\r\n"
      errorSeen := some "UART FAIL: error callback\r\n"
      timeoutSeen := some "UART FAIL: timeout\r\n"
      abort := appUartTestAbortTransfer txUart rxUart } length

/-- `app_uart_test_transfer_dma`. -/
def appUartTestTransferDma (txUart rxUart : UartHandle) (txData : List UInt8) (rxData : Buffer)
    (length : UInt8) : Handler Bool :=
  Helper.run
    { transfer := .uart
      before := do
        halStop .abort (.uart txUart)
        halStop .abort (.uart rxUart)
      prepare := pure ()
      between := pure ()
      first := ⟨.dma, .uart rxUart, none, some rxData, length.toNat⟩
      second := ⟨.dma, .uart txUart, some txData, none, length.toNat⟩
      firstFailed := none
      secondFailed := none
      errorSeen := none
      timeoutSeen := none
      abort := appUartTestAbortTransfer txUart rxUart } length

/-! ### SPI -/

/-- `app_spi_test_abort_transfer`. -/
def appSpiTestAbortTransfer (masterSpi slaveSpi : SpiHandle) : Handler Unit := do
  halStop .abort (.spi masterSpi)
  halStop .abort (.spi slaveSpi)
  halStop .deInit (.spi slaveSpi)
  halStop .deInit (.spi masterSpi)
  vTaskDelay 2
  halInit ((.spi slaveSpi))
  halInit ((.spi masterSpi))
  let _ ← pause
  clearFlags Transfer.spi.abortCleared

/-- The pause between the starts of slave and master, in DMA mode only. -/
def spiStartPause : Mode → Handler Unit
  | .it => pure ()
  | .dma => vTaskDelay 1

/-- Master to slave, in either mode. -/
def spiMasterToSlave (mode : Mode) (masterSpi slaveSpi : SpiHandle) (txData : List UInt8)
    (rxData : Buffer) (length : UInt8) : Handler Bool :=
  Helper.run
    { transfer := .spi
      before := pure ()
      prepare := do
        memset .appSpiSlaveDummyTx 0xFF length.toNat
        memset .appSpiMasterDummyRx 0x00 length.toNat
      between := spiStartPause mode
      first := ⟨mode, .spi slaveSpi, some (.replicate length.toNat 0xFF), some rxData, length.toNat⟩
      second := ⟨mode, .spi masterSpi, some txData, some .appSpiMasterDummyRx, length.toNat⟩
      firstFailed := none
      secondFailed := none
      errorSeen := none
      timeoutSeen := none
      abort := appSpiTestAbortTransfer masterSpi slaveSpi } length

/-- Slave to master, in either mode. -/
def spiSlaveToMaster (mode : Mode) (masterSpi slaveSpi : SpiHandle) (txData : List UInt8)
    (rxData : Buffer) (length : UInt8) : Handler Bool :=
  Helper.run
    { transfer := .spi
      before := pure ()
      prepare := do
        memset .appSpiMasterDummyTx 0xFF length.toNat
        memset .appSpiSlaveDummyRx 0x00 length.toNat
      between := spiStartPause mode
      first := ⟨mode, .spi slaveSpi, some txData, some .appSpiSlaveDummyRx, length.toNat⟩
      second :=
        ⟨mode, .spi masterSpi, some (.replicate length.toNat 0xFF), some rxData, length.toNat⟩
      firstFailed := none
      secondFailed := none
      errorSeen := none
      timeoutSeen := none
      abort := appSpiTestAbortTransfer masterSpi slaveSpi } length

def appSpiTestMasterToSlaveIt := spiMasterToSlave .it
def appSpiTestMasterToSlaveDma := spiMasterToSlave .dma
def appSpiTestSlaveToMasterIt := spiSlaveToMaster .it
def appSpiTestSlaveToMasterDma := spiSlaveToMaster .dma

/-! ### I2C -/

/-- `app_i2c_test_abort_transfer`. -/
def appI2cTestAbortTransfer (masterI2c slaveI2c : I2cHandle) : Handler Unit := do
  halStop .abort (.i2c masterI2c)
  halStop .deInit (.i2c masterI2c)
  halInit ((.i2c masterI2c))
  halStop .deInit (.i2c slaveI2c)
  halInit ((.i2c slaveI2c))
  let _ ← pause
  clearFlags Transfer.i2cMasterToSlave.abortCleared

/-- Master to slave: the operations on their handles, and the handles that are aborted. -/
def i2cMasterToSlave (mode : Mode) (master slave masterI2c slaveI2c : I2cHandle)
    (txData : List UInt8) (rxData : Buffer) (length : UInt8) : Handler Bool :=
  Helper.run
    { transfer := .i2cMasterToSlave
      before := pure ()
      prepare := pure ()
      between := pure ()
      first := ⟨mode, .i2c slave, none, some rxData, length.toNat⟩
      second := ⟨mode, .i2c master, some txData, none, length.toNat⟩
      firstFailed := none
      secondFailed := none
      errorSeen := none
      timeoutSeen := none
      abort := appI2cTestAbortTransfer masterI2c slaveI2c } length

/-- Slave to master. -/
def i2cSlaveToMaster (mode : Mode) (master slave masterI2c slaveI2c : I2cHandle)
    (txData : List UInt8) (rxData : Buffer) (length : UInt8) : Handler Bool :=
  Helper.run
    { transfer := .i2cSlaveToMaster
      before := pure ()
      prepare := pure ()
      between := pure ()
      first := ⟨mode, .i2c slave, some txData, none, length.toNat⟩
      second := ⟨mode, .i2c master, none, some rxData, length.toNat⟩
      firstFailed := none
      secondFailed := none
      errorSeen := none
      timeoutSeen := none
      abort := appI2cTestAbortTransfer masterI2c slaveI2c } length

/-- The functions for interrupt mode start their operations on the two global handles, whatever
handles they are given to abort. -/
def appI2cTestMasterToSlaveIt := i2cMasterToSlave .it .hi2c1 .hi2c2
def appI2cTestSlaveToMasterIt := i2cSlaveToMaster .it .hi2c1 .hi2c2

def appI2cTestMasterToSlaveDma (masterI2c slaveI2c : I2cHandle) :=
  i2cMasterToSlave .dma masterI2c slaveI2c masterI2c slaveI2c
def appI2cTestSlaveToMasterDma (masterI2c slaveI2c : I2cHandle) :=
  i2cSlaveToMaster .dma masterI2c slaveI2c masterI2c slaveI2c

end PeripheralTester.Firmware
