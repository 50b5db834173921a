import PeripheralTester.Firmware.Transfer

/-! # Test handlers

The five handlers, from the command that reaches a test task to the response: `app_timer_test_run`,
`app_adc_test_run`, and for the UART, the SPI and the I2C `app_…_test_run` over either of its two
backends.  A backend of a bus runs iterations of two transfers, forth and back, each followed by a
comparison with the command's pattern (`BusTest`). -/

namespace PeripheralTester.Firmware

open Lib Handler

/-- The number of an iteration in a log line. -/
def iterationNumber (i : ℕ) : String := toString ((i + 1) % 256)

/-- The loop `for (uint8_t i = 0U; i < command->iterations; i++)`; the counter does not wrap. -/
def iterations (c : Command) (body : ℕ → Handler Bool) : Handler Bool :=
  Replay.allOf (List.range c.iterations.toNat) body

/-- A verdict as a result. -/
def verdict (passed : Bool) : UInt8 :=
  if passed then appProtocolTestSuccess else appProtocolTestFail

/-- A test and the response with its result. -/
def testRun (p : Peripheral) (test : Command → Handler UInt8) (c : Command) : Handler Unit := do
  let result ← test c
  respond p ⟨c.testId, result⟩

/-! ### Timer -/

/-- `APP_TIMER_TEST_EXPECTED_US` and `APP_TIMER_TEST_TOLERANCE_US`. -/
def appTimerTestExpectedUs : UInt32 := 100000
def appTimerTestToleranceUs : UInt32 := 1000

/-- The two comparisons of an elapsed time. -/
def timerInTolerance (deltaUs : UInt32) : Bool :=
  !(deltaUs < appTimerTestExpectedUs - appTimerTestToleranceUs ||
    deltaUs > appTimerTestExpectedUs + appTimerTestToleranceUs)

/-- `app_timer_time_us`. -/
def appTimerTimeUs : Handler UInt32 := do
  let a ← pause
  pure a.count

def timerIteration (_ : ℕ) : Handler Bool := do
  let startUs ← appTimerTimeUs
  vTaskDelay 100
  let endUs ← appTimerTimeUs
  act (.measured startUs endUs)
  pure (timerInTolerance (endUs - startUs))

/-- `app_timer_test_run` up to its response. -/
def timerResult (c : Command) : Handler UInt8 := do
  let passed ← iterations c timerIteration
  if passed then pure () else appLog "Timer test FAIL\r\n"
  pure (verdict passed)

def appTimerTestRun : Command → Handler Unit := testRun .timer timerResult

/-! ### ADC -/

/-- `app_adc_test_values`. -/
def appAdcTestValues : List UInt16 := [128, 512, 1024, 2048, 3072, 3584, 3968]

/-- `APP_ADC_TEST_TOLERANCE_RAW`. -/
def appAdcTestToleranceRaw : UInt32 := 50

/-- The two comparisons of a reading with its level. -/
def adcInTolerance (dacValue : UInt16) (adcValue : UInt32) : Bool :=
  !(adcValue > dacValue.toUInt32 + appAdcTestToleranceRaw ||
    adcValue + appAdcTestToleranceRaw < dacValue.toUInt32)

/-- A HAL call of the ADC test that is checked. -/
def adcCall (x : Bool → Act) : Handler Bool := do
  let a ← pause
  act (x a.ok)
  pure a.ok

def halAdcStop : Handler Unit := do
  let _ ← pause
  act .adcStop

/-- `HAL_ADC_GetValue`. -/
def halAdcGetValue : Handler UInt32 := do
  let a ← pause
  pure a.value

/-- The failure lines of `app_adc_test_run_polling`. -/
def adcFailLine (iteration : ℕ) (text : String) : String :=
  "ADC iteration " ++ iterationNumber iteration ++ " FAIL: " ++ text ++ "\r\n"

def adcOutOfTolerance (dacValue : UInt16) (adcValue : UInt32) : String :=
  "DAC=" ++ toString dacValue ++ " ADC=" ++ toString adcValue ++ " DIFF=" ++
    toString (adcValue - dacValue.toUInt32).toInt32.toInt ++ " TOL=" ++
    toString appAdcTestToleranceRaw

/-- An `APP_LOG` before `return APP_PROTOCOL_TEST_FAIL`. -/
def failWith (line : String) : Handler Bool := do
  appLog line
  pure false

/-- One level of an iteration. -/
def adcLevel (iteration : ℕ) (dacValue : UInt16) : Handler Bool := do
  let set ← adcCall (.dacSetValue dacValue)
  if set then do
    vTaskDelay 5
    let started ← adcCall .adcStart
    if started then do
      let converted ← adcCall .adcPoll
      if converted then do
        let adcValue ← halAdcGetValue
        halAdcStop
        act (.sampled dacValue adcValue)
        if adcInTolerance dacValue adcValue then pure true
        else failWith (adcFailLine iteration (adcOutOfTolerance dacValue adcValue))
      else do
        halAdcStop
        failWith (adcFailLine iteration "ADC timeout")
    else failWith (adcFailLine iteration "ADC start failed")
  else failWith (adcFailLine iteration "DAC set failed")

def adcIteration (iteration : ℕ) : Handler Bool :=
  Replay.allOf appAdcTestValues (adcLevel iteration)

def appAdcTestRunPolling (c : Command) : Handler UInt8 := do
  let started ← adcCall .dacStart
  if started then do
    let passed ← iterations c adcIteration
    pure (verdict passed)
  else do
    appLog "ADC test FAIL: DAC start failed\r\n"
    pure appProtocolTestFail

def appAdcTestRun : Command → Handler Unit := testRun .adc appAdcTestRunPolling

/-! ### Buses -/

/-- The stages of an iteration. -/
inductive Stage where
  | forth
  | forthCompared
  | back
  | backCompared
deriving DecidableEq, Repr

/-- The place at which a failure of the stage returns. -/
def Stage.exit : Stage → Fin 4
  | .forth => 0
  | .forthCompared => 1
  | .back => 2
  | .backCompared => 3

/-- What a backend of a bus has of its own. -/
structure BusTest where
  /-- Before an iteration, and between its two halves. -/
  prepare : Handler Unit
  between : Handler Unit
  forth : List UInt8 → Buffer → UInt8 → Handler Bool
  back : List UInt8 → Buffer → UInt8 → Handler Bool
  /-- The buffers of the two receptions; what the first received is sent back. -/
  received : Buffer
  returned : Buffer
  /-- The end of the line that each of the four failures logs. -/
  failed : Fin 4 → String
  name : String

/-- A failure of an iteration. -/
def BusTest.fail (x : BusTest) (i : ℕ) (exit : Fin 4) : Handler Bool :=
  failWith (x.name ++ " iteration " ++ iterationNumber i ++ " " ++ x.failed exit ++ "\r\n")

/-- An iteration. -/
def BusTest.iteration (x : BusTest) (c : Command) (i : ℕ) : Handler Bool := do
  x.prepare
  let sent ← x.forth c.pattern.toList x.received c.patternLen
  if sent then do
    let there ← bytes x.received
    let same ← compare c.pattern.toList there c.patternLen
    if same then do
      x.between
      let there ← bytes x.received
      let sent ← x.back there x.returned c.patternLen
      if sent then do
        let back ← bytes x.returned
        let same ← compare c.pattern.toList back c.patternLen
        if same then pure true else x.fail i 3
      else x.fail i 2
    else x.fail i 1
  else x.fail i 0

/-- The loop of a backend. -/
def BusTest.run (x : BusTest) (c : Command) : Handler UInt8 := do
  let passed ← iterations c (x.iteration c)
  pure (verdict passed)

/-- The check of the UART's backends. -/
def uartLengthValid (c : Command) : Bool :=
  !(c.patternLen = 0 || c.patternLen.toNat > appProtocolMaxPatternLen)

def appUartTestRunIt (c : Command) : Handler UInt8 :=
  if uartLengthValid c then
    BusTest.run
      { prepare := pure ()
        between := vTaskDelay 1
        forth := appUartTestTransferIt .huart4 .huart5
        back := appUartTestTransferIt .huart5 .huart4
        received := .appUartBRx
        returned := .appUartARx
        failed := fun exit => "FAIL " ++ toString (exit.val + 1)
        name := "UART" } c
  else pure appProtocolTestFail

def appUartTestRunDma (c : Command) : Handler UInt8 :=
  if uartLengthValid c then
    BusTest.run
      { prepare := do
          memset .appUartARx 0 appProtocolMaxPatternLen
          memset .appUartBRx 0 appProtocolMaxPatternLen
        between := pure ()
        forth := appUartTestTransferDma .huart4 .huart5
        back := appUartTestTransferDma .huart5 .huart4
        received := .appUartBRx
        returned := .appUartARx
        failed := fun _ => "FAIL"
        name := "UART" } c
  else pure appProtocolTestFail

def appSpiTestRunIt (c : Command) : Handler UInt8 :=
  BusTest.run
    { prepare := pure ()
      between := pure ()
      forth := appSpiTestMasterToSlaveIt .hspi1 .hspi2
      back := appSpiTestSlaveToMasterIt .hspi1 .hspi2
      received := .appSpiSlaveRx
      returned := .appSpiMasterRx
      failed := fun _ => "FAIL"
      name := "SPI" } c

def appSpiTestRunDma (c : Command) : Handler UInt8 :=
  BusTest.run
    { prepare := pure ()
      between := pure ()
      forth := appSpiTestMasterToSlaveDma .hspi1 .hspi2
      back := appSpiTestSlaveToMasterDma .hspi1 .hspi2
      received := .appSpiSlaveRx
      returned := .appSpiMasterRx
      failed := fun _ => "FAIL"
      name := "SPI" } c

def appI2cTestRunIt (c : Command) : Handler UInt8 :=
  BusTest.run
    { prepare := pure ()
      between := pure ()
      forth := appI2cTestMasterToSlaveIt .hi2c1 .hi2c2
      back := appI2cTestSlaveToMasterIt .hi2c1 .hi2c2
      received := .appI2cSlaveRx
      returned := .appI2cMasterRx
      failed := fun _ => "FAIL"
      name := "I2C" } c

def appI2cTestRunDma (c : Command) : Handler UInt8 := do
  vTaskDelay 2
  BusTest.run
    { prepare := pure ()
      between := pure ()
      forth := appI2cTestMasterToSlaveDma .hi2c1 .hi2c2
      back := appI2cTestSlaveToMasterDma .hi2c1 .hi2c2
      received := .appI2cSlaveRx
      returned := .appI2cMasterRx
      failed := fun _ => "FAIL"
      name := "I2C" } c

/-! ### Commands -/

/-- The tests of the five handlers; `app_config.h` selects `uartIt`, `spiDma` and `i2cDma`. -/
inductive Backend where
  | timer
  | adc
  | uartIt
  | uartDma
  | spiIt
  | spiDma
  | i2cIt
  | i2cDma
deriving DecidableEq, Repr

def Backend.peripheral : Backend → Peripheral
  | .timer => .timer
  | .adc => .adc
  | .uartIt | .uartDma => .uart
  | .spiIt | .spiDma => .spi
  | .i2cIt | .i2cDma => .i2c

/-- The result of a test. -/
def Backend.test : Backend → Command → Handler UInt8
  | .timer => timerResult
  | .adc => appAdcTestRunPolling
  | .uartIt => appUartTestRunIt
  | .uartDma => appUartTestRunDma
  | .spiIt => appSpiTestRunIt
  | .spiDma => appSpiTestRunDma
  | .i2cIt => appI2cTestRunIt
  | .i2cDma => appI2cTestRunDma

/-- What a test task does with a command: `app_uart_test_run`, `app_spi_test_run` and
`app_i2c_test_run` over a backend, `appTimerTestRun` and `appAdcTestRun`. -/
def Backend.execute (b : Backend) : Command → Handler Unit := testRun b.peripheral b.test

end PeripheralTester.Firmware
