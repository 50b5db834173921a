import PeripheralTester.Protocol

/-! # The server's command generator

`command_generator.c`.  The values `rand()` returns are a stream, given from outside: `rand i`
is the `i`-th value from now on, and a function that draws returns the stream that is left. -/

namespace PeripheralTester.Server

/-- The values `rand()` will return. -/
abbrev RandStream := ℕ → ℕ

/-- The stream after `k` draws. -/
def RandStream.skip (rand : RandStream) (k : ℕ) : RandStream := fun i => rand (k + i)

def commandGeneratorMinIterations : UInt8 := 10
def commandGeneratorMaxIterations : UInt8 := 255
def commandGeneratorMinPatternLen : UInt8 := 50
def commandGeneratorMaxPatternLen : UInt8 := 255

/-- The static state of `command_generator.c`. -/
structure CommandGenerator where
  nextTestId : UInt32
  peripheralIndex : UInt8
deriving DecidableEq, Repr

/-- `command_generator_peripherals`. -/
def commandGeneratorPeripherals : List Peripheral := [.timer, .uart, .spi, .i2c, .adc]

/-- The state before and after `command_generator_init`. -/
def commandGeneratorInit : CommandGenerator := ⟨1, 0⟩

/-- `command_generator_random_range` with `r` the value drawn; the arithmetic is unsigned. -/
def commandGeneratorRandomRange (minValue maxValue : UInt8) (r : ℕ) : UInt8 :=
  let span : UInt32 := maxValue.toUInt32 - minValue.toUInt32 + 1
  .ofNat (minValue.toNat + r % span.toNat)

/-- The entry at the index; the index never leaves the list. -/
def CommandGenerator.peripheral (g : CommandGenerator) : Peripheral :=
  commandGeneratorPeripherals.getD g.peripheralIndex.toNat .timer

def nextPeripheralIndex (i : UInt8) : UInt8 := if i + 1 ≥ 5 then 0 else i + 1

/-- `command_generator_build_next`: the command, the next state and the draws that are left. -/
def commandGeneratorBuildNext (g : CommandGenerator) (rand : RandStream) :
    Command × CommandGenerator × RandStream :=
  let iterations := commandGeneratorRandomRange commandGeneratorMinIterations
    commandGeneratorMaxIterations (rand 0)
  let (patternLen, rest) : UInt8 × RandStream :=
    match g.peripheral with
    | .adc | .timer => (0, rand.skip 1)
    | .uart | .spi | .i2c =>
        (commandGeneratorRandomRange commandGeneratorMinPatternLen commandGeneratorMaxPatternLen
          (rand 1), rand.skip 2)
  let command : Command :=
    { testId := g.nextTestId
      peripheral := g.peripheral.code
      iterations := iterations
      patternLen := patternLen
      pattern := .ofFn fun i => if i < patternLen.toNat then .ofNat (rest i % 256) else 0 }
  (command, ⟨g.nextTestId + 1, nextPeripheralIndex g.peripheralIndex⟩, rest.skip patternLen.toNat)

end PeripheralTester.Server
