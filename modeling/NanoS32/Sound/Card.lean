import NanoS32.Ulib.Mem

/-!
# The sound card and its DMA channel

The hardware that `sound.c` drives through ports: the two DMA controllers of the machine, and the DSP of the sound card. The port
tables are those of the source. A transfer of a DMA channel moves a byte, or on channels 4 to 7 a word, whose address counts
words from the start of the page.
-/

namespace NanoS32

def dmaSingleChannelMask : List Nat := [0x0A, 0xD4]
def dmaFlipflopReset : List Nat := [0x0C, 0xD8]
def dmaMode : List Nat := [0x0B, 0xD6]
def dmaPageAddress : List Nat := [0x87, 0x83, 0x81, 0x82, 0x8F, 0x8B, 0x89, 0x8A]
def dmaStartAddress : List Nat := [0x00, 0x02, 0x04, 0x06, 0xC0, 0xC4, 0xC8, 0xCC]
def dmaCount : List Nat := [0x01, 0x03, 0x05, 0x07, 0xC2, 0xC6, 0xCA, 0xCE]

def dspSetSampleRate : Nat := 0x41
def dspPauseDmaMode : Nat := 0xD0
def dspDacSpeakerTurnOn : Nat := 0xD1
def dspDacSpeakerTurnOff : Nat := 0xD3
def dspExitAutoDmaMode8 : Nat := 0xDA
def dspExitAutoDmaMode16 : Nat := 0xD9
def dspPlayAutoinit8Bit : Nat := 0xC6
def dspPlayAutoinit16Bit : Nat := 0xB6
def dspPlaySct8Bit : Nat := 0xC0
def dspPlaySct16Bit : Nat := 0xB0

/-! ## The DMA controllers -/

/-- A register of the DMA controllers: of one of the two controllers, or of one of the eight channels. -/
inductive DmaRegister where
  | mask (controller : Nat)
  | flipflop (controller : Nat)
  | mode (controller : Nat)
  | page (channel : Nat)
  | address (channel : Nat)
  | count (channel : Nat)
  deriving DecidableEq

/-- The register behind a port. -/
def dmaRegister (port : Nat) : Option DmaRegister :=
  let find (table : List Nat) (register : Nat → DmaRegister) :=
    if port ∈ table then some (register (table.idxOf port)) else none
  find dmaSingleChannelMask .mask <|> find dmaFlipflopReset .flipflop <|> find dmaMode .mode <|>
    find dmaPageAddress .page <|> find dmaStartAddress .address <|> find dmaCount .count

/-- The registers of a channel, and the number of transfers it has made since they were loaded. -/
structure DmaChannel where
  masked : Bool
  mode : Nat
  page : Nat
  address : Nat
  count : Nat
  done : Nat

/-- The controllers: the channels, and for each controller whether its next register byte is a high one. -/
structure Dma where
  channel : Nat → DmaChannel
  high : Nat → Bool

/-- A word after the write of one of its bytes. -/
def setByte (high : Bool) (word value : Nat) : Nat :=
  if high then word % 256 + 256 * value else word / 256 * 256 + value

/-- Change one channel. -/
def Dma.set (dma : Dma) (c : Nat) (channel : DmaChannel) : Dma :=
  { dma with channel := Function.update dma.channel c channel }

/-- `outb` to a port of the controllers. -/
def Dma.outb (dma : Dma) (port value : Nat) : Dma :=
  let value := value % 256
  match dmaRegister port with
  | none => dma
  | some (.mask k) => dma.set (4 * k + value % 4)
      { dma.channel (4 * k + value % 4) with masked := decide (value / 4 % 2 = 1) }
  | some (.flipflop k) => { dma with high := Function.update dma.high k false }
  | some (.mode k) => dma.set (4 * k + value % 4) { dma.channel (4 * k + value % 4) with mode := value }
  | some (.page c) => dma.set c { dma.channel c with page := value }
  | some (.address c) =>
      { dma.set c { dma.channel c with address := setByte (dma.high (c / 4)) (dma.channel c).address value, done := 0 } with
        high := Function.update dma.high (c / 4) (!dma.high (c / 4)) }
  | some (.count c) =>
      { dma.set c { dma.channel c with count := setByte (dma.high (c / 4)) (dma.channel c).count value, done := 0 } with
        high := Function.update dma.high (c / 4) (!dma.high (c / 4)) }

/-- The channel starts again from its first transfer after the last. -/
def DmaChannel.auto (c : DmaChannel) : Bool := decide (c.mode / 16 % 2 = 1)

/-- The bytes of one transfer of a channel. -/
def dmaUnit (channel : Nat) : Nat := if channel < 4 then 1 else 2

/-- The address of transfer `k` of a channel. -/
def DmaChannel.at (c : DmaChannel) (unit k : Nat) : Nat := c.page * 0x10000 + unit * ((c.address + k) % 0x10000)

/-- The transfers that a device gets when it asks for `n`: none while the channel is masked, and a channel that does not start
again ends with transfer `count`. -/
def DmaChannel.transfers (c : DmaChannel) (n : Nat) : List Nat :=
  if c.masked then []
  else if c.auto then (List.range n).map fun i => (c.done + i) % (c.count + 1)
  else (List.range (min n (c.count + 1 - c.done))).map fun i => c.done + i

/-! ## The DSP -/

/-- What the card is doing: nothing, playing one block after the other, playing a block after which it stops (the exit command
has come), or playing a single block. -/
inductive Playing where
  | idle
  | autoInit
  | lastBlock
  | singleCycle
  deriving DecidableEq

/-- The DSP: the bytes of a command that is not complete, what it plays, whether its samples have 16 bits and two channels, and
the length it was told. -/
structure Dsp where
  pending : List Nat
  playing : Playing
  wide : Bool
  stereo : Bool
  length : Nat

/-- The number of bytes that follow a command. -/
def dspArguments (command : Nat) : Nat :=
  if command = dspSetSampleRate then 2
  else if command ∈ [dspPlayAutoinit8Bit, dspPlayAutoinit16Bit, dspPlaySct8Bit, dspPlaySct16Bit] then 3
  else 0

/-- A playback command, with its format and length. -/
def Dsp.start (dsp : Dsp) (playing : Playing) (wide : Bool) (arguments : List Nat) : Dsp :=
  { dsp with
    pending := []
    playing := playing
    wide := wide
    stereo := decide (arguments.getD 0 0 / 32 % 2 = 1)
    length := arguments.getD 1 0 + 256 * arguments.getD 2 0 }

/-- A complete command. -/
def Dsp.execute (dsp : Dsp) (command : Nat) (arguments : List Nat) : Dsp :=
  if command = dspPlayAutoinit8Bit then dsp.start .autoInit false arguments
  else if command = dspPlayAutoinit16Bit then dsp.start .autoInit true arguments
  else if command = dspPlaySct8Bit then dsp.start .singleCycle false arguments
  else if command = dspPlaySct16Bit then dsp.start .singleCycle true arguments
  else if command = dspExitAutoDmaMode8 ∨ command = dspExitAutoDmaMode16 then
    { dsp with pending := [], playing := if dsp.playing = .autoInit then .lastBlock else dsp.playing }
  else if command = dspPauseDmaMode then { dsp with pending := [], playing := .idle }
  else { dsp with pending := [] }

/-- A byte for the DSP: a command, or one of its arguments. -/
def Dsp.write (dsp : Dsp) (value : Nat) : Dsp :=
  match dsp.pending ++ [value % 256] with
  | [] => dsp
  | command :: arguments =>
    if dspArguments command = arguments.length then dsp.execute command arguments
    else { dsp with pending := command :: arguments }

end NanoS32
