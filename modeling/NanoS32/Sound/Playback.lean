import NanoS32.Lib.Prog
import NanoS32.Ulib.Str
import NanoS32.Sound.Card
import Mathlib.Algebra.Group.Int.Defs
import Mathlib.Algebra.Group.Nat.Defs

/-!
# Playing a WAV file

The Sound Blaster driver of `sound.c`: reading the chunks of the file, loading the halves of the DMA buffer, programming the DMA
controller and the DSP, and the interrupt handler.
-/

namespace NanoS32

def wavRiff : Nat := 0x46464952
def wavWave : Nat := 0x45564157
def wavFmt : Nat := 0x20746D66
def wavData : Nat := 0x61746164

def dmaMaskOn : Nat := 0x04

def dspFormat8BitMono : Nat := 0x00
def dspFormat8BitStereo : Nat := 0x20
def dspFormat16BitMono : Nat := 0x10
def dspFormat16BitStereo : Nat := 0x30

def dmaBufferAddress : Nat := 0x70000
def dmaBufferSize : Nat := 0x2000
def bufferAddressHigh : Nat := dmaBufferAddress / 0x10000
def bufferAddressLow : Nat := dmaBufferAddress % 0x10000

/-- The channels that the card was found with. -/
structure SoundDevice where
  dma8Channel : Nat
  dma16Channel : Nat

/-- The channels that `io_sound_init` accepts. -/
structure SoundDevice.Found (device : SoundDevice) : Prop where
  dma8 : device.dma8Channel ∈ [0, 1, 3]
  dma16 : device.dma16Channel ∈ [5, 6, 7]

/-- What does not change while a file is played: the card, what `fs_read_file` stores for an offset and a count on the file, the
status that the DMA controller shows after it was programmed, the bound given to loops that need not end, and the number of
transfers of a single-cycle block, by the width of the samples, stereo, and the length given in the command (cards differ in
whether this length counts the samples of both channels). -/
structure SoundEnv where
  device : SoundDevice
  fsReadFile : Nat → Nat → List UInt8
  dmaStatus : Nat
  fuel : Nat
  singleBlock : Bool → Bool → Nat → Nat

/-- The fields of `playing_file` that playback reads. -/
structure PlayingFile where
  pos : Nat
  bits : Nat
  rate : Nat
  channels : Nat
  bytesPerSample : Nat

/-- `play_state`. -/
structure PlayState where
  remainingSamples : Int
  readRemainingBytes : Int
  isPlaying : Bool
  readBufferHalf : Nat

/-- The state of the driver, the memory and the hardware. -/
structure Sound where
  file : PlayingFile
  play : PlayState
  mem : Mem
  dma : Dma
  dsp : Dsp

/-- A 32-bit integer as an unsigned one. -/
def asUnsigned (x : Int) : Nat := (x % 2 ^ 32).toNat

/-- A 32-bit unsigned integer as a signed one. -/
def asSigned (x : Nat) : Int := if x < 2 ^ 31 then x else (x : Int) - 2 ^ 32

/-- The little-endian 32-bit word at byte `i` of a buffer. -/
def word32 (buff : List UInt8) (i : Nat) : Nat :=
  (buff.getD i 0).toNat + 256 * (buff.getD (i + 1) 0).toNat + 65536 * (buff.getD (i + 2) 0).toNat +
    16777216 * (buff.getD (i + 3) 0).toNat

/-- The little-endian 16-bit word at byte `i` of a buffer. -/
def word16 (buff : List UInt8) (i : Nat) : Nat := (buff.getD i 0).toNat + 256 * (buff.getD (i + 1) 0).toNat

/-- `bytes_to_samples`. -/
def PlayingFile.bytesToSamples (f : PlayingFile) (bytes : Nat) : Nat := bytes / f.bytesPerSample

namespace Sound

/-- `read_buffer`: load one half of the DMA buffer from the file. -/
def readBuffer (env : SoundEnv) (halfIndex : Nat) (s : Sound) : Sound :=
  let halfBuffSize := dmaBufferSize / 2
  if s.play.readRemainingBytes ≤ 0 then s
  else
    let buff := dmaBufferAddress + halfBuffSize * halfIndex
    if s.play.readRemainingBytes < halfBuffSize then
      let zeroValue : UInt8 := if s.file.bits = 8 then 0x80 else 0
      let n := s.play.readRemainingBytes.toNat
      { s with
        mem := (s.mem.memset buff zeroValue halfBuffSize).store buff (env.fsReadFile s.file.pos n)
        file := { s.file with pos := wrap32 (s.file.pos + n) }
        play := { s.play with readRemainingBytes := 0 } }
    else
      { s with
        mem := s.mem.store buff (env.fsReadFile s.file.pos halfBuffSize)
        file := { s.file with pos := wrap32 (s.file.pos + halfBuffSize) }
        play := { s.play with readRemainingBytes := s.play.readRemainingBytes - halfBuffSize } }

/-- The channel that a file is played through. -/
def dmaChannel (env : SoundEnv) (s : Sound) : Nat :=
  if s.file.bits = 8 then env.device.dma8Channel else if s.file.bits = 16 then env.device.dma16Channel else 0

/-- The index of its controller. -/
def controller (s : Sound) : Nat := if s.file.bits = 8 then 0 else if s.file.bits = 16 then 1 else 0

/-- `sb_write_DSP`. -/
def sbWriteDsp (value : Nat) (s : Sound) : Sound := { s with dsp := s.dsp.write value }

/-- `outb` to a port of the DMA controllers. -/
def outb (port value : Nat) (s : Sound) : Sound := { s with dma := s.dma.outb port value }

/-- The writes to the DMA controller that both ways of playback make. -/
def programDma (env : SoundEnv) (mode buffAddrLow count : Nat) (s : Sound) : Sound :=
  let channel := s.dmaChannel env
  let bits := s.controller
  let channelMask := channel % 4
  let s := s.outb (dmaSingleChannelMask.getD bits 0) (dmaMaskOn ||| channelMask)
  let s := s.outb (dmaFlipflopReset.getD bits 0) 0
  let s := s.outb (dmaMode.getD bits 0) (mode ||| channelMask)
  let s := s.outb (dmaStartAddress.getD channel 0) (buffAddrLow % 256)
  let s := s.outb (dmaStartAddress.getD channel 0) (buffAddrLow / 256)
  let s := s.outb (dmaPageAddress.getD channel 0) bufferAddressHigh
  let s := s.outb (dmaCount.getD channel 0) (count % 256)
  let s := s.outb (dmaCount.getD channel 0) (count / 256)
  s.outb (dmaSingleChannelMask.getD bits 0) channelMask

/-- The format byte of a playback command. -/
def dspFormat (s : Sound) : Nat :=
  if s.file.channels = 1 then
    if s.file.bits = 8 then dspFormat8BitMono else if s.file.bits = 16 then dspFormat16BitMono else 0
  else if s.file.channels = 2 then
    if s.file.bits = 8 then dspFormat8BitStereo else if s.file.bits = 16 then dspFormat16BitStereo else 0
  else 0

/-- The commands to the DSP that both ways of playback give. -/
def programDsp (command8 command16 length : Nat) (s : Sound) : Sound :=
  let command := if s.file.bits = 8 then command8 else if s.file.bits = 16 then command16 else 0
  let format := s.dspFormat
  let rate := s.file.rate
  let s := s.sbWriteDsp dspSetSampleRate
  let s := s.sbWriteDsp (rate / 256)
  let s := s.sbWriteDsp (rate % 256)
  let s := s.sbWriteDsp command
  let s := s.sbWriteDsp format
  let s := s.sbWriteDsp (length % 256)
  s.sbWriteDsp (length / 256)

/-- `sb_auto_init_playback`: the DMA controller goes round the whole buffer, and the DSP interrupts after every half of it. -/
def sbAutoInitPlayback (env : SoundEnv) (s : Sound) : Sound :=
  let buffAddrLow :=
    if s.file.bits = 8 then bufferAddressLow else if s.file.bits = 16 then bufferAddressLow / 2 else 0
  let dmaBuffSize :=
    if s.file.bits = 8 then dmaBufferSize - 1 else if s.file.bits = 16 then dmaBufferSize / 2 - 1 else 0
  let bufferSize :=
    if s.file.bits = 8 then dmaBufferSize / 2 - 1 else if s.file.bits = 16 then dmaBufferSize / 4 - 1 else 0
  programDsp dspPlayAutoinit8Bit dspPlayAutoinit16Bit bufferSize (programDma env 0x58 buffAddrLow dmaBuffSize s)

/-- `sb_single_cycle_playback`: play the remaining samples from the current half of the buffer on. -/
def sbSingleCyclePlayback (env : SoundEnv) (s : Sound) : Sound :=
  let buffOffset := (bufferAddressLow + s.play.readBufferHalf * dmaBufferSize / 2) % 2 ^ 16
  let buffAddrLow := if s.file.bits = 8 then buffOffset else if s.file.bits = 16 then buffOffset else 0
  let remaining := s.play.remainingSamples - 1
  let remainingSamples :=
    (if s.file.bits = 8 then asUnsigned remaining / s.file.channels else asUnsigned remaining) % 2 ^ 16
  let s := programDma env 0x48 buffAddrLow (asUnsigned remaining) s
  let s := programDsp dspPlaySct8Bit dspPlaySct16Bit remainingSamples s
  { s with play := { s.play with remainingSamples := 0 } }

/-- The end of the half that has been loaded, in `sound_handler`: with no more than half a buffer left the rest is played as a
single block, and with no more than a buffer left the card is told to stop after the next half. -/
def nextBlock (env : SoundEnv) (numSamplesInBuffer : Int) (s : Sound) : Sound :=
  if s.play.remainingSamples ≤ numSamplesInBuffer / 2 then
    sbSingleCyclePlayback env { s with play := { s.play with readBufferHalf := s.play.readBufferHalf ^^^ 1 } }
  else if s.play.remainingSamples ≤ numSamplesInBuffer then
    if s.file.bits = 8 then s.sbWriteDsp dspExitAutoDmaMode8
    else if s.file.bits = 16 then s.sbWriteDsp dspExitAutoDmaMode16
    else s
  else s

/-- `sound_handler`, on an enabled card: what it does when the DSP has finished playing a block. -/
def soundHandler (env : SoundEnv) (s : Sound) : Sound :=
  if s.play.isPlaying then
    let numSamplesInBuffer : Int := s.file.bytesToSamples dmaBufferSize
    let s := { s with play := { s.play with remainingSamples := s.play.remainingSamples - numSamplesInBuffer / 2 } }
    if s.play.remainingSamples > 0 then
      let s := nextBlock env numSamplesInBuffer (readBuffer env s.play.readBufferHalf s)
      { s with play := { s.play with readBufferHalf := s.play.readBufferHalf ^^^ 1 } }
    else { s with play := { s.play with isPlaying := false } }
  else s

/-- `io_sound_stop`. -/
def ioSoundStop (s : Sound) : Sound :=
  let s := (s.sbWriteDsp dspPauseDmaMode).sbWriteDsp dspDacSpeakerTurnOff
  { s with play := { s.play with isPlaying := false } }

/-! ## Starting -/

/-- The loop of `sb_play` that looks for the fmt chunk from `pos` on: the chunk, and the position behind it. -/
def findFmt (env : SoundEnv) : Nat → Nat → Prog Sound (List UInt8 × Nat)
  | 0, _ => .noReturn
  | fuel + 1, pos => do
    let chunk := env.fsReadFile pos 24
    Prog.failIf (chunk.length ≠ 24) errorIo
    let pos := wrap32 (pos + wrap32 (word32 chunk 4 + 8))
    if word32 chunk 0 ≠ wavFmt then findFmt env fuel pos else pure (chunk, pos)

/-- The loop of `sb_play` that looks for the data chunk from `pos` on: its length, and its position. -/
def findData (env : SoundEnv) : Nat → Nat → Prog Sound (Nat × Nat)
  | 0, _ => .noReturn
  | fuel + 1, pos => do
    let chunk := env.fsReadFile pos 8
    Prog.failIf (chunk.length ≠ 8) errorIo
    if word32 chunk 0 ≠ wavData then findData env fuel (wrap32 (pos + wrap32 (word32 chunk 4 + 8)))
    else pure (word32 chunk 4, pos)

/-- The first part of `sb_play`: the format and the position of the file's data, and the length of the data. -/
def readChunks (env : SoundEnv) : Prog Sound (PlayingFile × Nat) := do
  let riff := env.fsReadFile 0 12
  Prog.failIf (riff.length ≠ 12 ∨ word32 riff 0 ≠ wavRiff ∨ word32 riff 8 ≠ wavWave) errorIo
  let (fmt, pos) ← findFmt env env.fuel 12
  let bits := word16 fmt 22
  Prog.failIf (bits ≠ 8 ∧ bits ≠ 16) errorIo
  let channels := word16 fmt 10
  Prog.failIf (channels ≠ 1 ∧ channels ≠ 2) errorIo
  let (dataLength, pos) ← findData env env.fuel pos
  pure ({ pos := pos, bits := bits, rate := word32 fmt 12, channels := channels, bytesPerSample := bits / 8 }, dataLength)

/-- The second part of `sb_play`: load the buffer and start playback. -/
def startPlayback (env : SoundEnv) (file : PlayingFile) (dataLength : Nat) (s : Sound) : Sound :=
  let s := { s with
    file := file
    play := { s.play with
      readRemainingBytes := asSigned dataLength
      remainingSamples := asSigned (file.bytesToSamples dataLength) } }
  let s := s.sbWriteDsp dspDacSpeakerTurnOn
  let s := readBuffer env 1 (readBuffer env 0 s)
  let s := if s.play.readRemainingBytes > 0 then sbAutoInitPlayback env s else sbSingleCyclePlayback env s
  if env.dmaStatus / 16 % 16 ≠ 0 then { s with play := { s.play with isPlaying := true } } else s.ioSoundStop

/-- The start of `sb_play`: playback starts in half 0, and the buffer is cleared. -/
def clearBuffer (s : Sound) : Sound :=
  { s with
    mem := s.mem.memset dmaBufferAddress 0 dmaBufferSize
    play := { s.play with readBufferHalf := 0 } }

/-- `sb_play`. The fields of the file are set when all of them are known; nothing reads them before. A rate of 0 makes the
division for the file's length in seconds trap. -/
def sbPlay (env : SoundEnv) : Prog Sound Unit := do
  Prog.update clearBuffer
  let (file, dataLength) ← readChunks env
  if file.rate = 0 then .noReturn else Prog.update (startPlayback env file dataLength)

end Sound

end NanoS32
