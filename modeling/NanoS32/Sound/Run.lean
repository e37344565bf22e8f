import NanoS32.Sound.Playback

/-!
# The card at work

The card plays one block after the other and interrupts at the end of each. In auto-init mode it goes on with the next block
while the handler runs.
-/

namespace NanoS32

/-- The driver with the card: the memory as it was when the block in progress began, and the bytes the card has read. -/
structure Machine where
  sound : Sound
  began : Mem
  played : List UInt8

namespace Sound

/-- The channel that the card reads through. -/
def cardChannel (env : SoundEnv) (s : Sound) : Nat :=
  if s.dsp.wide then env.device.dma16Channel else env.device.dma8Channel

/-- The transfers that the card asks for in the block in progress. -/
def blockLength (env : SoundEnv) (s : Sound) : Nat :=
  match s.dsp.playing with
  | .idle => 0
  | .autoInit | .lastBlock => s.dsp.length + 1
  | .singleCycle => env.singleBlock s.dsp.wide s.dsp.stereo s.dsp.length

/-- The addresses of the bytes of the block in progress. -/
def blockAddresses (env : SoundEnv) (s : Sound) : List Nat :=
  let c := s.cardChannel env
  ((s.dma.channel c).transfers (s.blockLength env)).flatMap fun k =>
    (List.range (dmaUnit c)).map fun b => (s.dma.channel c).at (dmaUnit c) k + b

/-- The end of the block in progress: in auto-init mode the next one begins, and after a last or a single block the card stops. -/
def blockDone (env : SoundEnv) (s : Sound) : Sound :=
  let c := s.cardChannel env
  let channel := s.dma.channel c
  { s with
    dma := s.dma.set c { channel with done := channel.done + (channel.transfers (s.blockLength env)).length }
    dsp := { s.dsp with playing := if s.dsp.playing = .autoInit then .autoInit else .idle } }

/-- The transfer that the file's channel is programmed for stays inside the buffer. -/
def Inside (env : SoundEnv) (s : Sound) : Prop :=
  let c := s.dmaChannel env
  ∀ k ≤ (s.dma.channel c).count, dmaBufferAddress ≤ (s.dma.channel c).at (dmaUnit c) k ∧
    (s.dma.channel c).at (dmaUnit c) k + dmaUnit c ≤ dmaBufferAddress + dmaBufferSize

end Sound

namespace Machine

/-- The machine when playback has started. -/
def start (s : Sound) : Machine := { sound := s, began := s.mem, played := [] }

/-- The block in progress comes to its end and the card interrupts. Byte `i` of the block was read before the handler of the
interrupt at its beginning had run when `early i`, and after it otherwise. -/
def interrupt (env : SoundEnv) (early : Nat → Bool) (m : Machine) : Machine :=
  let done := m.sound.blockDone env
  let next := done.soundHandler env
  { sound := next
    began := if done.dsp.playing = .idle then next.mem else done.mem
    played := m.played ++ (m.sound.blockAddresses env).mapIdx fun i a => if early i then m.began a else m.sound.mem a }

/-- The machine after `n` interrupts, or after the last one. -/
def run (env : SoundEnv) (early : Nat → Nat → Bool) : Nat → Machine → Machine
  | 0, m => m
  | n + 1, m =>
    let m := run env early n m
    if m.sound.dsp.playing = .idle then m else m.interrupt env (early n)

end Machine

/-- A file is played as it should be: all transfers that are programmed stay inside the buffer, and the card reads the data and
then stops, with `is_playing` cleared. -/
structure PlaysFile (env : SoundEnv) (data : List UInt8) (s : Sound) : Prop where
  inside : ∀ early n, ((Machine.start s).run env early n).sound.Inside env
  reads : ∀ early, ∃ n, ((Machine.start s).run env early n).sound.dsp.playing = .idle ∧
    ((Machine.start s).run env early n).sound.play.isPlaying = false ∧ ((Machine.start s).run env early n).played = data

end NanoS32
