import NanoS32.Lemmas.Mem
import NanoS32.Sound.Run

/-!
# What the driver does to the hardware

The state of the DMA channel and of the DSP after they have been programmed, and the bytes that a block of transfers reads.
-/

namespace NanoS32

/-! ## Bytes -/

/-- The bytes of a list from an offset on. -/
theorem take_drop_eq_map (l : List UInt8) {p n : Nat} (h : p + n ≤ l.length) :
    (l.drop p).take n = (List.range n).map fun i => l.getD (p + i) 0 := by
  refine List.ext_getElem ?_ fun i h1 h2 => ?_
  · rw [List.length_take, List.length_drop, List.length_map, List.length_range]
    omega
  · have hi : i < n := by simpa using h2
    have hp : p + i < l.length := by omega
    simp [hp]

/-- Units of `u` bytes one after the other. -/
theorem flatMap_units {α : Type} (u n : Nat) (f : Nat → α) :
    ((List.range n).flatMap fun k => (List.range u).map fun b => f (u * k + b)) = (List.range (u * n)).map f := by
  induction n with
  | zero => rfl
  | succ n ih =>
    rw [List.range_succ, List.flatMap_append, ih, Nat.mul_succ, List.range_add, List.map_append, List.map_map]
    simp [Function.comp_def]

/-- A byte that two memories agree on can be read from either. -/
theorem mapIdx_either (early : Nat → Bool) {m m' : Mem} {g : Nat → UInt8} {l : List Nat} (h : ∀ a ∈ l, m a = g a)
    (h' : ∀ a ∈ l, m' a = g a) : (l.mapIdx fun i a => if early i then m a else m' a) = l.map g := by
  refine List.ext_getElem (by simp) fun i h1 h2 => ?_
  have hi : i < l.length := by simpa using h2
  rw [List.getElem_mapIdx, List.getElem_map]
  split
  · exact h _ (List.getElem_mem hi)
  · exact h' _ (List.getElem_mem hi)

/-! ## The DMA channel -/

namespace Sound

/-- The ports of the DMA controllers, and what the driver writes to them. -/
theorem programDma_channel {env : SoundEnv} (hdev : env.device.Found) {s : Sound}
    (hbits : s.file.bits = 8 ∨ s.file.bits = 16) {mode low count : Nat} (hmode : mode ∈ [0x58, 0x48]) (hlow : low < 65536)
    (hcount : count < 65536) :
    (s.programDma env mode low count).dma.channel (s.dmaChannel env) =
      { masked := false, mode := mode ||| s.dmaChannel env % 4, page := 7, address := low, count := count, done := 0 } := by
  have h8 := hdev.dma8
  have h16 := hdev.dma16
  simp only [List.mem_cons, List.not_mem_nil, or_false] at h8 h16 hmode
  have hl : low / 256 % 256 = low / 256 := by omega
  have hc : count / 256 % 256 = count / 256 := by omega
  rcases hbits with hb | hb
  · rcases hmode with rfl | rfl <;> rcases h8 with h | h | h <;>
      simp [programDma, dmaChannel, controller, hb, h, hl, hc, outb, Dma.outb, dmaRegister, dmaSingleChannelMask,
        dmaFlipflopReset, dmaMode, dmaPageAddress, dmaStartAddress, dmaCount, Dma.set, setByte, dmaMaskOn, bufferAddressHigh,
        dmaBufferAddress, List.idxOf, List.findIdx, List.findIdx.go, Nat.mod_add_div]
  · rcases hmode with rfl | rfl <;> rcases h16 with h | h | h <;>
      simp [programDma, dmaChannel, controller, hb, h, hl, hc, outb, Dma.outb, dmaRegister, dmaSingleChannelMask,
        dmaFlipflopReset, dmaMode, dmaPageAddress, dmaStartAddress, dmaCount, Dma.set, setByte, dmaMaskOn, bufferAddressHigh,
        dmaBufferAddress, List.idxOf, List.findIdx, List.findIdx.go, Nat.mod_add_div]

/-- The writes to the controllers change nothing else. -/
theorem programDma_eq (env : SoundEnv) (mode low count : Nat) (s : Sound) :
    ∃ dma, s.programDma env mode low count = { s with dma := dma } := by
  simp only [programDma, outb]
  exact ⟨_, rfl⟩

/-- The commands of a playback: those for 8 and 16 bits, and what they make the card do. -/
def playCommands : List (Nat × Nat × Playing) :=
  [(dspPlayAutoinit8Bit, dspPlayAutoinit16Bit, .autoInit), (dspPlaySct8Bit, dspPlaySct16Bit, .singleCycle)]

theorem programDsp_dsp {s : Sound} (hpend : s.dsp.pending = []) (hbits : s.file.bits = 8 ∨ s.file.bits = 16)
    (hch : s.file.channels = 1 ∨ s.file.channels = 2) {c8 c16 length : Nat} {playing : Playing}
    (hc : (c8, c16, playing) ∈ playCommands) (hlen : length < 65536) :
    (s.programDsp c8 c16 length).dsp =
      { pending := [], playing := playing, wide := decide (s.file.bits = 16), stereo := decide (s.file.channels = 2),
        length := length } := by
  have hl : length % 256 + 256 * (length / 256 % 256) = length := by omega
  simp only [playCommands, List.mem_cons, List.not_mem_nil, or_false, Prod.mk.injEq] at hc
  rcases hc with ⟨rfl, rfl, rfl⟩ | ⟨rfl, rfl, rfl⟩ <;> rcases hbits with hb | hb <;> rcases hch with h | h <;>
    simp [programDsp, dspFormat, sbWriteDsp, Dsp.write, Dsp.execute, Dsp.start, dspArguments, hpend, hb, h, hl,
      dspSetSampleRate, dspPlayAutoinit8Bit, dspPlayAutoinit16Bit, dspPlaySct8Bit, dspPlaySct16Bit, dspFormat8BitMono,
      dspFormat8BitStereo, dspFormat16BitMono, dspFormat16BitStereo, dspExitAutoDmaMode8, dspExitAutoDmaMode16,
      dspPauseDmaMode]

/-- The commands to the DSP change nothing else. -/
theorem programDsp_eq (c8 c16 length : Nat) (s : Sound) :
    ∃ dsp, s.programDsp c8 c16 length = { s with dsp := dsp } := by
  simp only [programDsp, sbWriteDsp]
  exact ⟨_, rfl⟩

/-- Both ways of playback: the registers of the file's channel, and the state of the DSP. -/
theorem program_spec {env : SoundEnv} (hdev : env.device.Found) {s : Sound} (hpend : s.dsp.pending = [])
    (hbits : s.file.bits = 8 ∨ s.file.bits = 16) (hch : s.file.channels = 1 ∨ s.file.channels = 2)
    (mode low count : Nat) (hmode : mode ∈ [0x58, 0x48]) (hlow : low < 65536) (hcount : count < 65536)
    (c8 c16 length : Nat) (playing : Playing) (hc : (c8, c16, playing) ∈ playCommands) (hlen : length < 65536) :
    ∃ dma, programDsp c8 c16 length (s.programDma env mode low count) =
        { s with dma := dma, dsp := ⟨[], playing, decide (s.file.bits = 16), decide (s.file.channels = 2), length⟩ } ∧
      dma.channel (s.dmaChannel env) =
        { masked := false, mode := mode ||| s.dmaChannel env % 4, page := 7, address := low, count := count, done := 0 } := by
  obtain ⟨dma, hd⟩ := programDma_eq env mode low count s
  have hchannel := programDma_channel hdev hbits hmode hlow hcount
  obtain ⟨dsp, hs⟩ := programDsp_eq c8 c16 length (s.programDma env mode low count)
  have hdsp := programDsp_dsp (s := s.programDma env mode low count) (by rw [hd]; exact hpend) (by rw [hd]; exact hbits)
    (by rw [hd]; exact hch) hc hlen
  rw [hs, hd] at hdsp
  rw [hd] at hchannel
  refine ⟨dma, ?_, hchannel⟩
  rw [hs, hd]
  exact congrArg (fun dsp => { s with dma := dma, dsp := dsp }) hdsp

end Sound

end NanoS32
