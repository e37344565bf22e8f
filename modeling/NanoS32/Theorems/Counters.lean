import NanoS32.Theorems.Sound

/-!
# Counters and divisors of playback

The numbers of a file that passes the format checks: what is divided by, and what the counters and the length for the DMA
controller are whenever playback is programmed, at the start and in any sequence of interrupts.
-/

namespace NanoS32

/-- A supported format stays one wherever the file is read next. -/
theorem PlayingFile.Valid.ofPos {f : PlayingFile} (h : f.Valid) (pos : Nat) : ({ f with pos := pos } : PlayingFile).Valid :=
  ⟨h.bits, h.channels, h.bytesPerSample⟩

/-- Neither the sample size nor the number of channels of a supported format is zero. -/
theorem PlayingFile.Valid.divisors {f : PlayingFile} (h : f.Valid) : f.bytesPerSample ≠ 0 ∧ f.channels ≠ 0 := by
  have hb := Sound.bytesPerSample_cases h
  have hc := h.channels
  constructor
  · omega
  · omega

namespace Sound

/-! ## Where playback is programmed -/

/-- The state in which `sound_handler` calls `sb_single_cycle_playback`, when it does. -/
def handlerSingle (env : SoundEnv) (s : Sound) : Option Sound :=
  if s.play.isPlaying then
    let numSamplesInBuffer : Int := s.file.bytesToSamples dmaBufferSize
    let s := { s with play := { s.play with remainingSamples := s.play.remainingSamples - numSamplesInBuffer / 2 } }
    if s.play.remainingSamples > 0 then
      let s := readBuffer env s.play.readBufferHalf s
      if s.play.remainingSamples ≤ numSamplesInBuffer / 2 then
        some { s with play := { s.play with readBufferHalf := s.play.readBufferHalf ^^^ 1 } }
      else none
    else none
  else none

/-- The state in which `sb_play` programs playback: the buffer is loaded. -/
def startLoaded (env : SoundEnv) (file : PlayingFile) (dataLength : Nat) (s : Sound) : Sound :=
  let s := { s with
    file := file
    play := { s.play with
      readRemainingBytes := asSigned dataLength
      remainingSamples := asSigned (file.bytesToSamples dataLength) } }
  readBuffer env 1 (readBuffer env 0 (s.sbWriteDsp dspDacSpeakerTurnOn))

/-- `sb_play` programs auto-init playback when not all of the file is loaded, and a single block otherwise. -/
theorem startPlayback_eq (env : SoundEnv) (file : PlayingFile) (dataLength : Nat) (s : Sound) :
    ∃ t : Sound,
      t = (if (startLoaded env file dataLength s).play.readRemainingBytes > 0 then
          sbAutoInitPlayback env (startLoaded env file dataLength s)
        else sbSingleCyclePlayback env (startLoaded env file dataLength s)) ∧
      startPlayback env file dataLength s =
        if env.dmaStatus / 16 % 16 ≠ 0 then { t with play := { t.play with isPlaying := true } } else t.ioSoundStop :=
  ⟨_, rfl, rfl⟩

theorem readBuffer_dma (env : SoundEnv) (half : Nat) (s : Sound) : (readBuffer env half s).dma = s.dma := by
  unfold readBuffer
  dsimp only
  split
  · rfl
  · split
    · rfl
    · rfl

/-- `sound_handler` programs the DMA controller there and nowhere else. -/
theorem soundHandler_single (env : SoundEnv) (s : Sound) :
    (∀ t, handlerSingle env s = some t → soundHandler env s =
      let u := sbSingleCyclePlayback env t
      { u with play := { u.play with readBufferHalf := u.play.readBufferHalf ^^^ 1 } }) ∧
    (handlerSingle env s = none → (soundHandler env s).dma = s.dma) := by
  unfold handlerSingle soundHandler
  by_cases hplay : s.play.isPlaying = true
  · rw [if_pos hplay, if_pos hplay]
    dsimp only
    split
    · split
      · next hlast =>
        refine ⟨fun t ht => ?_, fun h => absurd h (Option.some_ne_none _)⟩
        obtain rfl := Option.some.inj ht
        rw [nextBlock, if_pos hlast]
      · next hlast =>
        refine ⟨fun t ht => absurd ht.symm (Option.some_ne_none t), fun _ => ?_⟩
        rw [nextBlock, if_neg hlast]
        split
        · split
          · exact readBuffer_dma env _ _
          · split
            · exact readBuffer_dma env _ _
            · exact readBuffer_dma env _ _
        · exact readBuffer_dma env _ _
    · exact ⟨fun t ht => absurd ht.symm (Option.some_ne_none t), fun _ => rfl⟩
  · rw [if_neg hplay, if_neg hplay]
    exact ⟨fun t ht => absurd ht.symm (Option.some_ne_none t), fun _ => rfl⟩

/-! ## The property -/

/-- The counters and the length for the DMA controller are in range in a state in which a single block is programmed. -/
structure SingleInRange (s : Sound) : Prop where
  samples : 0 ≤ s.play.remainingSamples - 1
  bytes : 0 ≤ s.play.readRemainingBytes
  count : asUnsigned (s.play.remainingSamples - 1) < 2 ^ 16

/-- The counters are in range in a state in which auto-init playback is programmed; its length is a constant. -/
structure AutoInRange (s : Sound) : Prop where
  samples : 0 ≤ s.play.remainingSamples
  bytes : 0 ≤ s.play.readRemainingBytes
  count : dmaBufferSize - 1 < 2 ^ 16

/-- The states of the driver from `s` on: interrupts, `io_sound_stop`, and what the hardware does to the memory and to itself, in
any order. -/
inductive Later (env : SoundEnv) (s : Sound) : Sound → Prop where
  | refl : Later env s s
  | handler {t : Sound} : Later env s t → Later env s (soundHandler env t)
  | stop {t : Sound} : Later env s t → Later env s t.ioSoundStop
  | hardware {t : Sound} (mem : Mem) (dma : Dma) (dsp : Dsp) : Later env s t →
      Later env s { t with mem := mem, dma := dma, dsp := dsp }

/-- Playing a file of `dataLength` bytes of data divides by nothing that is zero, and everything is in range whenever playback is
programmed. -/
structure PlaysInRange (env : SoundEnv) (file : PlayingFile) (dataLength : Nat) (s : Sound) : Prop where
  divisors : file.bytesPerSample ≠ 0 ∧ file.channels ≠ 0 ∧ file.rate ≠ 0
  start : if (startLoaded env file dataLength s).play.readRemainingBytes > 0 then AutoInRange (startLoaded env file dataLength s)
    else SingleInRange (startLoaded env file dataLength s)
  later : ∀ t, Later env (startPlayback env file dataLength s) t →
    t.file.bytesPerSample ≠ 0 ∧ t.file.channels ≠ 0 ∧ ∀ u, handlerSingle env t = some u → SingleInRange u

/-! ## Steps -/

/-- What an interrupt keeps: the format, and that the bytes left to read are not negative. -/
structure Counting (s : Sound) : Prop where
  valid : s.file.Valid
  bytes : 0 ≤ s.play.readRemainingBytes

theorem readBuffer_counters (env : SoundEnv) (half : Nat) (s : Sound) :
    (readBuffer env half s).play.remainingSamples = s.play.remainingSamples ∧
      (readBuffer env half s).play.readRemainingBytes =
        (if s.play.readRemainingBytes ≤ 0 then s.play.readRemainingBytes
          else if s.play.readRemainingBytes < ((dmaBufferSize / 2 : Nat) : Int) then 0
          else s.play.readRemainingBytes - ((dmaBufferSize / 2 : Nat) : Int)) ∧
      ∃ pos, (readBuffer env half s).file = { s.file with pos := pos } := by
  unfold readBuffer
  dsimp only
  by_cases hdone : s.play.readRemainingBytes ≤ 0
  · rw [if_pos hdone, if_pos hdone]
    exact ⟨rfl, rfl, _, rfl⟩
  · rw [if_neg hdone, if_neg hdone]
    by_cases hlast : s.play.readRemainingBytes < ((dmaBufferSize / 2 : Nat) : Int)
    · rw [if_pos hlast, if_pos hlast]
      exact ⟨rfl, rfl, _, rfl⟩
    · rw [if_neg hlast, if_neg hlast]
      exact ⟨rfl, rfl, _, rfl⟩

/-- Loading a half keeps what is counted. -/
theorem Counting.readBuffer (env : SoundEnv) (half : Nat) {s : Sound} (h : s.Counting) : (readBuffer env half s).Counting := by
  obtain ⟨-, hbytes, pos, hfile⟩ := readBuffer_counters env half s
  have hnonneg := h.bytes
  refine ⟨?_, ?_⟩
  · rw [hfile]
    exact h.valid.ofPos pos
  · rw [hbytes]
    split
    · exact hnonneg
    · split
      · exact Int.le_refl 0
      · omega

/-- Programming a single block changes no more of the driver than the samples left. -/
theorem sbSingleCyclePlayback_eq (env : SoundEnv) (s : Sound) :
    ∃ dma dsp, sbSingleCyclePlayback env s =
      { s with dma := dma, dsp := dsp, play := { s.play with remainingSamples := 0 } } := by
  unfold sbSingleCyclePlayback
  dsimp only
  obtain ⟨count, hcount⟩ : ∃ count, asUnsigned (s.play.remainingSamples - 1) = count := ⟨_, rfl⟩
  rw [hcount]
  obtain ⟨dma, hdma⟩ := programDma_eq env 0x48
    (if s.file.bits = 8 then (bufferAddressLow + s.play.readBufferHalf * dmaBufferSize / 2) % 2 ^ 16
      else if s.file.bits = 16 then (bufferAddressLow + s.play.readBufferHalf * dmaBufferSize / 2) % 2 ^ 16 else 0) count s
  rw [hdma]
  obtain ⟨dsp, hdsp⟩ := programDsp_eq dspPlaySct8Bit dspPlaySct16Bit
    ((if s.file.bits = 8 then count / s.file.channels else count) % 2 ^ 16) { s with dma := dma }
  rw [hdsp]
  exact ⟨dma, dsp, rfl⟩

theorem sbAutoInitPlayback_eq (env : SoundEnv) (s : Sound) :
    ∃ dma dsp, sbAutoInitPlayback env s = { s with dma := dma, dsp := dsp } := by
  unfold sbAutoInitPlayback
  dsimp only
  obtain ⟨dma, hdma⟩ := programDma_eq env 0x58
    (if s.file.bits = 8 then bufferAddressLow else if s.file.bits = 16 then bufferAddressLow / 2 else 0)
    (if s.file.bits = 8 then dmaBufferSize - 1 else if s.file.bits = 16 then dmaBufferSize / 2 - 1 else 0) s
  rw [hdma]
  obtain ⟨dsp, hdsp⟩ := programDsp_eq dspPlayAutoinit8Bit dspPlayAutoinit16Bit
    (if s.file.bits = 8 then dmaBufferSize / 2 - 1 else if s.file.bits = 16 then dmaBufferSize / 4 - 1 else 0)
    { s with dma := dma }
  rw [hdsp]
  exact ⟨dma, dsp, rfl⟩

theorem Counting.nextBlock (env : SoundEnv) (n : Int) {s : Sound} (h : s.Counting) : (nextBlock env n s).Counting := by
  unfold Sound.nextBlock
  split
  · obtain ⟨dma, dsp, heq⟩ := sbSingleCyclePlayback_eq env
      { s with play := { s.play with readBufferHalf := s.play.readBufferHalf ^^^ 1 } }
    rw [heq]
    exact ⟨h.valid, h.bytes⟩
  · split
    · split
      · exact ⟨h.valid, h.bytes⟩
      · split
        · exact ⟨h.valid, h.bytes⟩
        · exact h
    · exact h

/-- An interrupt keeps what is counted. -/
theorem Counting.soundHandler {env : SoundEnv} {s : Sound} (h : s.Counting) : (soundHandler env s).Counting := by
  unfold Sound.soundHandler
  split
  · dsimp only
    split
    · have hless : Counting { s with play := { s.play with
          remainingSamples := s.play.remainingSamples - ((s.file.bytesToSamples dmaBufferSize : Nat) : Int) / 2 } } :=
        ⟨h.valid, h.bytes⟩
      have hnext := (hless.readBuffer env s.play.readBufferHalf).nextBlock env (s.file.bytesToSamples dmaBufferSize : Nat)
      exact ⟨hnext.valid, hnext.bytes⟩
    · exact ⟨h.valid, h.bytes⟩
  · exact h

/-- When an interrupt programs a single block, what is left of the samples is more than none and at most half of the buffer. -/
theorem Counting.handlerSingle {env : SoundEnv} {s t : Sound} (h : s.Counting) (ht : handlerSingle env s = some t) :
    SingleInRange t := by
  have hhalf : ((s.file.bytesToSamples dmaBufferSize : Nat) : Int) / 2 ≤ 4096 := by
    have hle : s.file.bytesToSamples dmaBufferSize ≤ dmaBufferSize := Nat.div_le_self _ _
    simp only [dmaBufferSize] at hle ⊢
    omega
  unfold Sound.handlerSingle at ht
  split at ht
  · dsimp only at ht
    split at ht
    · next hpos =>
      split at ht
      · next hlast =>
        obtain rfl := Option.some.inj ht
        have hload : (Sound.readBuffer env s.play.readBufferHalf { s with play := { s.play with
            remainingSamples := s.play.remainingSamples - ((s.file.bytesToSamples dmaBufferSize : Nat) : Int) / 2 } }).Counting :=
          Counting.readBuffer env _ ⟨h.valid, h.bytes⟩
        have hsamples := (readBuffer_counters env s.play.readBufferHalf { s with play := { s.play with
            remainingSamples := s.play.remainingSamples - ((s.file.bytesToSamples dmaBufferSize : Nat) : Int) / 2 } }).1
        rw [hsamples] at hlast
        dsimp only at hlast hpos
        refine ⟨?_, hload.bytes, ?_⟩
        · dsimp only
          rw [hsamples]
          dsimp only
          omega
        · dsimp only
          rw [hsamples, asUnsigned]
          dsimp only
          omega
      · exact absurd ht.symm (Option.some_ne_none t)
    · exact absurd ht.symm (Option.some_ne_none t)
  · exact absurd ht.symm (Option.some_ne_none t)

/-- In any run from a state with a supported format and no negative number of bytes, the format stays supported and the number
does not become negative. -/
theorem Counting.later {env : SoundEnv} {s t : Sound} (h : s.Counting) (ht : Later env s t) : t.Counting := by
  induction ht with
  | refl => exact h
  | handler _ ih => exact ih.soundHandler
  | stop _ ih => exact ⟨ih.valid, ih.bytes⟩
  | hardware _ _ _ _ ih => exact ⟨ih.valid, ih.bytes⟩

/-! ## The start -/

theorem word32_lt (buff : List UInt8) (i : Nat) : word32 buff i < 2 ^ 32 := by
  have h0 := (buff.getD i 0).toNat_lt
  have h1 := (buff.getD (i + 1) 0).toNat_lt
  have h2 := (buff.getD (i + 2) 0).toNat_lt
  have h3 := (buff.getD (i + 3) 0).toNat_lt
  unfold word32
  omega

/-- The length of the data that the search finds is a 32-bit number. -/
theorem findData_length {env : SoundEnv} {fuel : Nat} {r : Nat × Nat} {s' : Sound} : ∀ {pos : Nat} {s : Sound},
    (findData env fuel pos).run s = .ok r s' → r.1 < 2 ^ 32 := by
  induction fuel with
  | zero => exact fun h => nomatch h
  | succ fuel ih =>
    intro pos s h
    simp only [findData, Prog.run_failIf_bind] at h
    split_ifs at h
    · exact ih h
    · cases h
      exact word32_lt _ 4

/-- So is that of an accepted file. -/
theorem readChunks_length {env : SoundEnv} {f : PlayingFile} {len : Nat} {s s' : Sound}
    (h : (readChunks env).run s = .ok (f, len) s') : len < 2 ^ 32 := by
  rw [readChunks, Prog.run_failIf_bind] at h
  split_ifs at h
  obtain ⟨fmt, t, -, hrest⟩ := Prog.bind_eq_ok h
  simp only [Prog.run_failIf_bind] at hrest
  split_ifs at hrest
  obtain ⟨found, u, hdata, hend⟩ := Prog.bind_eq_ok hrest
  have hlength := findData_length hdata
  cases hend
  exact hlength

/-- The counters when the buffer has been loaded with the beginning of the data. -/
theorem startLoaded_counters (env : SoundEnv) (f : PlayingFile) (len : Nat) (s : Sound) (hlen : len < 2 ^ 32) :
    (startLoaded env f len s).play.remainingSamples = asSigned (f.bytesToSamples len) ∧
      (startLoaded env f len s).play.readRemainingBytes =
        (if len < 2147483648 then ((len - dmaBufferSize : Nat) : Int) else (len : Int) - 4294967296) ∧
      ∃ pos, (startLoaded env f len s).file = { f with pos := pos } := by
  obtain ⟨t, ht⟩ : ∃ t : Sound, ({ s with
    file := f
    play := { s.play with
      readRemainingBytes := asSigned len
      remainingSamples := asSigned (f.bytesToSamples len) } } : Sound).sbWriteDsp dspDacSpeakerTurnOn = t := ⟨_, rfl⟩
  have hsamples : t.play.remainingSamples = asSigned (f.bytesToSamples len) := by rw [← ht]; rfl
  have hbytes : t.play.readRemainingBytes = asSigned len := by rw [← ht]; rfl
  have hfile : t.file = f := by rw [← ht]; rfl
  have hloaded : startLoaded env f len s = readBuffer env 1 (readBuffer env 0 t) := by rw [← ht]; rfl
  obtain ⟨hsamples0, hbytes0, pos0, hfile0⟩ := readBuffer_counters env 0 t
  obtain ⟨hsamples1, hbytes1, pos1, hfile1⟩ := readBuffer_counters env 1 (readBuffer env 0 t)
  rw [hloaded]
  refine ⟨by rw [hsamples1, hsamples0, hsamples], ?_, pos1, by rw [hfile1, hfile0, hfile]⟩
  have hhalf : ((dmaBufferSize / 2 : Nat) : Int) = 4096 := rfl
  rw [hbytes1, hbytes0, hbytes, hhalf, dmaBufferSize]
  by_cases hshort : len < 2147483648
  · have hsigned : asSigned len = len := by rw [asSigned, if_pos (by omega)]
    rw [if_pos hshort, hsigned]
    split_ifs <;> omega
  · have hsigned : asSigned len = (len : Int) - 4294967296 := by rw [asSigned, if_neg (by omega)]; rfl
    rw [if_neg hshort, hsigned]
    split_ifs <;> omega

/-- Playback is programmed with everything in range at the start exactly for data of at least one sample whose length is not
negative as a signed number. -/
theorem start_in_range (env : SoundEnv) {f : PlayingFile} {len : Nat} (s : Sound) (hf : f.Valid) (hlen : len < 2 ^ 32) :
    (if (startLoaded env f len s).play.readRemainingBytes > 0 then AutoInRange (startLoaded env f len s)
      else SingleInRange (startLoaded env f len s)) ↔ f.bits / 8 ≤ len ∧ len < 2147483648 := by
  obtain ⟨hsamples, hbytes, -⟩ := startLoaded_counters env f len s hlen
  generalize startLoaded env f len s = t at hsamples hbytes
  have hunit : f.bits / 8 = f.bytesPerSample := hf.bytesPerSample.symm
  rw [hunit]
  by_cases hshort : len < 2147483648
  · rw [if_pos hshort] at hbytes
    have hcount : asSigned (f.bytesToSamples len) = ((len / f.bytesPerSample : Nat) : Int) := by
      have hle : len / f.bytesPerSample ≤ len := Nat.div_le_self _ _
      rw [PlayingFile.bytesToSamples, asSigned, if_pos (by omega)]
    rw [hcount] at hsamples
    by_cases hlong : dmaBufferSize < len
    · rw [if_pos (by omega)]
      refine iff_of_true ⟨hsamples ▸ Int.natCast_nonneg _, hbytes ▸ Int.natCast_nonneg _, by decide⟩ ⟨?_, hshort⟩
      rcases bytesPerSample_cases hf with ⟨-, hu⟩ | ⟨-, hu⟩
      · rw [hu]
        exact Nat.le_of_lt (Nat.lt_of_le_of_lt (by decide) hlong)
      · rw [hu]
        exact Nat.le_of_lt (Nat.lt_of_le_of_lt (by decide) hlong)
    · have hnone : ((len - dmaBufferSize : Nat) : Int) = 0 := by omega
      rw [hnone] at hbytes
      rw [if_neg (by omega)]
      have hdiv : f.bytesPerSample ≤ len ↔ 0 < len / f.bytesPerSample :=
        (Nat.div_pos_iff.trans (and_iff_right (Nat.pos_of_ne_zero hf.divisors.1))).symm
      refine ⟨fun h => ⟨hdiv.2 ?_, hshort⟩, fun h => ?_⟩
      · have hpos := h.samples
        rw [hsamples] at hpos
        omega
      · have hpos := hdiv.1 h.1
        have hle : len / f.bytesPerSample ≤ len := Nat.div_le_self _ _
        have hsize : dmaBufferSize = 8192 := rfl
        refine ⟨by omega, by omega, ?_⟩
        rw [hsamples, asUnsigned]
        omega
  · rw [if_neg hshort] at hbytes
    rw [if_neg (by omega)]
    refine iff_of_false (fun h => ?_) fun h => hshort h.2
    have hnonneg := h.bytes
    omega

/-- The driver has a supported format and no negative number of bytes when playback has started. -/
theorem startPlayback_counting (env : SoundEnv) {f : PlayingFile} {len : Nat} (s : Sound) (hf : f.Valid)
    (hshort : len < 2147483648) : (startPlayback env f len s).Counting := by
  obtain ⟨-, hbytes, pos, hfile⟩ := startLoaded_counters env f len s (by omega)
  rw [if_pos hshort] at hbytes
  obtain ⟨t, ht, hstart⟩ := startPlayback_eq env f len s
  have hcounting : t.Counting := by
    have hloaded : (startLoaded env f len s).Counting := by
      refine ⟨?_, ?_⟩
      · rw [hfile]
        exact hf.ofPos pos
      · rw [hbytes]
        exact Int.natCast_nonneg _
    rw [ht]
    split
    · obtain ⟨dma, dsp, heq⟩ := sbAutoInitPlayback_eq env (startLoaded env f len s)
      rw [heq]
      exact ⟨hloaded.valid, hloaded.bytes⟩
    · obtain ⟨dma, dsp, heq⟩ := sbSingleCyclePlayback_eq env (startLoaded env f len s)
      rw [heq]
      exact ⟨hloaded.valid, hloaded.bytes⟩
  rw [hstart]
  split
  · exact ⟨hcounting.valid, hcounting.bytes⟩
  · exact ⟨hcounting.valid, hcounting.bytes⟩

/-- When everything is in range, from the first programming of playback on. -/
theorem playsInRange_iff {env : SoundEnv} {f : PlayingFile} {len : Nat} {s : Sound} (hf : f.Valid) (hlen : len < 2 ^ 32) :
    PlaysInRange env f len s ↔ f.rate ≠ 0 ∧ f.bits / 8 ≤ len ∧ len < 2147483648 := by
  have hstart := start_in_range env s hf hlen
  refine ⟨fun h => ⟨h.divisors.2.2, hstart.1 h.start⟩, fun ⟨hrate, hrange⟩ => ?_⟩
  refine ⟨⟨hf.divisors.1, hf.divisors.2, hrate⟩, hstart.2 hrange, fun t ht => ?_⟩
  have hcounting := (startPlayback_counting env s hf hrange.2).later ht
  exact ⟨hcounting.valid.divisors.1, hcounting.valid.divisors.2, fun u hu => hcounting.handlerSingle hu⟩

end Sound

open Sound

/-- For a file that passes the format checks, no later division is by zero, and whenever playback is programmed the counters are
not negative and the length fits the register of the DMA controller, exactly when the rate is not zero and the data is at least
one sample and shorter than half of the 32-bit numbers. -/
theorem playback_in_range (env : SoundEnv) (s s' : Sound) (f : PlayingFile) (len : Nat)
    (h : (readChunks env).run (clearBuffer s) = .ok (f, len) s') :
    PlaysInRange env f len s' ↔ f.rate ≠ 0 ∧ f.bits / 8 ≤ len ∧ len < 2147483648 :=
  playsInRange_iff (readChunks_spec h).2 (readChunks_length h)

theorem playback_in_range_short :
    PlaysInRange shortEnv shortFile 8 (clearBuffer silent) ↔
      shortFile.rate ≠ 0 ∧ shortFile.bits / 8 ≤ 8 ∧ 8 < 2147483648 :=
  playback_in_range shortEnv silent (clearBuffer silent) shortFile 8 short_chunks

/-- A WAV file whose data chunk is empty. -/
def emptyWav : List UInt8 :=
  [0x52, 0x49, 0x46, 0x46, 36, 0, 0, 0, 0x57, 0x41, 0x56, 0x45,
    0x66, 0x6D, 0x74, 0x20, 16, 0, 0, 0, 1, 0, 1, 0, 0x22, 0x56, 0, 0, 0x22, 0x56, 0, 0, 1, 0, 8, 0,
    0x64, 0x61, 0x74, 0x61, 0, 0, 0, 0]

/-- The machine that plays it. -/
def emptyEnv : SoundEnv := { shortEnv with fsReadFile := fun pos n => (emptyWav.drop pos).take n }

/-- The file passes the checks, and the card is told to play the remaining samples, of which there are none, less one: the length
does not fit its register. -/
theorem playback_no_samples : (readChunks emptyEnv).run (clearBuffer silent) = .ok (shortFile, 0) (clearBuffer silent) ∧
    asUnsigned ((startLoaded emptyEnv shortFile 0 (clearBuffer silent)).play.remainingSamples - 1) = 0xFFFFFFFF ∧
    ¬PlaysInRange emptyEnv shortFile 0 (clearBuffer silent) := by
  have hchunks : (readChunks emptyEnv).run (clearBuffer silent) = .ok (shortFile, 0) (clearBuffer silent) := rfl
  refine ⟨hchunks, by decide +kernel, fun h => ?_⟩
  have hrange := (playsInRange_iff (readChunks_spec hchunks).2 (readChunks_length hchunks)).1 h
  exact absurd hrange.2.1 (by decide)

end NanoS32
