import NanoS32.Lemmas.Bytes
import NanoS32.Lemmas.Sector
import NanoS32.Lemmas.Rules
import NanoS32.Fs.Small

/-!
# Failed transfers

How `fs_write_file` reports the failure of a sector transfer, for any sequence of failures. The functions that work on the table
turn every status into `ERROR_IO`; the transfers of the file's data are the only ones whose status is returned as it is.
-/

namespace NanoS32

open Prog

/-- No transfer has failed from the first state to the second. -/
def noFault : Frame Sys where
  rel s s' := ∃ done, s.faults = done ++ s'.faults ∧ ∀ f ∈ done, f.status = noError
  refl s := ⟨[], rfl, nofun⟩
  trans := by
    rintro s s' s'' ⟨done, h, hn⟩ ⟨done', h', hn'⟩
    refine ⟨done ++ done', by rw [h, h', List.append_assoc], fun f hf => ?_⟩
    rcases List.mem_append.1 hf with hf | hf
    · exact hn f hf
    · exact hn' f hf

/-- A transfer has failed from the first state to the second. -/
def Failed (s s' : Sys) : Prop := ∃ done, s.faults = done ++ s'.faults ∧ ∃ f ∈ done, f.status ≠ noError

/-- All statuses are those of one of the two drivers: BIOS codes, or the codes of the ATA functions. -/
def OneDriver (faults : List Fault) : Prop :=
  (∀ f ∈ faults, f.status ≤ 255) ∨
    ∀ f ∈ faults, f.status = noError ∨ f.status = errorIo ∨ f.status = errorNotAvailable

/-- The status with which a transfer of `n` bytes at `offset` inside a block ends: a whole block is written, a part is read and
written back, and the two statuses are added. -/
def transferStatus (offset n : Nat) (faults : List Fault) : Nat :=
  if offset = 0 ∧ n = blockSize then pending faults else wrap32 (pending faults + pending (faults.drop 1))

/-- The sector transfers of such a transfer. -/
def transferCount (offset n : Nat) : Nat := if offset = 0 ∧ n = blockSize then 1 else 2

/-! ## The transfer of a sector -/

/-- A transfer that ends with `NO_ERROR` is not a failure. -/
theorem noFault_of_pending {s s' : Sys} (h : s'.faults = s.faults.drop 1) (hp : pending s.faults = noError) :
    noFault.rel s s' := by
  refine ⟨s.faults.take 1, by rw [h, List.take_append_drop], fun f hf => ?_⟩
  cases hs : s.faults with
  | nil =>
    rw [hs] at hf
    cases hf
  | cons g rest =>
    rw [hs] at hf hp
    obtain rfl : f = g := by simpa using hf
    exact hp

theorem failed_of_pending {s s' : Sys} (h : s'.faults = s.faults.drop 1) (hp : pending s.faults ≠ noError) : Failed s s' := by
  cases hs : s.faults with
  | nil =>
    rw [hs] at hp
    exact absurd rfl hp
  | cons f rest =>
    rw [hs] at hp h
    exact ⟨[f], by rw [hs, h]; rfl, f, by simp, hp⟩

theorem failed_of_noFault {s s' s'' : Sys} (h : noFault.rel s s') (h' : Failed s' s'') : Failed s s'' := by
  obtain ⟨done, hd, -⟩ := h
  obtain ⟨done', hd', f, hf, hst⟩ := h'
  exact ⟨done ++ done', by rw [hd, hd', List.append_assoc], f, List.mem_append.2 (Or.inr hf), hst⟩

theorem not_failed_of_noFault {s s' : Sys} (h : noFault.rel s s') : ¬Failed s s' := by
  rintro ⟨done', hd', f, hf, hst⟩
  obtain ⟨done, hd, hok⟩ := h
  have heq : done' = done := List.append_cancel_right (hd'.symm.trans hd)
  exact hst (hok f (heq ▸ hf))

theorem OneDriver.of_noFault {s s' : Sys} (h : noFault.rel s s') (hd : OneDriver s.faults) : OneDriver s'.faults := by
  obtain ⟨done, he, -⟩ := h
  have hmem : ∀ f ∈ s'.faults, f ∈ s.faults := fun f hf => he ▸ List.mem_append.2 (Or.inr hf)
  exact hd.imp (fun h f hf => h f (hmem f hf)) fun h f hf => h f (hmem f hf)

/-! ## The functions that work on the table -/

/-- The rules for programs that keep on without a failure, or report it. -/
def reportRules : Rules Sys := noFault.reports errorAny errorNotFound

/-- A sector that is read, with its status checked. -/
theorem ioDiskReadBlock_reports {α : Type} (env : Env) (d k : Nat) {f : Block → FsM α} (hf : ∀ b, reportRules.Holds (f b)) :
    reportRules.Holds (ioDiskReadBlock env d k >>= fun p => failIf (p.1 ≠ noError) errorIo >>= fun _ => f p.2) := by
  intro s
  by_cases hp : (env.diskInfo d).size = 0
  · rw [ioDiskReadBlock, if_pos hp, bind_ok (run_pure _ _), run_failIf_bind, if_pos (by decide)]
    exact ⟨by decide, fun h => absurd h (by decide)⟩
  · obtain ⟨b, s', hr, hs'⟩ := readSector_pending d k s
    rw [ioDiskReadBlock, if_neg hp, bind_ok hr, run_failIf_bind]
    by_cases h0 : pending s.faults = noError
    · rw [if_neg (not_not.2 h0)]
      exact (hf b s').trans (noFault_of_pending hs' h0)
    · rw [if_pos h0]
      exact ⟨by decide, fun h => absurd h (by decide)⟩

theorem reads_reports (env : Env) : Reads reportRules env := by
  refine ⟨fun _ h => h, fun _ => Iff.rfl, fun d => ?_, fun d n => ?_⟩
  · exact ioDiskReadBlock_reports env d _ fun b => reportRules.pure _
  · exact ioDiskReadBlock_reports env d (sectorOf (entryBlock n)) (f := fun b => failIf (errorAny ≤ n) n >>= fun _ => pure b)
      fun b => reportRules.bind (reportRules.failIf fun h => h) fun _ => reportRules.pure b

theorem writes_reports (env : Env) (d : Nat) : Writes reportRules env d := by
  refine ⟨reads_reports env, fun n e s => ?_, fun s => ?_⟩
  · by_cases hp : (env.diskInfo d).size = 0
    · rw [writeEntry, ioDiskWriteBlock, if_pos hp, bind_ok (run_pure _ _), run_failIf, if_pos (by decide)]
      exact ⟨by decide, fun h => absurd h (by decide)⟩
    · obtain ⟨s', hr, hs'⟩ := writeSector_pending d (sectorOf (entryBlock n)) e s
      rw [writeEntry, ioDiskWriteBlock, if_neg hp, bind_ok hr, run_failIf]
      by_cases h0 : pending s.faults = noError
      · rw [if_neg (not_not.2 h0)]
        exact noFault_of_pending hs' h0
      · rw [if_pos h0]
        exact ⟨by decide, fun h => absurd h (by decide)⟩
  · exact ⟨[], rfl, nofun⟩

/-! ## The transfers of data -/

/-- A transfer of data inside one block. -/
theorem writeDisk_status (env : Env) (d block offset : Nat) (buff : List UInt8) (s : Sys)
    (hp : (env.diskInfo d).size ≠ 0) (ho : offset < 512) (hn : offset + buff.length ≤ 512) (hpos : 0 < buff.length) :
    ∃ s', (writeDisk env d block offset buff).run s = .ok (transferStatus offset buff.length s.faults) s' ∧
      s'.faults = s.faults.drop (transferCount offset buff.length) := by
  have hmod : offset % diskSectorSize = offset := by simp only [diskSectorSize]; omega
  generalize hsec : wrap32 (wrap32 (sectorOf block + offset / diskSectorSize) + offset / diskSectorSize) = sector
  have hself : wrap32 sector = sector := by
    rw [← hsec]
    exact Nat.mod_mod _ _
  -- a part of a block: read, and write back
  have hpart : ∀ g : Block → Block, ∃ s', s'.faults = s.faults.drop 2 ∧ ∀ k : Nat → FsM Nat,
      (readSector d sector >>= fun p => writeSector d sector (g p.2) >>= fun r2 => k (wrap32 (p.1 + r2))).run s =
        (k (wrap32 (pending s.faults + pending (s.faults.drop 1)))).run s' := by
    intro g
    obtain ⟨b, s1, h1, hs1⟩ := readSector_pending d sector s
    obtain ⟨s2, h2, hs2⟩ := writeSector_pending d sector (g b) s1
    refine ⟨s2, by rw [hs2, hs1, List.drop_drop], fun k => ?_⟩
    rw [bind_ok h1, bind_ok h2, hs1]
  simp only [writeDisk, ioDiskWrite, hp, if_false, hmod, hsec]
  by_cases h0 : offset = 0
  · subst h0
    simp only [if_true, diskSectorSize, Nat.sub_zero]
    rw [bind_ok (run_pure _ _)]
    by_cases hfull : buff.length = 512
    · simp only [hfull, Nat.reduceDiv, ne_eq, Nat.one_ne_zero, not_false_eq_true, true_and, if_true, Nat.one_mul, Nat.sub_self,
        not_true_eq_false, false_and, if_false, List.drop_zero]
      obtain ⟨s', h, hs'⟩ := writeSector_pending d sector (Block.ofBytes fun i => buff.getD i 0) s
      refine ⟨s', ?_, hs'⟩
      rw [diskWriteSector]
      by_cases hz : pending s.faults = noError
      · rw [bind_ok ((bind_ok h).trans (by rw [if_neg (not_not.2 hz)]; rfl))]
        rw [transferStatus, if_pos ⟨rfl, rfl⟩, hz]
        rfl
      · rw [bind_ok ((bind_ok h).trans (by rw [if_pos hz]; rfl))]
        rw [transferStatus, if_pos ⟨rfl, rfl⟩]
        rfl
    · have hd : buff.length / 512 = 0 := by omega
      have hne : ¬(0 = 0 ∧ buff.length = blockSize) := fun h => hfull h.2
      simp only [hd, ne_eq, not_true_eq_false, false_and, if_false, Nat.zero_mul, Nat.sub_zero, Nat.add_zero, List.drop_zero,
        hself]
      rw [bind_ok (run_pure _ _), if_pos ⟨by omega, rfl⟩, transferStatus, transferCount, if_neg hne, if_neg hne]
      obtain ⟨s', hs', h⟩ := hpart fun b => b.splice 0 buff
      exact ⟨s', h pure, hs'⟩
  · have hmin : min (diskSectorSize - offset) buff.length = buff.length := by simp only [diskSectorSize]; omega
    have hne : ¬(offset = 0 ∧ buff.length = blockSize) := fun h => h0 h.1
    simp only [h0, if_false, hmin, Nat.sub_self, Nat.zero_div, ne_eq, not_true_eq_false, false_and, Nat.zero_mul,
      List.take_length]
    rw [transferStatus, transferCount, if_neg hne, if_neg hne]
    obtain ⟨s', hs', h⟩ := hpart fun b => b.splice offset buff
    exact ⟨s', h fun r => pure r >>= fun r => pure r >>= fun r => pure r, hs'⟩

/-- What the statuses of a transfer of data say: `NO_ERROR` is returned only when no sector transfer has failed. -/
theorem transferStatus_spec {offset n : Nat} {s s' : Sys} (hd : OneDriver s.faults)
    (hs : s'.faults = s.faults.drop (transferCount offset n)) :
    (transferStatus offset n s.faults = noError → noFault.rel s s') ∧
      (transferStatus offset n s.faults ≠ noError → Failed s s') := by
  rw [transferCount] at hs
  rw [transferStatus]
  by_cases hw : offset = 0 ∧ n = blockSize
  · rw [if_pos hw] at hs ⊢
    exact ⟨noFault_of_pending hs, failed_of_pending hs⟩
  · rw [if_neg hw] at hs ⊢
    -- the state between the two transfers
    obtain ⟨s1, hs1⟩ : ∃ s1 : Sys, s1.faults = s.faults.drop 1 := ⟨{ s with faults := s.faults.drop 1 }, rfl⟩
    have hs2 : s'.faults = s1.faults.drop 1 := by rw [hs1, List.drop_drop, hs]
    rw [← hs1]
    have hsum : wrap32 (pending s.faults + pending s1.faults) = noError ↔
        pending s.faults = noError ∧ pending s1.faults = noError := by
      have hmem : ∀ l : List Fault, (∀ f ∈ l, f ∈ s.faults) → pending l = noError ∨ ∃ f ∈ s.faults, pending l = f.status := by
        intro l hl
        cases l with
        | nil => exact Or.inl rfl
        | cons f l => exact Or.inr ⟨f, hl f (List.mem_cons_self ..), rfl⟩
      have h1 := hmem s.faults fun f hf => hf
      have h2 := hmem s1.faults fun f hf => List.mem_of_mem_drop (hs1 ▸ hf)
      have hrange : ∀ l : List Fault, (pending l = noError ∨ ∃ f ∈ s.faults, pending l = f.status) →
          (∀ f ∈ s.faults, f.status ≤ 255) → pending l ≤ 255 := by
        rintro l (h | ⟨f, hf, h⟩) hb
        · rw [h]
          decide
        · rw [h]
          exact hb f hf
      have hata : ∀ l : List Fault, (pending l = noError ∨ ∃ f ∈ s.faults, pending l = f.status) →
          (∀ f ∈ s.faults, f.status = noError ∨ f.status = errorIo ∨ f.status = errorNotAvailable) →
            pending l = noError ∨ pending l = errorIo ∨ pending l = errorNotAvailable := by
        rintro l (h | ⟨f, hf, h⟩) hb
        · exact Or.inl h
        · rw [h]
          exact hb f hf
      rcases hd with hb | hb
      · have := hrange _ h1 hb
        have := hrange _ h2 hb
        unfold wrap32 noError
        omega
      · rcases hata _ h1 hb with h | h | h <;> rcases hata _ h2 hb with h' | h' | h' <;> rw [h, h'] <;> decide
    refine ⟨fun h => ?_, fun h => ?_⟩
    · obtain ⟨h1, h2⟩ := hsum.1 h
      exact noFault.trans _ _ _ (noFault_of_pending hs1 h1) (noFault_of_pending hs2 h2)
    · by_cases h1 : pending s.faults = noError
      · have h2 : pending s1.faults ≠ noError := fun h2 => h (hsum.2 ⟨h1, h2⟩)
        exact failed_of_noFault (noFault_of_pending hs1 h1) (failed_of_pending hs2 h2)
      · obtain ⟨done, hd, f, hf, hst⟩ := failed_of_pending hs1 h1
        refine ⟨done ++ s1.faults.take 1, ?_, f, List.mem_append.2 (Or.inl hf), hst⟩
        rw [hd, hs2, List.append_assoc, List.take_append_drop]

/-- The walk along the chain keeps the offset inside a block. -/
theorem writeSkip_offset (env : Env) (d : Nat) : ∀ (k : Nat) (e : SfsEntry) (offset block : Nat) (s : Sys) {r s'},
    (writeSkip env d k e offset block).run s = .ok r s' → r.2.1 % blockSize = offset % blockSize := by
  intro k
  induction k with
  | zero =>
    intro e offset block s r s' h
    obtain ⟨rfl, -⟩ : (e, offset, block) = r ∧ s = s' := by simpa [writeSkip] using h
    rfl
  | succ k ih =>
    intro e offset block s r s' h
    rw [writeSkip] at h
    split at h
    · cases h
    · rw [run_bind] at h
      cases hg : (getEntryN env d e.next.toNat).run s with
      | ok e' s1 =>
        rw [hg] at h
        rw [ih _ _ _ _ h]
        simp only [sub32, wrap32, sfsEntryRefs, blockSize]
        omega
      | error code s1 =>
        rw [hg] at h
        cases h
      | stuck s1 =>
        rw [hg] at h
        cases h

/-- The transfer of data that a turn of the data loop makes, when the walk along the chain has come to `entry`. -/
structure Turn where
  entry : SfsEntry
  offset : Nat
  block : Nat
  toCopy : Nat

/-- The turn is reached: the walk succeeds, and the block is not a system block. -/
def Turn.Reached (t : Turn) (env : Env) (disk : Nat) (entry : SfsEntry) (offset : Nat) (buff : List UInt8) (s s1 : Sys) : Prop :=
  buff ≠ [] ∧ t.toCopy = min buff.length (blockSize - offset % blockSize) ∧
    (writeSkip env disk (sub32 (neededBlocks (wrap32 (offset + 1))) 1 / sfsEntryRefs) entry offset
      (sub32 (neededBlocks (wrap32 (offset + 1))) 1)).run s = .ok (t.entry, t.offset, t.block) s1 ∧
    ¬(t.entry.refAt t.block = 0 ∨ t.entry.refAt t.block = 1) ∧ (env.diskInfo disk).size ≠ 0

/-- The status with which its transfer is going to end. -/
def Turn.status (t : Turn) (s1 : Sys) : Nat := transferStatus (t.offset % blockSize) t.toCopy s1.faults

/-- Its transfer. -/
def Turn.transfer (t : Turn) (env : Env) (disk : Nat) (buff : List UInt8) : FsM Nat :=
  writeDisk env disk (t.entry.refAt t.block) (t.offset % blockSize) (buff.take t.toCopy)

/-- In the data loop of `fs_write_file`, from the state on: a transfer of data is reached whose status, neither `NO_ERROR` nor a
special code, is about to be returned. -/
inductive LoopFault (env : Env) (disk : Nat) : SfsEntry → Nat → List UInt8 → Sys → Prop where
  | here {entry offset buff s} (t : Turn) (s1 : Sys) (h : t.Reached env disk entry offset buff s s1)
      (hbad : t.status s1 ≠ noError ∧ t.status s1 < errorAny) : LoopFault env disk entry offset buff s
  | later {entry offset buff s} (t : Turn) (s1 s2 : Sys) (h : t.Reached env disk entry offset buff s s1)
      (hok : (t.transfer env disk buff).run s1 = .ok noError s2)
      (hrest : LoopFault env disk t.entry (wrap32 (t.offset + t.toCopy)) (buff.drop t.toCopy) s2) :
      LoopFault env disk entry offset buff s

/-- A turn is determined by the state. -/
theorem Turn.Reached.unique {env : Env} {d : Nat} {e : SfsEntry} {offset : Nat} {buff : List UInt8} {s s1 s1' : Sys}
    {t t' : Turn} (h : t.Reached env d e offset buff s s1) (h' : t'.Reached env d e offset buff s s1') : t = t' ∧ s1 = s1' := by
  obtain ⟨-, hc, hr, -, -⟩ := h
  obtain ⟨-, hc', hr', -, -⟩ := h'
  rw [hr] at hr'
  simp only [Outcome.ok.injEq, Prod.mk.injEq] at hr'
  obtain ⟨⟨h1, h2, h3⟩, rfl⟩ := hr'
  cases t
  cases t'
  simp only [Turn.mk.injEq] at *
  exact ⟨⟨h1, h2, h3, hc.trans hc'.symm⟩, trivial⟩

/-- A fault in the loop starts with a turn that is reached. -/
theorem LoopFault.reached {env : Env} {d : Nat} {e : SfsEntry} {offset : Nat} {buff : List UInt8} {s : Sys}
    (h : LoopFault env d e offset buff s) : ∃ t s1, Turn.Reached t env d e offset buff s s1 := by
  cases h with
  | here t s1 h hbad => exact ⟨t, s1, h⟩
  | later t s1 s2 h hok hrest => exact ⟨t, s1, h⟩

/-- A fault in the loop is one of the turn that is reached, or one after it. -/
theorem Turn.Reached.loopFault_iff {env : Env} {d : Nat} {e : SfsEntry} {offset : Nat} {buff : List UInt8} {s s1 : Sys}
    {t : Turn} (h : t.Reached env d e offset buff s s1) :
    LoopFault env d e offset buff s ↔ t.status s1 ≠ noError ∧ t.status s1 < errorAny ∨
      ∃ s2, (t.transfer env d buff).run s1 = .ok noError s2 ∧
        LoopFault env d t.entry (wrap32 (t.offset + t.toCopy)) (buff.drop t.toCopy) s2 := by
  refine ⟨fun hf => ?_, ?_⟩
  · cases hf with
    | here t' s1' h' hbad =>
      obtain ⟨rfl, rfl⟩ := h.unique h'
      exact Or.inl hbad
    | later t' s1' s2 h' hok hrest =>
      obtain ⟨rfl, rfl⟩ := h.unique h'
      exact Or.inr ⟨s2, hok, hrest⟩
  · rintro (hbad | ⟨s2, hok, hrest⟩)
    · exact .here t s1 h hbad
    · exact .later t s1 s2 h hok hrest

/-- The transfer of a turn. -/
theorem Turn.Reached.transfer_run {env : Env} {d : Nat} {e : SfsEntry} {offset : Nat} {buff : List UInt8} {s s1 : Sys}
    {t : Turn} (h : t.Reached env d e offset buff s s1) (hd : OneDriver s1.faults) :
    ∃ s2, (t.transfer env d buff).run s1 = .ok (t.status s1) s2 ∧
      (t.status s1 = noError → noFault.rel s1 s2) ∧ (t.status s1 ≠ noError → Failed s1 s2) := by
  obtain ⟨hnil, htc, hr, -, hp⟩ := h
  have hmod : t.offset % blockSize = offset % blockSize := writeSkip_offset env d _ _ _ _ _ hr
  have hpos : 0 < buff.length := List.length_pos_iff.2 hnil
  have hblk : offset % blockSize < 512 := Nat.mod_lt _ (by decide)
  have hb512 : blockSize = 512 := rfl
  have hlen : (buff.take t.toCopy).length = t.toCopy := by
    rw [List.length_take]
    omega
  obtain ⟨s2, hw, hs2⟩ := writeDisk_status env d (t.entry.refAt t.block) (t.offset % blockSize)
    (buff.take t.toCopy) s1 hp (by rw [hmod]; exact hblk) (by rw [hmod, hlen]; omega) (by rw [hlen]; omega)
  rw [hlen] at hw hs2
  exact ⟨s2, hw, transferStatus_spec hd hs2⟩

/-- A turn of the data loop, with the block it starts at and the bytes it copies. -/
theorem writeLoop_turn (env : Env) (d fuel : Nat) (e : SfsEntry) {offset : Nat} {buff : List UInt8} (hnil : buff ≠ [])
    {current toCopy : Nat} (hcur : current = sub32 (neededBlocks (wrap32 (offset + 1))) 1)
    (hcopy : toCopy = min buff.length (blockSize - offset % blockSize)) :
    writeLoop env d (fuel + 1) e offset buff =
      writeSkip env d (current / sfsEntryRefs) e offset current >>= fun p =>
        failIf (p.1.refAt p.2.2 = 0 ∨ p.1.refAt p.2.2 = 1) errorIo >>= fun _ =>
          writeDisk env d (p.1.refAt p.2.2) (p.2.1 % blockSize) (buff.take toCopy) >>= fun result =>
            if result ≠ noError then pure (some result)
            else writeLoop env d fuel p.1 (wrap32 (p.2.1 + toCopy)) (buff.drop toCopy) := by
  simp only [writeLoop, hnil, if_false, ← hcur, ← hcopy]

/-- How the data loop ends: without a failure, with a special code, or with a status, which is below `ERROR_ANY` exactly in the
case above. -/
theorem writeLoop_spec (env : Env) (d : Nat) : ∀ (fuel : Nat) (e : SfsEntry) (offset : Nat) (buff : List UInt8) (s : Sys),
    OneDriver s.faults → buff.length ≤ fuel →
    match (writeLoop env d fuel e offset buff).run s with
    | .ok none s' => noFault.rel s s' ∧ ¬LoopFault env d e offset buff s
    | .ok (some r) s' => (r < errorAny ↔ LoopFault env d e offset buff s) ∧ (r < errorAny → Failed s s')
    | .error code _ => errorAny ≤ code ∧ ¬LoopFault env d e offset buff s
    | .stuck s' => noFault.rel s s' ∧ ¬LoopFault env d e offset buff s := by
  intro fuel
  induction fuel with
  | zero =>
    intro e offset buff s _ hlen
    obtain rfl : buff = [] := List.length_eq_zero_iff.1 (Nat.le_zero.1 hlen)
    refine ⟨noFault.refl s, fun h => ?_⟩
    obtain ⟨t, s1, hr⟩ := h.reached
    exact hr.1 rfl
  | succ fuel ih =>
    intro e offset buff s hd hlen
    by_cases hnil : buff = []
    · rw [writeLoop, if_pos hnil]
      refine ⟨noFault.refl s, fun h => ?_⟩
      obtain ⟨t, s1, hr⟩ := h.reached
      exact hr.1 hnil
    obtain ⟨current, hcur⟩ : ∃ current, current = sub32 (neededBlocks (wrap32 (offset + 1))) 1 := ⟨_, rfl⟩
    obtain ⟨toCopy, hcopy⟩ : ∃ toCopy, toCopy = min buff.length (blockSize - offset % blockSize) := ⟨_, rfl⟩
    rw [writeLoop_turn env d fuel e hnil hcur hcopy]
    have hreach : ∀ t s1, Turn.Reached t env d e offset buff s s1 → t.toCopy = toCopy ∧
        (writeSkip env d (current / sfsEntryRefs) e offset current).run s = .ok (t.entry, t.offset, t.block) s1 ∧
        ¬(t.entry.refAt t.block = 0 ∨ t.entry.refAt t.block = 1) ∧ (env.diskInfo d).size ≠ 0 := by
      rintro t s1 ⟨-, h⟩
      rw [← hcur, ← hcopy] at h
      exact h
    have hskip := writeSkip_holds (writes_reports env d) (current / sfsEntryRefs) e offset current s
    cases hr : (writeSkip env d (current / sfsEntryRefs) e offset current).run s with
    | error code s1 =>
      rw [hr] at hskip
      rw [bind_error hr]
      refine ⟨hskip.1, fun h => ?_⟩
      obtain ⟨t, s1, ht⟩ := h.reached
      have h := (hreach t s1 ht).2.1
      rw [hr] at h
      cases h
    | stuck s1 =>
      rw [hr] at hskip
      rw [run_bind, hr]
      refine ⟨hskip, fun h => ?_⟩
      obtain ⟨t, s1, ht⟩ := h.reached
      have h := (hreach t s1 ht).2.1
      rw [hr] at h
      cases h
    | ok r s1 =>
      obtain ⟨e', o', b'⟩ := r
      rw [hr] at hskip
      rw [bind_ok hr, run_failIf_bind]
      by_cases href : e'.refAt b' = 0 ∨ e'.refAt b' = 1
      · rw [if_pos href]
        refine ⟨by decide, fun h => ?_⟩
        obtain ⟨t, s1, ht⟩ := h.reached
        obtain ⟨-, h, hno, -⟩ := hreach t s1 ht
        rw [hr] at h
        cases h
        exact hno href
      rw [if_neg href]
      by_cases hp : (env.diskInfo d).size = 0
      · have hw : (writeDisk env d (e'.refAt b') (o' % blockSize) (buff.take toCopy)).run s1 = .ok errorIo s1 := by
          simp only [writeDisk, ioDiskWrite, hp, if_true]
          rfl
        rw [bind_ok hw, if_pos (by decide)]
        refine ⟨⟨fun h => absurd h (by decide), fun h => ?_⟩, fun h => absurd h (by decide)⟩
        obtain ⟨t, s1, ht⟩ := h.reached
        exact absurd hp (hreach t s1 ht).2.2.2
      -- the turn is reached
      obtain ⟨t, rfl, rfl, rfl, rfl, ht⟩ : ∃ t : Turn, t.entry = e' ∧ t.offset = o' ∧ t.block = b' ∧ t.toCopy = toCopy ∧
          t.Reached env d e offset buff s s1 := by
        refine ⟨⟨e', o', b', toCopy⟩, rfl, rfl, rfl, rfl, hnil, hcopy, ?_, href, hp⟩
        rw [← hcur]
        exact hr
      have htc : t.toCopy ≠ 0 := by
        have hpos : 0 < buff.length := List.length_pos_iff.2 hnil
        have hblk : offset % blockSize < 512 := Nat.mod_lt _ (by decide)
        have hb512 : blockSize = 512 := rfl
        omega
      obtain ⟨s2, hw, hquiet, hloud⟩ := ht.transfer_run (hd.of_noFault hskip)
      have hw' : (writeDisk env d (t.entry.refAt t.block) (t.offset % blockSize) (buff.take t.toCopy)).run s1 =
        .ok (t.status s1) s2 := hw
      rw [bind_ok hw', ht.loopFault_iff]
      by_cases hst : t.status s1 = noError
      · rw [if_neg (not_not.2 hst)]
        have hrel := noFault.trans _ _ _ hskip (hquiet hst)
        have hrest := ih t.entry (wrap32 (t.offset + t.toCopy)) (buff.drop t.toCopy) s2 (hd.of_noFault hrel)
          (by rw [List.length_drop]; omega)
        have hiff : (t.status s1 ≠ noError ∧ t.status s1 < errorAny ∨
            ∃ s2, (t.transfer env d buff).run s1 = .ok noError s2 ∧
              LoopFault env d t.entry (wrap32 (t.offset + t.toCopy)) (buff.drop t.toCopy) s2) ↔
            LoopFault env d t.entry (wrap32 (t.offset + t.toCopy)) (buff.drop t.toCopy) s2 := by
          refine ⟨?_, fun h => Or.inr ⟨s2, by rw [hw, hst], h⟩⟩
          rintro (⟨h0, -⟩ | ⟨s2', hw', h'⟩)
          · exact absurd hst h0
          · rw [hw] at hw'
            simp only [Outcome.ok.injEq] at hw'
            rw [hw'.2]
            exact h'
        rw [hiff]
        cases hl : (writeLoop env d fuel t.entry (wrap32 (t.offset + t.toCopy)) (buff.drop t.toCopy)).run s2 with
        | ok status s3 =>
          rw [hl] at hrest
          cases status with
          | none => exact ⟨noFault.trans _ _ _ hrel hrest.1, hrest.2⟩
          | some r => exact ⟨hrest.1, fun h => failed_of_noFault hrel (hrest.2 h)⟩
        | error code s3 =>
          rw [hl] at hrest
          exact hrest
        | stuck s3 =>
          rw [hl] at hrest
          exact ⟨noFault.trans _ _ _ hrel hrest.1, hrest.2⟩
      · rw [if_pos hst]
        refine ⟨⟨fun h => Or.inl ⟨hst, h⟩, ?_⟩, fun _ => failed_of_noFault hskip (hloud hst)⟩
        rintro (⟨-, h⟩ | ⟨s2', hw', -⟩)
        · exact h
        · rw [hw] at hw'
          simp only [Outcome.ok.injEq] at hw'
          exact absurd hw'.1 hst

/-! ## The call -/

/-- In the call, after the file has been found or created and resized without a failure, a transfer of its data is reached whose
status is about to be returned. -/
def DataFault (env : Env) (buff : List UInt8) (path : CStr) (offset flags : Nat) (s : Sys) : Prop :=
  ∃ disk nentry entry path' s1 entry' s2, (openFile env path flags).run s = .ok (disk, nentry, entry, path') s1 ∧
    (resizeFile env disk nentry entry (wrap32 (offset + buff.length)) flags).run s1 = .ok entry' s2 ∧
    LoopFault env disk entry' offset buff s2

/-- The call reports its failures: when a transfer has failed it returns a special code, and when it returns a count, this is the
full count. While it has not returned, no transfer has failed. -/
def Reported (env : Env) (buff : List UInt8) (path : CStr) (offset flags : Nat) (s : Sys) : Prop :=
  match (fsWriteFile env buff path offset flags).run s with
  | .ok (written, _) s' => (Failed s s' → errorAny ≤ written) ∧ (written < errorAny → written = buff.length)
  | .error code _ => errorAny ≤ code
  | .stuck s' => ¬Failed s s'

/-- The part of the call after the file has been found or created and resized. -/
theorem writeRest_spec (env : Env) (buff : List UInt8) (d n : Nat) (e : SfsEntry) (offset : Nat) {s0 s : Sys}
    (h0 : noFault.rel s0 s) (hd : OneDriver s.faults) :
    match (writeLoop env d buff.length e offset buff >>= fun status => match status with
      | some result => pure result
      | none => setEntryTimeToCurrent env d n >>= fun _ => pure buff.length : FsM Nat).run s with
    | .ok written s' => ((Failed s0 s' → errorAny ≤ written) ∧ (written < errorAny → written = buff.length)) ↔
        ¬LoopFault env d e offset buff s
    | .error code _ => errorAny ≤ code ∧ ¬LoopFault env d e offset buff s
    | .stuck s' => noFault.rel s0 s' ∧ ¬LoopFault env d e offset buff s := by
  have hloop := writeLoop_spec env d buff.length e offset buff s hd (Nat.le_refl _)
  cases hl : (writeLoop env d buff.length e offset buff).run s with
  | error code s1 =>
    rw [hl] at hloop
    rw [bind_error hl]
    exact hloop
  | stuck s1 =>
    rw [hl] at hloop
    rw [run_bind, hl]
    exact ⟨noFault.trans _ _ _ h0 hloop.1, hloop.2⟩
  | ok status s1 =>
    rw [hl] at hloop
    rw [bind_ok hl]
    cases status with
    | some r =>
      obtain ⟨hiff, hfail⟩ := hloop
      rw [← hiff]
      refine ⟨fun h hlt => ?_, fun h => ⟨fun _ => Nat.le_of_not_lt h, fun hlt => absurd hlt h⟩⟩
      exact absurd (h.1 (failed_of_noFault h0 (hfail hlt))) (Nat.not_le_of_lt hlt)
    | none =>
      have htime := setEntryTime_holds (writes_reports env d) n s1
      cases ht : (setEntryTimeToCurrent env d n).run s1 with
      | ok _ s2 =>
        rw [ht] at htime
        simp only []
        rw [bind_ok ht]
        have hrel := noFault.trans _ _ _ h0 (noFault.trans _ _ _ hloop.1 htime)
        exact ⟨fun _ => hloop.2, fun _ => ⟨fun h => absurd h (not_failed_of_noFault hrel), fun _ => rfl⟩⟩
      | error code s2 =>
        rw [ht] at htime
        simp only []
        rw [bind_error ht]
        exact ⟨htime.1, hloop.2⟩
      | stuck s2 =>
        rw [ht] at htime
        simp only [run_bind, ht]
        exact ⟨noFault.trans _ _ _ h0 (noFault.trans _ _ _ hloop.1 htime), hloop.2⟩

/-- `fs_write_file` reports its failures exactly when no transfer of the file's data is about to return a status that is neither
`NO_ERROR` nor a special code. -/
theorem disk_faults_reported (env : Env) (buff : List UInt8) (path : CStr) (offset flags : Nat) (s : Sys)
    (hd : OneDriver s.faults) : Reported env buff path offset flags s ↔ ¬DataFault env buff path offset flags s := by
  have hopen := openFile_holds (fun d => writes_reports env d) path flags s
  have hno : (∀ p s1, (openFile env path flags).run s ≠ .ok p s1) → ¬DataFault env buff path offset flags s := by
    rintro h ⟨d, n, e, path', s1, e', s2, h1, -⟩
    exact h _ _ h1
  rw [Reported, fsWriteFile]
  cases ho : (openFile env path flags).run s with
  | error code s1 =>
    rw [ho] at hopen hno
    rw [bind_error ho]
    exact ⟨fun _ => hno nofun, fun _ => hopen.1⟩
  | stuck s1 =>
    rw [ho] at hopen hno
    rw [run_bind, ho]
    exact ⟨fun _ => hno nofun, fun _ => not_failed_of_noFault hopen⟩
  | ok p s1 =>
    obtain ⟨d, n, e, path'⟩ := p
    rw [ho] at hopen
    rw [bind_ok ho]
    have hresize := resizeFile_holds (writes_reports env d) n e (wrap32 (offset + buff.length)) flags s1
    have hd1 := hd.of_noFault hopen
    have hfault : DataFault env buff path offset flags s ↔ ∃ e' s2,
        (resizeFile env d n e (wrap32 (offset + buff.length)) flags).run s1 = .ok e' s2 ∧ LoopFault env d e' offset buff s2 := by
      refine ⟨?_, fun ⟨e', s2, h2, h3⟩ => ⟨d, n, e, path', s1, e', s2, ho, h2, h3⟩⟩
      rintro ⟨d', n', e₁, path₁, s₁, e', s2, h1, h2, h3⟩
      rw [ho] at h1
      cases h1
      exact ⟨e', s2, h2, h3⟩
    rw [hfault]
    simp only []
    cases hz : (resizeFile env d n e (wrap32 (offset + buff.length)) flags).run s1 with
    | error code s2 =>
      rw [hz] at hresize
      have hw : (writeFileAt env buff d n e offset flags).run s1 = .error code s2 := bind_error hz
      rw [bind_error hw]
      refine ⟨fun _ => ?_, fun _ => hresize.1⟩
      rintro ⟨e', s2', h, -⟩
      cases h
    | stuck s2 =>
      rw [hz] at hresize
      have hw : (writeFileAt env buff d n e offset flags).run s1 = .stuck s2 := by rw [writeFileAt, run_bind, hz]
      rw [run_bind, hw]
      refine ⟨fun _ => ?_, fun _ => not_failed_of_noFault (noFault.trans _ _ _ hopen hresize)⟩
      rintro ⟨e', s2', h, -⟩
      cases h
    | ok e' s2 =>
      rw [hz] at hresize
      have hrel := noFault.trans _ _ _ hopen hresize
      have hrest := writeRest_spec env buff d n e' offset hrel (hd.of_noFault hrel)
      have hone : (∃ e'' s2', Outcome.ok e' s2 = Outcome.ok e'' s2' ∧ LoopFault env d e'' offset buff s2') ↔
          LoopFault env d e' offset buff s2 := by
        refine ⟨?_, fun h => ⟨e', s2, rfl, h⟩⟩
        rintro ⟨e'', s2', h, hf⟩
        cases h
        exact hf
      rw [hone]
      have hw : (writeFileAt env buff d n e offset flags).run s1 =
          (writeLoop env d buff.length e' offset buff >>= fun status => match status with
            | some result => pure result
            | none => setEntryTimeToCurrent env d n >>= fun _ => pure buff.length : FsM Nat).run s2 := bind_ok hz
      rw [← hw] at hrest
      cases hv : (writeFileAt env buff d n e offset flags).run s1 with
      | ok written s3 =>
        rw [hv] at hrest
        rw [bind_ok hv]
        exact hrest
      | error code s3 =>
        rw [hv] at hrest
        rw [bind_error hv]
        exact ⟨fun _ => hrest.2, fun _ => hrest.1⟩
      | stuck s3 =>
        rw [hv] at hrest
        rw [run_bind, hv]
        exact ⟨fun _ => hrest.2, fun _ => not_failed_of_noFault hrest.1⟩

/-- The small machine, where the transfers after the next `n` fail: one with the given status, and no more. -/
def smallFault (n status : Nat) : Sys :=
  { smallSys with
    faults := List.replicate n { status := noError, buff := Block.zero, stored := false } ++
      [{ status := status, buff := Block.zero, stored := false }] }

theorem oneDriver_smallFault (n : Nat) {status : Nat} (h : status ≤ 255) : OneDriver (smallFault n status).faults := by
  refine Or.inl fun f hf => ?_
  rcases List.mem_append.1 hf with hf | hf
  · rw [(List.mem_replicate.1 hf).2]
    exact Nat.zero_le _
  · rw [List.mem_singleton.1 hf]
    exact h

theorem disk_faults_reported_table : Reported smallEnv [5] [102] 0 wfCreate (smallFault 3 4) ↔
    ¬DataFault smallEnv [5] [102] 0 wfCreate (smallFault 3 4) :=
  disk_faults_reported smallEnv [5] [102] 0 wfCreate (smallFault 3 4) (oneDriver_smallFault 3 (by decide))

/-- The value a call returns and the failures that are still to come. -/
def callResult (o : Outcome Sys (Nat × CStr)) : Nat × Nat :=
  match o with
  | .ok (written, _) s => (written, s.faults.length)
  | .error code s => (code, s.faults.length)
  | .stuck _ => (0, 0)

/-- The last transfer of the creation of a file with one byte, which writes this byte, fails with status 4, and the call returns
4; when it fails with status 1, the call returns the full count. -/
theorem disk_fault_unreported :
    (callResult ((fsWriteFile smallEnv [5] [102] 0 wfCreate).run (smallFault 28 1)) = (1, 0) ∧
      callResult ((fsWriteFile smallEnv [5] [102] 0 wfCreate).run (smallFault 28 4)) = (4, 0)) ∧
      ¬Reported smallEnv [5] [102] 0 wfCreate (smallFault 28 4) := by
  have hres : callResult ((fsWriteFile smallEnv [5] [102] 0 wfCreate).run (smallFault 28 4)) = (4, 0) := by decide +kernel
  refine ⟨⟨by decide +kernel, hres⟩, fun h => ?_⟩
  rw [Reported] at h
  cases hr : (fsWriteFile smallEnv [5] [102] 0 wfCreate).run (smallFault 28 4) with
  | ok p s' =>
    rw [hr] at h hres
    simp only [callResult, Prod.mk.injEq] at hres
    obtain ⟨h4, h0⟩ := hres
    have hfail : Failed (smallFault 28 4) s' := by
      refine ⟨(smallFault 28 4).faults, by rw [List.length_eq_zero_iff.1 h0, List.append_nil], ⟨4, Block.zero, false⟩, ?_, by decide⟩
      exact List.mem_append.2 (Or.inr (List.mem_singleton.2 rfl))
    have hge := h.1 hfail
    rw [h4] at hge
    exact absurd hge (by decide)
  | error code s' =>
    rw [hr] at h hres
    simp only [callResult, Prod.mk.injEq] at hres
    rw [hres.1] at h
    have hlt : ¬errorAny ≤ 4 := by decide
    exact hlt h
  | stuck s' =>
    rw [hr] at hres
    cases hres

end NanoS32
