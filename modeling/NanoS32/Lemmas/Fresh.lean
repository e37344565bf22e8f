import NanoS32.Fs.Dir
import NanoS32.Lemmas.Bytes
import NanoS32.Lemmas.Sector

/-!
# What a format writes

A call that returns has done its transfers, so that the state it returns in says what the disk holds: `fs_format` has written the
superblock of the geometry, the root, and free entries after it.
-/

namespace NanoS32

open Prog

/-! ## Calls that return -/

section Ok

variable {env : Env} {d : Nat} {s s' : Sys}

/-- A block that is read without an error is the one of the disk. -/
theorem ioDiskReadBlock_eq_ok {k r : Nat} {b : Block} (h : (ioDiskReadBlock env d k).run s = .ok (r, b) s') :
    s'.disk = s.disk ∧ (r = noError → b = s.disk d k) := by
  rw [ioDiskReadBlock] at h
  by_cases hp : (env.diskInfo d).size = 0
  · rw [if_pos hp] at h
    cases h
    exact ⟨rfl, fun hr => absurd hr (by decide)⟩
  · rw [if_neg hp, readSector_eq] at h
    cases h
    exact ⟨rfl, fun hr => delivered_of_pending hr _⟩

/-- A block that is written without an error is on the disk. -/
theorem ioDiskWriteBlock_eq_ok {k r : Nat} {b : Block} (h : (ioDiskWriteBlock env d k b).run s = .ok r s')
    (hr : r = noError) : s'.disk = (s.setBlock d k b).disk := by
  rw [ioDiskWriteBlock] at h
  by_cases hp : (env.diskInfo d).size = 0
  · rw [if_pos hp] at h
    cases h
    exact absurd hr (by decide)
  · rw [if_neg hp, writeSector_eq] at h
    cases h
    rw [if_pos (reaches_of_pending hr)]
    rfl

theorem getEntryN_eq_ok {n : Nat} {e : SfsEntry} (hn : n < 8388606) (h : (getEntryN env d n).run s = .ok e s') :
    s'.disk = s.disk ∧ e = Vol.ent (s.disk d) n := by
  have hk : sectorOf (entryBlock n) = 2 + n := by rw [entryBlock_of_lt (by omega), sectorOf_of_lt (by omega)]
  obtain ⟨⟨r, b⟩, s₁, hread, h₁⟩ := bind_eq_ok h
  obtain ⟨u, s₂, hcheck, h₂⟩ := bind_eq_ok h₁
  obtain ⟨u', s₃, hcheck', h₃⟩ := bind_eq_ok h₂
  obtain ⟨hd, hb⟩ := ioDiskReadBlock_eq_ok hread
  obtain ⟨h0, rfl⟩ := failIf_eq_ok hcheck
  obtain ⟨-, rfl⟩ := failIf_eq_ok hcheck'
  cases h₃
  rw [hk] at hb
  exact ⟨hd, hb (not_not.1 h0)⟩

theorem writeEntry_eq_ok {n : Nat} {e : SfsEntry} {u : Unit} (hn : n < 8388606)
    (h : (writeEntry env d n e).run s = .ok u s') : s'.disk = (s.withVol d (Vol.setEnt (s.disk d) n e)).disk := by
  have hk : sectorOf (entryBlock n) = 2 + n := by rw [entryBlock_of_lt (by omega), sectorOf_of_lt (by omega)]
  obtain ⟨r, s₁, hwrite, h₁⟩ := bind_eq_ok h
  obtain ⟨h0, rfl⟩ := failIf_eq_ok h₁
  have hd := ioDiskWriteBlock_eq_ok hwrite (not_not.1 h0)
  rw [hk] at hd
  exact hd

/-- The time of an entry with no chain is set in this entry. -/
theorem setEntryTime_eq_ok {n : Nat} {u : Unit} (hn : n < 8388606) (hnext : (Vol.ent (s.disk d) n).next = 0)
    (h : (setEntryTimeToCurrent env d n).run s = .ok u s') :
    ∃ t, s'.disk = (s.withVol d (Vol.setEnt (s.disk d) n ((Vol.ent (s.disk d) n).setTime t))).disk := by
  obtain ⟨t, s₁, htime, h₁⟩ := bind_eq_ok h
  have hs₁ : s₁.disk = s.disk := by
    cases htime
    rfl
  cases hf : env.fuel with
  | zero =>
    rw [hf] at h₁
    cases h₁
  | succ fuel =>
    rw [hf] at h₁
    obtain ⟨e, s₂, hget, h₂⟩ := bind_eq_ok h₁
    obtain ⟨u', s₃, hwrite, h₃⟩ := bind_eq_ok h₂
    obtain ⟨u'', s₄, hcheck, h₄⟩ := bind_eq_ok h₃
    obtain ⟨hs₂, he⟩ := getEntryN_eq_ok hn hget
    have hs₃ := writeEntry_eq_ok hn hwrite
    obtain ⟨-, rfl⟩ := failIf_eq_ok hcheck
    rw [hs₁] at he hs₂
    have h0 : ¬(e.setTime t).next.toNat ≠ 0 := by
      rw [he]
      simp only [Block.setTime, hnext]
      decide
    rw [if_neg h0] at h₄
    cases h₄
    refine ⟨t, ?_⟩
    rw [hs₃, he, Sys.withVol, Sys.withVol, hs₂]

/-- The entries that are written hold what is written, and the rest of the table is as it was. -/
theorem writeEntries_eq_ok {e : SfsEntry} {u : Unit} :
    ∀ (l : List Nat) (s : Sys), (∀ n ∈ l, n < 8388606) → (Prog.each (fun n => writeEntry env d n e) l).run s = .ok u s' →
      s'.disk d 1 = s.disk d 1 ∧ ∀ n, Vol.ent (s'.disk d) n = if n ∈ l then e else Vol.ent (s.disk d) n := by
  intro l
  induction l with
  | nil =>
    intro s _ h
    cases h
    exact ⟨rfl, fun n => rfl⟩
  | cons m l ih =>
    intro s hl h
    obtain ⟨u', s₁, hwrite, h⟩ := bind_eq_ok h
    obtain ⟨hsuper, hent⟩ := ih s₁ (fun n hn => hl n (List.mem_cons_of_mem _ hn)) h
    have hdisk := writeEntry_eq_ok (hl m List.mem_cons_self) hwrite
    refine ⟨?_, fun n => ?_⟩
    · rw [hsuper, hdisk, Sys.withVol_disk, Vol.setEnt, Function.update_of_ne (by omega)]
    · rw [hent n, hdisk, Sys.withVol_disk]
      by_cases hnm : n = m
      · rw [hnm, Vol.ent_setEnt_self, if_pos List.mem_cons_self, ite_self]
      · simp only [Vol.ent_setEnt_ne _ _ hnm, List.mem_cons, or_iff_right hnm]

/-- The disk after the empty file system has been written. -/
theorem formatEmpty_eq_ok {u : Unit} (h : (formatEmpty env d).run s = .ok u s') :
    s'.disk d 1 = Block.ofSuper (formatSuper (env.diskInfo d)) ∧ (∃ t, Vol.ent (s'.disk d) 0 = formatRoot.setTime t) ∧
      ∀ n, 0 < n → n < (formatSuper (env.diskInfo d)).nentries → Vol.ent (s'.disk d) n = Block.zero := by
  have h1 : sectorOf 1 = 1 := sectorOf_of_lt (by omega)
  obtain ⟨⟨r, boot⟩, s₁, -, h₁⟩ := bind_eq_ok h
  obtain ⟨u₁, s₂, -, h₂⟩ := bind_eq_ok h₁
  obtain ⟨r₂, s₃, -, h₃⟩ := bind_eq_ok h₂
  obtain ⟨u₂, s₄, -, h₄⟩ := bind_eq_ok h₃
  obtain ⟨r₃, s₅, hwrite, h₅⟩ := bind_eq_ok h₄
  obtain ⟨u₃, s₆, hcheck, h₆⟩ := bind_eq_ok h₅
  obtain ⟨u₄, s₇, hroot, h₇⟩ := bind_eq_ok h₆
  obtain ⟨u₅, s₈, htime, h₈⟩ := bind_eq_ok h₇
  obtain ⟨h0, rfl⟩ := failIf_eq_ok hcheck
  have hsuper : s₆.disk d 1 = Block.ofSuper (formatSuper (env.diskInfo d)) := by
    rw [ioDiskWriteBlock_eq_ok hwrite (not_not.1 h0), h1, Sys.setBlock_eq, Sys.withVol_disk, Function.update_self]
  have hs₇ := writeEntry_eq_ok (by omega) hroot
  have hent₇ : Vol.ent (s₇.disk d) 0 = formatRoot := by rw [hs₇, Sys.withVol_disk, Vol.ent_setEnt_self]
  obtain ⟨t, hs₈⟩ := setEntryTime_eq_ok (by omega) (by rw [hent₇]; rfl) htime
  have hsmall : ∀ n ∈ List.range' 1 ((formatSuper (env.diskInfo d)).nentries - 1), n < 8388606 := by
    intro n hn
    have hle : (formatSuper (env.diskInfo d)).nentries ≤ 1024 := Nat.min_le_right _ _
    rw [List.mem_range'_1] at hn
    omega
  obtain ⟨hsuper', hent⟩ := writeEntries_eq_ok _ _ hsmall h₈
  refine ⟨?_, ⟨t, ?_⟩, fun n hn hlt => ?_⟩
  · rw [hsuper', hs₈, Sys.withVol_disk, Vol.setEnt, Function.update_of_ne (by omega), hs₇, Sys.withVol_disk, Vol.setEnt,
      Function.update_of_ne (by omega), hsuper]
  · rw [hent, if_neg (by simp [List.mem_range'_1]), hs₈, Sys.withVol_disk, Vol.ent_setEnt_self, hent₇]
  · rw [hent, if_pos (by rw [List.mem_range'_1]; omega)]

end Ok

/-! ## The superblock -/

/-- A superblock of 32-bit fields can be read back from its block. -/
theorem super_ofSuper {sb : SfsSuperblock} (htype : sb.type < 4294967296) (hsize : sb.size < 4294967296)
    (hnentries : sb.nentries < 4294967296) (hbootstart : sb.bootstart < 4294967296) : (Block.ofSuper sb).super = sb := by
  have hword : ∀ (n i : Nat), n < 4294967296 → i + 4 ≤ 512 →
      (∀ k < 4, (Block.ofSuper sb).byte (i + k) = wordByte (UInt32.ofNat n) k) →
        (word (Block.ofSuper sb).byte i).toNat = n := by
    intro n i hn _ hk
    rw [word_wordByte (UInt32.ofNat n) hk, UInt32.toNat_ofNat_of_lt' hn]
  have hbyte : ∀ i < 512, (Block.ofSuper sb).byte i =
      if i < 4 then wordByte (UInt32.ofNat sb.type) i
      else if i < 8 then wordByte (UInt32.ofNat sb.size) (i - 4)
      else if i < 12 then wordByte (UInt32.ofNat sb.nentries) (i - 8)
      else if i < 16 then wordByte (UInt32.ofNat sb.bootstart) (i - 12)
      else 0 := fun i hi => Block.byte_ofBytes _ hi
  obtain ⟨type, size, nentries, bootstart⟩ := sb
  rw [Block.super, SfsSuperblock.mk.injEq]
  refine ⟨hword _ 0 htype (by omega) fun k hk => ?_, hword _ 4 hsize (by omega) fun k hk => ?_,
    hword _ 8 hnentries (by omega) fun k hk => ?_, hword _ 12 hbootstart (by omega) fun k hk => ?_⟩
  · rw [hbyte _ (by omega), if_pos (by omega), Nat.zero_add]
  · rw [hbyte _ (by omega), if_neg (by omega), if_pos (by omega), Nat.add_sub_cancel_left]
  · rw [hbyte _ (by omega), if_neg (by omega), if_neg (by omega), if_pos (by omega), Nat.add_sub_cancel_left]
  · rw [hbyte _ (by omega), if_neg (by omega), if_neg (by omega), if_neg (by omega), if_pos (by omega),
      Nat.add_sub_cancel_left]

end NanoS32
