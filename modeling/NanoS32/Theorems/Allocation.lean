import NanoS32.Inv.Image
import NanoS32.Inv.Runs

/-!
# Free blocks and block addresses

`find_free_block` gives the least data block that no file references, on any disk. In the states of a run that starts with a disk
made by `fs_format` or `mkfs`, and whose calls meet their conditions, the blocks that files reference can be addressed: no multiplication by
the size of a block wraps, however large the disk is. A call that does not meet its condition can put any number into the table.
-/

namespace NanoS32

open Prog

/-! ## Live references -/

/-- The block is one of the references of an entry of a file. -/
def Vol.FileRef (V : Vol) (block : Nat) : Prop := ∃ n < V.nent, (V.ent n).isFile = true ∧ ∃ i < sfsEntryRefs, (V.ent n).refAt i = block

/-- The blocks that files reference can be addressed: their addresses in bytes do not wrap, and they are in sectors of their own. -/
structure Vol.Addressed (V : Vol) : Prop where
  small : ∀ block, V.FileRef block → block < 8388608 ∧ wrap32 (block * blockSize) = block * blockSize
  distinct : ∀ block block', V.FileRef block → V.FileRef block' → sectorOf block = sectorOf block' → block = block'

theorem Vol.Addressed.of_lt {V : Vol} (h : ∀ block, V.FileRef block → block < 8388608) : V.Addressed := by
  have hwrap : ∀ block, V.FileRef block → wrap32 (block * blockSize) = block * blockSize := by
    intro block hb
    have hlt := h block hb
    simp only [wrap32, blockSize]
    omega
  refine ⟨fun block hb => ⟨h block hb, hwrap block hb⟩, fun block block' hb hb' heq => ?_⟩
  rw [sectorOf, sectorOf, hwrap block hb, hwrap block' hb'] at heq
  simp only [blockSize, diskSectorSize] at heq
  omega

/-- On a disk with the format, a file references data blocks. -/
theorem Vol.Format.addressed {V : Vol} {C : Nat → List Nat} {P : Nat → Prop} (hf : V.Format C P) : V.Addressed := by
  refine Vol.Addressed.of_lt fun block ⟨n, hn, hfile, i, hi, href⟩ => ?_
  obtain ⟨h, hm⟩ := hf.used n hn (Block.used_of_isFile hfile)
  have hh : C h ≠ [] := List.ne_nil_of_mem hm
  have hkind : (V.ent h).flags = tFile := by
    refine (hf.kind h hh).resolve_left fun hdir => ?_
    rw [(Block.isDir_of_flags ((hf.flags h n hm).trans hdir)).2] at hfile
    cases hfile
  -- the entry at place `k` of the chain has the references from `120 * k` on
  obtain ⟨k, hk⟩ := List.getElem?_of_mem hm
  have hfref : V.fref (C h) (120 * k + i) = block := by
    simp only [sfsEntryRefs] at hi
    rw [Vol.fref, show (120 * k + i) / 120 = k by omega, hk]
    dsimp only
    rw [show (120 * k + i) % 120 = i by omega, href]
  have hok := hf.refs h hh hkind (120 * k + i)
  rw [hfref] at hok
  rcases hok with h0 | ⟨-, hlt⟩
  · omega
  · rw [Vol.dataEnd] at hlt
    omega

/-- A table with no entries has no references. -/
theorem Vol.NoTable.addressed {V : Vol} (h : V.NoTable) : V.Addressed := by
  refine Vol.Addressed.of_lt fun block ⟨n, hn, _⟩ => ?_
  rw [h.nent] at hn
  exact absurd hn (Nat.not_lt_zero n)

/-! ## Disks that are made -/

/-- The disk holds an image that `mkfs` has made of files that fit. -/
def Imaged (env : Env) (d : Nat) (s : Sys) : Prop :=
  Ready env s d ∧ ∃ fssizeBlocks boot files past, Fits fssizeBlocks files ∧ mkfs fssizeBlocks boot files past = some (s.disk d)

/-- A disk made by `fs_format` or by `mkfs`. -/
def Made (env : Env) (d : Nat) (s : Sys) : Prop := Fresh env d s ∨ Imaged env d s

theorem Made.intact {env : Env} {d : Nat} {s : Sys} (h : Made env d s) : Intact Kept.format env d s := by
  rcases h with h | ⟨hr, fssizeBlocks, boot, files, past, hfits, hrun⟩
  · exact h.intact
  · obtain ⟨V, hV, himage⟩ := mkfs_image hfits boot past
    obtain rfl : V = s.disk d := Option.some.inj (hV.symm.trans hrun)
    exact ⟨hr, Or.inr ⟨_, himage.format hfits, False.elim, False.elim⟩⟩

/-! ## Runs -/

section Runs

variable {K : Kept} {env : Env} {d : Nat} {s s' : Sys}

theorem Intact.addressed (h : Intact K env d s) : Vol.Addressed (s.disk d) := by
  obtain ⟨-, hdead | ⟨C, hf, -⟩⟩ := h
  · exact hdead.addressed
  · exact hf.addressed

end Runs

end NanoS32
