import NanoS32.Theorems.Allocation
import NanoS32.Theorems.Mkfs

/-!
# The blocks of files are apart

In every state of a run from a disk that has been made, no block is a live reference of two places, whatever the calls return, as long
as their writes are safe. The references that a failed write has found no block for stay 0.
-/

namespace NanoS32

open Prog

namespace Vol.Format

variable {V : Vol} {C : Nat → List Nat} {P : Nat → Prop}

end Vol.Format

/-- The files of an image have no block in common, and no references past their sizes. -/
theorem Vol.ImageOf.apart {V : Vol} {fssizeBlocks : Nat} {files : List HostFile} (hi : V.ImageOf fssizeBlocks files)
    (hfits : Fits fssizeBlocks files) : V.Apart (imageChains (imagePlacements fssizeBlocks files)) := by
  have hrefs : ∀ h, (V.ent h).flags = tFile → (V.ent h).refs = V.blocks h := fun h hfile => by rw [Block.refs, if_pos hfile, Vol.blocks]
  have htidy : ∀ h, imageChains (imagePlacements fssizeBlocks files) h ≠ [] → (V.ent h).flags = tFile → ∀ i, V.blocks h ≤ i →
      V.fref (imageChains (imagePlacements fssizeBlocks files) h) i = 0 := by
    intro h hh hfile i hi'
    by_contra hne
    have hlt := (hi.packed hfits h hh i).1 hne
    rw [hrefs h hfile] at hlt
    omega
  have hlive : ∀ h, imageChains (imagePlacements fssizeBlocks files) h ≠ [] → (V.ent h).flags = tFile → ∀ i,
      V.firstData ≤ V.fref (imageChains (imagePlacements fssizeBlocks files) h) i → i < (V.ent h).refs := by
    intro h hh hfile i hi'
    rw [hrefs h hfile]
    by_contra hpast
    rw [htidy h hh hfile i (Nat.le_of_not_lt hpast)] at hi'
    exact absurd hi' (Nat.not_le.2 V.firstData_pos)
  refine ⟨fun h h' hh hh' hfile hfile' i i' hi' heq => ?_, htidy⟩
  exact hi.separate hfits h h' hh hh' hfile hfile' i (hlive h hh hfile i hi') i' (hlive h' hh' hfile' i' (heq ▸ hi')) heq

theorem Made.stays {env : Env} {d : Nat} {s : Sys} (h : Made env d s) : Stays Kept.format True env d s := by
  rcases h with h | ⟨hr, fssizeBlocks, boot, files, past, hfits, hrun⟩
  · exact h.stays
  · obtain ⟨V, hV, himage⟩ := mkfs_image hfits boot past
    obtain rfl : V = s.disk d := Option.some.inj (hV.symm.trans hrun)
    exact ⟨hr, Or.inr ⟨_, himage.format hfits, ⟨False.elim, False.elim⟩, fun _ => himage.apart hfits⟩⟩

end NanoS32
