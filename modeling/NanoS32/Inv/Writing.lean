import NanoS32.Inv.Contents

/-!
# What a write leaves in the files

A write changes the contents of one file only, whichever way it ends. Its own contents are what the write says, and no block becomes a
reference twice, as long as the file gets at most one new block for each of its entries and no reference past its size: for
`fs_write_file` looks for a block again only after 120 references, and `set_entry_refcount` clears the references of the last entry
from the wrong one on.
-/

namespace NanoS32

/-- A resize from `size` to `last` bytes gives the file no two new blocks for one entry, and leaves its last entry with the references
that it needs and no others. -/
def SafeResize (size last : Nat) : Prop :=
  (∀ i, neededBlocks size ≤ i → i + 1 < neededBlocks last → (i + 1) % 120 = 0) ∧
    (neededBlocks last ≤ neededBlocks size → neededBlocks last < 120 ∨ neededBlocks last % 120 = 119 ∨
      (neededBlocks last = neededBlocks size ∧ neededBlocks last % 120 ≠ 0))

instance (size last : Nat) : Decidable (SafeResize size last) :=
  decidable_of_iff ((∀ i < neededBlocks last, neededBlocks size ≤ i → i + 1 < neededBlocks last → (i + 1) % 120 = 0) ∧
      (neededBlocks last ≤ neededBlocks size → neededBlocks last < 120 ∨ neededBlocks last % 120 = 119 ∨
        (neededBlocks last = neededBlocks size ∧ neededBlocks last % 120 ≠ 0))) <|
    and_congr_left fun _ => ⟨fun h i h1 h2 => h i (by omega) h1 h2, fun h i _ => h i⟩

/-- The references that a file keeps in a safe resize. -/
theorem SafeResize.kept {size last : Nat} (h : SafeResize size last) {i : Nat} (h1 : i < neededBlocks size)
    (h2 : i < neededBlocks last) : i < keptRefs (neededBlocks last) := by
  obtain ⟨-, hcut⟩ := h
  rw [keptRefs, chainEntries, neededEntries_eq]
  omega

/-- Those past its size are not among them, but for those that were past its size before. -/
theorem SafeResize.tidy {size last : Nat} (h : SafeResize size last) {i : Nat} (h1 : neededBlocks last ≤ i)
    (h2 : i < keptRefs (neededBlocks last)) : neededBlocks size ≤ i := by
  obtain ⟨-, hcut⟩ := h
  rw [keptRefs, chainEntries, neededEntries_eq] at h2
  omega

/-- Two new references of one entry are the same. -/
theorem SafeResize.new {size last : Nat} (h : SafeResize size last) {i i' : Nat} (h1 : neededBlocks size ≤ i)
    (h1' : neededBlocks size ≤ i') (h2 : i < neededBlocks last) (h2' : i' < neededBlocks last) (heq : i / 120 = i' / 120) :
    i = i' := by
  have hnext := h.1 i h1
  have hnext' := h.1 i' h1'
  omega

/-- A write of `count` bytes that stays below the largest size of a file, and resizes the file safely if it does. -/
def SafeWrite (size offset count flags : Nat) : Prop :=
  offset + count < 4294967296 ∧
    (size < offset + count ∨ (offset + count < size ∧ flags &&& wfTruncate ≠ 0) → SafeResize size (offset + count))

instance (size offset count flags : Nat) : Decidable (SafeWrite size offset count flags) :=
  inferInstanceAs (Decidable (_ ∧ _))

/-- What a safe resize does, of a file of `old` blocks to `size` bytes. -/
structure ResizedSafely (old size kept new : Nat) : Prop where
  room : new = 0 ∨ old + new ≤ neededBlocks size
  keeps : ∀ i < old, i < neededBlocks size → i < kept
  tidy : ∀ i, neededBlocks size ≤ i → i < kept → old ≤ i
  single : ∀ i i', old ≤ i → i < old + new → old ≤ i' → i' < old + new → i / 120 = i' / 120 → i = i'

theorem ResizeEnds.safely {V V' : Vol} {n : Nat} {ch ch' : List Nat} {last flags size kept new : Nat} {done : Bool} (hf : V.IsFile n ch)
    (h : ResizeEnds V n ch last flags size kept new ch' V' done)
    (hsafe : (V.ent n).size.toNat < last ∨ (last < (V.ent n).size.toNat ∧ flags &&& wfTruncate ≠ 0) →
      SafeResize (V.ent n).size.toNat last) : ResizedSafely (V.blocks n) size kept new := by
  have hfits := hf.fits
  have hblocks : V.blocks n ≤ 120 * ch.length := by
    rw [Vol.blocks, neededBlocks_eq]
    omega
  cases h with
  | stays _ _ =>
    exact ⟨Or.inl rfl, fun i hi _ => by omega, fun i h1 _ => h1, fun i i' h1 h2 => absurd h2 (by omega)⟩
  | resized hresize _ =>
    have hs := hsafe hresize
    refine ⟨by omega, fun i h1 h2 => hs.kept h1 h2, fun i h1 h2 => hs.tidy h1 h2, fun i i' h1 h2 h1' h2' => ?_⟩
    exact hs.new h1 h1' (by omega) (by omega)
  | noEntry hpre _ =>
    have hlen := hpre.length_le
    exact ⟨Or.inl rfl, fun i hi _ => by omega, fun i h1 _ => h1, fun i i' h1 h2 => absurd h2 (by omega)⟩
  | noBlock hgrow _ hnew _ =>
    have hs := hsafe (Or.inl hgrow)
    refine ⟨by omega, fun i h1 h2 => hs.kept h1 h2, fun i h1 h2 => hs.tidy h1 h2, fun i i' h1 h2 h1' h2' => ?_⟩
    exact hs.new h1 h1' (by omega) (by omega)

/-- The size that a write that ends well leaves. -/
theorem ResizeEnds.size_eq {V V' : Vol} {n : Nat} {ch ch' : List Nat} {last flags size kept new : Nat}
    (h : ResizeEnds V n ch last flags size kept new ch' V' true) :
    size = if decide (flags &&& wfTruncate ≠ 0) = true ∨ (V.ent n).size.toNat < last then last else (V.ent n).size.toNat := by
  cases h with
  | stays hgrow hcut =>
    split_ifs with h
    · rcases h with h | h
      · exact Nat.le_antisymm (Nat.le_of_not_lt fun hlt => hcut ⟨hlt, of_decide_eq_true h⟩) (Nat.le_of_not_lt hgrow)
      · exact absurd h hgrow
    · rfl
  | resized hresize _ => exact (if_pos (hresize.symm.imp (fun h => decide_eq_true h.2) id)).symm

namespace Vol

/-! ## The resize -/

section Resized

variable {V V' : Vol} {C : Nat → List Nat} {n size kept new : Nat} {blk : Nat → Nat} {ch' : List Nat}

/-- Resizing a file keeps the others. -/
theorem Resized.keepsFiles (hf : V.Format C fun _ => False) (hn : C n ≠ []) (hfile : (V.ent n).flags = tFile)
    (hres : V.Resized n (C n) size kept new blk ch' V') : V.KeepsFiles C (· = n) V' (Function.update C n ch') := by
  have hre := hres.rewrite
  have hC : ∀ h, h ≠ n → Function.update C n ch' h = C h := fun h hne => Function.update_of_ne hne _ _
  -- the entries of the others are not touched
  have hent : ∀ h, C h ≠ [] → h ≠ n → ∀ m ∈ C h, V'.ent m = V.ent m := by
    intro h hh hne m hm
    have hout : m ∉ C n := fun hin => hne (hf.disjoint h n m hm hin)
    refine hre.table m (hf.lt hm) hout fun hin => ?_
    exact hf.not_mem_of_unused (hre.fresh m hin hout).1 h hm
  refine ⟨hre.super, fun h hh _ => ?_, fun h hh _ hhfile hne => ⟨hC h hne, ?_, Vol.fref_congr fun m hm => ?_, fun i => ?_⟩,
    fun h hh hh' => ?_⟩
  · by_cases hne : h = n
    · rw [hne, hres.file.flags n hres.file.mem, hfile]
    · rw [hent h hh hne h (hf.mem_head hh)]
  · rw [hent h hh hne h (hf.mem_head hh)]
  · rw [hent h hh hne m hm]
  · have hok : V.RefOk (V.fref (C h) i) := hf.refs h hh hhfile i
    refine hres.agree _ fun x hx => hok.ne_ent ?_
    rcases List.mem_append.1 hx with hx | hx
    · exact hf.lt hx
    · rw [← Vol.nent_of_super hre.super]
      exact hres.file.chain.lt x hx
  · by_cases hne : h = n
    · exact absurd hh (hne ▸ hn)
    · exact absurd (hC h hne ▸ hh) hh'

/-- A block that is a reference of a resized file is a new one, or was one before. -/
theorem Resized.ref (hres : V.Resized n (C n) size kept new blk ch' V') {i : Nat} (hi : V.firstData ≤ V'.fref ch' i) :
    (i < kept ∧ V'.fref ch' i = V.fref (C n) i) ∨ (V.blocks n ≤ i ∧ i < V.blocks n + new ∧ V'.fref ch' i = blk i) := by
  have href := hres.refs i
  by_cases hnew : V.blocks n ≤ i ∧ i < V.blocks n + new
  · rw [if_pos hnew] at href
    exact Or.inr ⟨hnew.1, hnew.2, href⟩
  · rw [if_neg hnew] at href
    split_ifs at href with hkept
    · exact Or.inl ⟨hkept, href⟩
    · rw [href] at hi
      exact absurd hi (Nat.not_le.2 V.firstData_pos)

/-- It is no reference of another file. -/
theorem Resized.ref_ne (hf : V.Format C fun _ => False) (ha : V.Apart C) (hn : C n ≠ []) (hfile : (V.ent n).flags = tFile)
    (hres : V.Resized n (C n) size kept new blk ch' V') {i : Nat} (hi : V.firstData ≤ V'.fref ch' i) {h : Nat} (hh : C h ≠ [])
    (hhfile : (V.ent h).flags = tFile) (hne : h ≠ n) (i' : Nat) : V.fref (C h) i' ≠ V'.fref ch' i := by
  intro heq
  rcases hres.ref hi with ⟨-, href⟩ | ⟨h1, h2, href⟩
  · rw [href] at heq hi
    exact hne (ha.distinct h n hh hn hhfile hfile i' i (heq ▸ hi) heq).1
  · -- a block of another file is a live reference of it, so that it is not free
    have hlive : i' < V.blocks h := by
      by_contra hpast
      rw [ha.tidy h hh hhfile i' (Nat.le_of_not_lt hpast)] at heq
      rw [← heq] at hi
      exact absurd hi (Nat.not_le.2 V.firstData_pos)
    obtain ⟨m, hm⟩ : ∃ m, (C h)[i' / 120]? = some m := by
      refine ⟨_, List.getElem?_eq_getElem ?_⟩
      have hfits := hf.fits h hh hhfile
      rw [Vol.blocks, neededBlocks_eq] at hlive
      omega
    have hin : m ∈ C h := List.mem_of_getElem? hm
    refine hres.others i h1 h2 m (hf.lt hin) (fun hin' => hne (hf.disjoint h n m hin hin')) ?_
    exact ((hf.isFile hh hhfile).mem_liveRefs hm).2 ⟨i', rfl, hlive, by rw [heq, href]⟩

/-- The references stay apart when the file is resized safely. -/
theorem Resized.apart (hf : V.Format C fun _ => False) (ha : V.Apart C) (hn : C n ≠ []) (hfile : (V.ent n).flags = tFile)
    (hres : V.Resized n (C n) size kept new blk ch' V') (hsafe : ResizedSafely (V.blocks n) size kept new) :
    V'.Apart (Function.update C n ch') := by
  have hk := hres.keepsFiles hf hn hfile
  have hfirst := hk.firstData
  have hself : Function.update C n ch' n = ch' := Function.update_self _ _ _
  -- a reference that was one of the file is not past its size, so that it is not a new one
  have hold : ∀ i, V.firstData ≤ V.fref (C n) i → i < V.blocks n := by
    intro i hi
    by_contra hpast
    rw [ha.tidy n hn hfile i (Nat.le_of_not_lt hpast)] at hi
    exact absurd hi (Nat.not_le.2 V.firstData_pos)
  refine ⟨fun g h hg' hh' hgfile hhfile i i' hi heq => ?_, fun h hh' hhfile i hi => ?_⟩
  · rw [hfirst] at hi
    have hi' : V.firstData ≤ V'.fref (Function.update C n ch' h) i' := heq ▸ hi
    by_cases hgn : g = n <;> by_cases hhn : h = n
    · -- two references of the file itself
      subst hgn hhn
      rw [hself] at hi hi' heq
      refine ⟨rfl, ?_⟩
      rcases hres.ref hi with ⟨-, href⟩ | ⟨h1, h2, href⟩ <;> rcases hres.ref hi' with ⟨-, href'⟩ | ⟨h1', h2', href'⟩
      · rw [href] at hi heq
        rw [href'] at heq
        exact (ha.distinct _ _ hn hn hfile hfile i i' hi heq).2
      · have hlt := hold i (href ▸ hi)
        exact absurd heq.symm (by rw [href']; exact hres.own i' h1' h2' i hlt)
      · have hlt := hold i' (href' ▸ hi')
        exact absurd heq (by rw [href]; exact hres.own i h1 h2 i' hlt)
      · rw [href, href'] at heq
        exact hsafe.single i i' h1 h2 h1' h2' ((hres.same i i' h1 h2 h1' h2').1 heq)
    · subst hgn
      obtain ⟨hh, hfile₀, href⟩ := hk.ref hh' hhfile hhn hi'
      rw [hself] at hi heq
      rw [href] at heq
      exact absurd heq.symm (hres.ref_ne hf ha hn hfile hi hh hfile₀ hhn i')
    · subst hhn
      obtain ⟨hg, hfile₀, href⟩ := hk.ref hg' hgfile hgn hi
      rw [hself] at hi' heq
      rw [href] at heq
      exact absurd heq (hres.ref_ne hf ha hn hfile hi' hg hfile₀ hgn i)
    · obtain ⟨hg, hgfile₀, href⟩ := hk.ref hg' hgfile hgn hi
      obtain ⟨hh, hhfile₀, href'⟩ := hk.ref hh' hhfile hhn hi'
      rw [href] at hi heq
      rw [href'] at heq
      exact ha.distinct g h hg hh hgfile₀ hhfile₀ i i' hi heq
  · by_cases hhn : h = n
    · subst hhn
      rw [Vol.blocks, hres.size] at hi
      rw [hself, hres.refs]
      have hroom := hsafe.room
      rw [if_neg (by omega)]
      split_ifs with hlt
      · exact ha.tidy h hn hfile i (hsafe.tidy i hi hlt)
      · rfl
    · exact hk.tidy ha hh' hhfile hhn hi

end Resized

/-! ## The data -/

/-- Data has been written into the blocks of the file with chain `ch`, and its entries may have got another time. -/
structure Filled (V : Vol) (ch : List Nat) (offset : Nat) (bytes : List UInt8) (V' : Vol) : Prop where
  blocks : ∀ i < bytes.length, V.firstData ≤ V.fref ch ((offset + i) / 512)
  agree : (V.poke (V.fref ch) offset bytes).AgreeOff ch V'
  fields : ∀ m ∈ ch, (V'.ent m).flags = (V.ent m).flags ∧ (V'.ent m).name = (V.ent m).name ∧ (V'.ent m).next = (V.ent m).next ∧
    (V'.ent m).parent = (V.ent m).parent ∧ (V'.ent m).size = (V.ent m).size ∧ (V'.ent m).refAt = (V.ent m).refAt

theorem getElem?_fileBytes (V : Vol) (ch : List Nat) (o : Nat) {i k : Nat} (h : i < k) :
    (V.fileBytes ch o k)[i]? = some (V.fileByte ch (o + i)) := by
  rw [Vol.fileBytes, List.getElem?_map, List.getElem?_range h]
  rfl

section Filled

variable {V W V' : Vol} {C : Nat → List Nat} {n offset : Nat} {ch : List Nat} {bytes : List UInt8}

theorem Filled.of_poke (hc : V.IsChain ch) (hblocks : ∀ i < bytes.length, V.firstData ≤ V.fref ch ((offset + i) / 512)) :
    V.Filled ch offset bytes (V.poke (V.fref ch) offset bytes) := by
  obtain ⟨hent, -, -⟩ := Vol.poke_table hc hblocks
  refine ⟨hblocks, Vol.AgreeOff.refl _ _, fun m hm => ?_⟩
  rw [hent m (hc.lt m hm)]
  exact ⟨rfl, rfl, rfl, rfl, rfl, rfl⟩

/-- The time is none of the fields. -/
theorem Filled.stamp (h : V.Filled ch offset bytes W) (t : Nat) : V.Filled ch offset bytes (W.updEnts ch fun _ e => e.setTime t) := by
  refine ⟨h.blocks, h.agree.trans (Vol.agreeOff_updEnts W ch _), fun m hm => ?_⟩
  rw [Vol.ent_updEnts, if_pos hm]
  exact h.fields m hm

theorem Filled.super (h : V.Filled ch offset bytes V') : V' 1 = V 1 := by
  rw [h.agree 1 fun x _ => by omega]
  exact Vol.poke_low h.blocks (by rw [Vol.firstData]; omega)

/-- The entries outside the chain are as they were. -/
theorem Filled.ent (h : V.Filled ch offset bytes V') {m : Nat} (hm : m < V.nent) (hout : m ∉ ch) : V'.ent m = V.ent m := by
  rw [h.agree.ent hout]
  exact Vol.poke_low h.blocks (by rw [Vol.firstData]; omega)

theorem Filled.fref (h : V.Filled ch offset bytes V') (i : Nat) : V'.fref ch i = V.fref ch i :=
  Vol.fref_congr (fun _ hm => (h.fields _ hm).2.2.2.2.2) i

theorem Filled.touch (h : V.Filled ch offset bytes V') : V.Touch ch V' :=
  ⟨h.super, fun _ hm hout => h.ent hm hout, fun m hm => ⟨(h.fields m hm).1, (h.fields m hm).2.1, (h.fields m hm).2.2.1,
    (h.fields m hm).2.2.2.1⟩, fun i => Or.inr (h.fref i)⟩

theorem Filled.file (h : V.Filled ch offset bytes V') (hf : V.IsFile n ch) : V'.IsFile n ch :=
  hf.touch h.touch fun m hm => (h.fields m hm).2.2.2.2.1

/-- A block that a file may have is changed by the data only. -/
theorem Filled.block (h : V.Filled ch offset bytes V') (hc : V.IsChain ch) {k : Nat} (hk : V.RefOk k) :
    V' k = V.poke (V.fref ch) offset bytes k := h.agree k fun x hx => hk.ne_ent (hc.lt x hx)

/-- Data in a file keeps the others, of which the blocks that it goes to are no references. -/
theorem Filled.keepsFiles (hf : V.Format C fun _ => False) (hn : C n ≠ []) (h : V.Filled (C n) offset bytes V')
    (hout : ∀ i, V.firstData ≤ V.fref (C n) i → ∀ h, C h ≠ [] → (V.ent h).flags = tFile → h ≠ n → ∀ i', V.fref (C h) i' ≠ V.fref (C n) i) :
    V.KeepsFiles C (· = n) V' C := by
  have hc := hf.chain n hn
  have hent : ∀ g, g ≠ n → ∀ m ∈ C g, V'.ent m = V.ent m := fun g hne m hm =>
    h.ent (hf.lt hm) fun hin => hne (hf.disjoint g n m hm hin)
  refine ⟨h.super, fun g hg _ => ?_, fun g hg _ hfile hne => ⟨rfl, ?_, Vol.fref_congr fun m hm => ?_, fun i => ?_⟩,
    fun g hg hg' => absurd hg hg'⟩
  · by_cases hne : g = n
    · rw [hne]
      exact (h.fields n (hf.mem_head hn)).1
    · rw [hent g hne g (hf.mem_head hg)]
  · rw [hent g hne g (hf.mem_head hg)]
  · rw [hent g hne m hm]
  · rw [h.block hc (hf.refs g hg hfile i)]
    exact Vol.poke_other _ _ _ _ fun j hj heq => hout _ (h.blocks j hj) g hg hfile hne i heq.symm

/-- The references are what they were. -/
theorem Filled.apart (hf : V.Format C fun _ => False) (hn : C n ≠ []) (h : V.Filled (C n) offset bytes V') (ha : V.Apart C) :
    V'.Apart C := by
  have hfirst : V'.firstData = V.firstData := by rw [Vol.firstData, Vol.nent_of_super h.super, Vol.firstData]
  have hsame : ∀ g, C g ≠ [] → (V'.ent g).flags = (V.ent g).flags ∧ V'.blocks g = V.blocks g ∧
      ∀ i, V'.fref (C g) i = V.fref (C g) i := by
    intro g hg
    rw [Vol.blocks, Vol.blocks]
    by_cases hne : g = n
    · obtain ⟨hflags, -, -, -, hsize, -⟩ := h.fields n (hf.mem_head hn)
      rw [hne, hflags, hsize]
      exact ⟨rfl, rfl, h.fref⟩
    · have hent : ∀ m ∈ C g, V'.ent m = V.ent m := fun m hm => h.ent (hf.lt hm) fun hin => hne (hf.disjoint g n m hm hin)
      rw [hent g (hf.mem_head hg)]
      exact ⟨rfl, rfl, Vol.fref_congr fun m hm => by rw [hent m hm]⟩
  refine ⟨fun g g' hg hg' hfile hfile' i i' hi heq => ?_, fun g hg hfile i hi => ?_⟩
  · obtain ⟨hflags, -, href⟩ := hsame g hg
    obtain ⟨hflags', -, href'⟩ := hsame g' hg'
    rw [href, href'] at heq
    rw [hfirst, href] at hi
    exact ha.distinct g g' hg hg' (hflags ▸ hfile) (hflags' ▸ hfile') i i' hi heq
  · obtain ⟨hflags, hblocks, href⟩ := hsame g hg
    rw [hblocks] at hi
    rw [href]
    exact ha.tidy g hg (hflags ▸ hfile) i hi

/-- The bytes of a file that data has been written into. -/
theorem Filled.fileByte (hf : V.Format C fun _ => False) (hn : C n ≠ []) (hfile : (V.ent n).flags = tFile)
    (h : V.Filled (C n) offset bytes V') (ha : V.Apart C) (j : Nat) :
    V'.fileByte (C n) j = if offset ≤ j ∧ j < offset + bytes.length then bytes.getD (j - offset) 0 else V.fileByte (C n) j := by
  -- a byte that goes to the same place is the same byte
  have hplace : ∀ i < bytes.length, V.fref (C n) ((offset + i) / 512) = V.fref (C n) (j / 512) → (offset + i) % 512 = j % 512 →
      offset + i = j := by
    intro i hi href hmod
    have hdiv := (ha.distinct n n hn hn hfile hfile _ _ (h.blocks i hi) href).2
    omega
  have hok : V.RefOk (V.fref (C n) (j / 512)) := hf.refs n hn hfile _
  rw [Vol.fileByte, h.fref, h.block (hf.chain n hn) hok]
  split_ifs with hj
  · obtain ⟨i, rfl⟩ : ∃ i, j = offset + i := ⟨j - offset, by omega⟩
    rw [Nat.add_sub_cancel_left]
    refine Vol.poke_byte_last _ _ _ _ _ (by omega) fun k hk hlt href hmod => ?_
    have hsame := hplace k hk href hmod
    omega
  · rw [Vol.fileByte]
    refine Vol.poke_byte_other _ _ _ _ _ (Nat.mod_lt _ (by decide)) fun i hi href hmod => ?_
    have hsame := hplace i hi href hmod
    omega

end Filled

end Vol

/-! ## The write -/

section Run

variable {K : Kept} {env : Env} {s : Sys} {d : Nat} {V : Vol} {C : Nat → List Nat} {n : Nat}

/-- A write to a file that exists resizes it, and fills it with the data, or with the first part of it. -/
theorem writeFileAt_filled (hr : Ready env s d) (hf : V.Format C fun _ => False) (hn : C n ≠ []) (hfile : (V.ent n).flags = tFile)
    {offset : Nat} (hoffset : offset < 4294967296) (buff : List UInt8) (flags : Nat) :
    ∃ size kept new blk ch' V₁ done t V' s', V.Resized n (C n) size kept new blk ch' V₁ ∧
      ResizeEnds V n (C n) (wrap32 (offset + buff.length)) flags size kept new ch' V₁ done ∧ V₁.Filled ch' offset (buff.take t) V' ∧
      Ready env s' d ∧ s'.disk = s.disk ∧
      ((done = true ∧ t = buff.length ∧
          (writeFileAt env buff d n (V.ent n) offset flags).run (s.withVol d V) = .ok buff.length (s'.withVol d V')) ∨
        ∃ code, (writeFileAt env buff d n (V.ent n) offset flags).run (s.withVol d V) = .error code (s'.withVol d V')) := by
  have hrange := hf.refs n hn hfile
  obtain ⟨size, kept, new, blk, ch', V₁, done, t, s', hres, hends, -, -, -, hdata, -, hr', hdisk, hrun⟩ :=
    writeFileAt_written hr (hf.isFile hn hfile) hf.root_used (fun i _ => hrange i) buff hoffset (Or.inl hrange) flags
  have hfilled : V₁.Filled ch' offset (buff.take t) (V₁.poke (V₁.fref ch') offset (buff.take t)) := by
    refine Vol.Filled.of_poke hres.file.chain fun i hi => ?_
    rw [List.length_take] at hi
    exact hdata i (by omega)
  by_cases hall : done = true ∧ t = buff.length
  · rw [if_pos hall] at hrun
    exact ⟨size, kept, new, blk, ch', V₁, done, t, _, s', hres, hends, hfilled.stamp (s.clock 0), hr', hdisk,
      Or.inl ⟨hall.1, hall.2, hrun⟩⟩
  · rw [if_neg hall] at hrun
    exact ⟨size, kept, new, blk, ch', V₁, done, t, _, s', hres, hends, hfilled, hr', hdisk, Or.inr ⟨_, hrun⟩⟩

/-- The contents of a file that all data has been written into. -/
theorem Vol.Filled.overwrites {V₁ V' : Vol} {ch' : List Nat} {size kept new offset flags : Nat} {blk : Nat → Nat} {buff : List UInt8}
    (hf : V.Format C fun _ => False) (hn : C n ≠ []) (hfile : (V.ent n).flags = tFile)
    (hres : V.Resized n (C n) size kept new blk ch' V₁)
    (hends : ResizeEnds V n (C n) (offset + buff.length) flags size kept new ch' V₁ true)
    (hsafe : ResizedSafely (V.blocks n) size kept new) (hfilled : V₁.Filled ch' offset buff V')
    (hf₁ : V₁.Format (Function.update C n ch') fun _ => False) (ha₁ : V₁.Apart (Function.update C n ch')) :
    FileTree.Overwrites (V.fileBytes (C n) 0 (V.ent n).size.toNat) offset buff (decide (flags &&& wfTruncate ≠ 0))
      (V'.fileBytes ch' 0 size) := by
  have hsize := hends.size_eq
  obtain ⟨hle, -⟩ := hres.live hends
  have hself : Function.update C n ch' n = ch' := Function.update_self _ _ _
  have hbyte : ∀ j, V'.fileByte ch' j =
      if offset ≤ j ∧ j < offset + buff.length then buff.getD (j - offset) 0 else V₁.fileByte ch' j := fun j => by
    have hj := Vol.Filled.fileByte hf₁ (n := n) (by rw [hself]; exact List.ne_nil_of_mem hres.file.mem)
      (hres.file.flags n hres.file.mem) (by rw [hself]; exact hfilled) ha₁ j
    rw [hself] at hj
    exact hj
  refine ⟨?_, fun i hi => ?_, fun i hi hi' hout => ?_⟩
  · rw [Vol.length_fileBytes, Vol.length_fileBytes]
    exact hsize
  · rw [Vol.getElem?_fileBytes _ _ _ (by omega), hbyte _, if_pos ⟨by omega, by omega⟩, Nat.zero_add, Nat.add_sub_cancel_left,
      List.getD_eq_getElem _ _ hi, List.getElem?_eq_getElem hi]
  · rw [Vol.length_fileBytes] at hi hi'
    rw [Vol.getElem?_fileBytes _ _ _ hi', Vol.getElem?_fileBytes _ _ _ hi, hbyte _, if_neg (by omega), Nat.zero_add]
    -- a byte that is not written is in a block that the file had
    have hblock : i / 512 < V.blocks n ∧ i / 512 < neededBlocks size := by
      rw [Vol.blocks, neededBlocks_eq, neededBlocks_eq]
      omega
    have href : V₁.fref ch' (i / 512) = V.fref (C n) (i / 512) := by
      rw [hres.refs, if_neg (by omega), if_pos (hsafe.keeps _ hblock.1 hblock.2)]
    have hok : V.RefOk (V.fref (C n) (i / 512)) := hf.refs n hn hfile _
    rw [Vol.fileByte, Vol.fileByte, href, hres.agree _ fun x hx => hok.ne_ent ?_]
    rcases List.mem_append.1 hx with hx | hx
    · exact hf.lt hx
    · rw [← Vol.nent_of_super hres.rewrite.super]
      exact hres.file.chain.lt x hx

/-- A write to a file that exists changes the contents of the file and nothing else, whichever way it ends; what they become is what
the write says, if it is safe and ends well. -/
theorem writeFileAt_changes (hr : Ready env s d) (hf : V.Format C fun _ => False) (hn : C n ≠ []) (hfile : (V.ent n).flags = tFile)
    {offset : Nat} (hoffset : offset < 4294967296) (buff : List UInt8) (flags : Nat) :
    ∃ s' V' C' c, Ready env s' d ∧ s'.disk = s.disk ∧
      V.Changes K (SafeWrite (V.ent n).size.toNat offset buff.length flags) C [c] V' C' ∧
      (((c = .write n offset buff (decide (flags &&& wfTruncate ≠ 0)) ∨
            c = .spoil n ∧ ¬SafeWrite (V.ent n).size.toNat offset buff.length flags) ∧
          (writeFileAt env buff d n (V.ent n) offset flags).run (s.withVol d V) = .ok buff.length (s'.withVol d V')) ∨
        ∃ code, c = .spoil n ∧
          (writeFileAt env buff d n (V.ent n) offset flags).run (s.withVol d V) = .error code (s'.withVol d V')) := by
  have hfn := hf.isFile hn hfile
  obtain ⟨size, kept, new, blk, ch', V₁, done, t, V', s', hres, hends, hfilled, hr', hdisk, hrun⟩ :=
    writeFileAt_filled hr hf hn hfile hoffset buff flags
  have hf₁ := hres.file
  obtain ⟨hformat₁, hstep₁⟩ := hf.rewrite hn hfile hres.rewrite hf₁
  obtain ⟨hformat, hstep⟩ := hf.rewrite hn hfile (hres.rewrite.touch hfn.chain.lt hfilled.touch) (hfilled.file hf₁)
  have hself : Function.update C n ch' n = ch' := Function.update_self _ _ _
  have hn₁ : Function.update C n ch' n ≠ [] := by
    rw [hself]
    exact List.ne_nil_of_mem hf₁.mem
  have hfilled₁ : V₁.Filled (Function.update C n ch' n) offset (buff.take t) V' := by
    rw [hself]
    exact hfilled
  have hkeeps : V.Apart C → V.KeepsFiles C (· = n) V' (Function.update C n ch') := by
    intro ha
    have hk₁ := hres.keepsFiles hf hn hfile
    refine hk₁.trans (hfilled₁.keepsFiles hformat₁ hn₁ fun i hi h hh' hhfile hne i' heq => ?_) fun h hh' => (hstep₁.1 h).1 hh'
    rw [hself] at heq
    rw [hself, hk₁.firstData] at hi
    obtain ⟨hh, hhfile₀, href⟩ := hk₁.ref hh' hhfile hne (heq ▸ hi)
    rw [href] at heq
    exact hres.ref_ne hf ha hn hfile hi hh hhfile₀ hne i' heq
  have hsafely : SafeWrite (V.ent n).size.toNat offset buff.length flags → ResizedSafely (V.blocks n) size kept new := by
    intro hsafe
    rw [show wrap32 (offset + buff.length) = offset + buff.length from Nat.mod_eq_of_lt hsafe.1] at hends
    exact hends.safely hfn hsafe.2
  have hchanges : ∀ c : FileTree.Change Nat CStr UInt8, c.names = .none → c.Writes n → (V.Apart C →
      c.Contents (V.headData C) (V'.headData (Function.update C n ch'))) →
        V.Changes K (SafeWrite (V.ent n).size.toNat offset buff.length flags) C [c] V' (Function.update C n ch') := by
    intro c hnames hwrites hcontents
    refine ⟨hformat, fun hk => hk.none hf.closed hstep, fun ha => FileTree.Step.single ⟨hnames ▸ hstep, fun m hm hm' hw => ?_,
      hcontents ha⟩, fun hsafe ha => hfilled₁.apart hformat₁ hn₁ (hres.apart hf ha hn hfile (hsafely hsafe))⟩
    exact (hkeeps ha).headData hm hm' fun hmn => hw (hmn ▸ hwrites)
  have hfile' : (V'.ent n).flags = tFile := (hfilled.file hf₁).flags n hf₁.mem
  have hspoil := hchanges (.spoil n) rfl rfl fun _ => ⟨_, _, if_pos hfile, if_pos hfile'⟩
  rcases hrun with ⟨rfl, rfl, hok⟩ | ⟨code, herror⟩
  · by_cases hsafe : SafeWrite (V.ent n).size.toNat offset buff.length flags
    · refine ⟨s', V', _, _, hr', hdisk, hchanges (.write n offset buff (decide (flags &&& wfTruncate ≠ 0))) rfl rfl fun ha => ?_,
        Or.inl ⟨Or.inl rfl, hok⟩⟩
      have hsafely' := hsafely hsafe
      rw [show wrap32 (offset + buff.length) = offset + buff.length from Nat.mod_eq_of_lt hsafe.1] at hends
      rw [List.take_length] at hfilled
      have hsize' : (V'.ent n).size.toNat = size := by rw [(hfilled.fields n hf₁.mem).2.2.2.2.1, hres.size]
      have hover := hfilled.overwrites hf hn hfile hres hends hsafely' hformat₁ (hres.apart hf ha hn hfile hsafely')
      refine ⟨_, _, if_pos hfile, if_pos hfile', ?_⟩
      rw [hself, hsize']
      exact hover
    · exact ⟨s', V', _, _, hr', hdisk, hspoil, Or.inl ⟨Or.inr ⟨rfl, hsafe⟩, hok⟩⟩
  · exact ⟨s', V', _, _, hr', hdisk, hspoil, Or.inr ⟨code, rfl, herror⟩⟩

end Run

end NanoS32
