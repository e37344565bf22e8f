import NanoS32.Lemmas.Rewrite

/-!
# Resizing a file

What the resizing part of `fs_write_file` leaves, whichever way it ends: how long the file is, which of its references are the ones it
had, and which are new. A new reference is a block that no file referenced when it was found; but the entry of the file is
written back only after the last of its new references has been found, and these are all the same block.
-/

namespace NanoS32

open Prog

/-- The blocks that the file with head `h` takes. -/
def Vol.blocks (V : Vol) (h : Nat) : Nat := neededBlocks (V.ent h).size.toNat

/-- The entries of the file `h` with chain `ch` have been resized: it has `size` bytes and the chain `ch'`, its first `kept` references
are the ones it had, and from the end of these bytes on `new` references have been set to blocks `blk`. -/
structure Vol.Resized (V : Vol) (h : Nat) (ch : List Nat) (size kept new : Nat) (blk : Nat → Nat) (ch' : List Nat) (V' : Vol) :
    Prop where
  rewrite : V.Rewrite ch ch' V'
  file : V'.IsFile h ch'
  agree : V.AgreeOff (ch ++ ch') V'
  times : ∀ n ∈ ch', ∃ b ∈ ch, (V'.ent n).time = (V.ent b).time ∧ (n ∈ ch → b = n)
  size : (V'.ent h).size.toNat = size
  refs : ∀ i, V'.fref ch' i = if V.blocks h ≤ i ∧ i < V.blocks h + new then blk i else if i < kept then V.fref ch i else 0
  data : ∀ i, V.blocks h ≤ i → i < V.blocks h + new → V.firstData ≤ blk i ∧ blk i < V.dataEnd
  others : ∀ i, V.blocks h ≤ i → i < V.blocks h + new → ∀ n < V.nent, n ∉ ch → blk i ∉ (V.ent n).liveRefs
  own : ∀ i, V.blocks h ≤ i → i < V.blocks h + new → ∀ i' < V.blocks h, blk i ≠ V'.fref ch' i'
  same : ∀ i i', V.blocks h ≤ i → i < V.blocks h + new → V.blocks h ≤ i' → i' < V.blocks h + new →
    (blk i = blk i' ↔ i / 120 = i' / 120)

/-- The live references of an entry of a file. -/
theorem Vol.IsFile.mem_liveRefs {V : Vol} {h : Nat} {ch : List Nat} (hf : V.IsFile h ch) {p n : Nat} (hp : ch[p]? = some n) {x : Nat} :
    x ∈ (V.ent n).liveRefs ↔ ∃ i, i / 120 = p ∧ i < V.blocks h ∧ V.fref ch i = x := by
  have hsize := hf.sizes p n hp
  have hfile := (Block.isFile_of_flags (hf.flags n (List.mem_of_getElem? hp))).1
  have hcount : neededBlocks (V.ent n).size.toNat = V.blocks h - 120 * p := by
    rw [Vol.blocks, hsize, neededBlocks_eq, neededBlocks_eq]
    omega
  rw [Block.liveRefs, if_pos hfile, hcount]
  simp only [List.mem_map, List.mem_range, sfsEntryRefs]
  constructor
  · rintro ⟨q, hq, rfl⟩
    refine ⟨120 * p + q, by omega, by omega, V.fref_of_get hp q (by omega)⟩
  · rintro ⟨i, rfl, hi, rfl⟩
    refine ⟨i % 120, by omega, ?_⟩
    have hget := V.fref_of_get hp (i % 120) (Nat.mod_lt _ (by decide))
    rw [Nat.div_add_mod] at hget
    exact hget.symm

/-- An entry that is not used has no live references. -/
theorem Block.liveRefs_of_unused {e : SfsEntry} (h : e.used = false) : e.liveRefs = [] := by
  rw [Block.liveRefs, if_neg fun hfile => ?_]
  rw [Block.used_of_isFile hfile] at h
  cases h

/-- The entries of a file that has been resized without new references. -/
theorem Vol.Rechain.resized {V V₁ V' : Vol} {h m : Nat} {ch ch' : List Nat} (hf : V.IsFile h ch) (hc : V.Rechain ch m ch' V₁)
    (htouch : V₁.Touch ch' V') (hagree : V₁.AgreeOff ch' V')
    (hfields : ∀ n ∈ ch', (V'.ent n).refAt = (V₁.ent n).refAt ∧ (V'.ent n).time = (V₁.ent n).time) (hfile : V'.IsFile h ch') :
    V.Resized h ch (V'.ent h).size.toNat m 0 (fun _ => 0) ch' V' := by
  obtain ⟨hre, -⟩ := hf.rechain hc
  refine ⟨hre.touch hf.chain.lt htouch, hfile, hc.agree.trans (hagree.mono (List.subset_append_right _ _)), fun n hn => ?_, rfl,
    fun i => ?_, fun i h1 h2 => ?_, fun i h1 h2 => ?_, fun i h1 h2 => ?_, fun i i' h1 h2 => ?_⟩
  · by_cases hin : n ∈ ch
    · exact ⟨n, hin, (hfields n hn).2.trans (hc.kept n hn hin).2.2.1, fun _ => rfl⟩
    · obtain ⟨-, -, b, hb, -, -, htime⟩ := hc.added n hn hin
      exact ⟨b, List.mem_of_getLast? hb, (hfields n hn).2.trans htime, fun h => absurd h hin⟩
  · rw [Vol.fref_congr (fun n hn => (hfields n hn).1) i, hc.refs,
      if_neg (show ¬(V.blocks h ≤ i ∧ i < V.blocks h + 0) by omega)]
  all_goals exact absurd h2 (by omega)

/-- A file that stays as it is. -/
theorem Vol.IsFile.resized_refl {V : Vol} {h : Nat} {ch : List Nat} (hf : V.IsFile h ch) :
    V.Resized h ch (V.ent h).size.toNat (120 * ch.length) 0 (fun _ => 0) ch V := by
  refine ⟨(Vol.Touch.refl V ch).rewrite, hf, Vol.AgreeOff.refl _ _, fun n hn => ⟨n, hn, rfl, fun _ => rfl⟩, rfl, fun i => ?_,
    fun i h1 h2 => ?_, fun i h1 h2 => ?_, fun i h1 h2 => ?_, fun i i' h1 h2 => ?_⟩
  · rw [if_neg (show ¬(V.blocks h ≤ i ∧ i < V.blocks h + 0) by omega)]
    split_ifs with hi
    · rfl
    · exact V.fref_of_le (by omega)
  all_goals exact absurd h2 (by omega)

/-- New references in a file that has been resized without them. -/
theorem Vol.Resized.alloced {V W V' : Vol} {h size kept k : Nat} {ch l₁ l₂ : List Nat} {blk₀ blk : Nat → Nat} (hf : V.IsFile h ch)
    (hw : V.Resized h ch size kept 0 blk₀ (l₁ ++ l₂) W) (hlen : l₁.length = V.blocks h / 120)
    (ha : W.Alloced l₂ (V.blocks h % 120) k blk V') (hk : V.blocks h + k ≤ neededBlocks size) :
    V.Resized h ch size kept k (fun i => blk ((i - 120 * l₁.length) / 120)) (l₁ ++ l₂) V' := by
  have hc := hw.file.chain
  obtain ⟨htouch, hsizes, -⟩ := ha.touch hc hlen
  have hnent : W.nent = V.nent := Vol.nent_of_super hw.rewrite.super
  have hfile : V'.IsFile h (l₁ ++ l₂) := hw.file.touch htouch hsizes
  have hsize : (V'.ent h).size.toNat = size := by rw [hsizes h hw.file.mem, hw.size]
  have hrefs : ∀ i, V'.fref (l₁ ++ l₂) i = if V.blocks h ≤ i ∧ i < V.blocks h + k then blk ((i - 120 * l₁.length) / 120)
      else if i < kept then V.fref ch i else 0 := fun i => by
    rw [ha.fref_append hc.nodup hlen, hw.refs i, if_neg (show ¬(V.blocks h ≤ i ∧ i < V.blocks h + 0) by omega)]
  have hblocks : W.blocks h = neededBlocks size ∧ V'.blocks h = neededBlocks size := by
    rw [Vol.blocks, Vol.blocks, hw.size, hsize]
    exact ⟨rfl, rfl⟩
  -- the place in the last part of the chain where a new reference is
  have hplace : ∀ i, V.blocks h ≤ i → i < V.blocks h + k →
      0 < k ∧ 120 * ((i - 120 * l₁.length) / 120) < V.blocks h % 120 + k ∧ i / 120 = l₁.length + (i - 120 * l₁.length) / 120 := by
    intro i h1 h2
    refine ⟨by omega, ?_, by omega⟩
    have hdiv := Nat.mul_div_le (i - 120 * l₁.length) 120
    omega
  have hget : ∀ i < neededBlocks size, ∃ n, (l₁ ++ l₂)[i / 120]? = some n ∧ V'.fref (l₁ ++ l₂) i ∈ (V'.ent n).liveRefs ∧
      (i < V.blocks h → V'.fref (l₁ ++ l₂) i ∈ (W.ent n).liveRefs) := by
    intro i hi
    have hlt : i / 120 < (l₁ ++ l₂).length := by
      have hfits := hw.file.fits
      rw [hw.size] at hfits
      rw [neededBlocks_eq] at hi
      omega
    obtain ⟨n, hn⟩ : ∃ n, (l₁ ++ l₂)[i / 120]? = some n := ⟨_, List.getElem?_eq_getElem hlt⟩
    refine ⟨n, hn, (hfile.mem_liveRefs hn).2 ⟨i, rfl, by rw [hblocks.2]; exact hi, rfl⟩, fun hold => ?_⟩
    refine (hw.file.mem_liveRefs hn).2 ⟨i, rfl, by rw [hblocks.1]; exact hi, ?_⟩
    rw [hrefs, if_neg (by omega), hw.refs, if_neg (by omega)]
  -- a new block is not a live reference of an entry before the one that it is for, nor of another as it was
  have hfresh : ∀ i, V.blocks h ≤ i → i < V.blocks h + k → ∀ n < V.nent,
      (n ∉ l₂.take ((i - 120 * l₁.length) / 120) → blk ((i - 120 * l₁.length) / 120) ∉ (W.ent n).liveRefs) ∧
        (n ∈ l₂.take ((i - 120 * l₁.length) / 120) → blk ((i - 120 * l₁.length) / 120) ∉ (V'.ent n).liveRefs) := by
    intro i h1 h2 n hn
    obtain ⟨hpos, hlo, -⟩ := hplace i h1 h2
    obtain ⟨hout, hin⟩ := ha.free _ hpos hlo
    exact ⟨hout n (hnent ▸ hn), hin n⟩
  have hmem : ∀ {p n : Nat}, (l₁ ++ l₂)[p]? = some n → n < V.nent := fun hn => hnent ▸ hc.lt _ (List.mem_of_getElem? hn)
  have hdiff : ∀ i i', V.blocks h ≤ i → i < V.blocks h + k → V.blocks h ≤ i' → i' < V.blocks h + k → i / 120 < i' / 120 →
      blk ((i - 120 * l₁.length) / 120) ≠ blk ((i' - 120 * l₁.length) / 120) := by
    intro i i' h1 h2 h1' h2' hlt heq
    obtain ⟨n, hn, hlive, -⟩ := hget i (by omega)
    obtain ⟨-, -, hi⟩ := hplace i h1 h2
    obtain ⟨-, -, hi'⟩ := hplace i' h1' h2'
    have htake : n ∈ l₂.take ((i' - 120 * l₁.length) / 120) := by
      rw [hi, List.getElem?_append_right (Nat.le_add_right _ _), Nat.add_sub_cancel_left] at hn
      refine List.mem_of_getElem? (i := (i - 120 * l₁.length) / 120) ?_
      rw [List.getElem?_take_of_lt (by omega)]
      exact hn
    refine (hfresh i' h1' h2' n (hmem hn)).2 htake ?_
    rw [hrefs, if_pos ⟨h1, h2⟩, heq] at hlive
    exact hlive
  refine ⟨hw.rewrite.touch hf.chain.lt htouch, hfile, ?_, fun n hn => ?_, hsize, hrefs, fun i h1 h2 => ?_, fun i h1 h2 n hn hout => ?_,
    fun i h1 h2 i' hi' heq => ?_, fun i i' h1 h2 h1' h2' => ⟨fun heq => ?_, fun heq => ?_⟩⟩
  · exact hw.agree.trans (ha.agree.mono fun x hx => List.mem_append_right _ (List.mem_append_right _ hx))
  · obtain ⟨b, hb, htime, hsame⟩ := hw.times n hn
    obtain ⟨r, hr⟩ := ha.refsOnly n
    exact ⟨b, hb, by rw [hr]; exact htime, hsame⟩
  · obtain ⟨hpos, hlo, -⟩ := hplace i h1 h2
    have hdata := ha.data _ hpos hlo
    rw [hw.agree.firstData, hw.agree.dataEnd] at hdata
    exact hdata
  · intro hlive
    by_cases hch : n ∈ l₁ ++ l₂
    · rw [Block.liveRefs_of_unused (hw.rewrite.fresh n hch hout).1] at hlive
      cases hlive
    · have hsame : W.ent n = V.ent n := hw.rewrite.table n hn hout hch
      refine (hfresh i h1 h2 n hn).1 (fun hin => hch (List.mem_append_right _ (List.mem_of_mem_take hin))) ?_
      rw [hsame]
      exact hlive
  · obtain ⟨n, hn, hlive, hold⟩ := hget i' (by omega)
    by_cases hin : n ∈ l₂.take ((i - 120 * l₁.length) / 120)
    · exact (hfresh i h1 h2 n (hmem hn)).2 hin (by rw [heq]; exact hlive)
    · exact (hfresh i h1 h2 n (hmem hn)).1 hin (by rw [heq]; exact hold hi')
  · rcases Nat.lt_trichotomy (i / 120) (i' / 120) with hlt | he | hlt
    · exact absurd heq (hdiff i i' h1 h2 h1' h2' hlt)
    · exact he
    · exact absurd heq.symm (hdiff i' i h1' h2' h1 h2 hlt)
  · obtain ⟨-, -, hi⟩ := hplace i h1 h2
    obtain ⟨-, -, hi'⟩ := hplace i' h1' h2'
    rw [show (i - 120 * l₁.length) / 120 = (i' - 120 * l₁.length) / 120 by omega]

section Run

variable {env : Env} {s : Sys} {d : Nat}

/-- The first part of both ways to resize a file. -/
theorem recount_resized (hr : Ready env s d) {V : Vol} {h : Nat} {ch : List Nat} (hf : V.IsFile h ch)
    (hroot : (V.ent 0).used = true) {last : Nat} (hlast : last < 4294967296) :
    ∃ V' ch' kept, V.Resized h ch (V'.ent h).size.toNat kept 0 (fun _ => 0) ch' V' ∧
      (((V'.ent h).size.toNat = last ∧ kept = keptRefs (neededBlocks last) ∧ ch'.length = chainEntries (neededBlocks last) ∧
        (setEntryRefcount env d h (neededBlocks last) >>= fun _ => setEntrySize env d h last).run (s.withVol d V) =
          .ok () (s.withVol d V')) ∨
      ((V'.ent h).size = (V.ent h).size ∧ kept = 120 * ch'.length ∧ ch <+: ch' ∧
        V.freeCount < chainEntries (neededBlocks last) - ch.length ∧
        (setEntryRefcount env d h (neededBlocks last) >>= fun _ => setEntrySize env d h last).run (s.withVol d V) =
          .error errorNoSpace (s.withVol d V'))) := by
  obtain ⟨V₁, ch', m, hc, ⟨hlen, hm, hrun⟩ | ⟨hpre, hm, hcount, hrun⟩⟩ :=
    setEntryRefcount_chain hr hf.toFileChained hroot (neededBlocks last)
  · obtain ⟨-, hf₁⟩ := hf.rechain hc
    obtain ⟨V₂, ⟨f, hV₂⟩, hf₂, hsize, hrun₂⟩ := setEntrySize_file hr hf₁ hlast hlen
    have hres := hc.resized hf (hV₂ ▸ Vol.Touch.setSizes V₁ ch' f) (hV₂ ▸ Vol.agreeOff_updEnts V₁ ch' _)
      (fun n hn => by rw [hV₂, Vol.ent_updEnts, if_pos hn]; exact ⟨rfl, rfl⟩) hf₂
    exact ⟨V₂, ch', m, hres, Or.inl ⟨hsize, hm, hlen, by rw [bind_ok hrun, hrun₂]⟩⟩
  · obtain ⟨-, hf₁⟩ := hf.rechain hc
    have hmem : ∀ n ∈ ch, n ∈ ch' := fun n hn => hpre.subset hn
    have hhead : (V₁.ent h).size = (V.ent h).size := (hc.kept h (hmem h hf.mem) hf.mem).2.2.2.1
    have hfits := hf.fits
    -- the entries that have been added have size 0
    have hfile : V₁.IsFile h ch' := by
      obtain ⟨new, rfl⟩ := id hpre
      refine { toFileChained := hf₁, sizes := fun k n hn => ?_, fits := ?_ }
      · have hn' : n ∈ ch ++ new := List.mem_of_getElem? hn
        rcases Nat.lt_or_ge k ch.length with hk | hk
        · rw [List.getElem?_append_left hk] at hn
          rw [(hc.kept n hn' (List.mem_of_getElem? hn)).2.2.2.1, hhead]
          exact hf.sizes k n hn
        · have hout : n ∉ ch := by
            rw [List.getElem?_append_right hk] at hn
            exact fun hm => (List.nodup_append.1 hf₁.chain.nodup).2.2 n hm n (List.mem_of_getElem? hn) rfl
          have hmul : 61440 * ch.length ≤ 61440 * k := Nat.mul_le_mul_left _ hk
          rw [(hc.added n hn' hout).2.1, hhead]
          simp only [UInt32.toNat_zero]
          omega
      · rw [hhead, List.length_append]
        omega
    have hres := hc.resized hf (Vol.Touch.refl V₁ ch') (Vol.AgreeOff.refl _ _) (fun _ _ => ⟨rfl, rfl⟩) hfile
    exact ⟨V₁, ch', m, hres, Or.inr ⟨hhead, hm, hpre, hcount, by rw [bind_error hrun]⟩⟩

/-- How the resizing of a file ends: it stays as it is, it gets its size, there are not enough free entries for it, or not enough
blocks. -/
inductive ResizeEnds (V : Vol) (h : Nat) (ch : List Nat) (last flags : Nat) : Nat → Nat → Nat → List Nat → Vol → Bool → Prop where
  | stays (hgrow : ¬(V.ent h).size.toNat < last) (hcut : ¬(last < (V.ent h).size.toNat ∧ flags &&& wfTruncate ≠ 0)) :
      ResizeEnds V h ch last flags (V.ent h).size.toNat (120 * ch.length) 0 ch V true
  | resized {ch' : List Nat} {V' : Vol}
      (hresize : (V.ent h).size.toNat < last ∨ (last < (V.ent h).size.toNat ∧ flags &&& wfTruncate ≠ 0))
      (hlen : ch'.length = chainEntries (neededBlocks last)) :
      ResizeEnds V h ch last flags last (keptRefs (neededBlocks last)) (neededBlocks last - V.blocks h) ch' V' true
  | noEntry {ch' : List Nat} {V' : Vol} (hpre : ch <+: ch') (hcount : V.freeCount < chainEntries (neededBlocks last) - ch.length) :
      ResizeEnds V h ch last flags (V.ent h).size.toNat (120 * ch'.length) 0 ch' V' false
  | noBlock {new : Nat} {ch' : List Nat} {V' : Vol} (hgrow : (V.ent h).size.toNat < last)
      (hlen : ch'.length = chainEntries (neededBlocks last)) (hnew : new < neededBlocks last - V.blocks h)
      (hnone : V'.freeBlock = none) :
      ResizeEnds V h ch last flags last (keptRefs (neededBlocks last)) new ch' V' false

/-- The resizing of a file. -/
theorem resizeFile_resized (hr : Ready env s d) {V : Vol} {h : Nat} {ch : List Nat} (hf : V.IsFile h ch)
    (hroot : (V.ent 0).used = true) {last : Nat} (hlast : last < 4294967296) (flags : Nat) :
    ∃ size kept new blk ch' V' done, V.Resized h ch size kept new blk ch' V' ∧
      ResizeEnds V h ch last flags size kept new ch' V' done ∧
      (resizeFile env d h (V.ent h) last flags).run (s.withVol d V) =
        if done then .ok (V'.ent h) (s.withVol d V') else .error errorNoSpace (s.withVol d V') := by
  have hnent := hf.geo.nent_lt
  have hlt := hf.lt
  have hget : ∀ {W : Vol}, W 1 = V 1 → (getEntryN env d h).run (s.withVol d W) = .ok (W.ent h) (s.withVol d W) :=
    fun _ => getEntryN_run hr _ (by omega)
  obtain ⟨V₁, ch', kept, hres, hrun⟩ := recount_resized hr hf hroot hlast
  rcases Nat.lt_or_ge (V.ent h).size.toNat last with hgrow | hsize
  · -- the file grows
    have heq : resizeFile env d h (V.ent h) last flags =
        ((setEntryRefcount env d h (neededBlocks last) >>= fun _ => setEntrySize env d h last) >>= fun _ =>
          getEntryN env d h >>= fun t => (growLoop env d (neededBlocks last - V.blocks h)
            (V.blocks h) h t >>= fun p => writeEntry env d p.1 p.2) >>= fun _ => getEntryN env d h) >>=
          fun entry => if last < entry.size.toNat ∧ flags &&& wfTruncate ≠ 0 then shrinkFile env d h last else pure entry := by
      unfold resizeFile growFile Vol.blocks
      rw [if_pos hgrow]
      simp only [bind_assoc]
    rw [heq]
    rcases hrun with ⟨hsize₁, hkept, hlen, hrun⟩ | ⟨hsize₁, hkept, hpre, hcount, hrun⟩
    · rw [hsize₁] at hres
      have hroom : V.blocks h + (neededBlocks last - V.blocks h) ≤ 120 * ch'.length := by
        have hfits := hres.file.fits
        rw [hsize₁] at hfits
        rw [Vol.blocks, neededBlocks_eq, neededBlocks_eq]
        omega
      obtain ⟨l₁, l₂, V₂, k, blk, rfl, hlen₁, halloc, hend⟩ := growLoop_alloced hr hres.file.toFileChained hroom
      have hk : V.blocks h + k ≤ neededBlocks last := by
        have hblocks : V.blocks h ≤ neededBlocks last := by
          rw [Vol.blocks, neededBlocks_eq, neededBlocks_eq]
          omega
        rcases hend with ⟨rfl, -⟩ | ⟨hlt, -, -⟩ <;> omega
      have hres₂ := hres.alloced hf hlen₁ halloc hk
      rcases hend with ⟨rfl, hloop⟩ | ⟨hless, hnone, hloop⟩
      · refine ⟨_, _, _, _, _, V₂, true, hres₂, hkept ▸ .resized (Or.inl hgrow) hlen, ?_⟩
        have hnot : ¬(last < (V₂.ent h).size.toNat ∧ flags &&& wfTruncate ≠ 0) := by
          rw [hres₂.size]
          exact fun hlt => Nat.lt_irrefl _ hlt.1
        have hmain : ((setEntryRefcount env d h (neededBlocks last) >>= fun _ => setEntrySize env d h last) >>= fun _ =>
            getEntryN env d h >>= fun t => (growLoop env d (neededBlocks last - V.blocks h)
              (V.blocks h) h t >>= fun p => writeEntry env d p.1 p.2) >>= fun _ =>
                getEntryN env d h).run (s.withVol d V) = .ok (V₂.ent h) (s.withVol d V₂) := by
          rw [bind_ok hrun, bind_ok (hget hres.rewrite.super), bind_ok hloop, hget hres₂.rewrite.super]
        rw [bind_ok hmain, if_neg hnot, if_pos rfl]
        rfl
      · refine ⟨_, _, _, _, _, V₂, false, hres₂, hkept ▸ .noBlock hgrow hlen hless hnone, ?_⟩
        rw [if_neg Bool.false_ne_true]
        refine bind_error ?_
        rw [bind_ok hrun, bind_ok (hget hres.rewrite.super), bind_error hloop]
    · rw [hsize₁] at hres
      refine ⟨_, _, _, _, _, V₁, false, hres, hkept ▸ .noEntry hpre hcount, ?_⟩
      rw [if_neg Bool.false_ne_true]
      refine bind_error ?_
      rw [bind_error hrun]
  · by_cases hcut : last < (V.ent h).size.toNat ∧ flags &&& wfTruncate ≠ 0
    · -- the file is cut
      have heq : resizeFile env d h (V.ent h) last flags =
          (setEntryRefcount env d h (neededBlocks last) >>= fun _ => setEntrySize env d h last) >>= fun _ => getEntryN env d h := by
        unfold resizeFile shrinkFile
        rw [if_neg (Nat.not_lt.2 hsize), Prog.bind_assoc]
        refine ext fun s => ?_
        rw [bind_ok (run_pure _ _)]
        dsimp only
        rw [if_pos hcut]
      rw [heq]
      rcases hrun with ⟨hsize₁, hkept, hlen, hrun⟩ | ⟨hsize₁, hkept, hpre, hcount, hrun⟩
      · have hnone : neededBlocks last - V.blocks h = 0 := by
          rw [Vol.blocks, neededBlocks_eq, neededBlocks_eq]
          omega
        rw [hsize₁] at hres
        have hends : ResizeEnds V h ch last flags last (keptRefs (neededBlocks last)) (neededBlocks last - V.blocks h) ch' V₁ true :=
          .resized (Or.inr hcut) hlen
        rw [hnone] at hends
        refine ⟨_, _, _, _, _, V₁, true, hres, hkept ▸ hends, ?_⟩
        rw [bind_ok hrun, hget hres.rewrite.super, if_pos rfl]
      · rw [hsize₁] at hres
        refine ⟨_, _, _, _, _, V₁, false, hres, hkept ▸ .noEntry hpre hcount, ?_⟩
        rw [bind_error hrun, if_neg Bool.false_ne_true]
    · -- the file stays
      refine ⟨_, _, _, _, _, V, true, hf.resized_refl, .stays (Nat.not_lt.2 hsize) hcut, ?_⟩
      unfold resizeFile
      rw [if_neg (Nat.not_lt.2 hsize), bind_ok (run_pure _ _)]
      dsimp only
      rw [if_neg hcut, run_pure, if_pos rfl]

/-- A file whose resizing ends well is as long as the write needs, and the references it has got are data blocks. -/
theorem Vol.Resized.live {V V' : Vol} {h last flags size kept new : Nat} {ch ch' : List Nat} {blk : Nat → Nat}
    (hres : V.Resized h ch size kept new blk ch' V') (hends : ResizeEnds V h ch last flags size kept new ch' V' true) :
    last ≤ size ∧ ∀ i < neededBlocks size, i < V.blocks h ∨ V.RefOk (V'.fref ch' i) := by
  cases hends with
  | stays hgrow _ => exact ⟨Nat.le_of_not_lt hgrow, fun i hi => Or.inl hi⟩
  | resized _ _ =>
    refine ⟨Nat.le_refl _, fun i hi => ?_⟩
    rcases Nat.lt_or_ge i (V.blocks h) with hold | hnew
    · exact Or.inl hold
    · have hin : V.blocks h ≤ i ∧ i < V.blocks h + (neededBlocks last - V.blocks h) := by omega
      rw [hres.refs, if_pos hin]
      exact Or.inr (Or.inr (hres.data i hin.1 hin.2))

/-- Setting the time along the chain. -/
theorem setEntryTime_chain (hr : Ready env s d) {V : Vol} (hg : V.Geo) {a : Nat} {l : List Nat} (hc : V.IsChain (a :: l)) :
    ∃ s', Ready env s' d ∧ s'.disk = s.disk ∧ (setEntryTimeToCurrent env d a).run (s.withVol d V) =
      .ok () (s'.withVol d (V.updEnts (a :: l) fun _ e => e.setTime (s.clock 0))) := by
  have hfuel := hr.fuel
  have hnent := hg.nent_lt
  have hle := hc.length_le
  rw [List.length_cons] at hle
  have hr' : Ready env { s with clock := fun k => s.clock (k + 1) } d := ⟨hr.disk, hr.present, hr.faults, hr.fuel⟩
  exact ⟨_, hr', rfl, setTimeLoop_run hr' (s.clock 0) env.fuel a l V hg hc (by omega)⟩

/-- `fs_write_file` on a file that exists, whose live references are data blocks: the references past them are too, or the write
does not go past the addresses of 32 bits. The file is resized, and then the first `t` bytes are written; they are all of them unless
there is no space, or no block for the next one. -/
theorem writeFileAt_written (hr : Ready env s d) {V : Vol} {h : Nat} {ch : List Nat} (hf : V.IsFile h ch)
    (hroot : (V.ent 0).used = true) (hlive : ∀ i < V.blocks h, V.RefOk (V.fref ch i)) {offset : Nat}
    (buff : List UInt8) (hoffset : offset < 4294967296) (hwrap : V.RefsInRange ch ∨ offset + buff.length < 4294967296)
    (flags : Nat) :
    ∃ size kept new blk ch' V' done t s', V.Resized h ch size kept new blk ch' V' ∧
      ResizeEnds V h ch (wrap32 (offset + buff.length)) flags size kept new ch' V' done ∧
      (done = true → ∀ i < neededBlocks size, V.RefOk (V'.fref ch' i)) ∧ t ≤ buff.length ∧ (done = false → t = 0) ∧
      (∀ i < t, V'.firstData ≤ V'.fref ch' ((offset + i) / 512)) ∧
      (done = true → t < buff.length → V'.fref ch' ((offset + t) / 512) = 0 ∨ offset = 4294967295) ∧
      Ready env s' d ∧ s'.disk = s.disk ∧ (writeFileAt env buff d h (V.ent h) offset flags).run (s.withVol d V) =
        if done = true ∧ t = buff.length then
          .ok buff.length (s'.withVol d ((V'.poke (V'.fref ch') offset (buff.take t)).updEnts ch' fun _ e => e.setTime (s.clock 0)))
        else .error (if done then errorIo else errorNoSpace) (s'.withVol d (V'.poke (V'.fref ch') offset (buff.take t))) := by
  obtain ⟨size, kept, new, blk, ch', V₁, done, hres, hends, hrun⟩ :=
    resizeFile_resized hr hf hroot (Nat.mod_lt (offset + buff.length) (by decide)) flags
  have hf₁ := hres.file
  unfold writeFileAt
  cases done with
  | false =>
    have hnot : ¬(false = true ∧ 0 = buff.length) := fun h => Bool.false_ne_true h.1
    refine ⟨size, kept, new, blk, ch', V₁, false, 0, s, hres, hends, fun h => absurd h Bool.false_ne_true, Nat.zero_le _, fun _ => rfl,
      fun i hi => absurd hi (Nat.not_lt_zero i), fun h => absurd h Bool.false_ne_true, hr, rfl, ?_⟩
    rw [if_neg hnot]
    exact bind_error hrun
  | true =>
    obtain ⟨hlast, hnew⟩ := hres.live hends
    have hlive₁ : ∀ i < neededBlocks size, V.RefOk (V₁.fref ch' i) := by
      intro i hi
      rcases hnew i hi with hold | hok
      · rcases hres.rewrite.refs i with hok | heq
        · exact hok
        · rw [heq]
          exact hlive i hold
      · exact hok
    -- every reference that the data loop comes to is fine
    have hrefs : ∀ i < buff.length, V₁.RefOk (V₁.fref ch' ((offset + i) / 512)) := by
      intro i hi
      rw [Vol.RefOk.of_super hres.rewrite.super]
      rcases hwrap with hall | hno
      · rcases hres.rewrite.refs ((offset + i) / 512) with hok | heq
        · exact hok
        · rw [heq]
          exact hall _
      · refine hlive₁ _ ?_
        rw [Nat.mod_eq_of_lt hno] at hlast
        rw [neededBlocks_eq]
        omega
    obtain ⟨l, rfl⟩ := hf₁.cons
    obtain ⟨t, hle, hdata, hstop, hloop⟩ := writeLoop_run hr buff.length 0 offset buff V₁ (show 0 < (h :: l).length from Nat.succ_pos _)
      hf₁.geo hf₁.chain hrefs (Nat.le_refl _) (by omega) (by omega)
    rw [List.getElem_cons_zero, Nat.mul_zero, Nat.sub_zero] at hloop
    rw [Nat.mul_zero, Nat.sub_zero] at hstop
    have hin : ∀ i < (buff.take t).length, V₁.firstData ≤ V₁.fref (h :: l) ((offset + i) / 512) := by
      intro i hi
      rw [List.length_take] at hi
      exact hdata i (by omega)
    have htouch : V₁.Touch (h :: l) (V₁.poke (V₁.fref (h :: l)) offset (buff.take t)) := Vol.Touch.poke hf₁.chain hin
    obtain ⟨hent, -, -⟩ := Vol.poke_table hf₁.chain hin
    have hf₂ := hf₁.touch htouch fun n hn => by rw [hent n (hf₁.chain.lt n hn)]
    have hmain : (resizeFile env d h (V.ent h) (wrap32 (offset + buff.length)) flags).run (s.withVol d V) =
        .ok (V₁.ent h) (s.withVol d V₁) := hrun
    rw [bind_ok hmain]
    by_cases hall : t = buff.length
    · -- all data has been written
      rw [if_pos hall] at hloop
      obtain ⟨s', hr', hdisk, htime⟩ := setEntryTime_chain hr hf₂.geo hf₂.chain
      refine ⟨size, kept, new, blk, h :: l, V₁, true, t, s', hres, hends, fun _ => hlive₁, hle, fun h => absurd h.symm Bool.false_ne_true,
        hdata, fun _ => hstop, hr', hdisk, ?_⟩
      rw [if_pos ⟨rfl, hall⟩, bind_ok hloop]
      dsimp only
      rw [bind_ok htime]
      exact run_pure _ _
    · rw [if_neg hall] at hloop
      refine ⟨size, kept, new, blk, h :: l, V₁, true, t, s, hres, hends, fun _ => hlive₁, hle, fun h => absurd h.symm Bool.false_ne_true,
        hdata, fun _ => hstop, hr, rfl, ?_⟩
      rw [if_neg fun h => hall h.2]
      exact bind_error hloop

end Run

end NanoS32
