import NanoS32.Lemmas.Data
import NanoS32.Lemmas.Items

/-!
# Rewriting a file

What `fs_write_file` does to the table and to the data of a file that exists, whichever way it ends: the chain of the file is cut
or gets entries that were free, the sizes along it are those of the file again, and its references stay or get data blocks.
-/

namespace NanoS32

open Prog

/-- Entry `h` is the head of the chain `ch` of entries of a file. -/
structure Vol.FileChained (V : Vol) (h : Nat) (ch : List Nat) : Prop where
  geo : V.Geo
  head : ch.head? = some h
  chain : V.IsChain ch
  flags : ∀ n ∈ ch, (V.ent n).flags = tFile

/-- Entry `h` is the head of a file with chain `ch`, whose size fits the chain and is noted along it. -/
structure Vol.IsFile (V : Vol) (h : Nat) (ch : List Nat) : Prop extends V.FileChained h ch where
  sizes : ∀ k n, ch[k]? = some n → (V.ent n).size.toNat = (V.ent h).size.toNat - 61440 * k
  fits : (V.ent h).size.toNat ≤ 61440 * ch.length

/-- The entries of the chain `ch` have changed, but not what links and names them, and their references have stayed or become
data blocks. -/
structure Vol.Touch (V : Vol) (ch : List Nat) (V' : Vol) : Prop where
  super : V' 1 = V 1
  table : ∀ n < V.nent, n ∉ ch → V'.ent n = V.ent n
  fields : ∀ n ∈ ch, (V'.ent n).flags = (V.ent n).flags ∧ (V'.ent n).name = (V.ent n).name ∧
    (V'.ent n).next = (V.ent n).next ∧ (V'.ent n).parent = (V.ent n).parent
  refs : ∀ i, V.RefOk (V'.fref ch i) ∨ V'.fref ch i = V.fref ch i

/-- The file with chain `ch` has been rewritten, and its chain is `ch'`. -/
structure Vol.Rewrite (V : Vol) (ch ch' : List Nat) (V' : Vol) : Prop where
  super : V' 1 = V 1
  table : ∀ n < V.nent, n ∉ ch → n ∉ ch' → V'.ent n = V.ent n
  fresh : ∀ n ∈ ch', n ∉ ch → (V.ent n).used = false ∧ ∃ b ∈ ch, (V'.ent n).name = (V.ent b).name
  dropped : ∀ n ∈ ch, n ∉ ch' → (V'.ent n).used = false
  kept : ∀ n ∈ ch', n ∈ ch → (V'.ent n).name = (V.ent n).name ∧ (V'.ent n).parent = (V.ent n).parent
  refs : ∀ i, V.RefOk (V'.fref ch' i) ∨ V'.fref ch' i = V.fref ch i

/-! ## The file and its chain -/

theorem Vol.nent_of_super {V V' : Vol} (h : V' 1 = V 1) : V'.nent = V.nent := by rw [Vol.nent, h, Vol.nent]

theorem Vol.RefOk.of_super {V V' : Vol} (h : V' 1 = V 1) {ref : Nat} : V'.RefOk ref ↔ V.RefOk ref := by
  unfold Vol.RefOk Vol.firstData Vol.dataEnd Vol.nent Vol.nblk
  rw [h]

namespace Vol.FileChained

variable {V V' : Vol} {h : Nat} {ch : List Nat}

theorem cons (hf : V.FileChained h ch) : ∃ l, ch = h :: l := by
  have hh := hf.head
  cases ch with
  | nil => cases hh
  | cons a l =>
    obtain rfl := Option.some.inj hh
    exact ⟨l, rfl⟩

theorem mem (hf : V.FileChained h ch) : h ∈ ch := List.mem_of_head? hf.head

theorem lt (hf : V.FileChained h ch) : h < V.nent := hf.chain.lt h hf.mem

theorem used (hf : V.FileChained h ch) : ∀ n ∈ ch, (V.ent n).used = true := fun n hn =>
  Block.used_of_isFile (Block.isFile_of_flags (hf.flags n hn)).1

theorem unit (hf : V.FileChained h ch) : ∀ n ∈ ch, (V.ent n).unit = 61440 := by
  intro n hn
  obtain ⟨hisFile, -⟩ := Block.isFile_of_flags (hf.flags n hn)
  rw [Block.unit, hisFile, if_pos rfl]
  rfl

theorem touch (hf : V.FileChained h ch) (ht : V.Touch ch V') : V'.FileChained h ch := by
  refine ⟨hf.geo.of_super ht.super, hf.head, ?_, fun n hn => (ht.fields n hn).1.trans (hf.flags n hn)⟩
  obtain ⟨l, rfl⟩ := hf.cons
  exact hf.chain.congr (Vol.nent_of_super ht.super) (fun n hn => (ht.fields n hn).2.2.1)
    fun n hn => (ht.fields n (List.mem_cons_of_mem _ hn)).2.2.2

end Vol.FileChained

/-- A file stays one when the sizes along its chain stay. -/
theorem Vol.IsFile.touch {V V' : Vol} {h : Nat} {ch : List Nat} (hf : V.IsFile h ch) (ht : V.Touch ch V')
    (hsize : ∀ n ∈ ch, (V'.ent n).size = (V.ent n).size) : V'.IsFile h ch := by
  refine { toFileChained := hf.toFileChained.touch ht, sizes := fun k n hn => ?_, fits := ?_ }
  · rw [hsize n (List.mem_of_getElem? hn), hsize h hf.mem]
    exact hf.sizes k n hn
  · rw [hsize h hf.mem]
    exact hf.fits

/-- Changing the entries of a chain once more, after it has been rewritten. -/
theorem Vol.Rewrite.touch {V V' V'' : Vol} {ch ch' : List Nat} (h : V.Rewrite ch ch' V') (hlt : ∀ n ∈ ch, n < V.nent)
    (ht : V'.Touch ch' V'') : V.Rewrite ch ch' V'' := by
  have hnent : V'.nent = V.nent := Vol.nent_of_super h.super
  refine ⟨ht.super.trans h.super, fun n hn h1 h2 => ?_, fun n hn hout => ?_, fun n hn hout => ?_, fun n hn hin => ?_, fun i => ?_⟩
  · rw [ht.table n (hnent ▸ hn) h2, h.table n hn h1 h2]
  · obtain ⟨hu, b, hb, hname⟩ := h.fresh n hn hout
    exact ⟨hu, b, hb, (ht.fields n hn).2.1.trans hname⟩
  · rw [ht.table n (hnent ▸ hlt n hn) hout]
    exact h.dropped n hn hout
  · obtain ⟨h1, h2⟩ := h.kept n hn hin
    exact ⟨(ht.fields n hn).2.1.trans h1, (ht.fields n hn).2.2.2.trans h2⟩
  · rcases ht.refs i with hi | hi
    · exact Or.inl ((Vol.RefOk.of_super h.super).1 hi)
    · rw [hi]
      exact h.refs i

/-- Changing the entries of a chain is rewriting the file. -/
theorem Vol.Touch.rewrite {V V' : Vol} {ch : List Nat} (h : V.Touch ch V') : V.Rewrite ch ch V' :=
  ⟨h.super, fun n hn h1 _ => h.table n hn h1, fun _ h1 h2 => absurd h1 h2, fun _ h1 h2 => absurd h1 h2,
    fun n hn _ => ⟨(h.fields n hn).2.1, (h.fields n hn).2.2.2⟩, h.refs⟩

theorem Vol.Touch.refl (V : Vol) (ch : List Nat) : V.Touch ch V :=
  ⟨rfl, fun _ _ _ => rfl, fun _ _ => ⟨rfl, rfl, rfl, rfl⟩, fun _ => Or.inr rfl⟩

/-! ## The steps -/

/-- Cutting or lengthening the chain. -/
theorem Vol.FileChained.rechain {V V' : Vol} {h m : Nat} {ch ch' : List Nat} (hf : V.FileChained h ch) (hc : V.Rechain ch m ch' V') :
    V.Rewrite ch ch' V' ∧ V'.FileChained h ch' := by
  have hlast : ∀ b, ch.getLast? = some b → b ∈ ch := fun b hb => List.mem_of_getLast? hb
  have hne : ch' ≠ [] := hc.chain.linked.ne_nil
  have hhead : ch'.head? = some h := by
    rcases hc.shape with hpre | hpre
    · obtain ⟨l, rfl⟩ := hpre
      cases ch' with
      | nil => exact absurd rfl hne
      | cons a t => exact hf.head
    · obtain ⟨l, rfl⟩ := hpre
      obtain ⟨t, rfl⟩ := hf.cons
      rfl
  refine ⟨⟨hc.agree.low (by omega), fun n _ h1 h2 => hc.agree.ent ?_, fun n hn hout => ?_, fun n hn hout => ?_,
    fun n hn hin => ?_, fun i => ?_⟩, ⟨hc.agree.geo hf.geo, hhead, hc.chain, fun n hn => ?_⟩⟩
  · rw [List.mem_append]
    exact fun hm => hm.elim h1 h2
  · obtain ⟨hu, -, b, hb, -, hname, -⟩ := hc.added n hn hout
    exact ⟨hu, b, hlast b hb, hname⟩
  · rw [hc.dropped n hn hout]
    rfl
  · obtain ⟨-, h2, -, -, h5⟩ := hc.kept n hn hin
    exact ⟨h2, h5⟩
  · rw [hc.refs i]
    split_ifs
    · exact Or.inr rfl
    · exact Or.inl (Or.inl rfl)
  · by_cases hin : n ∈ ch
    · rw [(hc.kept n hn hin).1]
      exact hf.flags n hin
    · obtain ⟨-, -, b, hb, hflags, -⟩ := hc.added n hn hin
      rw [hflags]
      exact hf.flags b (hlast b hb)

/-- Setting fields of the entries of the chain that do not link or name them. -/
theorem Vol.Touch.updEnts (V : Vol) (ch : List Nat) {f : Nat → SfsEntry → SfsEntry}
    (hfields : ∀ n e, (f n e).flags = e.flags ∧ (f n e).name = e.name ∧ (f n e).next = e.next ∧ (f n e).parent = e.parent ∧
      (f n e).refAt = e.refAt) : V.Touch ch (V.updEnts ch f) := by
  have hagree := Vol.agreeOff_updEnts V ch f
  have hent : ∀ n ∈ ch, (V.updEnts ch f).ent n = f n (V.ent n) := fun n hn => by rw [Vol.ent_updEnts, if_pos hn]
  refine ⟨hagree.low (by omega), fun n _ h => hagree.ent h, fun n hn => ?_, fun i => Or.inr ?_⟩
  · obtain ⟨h1, h2, h3, h4, -⟩ := hfields n (V.ent n)
    rw [hent n hn]
    exact ⟨h1, h2, h3, h4⟩
  · refine Vol.fref_congr (fun n hn => ?_) i
    rw [hent n hn]
    exact (hfields n (V.ent n)).2.2.2.2

/-- Setting the sizes. -/
theorem Vol.Touch.setSizes (V : Vol) (ch : List Nat) (f : Nat → Nat) : V.Touch ch (V.updEnts ch fun n e => e.setSize (f n)) :=
  Vol.Touch.updEnts V ch fun _ _ => ⟨rfl, rfl, rfl, rfl, rfl⟩

/-- Storing data in the blocks of the file. -/
theorem Vol.Touch.poke {V : Vol} {ch : List Nat} {o : Nat} {buff : List UInt8} (hc : V.IsChain ch)
    (h : ∀ i < buff.length, V.firstData ≤ V.fref ch ((o + i) / 512)) : V.Touch ch (V.poke (V.fref ch) o buff) := by
  obtain ⟨hent, hsuper, hfref⟩ := Vol.poke_table hc h
  refine ⟨hsuper, fun n hn _ => hent n hn, fun n hn => ?_, fun i => Or.inr (hfref i)⟩
  rw [hent n (hc.lt n hn)]
  exact ⟨rfl, rfl, rfl, rfl⟩

/-- The references of two chains, one after the other. -/
theorem Vol.fref_append (V : Vol) : ∀ (l₁ l₂ : List Nat) (i : Nat),
    V.fref (l₁ ++ l₂) i = if i < 120 * l₁.length then V.fref l₁ i else V.fref l₂ (i - 120 * l₁.length) := by
  intro l₁
  induction l₁ with
  | nil => exact fun l₂ i => by rw [List.length_nil, if_neg (by omega)]; rfl
  | cons a l₁ ih =>
    intro l₂ i
    rw [List.cons_append, Vol.fref_cons, Vol.fref_cons, ih, List.length_cons]
    by_cases hi : i < 120
    · rw [if_pos hi, if_pos hi, if_pos (by omega)]
    · rw [if_neg hi, if_neg hi]
      by_cases hi' : i - 120 < 120 * l₁.length
      · rw [if_pos hi', if_pos (by omega)]
      · rw [if_neg hi', if_neg (by omega)]
        congr 1
        omega

/-- The references of a chain after an allocation in its last part, from reference `lo` of the chain on. -/
theorem Vol.Alloced.fref_append {V V' : Vol} {l₁ l₂ : List Nat} {lo k : Nat} {blk : Nat → Nat}
    (h : V.Alloced l₂ (lo % 120) k blk V') (hnd : (l₁ ++ l₂).Nodup) (hlen : l₁.length = lo / 120) (i : Nat) :
    V'.fref (l₁ ++ l₂) i = if lo ≤ i ∧ i < lo + k then blk ((i - 120 * l₁.length) / 120) else V.fref (l₁ ++ l₂) i := by
  have hbefore : ∀ i, V'.fref l₁ i = V.fref l₁ i := by
    refine Vol.fref_congr fun n hn => ?_
    rw [h.agree.ent fun hm => (List.nodup_append.1 hnd).2.2 n hn n hm rfl]
  rw [Vol.fref_append, Vol.fref_append, hbefore, h.refs]
  by_cases hi : i < 120 * l₁.length
  · rw [if_pos hi, if_pos hi, if_neg (by omega)]
  · rw [if_neg hi, if_neg hi]
    by_cases hin : lo ≤ i ∧ i < lo + k
    · rw [if_pos (by omega), if_pos hin]
    · rw [if_neg (by omega), if_neg hin]

/-- An allocation in the last part of a chain, from reference `lo` of the chain on. -/
theorem Vol.Alloced.touch {V V' : Vol} {l₁ l₂ : List Nat} {lo k : Nat} {blk : Nat → Nat} (h : V.Alloced l₂ (lo % 120) k blk V')
    (hc : V.IsChain (l₁ ++ l₂)) (hlen : l₁.length = lo / 120) :
    V.Touch (l₁ ++ l₂) V' ∧ (∀ n ∈ l₁ ++ l₂, (V'.ent n).size = (V.ent n).size) ∧
      ∀ i, lo ≤ i → i < lo + k → V.RefOk (V'.fref (l₁ ++ l₂) i) := by
  have hfields : ∀ n, (V'.ent n).flags = (V.ent n).flags ∧ (V'.ent n).name = (V.ent n).name ∧
      (V'.ent n).next = (V.ent n).next ∧ (V'.ent n).parent = (V.ent n).parent ∧ (V'.ent n).size = (V.ent n).size := by
    intro n
    obtain ⟨r, hr'⟩ := h.refsOnly n
    rw [hr']
    exact ⟨rfl, rfl, rfl, rfl, rfl⟩
  have hnew : ∀ i, lo ≤ i → i < lo + k → V.RefOk (V'.fref (l₁ ++ l₂) i) := by
    intro i h1 h2
    have hdiv : 120 * ((i - 120 * l₁.length) / 120) ≤ i - 120 * l₁.length := Nat.mul_div_le _ 120
    rw [h.fref_append hc.nodup hlen, if_pos ⟨h1, h2⟩]
    exact Or.inr (h.data _ (by omega) (by omega))
  refine ⟨⟨h.agree.low (by omega), fun n _ hn => h.agree.ent fun hm => hn (List.mem_append_right _ hm),
    fun n _ => ⟨(hfields n).1, (hfields n).2.1, (hfields n).2.2.1, (hfields n).2.2.2.1⟩, fun i => ?_⟩,
    fun n _ => (hfields n).2.2.2.2, hnew⟩
  by_cases hi : lo ≤ i ∧ i < lo + k
  · exact Or.inl (hnew i hi.1 hi.2)
  · right
    rw [h.fref_append hc.nodup hlen, if_neg hi]

section Run

variable {env : Env} {s : Sys} {d : Nat}

/-- The allocation loop, from any reference of the chain on, allocates in the part of the chain that holds it. -/
theorem growLoop_alloced (hr : Ready env s d) {V : Vol} {h : Nat} {ch : List Nat} (hf : V.FileChained h ch) {lo k : Nat}
    (hk : lo + k ≤ 120 * ch.length) :
    ∃ l₁ l₂ V' k' blk, ch = l₁ ++ l₂ ∧ l₁.length = lo / 120 ∧ V.Alloced l₂ (lo % 120) k' blk V' ∧
      ((k' = k ∧ (growLoop env d k lo h (V.ent h) >>= fun p => writeEntry env d p.1 p.2).run (s.withVol d V) =
          .ok () (s.withVol d V')) ∨
        (k' < k ∧ V'.freeBlock = none ∧ (growLoop env d k lo h (V.ent h) >>= fun p => writeEntry env d p.1 p.2).run (s.withVol d V) =
          .error errorNoSpace (s.withVol d V'))) := by
  have hnent := hf.geo.nent_lt
  have hlt := hf.lt
  cases k with
  | zero =>
    refine ⟨ch.take (lo / 120), ch.drop (lo / 120), V, 0, fun _ => 0, (List.take_append_drop _ _).symm, ?_,
      Vol.Alloced.none V _ _, Or.inl ⟨rfl, ?_⟩⟩
    · rw [List.length_take]
      omega
    · rw [growLoop, bind_ok (run_pure _ _), writeEntry_run hr V (by omega), Vol.setEnt_ent]
  | succ k =>
    obtain ⟨l₁, b, l₂, hsplit, hlen⟩ : ∃ l₁ b l₂, ch = l₁ ++ b :: l₂ ∧ l₁.length = lo / 120 := by
      have hj : lo / 120 < ch.length := by omega
      refine ⟨ch.take (lo / 120), ch[lo / 120], ch.drop (lo / 120 + 1), ?_, ?_⟩
      · rw [← List.drop_eq_getElem_cons hj, List.take_append_drop]
      · rw [List.length_take]
        omega
    have hhead : (l₁ ++ [b]).head (by simp) = h := by
      obtain ⟨t, ht⟩ := hf.cons
      rw [ht] at hsplit
      cases l₁ with
      | nil => exact (List.cons.inj hsplit).1.symm
      | cons x l₁ => exact (List.cons.inj hsplit).1.symm
    have hchain := hf.chain
    rw [hsplit] at hchain hk
    have hsuffix : V.IsChain (b :: l₂) :=
      ⟨hchain.linked.suffix, (List.nodup_append.1 hchain.nodup).2.1, fun n hn => hchain.lt n (List.mem_append_right _ hn)⟩
    have hskip := growSkip_run hr hf.geo l₁ b l₂ hchain
    rw [hhead, hlen, show lo / 120 = lo / sfsEntryRefs from rfl] at hskip
    rw [List.length_append, List.length_cons] at hk
    -- the loop goes along the chain to the entry that holds the first reference
    have hstart : (growLoop env d (k + 1) lo h (V.ent h) >>= fun p => writeEntry env d p.1 p.2).run (s.withVol d V) =
        (growLoop env d (k + 1) (lo % 120) b (V.ent b) >>= fun p => writeEntry env d p.1 p.2).run (s.withVol d V) := by
      have hzero : lo % 120 / sfsEntryRefs = 0 := Nat.div_eq_of_lt (Nat.mod_lt _ (by decide))
      have hmod : lo % 120 % sfsEntryRefs = lo % sfsEntryRefs := Nat.mod_mod _ _
      have h1 : (growLoop env d (k + 1) lo h (V.ent h)).run (s.withVol d V) =
          (growLoop env d (k + 1) (lo % 120) b (V.ent b)).run (s.withVol d V) := by
        rw [growLoop, growLoop, bind_ok hskip, hzero, growSkip, bind_ok (run_pure _ _), hmod]
      rw [run_bind, h1, ← run_bind]
    have hrun := growLoop_run hr l₂ b V (lo % 120) (k + 1) hf.geo hsuffix (Nat.mod_lt _ (by decide)) (by omega)
    obtain ⟨k', blk, halloc, hend⟩ := Vol.alloc_spec (b :: l₂) V (lo % 120) (k + 1) hf.geo hsuffix.nodup hsuffix.lt
      (Nat.mod_lt _ (by decide)) (by rw [List.length_cons]; omega)
    refine ⟨l₁, b :: l₂, _, k', blk, hsplit, hlen, halloc, ?_⟩
    rw [hstart, hrun]
    rcases hend with ⟨hok, hk'⟩ | ⟨hno, hk', hnone⟩
    · exact Or.inl ⟨hk', by rw [if_pos hok]⟩
    · exact Or.inr ⟨hk', hnone, by rw [hno, if_neg Bool.false_ne_true]⟩

/-- The allocation loop, and the references that it sets. -/
theorem growLoop_file (hr : Ready env s d) {V : Vol} {h : Nat} {ch : List Nat} (hf : V.FileChained h ch) {lo k : Nat}
    (hk : lo + k ≤ 120 * ch.length) :
    ∃ V', V.Touch ch V' ∧ (∀ n ∈ ch, (V'.ent n).size = (V.ent n).size) ∧
      (((∀ i, lo ≤ i → i < lo + k → V.RefOk (V'.fref ch i)) ∧
        (growLoop env d k lo h (V.ent h) >>= fun p => writeEntry env d p.1 p.2).run (s.withVol d V) = .ok () (s.withVol d V')) ∨
      (growLoop env d k lo h (V.ent h) >>= fun p => writeEntry env d p.1 p.2).run (s.withVol d V) =
        .error errorNoSpace (s.withVol d V')) := by
  obtain ⟨l₁, l₂, V', k', blk, rfl, hlen, halloc, hend⟩ := growLoop_alloced hr hf hk
  obtain ⟨htouch, hsize, hnew⟩ := halloc.touch hf.chain hlen
  refine ⟨V', htouch, hsize, ?_⟩
  rcases hend with ⟨rfl, hrun⟩ | ⟨-, -, hrun⟩
  · exact Or.inl ⟨hnew, hrun⟩
  · exact Or.inr hrun

/-- Changing the length of the chain: it gets the length that the references need, or takes all free entries when there are not
enough of them. -/
theorem setEntryRefcount_chain (hr : Ready env s d) {V : Vol} {h : Nat} {ch : List Nat} (hf : V.FileChained h ch)
    (hroot : (V.ent 0).used = true) (r : Nat) :
    ∃ V' ch' m, V.Rechain ch m ch' V' ∧
      ((ch'.length = chainEntries r ∧ m = keptRefs r ∧
        (setEntryRefcount env d h r).run (s.withVol d V) = .ok () (s.withVol d V')) ∨
      (ch <+: ch' ∧ m = 120 * ch'.length ∧ V.freeCount < chainEntries r - ch.length ∧
        (setEntryRefcount env d h r).run (s.withVol d V) = .error errorNoSpace (s.withVol d V'))) := by
  obtain ⟨l, rfl⟩ := hf.cons
  rcases Nat.lt_or_ge (l.length + 1) (chainEntries r) with hlt | hle
  · rcases setEntryRefcount_extend hr hf.geo hroot hf.chain hf.used hlt with
      ⟨ch', V', hlen, hc, hrun⟩ | ⟨ch', V', hpre, hc, -, hcount, hrun⟩
    · exact ⟨V', ch', _, hc, Or.inl ⟨hlen, rfl, hrun⟩⟩
    · exact ⟨V', ch', _, hc, Or.inr ⟨hpre, rfl, hcount, hrun⟩⟩
  · obtain ⟨V', hc, hrun⟩ := setEntryRefcount_cut hr hf.geo hf.chain hle
    refine ⟨V', _, _, hc, Or.inl ⟨?_, rfl, hrun⟩⟩
    rw [List.length_take, List.length_cons]
    omega

/-- What this leaves of the sizes. -/
theorem setEntryRefcount_file (hr : Ready env s d) {V : Vol} {h : Nat} {ch : List Nat} (hf : V.FileChained h ch)
    (hroot : (V.ent 0).used = true) (r : Nat) :
    ∃ V' ch', V.Rewrite ch ch' V' ∧ V'.FileChained h ch' ∧ (∀ n ∈ ch', n ∈ ch → (V'.ent n).size = (V.ent n).size) ∧
      ((ch'.length = chainEntries r ∧ (setEntryRefcount env d h r).run (s.withVol d V) = .ok () (s.withVol d V')) ∨
        (ch <+: ch' ∧ (∀ n ∈ ch', n ∉ ch → (V'.ent n).size = 0) ∧
          (setEntryRefcount env d h r).run (s.withVol d V) = .error errorNoSpace (s.withVol d V'))) := by
  obtain ⟨V', ch', m, hc, hend⟩ := setEntryRefcount_chain hr hf hroot r
  obtain ⟨h1, h2⟩ := hf.rechain hc
  refine ⟨V', ch', h1, h2, fun n hn hin => (hc.kept n hn hin).2.2.2.1, ?_⟩
  rcases hend with ⟨hlen, -, hrun⟩ | ⟨hpre, -, -, hrun⟩
  · exact Or.inl ⟨hlen, hrun⟩
  · exact Or.inr ⟨hpre, fun n hn hout => (hc.added n hn hout).2.1, hrun⟩

/-- Setting the size along the chain, when it has the length that the size needs. -/
theorem setEntrySize_file (hr : Ready env s d) {V : Vol} {h : Nat} {ch : List Nat} (hf : V.FileChained h ch) {last : Nat}
    (hlast : last < 4294967296) (hlen : ch.length = chainEntries (neededBlocks last)) :
    ∃ V', (∃ f : Nat → Nat, V' = V.updEnts ch fun n e => e.setSize (f n)) ∧ V'.IsFile h ch ∧ (V'.ent h).size.toNat = last ∧
      (setEntrySize env d h last).run (s.withVol d V) = .ok () (s.withVol d V') := by
  have hfuel := hr.fuel
  have hnent := hf.geo.nent_lt
  have hle := hf.chain.length_le
  obtain ⟨l, rfl⟩ := hf.cons
  rw [List.length_cons] at hlen hle
  unfold chainEntries at hlen
  rw [neededEntries_eq, neededBlocks_eq] at hlen
  have hrun := setSizeLoop_run hr 61440 env.fuel h l V last hf.geo hf.chain (by omega) hf.unit (by omega) fun hl => by
    have := List.length_pos_iff.2 hl
    omega
  have htouch := Vol.Touch.setSizes V (h :: l) fun n => last - 61440 * (h :: l).idxOf n
  have hsize : ∀ n ∈ h :: l, ((V.updEnts (h :: l) fun n e => e.setSize (last - 61440 * (h :: l).idxOf n)).ent n).size.toNat =
      last - 61440 * (h :: l).idxOf n := by
    intro n hn
    rw [Vol.ent_updEnts, if_pos hn]
    exact Block.toNat_setSize _ (by omega)
  have hhead : ((V.updEnts (h :: l) fun n e => e.setSize (last - 61440 * (h :: l).idxOf n)).ent h).size.toNat = last := by
    rw [hsize h List.mem_cons_self, List.idxOf_cons_self, Nat.mul_zero, Nat.sub_zero]
  refine ⟨_, ⟨_, rfl⟩, { toFileChained := hf.touch htouch, sizes := fun k n hn => ?_, fits := ?_ }, hhead, hrun⟩
  · obtain ⟨hk, rfl⟩ := List.getElem?_eq_some_iff.1 hn
    rw [hsize _ (List.getElem_mem hk), hhead, hf.chain.nodup.idxOf_getElem _ hk]
  · rw [hhead, List.length_cons]
    omega

end Run

end NanoS32
