import NanoS32.Lemmas.Bytes
import NanoS32.Lemmas.Grow

/-!
# The data of a file

Byte `j` of a file is byte `j % 512` of the block its reference `j / 512` names. Here is what the data loop of `fs_write_file`
does to these bytes, and that the loop of `fs_read_file` returns them.
-/

namespace NanoS32

/-- Byte `j` of the file with chain `ch`. -/
def Vol.fileByte (V : Vol) (ch : List Nat) (j : Nat) : UInt8 := (V (V.fref ch (j / 512))).byte (j % 512)

/-- The disk after the bytes of `buff` have been stored one after the other, from byte `o` of the file whose reference `i` is
`ref i`. -/
def Vol.poke (V : Vol) (ref : Nat → Nat) : Nat → List UInt8 → Vol
  | _, [] => V
  | o, x :: buff => Vol.poke (Function.update V (ref (o / 512)) ((V (ref (o / 512))).splice (o % 512) [x])) ref (o + 1) buff

/-! ## Storing bytes -/

section Poke

variable {ref : Nat → Nat}

theorem Vol.poke_append : ∀ (buff buff' : List UInt8) (V : Vol) (o : Nat),
    V.poke ref o (buff ++ buff') = (V.poke ref o buff).poke ref (o + buff.length) buff' := by
  intro buff
  induction buff with
  | nil => intro buff' V o; rfl
  | cons x buff ih =>
    intro buff' V o
    rw [List.cons_append, Vol.poke, ih, Vol.poke, List.length_cons]
    congr 1
    omega

/-- A block that no byte goes to does not change. -/
theorem Vol.poke_other : ∀ (buff : List UInt8) (V : Vol) (o k : Nat),
    (∀ i < buff.length, ref ((o + i) / 512) ≠ k) → V.poke ref o buff k = V k := by
  intro buff
  induction buff with
  | nil => intro V o k _; rfl
  | cons x buff ih =>
    intro V o k h
    have h0 : k ≠ ref (o / 512) := fun hk => h 0 (by simp) hk.symm
    rw [Vol.poke, ih _ (o + 1) k ?_, Function.update_of_ne h0]
    intro i hi
    have := h (i + 1) (by simp; omega)
    rwa [show o + (i + 1) = o + 1 + i by omega] at this

/-- A byte of a block that no byte of the buffer goes to does not change. -/
theorem Vol.poke_byte_other : ∀ (buff : List UInt8) (V : Vol) (o k p : Nat), p < 512 →
    (∀ i < buff.length, ref ((o + i) / 512) = k → (o + i) % 512 ≠ p) → (V.poke ref o buff k).byte p = (V k).byte p := by
  intro buff
  induction buff with
  | nil => intro V o k p _ _; rfl
  | cons x buff ih =>
    intro V o k p hp h
    rw [Vol.poke, ih _ (o + 1) k p hp ?_]
    · by_cases hk : k = ref (o / 512)
      · have h0 : o % 512 ≠ p := h 0 (by simp) hk.symm
        rw [hk, Function.update_self, Block.byte_splice _ _ _ hp, if_neg (by simp; omega)]
      · rw [Function.update_of_ne hk]
    · intro i hi
      have := h (i + 1) (by simp; omega)
      rwa [show o + (i + 1) = o + 1 + i by omega] at this

/-- A byte of a block is the last byte of the buffer that goes to it. -/
theorem Vol.poke_byte_last (ref : Nat → Nat) : ∀ (buff : List UInt8) (V : Vol) (o i : Nat), i < buff.length →
    (∀ j < buff.length, i < j → ref ((o + j) / 512) = ref ((o + i) / 512) → (o + j) % 512 ≠ (o + i) % 512) →
    (V.poke ref o buff (ref ((o + i) / 512))).byte ((o + i) % 512) = buff.getD i 0 := by
  intro buff
  induction buff with
  | nil => intro V o i hi; simp at hi
  | cons x buff ih =>
    intro V o i hi h
    rw [Vol.poke]
    cases i with
    | zero =>
      rw [Vol.poke_byte_other _ _ _ _ _ (Nat.mod_lt _ (by omega)) ?_, Nat.add_zero, Function.update_self,
        Block.byte_splice _ _ _ (Nat.mod_lt _ (by omega)), if_pos (by simp)]
      · simp
      · intro j hj
        have := h (j + 1) (by simp; omega) (by omega)
        rwa [show o + (j + 1) = o + 1 + j by omega] at this
    | succ i =>
      have hoi : o + (i + 1) = o + 1 + i := by omega
      rw [hoi, ih _ (o + 1) i (by simpa using hi) ?_]
      · simp
      · intro j hj hij
        have := h (j + 1) (by simp; omega) (by omega)
        rwa [hoi, show o + (j + 1) = o + 1 + j by omega] at this

/-- Bytes that stay in one block replace a range of it. -/
theorem Vol.poke_inside : ∀ (buff : List UInt8) (V : Vol) (o : Nat), buff ≠ [] → o % 512 + buff.length ≤ 512 →
    V.poke ref o buff =
      Function.update V (ref (o / 512)) ((V (ref (o / 512))).splice (o % 512) buff) := by
  intro buff
  induction buff with
  | nil => intro V o h; exact absurd rfl h
  | cons x buff ih =>
    intro V o _ hlen
    simp only [List.length_cons] at hlen
    rw [Vol.poke]
    by_cases hb : buff = []
    · subst hb
      rfl
    · have hpos : 0 < buff.length := List.length_pos_iff.2 hb
      have h1 : (o + 1) / 512 = o / 512 := by omega
      have h2 : (o + 1) % 512 = o % 512 + 1 := by omega
      rw [ih _ (o + 1) hb (by omega), h1, h2, Function.update_self, Function.update_idem]
      congr 1
      apply Block.ext_bytes
      intro p hp
      rw [Block.byte_splice _ _ _ hp, Block.byte_splice _ _ _ hp, Block.byte_splice _ _ _ hp]
      simp only [List.length_cons, List.length_nil]
      by_cases hp0 : p = o % 512
      · rw [if_neg (by omega), if_pos (by omega), if_pos (by omega), hp0]
        simp
      · by_cases hin : o % 512 + 1 ≤ p ∧ p < o % 512 + 1 + buff.length
        · rw [if_pos hin, if_pos (by omega), show p - o % 512 = p - (o % 512 + 1) + 1 by omega, List.getD_cons_succ]
        · rw [if_neg hin, if_neg (by omega), if_neg (by omega)]

end Poke

/-! ## The loops -/

/-- A reference that is 0 or a data block. -/
def Vol.RefOk (V : Vol) (ref : Nat) : Prop := ref = 0 ∨ (V.firstData ≤ ref ∧ ref < V.dataEnd)

/-- The references of the chain are 0 or data blocks. -/
def Vol.RefsInRange (V : Vol) (ch : List Nat) : Prop :=
  ∀ i, V.fref ch i = 0 ∨ (V.firstData ≤ V.fref ch i ∧ V.fref ch i < V.dataEnd)

/-- Storing data in data blocks does not change the table. -/
theorem Vol.poke_low {V : Vol} {ref : Nat → Nat} {o : Nat} {buff : List UInt8}
    (h : ∀ i < buff.length, V.firstData ≤ ref ((o + i) / 512)) {k : Nat} (hk : k < V.firstData) :
    V.poke ref o buff k = V k := by
  refine Vol.poke_other _ _ _ _ fun i hi hik => ?_
  have := h i hi
  omega

section Run

variable {env : Env} {s : Sys} {d : Nat}

/-- The walk of the data loop along the chain. -/
theorem writeSkip_run (hr : Ready env s d) {V : Vol} (hg : V.Geo) :
    ∀ (k a : Nat) (l : List Nat) (offset currentBlock : Nat), V.IsChain (a :: l) → 61440 * k ≤ offset →
      offset < 4294967296 →
      (writeSkip env d k (V.ent a) offset currentBlock).run (s.withVol d V) =
        match (a :: l)[k]? with
        | some b => .ok (V.ent b, offset - 61440 * k, currentBlock - 120 * k) (s.withVol d V)
        | none => .error errorIo (s.withVol d V) := by
  have hn := hg.nent_lt
  intro k
  induction k with
  | zero => intro a l offset currentBlock _ _ _; rfl
  | succ k ih =>
    intro a l offset currentBlock hc hle hlt
    have hnext : (V.ent a).next.toNat = l.headD 0 := hc.linked.next_head
    rw [writeSkip]
    cases l with
    | nil =>
      simp only [List.headD_nil] at hnext
      simp [hnext]
    | cons b l =>
      have hb : b ≠ 0 := hc.linked.2.1
      have hblt : b < V.nent := hc.lt b (by simp)
      simp only [List.headD_cons] at hnext
      have hsub : sub32 offset (sfsEntryRefs * blockSize) = offset - 61440 := by
        simp only [sub32, wrap32, sfsEntryRefs, blockSize]
        omega
      rw [hnext, if_neg hb, Prog.bind_ok (getEntryN_run hr V (by omega)), hsub, ih b l _ _ hc.tail (by omega) (by omega)]
      simp only [List.getElem?_cons_succ, sfsEntryRefs]
      rw [show offset - 61440 - 61440 * k = offset - 61440 * (k + 1) by omega,
        show currentBlock - 120 - 120 * k = currentBlock - 120 * (k + 1) by omega]

/-- Past the end of the chain, the walk fails. -/
theorem writeSkip_end (hr : Ready env s d) {V : Vol} (hg : V.Geo) :
    ∀ (k a : Nat) (l : List Nat) (offset currentBlock : Nat), V.IsChain (a :: l) → l.length < k →
      (writeSkip env d k (V.ent a) offset currentBlock).run (s.withVol d V) = .error errorIo (s.withVol d V) := by
  have hn := hg.nent_lt
  intro k
  induction k with
  | zero => intro a l _ _ _ h; omega
  | succ k ih =>
    intro a l offset currentBlock hc hlt
    have hnext : (V.ent a).next.toNat = l.headD 0 := hc.linked.next_head
    rw [writeSkip]
    cases l with
    | nil =>
      simp only [List.headD_nil] at hnext
      simp [hnext]
    | cons b l =>
      have hb : b ≠ 0 := hc.linked.2.1
      have hblt : b < V.nent := hc.lt b (by simp)
      simp only [List.headD_cons] at hnext
      rw [hnext, if_neg hb, Prog.bind_ok (getEntryN_run hr V (by omega))]
      exact ih b l _ _ hc.tail (by simp only [List.length_cons] at hlt; omega)

/-- The end of a chain is a chain. -/
theorem Vol.IsChain.drop {V : Vol} {ch : List Nat} (h : V.IsChain ch) {j : Nat} (hj : j < ch.length) :
    V.IsChain (ch[j] :: ch.drop (j + 1)) := by
  have hs : ch = ch.take j ++ ch[j] :: ch.drop (j + 1) := by
    rw [← List.drop_eq_getElem_cons hj, List.take_append_drop]
  have hd : ch[j] :: ch.drop (j + 1) = ch.drop j := (List.drop_eq_getElem_cons hj).symm
  refine ⟨?_, ?_, ?_⟩
  · have hl := h.linked
    rw [hs] at hl
    exact hl.suffix
  · rw [hd]
    exact h.nodup.sublist (List.drop_sublist j ch)
  · intro n hn
    rw [hd] at hn
    exact h.lt n (List.mem_of_mem_drop hn)

theorem currentBlock_eq {o : Nat} (h : o < 4294967295) :
    sub32 (neededBlocks (wrap32 (o + 1))) 1 = o / 512 := by
  have hw : wrap32 (o + 1) = o + 1 := wrap32_of_lt (by omega)
  rw [hw, neededBlocks_eq]
  simp only [sub32, wrap32]
  omega

/-- Data blocks are past the table: the chain is the same after storing into them. -/
theorem Vol.poke_table {V : Vol} {ch : List Nat} {o : Nat} {buff : List UInt8} (hc : V.IsChain ch)
    (h : ∀ i < buff.length, V.firstData ≤ V.fref ch ((o + i) / 512)) :
    (∀ n < V.nent, (V.poke (V.fref ch) o buff).ent n = V.ent n) ∧ (V.poke (V.fref ch) o buff) 1 = V 1 ∧
      ∀ i, (V.poke (V.fref ch) o buff).fref ch i = V.fref ch i := by
  have hent : ∀ n < V.nent, (V.poke (V.fref ch) o buff).ent n = V.ent n := by
    intro n hn
    exact Vol.poke_low h (by simp only [Vol.firstData]; omega)
  refine ⟨hent, Vol.poke_low h (by simp only [Vol.firstData]; omega), Vol.fref_congr fun n hn => ?_⟩
  rw [hent n (hc.lt n hn)]

/-- Storing into data blocks leaves the file system its shape. -/
theorem Vol.poke_keeps {V : Vol} {ch : List Nat} {o : Nat} {buff : List UInt8} (hg : V.Geo) (hc : V.IsChain ch)
    (h : ∀ i < buff.length, V.firstData ≤ V.fref ch ((o + i) / 512)) :
    (V.poke (V.fref ch) o buff).Geo ∧ (V.poke (V.fref ch) o buff).IsChain ch ∧
      (V.poke (V.fref ch) o buff).firstData = V.firstData ∧ (V.poke (V.fref ch) o buff).dataEnd = V.dataEnd := by
  obtain ⟨hent, hsup, -⟩ := Vol.poke_table hc h
  have hnent : (V.poke (V.fref ch) o buff).nent = V.nent := by rw [Vol.nent, hsup, Vol.nent]
  have hnblk : (V.poke (V.fref ch) o buff).nblk = V.nblk := by rw [Vol.nblk, hsup, Vol.nblk]
  have hfdat : (V.poke (V.fref ch) o buff).firstData = V.firstData := by rw [Vol.firstData, hnent, Vol.firstData]
  have hend : (V.poke (V.fref ch) o buff).dataEnd = V.dataEnd := by rw [Vol.dataEnd, hnblk, Vol.dataEnd]
  refine ⟨hg.of_super hsup, ?_, hfdat, hend⟩
  cases ch with
  | nil => exact absurd rfl hc.linked.ne_nil
  | cons a l =>
    refine hc.congr hnent ?_ ?_
    · exact fun x hx => by rw [hent x (hc.lt x hx)]
    · exact fun x hx => by rw [hent x (hc.lt x (List.mem_cons_of_mem _ hx))]

/-- The walk from the entry at place `j` to the one that holds the reference of byte `o`. -/
theorem writeSkip_place (hr : Ready env s d) {V : Vol} (hg : V.Geo) {ch : List Nat} (hc : V.IsChain ch) {j o : Nat}
    (hj : j < ch.length) (hle : 61440 * j ≤ o) (hlt : o - 61440 * j < 4294967296) :
    (writeSkip env d ((o - 61440 * j) / 512 / sfsEntryRefs) (V.ent ch[j]) (o - 61440 * j) ((o - 61440 * j) / 512)).run
        (s.withVol d V) =
      match ch[o / 61440]? with
      | some b => .ok (V.ent b, o % 61440, o / 512 % 120) (s.withVol d V)
      | none => .error errorIo (s.withVol d V) := by
  obtain ⟨k, hk⟩ : ∃ k, o / 61440 = j + k := ⟨o / 61440 - j, by omega⟩
  have h1 : (o - 61440 * j) / 512 / sfsEntryRefs = k := by
    simp only [sfsEntryRefs]
    omega
  have h2 : o - 61440 * j - 61440 * k = o % 61440 := by omega
  have h3 : (o - 61440 * j) / 512 - 120 * k = o / 512 % 120 := by omega
  have hget : (ch[j] :: ch.drop (j + 1))[k]? = ch[o / 61440]? := by
    rw [← List.drop_eq_getElem_cons hj, List.getElem?_drop, hk]
  rw [h1, writeSkip_run hr hg k ch[j] (ch.drop (j + 1)) _ _ (hc.drop hj) (by omega) hlt, hget]
  simp only [h2, h3]

/-- The reference of byte `o`, in the entry that holds it. -/
theorem Vol.refAt_place (V : Vol) {ch : List Nat} {o b : Nat} (h : ch[o / 61440]? = some b) :
    (V.ent b).refAt (o / 512 % 120) = V.fref ch (o / 512) := by
  have h1 : o / 512 / 120 = o / 61440 := by omega
  simp only [Vol.fref, h1, h]

/-- The data loop ends with an error where the file has no block. -/
theorem writeLoop_stop (hr : Ready env s d) {V : Vol} (hg : V.Geo) {ch : List Nat} (hc : V.IsChain ch) {j o : Nat}
    (hj : j < ch.length) (hle : 61440 * j ≤ o) (hlt : o - 61440 * j < 4294967295) (h0 : V.fref ch (o / 512) = 0)
    {buff : List UInt8} (hb : buff ≠ []) (fuel : Nat) :
    (writeLoop env d (fuel + 1) (V.ent ch[j]) (o - 61440 * j) buff).run (s.withVol d V) =
      .error errorIo (s.withVol d V) := by
  have hskip := writeSkip_place hr hg hc hj hle (by omega)
  rw [← currentBlock_eq hlt] at hskip
  rw [writeLoop, if_neg hb]
  cases hcj : ch[o / 61440]? with
  | none =>
    rw [hcj] at hskip
    exact Prog.bind_error hskip
  | some b =>
    rw [hcj] at hskip
    refine (Prog.bind_ok hskip).trans ?_
    simp only [Prog.run_failIf_bind]
    rw [if_pos (Or.inl ((V.refAt_place hcj).trans h0))]

/-- One turn of the data loop stores the bytes that go to one block. -/
theorem writeLoop_step (hr : Ready env s d) {V : Vol} (hg : V.Geo) {ch : List Nat} (hc : V.IsChain ch) {j o : Nat}
    (hj : j < ch.length) (hle : 61440 * j ≤ o) (hlt : o - 61440 * j < 4294967295) (h1 : V.firstData ≤ V.fref ch (o / 512))
    (h2 : V.fref ch (o / 512) < V.dataEnd) {buff : List UInt8} {n : Nat} (hn : n = min buff.length (512 - o % 512))
    (hb : buff ≠ []) (fuel : Nat) :
    ∃ hj' : o / 61440 < ch.length,
      (writeLoop env d (fuel + 1) (V.ent ch[j]) (o - 61440 * j) buff).run (s.withVol d V) =
        (writeLoop env d fuel (V.ent ch[o / 61440]) (o + n - 61440 * (o / 61440)) (buff.drop n)).run
          (s.withVol d (V.poke (V.fref ch) o (buff.take n))) := by
  have hpos : 0 < buff.length := List.length_pos_iff.2 hb
  have hfd : 2 ≤ V.firstData := by simp only [Vol.firstData]; omega
  have hsmall : V.fref ch (o / 512) < 8388608 := Nat.lt_of_lt_of_le h2 (Nat.min_le_right _ _)
  have hskip := writeSkip_place hr hg hc hj hle (by omega)
  have hchunk : (buff.take n).length = n := by
    rw [List.length_take]
    omega
  have hne : buff.take n ≠ [] := by
    intro h
    rw [h, List.length_nil] at hchunk
    omega
  have hin : o % 512 + (buff.take n).length ≤ 512 := by omega
  have hwrite : (writeDisk env d (V.fref ch (o / 512)) (o % 512) (buff.take n)).run (s.withVol d V) =
      .ok noError (s.withVol d (V.poke (V.fref ch) o (buff.take n))) := by
    rw [Vol.poke_inside (buff.take n) V o hne hin]
    exact writeDisk_run hr V (by omega) (by omega) hin (by omega)
  have hn1 : min buff.length (blockSize - (o - 61440 * j) % blockSize) = n := by
    simp only [blockSize]
    omega
  have hoff : o % 61440 % blockSize = o % 512 := by
    simp only [blockSize]
    omega
  have hwrap : wrap32 (o % 61440 + n) = o + n - 61440 * (o / 61440) := by
    simp only [wrap32]
    omega
  cases hcj : ch[o / 61440]? with
  | none =>
    have hcl : ch.length ≤ o / 61440 := List.getElem?_eq_none_iff.1 hcj
    have h0 := Vol.fref_of_le V (show 120 * ch.length ≤ o / 512 by omega)
    omega
  | some b =>
    obtain ⟨hj', hbj⟩ := List.getElem?_eq_some_iff.1 hcj
    rw [hcj] at hskip
    refine ⟨hj', ?_⟩
    have href := V.refAt_place hcj
    rw [← currentBlock_eq hlt] at hskip
    rw [writeLoop, if_neg hb]
    refine (Prog.bind_ok hskip).trans ?_
    simp only [Prog.run_failIf_bind]
    rw [if_neg (by omega), href, hn1, hoff, Prog.bind_ok hwrite]
    simp only [ne_eq, not_true_eq_false, if_false]
    rw [hwrap, hbj]

/-- The data loop, started at the entry at place `j` of the chain, stores the bytes of the buffer one after the other, up to
the first whose reference is 0. -/
theorem writeLoop_run (hr : Ready env s d) {ch : List Nat} :
    ∀ (fuel j o : Nat) (buff : List UInt8) (V : Vol) (hj : j < ch.length), V.Geo → V.IsChain ch →
      (∀ i < buff.length, V.RefOk (V.fref ch ((o + i) / 512))) → buff.length ≤ fuel → 61440 * j ≤ o → o - 61440 * j < 4294967296 →
      ∃ t, t ≤ buff.length ∧ (∀ i < t, V.firstData ≤ V.fref ch ((o + i) / 512)) ∧
        (t < buff.length → V.fref ch ((o + t) / 512) = 0 ∨ o - 61440 * j = 4294967295) ∧
        (writeLoop env d fuel (V.ent ch[j]) (o - 61440 * j) buff).run (s.withVol d V) =
          if t = buff.length then .ok none (s.withVol d (V.poke (V.fref ch) o (buff.take t)))
          else .error errorIo (s.withVol d (V.poke (V.fref ch) o (buff.take t))) := by
  intro fuel
  induction fuel with
  | zero =>
    intro j o buff V hj _ _ _ hf _ _
    have hb : buff = [] := List.eq_nil_of_length_eq_zero (by omega)
    subst hb
    exact ⟨0, by simp, by simp, by simp, rfl⟩
  | succ fuel ih =>
    intro j o buff V hj hg hc hrr hf hle hlt
    by_cases hb : buff = []
    · subst hb
      exact ⟨0, by simp, by simp, by simp, rfl⟩
    have hpos : 0 < buff.length := List.length_pos_iff.2 hb
    have hstop : (writeLoop env d (fuel + 1) (V.ent ch[j]) (o - 61440 * j) buff).run (s.withVol d V) =
        .error errorIo (s.withVol d V) → (V.fref ch ((o + 0) / 512) = 0 ∨ o - 61440 * j = 4294967295) →
        ∃ t, t ≤ buff.length ∧ (∀ i < t, V.firstData ≤ V.fref ch ((o + i) / 512)) ∧
          (t < buff.length → V.fref ch ((o + t) / 512) = 0 ∨ o - 61440 * j = 4294967295) ∧
          (writeLoop env d (fuel + 1) (V.ent ch[j]) (o - 61440 * j) buff).run (s.withVol d V) =
            if t = buff.length then .ok none (s.withVol d (V.poke (V.fref ch) o (buff.take t)))
            else .error errorIo (s.withVol d (V.poke (V.fref ch) o (buff.take t))) := by
      intro hrun h0
      refine ⟨0, by omega, by omega, fun _ => h0, ?_⟩
      rw [hrun, if_neg (by omega), List.take_zero, Vol.poke]
    by_cases hmax : o - 61440 * j = 4294967295
    · -- the block count wraps, and no chain is that long
      refine hstop ?_ (Or.inr hmax)
      have hk : sub32 (neededBlocks (wrap32 (4294967295 + 1))) 1 / sfsEntryRefs = 35791394 := by decide
      have hlen : (ch.drop (j + 1)).length < 35791394 := by
        have h1 := hc.length_le
        have h2 := hg.nent_lt
        rw [List.length_drop]
        omega
      rw [writeLoop, if_neg hb]
      refine Prog.bind_error (writeSkip_end hr hg _ _ _ _ _ (hc.drop hj) ?_)
      rw [hmax, hk]
      exact hlen
    · have hlt' : o - 61440 * j < 4294967295 := by omega
      have hfirst := hrr 0 hpos
      rw [Nat.add_zero] at hfirst
      rcases hfirst with h0 | ⟨h1, h2⟩
      · exact hstop (writeLoop_stop hr hg hc hj hle hlt' h0 hb fuel) (Or.inl h0)
      · obtain ⟨n, hn⟩ : ∃ n, n = min buff.length (512 - o % 512) := ⟨_, rfl⟩
        obtain ⟨hj', hstep⟩ := writeLoop_step hr hg hc hj hle hlt' h1 h2 hn hb fuel
        have hchunk : (buff.take n).length = n := by
          rw [List.length_take]
          omega
        have hblock : ∀ i < n, (o + i) / 512 = o / 512 := by
          intro i hi
          omega
        have hin : ∀ i < (buff.take n).length, V.firstData ≤ V.fref ch ((o + i) / 512) := by
          intro i hi
          rw [hblock i (by omega)]
          exact h1
        obtain ⟨-, -, hfr⟩ := Vol.poke_table hc hin
        obtain ⟨hg₁, hc₁, hfd₁, hend₁⟩ := Vol.poke_keeps hg hc hin
        have hdl : (buff.drop n).length = buff.length - n := List.length_drop
        have hrr₁ : ∀ i < (buff.drop n).length, (V.poke (V.fref ch) o (buff.take n)).RefOk
            ((V.poke (V.fref ch) o (buff.take n)).fref ch ((o + n + i) / 512)) := by
          intro i hi
          rw [Vol.RefOk, hfr, hfd₁, hend₁, Nat.add_assoc]
          exact hrr (n + i) (by omega)
        have hnle : n ≤ buff.length := by omega
        have hnpos : 0 < n := by omega
        have hlocal : o + n - 61440 * (o / 61440) < 4294967295 := by omega
        obtain ⟨t, ht1, ht2, ht3, ht4⟩ :=
          ih (o / 61440) (o + n) (buff.drop n) _ hj' hg₁ hc₁ hrr₁ (by omega) (by omega) (by omega)
        have hent : (V.poke (V.fref ch) o (buff.take n)).ent ch[o / 61440] = V.ent ch[o / 61440] :=
          (Vol.poke_table hc hin).1 _ (hc.lt _ (List.getElem_mem hj'))
        have hpoke : V.poke (V.fref ch) o (buff.take (n + t)) =
            (V.poke (V.fref ch) o (buff.take n)).poke ((V.poke (V.fref ch) o (buff.take n)).fref ch) (o + n)
              ((buff.drop n).take t) := by
          rw [List.take_add, Vol.poke_append, hchunk, funext hfr]
        refine ⟨n + t, by omega, ?_, ?_, ?_⟩
        · intro i hi
          by_cases hin' : i < n
          · rw [hblock i hin']
            exact h1
          · have := ht2 (i - n) (by omega)
            rwa [hfd₁, hfr, show o + n + (i - n) = o + i by omega] at this
        · intro hlt''
          rcases ht3 (by omega) with h | h
          · rw [hfr, show o + n + t = o + (n + t) by omega] at h
            exact Or.inl h
          · omega
        · rw [hstep, ← hent, ht4, hpoke]
          by_cases hfin : t = (buff.drop n).length
          · rw [if_pos hfin, if_pos (by omega)]
          · rw [if_neg hfin, if_neg (by omega)]

/-! ## Reading -/

theorem getNrefEntryFromEntry_run (hr : Ready env s d) {V : Vol} (hg : V.Geo) {a : Nat} {l : List Nat}
    (hc : V.IsChain (a :: l)) (i : Nat) :
    (getNrefEntryFromEntry env d a (V.ent a) i).run (s.withVol d V) =
      match (a :: l)[i / 120]? with
      | some b => .ok (b, V.ent b) (s.withVol d V)
      | none => .error errorNotFound (s.withVol d V) :=
  advanceEntry_run hr hg _ a l hc

/-- The bytes of a file in a range. -/
def Vol.fileBytes (V : Vol) (ch : List Nat) (o n : Nat) : List UInt8 := (List.range n).map fun i => V.fileByte ch (o + i)

theorem Vol.fileBytes_add (V : Vol) (ch : List Nat) (o m n : Nat) :
    V.fileBytes ch o (m + n) = V.fileBytes ch o m ++ V.fileBytes ch (o + m) n := by
  simp only [Vol.fileBytes, List.range_add, List.map_append, List.map_map]
  congr 2
  funext i
  simp only [Function.comp, Nat.add_assoc]

theorem Vol.length_fileBytes (V : Vol) (ch : List Nat) (o n : Nat) : (V.fileBytes ch o n).length = n := by
  simp [Vol.fileBytes]

theorem Vol.take_fileBytes (V : Vol) (ch : List Nat) (o : Nat) {k n : Nat} (h : k ≤ n) :
    (V.fileBytes ch o n).take k = V.fileBytes ch o k := by
  have hn : n = k + (n - k) := by omega
  rw [hn, Vol.fileBytes_add, List.take_left' (V.length_fileBytes ch o k)]

theorem Vol.drop_fileBytes (V : Vol) (ch : List Nat) (o : Nat) {k n : Nat} (h : k ≤ n) :
    (V.fileBytes ch o n).drop k = V.fileBytes ch (o + k) (n - k) := by
  have hn : n = k + (n - k) := by omega
  conv_lhs => rw [hn, Vol.fileBytes_add, List.drop_left' (V.length_fileBytes ch o k)]

/-- A range of the bytes of a file. -/
theorem Vol.fileBytes_range (V : Vol) (ch : List Nat) (size offset count : Nat) :
    ((V.fileBytes ch 0 size).drop offset).take count =
      V.fileBytes ch (min offset size) (min count (size - min offset size)) := by
  rcases Nat.le_total offset size with ho | ho
  · have hmin : min offset size = offset := Nat.min_eq_left ho
    rw [Vol.drop_fileBytes V ch 0 ho, Nat.zero_add, hmin]
    rcases Nat.le_total count (size - offset) with hc | hc
    · rw [Vol.take_fileBytes V ch offset hc, Nat.min_eq_left hc]
    · rw [List.take_of_length_le (by rw [Vol.length_fileBytes]; exact hc), Nat.min_eq_right hc]
  · have hmin : min offset size = size := Nat.min_eq_right ho
    rw [List.drop_of_length_le (by rw [Vol.length_fileBytes]; exact ho), hmin, Nat.sub_self, Nat.min_zero]
    simp [Vol.fileBytes]

/-- The bytes of a file inside one block. -/
theorem Vol.fileBytes_inside (V : Vol) (ch : List Nat) (block : Nat) {offset n : Nat} (h : offset + n ≤ 512) :
    V.fileBytes ch (512 * block + offset) n = ((V (V.fref ch block)).bytes.drop offset).take n := by
  apply List.ext_getElem
  · simp only [Vol.fileBytes, List.length_map, List.length_range, List.length_take, List.length_drop, Block.length_bytes]
    omega
  · intro i h1 _
    simp only [Vol.fileBytes, List.length_map, List.length_range] at h1
    have hd : (512 * block + offset + i) / 512 = block := by omega
    have hm : (512 * block + offset + i) % 512 = offset + i := by omega
    simp only [Vol.fileBytes, Vol.fileByte, List.getElem_map, List.getElem_range, hd, hm, List.getElem_take,
      List.getElem_drop, Block.bytes]

/-- The loop of `fs_read_file` returns the bytes of the file. -/
theorem readLoop_run (hr : Ready env s d) {V : Vol} (hg : V.Geo) {a : Nat} {l : List Nat} (hc : V.IsChain (a :: l))
    (hrr : V.RefsInRange (a :: l)) :
    ∀ (fuel block offset count : Nat), count ≤ fuel → offset < 512 →
      512 * block + offset + count ≤ 61440 * (l.length + 1) →
      (readLoop env d a (V.ent a) fuel block offset count).run (s.withVol d V) =
        .ok (V.fileBytes (a :: l) (512 * block + offset) count) (s.withVol d V) := by
  intro fuel
  induction fuel with
  | zero =>
    intro block offset count hf _ _
    obtain rfl : count = 0 := by omega
    rfl
  | succ fuel ih =>
    intro block offset count hf ho hle
    rw [readLoop]
    by_cases h0 : count = 0
    · subst h0
      rfl
    · have hk : block / 120 < (a :: l).length := by
        simp only [List.length_cons]
        omega
      have hget := getNrefEntryFromEntry_run hr hg hc block
      rw [List.getElem?_eq_getElem hk] at hget
      have href : ((V.ent (a :: l)[block / 120]).refAt (block % sfsEntryRefs)) = V.fref (a :: l) block := by
        simp only [Vol.fref, List.getElem?_eq_getElem hk, sfsEntryRefs]
      have hsmall : V.fref (a :: l) block < 8388608 := by
        have h1 : V.dataEnd ≤ 8388608 := Nat.min_le_right _ _
        rcases hrr block with h | ⟨-, h⟩ <;> omega
      obtain ⟨n, hn⟩ : ∃ n, n = min (512 - offset) count := ⟨_, rfl⟩
      have hn' : min (blockSize - offset) count = n := hn.symm
      have hsplit : count = n + (count - n) := by omega
      have hread : (readDisk env d ((V.ent (a :: l)[block / 120]).refAt (block % sfsEntryRefs)) offset
          (min (blockSize - offset) count)).run (s.withVol d V) =
            .ok (noError, ((V (V.fref (a :: l) block)).bytes.drop offset).take n) (s.withVol d V) := by
        rw [href, hn']
        exact readDisk_run hr V hsmall ho (by omega) (by omega)
      rw [if_neg h0]
      refine (Prog.bind_ok hget).trans ((Prog.bind_ok hread).trans ?_)
      simp only [ne_eq, not_true_eq_false, Prog.run_failIf_bind, if_false, hn']
      have hrest : (readLoop env d a (V.ent a) fuel (block + 1) 0 (count - n)).run (s.withVol d V) =
          .ok (V.fileBytes (a :: l) (512 * block + offset + n) (count - n)) (s.withVol d V) := by
        rcases Nat.eq_zero_or_pos (count - n) with hz | hz
        · rw [hz]
          cases fuel <;> simp [readLoop, Vol.fileBytes]
        · have hfull : 512 * (block + 1) + 0 = 512 * block + offset + n := by omega
          rw [ih (block + 1) 0 (count - n) (by omega) (by omega) (by omega), hfull]
      rw [Prog.bind_ok hrest, ← Vol.fileBytes_inside V (a :: l) _ (show offset + n ≤ 512 by omega)]
      conv_rhs => rw [hsplit, Vol.fileBytes_add]
      rfl

/-- `fs_read_file` of a file returns the bytes of the range. -/
theorem fsReadFile_run (hr : Ready env s d) {V : Vol} (hg : V.Geo) {a : Nat} {l : List Nat} (hc : V.IsChain (a :: l))
    (hrr : V.RefsInRange (a :: l)) {path : CStr} (hd : pathGetDisk env path = d)
    (hget : (fsGetEntry env path unknownValue unknownValue).run (s.withVol d V) = .ok (a, V.ent a) (s.withVol d V))
    (hfile : (V.ent a).isFile = true) (hfits : (V.ent a).size.toNat ≤ 61440 * (l.length + 1)) (offset count : Nat) :
    (fsReadFile env path offset count).run (s.withVol d V) =
      .ok (((V.fileBytes (a :: l) 0 (V.ent a).size.toNat).drop offset).take count) (s.withVol d V) := by
  obtain ⟨o, ho⟩ : ∃ o, o = min offset (V.ent a).size.toNat := ⟨_, rfl⟩
  obtain ⟨n, hn⟩ : ∃ n, n = min count ((V.ent a).size.toNat - o) := ⟨_, rfl⟩
  have hmod : 512 * (o / 512) + o % 512 = o := Nat.div_add_mod o 512
  have hloop := readLoop_run hr hg hc hrr n (o / 512) (o % 512) n (Nat.le_refl n) (Nat.mod_lt _ (by decide)) (by omega)
  rw [Vol.fileBytes_range, ← ho, ← hn, fsReadFile, Prog.bind_ok hget, Prog.run_failIf_bind, if_neg (not_not.2 hfile), hd]
  rw [hmod] at hloop
  subst hn ho
  exact hloop

end Run

end NanoS32
