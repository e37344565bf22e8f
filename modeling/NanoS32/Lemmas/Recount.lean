import NanoS32.Lemmas.Refcount

/-!
# The references of a chain

The references of the entries of a chain, one after the other, are one list (`Vol.fref`), and `set_entry_refcount` cuts this
list or lengthens it. `Vol.Rechain` is what it does to the table, whether it succeeds or runs out of entries.
-/

namespace NanoS32

/-- Reference `i` of a chain; 0 past its end. -/
def Vol.fref (V : Vol) (ch : List Nat) (i : Nat) : Nat :=
  match ch[i / 120]? with
  | some n => (V.ent n).refAt (i % 120)
  | none => 0

theorem Vol.fref_of_le (V : Vol) {ch : List Nat} {i : Nat} (h : 120 * ch.length ≤ i) : V.fref ch i = 0 := by
  have hc : ch[i / 120]? = none := List.getElem?_eq_none (by omega)
  simp only [Vol.fref, hc]

theorem Vol.fref_of_get (V : Vol) {ch : List Nat} {k n : Nat} (h : ch[k]? = some n) (i : Nat) (hi : i < 120) :
    V.fref ch (120 * k + i) = (V.ent n).refAt i := by
  have h1 : (120 * k + i) / 120 = k := by omega
  have h2 : (120 * k + i) % 120 = i := by omega
  simp only [Vol.fref, h1, h, h2]

/-- A chain has the same references in a table that has the same references in its entries. -/
theorem Vol.fref_congr {V V' : Vol} {ch : List Nat} (h : ∀ n ∈ ch, (V'.ent n).refAt = (V.ent n).refAt) (i : Nat) :
    V'.fref ch i = V.fref ch i := by
  unfold Vol.fref
  cases hc : ch[i / 120]? with
  | none => rfl
  | some n => simp only [h n (List.mem_of_getElem? hc)]

/-- The chain `ch` has become `c'`: cut, or lengthened with empty entries. Its first `m` references are kept, and the others
are 0. -/
structure Vol.Rechain (V : Vol) (ch : List Nat) (m : Nat) (c' : List Nat) (V' : Vol) : Prop where
  agree : V.AgreeOff (ch ++ c') V'
  chain : V'.IsChain c'
  shape : c' <+: ch ∨ ch <+: c'
  dropped : ∀ n ∈ ch, n ∉ c' → V'.ent n = Block.zero
  kept : ∀ n ∈ c', n ∈ ch → (V'.ent n).flags = (V.ent n).flags ∧ (V'.ent n).name = (V.ent n).name ∧
    (V'.ent n).time = (V.ent n).time ∧ (V'.ent n).size = (V.ent n).size ∧ (V'.ent n).parent = (V.ent n).parent
  added : ∀ n ∈ c', n ∉ ch → (V.ent n).used = false ∧ (V'.ent n).size = 0 ∧
    ∃ b, ch.getLast? = some b ∧ (V'.ent n).flags = (V.ent b).flags ∧ (V'.ent n).name = (V.ent b).name ∧
      (V'.ent n).time = (V.ent b).time
  refs : ∀ i, V'.fref c' i = if i < m then V.fref ch i else 0

section Cut

variable {V : Vol} {l₁ l₂ : List Nat} {b : Nat}

/-- Cutting a chain behind its entry `b`, and clearing the references of `b` from index `k` on. -/
def Vol.cutChain (V : Vol) (b k : Nat) (l₂ : List Nat) : Vol :=
  (V.setEnt b (((V.ent b).clearRefs k).setNext 0)).updEnts l₂ fun _ _ => Block.zero

theorem Vol.rechain_cut (hc : V.IsChain (l₁ ++ b :: l₂)) {k : Nat} (hk : k ≤ 120) :
    V.Rechain (l₁ ++ b :: l₂) (120 * l₁.length + k) (l₁ ++ [b]) (V.cutChain b k l₂) := by
  obtain ⟨hn1, hn2, hdis⟩ := List.nodup_append.1 hc.nodup
  obtain ⟨hb2, -⟩ := List.nodup_cons.1 hn2
  have hb1 : b ∉ l₁ := fun h => hdis b h b (by simp) rfl
  have h12 : ∀ n ∈ l₁, n ∉ l₂ := fun n h h' => hdis n h n (List.mem_cons_of_mem _ h') rfl
  have hent : ∀ n, (V.cutChain b k l₂).ent n =
      if n ∈ l₂ then Block.zero else if n = b then ((V.ent b).clearRefs k).setNext 0 else V.ent n := by
    intro n
    rw [Vol.cutChain, Vol.ent_updEnts, Vol.ent_setEnt]
  have hent1 : ∀ n ∈ l₁, (V.cutChain b k l₂).ent n = V.ent n := by
    intro n hn
    have hnb : n ≠ b := by rintro rfl; exact hb1 hn
    rw [hent, if_neg (h12 n hn), if_neg hnb]
  have hentb : (V.cutChain b k l₂).ent b = ((V.ent b).clearRefs k).setNext 0 := by
    rw [hent, if_neg hb2, if_pos rfl]
  have hagree : V.AgreeOff (b :: l₂) (V.cutChain b k l₂) :=
    ((V.agreeOff_setEnt b _).mono (by simp)).trans ((Vol.agreeOff_updEnts _ l₂ _).mono (by simp))
  refine ⟨?_, ?_, ?_, ?_, ?_, ?_, ?_⟩
  · exact hagree.mono fun x hx => by
      rw [List.mem_append, List.mem_append]
      exact Or.inl (Or.inr hx)
  · refine ⟨?_, ?_, ?_⟩
    · refine hc.linked.take ?_ ?_ ?_
      · exact fun x hx => by rw [Vol.next, hent1 x hx, Vol.next]
      · rw [Vol.next, hentb, Block.toNat_setNext _ (by omega)]
      · intro x hx
        rcases List.mem_append.1 hx with hx | hx
        · rw [Vol.par, hent1 x hx, Vol.par]
        · rw [List.mem_singleton.1 hx, Vol.par, hentb, Vol.par]
          simp
    · exact List.nodup_append.2 ⟨hn1, List.nodup_singleton b, fun x hx y hy => by
        rw [List.mem_singleton.1 hy]
        rintro rfl
        exact hb1 hx⟩
    · intro n hn
      rw [hagree.nent]
      refine hc.lt n ?_
      rcases List.mem_append.1 hn with hn | hn
      · exact List.mem_append_left _ hn
      · rw [List.mem_singleton.1 hn]
        exact List.mem_append_right _ (by simp)
  · exact Or.inl ⟨l₂, by simp⟩
  · intro n hn hn'
    have hn2 : n ∈ l₂ := by
      simp only [List.mem_append, List.mem_cons, List.not_mem_nil, or_false] at hn hn'
      tauto
    rw [hent, if_pos hn2]
  · intro n hn _
    rcases List.mem_append.1 hn with hn | hn
    · rw [hent1 n hn]
      exact ⟨rfl, rfl, rfl, rfl, rfl⟩
    · rw [List.mem_singleton.1 hn, hentb]
      exact ⟨rfl, rfl, rfl, rfl, rfl⟩
  · intro n hn hn'
    refine absurd ?_ hn'
    simp only [List.mem_append, List.mem_cons, List.not_mem_nil, or_false] at hn ⊢
    tauto
  · intro i
    by_cases hi : i / 120 < l₁.length
    · have h1 : (l₁ ++ [b])[i / 120]? = some (l₁[i / 120]) := by
        rw [List.getElem?_append_left hi, List.getElem?_eq_getElem hi]
      have h2 : (l₁ ++ b :: l₂)[i / 120]? = some (l₁[i / 120]) := by
        rw [List.getElem?_append_left hi, List.getElem?_eq_getElem hi]
      rw [if_pos (by omega)]
      simp only [Vol.fref, h1, h2, hent1 _ (List.getElem_mem hi)]
    · by_cases hi' : i / 120 = l₁.length
      · have h1 : (l₁ ++ [b])[i / 120]? = some b := by simp [hi']
        have h2 : (l₁ ++ b :: l₂)[i / 120]? = some b := by simp [hi']
        simp only [Vol.fref, h1, h2, hentb, Block.setNext_fields, Block.refAt_clearRefs]
        have : i % 120 < k ↔ i < 120 * l₁.length + k := by omega
        simp only [this]
      · rw [if_neg (by omega)]
        exact Vol.fref_of_le _ (by simp; omega)

end Cut

/-- Lengthening a chain: its entries stay, but for the link of the last, and its references are those it had. -/
theorem Vol.Extended.rechain {V V' : Vol} {l₁ new : List Nat} {b : Nat} (h : V.Extended b new V')
    (hc : V.IsChain (l₁ ++ [b])) (hu : ∀ n ∈ l₁ ++ [b], (V.ent n).used = true) {m : Nat} (hm : 120 * (l₁.length + 1) ≤ m) :
    V.Rechain (l₁ ++ [b]) m (l₁ ++ b :: new) V' := by
  obtain ⟨hn1, -, hdis⟩ := List.nodup_append.1 hc.nodup
  have hb1 : b ∉ l₁ := fun h => hdis b h b (by simp) rfl
  have hnew : ∀ n ∈ new, n ∉ l₁ ++ [b] := by
    intro n hn hn'
    have := hu n hn'
    rw [(h.free n hn).2.2.2] at this
    cases this
  have hent1 : ∀ n ∈ l₁, V'.ent n = V.ent n := by
    intro n hn
    refine h.agree.ent fun hn' => ?_
    rcases List.mem_cons.1 hn' with rfl | hn'
    · exact hb1 hn
    · exact hnew n hn' (List.mem_append_left _ hn)
  have hbnew : b ∉ new := fun hb => hnew b hb (by simp)
  have hshape : l₁ ++ b :: new = (l₁ ++ [b]) ++ new := by simp
  refine ⟨?_, ⟨?_, ?_, ?_⟩, ?_, ?_, ?_, ?_, ?_⟩
  · exact h.agree.mono fun x hx => by
      rw [List.mem_append, List.mem_append, List.mem_append]
      exact Or.inr (Or.inr hx)
  · cases new with
    | nil =>
      refine hc.linked.take ?_ ?_ ?_
      · exact fun x hx => by rw [Vol.next, hent1 x hx, Vol.next]
      · exact h.linked
      · intro x hx
        rcases List.mem_append.1 hx with hx | hx
        · rw [Vol.par, hent1 x hx, Vol.par]
        · rw [List.mem_singleton.1 hx, Vol.par, h.last, Vol.par]
          simp
    | cons ch new =>
      refine hc.linked.append ?_ ?_ h.linked.1 h.linked.2.1 h.linked.2.2.1 h.linked.tail
      · exact fun x hx => by rw [Vol.next, hent1 x hx, Vol.next]
      · intro x hx
        rcases List.mem_append.1 hx with hx | hx
        · rw [Vol.par, hent1 x hx, Vol.par]
        · rw [List.mem_singleton.1 hx, Vol.par, h.last, Vol.par]
          simp
  · rw [hshape]
    refine List.nodup_append.2 ⟨hc.nodup, h.nodup, fun x hx y hy => ?_⟩
    rintro rfl
    exact hnew x hy hx
  · intro n hn
    rw [h.agree.nent]
    rw [hshape, List.mem_append] at hn
    rcases hn with hn | hn
    · exact hc.lt n hn
    · exact (h.free n hn).1
  · exact Or.inr ⟨new, hshape.symm⟩
  · intro n hn hn'
    refine absurd ?_ hn'
    rw [hshape]
    exact List.mem_append_left _ hn
  · intro n _ hn
    rcases List.mem_append.1 hn with hn | hn
    · rw [hent1 n hn]
      exact ⟨rfl, rfl, rfl, rfl, rfl⟩
    · rw [List.mem_singleton.1 hn, h.last]
      exact ⟨rfl, rfl, rfl, rfl, rfl⟩
  · intro n hn hn'
    have hn2 : n ∈ new := by
      rw [hshape, List.mem_append] at hn
      exact hn.resolve_left hn'
    obtain ⟨h1, h2, h3, h4, -⟩ := h.fields n hn2
    exact ⟨(h.free n hn2).2.2.2, h4, b, by simp, h1, h2, h3⟩
  · intro i
    have hz : 120 * (l₁.length + 1) ≤ i → V'.fref (l₁ ++ b :: new) i = 0 := by
      intro hi
      unfold Vol.fref
      have hget : (l₁ ++ b :: new)[i / 120]? = new[i / 120 - (l₁.length + 1)]? := by
        rw [hshape, List.getElem?_append_right (by simp; omega)]
        simp
      rw [hget]
      cases hx : new[i / 120 - (l₁.length + 1)]? with
      | none => rfl
      | some n => simp only [(h.fields n (List.mem_of_getElem? hx)).2.2.2.2]
    by_cases hi : i / 120 < l₁.length + 1
    · rw [if_pos (by omega)]
      have h1 : (l₁ ++ b :: new)[i / 120]? = (l₁ ++ [b])[i / 120]? := by
        rw [hshape, List.getElem?_append_left (by simp; omega)]
      unfold Vol.fref
      rw [h1]
      cases hx : (l₁ ++ [b])[i / 120]? with
      | none => rfl
      | some n =>
        rcases List.mem_append.1 (List.mem_of_getElem? hx) with hn | hn
        · simp only [hent1 n hn]
        · rw [List.mem_singleton.1 hn]
          simp only [h.last, Block.setNext_fields]
    · rw [hz (by omega), Vol.fref_of_le V (by simp; omega)]
      simp

/-! ## `set_entry_refcount` -/

/-- The entries a chain with `r` references has: there is always the first. -/
def chainEntries (r : Nat) : Nat := neededEntries r - 1 + 1

theorem neededEntries_eq (r : Nat) : neededEntries r = (r + 119) / 120 := by
  unfold neededEntries
  by_cases h : r % sfsEntryRefs = 0
  · rw [if_neg (not_not.2 h)]
    simp only [sfsEntryRefs] at h ⊢
    omega
  · rw [if_pos h]
    simp only [sfsEntryRefs] at h ⊢
    omega

/-- The references `set_entry_refcount` does not clear. -/
def keptRefs (r : Nat) : Nat := 120 * (chainEntries r - 1) + min 119 r

section Run

variable {env : Env} {s : Sys} {d : Nat}

theorem firstUnused_eq (r : Nat) : min (sfsEntryRefs - 1) r % sfsEntryRefs = min 119 r := by
  simp only [sfsEntryRefs]
  omega

/-- `set_entry_refcount` on a chain that is long enough cuts it behind the last entry it needs. -/
theorem setEntryRefcount_cutChain (hr : Ready env s d) {V : Vol} (hg : V.Geo) {l₁ l₂ : List Nat} {a b : Nat}
    (hc : V.IsChain (l₁ ++ b :: l₂)) (hhead : (l₁ ++ [b]).head (by simp) = a) {r : Nat}
    (hlen : l₁.length = neededEntries r - 1) :
    (setEntryRefcount env d a r).run (s.withVol d V) = .ok () (s.withVol d (V.cutChain b (min 119 r) l₂)) := by
  have hn := hg.nent_lt
  have hfuel := hr.fuel
  have hbl : b < V.nent := hc.lt b (by simp)
  have ha : a < V.nent := hc.lt a (by
    cases l₁ with
    | nil => simp only [List.nil_append, List.head_cons] at hhead; simp [hhead]
    | cons x l₁ => simp only [List.cons_append, List.head_cons] at hhead; simp [hhead])
  have hb2 : b ∉ l₂ := (List.nodup_cons.1 (List.nodup_append.1 hc.nodup).2.1).1
  have hwalk := extendChain_walk hr hg l₁ b l₂ hc 0
  simp only [hhead, Nat.add_zero, hlen] at hwalk
  have hnext : (V.ent b).next.toNat = l₂.headD 0 := hc.linked.suffix.next_head
  have hlen2 := hc.length_le
  rw [setEntryRefcount, Prog.bind_ok (getEntryN_run hr V (by omega)), Prog.bind_ok (hwalk.trans rfl)]
  simp only [firstUnused_eq, Block.clearRefs_fields]
  rw [Prog.bind_ok (writeEntry_run hr V (by omega) _), hnext]
  cases l₂ with
  | nil =>
    have h0 : ((V.ent b).clearRefs (min 119 r)).setNext 0 = (V.ent b).clearRefs (min 119 r) :=
      Block.setNext_of_toNat (by simpa using hnext)
    simp [Vol.cutChain, Vol.updEnts_nil, h0]
  | cons ch l₂ =>
    have hc0 : ch ≠ 0 := hc.linked.suffix.2.1
    have hsuf : V.IsChain (b :: ch :: l₂) :=
      ⟨hc.linked.suffix, (List.nodup_append.1 hc.nodup).2.1, fun n hn => hc.lt n (List.mem_append_right _ hn)⟩
    rw [if_pos (show (ch :: l₂).headD 0 ≠ 0 from hc0), Prog.bind_ok (writeEntry_run hr _ (by omega) _)]
    simp only [Vol.setEnt_setEnt, List.headD_cons]
    simp only [List.length_append, List.length_cons] at hlen2
    refine deleteChain_run hr _ ch l₂ _ (hg.setEnt _ _) ?_ (by omega)
    refine hsuf.tail.congr (by simp) ?_ ?_
    · intro x hx
      rw [Vol.ent_setEnt_ne _ _ (by rintro rfl; exact hb2 hx)]
    · intro x hx
      rw [Vol.ent_setEnt_ne _ _ (by rintro rfl; exact hb2 (List.mem_cons_of_mem _ hx))]

/-- `set_entry_refcount` on a chain that is long enough. -/
theorem setEntryRefcount_cut (hr : Ready env s d) {V : Vol} (hg : V.Geo) {a : Nat} {l : List Nat}
    (hc : V.IsChain (a :: l)) {r : Nat} (hle : chainEntries r ≤ l.length + 1) :
    ∃ V', V.Rechain (a :: l) (keptRefs r) ((a :: l).take (chainEntries r)) V' ∧
      (setEntryRefcount env d a r).run (s.withVol d V) = .ok () (s.withVol d V') := by
  obtain ⟨l₁, b, l₂, hsplit, hlen⟩ : ∃ l₁ b l₂, a :: l = l₁ ++ b :: l₂ ∧ l₁.length = neededEntries r - 1 := by
    have hlt : neededEntries r - 1 < (a :: l).length := by
      simp only [chainEntries] at hle
      simp only [List.length_cons]
      omega
    refine ⟨(a :: l).take (neededEntries r - 1), (a :: l)[neededEntries r - 1], (a :: l).drop (neededEntries r - 1 + 1),
      ?_, ?_⟩
    · rw [← List.drop_eq_getElem_cons hlt, List.take_append_drop]
    · rw [List.length_take]
      omega
  have hhead : (l₁ ++ [b]).head (by simp) = a := by
    cases l₁ with
    | nil => simpa using (List.cons.inj hsplit).1.symm
    | cons x l₁ => simpa using (List.cons.inj hsplit).1.symm
  have htake : (a :: l).take (chainEntries r) = l₁ ++ [b] := by
    rw [hsplit, chainEntries, ← hlen, List.take_append, List.take_of_length_le (by omega)]
    simp
  have hkept : keptRefs r = 120 * l₁.length + min 119 r := by
    simp only [keptRefs, chainEntries, hlen]
    omega
  rw [hsplit] at hc
  refine ⟨V.cutChain b (min 119 r) l₂, ?_, setEntryRefcount_cutChain hr hg hc hhead hlen⟩
  rw [htake, hsplit, hkept]
  exact Vol.rechain_cut hc (by omega)

/-- `set_entry_refcount` on a chain that has to be lengthened. -/
theorem setEntryRefcount_extend (hr : Ready env s d) {V : Vol} (hg : V.Geo) (hroot : (V.ent 0).used = true) {a : Nat}
    {l : List Nat} (hc : V.IsChain (a :: l)) (hu : ∀ n ∈ a :: l, (V.ent n).used = true) {r : Nat}
    (hlt : l.length + 1 < chainEntries r) :
    (∃ c' V', c'.length = chainEntries r ∧ V.Rechain (a :: l) (keptRefs r) c' V' ∧
      (setEntryRefcount env d a r).run (s.withVol d V) = .ok () (s.withVol d V')) ∨
    (∃ c' V', (a :: l) <+: c' ∧ V.Rechain (a :: l) (120 * c'.length) c' V' ∧ V'.freeEntry = none ∧
      V.freeCount < chainEntries r - (l.length + 1) ∧
      (setEntryRefcount env d a r).run (s.withVol d V) = .error errorNoSpace (s.withVol d V')) := by
  have hn := hg.nent_lt
  have ha : a < V.nent := hc.lt a (by simp)
  obtain ⟨l₁, b, hsplit⟩ : ∃ l₁ b, a :: l = l₁ ++ [b] :=
    ⟨(a :: l).dropLast, (a :: l).getLast (by simp), (List.dropLast_concat_getLast (by simp)).symm⟩
  have hlen : l₁.length = l.length := by
    have := congrArg List.length hsplit
    simp only [List.length_cons, List.length_append, List.length_nil] at this
    omega
  have hhead : (l₁ ++ [b]).head (by simp) = a := by
    cases l₁ with
    | nil => simpa using (List.cons.inj hsplit).1.symm
    | cons x l₁ => simpa using (List.cons.inj hsplit).1.symm
  rw [hsplit] at hc hu
  have hbl : b < V.nent := hc.lt b (by simp)
  have hcan : V.CanExtend b := ⟨hg, hroot, hbl, hu b (by simp), hc.linked.suffix⟩
  obtain ⟨j, hj⟩ : ∃ j, neededEntries r - 1 = l₁.length + j := ⟨neededEntries r - 1 - l₁.length, by
    simp only [chainEntries] at hlt
    omega⟩
  have hwalk := extendChain_walk hr hg l₁ b [] hc j
  rw [← hj] at hwalk
  simp only [hhead] at hwalk
  rw [setEntryRefcount, Prog.bind_ok (getEntryN_run hr V (by omega))]
  rcases extendChain_create hr j b V hcan with ⟨new, V', hnl, hext, hrun⟩ | ⟨new, V', hnl, hext, hnone, hrun⟩
  · left
    have hx := hext.extended hcan
    have hne : new ≠ [] := by
      rintro rfl
      simp only [List.length_nil] at hnl
      simp only [chainEntries] at hlt
      omega
    refine ⟨l₁ ++ b :: new, V', ?_, ?_, ?_⟩
    · simp only [List.length_append, List.length_cons, hnl, chainEntries, hj]
      omega
    · rw [hsplit]
      refine hx.rechain hc hu ?_
      simp only [keptRefs, chainEntries] at hlt ⊢
      have := List.length_pos_iff.2 hne
      omega
    · -- the last entry is a new one, so clearing its references changes nothing, and there is nothing behind it
      obtain ⟨t, z, htz⟩ : ∃ t z, new = t ++ [z] :=
        ⟨new.dropLast, new.getLast hne, (List.dropLast_concat_getLast hne).symm⟩
      have hlast : (b :: new).getLast (by simp) = z := by simp [htz]
      have hz : z ∈ new := by simp [htz]
      have hlink := hx.linked
      rw [htz, show b :: (t ++ [z]) = (b :: t) ++ [z] from rfl] at hlink
      have hnext : (V'.ent z).next.toNat = 0 := hlink.suffix
      have hclear : ∀ k, (V'.ent z).clearRefs k = V'.ent z :=
        fun k => Block.clearRefs_of_refAt (hx.fields z hz).2.2.2.2 k
      have hzl : z < V'.nent := by
        rw [hx.agree.nent]
        exact (hx.free z hz).1
      have hg' : V'.Geo := hx.agree.geo hg
      have hn' := hg'.nent_lt
      rw [hlast] at hrun
      rw [Prog.bind_ok (hwalk.trans hrun)]
      simp only [hclear, hnext]
      rw [Prog.bind_ok (writeEntry_run hr V' (by omega) _)]
      simp
  · right
    have hx := hext.extended hcan
    have hcount := hx.count
    rw [Vol.freeCount_eq_zero.2 hnone] at hcount
    refine ⟨l₁ ++ b :: new, V', ?_, ?_, hnone, ?_, ?_⟩
    · rw [hsplit]
      exact ⟨new, by simp⟩
    · rw [hsplit]
      refine hx.rechain hc hu ?_
      simp only [List.length_append, List.length_cons]
      omega
    · simp only [chainEntries] at hlt ⊢
      omega
    · rw [Prog.bind_error (hwalk.trans hrun)]

end Run

end NanoS32
