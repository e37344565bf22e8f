import Mathlib.Data.List.Perm.Subperm
import NanoS32.Lemmas.Entry
import NanoS32.Lib.Linked
import NanoS32.Lemmas.Table

/-!
# Walking a chain

What the functions that walk a chain do on one that is linked. The lemmas are about the chain alone: of the rest of the table
they say that it does not change.
-/

namespace NanoS32

/-- The index of the entry after entry `n`, and of the entry before it or its parent directory. -/
def Vol.next (V : Vol) (n : Nat) : Nat := (V.ent n).next.toNat
def Vol.par (V : Vol) (n : Nat) : Nat := (V.ent n).parent.toNat

/-- The entries `c` are a chain: linked in this order, distinct, inside the table. -/
structure Vol.IsChain (V : Vol) (c : List Nat) : Prop where
  linked : Linked V.next V.par c
  nodup : c.Nodup
  lt : ∀ n ∈ c, n < V.nent

/-- The table with each entry `n` of `c` changed by `f n`. -/
def Vol.updEnts (V : Vol) (c : List Nat) (f : Nat → SfsEntry → SfsEntry) : Vol :=
  fun k => if 2 ≤ k ∧ k - 2 ∈ c then f (k - 2) (V k) else V k

theorem Vol.ext {V V' : Vol} (h0 : V 0 = V' 0) (h1 : V 1 = V' 1) (h : ∀ n, V.ent n = V'.ent n) : V = V' := by
  funext k
  match k with
  | 0 => exact h0
  | 1 => exact h1
  | k + 2 => simpa [Vol.ent, Nat.add_comm] using h k

theorem Vol.updEnts_low (V : Vol) (c : List Nat) (f : Nat → SfsEntry → SfsEntry) {k : Nat} (hk : k < 2) :
    V.updEnts c f k = V k := by
  have h : ¬(2 ≤ k ∧ k - 2 ∈ c) := by omega
  simp [Vol.updEnts, h]

theorem Vol.ent_updEnts (V : Vol) (c : List Nat) (f : Nat → SfsEntry → SfsEntry) (n : Nat) :
    (V.updEnts c f).ent n = if n ∈ c then f n (V.ent n) else V.ent n := by
  have h : 2 ≤ 2 + n := by omega
  simp [Vol.updEnts, Vol.ent, h]

@[simp] theorem Vol.nent_updEnts (V : Vol) (c : List Nat) (f : Nat → SfsEntry → SfsEntry) :
    (V.updEnts c f).nent = V.nent := by
  simp [Vol.nent, Vol.updEnts_low]

@[simp] theorem Vol.nblk_updEnts (V : Vol) (c : List Nat) (f : Nat → SfsEntry → SfsEntry) :
    (V.updEnts c f).nblk = V.nblk := by
  simp [Vol.nblk, Vol.updEnts_low]

theorem Vol.updEnts_nil (V : Vol) (f : Nat → SfsEntry → SfsEntry) : V.updEnts [] f = V := by
  funext k
  simp [Vol.updEnts]

theorem Vol.updEnts_cons (V : Vol) {a : Nat} {c : List Nat} {f : Nat → SfsEntry → SfsEntry} (ha : a ∉ c) :
    (V.setEnt a (f a (V.ent a))).updEnts c f = V.updEnts (a :: c) f := by
  have hlow : ∀ k < 2, V.setEnt a (f a (V.ent a)) k = V k := by
    intro k hk
    have h : k ≠ 2 + a := by omega
    simp [Vol.setEnt, h]
  apply Vol.ext
  · rw [Vol.updEnts_low _ _ _ (by omega), Vol.updEnts_low _ _ _ (by omega), hlow 0 (by omega)]
  · rw [Vol.updEnts_low _ _ _ (by omega), Vol.updEnts_low _ _ _ (by omega), hlow 1 (by omega)]
  · intro n
    rw [Vol.ent_updEnts, Vol.ent_updEnts, Vol.ent_setEnt]
    by_cases hn : n = a
    · subst hn
      simp [ha]
    · simp [hn]

/-- Updates of the same entries that agree on them are the same. -/
theorem Vol.updEnts_congr (V : Vol) {c : List Nat} {f g : Nat → SfsEntry → SfsEntry}
    (h : ∀ n ∈ c, f n (V.ent n) = g n (V.ent n)) : V.updEnts c f = V.updEnts c g := by
  apply Vol.ext
  · rw [Vol.updEnts_low _ _ _ (by omega), Vol.updEnts_low _ _ _ (by omega)]
  · rw [Vol.updEnts_low _ _ _ (by omega), Vol.updEnts_low _ _ _ (by omega)]
  · intro n
    rw [Vol.ent_updEnts, Vol.ent_updEnts]
    split_ifs with hn
    · exact h n hn
    · rfl

/-- The tables agree on every block but those of the entries `c`. -/
def Vol.AgreeOff (c : List Nat) (V V' : Vol) : Prop := ∀ k, (∀ x ∈ c, k ≠ 2 + x) → V' k = V k

namespace Vol.AgreeOff

variable {c c' : List Nat} {V V' V'' : Vol}

theorem refl (c : List Nat) (V : Vol) : V.AgreeOff c V := fun _ _ => rfl

theorem trans (h : V.AgreeOff c V') (h' : V'.AgreeOff c V'') : V.AgreeOff c V'' :=
  fun k hk => (h' k hk).trans (h k hk)

theorem mono (h : V.AgreeOff c V') (hc : c ⊆ c') : V.AgreeOff c' V' := fun k hk => h k fun x hx => hk x (hc hx)

theorem ent (h : V.AgreeOff c V') {n : Nat} (hn : n ∉ c) : V'.ent n = V.ent n := by
  refine h _ fun x hx hxn => hn ?_
  have : n = x := by omega
  rw [this]
  exact hx

theorem low (h : V.AgreeOff c V') {k : Nat} (hk : k < 2) : V' k = V k := h k fun x _ => by omega

theorem nent (h : V.AgreeOff c V') : V'.nent = V.nent := by rw [Vol.nent, h.low (by omega), Vol.nent]

theorem nblk (h : V.AgreeOff c V') : V'.nblk = V.nblk := by rw [Vol.nblk, h.low (by omega), Vol.nblk]

theorem firstData (h : V.AgreeOff c V') : V'.firstData = V.firstData := by rw [Vol.firstData, h.nent, Vol.firstData]

theorem dataEnd (h : V.AgreeOff c V') : V'.dataEnd = V.dataEnd := by rw [Vol.dataEnd, h.nblk, Vol.dataEnd]

theorem geo (h : V.AgreeOff c V') (hg : V.Geo) : V'.Geo := hg.of_super (h.low (by omega))

/-- Blocks past the table do not change when entries of the table do. -/
theorem data (h : V.AgreeOff c V') (hc : ∀ x ∈ c, x < V.nent) {k : Nat} (hk : V.firstData ≤ k) : V' k = V k := by
  refine h k fun x hx => ?_
  have := hc x hx
  simp only [Vol.firstData] at hk
  omega

end Vol.AgreeOff

theorem Vol.agreeOff_setEnt (V : Vol) (n : Nat) (e : SfsEntry) : V.AgreeOff [n] (V.setEnt n e) := by
  intro k hk
  have : k ≠ 2 + n := hk n (by simp)
  simp [Vol.setEnt, this]

theorem Vol.agreeOff_updEnts (V : Vol) (c : List Nat) (f : Nat → SfsEntry → SfsEntry) :
    V.AgreeOff c (V.updEnts c f) := by
  intro k hk
  have : ¬(2 ≤ k ∧ k - 2 ∈ c) := by
    rintro ⟨h2, hc⟩
    exact hk _ hc (by omega)
  simp [Vol.updEnts, this]

theorem Vol.IsChain.tail {V : Vol} {a b : Nat} {l : List Nat} (h : V.IsChain (a :: b :: l)) : V.IsChain (b :: l) :=
  ⟨h.linked.tail, (List.nodup_cons.1 h.nodup).2, fun n hn => h.lt n (List.mem_cons_of_mem _ hn)⟩

/-- A chain is no longer than the table. -/
theorem Vol.IsChain.length_le {V : Vol} {c : List Nat} (h : V.IsChain c) : c.length ≤ V.nent := by
  have hsub : c ⊆ List.range V.nent := fun n hn => List.mem_range.2 (h.lt n hn)
  simpa using (List.subperm_of_subset h.nodup hsub).length_le

/-- A chain stays one when the table changes elsewhere, or in fields that do not link it. -/
theorem Vol.IsChain.congr {V V' : Vol} {a : Nat} {l : List Nat} (h : V.IsChain (a :: l)) (hn : V'.nent = V.nent)
    (hl : ∀ x ∈ a :: l, (V'.ent x).next = (V.ent x).next) (hp : ∀ x ∈ l, (V'.ent x).parent = (V.ent x).parent) :
    V'.IsChain (a :: l) := by
  refine ⟨h.linked.congr ?_ ?_, h.nodup, fun x hx => hn ▸ h.lt x hx⟩
  · exact fun x hx => by rw [Vol.next, hl x hx, Vol.next]
  · exact fun x hx => by rw [Vol.par, hp x hx, Vol.par]

section Walk

variable {env : Env} {s : Sys} {d : Nat}

/-- Going `k` entries along a chain reaches the entry at place `k`, or finds that there is none. -/
theorem advanceEntry_run (hr : Ready env s d) {V : Vol} (hg : V.Geo) :
    ∀ (k a : Nat) (l : List Nat), V.IsChain (a :: l) →
      (advanceEntry env d k a (V.ent a)).run (s.withVol d V) =
        match (a :: l)[k]? with
        | some b => .ok (b, V.ent b) (s.withVol d V)
        | none => .error errorNotFound (s.withVol d V) := by
  have hn := hg.nent_lt
  intro k
  induction k with
  | zero => intro a l _; rfl
  | succ k ih =>
    intro a l hc
    have hnext : (V.ent a).next.toNat = l.headD 0 := hc.linked.next_head
    rw [advanceEntry]
    cases l with
    | nil =>
      simp only [List.headD_nil] at hnext
      simp [hnext]
    | cons b l =>
      have hb : b ≠ 0 := hc.linked.2.1
      have hlt : b < V.nent := hc.lt b (by simp)
      simp only [List.headD_cons] at hnext
      rw [hnext, if_pos hb, Prog.bind_ok (getEntryN_run hr V (by omega)), ih b l hc.tail]
      simp

/-- Setting the time along a chain. -/
theorem setTimeLoop_run (hr : Ready env s d) (t : Nat) :
    ∀ (fuel a : Nat) (l : List Nat) (V : Vol), V.Geo → V.IsChain (a :: l) → l.length < fuel →
      (setTimeLoop env d t fuel a).run (s.withVol d V) =
        .ok () (s.withVol d (V.updEnts (a :: l) fun _ e => e.setTime t)) := by
  intro fuel
  induction fuel with
  | zero => intro a l V _ _ h; omega
  | succ fuel ih =>
    intro a l V hg hc hf
    have hn := hg.nent_lt
    have ha : a < V.nent := hc.lt a (by simp)
    have hal : a ∉ l := (List.nodup_cons.1 hc.nodup).1
    have hnext : (V.ent a).next.toNat = l.headD 0 := hc.linked.next_head
    rw [setTimeLoop, Prog.bind_ok (getEntryN_run hr V (by omega)), Prog.bind_ok (writeEntry_run hr V (by omega) _)]
    simp only [Block.setTime_fields, hnext, Prog.run_failIf_bind]
    have hloop : ¬(a = l.headD 0 ∧ a ≠ 0) := by
      rintro ⟨h1, h2⟩
      cases l with
      | nil => exact h2 h1
      | cons b l => exact hal (by simp only [List.headD_cons] at h1; simp [h1])
    rw [if_neg hloop, ← Vol.updEnts_cons V hal]
    cases l with
    | nil => simp [Vol.updEnts_nil]
    | cons b l =>
      have hb : b ≠ 0 := hc.linked.2.1
      have hc' : (V.setEnt a ((V.ent a).setTime t)).IsChain (b :: l) := by
        refine hc.tail.congr (by simp) ?_ ?_
        · intro x hx
          rw [Vol.ent_setEnt_ne _ _ (by rintro rfl; exact hal hx)]
        · intro x hx
          rw [Vol.ent_setEnt_ne _ _ (by rintro rfl; exact hal (List.mem_cons_of_mem _ hx))]
      rw [if_pos (show (b :: l).headD 0 ≠ 0 from hb)]
      exact ih b l _ (hg.setEnt _ _) hc' (by simp only [List.length_cons] at hf; omega)

/-- The part of a size that an entry takes up: bytes for a file, items for a directory. -/
def Block.unit (e : SfsEntry) : Nat :=
  if e.isFile then sfsEntryRefs * blockSize else if e.isDir then sfsEntryRefs else 0

/-- The size left for the entries after an entry. -/
theorem sizeLeft_eq (e : SfsEntry) (size : Nat) :
    (if e.isFile then size - min size (sfsEntryRefs * blockSize)
      else if e.isDir then size - min size sfsEntryRefs
      else size) = size - e.unit := by
  simp only [Block.unit]
  split_ifs <;> omega

/-- Setting the size along a chain of the length that the size needs. -/
theorem setSizeLoop_run (hr : Ready env s d) (u : Nat) :
    ∀ (fuel a : Nat) (l : List Nat) (V : Vol) (size : Nat), V.Geo → V.IsChain (a :: l) → l.length < fuel →
      (∀ n ∈ a :: l, (V.ent n).unit = u) → size ≤ u * (l.length + 1) → (l ≠ [] → u * l.length < size) →
      (setSizeLoop env d fuel a size).run (s.withVol d V) =
        .ok () (s.withVol d (V.updEnts (a :: l) fun n e => e.setSize (size - u * (a :: l).idxOf n))) := by
  intro fuel
  induction fuel with
  | zero => intro a l V size _ _ h; omega
  | succ fuel ih =>
    intro a l V size hg hc hf hu hle hlt
    have hn := hg.nent_lt
    have ha : a < V.nent := hc.lt a (by simp)
    have hal : a ∉ l := (List.nodup_cons.1 hc.nodup).1
    have hnext : (V.ent a).next.toNat = l.headD 0 := hc.linked.next_head
    have hua : ((V.ent a).setSize size).unit = u := hu a (by simp)
    have h0 : size - u * (a :: l).idxOf a = size := by simp
    rw [setSizeLoop, Prog.bind_ok (getEntryN_run hr V (by omega))]
    simp only [sizeLeft_eq, hua]
    rw [Prog.bind_ok (writeEntry_run hr V (by omega) _)]
    simp only [Block.setSize_fields, hnext, Prog.run_failIf_bind]
    have hupd : V.setEnt a ((V.ent a).setSize size) =
        V.setEnt a ((fun n e => e.setSize (size - u * (a :: l).idxOf n) : Nat → SfsEntry → SfsEntry) a (V.ent a)) := by
      simp only [h0]
    cases l with
    | nil =>
      have hs : size - u = 0 := by simp only [List.length_nil] at hle; omega
      rw [if_neg (by simp [hs])]
      simp only [List.headD_nil]
      rw [← Vol.updEnts_cons V hal, Vol.updEnts_nil, ← hupd]
      simp
    | cons b l =>
      have hb : b ≠ 0 := hc.linked.2.1
      have hlt' : u * (b :: l).length < size := hlt (by simp)
      simp only [List.length_cons] at hlt' hle hf
      have hpos : u < size := by
        have : u ≤ u * (l.length + 1) := Nat.le_mul_of_pos_right _ (by omega)
        omega
      have hc' : (V.setEnt a ((V.ent a).setSize size)).IsChain (b :: l) := by
        refine hc.tail.congr (by simp) ?_ ?_
        · intro x hx
          rw [Vol.ent_setEnt_ne _ _ (by rintro rfl; exact hal hx)]
        · intro x hx
          rw [Vol.ent_setEnt_ne _ _ (by rintro rfl; exact hal (List.mem_cons_of_mem _ hx))]
      rw [if_neg (by simp only [List.headD_cons]; omega), if_pos (show (b :: l).headD 0 ≠ 0 from hb)]
      simp only [List.headD_cons]
      rw [ih b l _ (size - u) (hg.setEnt _ _) hc' (by omega) ?_ ?_ ?_]
      · rw [← Vol.updEnts_cons V hal, ← hupd]
        congr 2
        refine Vol.updEnts_congr _ fun n hn => ?_
        have hna : n ≠ a := by rintro rfl; exact hal hn
        have hidx : (a :: b :: l).idxOf n = (b :: l).idxOf n + 1 := List.idxOf_cons_ne _ (Ne.symm hna)
        rw [hidx, Nat.mul_add]
        congr 1
        omega
      · intro n hn
        rw [Vol.ent_setEnt_ne _ _ (by rintro rfl; exact hal hn)]
        exact hu n (List.mem_cons_of_mem _ hn)
      · rw [Nat.mul_add] at hle
        omega
      · intro hl
        rw [Nat.mul_add] at hlt'
        omega

/-- Clearing a chain. -/
theorem deleteChain_run (hr : Ready env s d) :
    ∀ (fuel a : Nat) (l : List Nat) (V : Vol), V.Geo → V.IsChain (a :: l) → l.length < fuel →
      (deleteChain env d fuel a).run (s.withVol d V) =
        .ok () (s.withVol d (V.updEnts (a :: l) fun _ _ => Block.zero)) := by
  intro fuel
  induction fuel with
  | zero => intro a l V _ _ h; omega
  | succ fuel ih =>
    intro a l V hg hc hf
    have hn := hg.nent_lt
    have ha : a < V.nent := hc.lt a (by simp)
    have hal : a ∉ l := (List.nodup_cons.1 hc.nodup).1
    have hnext : (V.ent a).next.toNat = l.headD 0 := hc.linked.next_head
    rw [deleteChain, Prog.bind_ok (getEntryN_run hr V (by omega)), Prog.bind_ok (writeEntry_run hr V (by omega) _)]
    rw [hnext, ← Vol.updEnts_cons V hal]
    cases l with
    | nil => simp [Vol.updEnts_nil]
    | cons b l =>
      have hb : b ≠ 0 := hc.linked.2.1
      have hc' : (V.setEnt a Block.zero).IsChain (b :: l) := by
        refine hc.tail.congr (by simp) ?_ ?_
        · intro x hx
          rw [Vol.ent_setEnt_ne _ _ (by rintro rfl; exact hal hx)]
        · intro x hx
          rw [Vol.ent_setEnt_ne _ _ (by rintro rfl; exact hal (List.mem_cons_of_mem _ hx))]
      rw [if_pos (show (b :: l).headD 0 ≠ 0 from hb)]
      exact ih b l _ (hg.setEnt _ _) hc' (by simp only [List.length_cons] at hf; omega)

end Walk

end NanoS32
