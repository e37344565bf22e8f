import NanoS32.Lemmas.Chain

/-!
# Lengthening and shortening a chain

What `set_entry_refcount` does on a linked chain. Shortening it has one outcome. Lengthening it takes the first free entries,
one after the other, and fails when there is none left; `Vol.Extends` says what the entries added so far have done to the table.
-/

namespace NanoS32

/-- The table after entry `f` has been put behind entry `b`, the last of a chain. -/
def Vol.addChained (V : Vol) (b f : Nat) : Vol :=
  (V.setEnt b ((V.ent b).setNext f)).setEnt f (((V.ent b).setNext f).chained b)

/-- `V'` is the table after the entries `new`, each the first free one in its turn, have been put behind entry `b`. -/
inductive Vol.Extends : Vol → Nat → List Nat → Vol → Prop where
  | refl (V : Vol) (b : Nat) : Vol.Extends V b [] V
  | step {V V' : Vol} {b f : Nat} {new : List Nat} :
      V.freeEntry = some f → Vol.Extends (V.addChained b f) f new V' → Vol.Extends V b (f :: new) V'

/-- The number of free entries. -/
def Vol.freeCount (V : Vol) : Nat := (List.range V.nent).countP fun n => !(V.ent n).used

theorem Vol.freeCount_eq_zero {V : Vol} : V.freeCount = 0 ↔ V.freeEntry = none := by
  simp [Vol.freeCount, Vol.freeEntry, List.countP_eq_zero]

theorem Block.setNext_of_toNat {e : SfsEntry} {v : Nat} (h : e.next.toNat = v) : e.setNext v = e := by
  rw [← h]
  simp [Block.setNext]

/-- Clearing references that are 0 changes nothing. -/
theorem Block.clearRefs_of_refAt {e : SfsEntry} (h : e.refAt = fun _ => 0) (k : Nat) : e.clearRefs k = e := by
  have h0 : ∀ i : Fin 120, e.ref i = 0 := by
    intro i
    have hi := congrFun h i
    simp only [Block.refAt, i.isLt, dite_true] at hi
    exact UInt32.toNat_inj.1 (by simpa using hi)
  have href : (e.clearRefs k).ref = e.ref := by
    funext i
    simp only [Block.clearRefs, h0]
    split_ifs <;> rfl
  exact congrArg (fun r => { e with ref := r }) href

/-- What a chained entry keeps of the entry it is put behind, and what it starts with. -/
theorem Block.chained_fields (e : SfsEntry) (n : Nat) :
    (e.chained n).flags = e.flags ∧ (e.chained n).used = e.used ∧ (e.chained n).isFile = e.isFile ∧
      (e.chained n).isDir = e.isDir ∧ (e.chained n).name = e.name ∧ (e.chained n).nameStr = e.nameStr ∧
      (e.chained n).time = e.time ∧ (e.chained n).size = 0 ∧ (e.chained n).next = 0 ∧
      (e.chained n).refAt = (fun _ => 0) ∧ (e.chained n).parent = UInt32.ofNat n := by
  refine ⟨rfl, rfl, rfl, rfl, rfl, rfl, rfl, rfl, rfl, ?_, rfl⟩
  funext i
  simp [Block.chained, Block.refAt_clearRefs]

section Count

/-- A count over indices falls by one when the predicate is lost at one index and kept elsewhere. -/
theorem countP_range_succ_of_lost {p q : Nat → Bool} {n f : Nat} (hf : f < n) (hp : p f = true) (hq : q f = false)
    (h : ∀ m < n, m ≠ f → q m = p m) : (List.range n).countP q + 1 = (List.range n).countP p := by
  induction n with
  | zero => omega
  | succ n ih =>
    rw [List.range_succ, List.countP_append, List.countP_append]
    by_cases hfn : f = n
    · subst hfn
      have : (List.range f).countP q = (List.range f).countP p := by
        apply List.countP_congr
        intro m hm
        have hm' := List.mem_range.1 hm
        rw [h m (by omega) (by omega)]
      simp [this, hp, hq]
    · have h1 := ih (by omega) fun m hm => h m (by omega)
      have h2 : q n = p n := h n (by omega) (Ne.symm hfn)
      simp only [List.countP_cons, List.countP_nil, h2]
      omega

end Count

/-! ## The table after an extension -/

section Added

variable {V : Vol} {b f : Nat}

theorem Vol.ent_addChained_new : (V.addChained b f).ent f = ((V.ent b).setNext f).chained b := by
  simp [Vol.addChained]

theorem Vol.ent_addChained_last (h : b ≠ f) : (V.addChained b f).ent b = (V.ent b).setNext f := by
  simp [Vol.addChained, Vol.ent_setEnt_ne _ _ h]

theorem Vol.agreeOff_addChained : V.AgreeOff [b, f] (V.addChained b f) :=
  ((V.agreeOff_setEnt b _).mono (by simp)).trans ((Vol.agreeOff_setEnt _ f _).mono (by simp))

/-- Putting a free entry behind a used one leaves one free entry less. -/
theorem Vol.freeCount_addChained (hf : V.freeEntry = some f) (hb : (V.ent b).used = true) :
    (V.addChained b f).freeCount + 1 = V.freeCount := by
  obtain ⟨hlt, hu, -⟩ := Vol.freeEntry_eq_some.1 hf
  have hbf : b ≠ f := by
    rintro rfl
    rw [hb] at hu
    cases hu
  rw [Vol.freeCount, (Vol.agreeOff_addChained (V := V)).nent, Vol.freeCount]
  refine countP_range_succ_of_lost hlt (by simp [hu]) ?_ ?_
  · simp [Vol.ent_addChained_new, (Block.chained_fields _ _).2.1, hb]
  · intro m _ hm
    by_cases hmb : m = b
    · subst hmb
      simp [Vol.ent_addChained_last hbf]
    · rw [Vol.agreeOff_addChained.ent (by simp [hm, hmb])]

end Added

/-- The facts an extension of a used entry starts from. -/
structure Vol.CanExtend (V : Vol) (b : Nat) : Prop where
  geo : V.Geo
  root : (V.ent 0).used = true
  lt : b < V.nent
  used : (V.ent b).used = true
  last : (V.ent b).next.toNat = 0

/-- The entry a search finds can be put behind the last entry of a chain: it is another one, and not the root. -/
theorem Vol.CanExtend.free {V : Vol} {b f : Nat} (h : V.CanExtend b) (hf : V.freeEntry = some f) :
    f < V.nent ∧ f ≠ b ∧ f ≠ 0 ∧ (V.ent f).used = false := by
  obtain ⟨hlt, hu, -⟩ := Vol.freeEntry_eq_some.1 hf
  refine ⟨hlt, ?_, ?_, hu⟩
  · rintro rfl
    rw [h.used] at hu
    cases hu
  · rintro rfl
    rw [h.root] at hu
    cases hu

theorem Vol.CanExtend.step {V : Vol} {b f : Nat} (h : V.CanExtend b) (hf : V.freeEntry = some f) :
    (V.addChained b f).CanExtend f := by
  obtain ⟨hlt, hfb, hf0, -⟩ := h.free hf
  have ha : V.AgreeOff [b, f] (V.addChained b f) := Vol.agreeOff_addChained
  refine ⟨ha.geo h.geo, ?_, ha.nent ▸ hlt, ?_, ?_⟩
  · by_cases hb0 : 0 = b
    · subst hb0
      rw [Vol.ent_addChained_last (Ne.symm hfb)]
      simpa using h.root
    · rw [ha.ent (by simp [hb0, Ne.symm hf0])]
      exact h.root
  · rw [Vol.ent_addChained_new, (Block.chained_fields _ _).2.1]
    simpa using h.used
  · rw [Vol.ent_addChained_new, (Block.chained_fields _ _).2.2.2.2.2.2.2.2.1]
    rfl

/-- What an extension has done to the table. -/
structure Vol.Extended (V : Vol) (b : Nat) (new : List Nat) (V' : Vol) : Prop where
  nodup : new.Nodup
  free : ∀ n ∈ new, n < V.nent ∧ n ≠ b ∧ n ≠ 0 ∧ (V.ent n).used = false
  agree : V.AgreeOff (b :: new) V'
  last : V'.ent b = (V.ent b).setNext (new.headD 0)
  linked : Linked V'.next V'.par (b :: new)
  fields : ∀ n ∈ new, (V'.ent n).flags = (V.ent b).flags ∧ (V'.ent n).name = (V.ent b).name ∧
    (V'.ent n).time = (V.ent b).time ∧ (V'.ent n).size = 0 ∧ (V'.ent n).refAt = fun _ => 0
  count : V'.freeCount + new.length = V.freeCount

theorem Vol.Extends.extended {V V' : Vol} {b : Nat} {new : List Nat} (h : V.Extends b new V') :
    V.CanExtend b → V.Extended b new V' := by
  induction h with
  | refl V b =>
    intro hc
    refine ⟨List.nodup_nil, by simp, Vol.AgreeOff.refl _ _, ?_, hc.last, by simp, by simp⟩
    exact (Block.setNext_of_toNat hc.last).symm
  | @step V V' b f new hf _ ih =>
    intro hc
    obtain ⟨hlt, hfb, hf0, hu⟩ := hc.free hf
    have ha : V.AgreeOff [b, f] (V.addChained b f) := Vol.agreeOff_addChained
    have hbound := hc.geo.nent_lt
    have hi := ih (hc.step hf)
    have hnew : ∀ n ∈ new, n < V.nent ∧ n ≠ b ∧ n ≠ f ∧ n ≠ 0 ∧ (V.ent n).used = false := by
      intro n hn
      obtain ⟨h1, h2, h3, h4⟩ := hi.free n hn
      have hnb : n ≠ b := by
        rintro rfl
        rw [Vol.ent_addChained_last (Ne.symm hfb)] at h4
        simp [hc.used] at h4
      rw [ha.ent (by simp [hnb, h2])] at h4
      exact ⟨ha.nent ▸ h1, hnb, h2, h3, h4⟩
    have hbn : b ∉ f :: new := by
      rw [List.mem_cons]
      rintro (h | h)
      · exact hfb h.symm
      · exact (hnew b h).2.1 rfl
    have hb' : V'.ent b = (V.ent b).setNext f := by
      rw [hi.agree.ent hbn, Vol.ent_addChained_last (Ne.symm hfb)]
    have hchained := Block.chained_fields ((V.ent b).setNext f) b
    have hf' : V'.ent f = (((V.ent b).setNext f).chained b).setNext (new.headD 0) := by
      rw [hi.last, Vol.ent_addChained_new]
    refine ⟨?_, ?_, ?_, hb', ?_, ?_, ?_⟩
    · exact List.nodup_cons.2 ⟨fun h => (hi.free f h).2.1 rfl, hi.nodup⟩
    · intro n hn
      rcases List.mem_cons.1 hn with rfl | hn
      · exact ⟨hlt, hfb, hf0, hu⟩
      · obtain ⟨h1, h2, -, h4, h5⟩ := hnew n hn
        exact ⟨h1, h2, h4, h5⟩
    · exact (ha.mono (by intro x; simp; tauto)).trans (hi.agree.mono (by intro x; simp; tauto))
    · refine ⟨?_, hf0, ?_, hi.linked⟩
      · rw [Vol.next, hb', Block.toNat_setNext _ (by omega)]
      · rw [Vol.par, hf']
        simp only [Block.setNext_fields, hchained.2.2.2.2.2.2.2.2.2.2, UInt32.toNat_ofNat']
        exact Nat.mod_eq_of_lt (by have := hc.lt; omega)
    · intro n hn
      rcases List.mem_cons.1 hn with rfl | hn
      · rw [hf']
        simp [hchained]
      · obtain ⟨h1, h2, h3, h4, h5⟩ := hi.fields n hn
        rw [Vol.ent_addChained_new] at h1 h2 h3
        simp only [hchained, Block.setNext_fields] at h1 h2 h3
        exact ⟨h1, h2, h3, h4, h5⟩
    · have := Vol.freeCount_addChained hf hc.used
      have := hi.count
      simp only [List.length_cons]
      omega

section Run

variable {env : Env} {s : Sys} {d : Nat}

/-- Within the chain, nothing is created. -/
theorem extendChain_walk (hr : Ready env s d) {V : Vol} (hg : V.Geo) :
    ∀ (l₁ : List Nat) (a : Nat) (l₂ : List Nat), V.IsChain (l₁ ++ a :: l₂) → ∀ j,
      (extendChain env d (l₁.length + j) ((l₁ ++ [a]).head (by simp)) (V.ent ((l₁ ++ [a]).head (by simp)))).run
          (s.withVol d V) =
        (extendChain env d j a (V.ent a)).run (s.withVol d V) := by
  have hn := hg.nent_lt
  intro l₁
  induction l₁ with
  | nil => intro a l₂ _ j; simp
  | cons x l₁ ih =>
    intro a l₂ hc j
    obtain ⟨y, t, hyt⟩ : ∃ y t, l₁ ++ a :: l₂ = y :: t := by
      cases l₁ with
      | nil => exact ⟨a, l₂, rfl⟩
      | cons y l₁ => exact ⟨y, l₁ ++ a :: l₂, rfl⟩
    have hhead : (l₁ ++ [a]).head (by simp) = y := by
      cases l₁ with
      | nil => simpa using (List.cons.inj hyt).1
      | cons z l₁ => simpa using (List.cons.inj hyt).1
    rw [List.cons_append, hyt] at hc
    have hy0 : y ≠ 0 := hc.linked.2.1
    have hnext : (V.ent x).next.toNat = y := hc.linked.1
    have hlt : y < V.nent := hc.lt y (by simp)
    have hlen : (x :: l₁).length + j = (l₁.length + j) + 1 := by simp; omega
    have ih' := ih a l₂ (by rw [hyt]; exact hc.tail) j
    rw [hhead] at ih'
    simp only [List.cons_append, List.head_cons]
    rw [hlen, extendChain, hnext, if_pos hy0, Prog.bind_ok (getEntryN_run hr V (by omega))]
    exact ih'

/-- At the end of the chain, entries are created one after the other, until they are enough or there is no free one left. -/
theorem extendChain_create (hr : Ready env s d) :
    ∀ (j b : Nat) (V : Vol), V.CanExtend b →
      (∃ new V', new.length = j ∧ V.Extends b new V' ∧
        (extendChain env d j b (V.ent b)).run (s.withVol d V) =
          .ok ((b :: new).getLast (by simp), V'.ent ((b :: new).getLast (by simp))) (s.withVol d V')) ∨
      (∃ new V', new.length < j ∧ V.Extends b new V' ∧ V'.freeEntry = none ∧
        (extendChain env d j b (V.ent b)).run (s.withVol d V) = .error errorNoSpace (s.withVol d V')) := by
  intro j
  induction j with
  | zero => intro b V _; exact Or.inl ⟨[], V, rfl, .refl V b, rfl⟩
  | succ j ih =>
    intro b V hc
    have hn := hc.geo.nent_lt
    have hblt := hc.lt
    rw [extendChain, if_neg (by rw [hc.last]; simp), Prog.run_bind, findFreeEntry_run hr hc.geo]
    cases hf : V.freeEntry with
    | none => exact Or.inr ⟨[], V, by simp, .refl V b, hf, rfl⟩
    | some f =>
      obtain ⟨hlt, -, -, -⟩ := hc.free hf
      simp only
      rw [Prog.bind_ok (writeEntry_run hr V (by omega) _)]
      rw [Prog.bind_ok (writeEntry_run hr _ (by omega) _)]
      have hstep : (V.setEnt b ((V.ent b).setNext f)).setEnt f (((V.ent b).setNext f).chained b) = V.addChained b f := rfl
      have hent : ((V.ent b).setNext f).chained b = (V.addChained b f).ent f := Vol.ent_addChained_new.symm
      rw [hstep, hent]
      rcases ih f _ (hc.step hf) with ⟨new, V', hlen, hext, hrun⟩ | ⟨new, V', hlen, hext, hnone, hrun⟩
      · refine Or.inl ⟨f :: new, V', by simp [hlen], .step hf hext, ?_⟩
        rw [hrun]
        simp
      · exact Or.inr ⟨f :: new, V', by simp [hlen], .step hf hext, hnone, hrun⟩

end Run

end NanoS32
