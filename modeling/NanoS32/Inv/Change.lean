import NanoS32.Lemmas.Delete
import NanoS32.Lemmas.OneBlock
import NanoS32.Lemmas.Resize
import NanoS32.Lib.NameTree

/-!
# How the format changes

The format of a disk after the changes the calls make to it: a file is rewritten, a new head is made, a subtree is deleted. The
heads of a disk with the format are a tree of names, and each change of the disk is one of this tree.
-/

namespace NanoS32

/-- The heads of a disk, with their parents and names. -/
def Vol.tree (V : Vol) (C : Nat → List Nat) : NameTree Nat CStr :=
  { node := fun n => C n ≠ [], parent := V.par, name := fun n => (V.ent n).nameStr }

@[simp] theorem Vol.tree_node (V : Vol) (C : Nat → List Nat) (n : Nat) : (V.tree C).node n = (C n ≠ []) := rfl

@[simp] theorem Vol.tree_parent (V : Vol) (C : Nat → List Nat) (n : Nat) : (V.tree C).parent n = (V.ent n).parent.toNat := rfl

@[simp] theorem Vol.tree_name (V : Vol) (C : Nat → List Nat) (n : Nat) : (V.tree C).name n = (V.ent n).nameStr := rfl

/-- An entry that has not changed has the parent and the name it had. -/
theorem Vol.sameAt_of_ent {V V' : Vol} {C C' : Nat → List Nat} {n : Nat} (h : V'.ent n = V.ent n) :
    NameTree.SameAt (V.tree C) (V'.tree C') n := by
  rw [NameTree.SameAt, Vol.tree_parent, Vol.tree_parent, Vol.tree_name, Vol.tree_name, h]
  exact ⟨rfl, rfl⟩

/-- An entry with the parent and the name it had makes no difference to the tree. -/
theorem Vol.tree_setEnt (V : Vol) (C : Nat → List Nat) {q : Nat} {e : SfsEntry} (hparent : e.parent = (V.ent q).parent)
    (hname : e.nameStr = (V.ent q).nameStr) : (V.setEnt q e).tree C = V.tree C := by
  have hent : ∀ m, ((V.setEnt q e).ent m).parent = (V.ent m).parent ∧ ((V.setEnt q e).ent m).nameStr = (V.ent m).nameStr := by
    intro m
    by_cases hmq : m = q
    · rw [hmq, Vol.ent_setEnt_self]
      exact ⟨hparent, hname⟩
    · rw [Vol.ent_setEnt_ne _ _ hmq]
      exact ⟨rfl, rfl⟩
  have hpar : (V.setEnt q e).par = V.par := funext fun m => congrArg UInt32.toNat (hent m).1
  have hnames : (fun m => ((V.setEnt q e).ent m).nameStr) = fun m => (V.ent m).nameStr := funext fun m => (hent m).2
  rw [Vol.tree, hpar, hnames, Vol.tree]

/-- Nor does an item that is added to a directory or removed from it. -/
theorem Vol.tree_addItem (V : Vol) (C : Nat → List Nat) (q n : Nat) : (V.setEnt q ((V.ent q).addItem n)).tree C = V.tree C :=
  V.tree_setEnt C rfl rfl

theorem Vol.tree_removeItem (V : Vol) (C : Nat → List Nat) (q j : Nat) : (V.setEnt q ((V.ent q).removeItem j)).tree C = V.tree C :=
  V.tree_setEnt C rfl rfl

/-- What is to be kept of the tree besides the format: that all heads are below the root, and that no two heads of one directory have
the same name. -/
structure Kept where
  rooted : Prop
  distinct : Prop

/-- Only the format is to be kept. -/
def Kept.format : Kept := { rooted := False, distinct := False }

namespace Kept

variable {K : Kept} {t t' : NameTree Nat CStr} {n p : Nat} {name : CStr}

def Holds (K : Kept) (t : NameTree Nat CStr) : Prop := (K.rooted → t.Rooted 0) ∧ (K.distinct → t.Distinct)

theorem Holds.none (h : K.Holds t) (hc : t.Closed 0) (hs : t.Step .none t') : K.Holds t' :=
  ⟨fun hr => (h.1 hr).none hc hs, fun hd => (h.2 hd).none hs⟩

theorem Holds.create (h : K.Holds t) (hc : t.Closed 0) (hs : t.Step (.create n p name) t') (hfree : K.distinct → t.Free p name) :
    K.Holds t' :=
  ⟨fun hr => (h.1 hr).create hc hs, fun hd => (h.2 hd).create hs (hfree hd)⟩

theorem Holds.remove (h : K.Holds t) (hc : t.Closed 0) (hs : t.Step (.remove n) t') : K.Holds t' :=
  ⟨fun hr => (h.1 hr).remove hc hs, fun hd => (h.2 hd).remove hs⟩

theorem Holds.move (h : K.Holds t) (hc : t.Closed 0) (hs : t.Step (.move n p name) t') (hout : K.rooted → ¬Forest.Under t.parent n p)
    (hfree : K.distinct → t.Free p name) : K.Holds t' :=
  ⟨fun hr => (h.1 hr).move hc hs (hout hr), fun hd => (h.2 hd).move hs (hfree hd)⟩

end Kept

open Classical in
/-- The chains without those of the heads under `n`. -/
noncomputable def Vol.chainsWithout (V : Vol) (C : Nat → List Nat) (n m : Nat) : List Nat :=
  if Forest.Under V.par n m then [] else C m

namespace Vol.Format

variable {V V' : Vol} {C : Nat → List Nat} {P : Nat → Prop}

/-- The parents of heads are heads, and the root is its own. -/
theorem closed (hf : V.Format C P) : (V.tree C).Closed 0 := ⟨hf.root.2.2.1, fun _ hm => hf.parent_head hm⟩

/-- A head with the flags of a file is the head of a file. -/
theorem isFile (hf : V.Format C P) {h : Nat} (hh : C h ≠ []) (hfile : (V.ent h).flags = tFile) : V.IsFile h (C h) :=
  { geo := hf.geo
    head := hf.head h hh
    chain := hf.chain h hh
    flags := fun n hn => (hf.flags h n hn).trans hfile
    sizes := hf.sizes h
    fits := hf.fits h hh hfile }

/-- A file has been rewritten. -/
theorem rewrite (hf : V.Format C P) {h : Nat} (hh : C h ≠ []) (hfile : (V.ent h).flags = tFile) {ch' : List Nat}
    (hre : V.Rewrite (C h) ch' V') (hnew : V'.IsFile h ch') :
    V'.Format (Function.update C h ch') P ∧ (V.tree C).Step .none (V'.tree (Function.update C h ch')) := by
  obtain ⟨hname, hparent⟩ := hre.kept h hnew.mem (hf.mem_head hh)
  have hpar : V'.par h = V.par h := by rw [Vol.par, hparent, Vol.par]
  refine ⟨hf.updateFile hh hfile hre.super hre.table hnew.chain hnew.head (fun n hn hout => (hre.fresh n hn hout).1) hre.dropped
    hnew.flags hpar hnew.sizes hnew.fits fun i => ?_, fun m => ?_, fun m hm => ?_⟩
  · rw [← Vol.RefOk, Vol.RefOk.of_super hre.super]
    rcases hre.refs i with hok | heq
    · exact hok
    · rw [heq]
      exact hf.refs h hh hfile i
  · rw [Vol.tree_node, Vol.tree_node, Function.update_apply]
    split_ifs with hmh
    · rw [hmh]
      exact iff_of_true (List.ne_nil_of_mem hnew.mem) hh
    · rfl
  · by_cases hmh : m = h
    · rw [hmh]
      exact ⟨hpar, by rw [Vol.tree_name, Vol.tree_name, Block.nameStr, hname, Block.nameStr]⟩
    · have hout : m ∉ C h := fun hin => hmh (hf.head_unique hm hin)
      have hout' : m ∉ ch' := fun hin => by
        have hu := (hre.fresh m hin hout).1
        exact hf.not_mem_of_unused hu m (hf.mem_head hm)
      exact Vol.sameAt_of_ent (hre.table m (hf.head_lt hm) hout hout')

/-- A free entry becomes the head of an empty file or directory, which is not yet an item of its directory. -/
theorem newHead (hf : V.Format C P) {f q : Nat} (hfree : V.freeEntry = some f) (hq : C q ≠ []) (hqdir : (V.ent q).flags = tDir)
    {e : SfsEntry} (hflags : e.flags = tDir ∨ e.flags = tFile) (hparent : e.parent.toNat = q) (hsize : e.size.toNat = 0)
    (hnext : e.next.toNat = 0) (hrefs : ∀ i, e.refAt i = 0) :
    (V.setEnt f e).Format (Function.update C f [f]) (fun m => P m ∨ m = f) ∧
      (V.tree C).Step (.create f q e.nameStr) ((V.setEnt f e).tree (Function.update C f [f])) := by
  obtain ⟨hlt, hunused, -⟩ := Vol.freeEntry_eq_some.1 hfree
  have hnil : C f = [] := by
    by_contra h
    exact hf.not_mem_of_unused hunused f (hf.mem_head h)
  have hf0 : f ≠ 0 := by
    rintro rfl
    exact hf.root.1 hnil
  have hC : ∀ m, m ≠ f → Function.update C f [f] m = C m := fun m hm => Function.update_of_ne hm _ _
  have hCf : Function.update C f [f] f = [f] := Function.update_self _ _ _
  have hne : ∀ m, Function.update C f [f] m ≠ [] ↔ C m ≠ [] ∨ m = f := by
    intro m
    by_cases hm : m = f
    · rw [hm, hCf]
      simp
    · rw [hC m hm]
      simp [hm]
  have hmem : ∀ m n, n ∈ C m → n ≠ f := by
    rintro m n hn rfl
    exact hf.not_mem_of_unused hunused m hn
  have hhead : ∀ m, C m ≠ [] → m ≠ f := fun m hm => hmem m m (hf.mem_head hm)
  have hself : (V.setEnt f e).ent f = e := Vol.ent_setEnt_self _ _ _
  have hent : ∀ m, m ≠ f → (V.setEnt f e).ent m = V.ent m := fun m hm => Vol.ent_setEnt_ne _ _ hm
  have hpar : ∀ m, C m ≠ [] → (V.setEnt f e).par m = V.par m := fun m hm => by rw [Vol.par, hent m (hhead m hm), Vol.par]
  have hparf : (V.setEnt f e).par f = q := by rw [Vol.par, hself, hparent]
  have hnent : (V.setEnt f e).nent = V.nent := Vol.nent_setEnt _ _ _
  refine ⟨⟨hf.geo.setEnt f e, ?_, ?_, ?_, ?_, ?_, ?_, ?_, ?_, ?_, ?_, ?_, ?_, ?_, ?_⟩, fun h => h hnil, hq, hne,
    fun m hm => Vol.sameAt_of_ent (hent m (hhead m hm)), hparf, by rw [Vol.tree_name, hself]⟩
  · intro m hm
    by_cases hmf : m = f
    · rw [hmf, hCf, List.head?_cons]
    · rw [hC m hmf] at hm ⊢
      exact hf.head m hm
  · intro m hm
    by_cases hmf : m = f
    · rw [hmf, hCf]
      refine ⟨?_, List.nodup_singleton f, fun n hn => ?_⟩
      · rw [Linked, Vol.next, hself, hnext]
      · rw [List.mem_singleton.1 hn, hnent]
        exact hlt
    · rw [hC m hmf] at hm ⊢
      obtain ⟨l, hl⟩ := hf.cons hm
      have hch := hf.chain m hm
      rw [hl] at hch ⊢
      refine hch.congr hnent (fun x hx => ?_) fun x hx => ?_
      · rw [hent x (hmem m x (hl ▸ hx))]
      · rw [hent x (hmem m x (hl ▸ List.mem_cons_of_mem _ hx))]
  · intro m m' n hn hn'
    by_cases hmf : m = f
    · rw [hmf, hCf, List.mem_singleton] at hn
      by_cases hmf' : m' = f
      · rw [hmf, hmf']
      · rw [hC m' hmf'] at hn'
        exact absurd hn (hmem m' n hn')
    · rw [hC m hmf] at hn
      by_cases hmf' : m' = f
      · rw [hmf', hCf, List.mem_singleton] at hn'
        exact absurd hn' (hmem m n hn)
      · rw [hC m' hmf'] at hn'
        exact hf.disjoint m m' n hn hn'
  · intro n hn hu
    by_cases hnf : n = f
    · exact ⟨f, by rw [hCf, hnf]; exact List.mem_singleton_self f⟩
    · rw [hent n hnf] at hu
      obtain ⟨m, hm⟩ := hf.used n (hnent ▸ hn) hu
      exact ⟨m, by rw [hC m (hhead m (List.ne_nil_of_mem hm))]; exact hm⟩
  · intro m n hn
    by_cases hmf : m = f
    · rw [hmf, hCf, List.mem_singleton] at hn
      rw [hn, hmf]
    · rw [hC m hmf] at hn
      rw [hent n (hmem m n hn), hent m hmf]
      exact hf.flags m n hn
  · intro m hm
    by_cases hmf : m = f
    · rw [hmf, hself]
      exact hflags
    · rw [hC m hmf] at hm
      rw [hent m hmf]
      exact hf.kind m hm
  · intro m k n hn
    by_cases hmf : m = f
    · rw [hmf, hCf] at hn
      have hnf : n = f := List.mem_singleton.1 (List.mem_of_getElem? hn)
      rw [hnf, hmf, hself, hsize]
      omega
    · rw [hC m hmf] at hn
      rw [hent n (hmem m n (List.mem_of_getElem? hn)), hent m hmf]
      exact hf.sizes m k n hn
  · intro m hm hk
    by_cases hmf : m = f
    · rw [hmf, hself, hsize]
      exact Nat.zero_le _
    · rw [hC m hmf] at hm ⊢
      rw [hent m hmf] at hk ⊢
      exact hf.fits m hm hk
  · intro m hm hk i
    by_cases hmf : m = f
    · left
      rw [hmf, hCf]
      by_cases hi : i < 120
      · have hget := (V.setEnt f e).fref_of_get (show [f][0]? = some f from rfl) i hi
        rw [Nat.mul_zero, Nat.zero_add] at hget
        rw [hget, hself, hrefs]
      · exact (V.setEnt f e).fref_of_le (by rw [List.length_singleton]; omega)
    · rw [hC m hmf] at hm ⊢
      rw [hent m hmf] at hk
      have hfr : (V.setEnt f e).fref (C m) i = V.fref (C m) i :=
        Vol.fref_congr (fun n hn => by rw [hent n (hmem m n hn)]) i
      rw [hfr, Vol.firstData_setEnt, Vol.dataEnd_setEnt]
      exact hf.refs m hm hk i
  · intro m hm hk
    by_cases hmf : m = f
    · rw [hmf, hCf, hself, hsize]
      exact ⟨rfl, Nat.zero_le _⟩
    · rw [hC m hmf] at hm ⊢
      rw [hent m hmf] at hk ⊢
      exact hf.single m hm hk
  · rw [hC 0 (Ne.symm hf0), hpar 0 hf.root.1, hent 0 (Ne.symm hf0)]
    exact hf.root
  · intro m hm
    have hup : ∀ p, C p ≠ [] ∧ (V.ent p).flags = tDir →
        Function.update C f [f] p ≠ [] ∧ ((V.setEnt f e).ent p).flags = tDir := by
      rintro p ⟨h1, h2⟩
      rw [hne, hent p (hhead p h1)]
      exact ⟨Or.inl h1, h2⟩
    rcases (hne m).1 hm with hm' | hmf
    · rw [hpar m hm']
      exact hup _ (hf.parent m hm')
    · rw [hmf, hparf]
      exact hup q ⟨hq, hqdir⟩
  · intro m hm hk
    by_cases hmf : m = f
    · rw [hmf, hself, Block.items, hsize]
      exact List.nodup_nil
    · rw [hC m hmf] at hm
      rw [hent m hmf] at hk ⊢
      exact hf.nodup m hm hk
  · intro h hh hk m
    have hqf : q ≠ f := hhead q hq
    by_cases hhf : h = f
    · rw [hhf, hself, Block.items, hsize]
      constructor
      · intro hm
        cases hm
      · rintro ⟨hm, -, hmp, -⟩
        rcases (hne m).1 hm with hm' | hmf
        · rw [hpar m hm'] at hmp
          exact absurd hmp (hhead _ (hf.parent_head hm'))
        · rw [hmf, hparf] at hmp
          exact absurd hmp hqf
    · rw [hC h hhf] at hh
      rw [hent h hhf] at hk ⊢
      rw [hf.items h hh hk m, hne m]
      constructor
      · rintro ⟨h1, h2, h3, h4⟩
        exact ⟨Or.inl h1, h2, (hpar m h1).trans h3, fun hp => hp.elim h4 (hhead m h1)⟩
      · rintro ⟨h1, h2, h3, h4⟩
        have hm' : C m ≠ [] := h1.resolve_right fun hmf => h4 (Or.inr hmf)
        exact ⟨hm', h2, (hpar m hm').symm.trans h3, fun hp => h4 (Or.inl hp)⟩

/-- The subtree of a head that is not an item of its directory has been zeroed. -/
theorem prune (hf : V.Format C P) (V' : Vol) {n : Nat} (hn0 : n ≠ 0) (hP : P n) (super : V' 1 = V 1)
    (zero : ∀ m, V.Subtree C n m → V'.ent m = Block.zero)
    (rest : ∀ m < V.nent, ¬V.Subtree C n m → V'.ent m = V.ent m) :
    (V'.Format (V.chainsWithout C n) fun m => P m ∧ m ≠ n) ∧ (V.tree C).Step (.remove n) (V'.tree (V.chainsWithout C n)) := by
  have hnent : V'.nent = V.nent := Vol.nent_of_super super
  have hne : ∀ m, V.chainsWithout C n m ≠ [] ↔ C m ≠ [] ∧ ¬Forest.Under V.par n m := by
    intro m
    rw [Vol.chainsWithout]
    split_ifs with h
    · simp [h]
    · simp [h]
  have hC : ∀ m, V.chainsWithout C n m ≠ [] → V.chainsWithout C n m = C m := fun m hm => if_neg ((hne m).1 hm).2
  have hmem : ∀ {m x}, x ∈ V.chainsWithout C n m → V.chainsWithout C n m ≠ [] ∧ x ∈ C m := by
    intro m x hx
    have hm : V.chainsWithout C n m ≠ [] := List.ne_nil_of_mem hx
    exact ⟨hm, hC m hm ▸ hx⟩
  -- the chains that stay are not touched
  have hent : ∀ m x, V.chainsWithout C n m ≠ [] → x ∈ C m → V'.ent x = V.ent x := by
    rintro m x hm hx
    refine rest x (hf.lt hx) ?_
    rintro ⟨g, -, hu, hg⟩
    obtain rfl := hf.disjoint g m x hg hx
    exact ((hne g).1 hm).2 hu
  have hhead : ∀ m, V.chainsWithout C n m ≠ [] → V'.ent m = V.ent m := fun m hm =>
    hent m m hm (hf.mem_head ((hne m).1 hm).1)
  have hpar : ∀ m, V.chainsWithout C n m ≠ [] → V'.par m = V.par m := fun m hm => by rw [Vol.par, hhead m hm, Vol.par]
  have hself : Forest.Under V.par n n := Forest.Under.refl _ _
  have hup : ∀ m, V.chainsWithout C n m ≠ [] → V.chainsWithout C n (V.par m) ≠ [] := by
    intro m hm
    obtain ⟨h1, h2⟩ := (hne m).1 hm
    exact (hne _).2 ⟨hf.parent_head h1, fun hu => h2 hu.step⟩
  have hroot : V.chainsWithout C n 0 ≠ [] :=
    (hne 0).2 ⟨hf.root.1, fun hu => hn0 (hu.root_eq hf.root.2.2.1)⟩
  refine ⟨⟨hf.geo.of_super super, ?_, ?_, ?_, ?_, ?_, ?_, ?_, ?_, ?_, ?_, ?_, ?_, ?_, ?_⟩, hne,
    fun m hm => Vol.sameAt_of_ent (hhead m hm)⟩
  · intro m hm
    rw [hC m hm]
    exact hf.head m ((hne m).1 hm).1
  · intro m hm
    rw [hC m hm]
    obtain ⟨l, hl⟩ := hf.cons ((hne m).1 hm).1
    have hch := hf.chain m ((hne m).1 hm).1
    rw [hl] at hch ⊢
    refine hch.congr hnent (fun x hx => ?_) fun x hx => ?_
    · rw [hent m x hm (hl ▸ hx)]
    · rw [hent m x hm (hl ▸ List.mem_cons_of_mem _ hx)]
  · intro m m' x hx hx'
    exact hf.disjoint m m' x (hmem hx).2 (hmem hx').2
  · intro x hx hu
    rw [hnent] at hx
    have hout : ¬V.Subtree C n x := by
      intro hin
      rw [zero x hin] at hu
      cases hu
    rw [rest x hx hout] at hu
    obtain ⟨m, hm⟩ := hf.used x hx hu
    have hm' : V.chainsWithout C n m ≠ [] :=
      (hne m).2 ⟨List.ne_nil_of_mem hm, fun hunder => hout ⟨m, List.ne_nil_of_mem hm, hunder, hm⟩⟩
    exact ⟨m, by rw [hC m hm']; exact hm⟩
  · intro m x hx
    obtain ⟨hm, hx'⟩ := hmem hx
    rw [hent m x hm hx', hhead m hm]
    exact hf.flags m x hx'
  · intro m hm
    rw [hhead m hm]
    exact hf.kind m ((hne m).1 hm).1
  · intro m k x hx
    obtain ⟨hm, hx'⟩ := hmem (List.mem_of_getElem? hx)
    rw [hC m hm] at hx
    rw [hent m x hm hx', hhead m hm]
    exact hf.sizes m k x hx
  · intro m hm hk
    rw [hhead m hm] at hk ⊢
    rw [hC m hm]
    exact hf.fits m ((hne m).1 hm).1 hk
  · intro m hm hk i
    rw [hhead m hm] at hk
    have hfr : V'.fref (C m) i = V.fref (C m) i := Vol.fref_congr (fun x hx => by rw [hent m x hm hx]) i
    have href := hf.refs m ((hne m).1 hm).1 hk i
    rw [hC m hm, hfr, ← Vol.RefOk, Vol.RefOk.of_super super]
    exact href
  · intro m hm hk
    rw [hhead m hm] at hk ⊢
    rw [hC m hm]
    exact hf.single m ((hne m).1 hm).1 hk
  · rw [hpar 0 hroot, hhead 0 hroot]
    exact ⟨hroot, hf.root.2⟩
  · intro m hm
    rw [hpar m hm, hhead _ (hup m hm)]
    exact ⟨hup m hm, (hf.parent m ((hne m).1 hm).1).2⟩
  · intro m hm hk
    rw [hhead m hm] at hk ⊢
    exact hf.nodup m ((hne m).1 hm).1 hk
  · intro h hh hk m
    obtain ⟨h1, h2⟩ := (hne h).1 hh
    rw [hhead h hh] at hk ⊢
    rw [hf.items h h1 hk m]
    constructor
    · rintro ⟨hm, hm0, hmp, hPm⟩
      have hm' : V.chainsWithout C n m ≠ [] := by
        refine (hne m).2 ⟨hm, fun hu => ?_⟩
        rcases hu.cases with hmn | hu
        · exact hPm (hmn ▸ hP)
        · exact h2 (hmp ▸ hu)
      exact ⟨hm', hm0, (hpar m hm').trans hmp, fun hp => hPm hp.1⟩
    · rintro ⟨hm, hm0, hmp, hPm⟩
      refine ⟨((hne m).1 hm).1, hm0, (hpar m hm).symm.trans hmp, fun hp => hPm ⟨hp, ?_⟩⟩
      rintro rfl
      exact ((hne m).1 hm).2 hself

end Vol.Format

end NanoS32
