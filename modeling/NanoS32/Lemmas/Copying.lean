import NanoS32.Lemmas.Reading

/-!
# What a copy does

`fs_copy` reads, and writes through the calls it makes. So it keeps what these keep, and it does the same with calls that are stuck
more often, where it is not stuck with them.
-/

namespace NanoS32

open Prog

section Keep

variable {I : Sys → Prop} (hI : ∀ s, I s → s.faults = []) (env : Env) {calls : CopyCalls}
  (hwrite : ∀ buff path offset flags, offset < 4294967296 → (calls.writeFile buff path offset flags).Keeps I)

include hI hwrite

theorem copyFileLoop_keeps (srcpath : CStr) : ∀ fuel offset dstpath, offset < 4294967296 →
    (copyFileLoop env calls srcpath fuel offset dstpath).Keeps I
  | 0, _, _, _ => (keepRules I).noReturn
  | fuel + 1, offset, dstpath, ho => by
    refine (keepRules I).bind (fsReadFile_keeps hI env _ _ _) fun buff => (keepRules I).ite (fun _ => (keepRules I).pure _) fun _ => ?_
    exact (keepRules I).bind (hwrite _ _ _ _ ho) fun _ => copyFileLoop_keeps srcpath fuel _ _ (Nat.mod_lt _ (by decide))

theorem fsCopyWith_keeps (hcreate : ∀ path, (calls.createDirectory path).Keeps I) :
    ∀ fuel srcpath dstpath, (fsCopyWith env calls fuel srcpath dstpath).Keeps I
  | 0, _, _ => (keepRules I).noReturn
  | fuel + 1, srcpath, dstpath => by
    refine (keepRules I).bind (checkSrcDst_keeps hI env _ _) fun _ => (keepRules I).ite (fun _ => ?_) fun _ => ?_
    · exact copyFileLoop_keeps hI env hwrite srcpath _ _ _ (by decide)
    · refine (keepRules I).ite (fun _ => (keepRules I).bind (hcreate _) fun _ => (keepRules I).each fun r _ => ?_)
        fun _ => (keepRules I).fail trivial
      exact (keepRules I).bind ((reads_keep hI env).entry _ _) fun _ => fsCopyWith_keeps hcreate fuel _ _

end Keep

section Below

variable (env : Env) {calls calls' : CopyCalls}
  (hwrite : ∀ buff path offset flags, Below (calls.writeFile buff path offset flags) (calls'.writeFile buff path offset flags))

include hwrite

theorem copyFileLoop_below (srcpath : CStr) : ∀ fuel offset dstpath,
    Below (copyFileLoop env calls srcpath fuel offset dstpath) (copyFileLoop env calls' srcpath fuel offset dstpath)
  | 0, _, _ => Below.refl _
  | fuel + 1, _, _ =>
    (Below.refl _).bind fun _ => (Below.refl _).ite ((hwrite _ _ _ _).bind fun _ => copyFileLoop_below srcpath fuel _ _)

theorem fsCopyWith_below (hcreate : ∀ path, Below (calls.createDirectory path) (calls'.createDirectory path)) :
    ∀ fuel srcpath dstpath, Below (fsCopyWith env calls fuel srcpath dstpath) (fsCopyWith env calls' fuel srcpath dstpath)
  | 0, _, _ => Below.refl _
  | fuel + 1, _, _ =>
    (Below.refl _).bind fun _ =>
      (copyFileLoop_below env hwrite _ _ _ _).ite
        (((hcreate _).bind fun _ =>
          Below.each (fun _ => (Below.refl _).bind fun _ => fsCopyWith_below hcreate fuel _ _) _).ite (Below.refl _))

end Below

end NanoS32
