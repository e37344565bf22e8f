import NanoS32.Ulib.Ip

/-!
# Addresses as text

What `ip_to_str` writes is four decimal numbers with dots between them, and `str_to_ip` reads it back.
-/

namespace NanoS32

/-! ## Words -/

/-- The first word of a string, when it starts the string and a delimiter or the end of the string follows. -/
theorem strtok_word {delim : UInt8} {tok : CStr} (h0 : tok ≠ []) (hd : delim ∉ tok) {rest : CStr}
    (hrest : rest = [] ∨ rest.head? = some delim) : strtok (tok ++ rest) delim = (0, tok, rest.drop 1) := by
  obtain ⟨a, l, rfl⟩ := List.exists_cons_of_ne_nil h0
  have ha : (a == delim) = false := beq_eq_false_iff_ne.2 fun h => hd (h ▸ List.mem_cons_self)
  have hall : ∀ x ∈ a :: l, (x != delim) = true := fun x hx => bne_iff_ne.2 fun h => hd (h ▸ hx)
  have hstop : rest.takeWhile (· != delim) = [] := by
    rcases hrest with rfl | h
    · rfl
    · cases rest with
      | nil => rfl
      | cons b rest =>
        obtain rfl := Option.some.inj h
        simp
  have hskip : ((a :: l ++ rest).takeWhile (· == delim)).length = 0 := by
    rw [List.cons_append, List.takeWhile_cons, ha]
    rfl
  have htok : (a :: l ++ rest).takeWhile (· != delim) = a :: l := by
    rw [List.takeWhile_append_of_pos hall, hstop, List.append_nil]
  unfold strtok
  simp only [hskip, List.drop_zero, htok, Nat.zero_add]
  rw [← List.drop_drop, List.drop_left]

/-! ## Numbers -/

/-- The text of a byte. -/
def byteText (v : UInt8) : CStr := formatDigits 10 0 23 v.toNat 0 []

/-- The text of a byte is a number of at most three digits, which `stou` reads back. -/
theorem byteText_spec (v : UInt8) : byteText v ≠ [] ∧ (byteText v).length ≤ 3 ∧ (∀ ch ∈ byteText v, 48 ≤ ch ∧ ch ≤ 57) ∧
    stou (byteText v) = v.toNat := by
  have hall : ∀ n ∈ List.range 256, (byteText (UInt8.ofNat n) ≠ [] ∧ (byteText (UInt8.ofNat n)).length ≤ 3) ∧
      (byteText (UInt8.ofNat n)).all (fun ch => 48 ≤ ch && ch ≤ 57) = true ∧ stou (byteText (UInt8.ofNat n)) = n := by
    decide +kernel
  obtain ⟨⟨hne, hlen⟩, hdigits, hread⟩ := hall v.toNat (List.mem_range.2 v.toNat_lt)
  rw [UInt8.ofNat_toNat] at hne hlen hdigits hread
  refine ⟨hne, hlen, fun ch hch => ?_, hread⟩
  have hdigit := List.all_eq_true.1 hdigits ch hch
  rwa [Bool.and_eq_true, decide_eq_true_iff, decide_eq_true_iff] at hdigit

theorem not_mem_byteText {v ch : UInt8} (h : ch < 48 ∨ 57 < ch) : ch ∉ byteText v := by
  intro hm
  obtain ⟨h1, h2⟩ := (byteText_spec v).2.2.1 ch hm
  rcases h with h | h
  · exact absurd h1 (UInt8.not_le.2 h)
  · exact absurd h2 (UInt8.not_le.2 h)

/-! ## Addresses -/

/-- What `formatstr` puts into a buffer that is large enough. -/
theorem foldl_stcatchar {size : Nat} : ∀ (out str : CStr), str.length + out.length ≤ size - 1 →
    out.foldl (stcatchar size) str = str ++ out := by
  intro out
  induction out with
  | nil => exact fun str _ => (List.append_nil str).symm
  | cons ch out ih =>
    intro str h
    rw [List.length_cons] at h
    have hput : stcatchar size str ch = str ++ [ch] := by rw [stcatchar, List.take_of_length_le (by omega)]
    rw [List.foldl_cons, hput, ih _ (by rw [List.length_append, List.length_singleton]; omega), List.append_assoc]
    rfl

/-- The text of an address. -/
theorem ipToStr_eq (ip : Ip) : ipToStr ip =
    byteText (ip 0) ++ 46 :: (byteText (ip 1) ++ 46 :: (byteText (ip 2) ++ 46 :: byteText (ip 3))) := by
  have hput : formatPutf ipFormat.length ipFormat ((List.ofFn ip).map fun v => .num v.toNat) 0 =
      byteText (ip 0) ++ 46 :: (byteText (ip 1) ++ 46 :: (byteText (ip 2) ++ 46 :: (byteText (ip 3) ++ []))) := rfl
  have h0 := (byteText_spec (ip 0)).2.1
  have h1 := (byteText_spec (ip 1)).2.1
  have h2 := (byteText_spec (ip 2)).2.1
  have h3 := (byteText_spec (ip 3)).2.1
  rw [List.append_nil] at hput
  unfold ipToStr formatstr
  rw [hput, foldl_stcatchar, List.nil_append, List.take_of_length_le]
  · simp only [List.length_append, List.length_cons]
    omega
  · simp only [List.length_append, List.length_cons, List.length_nil]
    omega

theorem length_ipToStr_le (ip : Ip) : (ipToStr ip).length ≤ 15 := by
  have h0 := (byteText_spec (ip 0)).2.1
  have h1 := (byteText_spec (ip 1)).2.1
  have h2 := (byteText_spec (ip 2)).2.1
  have h3 := (byteText_spec (ip 3)).2.1
  rw [ipToStr_eq]
  simp only [List.length_append, List.length_cons]
  omega

/-- The text of an address has digits and dots. -/
theorem not_mem_ipToStr {ip : Ip} {ch : UInt8} (h : ch < 48 ∨ 57 < ch) (hdot : ch ≠ 46) : ch ∉ ipToStr ip := by
  rw [ipToStr_eq]
  simp only [List.mem_append, List.mem_cons, not_mem_byteText h, hdot, or_self, not_false_eq_true]

theorem ipToStr_ne_nil (ip : Ip) : ipToStr ip ≠ [] := by
  rw [ipToStr_eq]
  exact List.append_ne_nil_of_right_ne_nil _ (List.cons_ne_nil _ _)

/-- One turn of `str_to_ip`. -/
theorem strToIpLoop_byte {fuel i : Nat} (hi : i < 4) (v : UInt8) {rest : CStr} (hrest : rest = [] ∨ rest.head? = some 46)
    (ip : Ip) : strToIpLoop (fuel + 1) (byteText v ++ rest) i ip =
      strToIpLoop fuel (rest.drop 1) (i + 1) fun k => if k.val = i then v else ip k := by
  have hne := (byteText_spec v).1
  have hval : UInt8.ofNat (stou (byteText v)) = v := by rw [(byteText_spec v).2.2.2, UInt8.ofNat_toNat]
  rw [strToIpLoop, if_pos ⟨List.append_ne_nil_of_left_ne_nil hne _, hi⟩,
    strtok_word hne (not_mem_byteText (Or.inl (by decide))) hrest]
  simp only [hne, ne_eq, not_false_eq_true, if_true, hval]

theorem strToIpLoop_nil (fuel i : Nat) (ip : Ip) : strToIpLoop fuel [] i ip = ip := by
  cases fuel with
  | zero => rfl
  | succ fuel => exact if_neg fun h => h.1 rfl

/-- `str_to_ip` reads back what `ip_to_str` has written. -/
theorem strToIp_ipToStr (ip ip₀ : Ip) : strToIp ip₀ (ipToStr ip) = ip := by
  have hcopy : strncpy (ipToStr ip) 24 = ipToStr ip := by
    have := length_ipToStr_le ip
    rw [strncpy, List.take_of_length_le (by omega)]
  obtain ⟨fuel, hfuel⟩ : ∃ fuel, (ipToStr ip).length = fuel + 4 := by
    refine ⟨(ipToStr ip).length - 4, ?_⟩
    have h0 := List.length_pos_iff.2 (byteText_spec (ip 0)).1
    rw [ipToStr_eq]
    simp only [List.length_append, List.length_cons]
    omega
  have hdot : ∀ l : CStr, (46 :: l).head? = some 46 := fun l => rfl
  have hloop : strToIp ip₀ (ipToStr ip) = strToIpLoop (fuel + 4) (ipToStr ip) 0 ip₀ := by
    rw [← hfuel]
    unfold strToIp
    rw [hcopy]
  rw [hloop, ipToStr_eq, strToIpLoop_byte (by decide) _ (Or.inr (hdot _)), List.drop_one, List.tail_cons,
    strToIpLoop_byte (by decide) _ (Or.inr (hdot _)), List.drop_one, List.tail_cons,
    strToIpLoop_byte (by decide) _ (Or.inr (hdot _)), List.drop_one, List.tail_cons,
    ← List.append_nil (byteText (ip 3)), strToIpLoop_byte (by decide) _ (Or.inl rfl), List.drop_nil, strToIpLoop_nil]
  funext k
  match k with
  | ⟨0, _⟩ => rfl
  | ⟨1, _⟩ => rfl
  | ⟨2, _⟩ => rfl
  | ⟨3, _⟩ => rfl

end NanoS32
