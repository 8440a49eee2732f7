import RedisCluster.Util.Strings

/-!
# Strings of bytes: proofs

`string2ll` reads back the decimal digits of a number, and `strchr` finds the end of a line.
-/

namespace RedisCluster.Util

def digitByte (d : Nat) : UInt8 := UInt8.ofNat (48 + d)

theorem toNat_digitByte {d : Nat} (hd : d < 10) : (digitByte d).toNat = 48 + d := by
  rw [digitByte, UInt8.toNat_ofNat']
  omega

theorem isDigit_digitByte {d : Nat} (hd : d < 10) : isDigit (digitByte d) = true := by
  have h := toNat_digitByte hd
  have h1 : (48 : UInt8) ≤ digitByte d := by
    rw [UInt8.le_iff_toNat_le, h]
    exact Nat.le_add_right 48 d
  have h2 : digitByte d ≤ (57 : UInt8) := by
    rw [UInt8.le_iff_toNat_le, h]
    have : (57 : UInt8).toNat = 57 := rfl
    omega
  simp [isDigit, h1, h2]

theorem decimal_zero : decimal 0 = [48] := rfl

theorem decimal_pos {n : Nat} (hn : n ≠ 0) :
    decimal n = (Nat.digits 10 n).reverse.map digitByte := by
  rw [decimal, if_neg hn]
  rfl

theorem mem_decimal {n : Nat} {b : UInt8} (hb : b ∈ decimal n) : ∃ d < 10, b = digitByte d := by
  by_cases hn : n = 0
  · rw [hn, decimal_zero, List.mem_singleton] at hb
    exact ⟨0, by decide, hb⟩
  · rw [decimal_pos hn, List.mem_map] at hb
    obtain ⟨d, hd, rfl⟩ := hb
    exact ⟨d, Nat.digits_lt_base (by decide) (List.mem_reverse.mp hd), rfl⟩

theorem notMem_decimal {c : UInt8} (hc : isDigit c = false) (n : Nat) : c ∉ decimal n := by
  intro h
  obtain ⟨d, hd, rfl⟩ := mem_decimal h
  rw [isDigit_digitByte hd] at hc
  cases hc

theorem length_decimal_le {n k : Nat} (hk : 0 < k) (hn : n < 10 ^ k) : (decimal n).length ≤ k := by
  by_cases h : n = 0
  · subst h
    exact hk
  · rw [decimal_pos h, List.length_map, List.length_reverse]
    exact (Nat.digits_length_le_iff (by decide) n).mpr hn

theorem string2llDigits_map (ds : List Nat) (hds : ∀ d ∈ ds, d < 10) (v : Nat)
    (hv : ds.foldl (fun v d => v * 10 + d) v ≤ ULLONG_MAX) :
    string2llDigits v (ds.map digitByte) = some (ds.foldl (fun v d => v * 10 + d) v) := by
  induction ds generalizing v with
  | nil => rfl
  | cons d ds ih =>
    have hd : d < 10 := hds d List.mem_cons_self
    have hb : (digitByte d).toNat - 48 = d := by
      rw [toNat_digitByte hd]
      omega
    have hle : v * 10 + d ≤ ULLONG_MAX := by
      refine Nat.le_trans ?_ hv
      exact le_foldl_digits ds (v * 10 + d)
    have h1 : ¬ v > ULLONG_MAX / 10 := by omega
    have h2 : ¬ v * 10 > ULLONG_MAX - d := by omega
    rw [List.map_cons, string2llDigits, if_pos (isDigit_digitByte hd), hb, if_neg h1, if_neg h2]
    exact ih (fun e he => hds e (List.mem_cons_of_mem d he)) (v * 10 + d) hv
where
  le_foldl_digits (ds : List Nat) (v : Nat) : v ≤ ds.foldl (fun v d => v * 10 + d) v := by
    induction ds generalizing v with
    | nil => exact Nat.le_refl v
    | cons d ds ih => exact Nat.le_trans (by omega) (ih (v * 10 + d))

theorem foldl_digits (n : Nat) :
    (Nat.digits 10 n).reverse.foldl (fun v d => v * 10 + d) 0 = n := by
  rw [List.foldl_reverse]
  have h := Nat.ofDigits_digits 10 n
  rw [Nat.ofDigits_eq_foldr] at h
  refine Eq.trans ?_ h
  congr 1
  funext d v
  simp only [Nat.cast_id]
  omega

theorem string2llMagnitude_decimal {n : Nat} (hn : n ≠ 0) (hmax : n ≤ ULLONG_MAX) :
    string2llMagnitude (decimal n) = some n := by
  have hne : Nat.digits 10 n ≠ [] := Nat.digits_ne_nil_iff_ne_zero.mpr hn
  have hlast : (Nat.digits 10 n).getLast hne ≠ 0 := Nat.getLast_digit_ne_zero 10 hn
  have hsplit : (Nat.digits 10 n).reverse =
      (Nat.digits 10 n).getLast hne :: (Nat.digits 10 n).dropLast.reverse := by
    conv_lhs => rw [← List.dropLast_append_getLast hne]
    rw [List.reverse_append]
    rfl
  have hfold := foldl_digits n
  have hlt : ∀ d ∈ (Nat.digits 10 n).reverse, d < 10 := fun d hd =>
    Nat.digits_lt_base (by decide) (List.mem_reverse.mp hd)
  rw [decimal_pos hn]
  generalize (Nat.digits 10 n).getLast hne = d at hsplit hlast
  rw [hsplit] at hfold hlt ⊢
  have hd : d < 10 := hlt d List.mem_cons_self
  have hb := toNat_digitByte hd
  have h1 : (49 : UInt8) ≤ digitByte d := by
    rw [UInt8.le_iff_toNat_le, hb]
    have : (49 : UInt8).toNat = 49 := rfl
    omega
  have h2 : digitByte d ≤ (57 : UInt8) := by
    rw [UInt8.le_iff_toNat_le, hb]
    have : (57 : UInt8).toNat = 57 := rfl
    omega
  have hv : (digitByte d).toNat - 48 = 0 * 10 + d := by omega
  rw [List.map_cons, string2llMagnitude, if_pos ⟨h1, h2⟩, hv,
    string2llDigits_map _ (fun e he => hlt e (List.mem_cons_of_mem d he))]
  · exact congrArg some hfold
  · exact Nat.le_trans (Nat.le_of_eq hfold) hmax

theorem string2ll_decimal {n : Nat} (hmax : n ≤ LLONG_MAX) : string2ll (decimal n) = some (n : Int) := by
  by_cases hn : n = 0
  · subst hn
    rfl
  · have hm := string2llMagnitude_decimal hn (Nat.le_trans hmax (by decide))
    unfold string2ll
    split
    · rw [‹decimal n = []›] at hm
      cases hm
    · rw [‹decimal n = [48]›] at hm
      cases hm
    · rename_i cs heq
      have h45 : (45 : UInt8) ∈ decimal n := heq ▸ List.mem_cons_self
      exact absurd h45 (notMem_decimal (by decide) n)
    · rw [hm]
      exact if_neg (by omega)

theorem string2ll_minus {n : Nat} (hn : n ≠ 0) (hmax : n ≤ LLONG_MAX + 1) :
    string2ll (45 :: decimal n) = some (-(n : Int)) := by
  have hm := string2llMagnitude_decimal hn (Nat.le_trans hmax (by decide))
  show ((string2llMagnitude (decimal n)).bind fun v =>
    if v > LLONG_MAX + 1 then none else some (-(v : Int))) = _
  rw [hm]
  exact if_neg (by omega)

theorem string2ll_ll2string {n : Int} (hmin : -(2 ^ 63) ≤ n) (hmax : n < 2 ^ 63) :
    string2ll (ll2string n) = some n := by
  unfold ll2string
  by_cases hn : n < 0
  · rw [if_pos hn, string2ll_minus (by omega) (by unfold LLONG_MAX; omega)]
    congr 1
    omega
  · rw [if_neg hn, string2ll_decimal (by unfold LLONG_MAX; omega)]
    congr 1
    omega

theorem isDigit_bounds {c : UInt8} (h : isDigit c = true) :
    ∃ d < 10, c = digitByte d ∧ c.toNat - 48 = d := by
  have hb : 48 ≤ c.toNat ∧ c.toNat ≤ 57 := by
    have h' : (48 : UInt8) ≤ c ∧ c ≤ (57 : UInt8) := by simpa [isDigit] using h
    rw [UInt8.le_iff_toNat_le, UInt8.le_iff_toNat_le] at h'
    exact h'
  refine ⟨c.toNat - 48, by omega, ?_, rfl⟩
  apply UInt8.toNat_inj.mp
  rw [toNat_digitByte (by omega)]
  omega

theorem string2llDigits_inv {cs : Bytes} {v w : Nat} (h : string2llDigits v cs = some w) :
    ∃ ds : List Nat, (∀ d ∈ ds, d < 10) ∧ cs = ds.map digitByte ∧
      w = ds.foldl (fun v d => v * 10 + d) v := by
  induction cs generalizing v with
  | nil =>
    cases h
    exact ⟨[], fun d hd => (List.not_mem_nil hd).elim, rfl, rfl⟩
  | cons c cs ih =>
    rw [string2llDigits] at h
    by_cases hc : isDigit c = true
    · obtain ⟨d, hd, rfl, hval⟩ := isDigit_bounds hc
      rw [if_pos hc, hval] at h
      by_cases h1 : v > ULLONG_MAX / 10
      · rw [if_pos h1] at h
        cases h
      · by_cases h2 : v * 10 > ULLONG_MAX - d
        · rw [if_neg h1, if_pos h2] at h
          cases h
        · rw [if_neg h1, if_neg h2] at h
          obtain ⟨ds, hds, rfl, rfl⟩ := ih h
          refine ⟨d :: ds, ?_, rfl, rfl⟩
          intro e he
          rcases List.mem_cons.mp he with rfl | he
          · exact hd
          · exact hds e he
    · rw [if_neg hc] at h
      cases h

theorem foldl_ofDigits (ds : List Nat) :
    ds.foldl (fun v d => v * 10 + d) 0 = Nat.ofDigits 10 ds.reverse := by
  rw [Nat.ofDigits_eq_foldr, List.foldr_reverse]
  congr 1
  funext v d
  simp only [Nat.cast_id]
  omega

theorem string2llMagnitude_inv {cs : Bytes} {v : Nat} (h : string2llMagnitude cs = some v) :
    cs = decimal v ∧ v ≠ 0 := by
  cases cs with
  | nil => cases h
  | cons c cs =>
    rw [string2llMagnitude] at h
    by_cases hc : (49 : UInt8) ≤ c ∧ c ≤ 57
    · rw [if_pos hc] at h
      have hdigit : isDigit c = true := by
        have h49 := UInt8.le_iff_toNat_le.mp hc.1
        have h48 : (48 : UInt8) ≤ c := UInt8.le_iff_toNat_le.mpr (Nat.le_trans (by decide) h49)
        simp [isDigit, h48, hc.2]
      obtain ⟨d, hd, rfl, hval⟩ := isDigit_bounds hdigit
      have hd0 : d ≠ 0 := by
        have h49 := UInt8.le_iff_toNat_le.mp hc.1
        have h49' : (49 : UInt8).toNat = 49 := rfl
        rw [toNat_digitByte hd] at h49
        omega
      rw [hval] at h
      obtain ⟨ds, hds, rfl, rfl⟩ := string2llDigits_inv h
      have hfold : ds.foldl (fun v d => v * 10 + d) d = Nat.ofDigits 10 (d :: ds).reverse := by
        rw [← foldl_ofDigits, List.foldl_cons]
        simp
      have hdigits : Nat.digits 10 (Nat.ofDigits 10 (d :: ds).reverse) = (d :: ds).reverse := by
        apply Nat.digits_ofDigits 10 (by decide)
        · intro e he
          rcases List.mem_cons.mp (List.mem_reverse.mp he) with rfl | he
          · exact hd
          · exact hds e he
        · intro hne
          rw [List.getLast_reverse]
          exact hd0
      have hv0 : ds.foldl (fun v d => v * 10 + d) d ≠ 0 := by
        intro h0
        rw [hfold] at h0
        rw [h0] at hdigits
        simp at hdigits
      refine ⟨?_, hv0⟩
      rw [decimal_pos hv0, hfold, hdigits, List.reverse_reverse]
      rfl
    · rw [if_neg hc] at h
      cases h

theorem string2ll_inv {s : Bytes} {n : Int} (h : string2ll s = some n) :
    s = ll2string n ∧ -(2 ^ 63) ≤ n ∧ n < 2 ^ 63 := by
  unfold string2ll at h
  split at h
  · cases h
  · cases h
    exact ⟨rfl, by decide, by decide⟩
  · rename_i cs
    obtain ⟨v, hv, hlim⟩ := Option.bind_eq_some_iff.mp h
    obtain ⟨rfl, hv0⟩ := string2llMagnitude_inv hv
    by_cases hmax : v > LLONG_MAX + 1
    · rw [if_pos hmax] at hlim
      cases hlim
    · rw [if_neg hmax] at hlim
      cases hlim
      have hmax' : v ≤ 2 ^ 63 := by
        unfold LLONG_MAX at hmax
        omega
      refine ⟨?_, by omega, by omega⟩
      rw [ll2string, if_pos (by omega), Int.natAbs_neg, Int.natAbs_natCast]
  · obtain ⟨v, hv, hlim⟩ := Option.bind_eq_some_iff.mp h
    obtain ⟨rfl, hv0⟩ := string2llMagnitude_inv hv
    by_cases hmax : v > LLONG_MAX
    · rw [if_pos hmax] at hlim
      cases hlim
    · rw [if_neg hmax] at hlim
      cases hlim
      have hmax' : v < 2 ^ 63 := by
        unfold LLONG_MAX at hmax
        omega
      refine ⟨?_, by omega, by omega⟩
      rw [ll2string, if_neg (by omega), Int.natAbs_natCast]

theorem strchr_eq_none {c : UInt8} {bs : Bytes} (h : c ∉ bs) : strchr c bs = none := by
  induction bs with
  | nil => rfl
  | cons b bs ih =>
    have hb : b ≠ c := fun hb => h (hb ▸ List.mem_cons_self)
    rw [strchr, if_neg hb, ih (fun hc => h (List.mem_cons_of_mem b hc))]
    split <;> rfl

theorem strchr_append {c : UInt8} {bs : Bytes} (hc : c ∉ bs) (h0 : (0 : UInt8) ∉ bs) (rest : Bytes) :
    strchr c (bs ++ c :: rest) = some bs.length := by
  induction bs with
  | nil => exact if_pos rfl
  | cons b bs ih =>
    have hb : b ≠ c := fun hb => hc (hb ▸ List.mem_cons_self)
    have hb0 : b ≠ 0 := fun hb => h0 (hb ▸ List.mem_cons_self)
    rw [List.cons_append, strchr, if_neg hb, if_neg hb0,
      ih (fun h => hc (List.mem_cons_of_mem b h)) (fun h => h0 (List.mem_cons_of_mem b h))]
    rfl

end RedisCluster.Util
