import RedisCluster.Util.Proofs.StringProofs
import Mathlib.Data.List.TakeWhile

/-!
# Numbers as strings: proofs

The two comparisons in the loop of `string2ll` find every number above `ULLONG_MAX`, so no product and no sum wraps.
-/

namespace RedisCluster.Util.Numbers

theorem le_appendDigits (v : Nat) (ds : Bytes) : v ≤ appendDigits v ds := by
  induction ds generalizing v with
  | nil => exact Nat.le_refl v
  | cons d ds ih =>
    have h : v * 10 + (d.toNat - 48) ≤ appendDigits v (d :: ds) := ih (v * 10 + (d.toNat - 48))
    omega

theorem string2llLoop_eq (v : Nat) (s : Bytes) (hv : v ≤ ULLONG_MAX) :
    string2llLoop v s =
      if appendDigits v (s.takeWhile isDigit) ≤ ULLONG_MAX then
        some (appendDigits v (s.takeWhile isDigit), s.dropWhile isDigit)
      else none := by
  induction s generalizing v with
  | nil =>
    have hfits : appendDigits v [] ≤ ULLONG_MAX := hv
    rw [string2llLoop, List.takeWhile_nil, List.dropWhile_nil, if_pos hfits]
    rfl
  | cons c s ih =>
    rw [string2llLoop]
    by_cases hc : isDigit c = true
    · obtain ⟨d, hd, -, hval⟩ := isDigit_bounds hc
      have hstep : appendDigits v (c :: s.takeWhile isDigit) = appendDigits (v * 10 + d) (s.takeWhile isDigit) := by
        rw [← hval]
        rfl
      have hle := le_appendDigits (v * 10 + d) (s.takeWhile isDigit)
      rw [if_pos hc, hval, List.takeWhile_cons_of_pos hc, List.dropWhile_cons_of_pos hc, hstep]
      have hmax : ULLONG_MAX = 18446744073709551615 := rfl
      by_cases hbig : v * 10 + d ≤ ULLONG_MAX
      · have hmul : ull (v * 10) = v * 10 := Nat.mod_eq_of_lt (by omega)
        have hadd : ull (v * 10 + d) = v * 10 + d := Nat.mod_eq_of_lt (by omega)
        rw [if_neg (by omega), hmul, if_neg (by omega), hadd]
        exact ih (v * 10 + d) hbig
      · rw [if_neg (c := appendDigits _ _ ≤ _) (by omega)]
        by_cases hfirst : v > ULLONG_MAX / 10
        · rw [if_pos hfirst]
        · have hmul : ull (v * 10) = v * 10 := Nat.mod_eq_of_lt (by omega)
          rw [if_neg hfirst, hmul, if_pos (by omega)]
    · have htake : (c :: s).takeWhile isDigit = [] := List.takeWhile_cons_of_neg hc
      have hdrop : (c :: s).dropWhile isDigit = c :: s := List.dropWhile_cons_of_neg hc
      have hfits : appendDigits v [] ≤ ULLONG_MAX := hv
      rw [if_neg hc, htake, hdrop, if_pos hfits]
      rfl

theorem string2llDigits_eq (v : Nat) (s : Bytes) (hv : v ≤ ULLONG_MAX) :
    string2llDigits v s =
      match string2llLoop v s with
      | some (w, []) => some w
      | _ => none := by
  induction s generalizing v with
  | nil => rfl
  | cons c s ih =>
    rw [string2llDigits, string2llLoop]
    by_cases hc : isDigit c = true
    · obtain ⟨d, hd, -, hval⟩ := isDigit_bounds hc
      have hmax : ULLONG_MAX = 18446744073709551615 := rfl
      rw [if_pos hc, if_pos hc, hval]
      by_cases hfirst : v > ULLONG_MAX / 10
      · rw [if_pos hfirst, if_pos hfirst]
      · have hmul : ull (v * 10) = v * 10 := Nat.mod_eq_of_lt (by omega)
        rw [if_neg hfirst, if_neg hfirst, hmul]
        by_cases hsecond : v * 10 > ULLONG_MAX - d
        · rw [if_pos hsecond, if_pos hsecond]
        · have hadd : ull (v * 10 + d) = v * 10 + d := Nat.mod_eq_of_lt (by omega)
          rw [if_neg hsecond, if_neg hsecond, hadd]
          exact ih (v * 10 + d) (by omega)
    · rw [if_neg hc, if_neg hc]

theorem string2llUnsigned_eq {slen : Nat} {negative : Bool} {s : Bytes} (hslen : s.length < slen ∨ slen ≠ 1) :
    string2llUnsigned slen negative s = (string2llMagnitude s).bind (string2llSigned negative) := by
  cases s with
  | nil => rfl
  | cons c s =>
    rw [string2llUnsigned, string2llMagnitude]
    by_cases hc : 49 ≤ c ∧ c ≤ 57
    · have hb : c.toNat - 48 ≤ ULLONG_MAX := by
        have h57 : c.toNat ≤ 57 := UInt8.le_iff_toNat_le.mp hc.2
        have hmax : ULLONG_MAX = 18446744073709551615 := rfl
        omega
      rw [if_pos hc, if_pos hc, string2llDigits_eq _ _ hb]
      rcases string2llLoop (c.toNat - 48) s with _ | ⟨v, _ | ⟨b, rest⟩⟩
      · rfl
      · rfl
      · rfl
    · have hone : ¬(c = 48 ∧ slen = 1) := by
        rintro ⟨-, rfl⟩
        rcases hslen with hslen | hslen
        · exact absurd hslen (by rw [List.length_cons]; omega)
        · exact hslen rfl
      rw [if_neg hc, if_neg hc, if_neg hone]
      rfl

theorem string2llSigned_true (v : Nat) :
    string2llSigned true v = if v > LLONG_MAX + 1 then none else some (-(v : Int)) := by
  have hmax : LLONG_MAX = 9223372036854775807 := rfl
  rw [string2llSigned, if_pos rfl]
  by_cases hbig : v > LLONG_MAX + 1
  · rw [if_pos hbig, if_pos hbig]
  · have hvalue : toLongLong (ull (2 ^ 64 - v)) = -(v : Int) := by
      rw [toLongLong, ull]
      split
      · omega
      · omega
    rw [if_neg hbig, if_neg hbig, hvalue]

theorem string2llSigned_false (v : Nat) :
    string2llSigned false v = if v > LLONG_MAX then none else some (v : Int) := by
  have hmax : LLONG_MAX = 9223372036854775807 := rfl
  rw [string2llSigned, if_neg (by decide)]
  by_cases hbig : v > LLONG_MAX
  · rw [if_pos hbig, if_pos hbig]
  · have hvalue : toLongLong v = (v : Int) := by
      rw [toLongLong]
      exact if_pos (by omega)
    rw [if_neg hbig, if_neg hbig, hvalue]

theorem string2ll_eq (s : Bytes) : string2ll s = Util.string2ll s := by
  rcases s with _ | ⟨c, s⟩
  · rfl
  · by_cases hzero : (c :: s).length = 1 ∧ (c :: s).head? = some 48
    · obtain ⟨hlen, hhead⟩ := hzero
      obtain rfl : s = [] := List.length_eq_zero_iff.mp (by simpa using hlen)
      obtain rfl : c = 48 := by simpa using hhead
      rfl
    · rw [string2ll, if_neg (by simp), if_neg hzero]
      by_cases hminus : (c :: s).head? = some 45
      · obtain rfl : c = 45 := by simpa using hminus
        rw [if_pos hminus, string2llUnsigned_eq (.inl (by simp)), List.tail_cons]
        have hminus' : Util.string2ll (45 :: s) =
            (string2llMagnitude s).bind fun v => if v > LLONG_MAX + 1 then none else some (-(v : Int)) := rfl
        rw [hminus']
        exact congrArg _ (funext string2llSigned_true)
      · have hother : Util.string2ll (c :: s) =
            (string2llMagnitude (c :: s)).bind fun v => if v > LLONG_MAX then none else some (v : Int) := by
          unfold Util.string2ll
          split
          · rename_i heq
            cases heq
          · rename_i heq
            rw [heq] at hzero
            exact absurd ⟨rfl, rfl⟩ hzero
          · rename_i heq
            rw [heq] at hminus
            exact absurd rfl hminus
          · rfl
        have hunsigned : string2llUnsigned (c :: s).length false (c :: s) =
            (string2llMagnitude (c :: s)).bind (string2llSigned false) := by
          by_cases hlen : (c :: s).length = 1
          · obtain rfl : s = [] := List.length_eq_zero_iff.mp (by simpa using hlen)
            have hc : c ≠ 48 := fun hc => hzero ⟨rfl, by rw [hc]; rfl⟩
            have h : string2llUnsigned 2 false [c] = _ := string2llUnsigned_eq (.inr (by decide))
            rw [← h, string2llUnsigned, string2llUnsigned, if_neg (c := c = 48 ∧ _) fun h => hc h.1,
              if_neg (c := c = 48 ∧ _) fun h => hc h.1]
          · exact string2llUnsigned_eq (.inr hlen)
        rw [if_neg hminus, hother, hunsigned]
        exact congrArg _ (funext string2llSigned_false)

theorem decimal_append {n : Nat} (hn : n / 10 ≠ 0) : decimal n = decimal (n / 10) ++ [UInt8.ofNat (48 + n % 10)] := by
  have hne : n ≠ 0 := by omega
  rw [decimal_pos hne, decimal_pos hn, Nat.digits_def' (by decide) (Nat.pos_of_ne_zero hne), List.reverse_cons,
    List.map_append]
  rfl

theorem decimal_digit {n : Nat} (hn : n / 10 = 0) : decimal n = [UInt8.ofNat (48 + n % 10)] := by
  have hlt : n < 10 := by omega
  by_cases h : n = 0
  · subst h
    rfl
  · rw [decimal_pos h, Nat.digits_of_lt 10 n h hlt, Nat.mod_eq_of_lt hlt]
    rfl

theorem ll2stringLoop_eq (fuel : Nat) {v : Nat} (buf : Bytes) (hv : v < 10 ^ (fuel + 1)) :
    ll2stringLoop (fuel + 1) v buf = decimal v ++ buf := by
  induction fuel generalizing v buf with
  | zero =>
    have hdigit : v / 10 = 0 := Nat.div_eq_of_lt (by simpa using hv)
    rw [ll2stringLoop, if_pos hdigit, decimal_digit hdigit]
    rfl
  | succ fuel ih =>
    rw [ll2stringLoop]
    by_cases hdigit : v / 10 = 0
    · rw [if_pos hdigit, decimal_digit hdigit]
      rfl
    · have hlt : v / 10 < 10 ^ (fuel + 1) := by
        rw [Nat.div_lt_iff_lt_mul (by decide), ← Nat.pow_succ]
        exact hv
      rw [if_neg hdigit, ih _ hlt, decimal_append hdigit, List.append_assoc]
      rfl

theorem ll2string_eq {len : Nat} (hlen : 21 ≤ len) {n : Int} (hn : IsLongLong n) : ll2string len n = Util.ll2string n := by
  obtain ⟨hmin, hmax⟩ := hn
  have hloop : ∀ v : Nat, v < 2 ^ 64 → ll2stringLoop 20 v [] = decimal v := fun v hv => by
    rw [ll2stringLoop_eq 19 [] (lt_trans hv (by decide)), List.append_nil]
  have htake : ∀ p : Bytes, p.length ≤ 20 → p.take (if p.length + 1 > len then len - 1 else p.length) = p :=
    fun p hp => by rw [if_neg (by omega), List.take_length]
  rw [ll2string, if_neg (by omega), Util.ll2string]
  by_cases hneg : n < 0
  · have habs : (-n % 2 ^ 64).toNat = n.natAbs := by omega
    have hdigits : (decimal n.natAbs).length ≤ 19 := length_decimal_le (by decide) (by omega)
    simp only [if_pos hneg, habs]
    rw [hloop _ (by omega)]
    exact htake _ (by rw [List.length_cons]; omega)
  · have habs : n.toNat = n.natAbs := by omega
    have hdigits : (decimal n.natAbs).length ≤ 19 := length_decimal_le (by decide) (by omega)
    simp only [if_neg hneg, habs]
    rw [hloop _ (by omega)]
    exact htake _ (by omega)

theorem appendDigits_zero (c : UInt8) (ds : Bytes) : appendDigits 0 (c :: ds) = appendDigits (c.toNat - 48) ds := by
  show appendDigits (0 * 10 + (c.toNat - 48)) ds = _
  rw [Nat.zero_mul, Nat.zero_add]

theorem string2llUnsigned_digits {slen : Nat} {negative : Bool} {c : UInt8} {ds : Bytes} (hc : 49 ≤ c ∧ c ≤ 57)
    (hds : ∀ d ∈ ds, isDigit d = true) (hfits : appendDigits 0 (c :: ds) ≤ ULLONG_MAX) :
    string2llUnsigned slen negative (c :: ds) = string2llSigned negative (appendDigits 0 (c :: ds)) := by
  have hb : c.toNat - 48 ≤ ULLONG_MAX := by
    have h57 : c.toNat ≤ 57 := UInt8.le_iff_toNat_le.mp hc.2
    have hmax : ULLONG_MAX = 18446744073709551615 := rfl
    omega
  rw [appendDigits_zero] at hfits ⊢
  rw [string2llUnsigned, if_pos hc, string2llLoop_eq _ _ hb, List.takeWhile_eq_self_iff.mpr hds,
    List.dropWhile_eq_nil_iff.mpr hds, if_pos hfits]

theorem spells_decimal {n : Nat} (hn : n ≠ 0) (hmax : n ≤ ULLONG_MAX) :
    ∃ c ds, decimal n = c :: ds ∧ (49 ≤ c ∧ c ≤ 57) ∧ (∀ d ∈ ds, isDigit d = true) ∧
      appendDigits 0 (c :: ds) = n := by
  have hread := string2llMagnitude_decimal hn hmax
  have hall : ∀ d ∈ decimal n, isDigit d = true := fun d hd => by
    obtain ⟨k, hk, rfl⟩ := mem_decimal hd
    exact isDigit_digitByte hk
  cases hdec : decimal n with
  | nil =>
    rw [hdec] at hread
    cases hread
  | cons c ds =>
    rw [hdec] at hread hall
    rw [string2llMagnitude] at hread
    by_cases hc : 49 ≤ c ∧ c ≤ 57
    · have hds : ∀ d ∈ ds, isDigit d = true := fun d hd => hall d (List.mem_cons_of_mem _ hd)
      have hb : c.toNat - 48 ≤ ULLONG_MAX := by
        have h57 : c.toNat ≤ 57 := UInt8.le_iff_toNat_le.mp hc.2
        have hmax' : ULLONG_MAX = 18446744073709551615 := rfl
        omega
      refine ⟨c, ds, rfl, hc, hds, ?_⟩
      rw [if_pos hc, string2llDigits_eq _ _ hb, string2llLoop_eq _ _ hb, List.takeWhile_eq_self_iff.mpr hds,
        List.dropWhile_eq_nil_iff.mpr hds] at hread
      rw [appendDigits_zero]
      split at hread
      · rename_i w heq
        split at heq
        · rw [← Option.some.inj hread]
          exact (Prod.mk.inj (Option.some.inj heq)).1
        · cases heq
      · cases hread
    · rw [if_neg hc] at hread
      cases hread

theorem spells_ll2string {n : Int} (hn : IsLongLong n) : Spells (Util.ll2string n) n := by
  obtain ⟨hmin, hmax⟩ := hn
  have hlimit : ULLONG_MAX = 18446744073709551615 := rfl
  rw [Util.ll2string]
  by_cases hzero : n = 0
  · subst hzero
    exact .zero
  · obtain ⟨c, ds, hdec, hc, hds, hval⟩ := spells_decimal (n := n.natAbs) (by omega) (by omega)
    rw [hdec]
    by_cases hneg : n < 0
    · have h : Spells (45 :: c :: ds) (-(appendDigits 0 (c :: ds) : Int)) := .negative c ds hc hds
      rw [hval] at h
      rw [if_pos hneg]
      have habs : -(n.natAbs : Int) = n := by omega
      rwa [habs] at h
    · have h : Spells (c :: ds) (appendDigits 0 (c :: ds)) := .positive c ds hc hds
      rw [hval] at h
      rw [if_neg hneg]
      have habs : (n.natAbs : Int) = n := by omega
      rwa [habs] at h

theorem string2ll_of_spells {s : Bytes} {n : Int} (h : Spells s n) (hn : IsLongLong n) : string2ll s = some n := by
  obtain ⟨hmin, hmax⟩ := hn
  have hlimit : ULLONG_MAX = 18446744073709551615 := rfl
  have hlimit' : LLONG_MAX = 9223372036854775807 := rfl
  cases h with
  | zero => rfl
  | positive c ds hc hds =>
    have h48 : c ≠ 48 := by
      rintro rfl
      exact absurd hc.1 (by decide)
    have h45 : c ≠ 45 := by
      rintro rfl
      exact absurd hc.1 (by decide)
    rw [string2ll, if_neg (by simp), if_neg (by simp [h48]), if_neg (by simp [h45]),
      string2llUnsigned_digits hc hds (by omega), string2llSigned_false, if_neg (by omega)]
  | negative c ds hc hds =>
    rw [string2ll, if_neg (by simp), if_neg (by simp), if_pos (by simp), List.tail_cons,
      string2llUnsigned_digits hc hds (by omega), string2llSigned_true, if_neg (by omega)]

theorem string2ll_iff (s : Bytes) (n : Int) : string2ll s = some n ↔ Spells s n ∧ IsLongLong n := by
  constructor
  · intro h
    rw [string2ll_eq] at h
    obtain ⟨rfl, hrange⟩ := string2ll_inv h
    exact ⟨spells_ll2string hrange, hrange⟩
  · rintro ⟨hspells, hrange⟩
    exact string2ll_of_spells hspells hrange

/-- Exactly the canonical spellings of 64-bit integers are read, `ll2string` writes them, and the loop gives the exact
number or finds that it does not fit. -/
theorem numbers_spelled :
    (∀ s n, string2ll s = some n ↔ Spells s n ∧ IsLongLong n) ∧
      (∀ len n, 21 ≤ len → IsLongLong n → string2ll (ll2string len n) = some n) ∧
      (∀ len s n, 21 ≤ len → string2ll s = some n → ll2string len n = s) ∧
      ∀ v s, v ≤ ULLONG_MAX → string2llLoop v s =
        if appendDigits v (s.takeWhile isDigit) ≤ ULLONG_MAX then
          some (appendDigits v (s.takeWhile isDigit), s.dropWhile isDigit)
        else none := by
  refine ⟨string2ll_iff, fun len n hlen hn => ?_, fun len s n hlen h => ?_, fun v s hv => string2llLoop_eq v s hv⟩
  · rw [ll2string_eq hlen hn, string2ll_eq]
    exact string2ll_ll2string hn.1 hn.2
  · rw [string2ll_eq] at h
    obtain ⟨rfl, hrange⟩ := string2ll_inv h
    exact ll2string_eq hlen hrange

end RedisCluster.Util.Numbers
