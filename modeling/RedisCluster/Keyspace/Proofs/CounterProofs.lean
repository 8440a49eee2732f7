import RedisCluster.Aof.Proofs.FormatProofs
import RedisCluster.Keyspace.Counters
import Mathlib.Data.List.TakeWhile

/-!
# Proofs: INCR and its siblings

The reader of numbers takes a decimal integer in the 64-bit range for what it is; it also takes the empty string
and what stands in front of a NUL byte. The check before the addition lets exactly the sums in the range through,
but DECRBY adds the opposite of its argument, and the smallest number is its own opposite.
-/

namespace RedisCluster.Keyspace.Counters

open RedisCluster.Util

theorem strtoll_sign {sign ds : Bytes} (hsign : sign = [45] ∨ sign = [43] ∨ sign = []) (hds : ds ≠ [])
    (hdigits : ∀ d ∈ ds, isDigit d = true) :
    Aof.strtoll (sign ++ ds) =
        Aof.clampLongLong (if sign = [45] then -(Aof.digitsValue ds : Int) else Aof.digitsValue ds) [] ∧
      isspace ((sign ++ ds).headD 0) = false := by
  obtain ⟨c, cs, rfl⟩ := List.exists_cons_of_ne_nil hds
  have hc := Aof.digit_plain (hdigits c List.mem_cons_self)
  have htake : (c :: cs).takeWhile isDigit = c :: cs := List.takeWhile_eq_self_iff.mpr hdigits
  have hdrop : (c :: cs).dropWhile isDigit = [] := List.dropWhile_eq_nil_iff.mpr hdigits
  have hdigit : (c :: cs).dropWhile isspace = c :: cs :=
    List.dropWhile_cons_of_neg (by rw [hc.1]; exact Bool.false_ne_true)
  have hplain : ¬ (some c = some 45 ∨ some c = some 43) := by
    rintro (h | h)
    · exact hc.2.1 (Option.some.inj h)
    · exact hc.2.2 (Option.some.inj h)
  rcases hsign with rfl | rfl | rfl
  · refine ⟨?_, rfl⟩
    have hstart : ([45] ++ c :: cs : Bytes).dropWhile isspace = 45 :: c :: cs :=
      List.dropWhile_cons_of_neg (by decide)
    unfold Aof.strtoll
    simp only [hstart, List.head?_cons, true_or, if_true, List.tail_cons, htake, hdrop, if_neg (List.cons_ne_nil c cs)]
  · refine ⟨?_, rfl⟩
    have hstart : ([43] ++ c :: cs : Bytes).dropWhile isspace = 43 :: c :: cs :=
      List.dropWhile_cons_of_neg (by decide)
    unfold Aof.strtoll
    simp only [hstart, List.head?_cons, or_true, if_true, List.tail_cons, htake, hdrop, if_neg (List.cons_ne_nil c cs)]
    rfl
  · refine ⟨?_, hc.1⟩
    have hminus : ¬ (some c = some 45) := fun h => hplain (Or.inl h)
    unfold Aof.strtoll
    simp only [List.nil_append, hdigit, List.head?_cons, if_neg hplain, if_neg hminus, htake, hdrop,
      if_neg (List.cons_ne_nil c cs)]
    rfl

theorem clamp_value {n m : Int} {rest : Bytes} (h : (Aof.clampLongLong n rest).erange = false)
    (hm : (Aof.clampLongLong n rest).value = m) : n = m ∧ Numbers.IsLongLong n := by
  unfold Aof.clampLongLong at h hm
  by_cases hlow : n < -(2 ^ 63)
  · rw [if_pos hlow] at h
    cases h
  · by_cases hhigh : n ≥ 2 ^ 63
    · rw [if_neg hlow, if_pos hhigh] at h
      cases h
    · rw [if_neg hlow, if_neg hhigh] at hm
      exact ⟨hm, not_lt.mp hlow, not_le.mp hhigh⟩

theorem eptr_clamp (n : Int) (rest : Bytes) : (Aof.clampLongLong n rest).eptr = rest := by
  unfold Aof.clampLongLong
  split
  · rfl
  · split
    · rfl
    · rfl

theorem Decimal.read {s : Bytes} {n : Int} (h : Decimal s n) : Aof.getLongLongFromObject s = some n ∧ Whole s := by
  obtain ⟨hn, sign, ds, rfl, hds, hdigits, hvalue⟩ := h
  have hsign : sign = [45] ∨ sign = [43] ∨ sign = [] := by
    rcases hvalue with ⟨h, -⟩ | ⟨h | h, -⟩
    · exact Or.inl h
    · exact Or.inr (Or.inr h)
    · exact Or.inr (Or.inl h)
  obtain ⟨hread, hspace⟩ := strtoll_sign hsign hds hdigits
  have hnumber : (if sign = [45] then -(Aof.digitsValue ds : Int) else Aof.digitsValue ds) = n := by
    rcases hvalue with ⟨h, hn⟩ | ⟨h | h, hn⟩
    · rw [if_pos h, hn]
    · rw [if_neg (by rw [h]; decide), hn]
    · rw [if_neg (by rw [h]; decide), hn]
  refine ⟨?_, ?_, ?_⟩
  · rw [hnumber, Aof.clamp_fits hn.1 hn.2] at hread
    unfold Aof.getLongLongFromObject
    rw [hread, hspace]
    rfl
  · exact fun h => hds (List.append_eq_nil_iff.mp h).2
  · intro h
    rcases List.mem_append.mp h with h | h
    · rcases hsign with rfl | rfl | rfl
      · exact absurd h (by decide)
      · exact absurd h (by decide)
      · exact absurd h List.not_mem_nil
    · exact absurd (hdigits 0 h) (by decide)

theorem eq_nil_of_headD {s t : Bytes} (hs : 0 ∉ s) (ht : t <:+ s) (h : t.headD 0 = 0) : t = [] := by
  cases t with
  | nil => rfl
  | cons c t =>
    have hc : c = 0 := h
    exact absurd (ht.subset (by rw [hc]; exact List.mem_cons_self)) hs

theorem decimal_of_read {s : Bytes} {n : Int} (hread : Aof.getLongLongFromObject s = some n) (hs : Whole s) :
    Decimal s n := by
  obtain ⟨hne, hnul⟩ := hs
  unfold Aof.getLongLongFromObject at hread
  by_cases hbad : isspace (s.headD 0) = true ∨ (Aof.strtoll s).eptr.headD 0 ≠ 0 ∨ (Aof.strtoll s).erange = true
  · rw [if_pos hbad] at hread
    cases hread
  rw [if_neg hbad] at hread
  have hvalue := Option.some.inj hread
  have hspace : isspace (s.headD 0) = false := eq_false_of_ne_true fun h => hbad (Or.inl h)
  have hend : (Aof.strtoll s).eptr.headD 0 = 0 := not_not.mp fun h => hbad (Or.inr (Or.inl h))
  have hrange : (Aof.strtoll s).erange = false := eq_false_of_ne_true fun h => hbad (Or.inr (Or.inr h))
  have hstart : s.dropWhile isspace = s := by
    obtain ⟨c, cs, rfl⟩ := List.exists_cons_of_ne_nil hne
    exact List.dropWhile_cons_of_neg (by rw [show isspace c = false from hspace]; exact Bool.false_ne_true)
  unfold Aof.strtoll at hvalue hend hrange
  dsimp only at hvalue hend hrange
  rw [hstart] at hvalue hend hrange
  generalize hu : (if s.head? = some 45 ∨ s.head? = some 43 then s.tail else s) = u at hvalue hend hrange
  have husuffix : u <:+ s := by
    rw [← hu]
    split
    · exact List.tail_suffix s
    · exact List.suffix_refl s
  by_cases hds : u.takeWhile isDigit = []
  · rw [if_pos hds] at hend
    exact absurd (eq_nil_of_headD hnul (List.suffix_refl s) hend) hne
  rw [if_neg hds] at hvalue hend hrange
  rw [eptr_clamp] at hend
  have hall := eq_nil_of_headD hnul ((List.dropWhile_suffix isDigit).trans husuffix) hend
  have hdigits : ∀ d ∈ u, isDigit d = true := List.dropWhile_eq_nil_iff.mp hall
  have htake : u.takeWhile isDigit = u := List.takeWhile_eq_self_iff.mpr hdigits
  rw [htake] at hds
  rw [htake, hall] at hvalue hrange
  obtain ⟨hnumber, hfits⟩ := clamp_value hrange hvalue
  rw [hnumber] at hfits
  refine ⟨hfits, ?_⟩
  obtain ⟨c, cs, rfl⟩ := List.exists_cons_of_ne_nil hne
  rw [List.head?_cons] at hu hnumber
  by_cases hminus : c = 45
  · rw [if_pos (Or.inl (congrArg some hminus))] at hu
    rw [if_pos (congrArg some hminus)] at hnumber
    exact ⟨[45], u, by rw [← hu, hminus]; rfl, hds, hdigits, Or.inl ⟨rfl, hnumber.symm⟩⟩
  rw [if_neg fun h => hminus (Option.some.inj h)] at hnumber
  by_cases hplus : c = 43
  · rw [if_pos (Or.inr (congrArg some hplus))] at hu
    exact ⟨[43], u, by rw [← hu, hplus]; rfl, hds, hdigits, Or.inr ⟨Or.inr rfl, hnumber.symm⟩⟩
  · have hplain : ¬ (some c = some 45 ∨ some c = some 43) := by
      rintro (h | h)
      · exact hminus (Option.some.inj h)
      · exact hplus (Option.some.inj h)
    rw [if_neg hplain] at hu
    exact ⟨[], u, by rw [← hu]; rfl, hds, hdigits, Or.inr ⟨Or.inl rfl, hnumber.symm⟩⟩

theorem decimal_iff {s : Bytes} {n : Int} : Decimal s n ↔ Aof.getLongLongFromObject s = some n ∧ Whole s :=
  ⟨Decimal.read, fun h => decimal_of_read h.1 h.2⟩

theorem whole_ll2string (n : Int) : Whole (ll2string n) := by
  unfold Whole ll2string
  split
  · refine ⟨List.cons_ne_nil _ _, fun h => ?_⟩
    rcases List.mem_cons.mp h with h | h
    · exact absurd h (by decide)
    · exact notMem_decimal (by decide) _ h
  · exact ⟨Aof.decimal_ne_nil _, notMem_decimal (by decide) _⟩

theorem counts_iff {current : Option StringObject} {n : Int} :
    Counts current n ↔
      getLongLongFromObject current = some n ∧ ∀ s, current = some (.sds s) → Whole s := by
  cases current with
  | none =>
    constructor
    · rintro rfl
      exact ⟨rfl, fun s h => nomatch h⟩
    · intro h
      exact (Option.some.inj h.1).symm
  | some o =>
    cases o with
    | sds s =>
      rw [show Counts (some (.sds s)) n ↔ Decimal s n from Iff.rfl, decimal_iff]
      refine and_congr_right fun _ => ⟨?_, fun h => h s rfl⟩
      rintro hs _ h
      cases h
      exact hs
    | int m =>
      have hread := Aof.getLongLong_ll2string m.2.1 m.2.2
      constructor
      · intro h
        have hn := (Decimal.read h).1
        rw [StringObject.bytes, hread] at hn
        exact ⟨hn, fun s h => nomatch h⟩
      · rintro ⟨h, -⟩
        cases h
        exact decimal_of_read hread (whole_ll2string m)

theorem longLong_strtoll (s : Bytes) : Numbers.IsLongLong (Aof.strtoll s).value := by
  have hclamp (n : Int) (rest : Bytes) : Numbers.IsLongLong (Aof.clampLongLong n rest).value := by
    unfold Aof.clampLongLong Numbers.IsLongLong
    split
    · dsimp only
      omega
    · split
      · dsimp only
        omega
      · dsimp only
        omega
  unfold Aof.strtoll
  extract_lets t u ds
  split
  · show Numbers.IsLongLong 0
    exact ⟨by decide, by decide⟩
  · exact hclamp _ _

theorem longLong_of_read {s : Bytes} {n : Int} (h : Aof.getLongLongFromObject s = some n) : Numbers.IsLongLong n := by
  rw [← Aof.strtoll_of_getLongLong h]
  exact longLong_strtoll s

theorem longLong_current {current : Option StringObject} {n : Int} (h : getLongLongFromObject current = some n) :
    Numbers.IsLongLong n := by
  cases current with
  | none =>
    cases h
    exact ⟨by decide, by decide⟩
  | some o =>
    cases o with
    | sds s => exact longLong_of_read h
    | int m =>
      cases h
      exact m.2

theorem wrap_of_longLong {n : Int} (h : Numbers.IsLongLong n) : (wrap n).val = n := by
  have hmin : -(2 ^ 64 / 2 : Int) ≤ n := le_trans (by decide) h.1
  exact Int.bmod_eq_of_le hmin (lt_of_lt_of_le h.2 (by decide))

theorem wrap_neg {n : Int} (h : Numbers.IsLongLong n) :
    (wrap (-n)).val = if n = -(2 ^ 63) then -(2 ^ 63) else -n := by
  by_cases hn : n = -(2 ^ 63)
  · rw [if_pos hn, hn]
    decide
  · rw [if_neg hn]
    refine wrap_of_longLong ⟨?_, ?_⟩
    · have := h.2
      omega
    · have := h.1
      omega

theorem wouldOverflow_eq_false {a b : Int} (ha : Numbers.IsLongLong a) (hb : Numbers.IsLongLong b) :
    wouldOverflow a b = false ↔ Numbers.IsLongLong (a + b) := by
  obtain ⟨ha, ha'⟩ := ha
  obtain ⟨hb, hb'⟩ := hb
  unfold wouldOverflow Numbers.IsLongLong
  rw [decide_eq_false_iff_not]
  omega

/-- What all five commands do once the amount is read and the counter is found. -/
structure Adds (db : Db Value) (current : Option StringObject) (amount : Option Int) (minus : Bool)
    (stored : LongLong → Db Value) (out : Outcome) : Prop where
  noAmount : amount = none → Refused db out
  noNumber : getLongLongFromObject current = none → Refused db out
  overflows : ∀ old incr, getLongLongFromObject current = some old → amount = some incr →
    wouldOverflow old (addend minus incr) = true → Refused db out
  adds : ∀ old incr, getLongLongFromObject current = some old → amount = some incr →
    wouldOverflow old (addend minus incr) = false →
      out = { db := stored (wrap (old + addend minus incr)),
              reply := .integer (wrap (old + addend minus incr)), dirty := 1 }

variable {db : Db Value} {current : Option StringObject} {amount : Option Int} {minus : Bool}
  {stored : LongLong → Db Value} {out : Outcome}

theorem Refused.not_stored {new : LongLong} {db' : Db Value} {n : Nat}
    (h : Refused db { db := db', reply := .integer new, dirty := n }) : False := by
  obtain ⟨text, heq⟩ := h
  cases heq

theorem add_addend {incr : Int} (h : Numbers.IsLongLong incr) (hmin : ¬ (minus = true ∧ incr = -(2 ^ 63)))
    (old : Int) : old + addend minus incr = if minus then old - incr else old + incr := by
  unfold addend
  cases minus with
  | false => rfl
  | true =>
    rw [if_pos rfl, if_pos rfl, wrap_neg h, if_neg fun hincr => hmin ⟨rfl, hincr⟩]
    omega

theorem longLong_addend {incr : Int} (h : Numbers.IsLongLong incr) (minus : Bool) :
    Numbers.IsLongLong (addend minus incr) := by
  unfold addend
  split
  · exact (wrap (-incr)).2
  · exact h

theorem Adds.exact_iff (h : Adds db current amount minus stored out) {Amount : Int → Prop} {WholeAmount : Prop}
    (hAmount : ∀ n, Amount n ↔ amount = some n ∧ WholeAmount)
    (hlong : ∀ n, amount = some n → Numbers.IsLongLong n) :
    CounterExact db current Amount minus stored out ↔ CounterFits current amount WholeAmount minus := by
  constructor
  · intro hexact old incr hold hincr hfree
    have hout := h.adds old incr hold hincr hfree
    rcases hexact with hrefused | ⟨old', incr', new, hcounts, hamount, hnew, heq⟩
    · rw [hout] at hrefused
      exact hrefused.not_stored.elim
    · obtain ⟨hold', hwhole⟩ := counts_iff.mp hcounts
      obtain ⟨hincr', hwholeAmount⟩ := (hAmount incr').mp hamount
      obtain rfl : old' = old := Option.some.inj (hold'.symm.trans hold)
      obtain rfl : incr' = incr := Option.some.inj (hincr'.symm.trans hincr)
      refine ⟨hwhole, hwholeAmount, ?_⟩
      -- a counter below 0 is refused here, and above it the sum is no number of 64 bits
      rintro ⟨rfl, rfl⟩
      rw [if_pos rfl] at hnew
      have hsmallest : addend true (-(2 ^ 63)) = -(2 ^ 63) := by decide
      rw [hsmallest, wouldOverflow_eq_false (longLong_current hold) ⟨by decide, by decide⟩] at hfree
      have hmin := hfree.1
      have hmax := new.2.2
      rw [hnew] at hmax
      omega
  · intro hfits
    cases hincr : amount with
    | none => exact Or.inl (h.noAmount hincr)
    | some incr =>
      cases hold : getLongLongFromObject current with
      | none => exact Or.inl (h.noNumber hold)
      | some old =>
        cases hfree : wouldOverflow old (addend minus incr) with
        | true => exact Or.inl (h.overflows old incr hold hincr hfree)
        | false =>
          obtain ⟨hwhole, hwholeAmount, hmin⟩ := hfits old incr hold hincr hfree
          have hrange := (wouldOverflow_eq_false (longLong_current hold) (longLong_addend (hlong incr hincr) minus)).mp hfree
          refine Or.inr ⟨old, incr, _, counts_iff.mpr ⟨hold, hwhole⟩, (hAmount incr).mpr ⟨hincr, hwholeAmount⟩, ?_,
            h.adds old incr hold hincr hfree⟩
          rw [wrap_of_longLong hrange]
          exact add_addend (hlong incr hincr) hmin old

theorem dbOverwrite_eq {key : Bytes} {v : Value} (h : lookupKey db key = some v) (val : Value) :
    dbOverwrite db key val = putValue db key val := by
  obtain ⟨e, he, -⟩ := Option.map_eq_some_iff.mp h
  unfold dbOverwrite putValue
  rw [he]
  rfl

theorem dbAdd_eq {key : Bytes} (h : lookupKey db key = none) (val : Value) :
    dbAdd db key val = putValue db key val := by
  unfold dbAdd putValue
  rw [Option.map_eq_none_iff.mp h]
  rfl

theorem putValue_add (db : Db Value) {key : Bytes} (h : lookupKey db key = none) (val val' : Value) :
    dbOverwrite (dbAdd db key val) key val' = putValue db key val' := by
  unfold dbOverwrite dbAdd putValue
  dsimp only
  rw [Function.update_self, Function.update_idem, Option.map_eq_none_iff.mp h]
  rfl

theorem incrDecr_other {key : Bytes} (h : stringAt db key = none) (incr : Int) :
    Refused db (incrDecrCommand db key incr) := by
  unfold stringAt at h
  unfold incrDecrCommand
  cases hlooked : lookupKey db key with
  | none =>
    rw [hlooked] at h
    cases h
  | some v =>
    cases v with
    | string o =>
      rw [hlooked] at h
      cases h
    | hash f => exact ⟨_, rfl⟩
    | other => exact ⟨_, rfl⟩

theorem incrDecr_refuses {key : Bytes} {o : Option StringObject} (h : stringAt db key = some o)
    (ho : getLongLongFromObject o = none) (incr : Int) : Refused db (incrDecrCommand db key incr) := by
  unfold stringAt at h
  unfold incrDecrCommand
  cases hlooked : lookupKey db key with
  | none =>
    rw [hlooked] at h
    cases h
    cases ho
  | some v =>
    cases v with
    | string o' =>
      rw [hlooked] at h
      cases h
      dsimp only
      rw [ho]
      exact ⟨_, rfl⟩
    | hash f => exact ⟨_, rfl⟩
    | other => exact ⟨_, rfl⟩

theorem incrDecr_stores {key : Bytes} {o : Option StringObject} (h : stringAt db key = some o) {old : Int}
    (ho : getLongLongFromObject o = some old) (incr : Int) :
    incrDecrCommand db key incr =
      if wouldOverflow old incr then answer db overflow
      else { db := putValue db key (.string (.int (wrap (old + incr)))), reply := .integer (wrap (old + incr)),
             dirty := 1 } := by
  unfold stringAt at h
  unfold incrDecrCommand
  cases hlooked : lookupKey db key with
  | none =>
    rw [hlooked] at h
    cases h
    cases ho
    dsimp only [storeCounter]
    rw [← dbAdd_eq hlooked]
    rfl
  | some v =>
    cases v with
    | string o' =>
      rw [hlooked] at h
      cases h
      dsimp only
      rw [ho, ← dbOverwrite_eq hlooked]
      rfl
    | hash f =>
      rw [hlooked] at h
      cases h
    | other =>
      rw [hlooked] at h
      cases h

theorem adds_incrDecr {key : Bytes}
    (h : (stringAt db key).map (fun o => (o, fun new => putValue db key (.string (.int new)))) = some (current, stored))
    (hnone : amount = none → Refused db out)
    (hsome : ∀ incr, amount = some incr → out = incrDecrCommand db key (addend minus incr)) :
    Adds db current amount minus stored out := by
  obtain ⟨o, ho, heq⟩ := Option.map_eq_some_iff.mp h
  cases heq
  refine ⟨hnone, fun hread => ?_, fun old incr hold hincr hover => ?_, fun old incr hold hincr hfree => ?_⟩
  · cases hamount : amount with
    | none => exact hnone hamount
    | some incr =>
      rw [hsome incr hamount]
      exact incrDecr_refuses ho hread _
  · rw [hsome incr hincr, incrDecr_stores ho hold, if_pos hover]
    exact ⟨_, rfl⟩
  · rw [hsome incr hincr, incrDecr_stores ho hold, if_neg (by rw [hfree]; exact Bool.false_ne_true)]

theorem storeField_stores {key : Bytes} {f : Bytes → Option StringObject} {field : Bytes} {db' : Db Value}
    (hput : ∀ val, dbOverwrite db' key val = putValue db key val) {old : Int}
    (hold : getLongLongFromObject (f field) = some old) {incr : Int} (hfree : wouldOverflow old incr = false) :
    storeField db' key f field incr =
      { db := putValue db key (.hash (Function.update f field (some (.int (wrap (old + incr)))))),
        reply := .integer (wrap (old + incr)), dirty := 1 } := by
  unfold storeField
  rw [hold]
  dsimp only
  rw [if_neg (by rw [hfree]; exact Bool.false_ne_true), ← hput]
  rfl

theorem wouldOverflow_zero (incr : Int) : wouldOverflow 0 incr = false := by
  unfold wouldOverflow
  rw [decide_eq_false_iff_not]
  omega

theorem adds_hincrby {key field arg : Bytes}
    (htarget : (hashAt db key).map (fun f =>
      (f field, fun new => putValue db key (.hash (Function.update f field (some (.int new)))))) =
        some (current, stored)) :
    Adds db current (Aof.getLongLongFromObject arg) false stored (hincrbyCommand db key field arg) := by
  obtain ⟨f, h, heq⟩ := Option.map_eq_some_iff.mp htarget
  cases heq
  unfold hashAt at h
  unfold hincrbyCommand
  cases hamount : Aof.getLongLongFromObject arg with
  | none => exact ⟨fun _ => ⟨_, rfl⟩, fun _ => ⟨_, rfl⟩, nofun, nofun⟩
  | some incr =>
    dsimp only
    cases hlooked : lookupKey db key with
    | none =>
      rw [hlooked] at h
      obtain rfl : (fun _ => none) = f := Option.some.inj h
      refine ⟨nofun, nofun, ?_, ?_⟩
      · intro old incr' hold _ hover
        cases hold
        rw [wouldOverflow_zero] at hover
        cases hover
      · intro old incr' hold hincr' hfree
        cases hincr'
        exact storeField_stores (putValue_add db hlooked _) hold hfree
    | some v =>
      cases v with
      | string o =>
        rw [hlooked] at h
        cases h
      | other =>
        rw [hlooked] at h
        cases h
      | hash f' =>
        rw [hlooked] at h
        obtain rfl : f' = f := Option.some.inj h
        refine ⟨nofun, ?_, ?_, ?_⟩
        · intro hnone
          dsimp only [storeField]
          rw [hnone]
          exact ⟨_, rfl⟩
        · intro old incr' hold hincr' hover
          cases hincr'
          have hover : wouldOverflow old incr = true := hover
          dsimp only [storeField]
          rw [hold]
          dsimp only
          rw [if_pos hover]
          exact ⟨_, rfl⟩
        · intro old incr' hold hincr' hfree
          cases hincr'
          exact storeField_stores (dbOverwrite_eq hlooked) hold hfree

theorem hincrby_other {key field arg : Bytes} (h : hashAt db key = none) :
    Refused db (hincrbyCommand db key field arg) := by
  unfold hashAt at h
  unfold hincrbyCommand
  cases Aof.getLongLongFromObject arg with
  | none => exact ⟨_, rfl⟩
  | some incr =>
    dsimp only
    cases hlooked : lookupKey db key with
    | none =>
      rw [hlooked] at h
      cases h
    | some v =>
      cases v with
      | string o => exact ⟨_, rfl⟩
      | other => exact ⟨_, rfl⟩
      | hash f =>
        rw [hlooked] at h
        cases h

def Command.readAmount (c : Command) : Option Int :=
  match c.amount with
  | none => some 1
  | some arg => Aof.getLongLongFromObject arg

theorem Command.refused {c : Command} (h : c.target db = none) : Refused db (c.run db) := by
  cases c with
  | incr key => exact incrDecr_other (Option.map_eq_none_iff.mp h) 1
  | decr key => exact incrDecr_other (Option.map_eq_none_iff.mp h) (-1)
  | incrby key arg =>
    show Refused db (incrbyCommand db key arg)
    unfold incrbyCommand
    cases Aof.getLongLongFromObject arg with
    | none => exact ⟨_, rfl⟩
    | some incr => exact incrDecr_other (Option.map_eq_none_iff.mp h) incr
  | decrby key arg =>
    show Refused db (decrbyCommand db key arg)
    unfold decrbyCommand
    cases Aof.getLongLongFromObject arg with
    | none => exact ⟨_, rfl⟩
    | some incr => exact incrDecr_other (Option.map_eq_none_iff.mp h) (wrap (-incr))
  | hincrby key field arg => exact hincrby_other (Option.map_eq_none_iff.mp h)

theorem Command.adds {c : Command} {o : Option StringObject} {stored : LongLong → Db Value}
    (h : c.target db = some (o, stored)) : Adds db o c.readAmount c.minus stored (c.run db) := by
  cases c with
  | incr key =>
    refine adds_incrDecr h (fun h => nomatch h) fun incr hincr => ?_
    cases hincr
    rfl
  | decr key =>
    refine adds_incrDecr h (fun h => nomatch h) fun incr hincr => ?_
    cases hincr
    rfl
  | incrby key arg =>
    refine adds_incrDecr h (fun hnone => ?_) fun incr hincr => ?_
    · have hnone : Aof.getLongLongFromObject arg = none := hnone
      show Refused db (incrbyCommand db key arg)
      unfold incrbyCommand
      rw [hnone]
      exact ⟨_, rfl⟩
    · have hincr : Aof.getLongLongFromObject arg = some incr := hincr
      show incrbyCommand db key arg = _
      unfold incrbyCommand
      rw [hincr]
      rfl
  | decrby key arg =>
    refine adds_incrDecr h (fun hnone => ?_) fun incr hincr => ?_
    · have hnone : Aof.getLongLongFromObject arg = none := hnone
      show Refused db (decrbyCommand db key arg)
      unfold decrbyCommand
      rw [hnone]
      exact ⟨_, rfl⟩
    · have hincr : Aof.getLongLongFromObject arg = some incr := hincr
      show decrbyCommand db key arg = _
      unfold decrbyCommand
      rw [hincr]
      rfl
  | hincrby key field arg => exact adds_hincrby h

theorem Command.exact_target {c : Command} {o : Option StringObject} {stored : LongLong → Db Value}
    (htarget : c.target db = some (o, stored)) :
    c.Exact db ↔ CounterFits o c.readAmount (∀ arg, c.amount = some arg → Whole arg) c.minus := by
  unfold Command.Exact
  rw [htarget]
  refine (Command.adds htarget).exact_iff (fun n => ?_) fun n hn => ?_
  · unfold Command.readAmount
    cases c.amount with
    | none => exact ⟨fun h => ⟨congrArg some h.symm, nofun⟩, fun h => (Option.some.inj h.1).symm⟩
    | some arg =>
      dsimp only
      rw [decimal_iff]
      refine and_congr_right fun _ => ⟨?_, fun h => h arg rfl⟩
      rintro h _ heq
      cases heq
      exact h
  · unfold Command.readAmount at hn
    cases hamount : c.amount with
    | none =>
      rw [hamount] at hn
      cases hn
      exact ⟨by decide, by decide⟩
    | some arg =>
      rw [hamount] at hn
      exact longLong_of_read hn

/-- A counter command replies an error and changes nothing, or it stores and replies the exact sum of two decimal
integers, if and only if no string without the form of a number was read as one, and no opposite was missing. -/
theorem counters_exact_iff (db : Db Value) (c : Command) : c.Exact db ↔ c.Fits db := by
  unfold Command.Fits
  cases htarget : c.target db with
  | none =>
    unfold Command.Exact
    rw [htarget]
    exact iff_of_true (Command.refused htarget) fun _ _ h => nomatch h
  | some t =>
    obtain ⟨o, stored⟩ := t
    rw [Command.exact_target htarget]
    constructor
    · intro hfits _ _ h
      cases h
      exact hfits
    · intro hfits
      exact hfits o stored rfl

def smallestText : Bytes := ascii "-9223372036854775808"

/-- DECRBY with the smallest number has no result in the range on a key that is not there. INCR takes a value that
ends in a NUL byte and a letter, and INCRBY an empty argument. -/
theorem counters_inexact :
    ¬ (Command.decrby [107] smallestText).Exact emptyDb ∧
      ¬ (Command.incr [107]).Exact (dbAdd emptyDb [107] (.string (.sds [49, 0, 97]))) ∧
        ¬ (Command.incrby [107] []).Exact emptyDb := by
  refine ⟨fun h => ?_, fun h => ?_, fun h => ?_⟩
  · have hfits := (Command.exact_target rfl).mp h
    have hread : Aof.getLongLongFromObject smallestText = some (-(2 ^ 63)) := by decide
    exact (hfits 0 (-(2 ^ 63)) rfl hread (by decide)).2.2 ⟨rfl, rfl⟩
  · have hfits := (Command.exact_target rfl).mp h
    exact ((hfits 1 1 (by decide) rfl (by decide)).1 _ rfl).2 (by decide)
  · have hfits := (Command.exact_target rfl).mp h
    exact ((hfits 0 0 rfl (by decide) (by decide)).2.1 [] rfl).1 rfl

end RedisCluster.Keyspace.Counters
