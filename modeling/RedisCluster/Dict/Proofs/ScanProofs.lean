import RedisCluster.Dict.Proofs.RefinesProofs

/-!
# What a scan is sure to return

A call of `dictScan` passes the whole block of the cursor in the reversed order to the callback, as
far as it lies at or after the cursor. So a key that is there at every call is passed once the
cursor has gone over its place. While rehashing, the expansions in the larger table are tried in
numeric order from those of the cursor on; that covers the rest of the block only if the bits of the
cursor between the two masks are a run of ones from the lowest on (`ScanFits`).
-/

open scoped List

namespace RedisCluster

open RedisCluster.Lib

variable {K V : Type}

def swapBits (m : BitVec 64) (s : Nat) (v : BitVec 64) : BitVec 64 :=
  ((v >>> s) &&& m) ||| ((v <<< s) &&& ~~~m)

def swapPlace (s i : Nat) : Nat := if i / s % 2 = 0 then i + s else i - s

def SwapMask (m : BitVec 64) (s : Nat) : Prop :=
  ∀ i < 64, m.getLsbD i = decide (i / s % 2 = 0) ∧ swapPlace s i < 64

instance (m : BitVec 64) (s : Nat) : Decidable (SwapMask m s) :=
  inferInstanceAs (Decidable (∀ i < 64, m.getLsbD i = decide (i / s % 2 = 0) ∧ swapPlace s i < 64))

theorem swapBits_getLsbD {m : BitVec 64} {s : Nat} (hm : SwapMask m s) (v : BitVec 64) {i : Nat}
    (hi : i < 64) : (swapBits m s v).getLsbD i = v.getLsbD (swapPlace s i) := by
  obtain ⟨h1, h2⟩ := hm i hi
  simp only [swapBits, BitVec.getLsbD_or, BitVec.getLsbD_and, BitVec.getLsbD_not,
    BitVec.getLsbD_ushiftRight, BitVec.getLsbD_shiftLeft, h1, hi]
  by_cases hs : i / s % 2 = 0
  · simp [swapPlace, hs, Nat.add_comm]
  · have hle : ¬ i < s := by
      intro hlt
      rw [Nat.div_eq_of_lt hlt] at hs
      exact hs rfl
    simp [swapPlace, hs, hle]

theorem revStep_eq (m v : BitVec 64) (s : Nat) :
    revStep (m, v) s = (m ^^^ (m <<< s), swapBits (m ^^^ (m <<< s)) s v) := rfl

theorem rev_eq_swaps (v : BitVec 64) :
    rev v = swapBits 0x5555555555555555#64 1 (swapBits 0x3333333333333333#64 2
      (swapBits 0x0F0F0F0F0F0F0F0F#64 4 (swapBits 0x00FF00FF00FF00FF#64 8
        (swapBits 0x0000FFFF0000FFFF#64 16 (swapBits 0x00000000FFFFFFFF#64 32 v))))) := by
  simp only [rev, List.foldl_cons, List.foldl_nil, revStep_eq]
  rfl

theorem rev_eq_reverse (v : BitVec 64) : rev v = v.reverse := by
  apply BitVec.eq_of_getLsbD_eq
  intro i hi
  have hplace : ∀ i < 64, swapPlace 32 (swapPlace 16 (swapPlace 8 (swapPlace 4
      (swapPlace 2 (swapPlace 1 i))))) = 63 - i := by decide
  have h1 : SwapMask 0x5555555555555555#64 1 := by decide
  have h2 : SwapMask 0x3333333333333333#64 2 := by decide
  have h4 : SwapMask 0x0F0F0F0F0F0F0F0F#64 4 := by decide
  have h8 : SwapMask 0x00FF00FF00FF00FF#64 8 := by decide
  have h16 : SwapMask 0x0000FFFF0000FFFF#64 16 := by decide
  have h32 : SwapMask 0x00000000FFFFFFFF#64 32 := by decide
  have i1 := (h1 i hi).2
  have i2 := (h2 _ i1).2
  have i4 := (h4 _ i2).2
  have i8 := (h8 _ i4).2
  have i16 := (h16 _ i8).2
  rw [rev_eq_swaps, swapBits_getLsbD h1 _ hi, swapBits_getLsbD h2 _ i1, swapBits_getLsbD h4 _ i2,
    swapBits_getLsbD h8 _ i4, swapBits_getLsbD h16 _ i8, swapBits_getLsbD h32 _ i16, hplace i hi,
    BitVec.getLsbD_reverse, BitVec.getMsbD]
  simp [hi]

def keyCursor (hash : K → UInt32) (k : K) : BitVec 64 := BitVec.ofNat 64 (hash k).toNat

/-- The condition under which a call covers its block: while rehashing, the bits of the cursor
between the two masks are a run of ones from the lowest on (or all 0). -/
def ScanFits (d : Dict K V) (v : BitVec 64) : Prop :=
  dictIsRehashing d = true →
    (v.toNat % (scanTables d).2.size / (scanTables d).1.size + 1).isPowerOfTwo

section

variable {hash : K → UInt32} {d : Dict K V}

theorem Dictht.WF.bits {t : Dictht K V} (h : t.WF hash) (hs : 0 < t.size) :
    ∃ n ≤ 60, t.size = 2 ^ n ∧ t.mask64 = lowMask 64 n ∧
      ∀ k, t.bucketOf hash k = (keyCursor hash k).toNat % 2 ^ n := by
  rcases h.mask with ⟨h0, -⟩ | ⟨n, hn, hsize, hmask⟩
  · omega
  · refine ⟨n, hn, hsize, by rw [Dictht.mask64, hmask, lowMask], fun k => ?_⟩
    have hlt : (hash k).toNat < 2 ^ 64 := lt_trans (hash k).toNat_lt (by decide)
    rw [Dictht.bucketOf, hmask, Nat.and_two_pow_sub_one_eq_mod, keyCursor, BitVec.toNat_ofNat,
      Nat.mod_eq_of_lt hlt]

theorem nextCursor_eq_revNext (n : Nat) (v : BitVec 64) :
    nextCursor (lowMask 64 n) v = revNext n v := by
  rw [nextCursor, revNext, rev_eq_reverse, rev_eq_reverse]

theorem eq_or_add_le_of_mod_eq {p b c : Nat} (hcb : c ≤ b) (h : b % p = c % p) :
    b = c ∨ c + p ≤ b := by
  have hdvd : p ∣ b - c := Nat.dvd_of_mod_eq_zero (Nat.sub_mod_eq_zero_of_mod_eq h)
  rcases Nat.eq_zero_or_pos (b - c) with h0 | hpos
  · exact Or.inl (by omega)
  · have := Nat.le_of_dvd hpos hdvd
    exact Or.inr (by omega)

/-- The expansions from the one of the cursor on are all passed, in any case. The cursor that is
left has the same low bits, and the loop has ended by its own condition. -/
theorem scanExpansions_spec (t1 : Dictht K V) {n m : Nat} (hnm : n ≤ m) (hm : m ≤ 64) :
    ∀ (fuel : Nat) (v : BitVec 64), 2 ^ m ≤ fuel + v.toNat % 2 ^ m →
      let r := scanExpansions t1 (lowMask 64 n) (lowMask 64 m) fuel v
      r.2.toNat % 2 ^ n = v.toNat % 2 ^ n ∧
        r.2 &&& (lowMask 64 n ^^^ lowMask 64 m) = 0 ∧
        ∀ b, v.toNat % 2 ^ m ≤ b → b < 2 ^ m → b % 2 ^ n = v.toNat % 2 ^ n →
          ∀ e ∈ t1.table b, e ∈ r.1 := by
  intro fuel
  have hdvd : 2 ^ n ∣ 2 ^ m := Nat.pow_dvd_pow 2 hnm
  have hpn : 0 < 2 ^ n := Nat.two_pow_pos n
  induction fuel with
  | zero =>
    intro v hfuel
    have := Nat.mod_lt v.toNat (Nat.two_pow_pos m)
    omega
  | succ fuel ih =>
    intro v hfuel
    have hnext : (((v ||| lowMask 64 n) + 1) &&& ~~~ lowMask 64 n) ||| (v &&& lowMask 64 n) =
        nextExpansion n v := rfl
    have hlow : (nextExpansion n v).toNat % 2 ^ n = v.toNat % 2 ^ n := by
      rw [nextExpansion_mod (by omega) (by omega), Nat.add_mod_right]
    have hvm := Nat.mod_lt v.toNat (Nat.two_pow_pos m)
    have hvn : v.toNat % 2 ^ m % 2 ^ n = v.toNat % 2 ^ n := Nat.mod_mod_of_dvd _ hdvd
    have hplace : (nextExpansion n v).toNat % 2 ^ m = (v.toNat % 2 ^ m + 2 ^ n) % 2 ^ m := by
      rw [nextExpansion_mod (by omega) hm, Nat.mod_add_mod]
    simp only [scanExpansions, hnext, toNat_and_lowMask]
    by_cases hlast : 2 ^ m ≤ v.toNat % 2 ^ m + 2 ^ n
    · -- the high bits overflow: this was the last expansion
      have hpm : 2 ^ n ≤ 2 ^ m := Nat.le_of_dvd (Nat.two_pow_pos m) hdvd
      have hend : nextExpansion n v &&& (lowMask 64 n ^^^ lowMask 64 m) = 0 := by
        rw [and_between_eq_zero_iff hnm hm, hplace, Nat.mod_eq_sub_mod hlast,
          Nat.mod_eq_of_lt (by omega)]
        omega
      simp only [hend, if_true]
      refine ⟨hlow, trivial, fun b hb hbm hbn e he => ?_⟩
      rcases eq_or_add_le_of_mod_eq hb (hbn.trans hvn.symm) with rfl | hle
      · exact he
      · omega
    · have hmod : (nextExpansion n v).toNat % 2 ^ m = v.toNat % 2 ^ m + 2 ^ n := by
        rw [hplace, Nat.mod_eq_of_lt (by omega)]
      have hend : ¬ nextExpansion n v &&& (lowMask 64 n ^^^ lowMask 64 m) = 0 := by
        rw [and_between_eq_zero_iff hnm hm, hmod]
        omega
      obtain ⟨h1, h2, h3⟩ := ih (nextExpansion n v) (by omega)
      simp only [hend, if_false]
      refine ⟨h1.trans hlow, h2, fun b hb hbm hbn e he => ?_⟩
      rw [List.mem_append]
      rcases eq_or_add_le_of_mod_eq hb (hbn.trans hvn.symm) with rfl | hle
      · exact Or.inl he
      · exact Or.inr (h3 b (by omega) hbm (hbn.trans hlow.symm) e he)

theorem DictWF.scanTables_spec (h : DictWF hash d) (hr : dictIsRehashing d = true) :
    (scanTables d).1.WF hash ∧ (scanTables d).2.WF hash ∧ 0 < (scanTables d).1.size ∧
      (scanTables d).1.size ≤ (scanTables d).2.size ∧
      ∀ e ∈ d.entries, e ∈ (scanTables d).1.entries ∨ e ∈ (scanTables d).2.entries := by
  obtain ⟨-, h0, h1, -⟩ := h.active ((dictIsRehashing_iff d).mp hr)
  unfold scanTables
  by_cases hsize : d.ht0.size > d.ht1.size
  · rw [if_pos hsize]
    refine ⟨h.wf1, h.wf0, h1, le_of_lt hsize, fun e he => ?_⟩
    exact (List.mem_append.mp he).symm
  · rw [if_neg hsize]
    exact ⟨h.wf0, h.wf1, h0, Nat.le_of_not_lt hsize, fun e he => List.mem_append.mp he⟩

/-- The step lemma: a key that is there, at or after the cursor, is passed to the callback or is at
or after the next cursor, which is then not 0. -/
theorem dictScan_spec (h : DictWF hash d) {v : BitVec 64} (hfit : ScanFits d v) {e : DictEntry K V}
    (he : e ∈ d.entries) (hle : v.reverse.toNat ≤ (keyCursor hash e.key).reverse.toNat) :
    e ∈ (dictScan d v).1 ∨ ((dictScan d v).2 ≠ 0 ∧
      (dictScan d v).2.reverse.toNat ≤ (keyCursor hash e.key).reverse.toNat) := by
  have hsize : dictSize d ≠ 0 := by
    rw [h.size_eq]
    exact Nat.pos_iff_ne_zero.mp (List.length_pos_of_mem he)
  unfold dictScan
  rw [if_neg hsize]
  cases hr : dictIsRehashing d with
  | false =>
    have he0 : e ∈ d.ht0.entries := by
      rwa [Dict.entries, h.entries1_of_idle hr, List.append_nil] at he
    have hpos : 0 < d.ht0.size := by
      by_contra hz
      rw [h.wf0.entries_of_size_zero (by omega)] at he0
      exact List.not_mem_nil he0
    obtain ⟨n, hn, -, hmask, hbucket⟩ := h.wf0.bits hpos
    simp only [Bool.not_false, if_true, hmask, toNat_and_lowMask, nextCursor_eq_revNext]
    by_cases hsame : (keyCursor hash e.key).toNat % 2 ^ n = v.toNat % 2 ^ n
    · left
      rw [← hsame, ← hbucket]
      exact h.wf0.mem_bucket.mpr he0
    · exact Or.inr (revNext_le (by omega) hle hsame)
  | true =>
    obtain ⟨wf0, wf1, hpos, hsz, hmem⟩ := h.scanTables_spec hr
    have hfit' := hfit hr
    set t0 := (scanTables d).1
    set t1 := (scanTables d).2
    obtain ⟨n, hn, hsize0, hmask0, hbucket0⟩ := wf0.bits hpos
    obtain ⟨m, hm, hsize1, hmask1, hbucket1⟩ := wf1.bits (lt_of_lt_of_le hpos hsz)
    have hnm : n ≤ m := by
      rw [hsize0, hsize1] at hsz
      exact (Nat.pow_le_pow_iff_right (by omega)).mp hsz
    obtain ⟨hlow, -, hall⟩ := scanExpansions_spec t1 hnm (by omega) t1.size v (by omega)
    simp only [Bool.not_true, Bool.false_eq_true, if_false, hmask0, hmask1, toNat_and_lowMask,
      nextCursor_eq_revNext, revNext_congr (show n ≤ 64 by omega) hlow]
    by_cases hsame : (keyCursor hash e.key).toNat % 2 ^ n = v.toNat % 2 ^ n
    · left
      rw [List.mem_append]
      rcases hmem e he with he0 | he1
      · left
        rw [← hsame, ← hbucket0]
        exact wf0.mem_bucket.mpr he0
      · right
        have hplace : e ∈ t1.table ((keyCursor hash e.key).toNat % 2 ^ m) := by
          rw [← hbucket1]
          exact wf1.mem_bucket.mpr he1
        refine hall _ ?_ (Nat.mod_lt _ (Nat.two_pow_pos m)) ?_ e hplace
        · rw [hsize0, hsize1] at hfit'
          exact mod_le_of_reverse_le hnm (by omega) hsame hle hfit'
        · rw [Nat.mod_mod_of_dvd _ (Nat.pow_dvd_pow 2 hnm), hsame]
    · exact Or.inr (revNext_le (by omega) hle hsame)

def KeyPresent (k : K) (s : ScanRun K V) (_ : ScanAct K V) : Prop :=
  s.done = false → ∃ e ∈ s.run.dict.entries, e.key = k

/-- The invariant of a scan: the key has been passed to the callback, or the scan goes on and the
key is at or after the cursor. -/
def Covered (hash : K → UInt32) (k : K) (s : ScanRun K V) : Prop :=
  (∃ e ∈ s.passed, e.key = k) ∨
    (s.done = false ∧ s.cursor.reverse.toNat ≤ (keyCursor hash k).reverse.toNat)

theorem scanStart_covered (hash : K → UInt32) (k : K) (s : DictRun K V) :
    Covered hash k (scanStart s) := by
  refine Or.inr ⟨rfl, ?_⟩
  rw [scanStart, toNat_reverse_zero]
  exact Nat.zero_le _

variable [DecidableEq K]

def ScanStepFits (hash : K → UInt32) (s : ScanRun K V) : ScanAct K V → Prop
  | .op a => OpFits hash s.run a
  | .scan => s.done = false → ScanFits s.run.dict s.cursor

def DictInOrder (hash : K → UInt32) (s : DictRun K V) : Prop :=
  ∃ m, DictWF hash s.dict ∧ SamePairs s.dict m

theorem dictStep_inOrder {s : DictRun K V} (h : DictInOrder hash s) {a : Bool × DictOp K V}
    (hfit : OpFits hash s a) : DictInOrder hash (dictStep hash s a).1 := by
  obtain ⟨m, hm⟩ := h
  exact ⟨(mapStep m a).1, (dictStep_refines hm hfit).1⟩

theorem dictStart_inOrder (hash : K → UInt32) : DictInOrder hash (dictStart : DictRun K V) :=
  ⟨∅, dictCreate_wf hash, samePairs_create⟩

theorem scanStep_covered {k : K} {s : ScanRun K V} {a : ScanAct K V}
    (h : DictInOrder hash s.run ∧ Covered hash k s)
    (hok : ScanStepFits hash s a ∧ KeyPresent k s a) :
    DictInOrder hash (scanStep hash s a).run ∧ Covered hash k (scanStep hash s a) := by
  obtain ⟨hord, hcov⟩ := h
  obtain ⟨hfit, hpres⟩ := hok
  cases a with
  | op a => exact ⟨dictStep_inOrder hord hfit, hcov⟩
  | scan =>
    unfold scanStep
    cases hd : s.done with
    | true => exact ⟨hord, by simpa [hd] using hcov⟩
    | false =>
      refine ⟨hord, ?_⟩
      obtain ⟨m, hwf, -⟩ := hord
      rcases hcov with ⟨e, he, hek⟩ | ⟨-, hle⟩
      · exact Or.inl ⟨e, List.mem_append_left _ he, hek⟩
      · obtain ⟨e, he, rfl⟩ := hpres hd
        rcases dictScan_spec hwf (hfit hd) he hle with hpass | ⟨hne, hle'⟩
        · exact Or.inl ⟨e, List.mem_append_right _ hpass, rfl⟩
        · exact Or.inr ⟨by simpa using hne, hle'⟩

end

def scanOf [DecidableEq K] (hash : K → UInt32) (pre : List (Bool × DictOp K V))
    (acts : List (ScanAct K V)) : ScanRun K V :=
  run (scanStep hash) (scanStart (run (fun s a => (dictStep hash s a).1) dictStart pre)) acts

/-- A scan that has come back to cursor 0 has passed every key that was there from before its first
call until after its last one. -/
def ScanGuarantee [DecidableEq K] (hash : K → UInt32) (pre : List (Bool × DictOp K V))
    (acts : List (ScanAct K V)) : Prop :=
  ∀ k, RunMeets (scanStep hash) (KeyPresent k)
      (scanStart (run (fun s a => (dictStep hash s a).1) dictStart pre)) acts →
    (scanOf hash pre acts).done = true → ∃ e ∈ (scanOf hash pre acts).passed, e.key = k

end RedisCluster
