import RedisCluster.Multi.KeyPositions

/-!
# Proofs: the positions of the keys of a command

The rows of the table agree with what their commands take for keys (`table_fits`) but for those that
`Agrees` names, so the extraction is right for each kind of row.
-/

namespace RedisCluster.Multi.KeyPositions

theorem tableLoop_keys (first : Nat) {argc keystep : Nat} {last : Int} (hstep : 0 < keystep)
    (hlast : last < argc) (rounds j : Nat) (keys : List Nat) (hrounds : argc < rounds + j)
    (hkeys : first + keys.length ≤ j) :
    ∃ ks, tableLoop argc keystep last (last - first + 1) rounds j keys = .keys ks ∧
      ∀ i, i ∈ ks ↔ i ∈ keys ∨ ∃ k, i = j + k * keystep ∧ (i : Int) ≤ last := by
  induction rounds generalizing j keys with
  | zero =>
    refine ⟨keys, rfl, fun i => ⟨Or.inl, ?_⟩⟩
    rintro (h | ⟨k, hi, hle⟩)
    · exact h
    · have hj : j ≤ i := by rw [hi]; exact Nat.le_add_right _ _
      omega
  | succ rounds ih =>
    unfold tableLoop
    split
    · rename_i hle
      rw [if_neg (by omega), if_neg (by omega)]
      have hlen : first + (keys ++ [j]).length ≤ j + keystep := by
        rw [List.length_append, List.length_singleton]
        omega
      obtain ⟨ks, hrun, hmem⟩ := ih (j + keystep) (keys ++ [j]) (by omega) hlen
      refine ⟨ks, hrun, fun i => ?_⟩
      rw [hmem, List.mem_append, List.mem_singleton]
      constructor
      · rintro ((h | rfl) | ⟨k, hi, hi'⟩)
        · exact Or.inl h
        · exact Or.inr ⟨0, by omega, hle⟩
        · exact Or.inr ⟨k + 1, by rw [hi, Nat.succ_mul]; omega, hi'⟩
      · rintro (h | ⟨k, hi, hi'⟩)
        · exact Or.inl (Or.inl h)
        · cases k with
          | zero => exact Or.inl (Or.inr (by omega))
          | succ k => exact Or.inr ⟨k, by rw [hi, Nat.succ_mul]; omega, hi'⟩
    · rename_i hgt
      refine ⟨keys, rfl, fun i => ⟨Or.inl, ?_⟩⟩
      rintro (h | ⟨k, hi, hle⟩)
      · exact h
      · have hj : j ≤ i := by rw [hi]; exact Nat.le_add_right _ _
        omega

theorem tableKeys {firstkey keystep : Nat} (argc : Nat) (lastkey last : Int)
    (hfirst : 0 < firstkey) (hstep : 0 < keystep)
    (hlast : last = if lastkey < 0 then argc + lastkey else lastkey) (hrange : firstkey ≤ last + 1)
    (hargc : last < argc) :
    ∃ ks, getKeysUsingCommandTable firstkey lastkey keystep argc = .keys ks ∧
      ∀ i, i ∈ ks ↔ ∃ k, i = firstkey + k * keystep ∧ (i : Int) ≤ last := by
  obtain ⟨ks, hrun, hmem⟩ := tableLoop_keys firstkey hstep hargc (argc + 1) firstkey []
    (by omega) (Nat.le_refl _)
  refine ⟨ks, ?_, fun i => (hmem i).trans (or_iff_right List.not_mem_nil)⟩
  unfold getKeysUsingCommandTable zmalloc
  dsimp only
  rw [if_neg (by omega), ← hlast, if_neg (by omega)]
  exact hrun

theorem tableKeys_one {firstkey : Nat} (argc : Nat) (lastkey last : Int)
    (hfirst : 0 < firstkey) (hlast : last = if lastkey < 0 then argc + lastkey else lastkey)
    (hrange : firstkey ≤ last + 1) (hargc : last < argc) :
    ∃ ks, getKeysUsingCommandTable firstkey lastkey 1 argc = .keys ks ∧
      ∀ i, i ∈ ks ↔ firstkey ≤ i ∧ (i : Int) ≤ last := by
  obtain ⟨ks, hrun, hmem⟩ := tableKeys argc lastkey last hfirst Nat.one_pos hlast hrange hargc
  refine ⟨ks, hrun, fun i => (hmem i).trans ⟨?_, ?_⟩⟩
  · rintro ⟨k, hi, hle⟩
    exact ⟨by omega, hle⟩
  · rintro ⟨hge, hle⟩
    exact ⟨i - firstkey, by omega, hle⟩

/-- The columns of the row are those for the keys of its command, and its arity leaves no position out
of range, but for OBJECT; the last column of two rows is 1 where it should be negative. -/
def Fits (r : KeyRow) : KeyUse → Prop
  | .upTo n => r.getkeys = .table ∧ r.firstkey = 1 ∧ r.lastkey = n ∧ r.keystep = 1 ∧ 1 ≤ n ∧
      ((n : Int) < r.arity ∨ r.arity < -(n : Int))
  | .rest first back => r.getkeys = .table ∧ r.firstkey = first ∧ r.keystep = 1 ∧ 1 ≤ first ∧
      (r.lastkey = -(back : Int) - 1 ∨ first = 1 ∧ r.lastkey = 1) ∧ r.arity < -(first + back : Int)
  | .pairs => r.getkeys = .table ∧ r.firstkey = 1 ∧ r.lastkey = -1 ∧ r.keystep = 2 ∧ r.arity ≤ -3
  | .zunionInter => r.getkeys = .zunionInter ∧ r.arity ≤ -3
  | .eval => r.getkeys = .eval ∧ r.arity ≤ -3
  | .sort => r.getkeys = .sort
  | .object => r.getkeys = .table ∧ r.firstkey = 2 ∧ r.lastkey = 2 ∧ r.keystep = 2 ∧ r.arity = -2
  | _ => r.getkeys = .table ∧ r.firstkey = 0

instance decidableFits (r : KeyRow) : (use : KeyUse) → Decidable (Fits r use)
  | .upTo _ => inferInstanceAs (Decidable (_ ∧ _ ∧ _ ∧ _ ∧ _ ∧ (_ ∨ _)))
  | .rest _ _ => inferInstanceAs (Decidable (_ ∧ _ ∧ _ ∧ _ ∧ (_ ∨ _ ∧ _) ∧ _))
  | .pairs => inferInstanceAs (Decidable (_ ∧ _ ∧ _ ∧ _ ∧ _))
  | .object => inferInstanceAs (Decidable (_ ∧ _ ∧ _ ∧ _ ∧ _))
  | .zunionInter => inferInstanceAs (Decidable (_ ∧ _))
  | .eval => inferInstanceAs (Decidable (_ ∧ _))
  | .sort => inferInstanceAs (Decidable (_ = _))
  | .none => inferInstanceAs (Decidable (_ ∧ _))
  | .migrate => inferInstanceAs (Decidable (_ ∧ _))
  | .debug => inferInstanceAs (Decidable (_ ∧ _))
  | .pfdebug => inferInstanceAs (Decidable (_ ∧ _))

theorem table_fits : ∀ r ∈ redisCommandTable, Fits r r.uses := by decide +kernel

def Extracts (cluster : Bool) (r : KeyRow) (argv : List Bytes) : Prop :=
  ∃ ks, getKeysFromCommand r argv = .keys ks ∧
    (accepts cluster argv r.uses = true → ∀ i, i ∈ ks ↔ UsesKey cluster argv i r.uses)

def CountAgrees (cluster : Bool) (argv : List Bytes) (use : KeyUse) : Prop :=
  0 ≤ Aof.atoi (argv.getD 2 []) ∧
    (Aof.atoi (argv.getD 2 []) ≤ (argv.length : Int) - 3 ∨ accepts cluster argv use = false)

def Agrees (cluster : Bool) (r : KeyRow) (argv : List Bytes) : KeyUse → Prop
  | .rest _ back => r.lastkey < 0 ∨ argv.length = back + 2
  | .zunionInter => CountAgrees cluster argv .zunionInter
  | .eval => CountAgrees cluster argv .eval
  | .sort => ∀ i, storeKey cluster argv ≠ some (some i)
  | .object => argv.length ≠ 2
  | use => unlistedKey argv use = none

section Rows

variable {cluster : Bool} {r : KeyRow} {argv : List Bytes}

theorem arity_bounds (h : r.passesArity argv.length = true) :
    (0 < r.arity → r.arity = argv.length) ∧ -r.arity ≤ (argv.length : Int) := by
  unfold KeyRow.passesArity at h
  simp only [Bool.not_eq_true', Bool.or_eq_false_iff, Bool.and_eq_false_iff, decide_eq_false_iff_not] at h
  omega

theorem extracts_keys {ks : List Nat} (h : getKeysFromCommand r argv = .keys ks) :
    Extracts cluster r argv ↔
      (accepts cluster argv r.uses = true → ∀ i, i ∈ ks ↔ UsesKey cluster argv i r.uses) := by
  unfold Extracts
  rw [h]
  constructor
  · rintro ⟨ks', hks, hmem⟩
    obtain rfl := Extraction.keys.inj hks
    exact hmem
  · exact fun hmem => ⟨ks, rfl, hmem⟩

theorem not_extracts (h : ∀ ks, getKeysFromCommand r argv ≠ .keys ks) :
    ¬ Extracts cluster r argv := fun ⟨ks, hks, _⟩ => h ks hks

theorem extraction_table (h : r.getkeys = .table) :
    getKeysFromCommand r argv =
      getKeysUsingCommandTable r.firstkey r.lastkey r.keystep argv.length := by
  unfold getKeysFromCommand
  rw [h]

theorem extracts_unlisted {use : KeyUse} (huse : r.uses = use) (htable : r.getkeys = .table)
    (hfirst : r.firstkey = 0) (haccepts : accepts cluster argv use = true)
    (huses : ∀ i, UsesKey cluster argv i use ↔ unlistedKey argv use = some i) :
    Extracts cluster r argv ↔ unlistedKey argv use = none := by
  have hkeys : getKeysFromCommand r argv = .keys [] := by
    rw [extraction_table htable, hfirst]
    rfl
  rw [extracts_keys hkeys, huse, Option.eq_none_iff_forall_ne_some]
  constructor
  · exact fun h i hi => List.not_mem_nil ((h haccepts i).mpr ((huses i).mpr hi))
  · exact fun h _ i => ⟨fun hi => absurd hi List.not_mem_nil, fun hi => absurd ((huses i).mp hi) (h i)⟩

theorem extracts_upTo {n : Nat} (huse : r.uses = .upTo n) (hr : Fits r (.upTo n))
    (harity : r.passesArity argv.length = true) : Extracts cluster r argv := by
  obtain ⟨htable, hfirst, hlast, hstep, hn, hrange⟩ := hr
  obtain ⟨hpos, hneg⟩ := arity_bounds harity
  obtain ⟨ks, hkeys, hmem⟩ := tableKeys_one argv.length r.lastkey n
    Nat.one_pos (by rw [if_neg (by omega)]; exact hlast.symm) (by omega) (by omega)
  have hget : getKeysFromCommand r argv = .keys ks := by
    rw [extraction_table htable, hfirst, hstep]
    exact hkeys
  rw [extracts_keys hget, huse]
  intro _ i
  rw [hmem]
  exact and_congr_right fun _ => Int.ofNat_le

theorem extracts_rest {first back : Nat} (huse : r.uses = .rest first back)
    (hr : Fits r (.rest first back)) (harity : r.passesArity argv.length = true) :
    Extracts cluster r argv ↔ r.lastkey < 0 ∨ argv.length = back + 2 := by
  obtain ⟨htable, hfirst, hstep, hpos, hlast, hrange⟩ := hr
  obtain ⟨-, hneg⟩ := arity_bounds harity
  rcases hlast with hlast | ⟨hone, hlast⟩
  · obtain ⟨ks, hkeys, hmem⟩ := tableKeys_one argv.length r.lastkey (argv.length - back - 1) hpos
      (by rw [if_pos (by omega), hlast]; omega) (by omega) (by omega)
    have hget : getKeysFromCommand r argv = .keys ks := by
      rw [extraction_table htable, hfirst, hstep]
      exact hkeys
    rw [extracts_keys hget, huse]
    refine iff_of_true (fun _ i => ?_) (Or.inl (by omega))
    rw [hmem]
    exact and_congr_right fun _ => by omega
  · obtain ⟨ks, hkeys, hmem⟩ := tableKeys_one argv.length r.lastkey 1 hpos
      (by rw [if_neg (by omega), hlast]) (by omega) (by omega)
    have hget : getKeysFromCommand r argv = .keys ks := by
      rw [extraction_table htable, hfirst, hstep]
      exact hkeys
    rw [extracts_keys hget, huse]
    constructor
    · intro h
      -- the second key is missing if there is one
      have htwo := h rfl 2
      rw [hmem] at htwo
      have hnot : ¬ (first ≤ 2 ∧ 2 + back < argv.length) := fun huses => by
        have hle := (htwo.mpr huses).2
        omega
      right
      omega
    · rintro (h | h) _ i
      · omega
      · rw [hmem]
        show _ ↔ first ≤ i ∧ i + back < argv.length
        omega

theorem extracts_pairs (huse : r.uses = .pairs) (hr : Fits r .pairs)
    (harity : r.passesArity argv.length = true) : Extracts cluster r argv := by
  obtain ⟨htable, hfirst, hlast, hstep, hrange⟩ := hr
  obtain ⟨-, hneg⟩ := arity_bounds harity
  obtain ⟨ks, hkeys, hmem⟩ := tableKeys argv.length r.lastkey (argv.length - 1) Nat.one_pos
    Nat.two_pos (by rw [if_pos (by omega), hlast]; omega) (by omega) (by omega)
  have hget : getKeysFromCommand r argv = .keys ks := by
    rw [extraction_table htable, hfirst, hstep]
    exact hkeys
  rw [extracts_keys hget, huse]
  intro haccepts i
  have hodd : argv.length % 2 = 1 := of_decide_eq_true haccepts
  rw [hmem]
  show _ ↔ i % 2 = 1 ∧ i + 1 < argv.length
  constructor
  · rintro ⟨k, hi, hle⟩
    omega
  · rintro ⟨hi, hle⟩
    exact ⟨i / 2, by omega, by omega⟩

theorem mem_counted (num : Int) (i : Nat) : i ∈ counted num ↔ 3 ≤ i ∧ (i : Int) < 3 + num := by
  unfold counted
  rw [List.mem_map]
  constructor
  · rintro ⟨k, hk, rfl⟩
    have hlt := List.mem_range.mp hk
    omega
  · rintro ⟨hge, hlt⟩
    exact ⟨i - 3, List.mem_range.mpr (by omega), by omega⟩

theorem atoi_number {n : Int} (h : number argv 2 = some n) :
    Aof.atoi (argv.getD 2 []) = Int.bmod n (2 ^ 32) := by
  unfold number Aof.getLongLongFromObject at h
  dsimp only at h
  split at h
  · cases h
  · rw [← Option.some.inj h]
    rfl

theorem accepts_eval (h : accepts cluster argv .eval = true) :
    ∃ n, number argv 2 = some n ∧ n ≤ (argv.length : Int) - 3 := by
  obtain ⟨n, hn, hle⟩ := (Option.any_eq_true _ _).mp h
  exact ⟨n, hn, of_decide_eq_true hle⟩

theorem accepts_zunionInter (h : accepts cluster argv .zunionInter = true)
    (hargc : argv.length < 2 ^ 31) :
    ∃ n, number argv 2 = some n ∧ 1 ≤ n ∧ n ≤ (argv.length : Int) - 3 ∧
      Aof.atoi (argv.getD 2 []) = n := by
  obtain ⟨n, hn, hle⟩ := (Option.any_eq_true _ _).mp h
  obtain ⟨hpos, hle⟩ := of_decide_eq_true hle
  refine ⟨n, hn, hpos, hle, ?_⟩
  rw [atoi_number hn]
  exact Int.bmod_eq_of_le (by omega) (by omega)

theorem extracts_counted {use : KeyUse} (huse : r.uses = use) (hargc : 3 ≤ argv.length)
    (hmany : Aof.atoi (argv.getD 2 []) > (argv.length : Int) - 3 →
      getKeysFromCommand r argv = .keys [] ∧
        (accepts cluster argv use = true → ∃ i, UsesKey cluster argv i use))
    (hnegative : Aof.atoi (argv.getD 2 []) < 0 → ∀ ks, getKeysFromCommand r argv ≠ .keys ks)
    (hkeys : 0 ≤ Aof.atoi (argv.getD 2 []) →
      Aof.atoi (argv.getD 2 []) ≤ (argv.length : Int) - 3 →
      ∃ ks, getKeysFromCommand r argv = .keys ks ∧
        (accepts cluster argv use = true → ∀ i, i ∈ ks ↔ UsesKey cluster argv i use)) :
    Extracts cluster r argv ↔ CountAgrees cluster argv use := by
  unfold CountAgrees
  by_cases hbig : Aof.atoi (argv.getD 2 []) > (argv.length : Int) - 3
  · obtain ⟨hnone, hused⟩ := hmany hbig
    rw [extracts_keys hnone, huse]
    constructor
    · intro h
      refine ⟨by omega, Or.inr (Bool.eq_false_iff.mpr fun haccepts => ?_)⟩
      obtain ⟨i, hi⟩ := hused haccepts
      exact List.not_mem_nil ((h haccepts i).mpr hi)
    · rintro ⟨-, hle | hrefused⟩ haccepts
      · omega
      · rw [hrefused] at haccepts
        cases haccepts
  · by_cases hsign : Aof.atoi (argv.getD 2 []) < 0
    · exact iff_of_false (not_extracts (hnegative hsign)) fun h => by omega
    · obtain ⟨ks, hget, hmem⟩ := hkeys (by omega) (by omega)
      rw [extracts_keys hget, huse]
      exact iff_of_true hmem ⟨by omega, Or.inl (by omega)⟩

theorem exists_number {n : Int} (hn : number argv 2 = some n) (p : Int → Prop) :
    (∃ m, number argv 2 = some m ∧ p m) ↔ p n := by
  rw [hn]
  constructor
  · rintro ⟨m, hm, h⟩
    rwa [Option.some.inj hm]
  · exact fun h => ⟨n, rfl, h⟩

theorem extracts_eval (huse : r.uses = .eval) (hr : Fits r .eval)
    (harity : r.passesArity argv.length = true) :
    Extracts cluster r argv ↔ CountAgrees cluster argv .eval := by
  obtain ⟨hproc, hrange⟩ := hr
  obtain ⟨-, hneg⟩ := arity_bounds harity
  have hget : getKeysFromCommand r argv = evalGetKeys argv := by
    unfold getKeysFromCommand
    rw [hproc]
  rw [evalGetKeys] at hget
  refine extracts_counted huse (by omega) (fun hbig => ⟨?_, fun haccepts => ?_⟩) ?_ ?_
  · rw [hget]
    exact if_pos hbig
  · obtain ⟨n, hn, -⟩ := accepts_eval haccepts
    exact ⟨3, n, hn, Nat.le_refl 3, by rw [← atoi_number hn]; omega⟩
  · intro hsign ks
    rw [hget, if_neg (by omega), zmalloc, if_pos hsign]
    exact Extraction.noConfusion
  · intro hsign hle
    refine ⟨counted (Aof.atoi (argv.getD 2 [])), ?_, fun haccepts i => ?_⟩
    · rw [hget, if_neg (by omega), zmalloc, if_neg (by omega)]
    · obtain ⟨n, hn, -⟩ := accepts_eval haccepts
      rw [mem_counted, atoi_number hn]
      exact (exists_number hn fun m => 3 ≤ i ∧ (i : Int) < 3 + Int.bmod m (2 ^ 32)).symm

theorem extracts_zunionInter (huse : r.uses = .zunionInter) (hr : Fits r .zunionInter)
    (harity : r.passesArity argv.length = true) (hargc : argv.length < 2 ^ 31) :
    Extracts cluster r argv ↔ CountAgrees cluster argv .zunionInter := by
  obtain ⟨hproc, hrange⟩ := hr
  obtain ⟨-, hneg⟩ := arity_bounds harity
  have hget : getKeysFromCommand r argv = zunionInterGetKeys argv := by
    unfold getKeysFromCommand
    rw [hproc]
  rw [zunionInterGetKeys] at hget
  refine extracts_counted huse (by omega) (fun hbig => ⟨?_, fun haccepts => ?_⟩) ?_ ?_
  · rw [hget]
    exact if_pos hbig
  · -- a number that the command accepts is not too large
    obtain ⟨n, -, -, hle, hatoi⟩ := accepts_zunionInter haccepts hargc
    omega
  · intro hsign ks
    rw [hget, if_neg (by omega), zmalloc, if_pos hsign]
    split <;> exact Extraction.noConfusion
  · intro hsign hle
    refine ⟨counted (Aof.atoi (argv.getD 2 [])) ++ [1], ?_, fun haccepts i => ?_⟩
    · rw [hget, if_neg (by omega), zmalloc, if_neg (by omega), if_neg (by omega)]
    · obtain ⟨n, hn, -, -, hatoi⟩ := accepts_zunionInter haccepts hargc
      rw [List.mem_append, List.mem_singleton, mem_counted, hatoi, or_comm]
      exact or_congr_right (exists_number hn fun m => 3 ≤ i ∧ (i : Int) < 3 + m).symm

theorem sortOptions_position {args : List Bytes} {j i : Nat} {storekey : Option Nat}
    (h : sortOptions cluster args j storekey = some (some i)) : storekey = some i ∨ j < i := by
  fun_induction sortOptions cluster args j storekey
  all_goals grind

theorem extracts_sort (huse : r.uses = .sort) (hr : Fits r .sort) :
    Extracts cluster r argv ↔ ∀ i, storeKey cluster argv ≠ some (some i) := by
  have hkeys : getKeysFromCommand r argv = .keys [1] := by
    unfold getKeysFromCommand
    rw [show r.getkeys = .sort from hr]
    rfl
  rw [extracts_keys hkeys, huse]
  constructor
  · intro h i hstore
    have haccepts : accepts cluster argv .sort = true := by
      show (storeKey cluster argv).isSome = true
      rw [hstore]
      rfl
    have hone := List.mem_singleton.mp ((h haccepts i).mpr (Or.inr hstore))
    rcases sortOptions_position hstore with hnone | hlt
    · cases hnone
    · omega
  · intro h _ i
    rw [List.mem_singleton]
    exact ⟨Or.inl, fun huses => huses.resolve_right (h i)⟩

theorem extracts_object (huse : r.uses = .object) (hr : Fits r .object)
    (harity : r.passesArity argv.length = true) : Extracts cluster r argv ↔ argv.length ≠ 2 := by
  obtain ⟨htable, hfirst, hlast, hstep, harg⟩ := hr
  obtain ⟨-, hneg⟩ := arity_bounds harity
  by_cases htwo : argv.length = 2
  · refine iff_of_false (not_extracts fun ks => ?_) fun h => h htwo
    rw [extraction_table htable, hfirst, hlast, hstep, htwo]
    exact Extraction.noConfusion
  · obtain ⟨ks, hkeys, hmem⟩ := tableKeys argv.length 2 2
      Nat.two_pos Nat.two_pos rfl (by omega) (by omega)
    have hget : getKeysFromCommand r argv = .keys ks := by
      rw [extraction_table htable, hfirst, hlast, hstep]
      exact hkeys
    rw [extracts_keys hget, huse]
    refine iff_of_true (fun _ i => ?_) htwo
    rw [hmem]
    show _ ↔ i = 2
    constructor
    · rintro ⟨k, hi, hle⟩
      omega
    · rintro rfl
      exact ⟨0, rfl, Int.le_refl 2⟩

end Rows

/-- For every row and all arguments that pass the arity check: the extraction ends with the positions of
the keys exactly if the arguments are not of a kind that it gets wrong. `argc` is an `int`. -/
theorem extraction_agrees_iff (cluster : Bool) (r : KeyRow) (hr : r ∈ redisCommandTable)
    (argv : List Bytes) (harity : r.passesArity argv.length = true) (hargc : argv.length < 2 ^ 31) :
    Extracts cluster r argv ↔ Agrees cluster r argv r.uses := by
  have hfits := table_fits r hr
  cases huse : r.uses with
  | none =>
    rw [huse] at hfits
    exact extracts_unlisted huse hfits.1 hfits.2 rfl fun _ => ⟨False.elim, nofun⟩
  | upTo n =>
    rw [huse] at hfits
    exact iff_of_true (extracts_upTo huse hfits harity) rfl
  | rest first back =>
    rw [huse] at hfits
    exact extracts_rest huse hfits harity
  | pairs =>
    rw [huse] at hfits
    exact iff_of_true (extracts_pairs huse hfits harity) rfl
  | zunionInter =>
    rw [huse] at hfits
    exact extracts_zunionInter huse hfits harity hargc
  | eval =>
    rw [huse] at hfits
    exact extracts_eval huse hfits harity
  | sort =>
    rw [huse] at hfits
    exact extracts_sort huse hfits
  | object =>
    rw [huse] at hfits
    exact extracts_object huse hfits harity
  | migrate =>
    rw [huse] at hfits
    exact extracts_unlisted huse hfits.1 hfits.2 rfl fun _ => Iff.rfl
  | debug =>
    rw [huse] at hfits
    exact extracts_unlisted huse hfits.1 hfits.2 rfl fun _ => Iff.rfl
  | pfdebug =>
    rw [huse] at hfits
    exact extracts_unlisted huse hfits.1 hfits.2 rfl fun _ => Iff.rfl

def words (ws : List String) : List Bytes := ws.map asciiBytes

/-- SORT without STORE. -/
theorem extraction_agrees_sort :
    Extracts true (row "sort" (-2) .sort 1 1 1 .sort)
      (words ["sort", "list", "limit", "0", "10", "desc"]) := by
  refine (extraction_agrees_iff true _ (by decide) _ (by decide) (by decide)).mpr fun i => ?_
  have hstore : storeKey true (words ["sort", "list", "limit", "0", "10", "desc"]) = some none := by
    decide +kernel
  rw [hstore]
  exact nofun

def zunionstoreRow : KeyRow := row "zunionstore" (-4) .zunionInter 0 0 0 .zunionInter

/-- With -1 keys ZUNIONSTORE has its destination stored before the array. -/
theorem zunionstore_outside :
    zunionstoreRow ∈ redisCommandTable ∧
      zunionstoreRow.passesArity (words ["zunionstore", "dst", "-1", "src"]).length = true ∧
      getKeysFromCommand zunionstoreRow (words ["zunionstore", "dst", "-1", "src"]) = .outside ∧
      ¬ Extracts false zunionstoreRow (words ["zunionstore", "dst", "-1", "src"]) := by
  have houtside :
      getKeysFromCommand zunionstoreRow (words ["zunionstore", "dst", "-1", "src"]) = .outside := by
    decide +kernel
  refine ⟨by decide, rfl, houtside, not_extracts fun ks => ?_⟩
  rw [houtside]
  exact Extraction.noConfusion

/-- The destination of SORT is not among the positions. -/
example : storeKey false (words ["sort", "list", "store", "dst"]) = some (some 3) := by
  decide +kernel

/-- OBJECT with one argument passes the check of the arity. -/
example : getKeysFromCommand (row "object" (-2) .table 2 2 2 .object) (words ["object", "help"]) =
    .assertion := by decide +kernel

end RedisCluster.Multi.KeyPositions
