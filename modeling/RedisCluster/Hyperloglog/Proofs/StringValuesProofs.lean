import RedisCluster.Hyperloglog.StringValues

/-!
# Which strings the HLL commands are safe on

The search of `hllSparseAdd` is followed on any bytes. One element whose register is the last one is
enough to tell all sparse strings apart that are not whole or not of the right length.
-/

namespace RedisCluster.Hyperloglog

open RedisCluster.Util

theorem sparseRegisters_cons (b c : UInt8) (bs : Bytes) :
    sparseRegisters (b :: c :: bs) = runOf (opcodeAt b c) ++
      sparseRegisters (if HLL_SPARSE_IS_XZERO b then bs else c :: bs) := by
  rw [sparseRegisters, opcodes, List.flatMap_cons]
  split <;> rfl

theorem sparseRegisters_single (b : UInt8) : sparseRegisters [b] = runOf (opcodeAt b 0) := by
  simp [sparseRegisters, opcodes]

/-- Where the search stops, cut off or not. -/
structure FoundAt (index : Nat) (rest : Bytes) (first : Nat) (l : Located) : Prop where
  span : l.span ≠ 0
  beyond : l.rest = [] → first + (sparseRegisters rest).length ≤ index
  total : l.rest ≠ [] → l.first + (sparseRegisters l.rest).length =
    first + (sparseRegisters rest).length
  whole : l.rest ≠ [] → Whole l.rest → Whole rest
  covers : ∀ b bs, l.rest = b :: bs → l.span = opcodeLen (opcodeAt b (bs.headD 0)) ∧
    index < l.first + opcodeLen (opcodeAt b (bs.headD 0))

theorem foundAt_here {index first : Nat} {before prev : Bytes} {b : UInt8} {bs : Bytes}
    (hlt : index < first + opcodeLen (opcodeAt b (bs.headD 0))) :
    FoundAt index (b :: bs) first
      ⟨before, prev, b :: bs, first, opcodeLen (opcodeAt b (bs.headD 0))⟩ where
  span := by
    have := opcodeLen_pos (inRange_opcodeAt b (bs.headD 0))
    exact Nat.pos_iff_ne_zero.mp this
  beyond h := by cases h
  total _ := rfl
  whole _ h := h
  covers b' bs' h := by
    obtain ⟨rfl, rfl⟩ := List.cons.inj h
    exact ⟨rfl, hlt⟩

theorem locate_found (index : Nat) (rest before prev : Bytes) (first span : Nat)
    (hspan : rest = [] → span ≠ 0) (hle : first ≤ index) :
    FoundAt index rest first (locate index before prev rest first span) := by
  induction rest using opcodes.induct generalizing before prev first span with
  | case1 =>
    refine ⟨hspan rfl, fun _ => by simpa using hle, fun h => absurd rfl h, fun h => absurd rfl h, ?_⟩
    intro b bs h
    cases h
  | case2 b =>
    have hpos := opcodeLen_pos (inRange_opcodeAt b 0)
    rw [locate]
    split
    case isTrue hlt => exact @foundAt_here _ _ _ _ _ [] hlt
    case isFalse hge =>
      refine ⟨Nat.pos_iff_ne_zero.mp hpos, fun _ => ?_, fun h => absurd rfl h,
        fun h => absurd rfl h, fun b bs h => by cases h⟩
      rw [sparseRegisters_single, length_runOf]
      exact not_lt.mp hge
  | case3 b c bs ih1 ih2 =>
    have hpos := opcodeLen_pos (inRange_opcodeAt b c)
    have hne : opcodeLen (opcodeAt b c) ≠ 0 := Nat.pos_iff_ne_zero.mp hpos
    have hlen : (sparseRegisters (b :: c :: bs)).length = opcodeLen (opcodeAt b c) +
        (sparseRegisters (if HLL_SPARSE_IS_XZERO b then bs else c :: bs)).length := by
      rw [sparseRegisters_cons, List.length_append, length_runOf]
    rw [locate]
    split
    case isTrue hlt => exact @foundAt_here _ _ _ _ _ (c :: bs) hlt
    case isFalse hge =>
      have hnext : ∀ l, FoundAt index (if HLL_SPARSE_IS_XZERO b then bs else c :: bs)
          (first + opcodeLen (opcodeAt b c)) l → FoundAt index (b :: c :: bs) first l := by
        intro l hl
        refine ⟨hl.span, fun h => ?_, fun h => ?_, fun h hw => ?_, hl.covers⟩
        · have := hl.beyond h
          omega
        · have := hl.total h
          omega
        · have hrest := hl.whole h hw
          rw [Whole]
          split at hrest
          · rw [if_pos ‹_›]
            exact hrest
          · rw [if_neg ‹_›]
            exact hrest
      by_cases hx : HLL_SPARSE_IS_XZERO b = true
      · rw [if_pos hx] at hnext ⊢
        exact hnext _ (ih1 _ _ _ _ (fun _ => hne) (not_lt.mp hge))
      · rw [if_neg hx] at hnext ⊢
        exact hnext _ (ih2 _ _ _ _ (fun _ => hne) (not_lt.mp hge))

def lastElement : Bytes := [51, 51, 57, 56]

theorem hllPatLen_lastElement : hllPatLen lastElement = (1, 16383) := by decide +kernel

/-- With room enough, adding the element never calls a sparse string with opcodes invalid, and it leaves
the string if an opcode is cut off. -/
theorem add_lastElement {h : Hll} (hne : h.registers ≠ []) :
    ∃ hll_sparse_max_bytes,
      (∀ r, hllSparseAdd hll_sparse_max_bytes h lastElement = some r → r.2 ≠ -1) ∧
      ((sparseRegisters h.registers).length = HLL_REGISTERS → ¬ Whole h.registers →
        hllSparseAdd hll_sparse_max_bytes h lastElement = none) := by
  have hfound := locate_found 16383 h.registers [] [] 0 0 (fun h0 => absurd h0 hne) (Nat.zero_le _)
  have hbig : ¬ 1 > HLL_SPARSE_VAL_MAX_VALUE := by decide
  have hfold : ∀ b, (if HLL_SPARSE_IS_XZERO b = true then 2 else 1) = opcodeBytes b := fun _ => rfl
  unfold hllSparseAdd
  simp only [hllPatLen_lastElement, if_neg hbig, if_neg hfound.span, hfold]
  generalize locate 16383 [] [] h.registers 0 0 = l at hfound
  rcases hrest : l.rest with - | ⟨b, bs⟩
  · exact ⟨0, fun r hr => (by cases hr), fun _ _ => rfl⟩
  · refine ⟨HLL_HDR_SIZE + h.registers.length + (splitOpcode (opcodeAt b (bs.headD 0)) 16383 l.first
      (l.first + l.span - 1) 1).length, ?_, ?_⟩
    · have hsplit : ∀ r, hllSparseAdd.splitAndUpdate (HLL_HDR_SIZE + h.registers.length +
          (splitOpcode (opcodeAt b (bs.headD 0)) 16383 l.first (l.first + l.span - 1) 1).length)
          lastElement h l (opcodeAt b (bs.headD 0)) (opcodeBytes b) 1 16383 = some r →
          r.2 ≠ -1 := by
        intro r hr
        unfold hllSparseAdd.splitAndUpdate at hr
        rw [if_neg (by omega)] at hr
        cases hr
        exact (by decide : (1 : Int) ≠ -1)
      intro r hr
      simp only at hr
      split at hr
      · cases hr
      · split at hr
        · split at hr
          · cases hr
            exact (by decide : (0 : Int) ≠ -1)
          · split at hr
            · cases hr
              exact (by decide : (1 : Int) ≠ -1)
            · exact hsplit r hr
        · split at hr
          · cases hr
            exact (by decide : (1 : Int) ≠ -1)
          · exact hsplit r hr
        · exact hsplit r hr
    · intro hlen hcut
      have hnotwhole : ¬ Whole (b :: bs) := by
        rw [← hrest]
        exact fun hw => hcut (hfound.whole (by rw [hrest]; exact List.cons_ne_nil _ _) hw)
      have htotal := hfound.total (by rw [hrest]; exact List.cons_ne_nil _ _)
      obtain ⟨-, hcovers⟩ := hfound.covers b bs hrest
      rw [hrest, hlen, Nat.zero_add] at htotal
      unfold HLL_REGISTERS at htotal
      -- The opcode of the last register is the last one, so that it is the one cut off.
      have hcutoff : bs = [] ∧ HLL_SPARSE_IS_XZERO b = true := by
        cases bs with
        | nil => exact ⟨rfl, by simpa [Whole] using hnotwhole⟩
        | cons c bs =>
          exfalso
          rw [sparseRegisters_cons, List.length_append, length_runOf] at htotal
          rw [List.headD_cons] at hcovers
          have hempty : (sparseRegisters (if HLL_SPARSE_IS_XZERO b then bs else c :: bs)).length = 0 := by
            omega
          rw [Whole] at hnotwhole
          split at hempty
          case isTrue hx =>
            rw [if_pos hx] at hnotwhole
            cases bs with
            | nil => exact hnotwhole trivial
            | cons d bs =>
              cases bs with
              | nil =>
                have := opcodeLen_pos (inRange_opcodeAt d 0)
                rw [sparseRegisters_single, length_runOf] at hempty
                omega
              | cons e bs =>
                have := opcodeLen_pos (inRange_opcodeAt d e)
                rw [sparseRegisters_cons, List.length_append, length_runOf] at hempty
                omega
          case isFalse hx =>
            cases bs with
            | nil =>
              have := opcodeLen_pos (inRange_opcodeAt c 0)
              rw [sparseRegisters_single, length_runOf] at hempty
              omega
            | cons e bs =>
              have := opcodeLen_pos (inRange_opcodeAt c e)
              rw [sparseRegisters_cons, List.length_append, length_runOf] at hempty
              omega
      obtain ⟨rfl, hx⟩ := hcutoff
      simp only
      rw [if_pos]
      rw [opcodeBytes, if_pos hx]
      exact Nat.lt_succ_self 1

theorem isHLLObject_sparse {h : Hll} (he : h.encoding = .sparse) : isHLLObject h = true := by
  unfold isHLLObject
  rw [he]

theorem safeHll_of_valid {h : Hll} (hv : Valid h) : SafeHll h := by
  intro estimate db key hkey hothers command _
  have hrule : CacheRule estimate fun _ => True := ⟨fun _ _ => trivial, trivial, fun _ => trivial⟩
  have hgood : Good (fun _ => True) db := by
    intro k h' hk
    refine ⟨?_, trivial⟩
    by_cases hne : k = key
    · rw [hne, hkey] at hk
      cases hk
      exact hv
    · exact hothers k hne h' hk
  obtain ⟨db', reply, hstep, -⟩ := step_good hrule hgood command
  exact ⟨db', reply, hstep, Or.inr (length_registersOf hv)⟩

section Empty

variable {h : Hll}

theorem hllSparseAdd_empty (he : h.encoding = .sparse) (hnil : h.registers = [])
    (hll_sparse_max_bytes : Nat) (ele : Bytes) :
    hllSparseAdd hll_sparse_max_bytes h ele = some (h, -1) := by
  obtain ⟨⟨count, index⟩, hpat⟩ : ∃ pat, hllPatLen ele = pat := ⟨_, rfl⟩
  have hdense : hllSparseToDense h = some none := by
    unfold hllSparseToDense
    rw [he, hnil]
    rfl
  unfold hllSparseAdd
  rw [hpat]
  by_cases hbig : count > HLL_SPARSE_VAL_MAX_VALUE
  · simp only [if_pos hbig]
    unfold promote
    rw [hdense]
  · simp only [if_neg hbig, hnil]
    rfl

theorem mergeKeys_empty (he : h.encoding = .sparse) (hnil : h.registers = []) {db : Db} {key : Bytes}
    (hkey : db key = some h) (hothers : ∀ k, k ≠ key → ∀ h', db k = some h' → Valid h')
    {keys : List Bytes} (hmem : key ∈ keys) (max : Nat → UInt8) :
    mergeKeys db max keys = some (.error .invalidHll) := by
  induction keys generalizing max with
  | nil => exact absurd hmem List.not_mem_nil
  | cons k keys ih =>
    rw [mergeKeys]
    by_cases hk : k = key
    · subst hk
      have his := isHLLObject_sparse he
      have hmerge : hllMerge max h = some none := by
        unfold hllMerge
        rw [he, hnil]
        rfl
      rw [hkey]
      simp only [his, if_true]
      rw [hmerge]
      rfl
    · have hrest : key ∈ keys := (List.mem_cons.mp hmem).resolve_left fun e => hk e.symm
      rcases hdb : db k with - | h'
      · exact ih hrest max
      · have hv := hothers k hk h' hdb
        have his : isHLLObject h' = true := by
          unfold isHLLObject
          unfold Valid at hv
          cases he' : h'.encoding with
          | sparse => rfl
          | dense =>
            rw [he'] at hv
            simp only
            exact beq_iff_eq.mpr hv
        obtain ⟨max', hmerge⟩ := hllMerge_spec hv max
        simp only [his, if_true]
        rw [hmerge, Option.bind_eq_bind, Option.bind_some]
        exact ih hrest max'

theorem safeHll_of_empty (he : h.encoding = .sparse) (hnil : h.registers = [])
    (hcache : HLL_VALID_CACHE h = false) : SafeHll h := by
  intro estimate db key hkey hothers command huses
  have his := isHLLObject_sparse he
  cases command with
  | pfadd hll_sparse_max_bytes k eles =>
    obtain ⟨rfl, hne⟩ := huses
    cases eles with
    | nil => exact absurd rfl hne
    | cons ele eles =>
      have hadd : hllAdd hll_sparse_max_bytes h ele = some (h, -1) := by
        unfold hllAdd
        rw [he]
        exact hllSparseAdd_empty he hnil hll_sparse_max_bytes ele
      have hall : addElements hll_sparse_max_bytes h 0 (ele :: eles) = some (h, 0, true) := by
        rw [addElements, hadd]
        rfl
      refine ⟨Function.update db key (some h), .invalidHll, ?_, Or.inl rfl⟩
      simp only [step]
      unfold pfaddCommand
      rw [hkey]
      simp only [his, if_true, hall]
      rfl
  | pfcount keys =>
    refine ⟨db, .invalidHll, ?_, Or.inl rfl⟩
    have hmerge := mergeKeys_empty he hnil hkey hothers huses
    simp only [step]
    rcases keys with - | ⟨k, - | ⟨k₂, keys⟩⟩
    · cases huses
    · obtain rfl : key = k := List.mem_singleton.mp huses
      have hcount : hllCount estimate h = none := by
        unfold hllCount
        rw [he]
        simp only [hllSparseSum_eq, hnil]
        rfl
      simp only [pfcountCommand, hkey, his, hcache, hcount]
      rfl
    · simp only [pfcountCommand, hmerge]
      rfl
  | pfmerge dest sources =>
    refine ⟨db, .invalidHll, ?_, Or.inl rfl⟩
    simp only [step]
    unfold pfmergeCommand
    rw [mergeKeys_empty he hnil hkey hothers huses]
    rfl

end Empty

theorem accepted_dense {o : StringObj} {h : Hll} (ho : isHLLObjectOrReply o = some (some h))
    (he : h.encoding = .dense) : Valid h := by
  unfold isHLLObjectOrReply at ho
  split at ho
  · cases ho
  · cases o with
    | int value => cases ho
    | str bytes =>
      simp only at ho
      split at ho
      · cases ho
      · split at ho
        · cases ho
        · by_cases hlen : (if byteAt bytes 4 = 0 then Encoding.dense else Encoding.sparse) = .dense ∧
              bytes.length ≠ HLL_HDR_SIZE + HLL_DENSE_BYTES
          · rw [if_pos hlen] at ho
            cases ho
          · rw [if_neg hlen] at ho
            obtain rfl := Option.some.inj (Option.some.inj ho)
            have hbytes : bytes.length = HLL_HDR_SIZE + HLL_DENSE_BYTES := by
              by_contra hne
              exact hlen ⟨he, hne⟩
            have hdrop : (bytes.drop HLL_HDR_SIZE).length = HLL_DENSE_BYTES := by
              rw [List.length_drop, hbytes, Nat.add_sub_cancel_left]
            unfold Valid
            simp only [show (if byteAt bytes 4 = 0 then Encoding.dense else Encoding.sparse) = .dense
              from he]
            exact hdrop

theorem sparse_of_safe {h : Hll} (he : h.encoding = .sparse) (hsafe : SafeHll h) :
    (Whole h.registers ∧ (sparseRegisters h.registers).length = HLL_REGISTERS) ∨
      (h.registers = [] ∧ HLL_VALID_CACHE h = false) := by
  have his := isHLLObject_sparse he
  have hregs : registersOf h = sparseRegisters h.registers := by
    unfold registersOf
    rw [he]
  have hrun := hsafe (fun _ _ => 0) (Function.update (fun _ => none) [] (some h)) []
    (Function.update_self ..) fun k hk h' hk' => by
      rw [Function.update_of_ne hk] at hk'
      cases hk'
  by_cases hnil : h.registers = []
  · refine Or.inr ⟨hnil, ?_⟩
    by_contra hvalid
    rw [Bool.not_eq_false] at hvalid
    obtain ⟨db', reply, hstep, hor⟩ := hrun (.pfcount [[]]) (List.mem_singleton.mpr rfl)
    simp only [step, pfcountCommand, Function.update_self, his, hvalid, Bool.not_true,
      Bool.false_eq_true, if_false, if_true] at hstep
    cases hstep
    rcases hor with hreply | hlen
    · cases hreply
    · rw [hregs, hnil] at hlen
      cases hlen
  · obtain ⟨hll_sparse_max_bytes, hret, hcut⟩ := add_lastElement hnil
    obtain ⟨db', reply, hstep, hor⟩ := hrun (.pfadd hll_sparse_max_bytes [] [lastElement])
      ⟨rfl, List.cons_ne_nil _ _⟩
    have hadd : hllAdd hll_sparse_max_bytes h lastElement =
        hllSparseAdd hll_sparse_max_bytes h lastElement := by
      unfold hllAdd
      rw [he]
    simp only [step] at hstep
    unfold pfaddCommand at hstep
    rw [Function.update_self] at hstep
    simp only [his, if_true, addElements, hadd] at hstep
    generalize hllSparseAdd hll_sparse_max_bytes h lastElement = added at hret hcut hstep
    rcases added with - | ⟨h₁, retval⟩
    · cases hstep
    · have hne : retval ≠ -1 := hret _ rfl
      simp only [Option.bind_eq_bind, Option.bind_some, if_neg hne, Bool.false_eq_true,
        if_false] at hstep
      have hreply : reply ≠ .invalidHll := by
        cases hstep
        intro h
        cases h
      have hlen : (sparseRegisters h.registers).length = HLL_REGISTERS := by
        rw [← hregs]
        exact hor.resolve_left hreply
      refine Or.inl ⟨?_, hlen⟩
      by_contra hnotwhole
      cases hcut hlen hnotwhole

/-- For every string value: the commands refuse it or stay inside it, finding 16384 registers or saying
that it is invalid, exactly if it is well formed. -/
theorem safeValue_iff (o : StringObj) : SafeValue o ↔ WellFormed o := by
  constructor
  · rintro ⟨accepted, ho, hsafe⟩
    refine ⟨accepted, ho, fun h hh => ?_⟩
    cases he : h.encoding with
    | dense => exact Or.inl rfl
    | sparse => exact Or.inr (sparse_of_safe he (hsafe h hh))
  · rintro ⟨accepted, ho, hwell⟩
    refine ⟨accepted, ho, fun h hh => ?_⟩
    subst hh
    cases he : h.encoding with
    | dense => exact safeHll_of_valid (accepted_dense ho he)
    | sparse =>
      rcases hwell h rfl with hdense | hvalid | ⟨hnil, hcache⟩
      · rw [he] at hdense
        cases hdense
      · refine safeHll_of_valid ?_
        unfold Valid
        rw [he]
        exact hvalid
      · exact safeHll_of_empty he hnil hcache

/-- A sparse header with one VAL opcode for one register: PFADD of 3398 writes to the NUL terminator. -/
theorem short_string_not_safe :
    ¬ ∀ o, SafeValue o := by
  intro hall
  obtain ⟨accepted, ho, hsafe⟩ := hall
    (.str ([72, 89, 76, 76, 1, 0, 0, 0, 0, 0, 0, 0, 0, 0, 0, 0] ++ [0x80]))
  have haccepted : accepted = some ⟨.sparse, 0, [0x80]⟩ := by
    have heq : isHLLObjectOrReply
        (.str ([72, 89, 76, 76, 1, 0, 0, 0, 0, 0, 0, 0, 0, 0, 0, 0] ++ [0x80])) =
        some (some ⟨.sparse, 0, [0x80]⟩) := by decide +kernel
    exact (Option.some.inj (heq.symm.trans ho)).symm
  obtain ⟨db', reply, hstep, -⟩ := hsafe _ haccepted (fun _ _ => 0)
    (Function.update (fun _ => none) [] (some ⟨.sparse, 0, [0x80]⟩)) [] (Function.update_self ..)
    (fun k hk h' hk' => by
      rw [Function.update_of_ne hk] at hk'
      cases hk')
    (.pfadd 3000 [] [[51, 51, 57, 56]]) ⟨rfl, List.cons_ne_nil _ _⟩
  have hnone : (hllSparseAdd 3000 ⟨.sparse, 0, [0x80]⟩ [51, 51, 57, 56]).isNone = true := by
    decide +kernel
  simp only [step] at hstep
  unfold pfaddCommand at hstep
  rw [Function.update_self] at hstep
  simp only [isHLLObject, if_true, addElements, hllAdd, Option.isNone_iff_eq_none.mp hnone] at hstep
  cases hstep

end RedisCluster.Hyperloglog
