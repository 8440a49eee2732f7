import RedisCluster.Hyperloglog.Proofs.RegisterProofs

/-!
# The cached cardinality

Every value that PFADD and PFMERGE leave in the database has 16384 registers, and its cached
cardinality is the count of these registers unless it is marked as invalid. The mark is set by a
sparse update itself and, for a dense one, by the command at its end.
-/

namespace RedisCluster.Hyperloglog

open RedisCluster.Util

/-! ## From sparse to dense -/

theorem getRegister_zero (n i : Nat) : HLL_DENSE_GET_REGISTER (List.replicate n 0) i = 0 := by
  have hbyte : ∀ m, byteAt (List.replicate n 0) m = 0 := by
    intro m
    unfold byteAt
    rw [List.getD_eq_getElem?_getD, List.getElem?_replicate]
    split <;> rfl
  refine Nat.eq_of_testBit_eq fun k => ?_
  rw [testBit_getRegister, bitAt, hbyte]
  simp

theorem denseRun_spec {value : Nat} (hvalue : value < 64) (runlen : Nat) {registers : Bytes}
    {idx : Nat} (hlen : registers.length = HLL_DENSE_BYTES) (hroom : idx + runlen ≤ HLL_REGISTERS) :
    ∃ registers', denseRun value runlen registers idx = some (registers', idx + runlen) ∧
      registers'.length = HLL_DENSE_BYTES ∧
      ∀ i, HLL_DENSE_GET_REGISTER registers' i =
        if idx ≤ i ∧ i < idx + runlen then value else HLL_DENSE_GET_REGISTER registers i := by
  induction runlen generalizing registers idx with
  | zero =>
    refine ⟨registers, rfl, hlen, fun i => ?_⟩
    rw [if_neg (by omega)]
  | succ runlen ih =>
    have hidx : idx < HLL_REGISTERS := by omega
    have hset : (6 * idx + 5) / 8 < registers.length := by
      rw [hlen]
      unfold HLL_REGISTERS at hidx
      unfold HLL_DENSE_BYTES
      omega
    obtain ⟨registers', hrun, hlen', hget⟩ :=
      @ih (HLL_DENSE_SET_REGISTER registers idx value) (idx + 1)
        (by rw [length_setRegister, hlen]) (by omega)
    refine ⟨registers', ?_, hlen', fun i => ?_⟩
    · rw [denseRun, if_pos hidx, hrun]
      congr 2
      omega
    · rw [hget, getRegister_setRegister registers idx i hvalue hset]
      by_cases hi : i = idx
      · rw [if_neg (by omega), if_pos hi, if_pos (by omega)]
      · rw [if_neg hi]
        by_cases hin : idx + 1 ≤ i ∧ i < idx + 1 + runlen
        · rw [if_pos hin, if_pos (by omega)]
        · rw [if_neg hin, if_neg (by omega)]

theorem getD_append_replicate (n value i : Nat) (regs : List Nat) :
    (List.replicate n value ++ regs).getD i 0 = if i < n then value else regs.getD (i - n) 0 := by
  rw [List.getD_eq_getElem?_getD, List.getD_eq_getElem?_getD, List.getElem?_append,
    List.length_replicate]
  by_cases h : i < n
  · rw [if_pos h, if_pos h, List.getElem?_replicate, if_pos h]
    rfl
  · rw [if_neg h, if_neg h]

theorem denseRuns_spec (ops : List Opcode) (hops : ∀ op ∈ ops, InRange op) {registers : Bytes}
    {idx : Nat} (hlen : registers.length = HLL_DENSE_BYTES)
    (hroom : idx + (ops.flatMap runOf).length ≤ HLL_REGISTERS)
    (hzero : ∀ i, idx ≤ i → HLL_DENSE_GET_REGISTER registers i = 0) :
    ∃ registers', denseRuns ops registers idx =
        some (registers', idx + (ops.flatMap runOf).length) ∧
      registers'.length = HLL_DENSE_BYTES ∧
      ∀ i, HLL_DENSE_GET_REGISTER registers' i =
        if i < idx then HLL_DENSE_GET_REGISTER registers i
        else (ops.flatMap runOf).getD (i - idx) 0 := by
  induction ops generalizing registers idx with
  | nil =>
    refine ⟨registers, rfl, hlen, fun i => ?_⟩
    split
    · rfl
    · rw [hzero i (by omega)]
      simp
  | cons op ops ih =>
    have htail : ∀ op ∈ ops, InRange op := fun op h => hops op (List.mem_cons_of_mem _ h)
    rw [List.flatMap_cons, List.length_append, length_runOf] at hroom
    have hskip : ∀ len, runOf op = List.replicate len 0 → opcodeLen op = len →
        denseRuns (op :: ops) registers idx = denseRuns ops registers (idx + len) →
        ∃ registers', denseRuns (op :: ops) registers idx =
            some (registers', idx + ((op :: ops).flatMap runOf).length) ∧
          registers'.length = HLL_DENSE_BYTES ∧
          ∀ i, HLL_DENSE_GET_REGISTER registers' i =
            if i < idx then HLL_DENSE_GET_REGISTER registers i
            else ((op :: ops).flatMap runOf).getD (i - idx) 0 := by
      intro len hrun hoplen hstep
      obtain ⟨registers', hrec, hlen', hget⟩ := @ih htail registers (idx + len)
        hlen (by omega) fun i hi => hzero i (by omega)
      refine ⟨registers', ?_, hlen', fun i => ?_⟩
      · rw [hstep, hrec, List.flatMap_cons, hrun, List.length_append, List.length_replicate,
          Nat.add_assoc]
      · rw [hget, List.flatMap_cons, hrun, getD_append_replicate]
        by_cases hlow : i < idx
        · rw [if_pos (by omega), if_pos hlow]
        · rw [if_neg hlow]
          by_cases hin : i - idx < len
          · rw [if_pos (by omega), if_pos hin, hzero i (by omega)]
          · rw [if_neg (by omega), if_neg hin, Nat.sub_sub]
    cases op with
    | zero len => exact hskip len rfl rfl rfl
    | xzero len => exact hskip len rfl rfl rfl
    | val value len =>
      obtain ⟨hv1, hv2, hl1, hl2⟩ := hops _ List.mem_cons_self
      simp only [opcodeLen] at hroom
      obtain ⟨registers₁, hrun, hlen₁, hget₁⟩ := @denseRun_spec value (by omega) len registers idx hlen
        (by omega)
      obtain ⟨registers₂, hrec, hlen₂, hget₂⟩ := @ih htail registers₁
        (idx + len) hlen₁ (by omega) fun i hi => by
          rw [hget₁, if_neg (by omega), hzero i (by omega)]
      refine ⟨registers₂, ?_, hlen₂, fun i => ?_⟩
      · rw [denseRuns, hrun]
        simp only [bind, Option.bind]
        rw [hrec, List.flatMap_cons, List.length_append, length_runOf, opcodeLen, Nat.add_assoc]
      · rw [hget₂, hget₁, List.flatMap_cons, runOf, getD_append_replicate]
        by_cases hlow : i < idx
        · rw [if_pos (by omega), if_neg (by omega), if_pos hlow]
        · rw [if_neg hlow]
          by_cases hin : i - idx < len
          · rw [if_pos (by omega), if_pos (by omega), if_pos hin]
          · rw [if_neg (by omega), if_neg hin, Nat.sub_sub]

/-! ## Valid values -/

def Valid (h : Hll) : Prop :=
  match h.encoding with
  | .dense => h.registers.length = HLL_DENSE_BYTES
  | .sparse => Whole h.registers ∧ (sparseRegisters h.registers).length = HLL_REGISTERS

def registersOf (h : Hll) : List Nat :=
  match h.encoding with
  | .dense => denseRegisters h.registers
  | .sparse => sparseRegisters h.registers

theorem length_registersOf {h : Hll} (hv : Valid h) : (registersOf h).length = HLL_REGISTERS := by
  unfold Valid registersOf at *
  cases he : h.encoding with
  | dense => simp [denseRegisters]
  | sparse =>
    rw [he] at hv
    exact hv.2

def countOf (estimate : ℚ → Nat → UInt64) (h : Hll) : UInt64 :=
  estimate (sums (registersOf h)).1 (sums (registersOf h)).2

theorem hllCount_eq (estimate : ℚ → Nat → UInt64) {h : Hll} (hv : Valid h) :
    hllCount estimate h = some (countOf estimate h) := by
  unfold hllCount countOf registersOf
  cases he : h.encoding with
  | dense => simp only [hllDenseSum_eq]
  | sparse =>
    unfold Valid at hv
    rw [he] at hv
    simp only [hllSparseSum_eq, if_pos hv.2]

theorem inRange_opcodes (sparse : Bytes) : ∀ op ∈ opcodes sparse, InRange op := by
  induction sparse using opcodes.induct with
  | case1 => simp [opcodes]
  | case2 b => simp [opcodes, inRange_opcodeAt]
  | case3 b c bs ih1 ih2 =>
    intro op hop
    rw [opcodes] at hop
    rcases List.mem_cons.mp hop with rfl | hop
    · exact inRange_opcodeAt b c
    · split at hop
      · exact ih1 op hop
      · exact ih2 op hop

theorem hllSparseToDense_spec {h : Hll} (hv : Valid h) (he : h.encoding = .sparse) :
    ∃ registers, hllSparseToDense h =
        some (some { h with encoding := .dense, registers := registers }) ∧
      registers.length = HLL_DENSE_BYTES ∧
      ∀ i, HLL_DENSE_GET_REGISTER registers i = (sparseRegisters h.registers).getD i 0 := by
  unfold Valid at hv
  rw [he] at hv
  obtain ⟨registers, hruns, hlen, hget⟩ := @denseRuns_spec (opcodes h.registers)
    (inRange_opcodes h.registers) (List.replicate HLL_DENSE_BYTES 0) 0
    (by rw [List.length_replicate]) (by
      rw [Nat.zero_add]
      exact le_of_eq hv.2) fun i _ => getRegister_zero _ i
  refine ⟨registers, ?_, hlen, fun i => by rw [hget, if_neg (by omega), Nat.sub_zero]; rfl⟩
  have htotal : 0 + ((opcodes h.registers).flatMap runOf).length = HLL_REGISTERS := by
    rw [Nat.zero_add]
    exact hv.2
  unfold hllSparseToDense
  rw [he]
  simp only [hruns, bind, Option.bind, htotal, if_true]

/-! ## Adding an element -/

theorem countZeroes_ge (hash : UInt64) (rounds bit count : Nat) :
    count ≤ countZeroes hash rounds bit count := by
  induction rounds generalizing bit count with
  | zero => exact le_refl _
  | succ rounds ih =>
    rw [countZeroes]
    split
    · exact le_refl _
    · exact (Nat.le_succ count).trans (ih _ _)

theorem hllPatLen_spec (ele : Bytes) :
    1 ≤ (hllPatLen ele).1 ∧ (hllPatLen ele).2 < HLL_REGISTERS :=
  ⟨countZeroes_ge _ _ _ _, Nat.mod_lt _ (by unfold HLL_REGISTERS; omega)⟩

def raised (h : Hll) (index count : Nat) : Hll :=
  { h with registers := HLL_DENSE_SET_REGISTER h.registers index count }

theorem raised_encoding (h : Hll) (index count : Nat) :
    (raised h index count).encoding = h.encoding := by
  unfold raised
  rfl

theorem hllDenseAdd_of_lt {h : Hll} {ele : Bytes} {pat : Nat × Nat} (hpat : hllPatLen ele = pat)
    (hlt : HLL_DENSE_GET_REGISTER h.registers pat.2 < pat.1) :
    hllDenseAdd h ele = (raised h pat.2 pat.1, 1) := by
  unfold hllDenseAdd
  rw [hpat]
  exact if_pos hlt

theorem hllDenseAdd_spec (h : Hll) (ele : Bytes) :
    hllDenseAdd h ele = (h, 0) ∨ ∃ index count, hllDenseAdd h ele = (raised h index count, 1) := by
  obtain ⟨pat, hpat⟩ : ∃ pat, hllPatLen ele = pat := ⟨_, rfl⟩
  by_cases hlt : HLL_DENSE_GET_REGISTER h.registers pat.2 < pat.1
  · exact Or.inr ⟨pat.2, pat.1, hllDenseAdd_of_lt hpat hlt⟩
  · refine Or.inl ?_
    unfold hllDenseAdd
    rw [hpat]
    exact if_neg hlt

theorem valid_raised {h : Hll} (hv : Valid h) (he : h.encoding = .dense) (index count : Nat) :
    Valid (raised h index count) := by
  unfold Valid at hv ⊢
  rw [he] at hv
  rw [raised_encoding, he]
  unfold raised
  simp only
  rw [length_setRegister, hv]

theorem promote_spec {h : Hll} (hv : Valid h) (he : h.encoding = .sparse) {ele : Bytes}
    {pat : Nat × Nat} (hpat : hllPatLen ele = pat)
    (hlt : (sparseRegisters h.registers).getD pat.2 0 < pat.1) :
    ∃ h', promote h ele = some (h', 1) ∧ h'.encoding = .dense ∧ Valid h' := by
  obtain ⟨registers, hdense, hlen, hget⟩ := hllSparseToDense_spec hv he
  generalize hd : ({ h with encoding := .dense, registers := registers } : Hll) = d at hdense
  have hde : d.encoding = .dense := by rw [← hd]
  have hdr : d.registers = registers := by rw [← hd]
  have hdv : Valid d := by
    unfold Valid
    rw [hde, hdr]
    exact hlen
  have hraise : HLL_DENSE_GET_REGISTER d.registers pat.2 < pat.1 := by
    rw [hdr, hget]
    exact hlt
  have hadd := hllDenseAdd_of_lt hpat hraise
  refine ⟨raised d pat.2 pat.1, ?_, (raised_encoding d _ _).trans hde, valid_raised hdv hde _ _⟩
  unfold promote
  rw [hdense]
  show (if (hllDenseAdd d ele).2 = 1 then some ((hllDenseAdd d ele).1, (1 : Int)) else none) = _
  rw [hadd]
  exact if_pos rfl

theorem valid_cache_invalidated (h : Hll) : HLL_VALID_CACHE (HLL_INVALIDATE_CACHE h) = false := by
  have hbit : (h.card ||| 128) &&& 128 = 128 := by
    apply UInt64.toNat_inj.mp
    rw [UInt64.toNat_and, UInt64.toNat_or]
    refine Nat.eq_of_testBit_eq fun k => ?_
    rw [Nat.testBit_and, Nat.testBit_or]
    cases (128 : UInt64).toNat.testBit k <;> simp
  unfold HLL_VALID_CACHE HLL_INVALIDATE_CACHE
  simp only [hbit]
  decide

theorem updated_spec {h : Hll} (he : h.encoding = .sparse) {before rest : Bytes}
    (hb : Whole before) (hr : Whole rest)
    (hlen : (sparseRegisters (before ++ rest)).length = HLL_REGISTERS) :
    Valid (updated h before rest).1 ∧ HLL_VALID_CACHE (updated h before rest).1 = false ∧
      (updated h before rest).2 = 1 := by
  obtain ⟨hwhole, hregs⟩ := mergeValues_spec 5 before rest hb hr
  refine ⟨?_, valid_cache_invalidated _, rfl⟩
  unfold Valid updated HLL_INVALIDATE_CACHE
  simp only [he]
  exact ⟨hwhole, by rw [hregs, hlen]⟩

def SparseAdded (h : Hll) (r : Hll × Int) : Prop :=
  r = (h, 0) ∨ r.2 = 1 ∧ Valid r.1 ∧ (r.1.encoding = .dense ∨ HLL_VALID_CACHE r.1 = false)

theorem sparseAdded_promote {h : Hll} (hv : Valid h) (he : h.encoding = .sparse) {ele : Bytes}
    {pat : Nat × Nat} (hpat : hllPatLen ele = pat)
    (hlt : (sparseRegisters h.registers).getD pat.2 0 < pat.1) :
    ∃ r, promote h ele = some r ∧ SparseAdded h r := by
  obtain ⟨h', hp, hdense, hv'⟩ := promote_spec hv he hpat hlt
  exact ⟨_, hp, Or.inr ⟨rfl, hv', Or.inl hdense⟩⟩

theorem getD_le_of_inRange (ops : List Opcode) (hops : ∀ op ∈ ops, InRange op) (i : Nat) :
    (ops.flatMap runOf).getD i 0 ≤ 32 := by
  rw [List.getD_eq_getElem?_getD]
  cases hi : (ops.flatMap runOf)[i]? with
  | none => exact Nat.zero_le _
  | some x =>
    obtain ⟨op, hop, hx⟩ := List.mem_flatMap.mp (List.mem_of_getElem? hi)
    have hr := hops op hop
    cases op with
    | zero len => rw [Option.getD_some, (List.mem_replicate.mp hx).2]; omega
    | xzero len => rw [Option.getD_some, (List.mem_replicate.mp hx).2]; omega
    | val value len => rw [Option.getD_some, (List.mem_replicate.mp hx).2]; exact hr.2.1

theorem getD_located {index : Nat} {sparse : Bytes} {l : Located} (hl : LocatedAt index sparse l)
    {b : UInt8} {bs : Bytes} (hrest : l.rest = b :: bs)
    (hlt : index < l.first + opcodeLen (opcodeAt b (bs.headD 0))) :
    (sparseRegisters sparse).getD index 0 =
      (runOf (opcodeAt b (bs.headD 0))).getD (index - l.first) 0 := by
  have hr := hl.rest
  rw [hrest] at hr
  obtain ⟨-, -, -, hregs⟩ := whole_cons hr
  have hbp : Whole (l.before ++ l.prev) := (whole_append hl.before _).mpr hl.prev
  rw [← hl.string, sparseRegisters_append hbp, hrest, hregs, List.getD_eq_getElem?_getD,
    List.getD_eq_getElem?_getD, List.getElem?_append_right (by rw [← hl.first]; exact hl.le),
    ← hl.first, List.getElem?_append_left]
  rw [length_runOf]
  have := hl.le
  omega

theorem xzero_of_opcodeAt {b c : UInt8} :
    HLL_SPARSE_IS_XZERO b = true ↔ ∃ len, opcodeAt b c = .xzero len := by
  have hexcl : HLL_SPARSE_IS_XZERO b = true → HLL_SPARSE_IS_ZERO b = false := by
    intro hx
    unfold HLL_SPARSE_IS_XZERO at hx
    unfold HLL_SPARSE_IS_ZERO
    rw [eq_of_beq hx]
    rfl
  unfold opcodeAt
  constructor
  · intro hx
    exact ⟨_, by rw [hexcl hx, hx]; rfl⟩
  · rintro ⟨len, h⟩
    split at h
    · cases h
    · split at h
      case isTrue hx => exact hx
      case isFalse => cases h

theorem replaced_spec {h : Hll} (hv : Valid h) (he : h.encoding = .sparse) {index : Nat} {l : Located}
    (hl : LocatedAt index h.registers l) {b : UInt8} {bs : Bytes} (hrest : l.rest = b :: bs)
    {seq : Bytes} (hseq : Whole seq)
    (hlen : (sparseRegisters seq).length = opcodeLen (opcodeAt b (bs.headD 0))) :
    SparseAdded h (updated h l.before (l.prev ++ (seq ++ (b :: bs).drop (opcodeBytes b)))) := by
  unfold Valid at hv
  rw [he] at hv
  have hr := hl.rest
  rw [hrest] at hr
  obtain ⟨-, -, hdrop, hregs⟩ := whole_cons hr
  have hbp : Whole (l.before ++ l.prev) := (whole_append hl.before _).mpr hl.prev
  have htotal := hv.2
  rw [← hl.string, sparseRegisters_append hbp, hrest, hregs, List.length_append, List.length_append,
    length_runOf] at htotal
  obtain ⟨hvalid, hcache, hret⟩ := @updated_spec h he l.before
    (l.prev ++ (seq ++ (b :: bs).drop (opcodeBytes b))) hl.before
    ((whole_append hl.prev _).mpr ((whole_append hseq _).mpr hdrop)) (by
      rw [← List.append_assoc, sparseRegisters_append hbp, sparseRegisters_append hseq,
        List.length_append, List.length_append, hlen]
      exact htotal)
  exact Or.inr ⟨hret, hvalid, Or.inr hcache⟩

theorem splitAndUpdate_spec (hll_sparse_max_bytes : Nat) {h : Hll} (hv : Valid h)
    (he : h.encoding = .sparse) {ele : Bytes} {count index : Nat}
    (hpat : hllPatLen ele = (count, index)) (hcount : 1 ≤ count ∧ count ≤ 32) {l : Located}
    (hl : LocatedAt index h.registers l) {b : UInt8} {bs : Bytes} (hrest : l.rest = b :: bs)
    (hspan : l.span = opcodeLen (opcodeAt b (bs.headD 0))) (hlt : index < l.first + l.span)
    (hgt : (runOf (opcodeAt b (bs.headD 0))).getD (index - l.first) 0 < count) :
    ∃ r, hllSparseAdd.splitAndUpdate hll_sparse_max_bytes ele h l (opcodeAt b (bs.headD 0))
      (opcodeBytes b) count index = some r ∧ SparseAdded h r := by
  rw [hspan] at hlt
  have hseq := splitOpcode_spec (inRange_opcodeAt b (bs.headD 0)) hcount hl.le hlt
  rw [← hspan] at hseq hlt
  have hreplaced := replaced_spec hv he hl hrest hseq.1 (by rw [hseq.2, hspan])
  unfold hllSparseAdd.splitAndUpdate
  by_cases hbig : (splitOpcode (opcodeAt b (bs.headD 0)) index l.first (l.first + l.span - 1)
      count).length > opcodeBytes b ∧ HLL_HDR_SIZE + h.registers.length +
      ((splitOpcode (opcodeAt b (bs.headD 0)) index l.first (l.first + l.span - 1) count).length -
        opcodeBytes b) > hll_sparse_max_bytes
  · rw [if_pos hbig]
    refine sparseAdded_promote hv he hpat ?_
    rw [hspan] at hlt
    show (sparseRegisters h.registers).getD index 0 < count
    rw [getD_located hl hrest hlt]
    exact hgt
  · rw [if_neg hbig, hrest, List.append_assoc]
    exact ⟨_, rfl, hreplaced⟩

theorem hllSparseAdd_spec (hll_sparse_max_bytes : Nat) {h : Hll} (hv : Valid h)
    (he : h.encoding = .sparse) (ele : Bytes) :
    ∃ r, hllSparseAdd hll_sparse_max_bytes h ele = some r ∧ SparseAdded h r := by
  obtain ⟨⟨count, index⟩, hpat⟩ : ∃ pat, hllPatLen ele = pat := ⟨_, rfl⟩
  have hspec := hllPatLen_spec ele
  rw [hpat] at hspec
  obtain ⟨hone, hindex⟩ := hspec
  have hparts := hv
  unfold Valid at hparts
  rw [he] at hparts
  unfold hllSparseAdd
  rw [hpat]
  by_cases hbig : count > HLL_SPARSE_VAL_MAX_VALUE
  · simp only [if_pos hbig]
    refine sparseAdded_promote hv he hpat ?_
    exact lt_of_le_of_lt (getD_le_of_inRange _ (inRange_opcodes h.registers) index) hbig
  · simp only [if_neg hbig]
    have hcount : 1 ≤ count ∧ count ≤ 32 := ⟨hone, not_lt.mp hbig⟩
    have hl := locate_spec index h.registers [] [] 0 0 trivial trivial hparts.1 rfl (Nat.zero_le _)
    generalize locate index [] [] h.registers 0 0 = l at hl ⊢
    change LocatedAt index h.registers l at hl
    obtain ⟨b, bs, hrest, hspan, hlt⟩ := hl.found (by rw [hparts.2]; exact hindex)
    have hr := hl.rest
    rw [hrest] at hr
    have hbytes := (whole_cons hr).1
    have hrange := inRange_opcodeAt b (bs.headD 0)
    have hpos : l.span ≠ 0 := by
      have := opcodeLen_pos hrange
      omega
    have hsplit := splitAndUpdate_spec hll_sparse_max_bytes hv he hpat hcount hl hrest hspan hlt
    have hone_val := @sparseRegisters_val _ 1 hcount ⟨le_refl 1, by omega⟩
    have hsingle : opcodeLen (opcodeAt b (bs.headD 0)) = 1 → HLL_SPARSE_IS_XZERO b = false →
        SparseAdded h (updated h l.before (l.prev ++ HLL_SPARSE_VAL_SET count 1 :: bs)) := by
      intro hlen hno
      have hreplaced := replaced_spec hv he hl hrest hone_val.1
        (by rw [hone_val.2, List.length_replicate, hlen])
      rw [opcodeBytes, hno] at hreplaced
      exact hreplaced
    have hnot : ∀ op, opcodeAt b (bs.headD 0) = op → (∀ len, op ≠ .xzero len) →
        HLL_SPARSE_IS_XZERO b = false := by
      intro op hop hne
      rw [← Bool.not_eq_true]
      intro hx
      obtain ⟨len, h⟩ := (xzero_of_opcodeAt (c := bs.headD 0)).mp hx
      exact hne len (hop.symm.trans h)
    have hfold : (if HLL_SPARSE_IS_XZERO b = true then 2 else 1) = opcodeBytes b := rfl
    rw [if_neg hpos, hrest]
    simp only [hfold]
    rw [if_neg (not_lt.mpr hbytes)]
    cases hop : opcodeAt b (bs.headD 0) with
    | val value len =>
      rw [hop] at hsplit hsingle
      simp only
      split
      case isTrue => exact ⟨_, rfl, Or.inl rfl⟩
      case isFalse hgt =>
        split
        case isTrue hlen => exact ⟨_, rfl, hsingle hlen (hnot _ hop fun _ h => by cases h)⟩
        case isFalse =>
          refine hsplit (lt_of_le_of_lt ?_ (not_le.mp hgt))
          rw [runOf, List.getD_eq_getElem?_getD, List.getElem?_replicate]
          split
          · exact le_refl _
          · exact Nat.zero_le _
    | zero len =>
      rw [hop] at hsplit hsingle
      simp only
      split
      case isTrue hlen => exact ⟨_, rfl, hsingle hlen (hnot _ hop fun _ h => by cases h)⟩
      case isFalse =>
        refine hsplit (lt_of_le_of_lt ?_ hone)
        rw [runOf, List.getD_eq_getElem?_getD, List.getElem?_replicate]
        split <;> exact le_refl _
    | xzero len =>
      rw [hop] at hsplit
      refine hsplit (lt_of_le_of_lt ?_ hone)
      rw [runOf, List.getD_eq_getElem?_getD, List.getElem?_replicate]
      split <;> exact le_refl _

/-! ## The commands -/

section Commands

variable {estimate : ℚ → Nat → UInt64} {ok : Hll → Prop}

/-- What the commands keep of the cache of a value: it holds where the mark is set, of a new value and of one
that was just counted. -/
structure CacheRule (estimate : ℚ → Nat → UInt64) (ok : Hll → Prop) : Prop where
  invalid : ∀ h, HLL_VALID_CACHE h = false → ok h
  created : ok createHLLObject
  counted : ∀ h : Hll, ok { h with card := countOf estimate h }

def CacheOk (estimate : ℚ → Nat → UInt64) (h : Hll) : Prop :=
  HLL_VALID_CACHE h = true → h.card = countOf estimate h

theorem valid_invalidate {h : Hll} (hv : Valid h) : Valid (HLL_INVALIDATE_CACHE h) := hv

def Good (ok : Hll → Prop) (db : Db) : Prop := ∀ key h, db key = some h → Valid h ∧ ok h

theorem Good.update {db : Db} (hg : Good ok db) {key : Bytes} {h : Hll} (hv : Valid h) (hc : ok h) :
    Good ok (Function.update db key (some h)) := by
  intro k x hx
  by_cases hk : k = key
  · subst hk
    rw [Function.update_self] at hx
    cases hx
    exact ⟨hv, hc⟩
  · rw [Function.update_of_ne hk] at hx
    exact hg k x hx

theorem hllAdd_spec (hll_sparse_max_bytes : Nat) {h : Hll} (hv : Valid h) (ele : Bytes) :
    ∃ r, hllAdd hll_sparse_max_bytes h ele = some r ∧ SparseAdded h r := by
  unfold hllAdd
  cases he : h.encoding with
  | sparse => exact hllSparseAdd_spec hll_sparse_max_bytes hv he ele
  | dense =>
    refine ⟨hllDenseAdd h ele, rfl, ?_⟩
    rcases hllDenseAdd_spec h ele with hadd | ⟨index, count, hadd⟩
    · rw [hadd]
      exact Or.inl rfl
    · rw [hadd]
      exact Or.inr ⟨rfl, valid_raised hv he index count,
        Or.inl ((raised_encoding h index count).trans he)⟩

theorem addElements_spec (hok : CacheRule estimate ok) (hll_sparse_max_bytes : Nat) (eles : List Bytes) {h : Hll}
    {updated : Nat} (hv : Valid h) (hc : updated = 0 ∨ h.encoding = .sparse → ok h) :
    ∃ h' updated', addElements hll_sparse_max_bytes h updated eles = some (h', updated', false) ∧
      Valid h' ∧ (updated' = 0 ∨ h'.encoding = .sparse → ok h') := by
  induction eles generalizing h updated with
  | nil => exact ⟨h, updated, rfl, hv, hc⟩
  | cons ele eles ih =>
    obtain ⟨⟨h₁, retval⟩, hadd, hcases⟩ := hllAdd_spec hll_sparse_max_bytes hv ele
    rw [addElements, hadd, Option.bind_eq_bind, Option.bind_some]
    simp only
    rcases hcases with hsame | ⟨hret, hv₁, hmark⟩
    · obtain ⟨rfl, rfl⟩ := Prod.mk.inj hsame
      rw [if_neg (by decide), if_neg (by decide)]
      exact ih hv hc
    · obtain rfl : retval = 1 := hret
      rw [if_neg (by decide), if_pos rfl]
      refine ih hv₁ fun hor => ?_
      rcases hor with hzero | hsparse
      · exact absurd hzero (Nat.succ_ne_zero _)
      · rcases hmark with hdense | hinvalid
        · rw [hsparse] at hdense
          cases hdense
        · exact hok.invalid h₁ hinvalid

theorem valid_created : Valid createHLLObject := by
  have hregs := @sparseRegisters_zeroRun 16384 ⟨by omega, le_refl _⟩
  exact ⟨hregs.1, (congrArg List.length hregs.2).trans (List.length_replicate ..)⟩

theorem cacheRule_cacheOk (hempty : estimate 16384 16384 = 0) :
    CacheRule estimate (CacheOk estimate) where
  invalid h hc htrue := by
    rw [hc] at htrue
    cases htrue
  created _ := by
    have hregs := @sparseRegisters_zeroRun 16384 ⟨by omega, le_refl _⟩
    show 0 = estimate (sums (sparseRegisters (zeroRun 16384))).1
      (sums (sparseRegisters (zeroRun 16384))).2
    rw [hregs.2, sums_replicate, PE_zero, if_pos rfl, mul_one]
    exact hempty.symm
  counted _ _ := rfl

theorem pfadd_good (hok : CacheRule estimate ok) (hll_sparse_max_bytes : Nat) {db : Db}
    (hg : Good ok db) (key : Bytes) (eles : List Bytes) :
    ∃ db' reply, pfaddCommand hll_sparse_max_bytes db key eles = some (db', reply) ∧
      Good ok db' := by
  have hadd : ∀ h created, Valid h → ok h → ∀ f : Hll × Nat × Bool → Option (Db × Reply),
      (∀ h' updated, f (h', updated, false) =
        some (Function.update db key (some (if updated ≠ 0 then HLL_INVALIDATE_CACHE h' else h')),
          .integer (if updated ≠ 0 then 1 else 0))) →
      ∃ db' reply, (addElements hll_sparse_max_bytes h created eles).bind f = some (db', reply) ∧
        Good ok db' := by
    intro h created hv hc f hf
    obtain ⟨h', updated, hall, hv', hc'⟩ :=
      @addElements_spec _ _ hok hll_sparse_max_bytes eles h created hv fun _ => hc
    rw [hall, Option.bind_some, hf]
    refine ⟨_, _, rfl, ?_⟩
    by_cases hzero : updated = 0
    · rw [if_neg (not_not.mpr hzero)]
      exact hg.update hv' (hc' (Or.inl hzero))
    · rw [if_pos hzero]
      exact hg.update (valid_invalidate hv') (hok.invalid _ (valid_cache_invalidated h'))
  unfold pfaddCommand
  cases hdb : db key with
  | none => exact hadd _ 1 valid_created hok.created _ fun _ _ => rfl
  | some h =>
    obtain ⟨hv, hc⟩ := hg key h hdb
    by_cases his : isHLLObject h = true
    · simp only [if_pos his]
      exact hadd h 0 hv hc _ fun _ _ => rfl
    · simp only [if_neg his]
      exact ⟨db, _, rfl, hg⟩

theorem maxRun_spec (regval runlen : Nat) {max : Nat → UInt8} {i : Nat}
    (hroom : i + runlen ≤ HLL_REGISTERS) :
    ∃ max', maxRun regval runlen max i = some (max', i + runlen) := by
  induction runlen generalizing max i with
  | zero => exact ⟨max, rfl⟩
  | succ runlen ih =>
    rw [maxRun, if_pos (by omega)]
    obtain ⟨max', h⟩ := @ih (if regval > (max i).toNat then
      Function.update max i (UInt8.ofNat regval) else max) (i + 1) (by omega)
    exact ⟨max', by rw [h]; congr 2; omega⟩

theorem maxRuns_spec (ops : List Opcode) {max : Nat → UInt8} {i : Nat}
    (hroom : i + (ops.flatMap runOf).length ≤ HLL_REGISTERS) :
    ∃ max', maxRuns ops max i = some (max', i + (ops.flatMap runOf).length) := by
  induction ops generalizing max i with
  | nil => exact ⟨max, rfl⟩
  | cons op ops ih =>
    rw [List.flatMap_cons, List.length_append, length_runOf, ← Nat.add_assoc] at hroom ⊢
    cases op with
    | zero len => exact ih hroom
    | xzero len => exact ih hroom
    | val value len =>
      obtain ⟨max₁, h₁⟩ := @maxRun_spec value len max i
        (by simp only [opcodeLen] at hroom; omega)
      rw [maxRuns, h₁, Option.bind_eq_bind, Option.bind_some]
      exact ih hroom

theorem hllMerge_spec {h : Hll} (hv : Valid h) (max : Nat → UInt8) :
    ∃ max', hllMerge max h = some (some max') := by
  unfold hllMerge
  cases he : h.encoding with
  | dense => exact ⟨_, rfl⟩
  | sparse =>
    unfold Valid at hv
    rw [he] at hv
    have htotal : 0 + ((opcodes h.registers).flatMap runOf).length = HLL_REGISTERS := by
      rw [Nat.zero_add]
      exact hv.2
    obtain ⟨max', hruns⟩ := @maxRuns_spec (opcodes h.registers) max 0
      (le_of_eq htotal)
    rw [htotal] at hruns
    simp only [hruns, bind, Option.bind, if_true]
    exact ⟨max', rfl⟩

theorem mergeKeys_spec {db : Db} (hv : ∀ key h, db key = some h → Valid h) (keys : List Bytes)
    (max : Nat → UInt8) : ∃ r, mergeKeys db max keys = some r := by
  induction keys generalizing max with
  | nil => exact ⟨_, rfl⟩
  | cons key keys ih =>
    rw [mergeKeys]
    cases hdb : db key with
    | none => exact ih max
    | some h =>
      simp only
      split
      · obtain ⟨max', hmerge⟩ := hllMerge_spec (hv key h hdb) max
        rw [hmerge, Option.bind_eq_bind, Option.bind_some]
        exact ih max'
      · exact ⟨_, rfl⟩

theorem pfcount_good (hok : CacheRule estimate ok) {db : Db} (hg : Good ok db) (keys : List Bytes) :
    ∃ db' reply, pfcountCommand estimate db keys = some (db', reply) ∧ Good ok db' := by
  have hmulti : ∀ f : Except Reply (Nat → UInt8) → Option (Db × Reply),
      (∀ r, ∃ reply, f r = some (db, reply)) →
      ∃ db' reply, (mergeKeys db (fun _ => 0) keys).bind f = some (db', reply) ∧ Good ok db' := by
    intro f hf
    obtain ⟨r, hr⟩ := mergeKeys_spec (fun key h hk => (hg key h hk).1) keys (fun _ => 0)
    obtain ⟨reply, hreply⟩ := hf r
    rw [hr, Option.bind_some]
    exact ⟨db, reply, hreply, hg⟩
  rcases keys with - | ⟨key, - | ⟨key₂, keys⟩⟩
  · unfold pfcountCommand
    refine hmulti _ fun r => ?_
    cases r <;> exact ⟨_, rfl⟩
  · unfold pfcountCommand
    simp only
    rcases hdb : db key with - | h
    · exact ⟨db, _, rfl, hg⟩
    · obtain ⟨hv, hc⟩ := hg key h hdb
      simp only
      split
      · exact ⟨db, _, rfl, hg⟩
      · split
        · exact ⟨db, _, rfl, hg⟩
        · rw [hllCount_eq estimate hv]
          exact ⟨_, _, rfl, hg.update (h := { h with card := countOf estimate h }) hv (hok.counted h)⟩
  · refine hmulti _ fun r => ?_
    cases r <;> exact ⟨_, rfl⟩

theorem length_setRegisters (registers : Bytes) (max : Nat → UInt8) (n : Nat) :
    (setRegisters registers max n).length = registers.length := by
  induction n with
  | zero => rfl
  | succ n ih => rw [setRegisters, length_setRegister, ih]

theorem hllSparseToDense_valid {h : Hll} (hv : Valid h) :
    ∃ d, hllSparseToDense h = some (some d) ∧ d.encoding = .dense ∧ Valid d := by
  cases he : h.encoding with
  | dense => exact ⟨h, by unfold hllSparseToDense; rw [he], he, hv⟩
  | sparse =>
    obtain ⟨registers, hdense, hlen, -⟩ := hllSparseToDense_spec hv he
    exact ⟨_, hdense, rfl, hlen⟩

theorem pfmerge_good (hok : CacheRule estimate ok) {db : Db} (hg : Good ok db)
    (dest : Bytes) (sources : List Bytes) :
    ∃ db' reply, pfmergeCommand db dest sources = some (db', reply) ∧ Good ok db' := by
  obtain ⟨r, hr⟩ := mergeKeys_spec (fun key h hk => (hg key h hk).1) (dest :: sources) (fun _ => 0)
  unfold pfmergeCommand
  rw [hr, Option.bind_eq_bind, Option.bind_some]
  cases r with
  | error reply => exact ⟨db, reply, rfl, hg⟩
  | ok max =>
    have hv : Valid ((db dest).getD createHLLObject) := by
      cases hdb : db dest with
      | none => exact valid_created
      | some h => exact (hg dest h hdb).1
    generalize (db dest).getD createHLLObject = h at hv
    obtain ⟨d, hd, hde, hdv⟩ := hllSparseToDense_valid hv
    simp only [hd]
    refine ⟨_, _, rfl, hg.update ?_ (hok.invalid _ (valid_cache_invalidated _))⟩
    unfold Valid at hdv ⊢
    rw [hde] at hdv
    unfold HLL_INVALIDATE_CACHE
    simp only [hde]
    rw [length_setRegisters, hdv]

theorem step_good (hok : CacheRule estimate ok) {db : Db} (hg : Good ok db) (command : Command) :
    ∃ db' reply, step estimate db command = some (db', reply) ∧ Good ok db' := by
  cases command with
  | pfadd hll_sparse_max_bytes key eles => exact pfadd_good hok hll_sparse_max_bytes hg key eles
  | pfcount keys => exact pfcount_good hok hg keys
  | pfmerge dest sources => exact pfmerge_good hok hg dest sources

theorem run_good (hok : CacheRule estimate ok) (commands : List Command) {db : Db}
    (hg : Good ok db) : ∃ db', run estimate db commands = some db' ∧ Good ok db' := by
  induction commands generalizing db with
  | nil => exact ⟨db, rfl, hg⟩
  | cons command commands ih =>
    obtain ⟨db₁, reply, hstep, hg₁⟩ := step_good hok hg command
    obtain ⟨db₂, hrun, hg₂⟩ := ih hg₁
    refine ⟨db₂, ?_, hg₂⟩
    rw [run, List.foldlM_cons, hstep, Option.map_some, Option.bind_eq_bind, Option.bind_some]
    exact hrun

end Commands

end RedisCluster.Hyperloglog
