import RedisCluster.Cluster.Proofs.RoleProofs

/-!
# Removing a slave from the list of its master

`clusterNodeRemoveSlave` shifts the pointers behind the entry with `memmove`, but gives it the number
of these pointers where it wants a number of bytes. `mixed` is what is then in their place.
-/

namespace RedisCluster.Bus

open RedisCluster.Lib BusState

variable {ν : Type}

def removeSlaveFound (master slave : Addr) (c : BusState ν) : Bool :=
  decide ((c.slavesOf master).idxOf slave < (c.slavesOf master).length)

/-- The `slaves` array has room for its entries, which are 64-bit pointers. -/
structure SlaveArray (c : BusState ν) (master : Addr) : Prop where
  room : (c.info master).numslaves ≤ (c.info master).slaves.length
  fits : ∀ p ∈ (c.info master).slaves, p < 2 ^ 64

def RemovesSlave (master slave : Addr) (c : BusState ν) : Prop :=
  if slave ∈ c.slavesOf master then
    removeSlaveFound master slave c = true ∧
      (clusterNodeRemoveSlave master slave c).slavesOf master = (c.slavesOf master).erase slave ∧
      ((clusterNodeRemoveSlave master slave c).info master).numslaves = (c.info master).numslaves - 1
  else removeSlaveFound master slave c = false ∧ clusterNodeRemoveSlave master slave c = c

def mixPointer (t : Nat) (b a : Addr) : Addr := b % 256 ^ t + 256 ^ t * (a / 256 ^ t)

def mixed : Nat → List Addr → List Addr → List Addr
  | m, b :: bs, a :: as => mixPointer m b a :: mixed (m - 8) bs as
  | _, _, as => as

/-- Every pointer behind the entry of the slave has the bytes that `memmove` leaves out in common
with the pointer before it. -/
def TailAgrees : Nat → List Addr → Prop
  | m, a :: b :: as => a / 256 ^ m = b / 256 ^ m ∧ TailAgrees (m - 8) (b :: as)
  | _, _ => True

theorem leNat_append (xs ys : List UInt8) :
    leNat (xs ++ ys) = leNat xs + 256 ^ xs.length * leNat ys := by
  induction xs with
  | nil => simp [leNat]
  | cons x xs ih =>
    rw [List.cons_append, leNat, ih, leNat, List.length_cons, Nat.pow_succ]
    ring

theorem take_leBytes {m w : Nat} (hm : m ≤ w) (v : Int) : (leBytes w v).take m = leBytes m v := by
  induction m generalizing w v with
  | zero => rfl
  | succ m ih =>
    cases w with
    | zero => omega
    | succ w => rw [leBytes, leBytes, List.take_succ_cons, ih (by omega)]

theorem drop_leBytes (m w : Nat) (a : Nat) :
    (leBytes (m + w) (a : Int)).drop m = leBytes w ((a / 256 ^ m : Nat) : Int) := by
  induction m generalizing a with
  | zero => simp
  | succ m ih =>
    have hstep : ((a : Int) / 256) = ((a / 256 : Nat) : Int) := by simp
    rw [Nat.add_right_comm, leBytes, List.drop_succ_cons, hstep, ih, Nat.div_div_eq_div_mul,
      Nat.pow_succ']

theorem leNat_leBytes_mod (w a : Nat) : leNat (leBytes w (a : Int)) = a % 256 ^ w := by
  have h := leNat_leBytes w (a : Int)
  exact_mod_cast h

theorem leNat_mix {m : Nat} (hm : m ≤ 8) {a : Addr} (ha : a < 2 ^ 64) (b : Addr) :
    leNat ((leBytes 8 (b : Int)).take m ++ (leBytes 8 (a : Int)).drop m) = mixPointer m b a := by
  obtain ⟨w, hw⟩ : ∃ w, 8 = m + w := ⟨8 - m, by omega⟩
  have hhigh : a / 256 ^ m < 256 ^ w := by
    rw [Nat.div_lt_iff_lt_mul (by positivity), ← Nat.pow_add, Nat.add_comm w, ← hw]
    exact ha
  rw [take_leBytes hm, hw, drop_leBytes, leNat_append, leNat_leBytes_mod, leNat_leBytes_mod,
    Nat.mod_eq_of_lt hhigh, length_leBytes]
  rfl

theorem mixPointer_eq_iff (t : Nat) (b a : Addr) :
    mixPointer t b a = b ↔ a / 256 ^ t = b / 256 ^ t := by
  have hsplit : b % 256 ^ t + 256 ^ t * (b / 256 ^ t) = b := Nat.mod_add_div b _
  constructor
  · intro h
    have hmul : 256 ^ t * (a / 256 ^ t) = 256 ^ t * (b / 256 ^ t) :=
      Nat.add_left_cancel (h.trans hsplit.symm)
    exact Nat.eq_of_mul_eq_mul_left (by positivity) hmul
  · intro h
    rw [mixPointer, h, hsplit]

theorem pointers_leBytes_append {bs : List UInt8} (h : bs.length = 8) (rest : List UInt8) :
    pointers (bs ++ rest) = leNat bs :: pointers rest := by
  obtain ⟨a, b, c, d, e, f, g, i, rfl⟩ : ∃ a b c d e f g i, bs = [a, b, c, d, e, f, g, i] := by
    match bs, h with
    | [a, b, c, d, e, f, g, i], _ => exact ⟨a, b, c, d, e, f, g, i, rfl⟩
  rfl

theorem mixed_zero (bs as : List Addr) : mixed 0 bs as = as := by
  induction as generalizing bs with
  | nil => cases bs <;> rfl
  | cons a as ih =>
    cases bs with
    | nil => rfl
    | cons b bs => simp [mixed, mixPointer, Nat.mod_one, ih]

theorem pointers_moved (bs as : List Addr) (m : Nat) (hm : m ≤ bs.length)
    (hle : bs.length ≤ as.length) (hbs : ∀ p ∈ bs, p < 2 ^ 64) (has : ∀ p ∈ as, p < 2 ^ 64) :
    pointers (((pointerBytes bs).take m ++ (pointerBytes as).drop m).take (8 * ((m + 7) / 8))) ++
      as.drop ((m + 7) / 8) = mixed m bs as := by
  induction bs generalizing as m with
  | nil =>
    obtain rfl : m = 0 := by simpa using hm
    simp [pointers, mixed_zero]
  | cons b bs ih =>
    obtain ⟨a, as, rfl⟩ := List.exists_cons_of_length_pos (Nat.lt_of_lt_of_le (by simp) hle)
    simp only [List.length_cons] at hm hle
    obtain ⟨hb, hbs'⟩ := List.forall_mem_cons.mp hbs
    obtain ⟨ha, has'⟩ := List.forall_mem_cons.mp has
    have hbytes : ∀ p ps, pointerBytes (p :: ps) = leBytes 8 (p : Int) ++ pointerBytes ps :=
      fun _ _ => rfl
    have htop : ∀ p : Addr, (leBytes 8 (p : Int)).length = 8 := fun _ => length_leBytes 8 _
    rcases Nat.eq_zero_or_pos m with rfl | hpos
    · simp [pointers, mixed_zero]
    by_cases h8 : m < 8
    · -- the last pointer that is written to
      have hk : (m + 7) / 8 = 1 := by omega
      have hblock : ((leBytes 8 (b : Int)).take m ++ (leBytes 8 (a : Int)).drop m).length = 8 := by
        simp only [List.length_append, List.length_take, List.length_drop, htop]
        omega
      have hcut : ((pointerBytes (b :: bs)).take m ++ (pointerBytes (a :: as)).drop m).take (8 * 1) =
          (leBytes 8 (b : Int)).take m ++ (leBytes 8 (a : Int)).drop m := by
        have hlow : (pointerBytes (b :: bs)).take m = (leBytes 8 (b : Int)).take m := by
          rw [hbytes, List.take_append_of_le_length (by rw [htop]; omega)]
        have hhigh : (pointerBytes (a :: as)).drop m =
            (leBytes 8 (a : Int)).drop m ++ pointerBytes as := by
          rw [hbytes, List.drop_append_of_le_length (by rw [htop]; omega)]
        rw [hlow, hhigh, ← List.append_assoc, List.take_append_of_le_length (by rw [hblock]),
          List.take_of_length_le (by rw [hblock])]
      have hone := pointers_leBytes_append hblock []
      rw [List.append_nil] at hone
      rw [hk, hcut, hone, leNat_mix (by omega) ha, mixed, show m - 8 = 0 by omega, mixed_zero]
      rfl
    · obtain ⟨n, rfl⟩ : ∃ n, m = 8 + n := ⟨m - 8, by omega⟩
      have hk : (8 + n + 7) / 8 = (n + 7) / 8 + 1 := by omega
      have htake : (pointerBytes (b :: bs)).take (8 + n) =
          leBytes 8 (b : Int) ++ (pointerBytes bs).take n := by
        rw [hbytes, List.take_append, htop, Nat.add_sub_cancel_left,
          List.take_of_length_le (by rw [htop]; omega)]
      have hdrop : (pointerBytes (a :: as)).drop (8 + n) = (pointerBytes as).drop n := by
        rw [hbytes, List.drop_append, htop, Nat.add_sub_cancel_left,
          List.drop_eq_nil_of_le (by rw [htop]; omega), List.nil_append]
      have hcut : ∀ xs : List UInt8, (leBytes 8 (b : Int) ++ xs).take (8 * ((n + 7) / 8 + 1)) =
          leBytes 8 (b : Int) ++ xs.take (8 * ((n + 7) / 8)) := by
        intro xs
        rw [List.take_append, htop, List.take_of_length_le (by rw [htop]; omega), Nat.mul_add_one,
          Nat.add_sub_cancel]
      have hwhole : leNat (leBytes 8 (b : Int)) = mixPointer (8 + n) b a := by
        have hb' : b < 256 ^ (8 + n) :=
          Nat.lt_of_lt_of_le hb (Nat.pow_le_pow_right (n := 256) (by decide) (Nat.le_add_right 8 n))
        have ha' : a < 256 ^ (8 + n) :=
          Nat.lt_of_lt_of_le ha (Nat.pow_le_pow_right (n := 256) (by decide) (Nat.le_add_right 8 n))
        have hb8 : b < 256 ^ 8 := hb
        rw [leNat_leBytes_mod, Nat.mod_eq_of_lt hb8, mixPointer, Nat.mod_eq_of_lt hb',
          Nat.div_eq_of_lt ha', Nat.mul_zero, Nat.add_zero]
      rw [hk, htake, hdrop, List.append_assoc, hcut, pointers_leBytes_append (htop b), hwhole,
        List.drop_succ_cons, List.cons_append, ih as n (by omega) (by omega) hbs' has', mixed,
        Nat.add_sub_cancel_left]

theorem mixed_take_iff (n m : Nat) (as : List Addr) (h : n < as.length) :
    (mixed m as.tail as).take n = as.tail.take n ↔ TailAgrees m (as.take (n + 1)) := by
  induction n generalizing m as with
  | zero => cases as <;> simp [TailAgrees]
  | succ n ih =>
    match as, h with
    | [_], h => simp at h
    | a :: b :: as, h =>
      have hrest := ih (m - 8) (b :: as) (by simpa using h)
      simp only [List.tail_cons, mixed, List.take_succ_cons, List.cons.injEq, TailAgrees,
        mixPointer_eq_iff] at hrest ⊢
      rw [hrest]

theorem moveSlaves_eq {slaves : List Addr} (hfits : ∀ p ∈ slaves, p < 2 ^ 64) {j n : Nat}
    (h : j + n < slaves.length) :
    moveSlaves slaves j n = slaves.take j ++ mixed n (slaves.drop (j + 1)) (slaves.drop j) := by
  have hmoved := pointers_moved (slaves.drop (j + 1)) (slaves.drop j) n
    (by rw [List.length_drop]; omega) (by simp only [List.length_drop]; omega)
    (fun p hp => hfits p (List.mem_of_mem_drop hp)) (fun p hp => hfits p (List.mem_of_mem_drop hp))
  rw [← hmoved, List.drop_drop]
  simp [moveSlaves, List.append_assoc]

theorem slavesOf_removeSlave {c : BusState ν} {master slave : Addr} (h : SlaveArray c master)
    (hmem : slave ∈ c.slavesOf master) :
    (clusterNodeRemoveSlave master slave c).slavesOf master = (c.slavesOf master).erase slave ↔
      TailAgrees ((c.info master).numslaves - 1 - (c.slavesOf master).idxOf slave)
        ((c.slavesOf master).drop ((c.slavesOf master).idxOf slave)) := by
  obtain ⟨hroom, hfits⟩ := h
  set j := (c.slavesOf master).idxOf slave with hj
  set xs := (c.info master).slaves
  set n := (c.info master).numslaves
  have hs : c.slavesOf master = xs.take n := rfl
  have hlen : (c.slavesOf master).length = n := by
    rw [hs, List.length_take]
    omega
  have hlt : j < (c.slavesOf master).length := List.idxOf_lt_length_of_mem hmem
  obtain ⟨m, hm⟩ : ∃ m, n = j + m + 1 := ⟨n - j - 1, by omega⟩
  have hcount : n - 1 - j = m := by omega
  have herase : (c.slavesOf master).erase slave = xs.take j ++ (xs.drop j).tail.take m := by
    rw [List.erase_eq_eraseIdx_of_idxOf hj.symm, List.eraseIdx_eq_take_drop_succ, hs, List.take_take,
      List.drop_take, List.tail_drop]
    congr 2 <;> omega
  have hafter : (clusterNodeRemoveSlave master slave c).slavesOf master =
      xs.take j ++ (mixed m (xs.drop j).tail (xs.drop j)).take m := by
    unfold clusterNodeRemoveSlave
    dsimp only
    rw [← hj, if_pos hlt, slavesOf_modInfo_self]
    show (moveSlaves xs j (n - 1 - j)).take (n - 1) = _
    have htake : (xs.take j).length = j := by
      rw [List.length_take]
      omega
    rw [hcount, moveSlaves_eq hfits (by omega), List.take_append, htake, List.tail_drop,
      List.take_of_length_le (by omega), show n - 1 - j = m by omega]
  have hdrop : (c.slavesOf master).drop j = (xs.drop j).take (m + 1) := by
    rw [hs, List.drop_take]
    congr 1
    omega
  have hroom' : m < (xs.drop j).length := by
    rw [List.length_drop]
    omega
  rw [hafter, herase, List.append_cancel_left_eq, mixed_take_iff m m _ hroom', hcount, hdrop]

/-- The entry of a slave is removed, and no other changes, exactly if what `memmove` does not move
is the same in each pointer from the slave on. -/
theorem removesSlave_iff_tailAgrees {c : BusState ν} {master : Addr} (slave : Addr) (h : SlaveArray c master) :
    RemovesSlave master slave c ↔
      TailAgrees ((c.info master).numslaves - 1 - (c.slavesOf master).idxOf slave)
        ((c.slavesOf master).drop ((c.slavesOf master).idxOf slave)) := by
  unfold RemovesSlave removeSlaveFound
  by_cases hmem : slave ∈ c.slavesOf master
  · have hlt := List.idxOf_lt_length_of_mem hmem
    have hnum : ((clusterNodeRemoveSlave master slave c).info master).numslaves =
        (c.info master).numslaves - 1 := by
      simp [clusterNodeRemoveSlave, hlt, BusState.modInfo, BusState.setInfo]
    rw [if_pos hmem, ← slavesOf_removeSlave h hmem]
    exact ⟨fun hr => hr.2.1, fun hr => ⟨decide_eq_true hlt, hr, hnum⟩⟩
  · have hidx : (c.slavesOf master).idxOf slave = (c.slavesOf master).length :=
      List.idxOf_eq_length hmem
    rw [if_neg hmem, hidx, List.drop_length]
    simp [clusterNodeRemoveSlave, hidx, TailAgrees]

theorem TailAgrees.last_eq {m : Nat} {as : List Addr} {x y : Addr}
    (h : TailAgrees m (as ++ [x, y])) (hm : m ≤ 8 * as.length) : x = y := by
  induction as generalizing m with
  | nil =>
    obtain rfl : m = 0 := by simpa using hm
    simpa [TailAgrees] using h
  | cons a as ih =>
    have hrest : TailAgrees (m - 8) (as ++ [x, y]) := by
      cases as <;> exact h.2
    rw [List.length_cons] at hm
    exact ih hrest (by omega)

/-- With two entries behind the slave, the last of them would have to be the one before it. -/
theorem not_tailAgrees {as : List Addr} {slave b b' : Addr} (hnd : (b :: b' :: as).Nodup) :
    ¬ TailAgrees (b :: b' :: as).length (slave :: b :: b' :: as) := by
  obtain ⟨pre, x, y, hpre⟩ : ∃ pre x y, b :: b' :: as = pre ++ [x, y] := by
    obtain ⟨x, y, hxy⟩ := List.length_eq_two.mp
      (show ((b :: b' :: as).drop as.length).length = 2 by simp; omega)
    exact ⟨(b :: b' :: as).take as.length, x, y, by rw [← hxy, List.take_append_drop]⟩
  rw [hpre] at hnd ⊢
  have hxy : x ≠ y := by simpa using (List.nodup_append.mp hnd).2.1
  intro hagree
  have hends : TailAgrees (pre ++ [x, y]).length ((slave :: pre) ++ [x, y]) := hagree
  refine hxy (hends.last_eq ?_)
  simp only [List.length_append, List.length_cons, List.length_nil]
  omega

/-- In an array of distinct entries only the last one is removed, and the one before it if the two
addresses differ in nothing but the lowest byte. -/
theorem removesSlave_iff_of_nodup {c : BusState ν} {master : Addr} (slave : Addr)
    (h : SlaveArray c master) (hnd : (c.slavesOf master).Nodup) :
    RemovesSlave master slave c ↔
      slave ∉ c.slavesOf master ∨ (c.slavesOf master).getLast? = some slave ∨
        ∃ init last, c.slavesOf master = init ++ [slave, last] ∧ slave / 256 = last / 256 := by
  have hlen : (c.slavesOf master).length = (c.info master).numslaves := by
    rw [BusState.slavesOf, List.length_take]
    exact min_eq_left h.room
  rw [removesSlave_iff_tailAgrees slave h, ← hlen]
  generalize c.slavesOf master = ps at hnd
  by_cases hmem : slave ∈ ps
  swap
  · simp [hmem, TailAgrees]
  obtain ⟨init, post, rfl, hnot⟩ := List.eq_append_cons_of_mem hmem
  have hidx : (init ++ slave :: post).idxOf slave = init.length := by
    rw [List.idxOf_append_of_notMem hnot, List.idxOf_cons_self, Nat.add_zero]
  have hdrop : (init ++ slave :: post).drop init.length = slave :: post := List.drop_left
  have hcount : (init ++ slave :: post).length - 1 - init.length = post.length := by
    simp only [List.length_append, List.length_cons]
    omega
  have hinj : ∀ init' ys, init ++ slave :: post = init' ++ slave :: ys → post = ys := by
    intro init' ys heq
    have hbehind : slave ∉ post := (List.nodup_cons.mp (List.nodup_append.mp hnd).2.1).1
    exact ((List.append_cons_inj_of_notMem hnot hbehind).mp heq).2.2
  have hright : (slave ∉ init ++ slave :: post ∨ (init ++ slave :: post).getLast? = some slave ∨
      ∃ init' last, init ++ slave :: post = init' ++ [slave, last] ∧ slave / 256 = last / 256) ↔
      post = [] ∨ ∃ last, post = [last] ∧ slave / 256 = last / 256 := by
    constructor
    · rintro (hout | hlast | ⟨init', last, heq, hbytes⟩)
      · exact absurd hmem hout
      · obtain ⟨ys, hys⟩ := List.getLast?_eq_some_iff.mp hlast
        exact .inl (hinj ys [] hys)
      · exact .inr ⟨last, hinj init' [last] heq, hbytes⟩
    · rintro (rfl | ⟨last, rfl, hbytes⟩)
      · exact .inr (.inl (by simp))
      · exact .inr (.inr ⟨init, last, rfl, hbytes⟩)
  rw [hright, hidx, hdrop, hcount]
  rcases post with - | ⟨b, - | ⟨b', post⟩⟩
  · simp [TailAgrees]
  · simp [TailAgrees]
  · have hbehind := (List.nodup_cons.mp (List.nodup_append.mp hnd).2.1).2
    exact iff_of_false (not_tailAgrees hbehind) (by simp)

theorem removeSlave_iff {c : BusState ν} {master : Addr} (slave : Addr) (h : SlaveArray c master) :
    (RemovesSlave master slave c ↔
      TailAgrees ((c.info master).numslaves - 1 - (c.slavesOf master).idxOf slave)
        ((c.slavesOf master).drop ((c.slavesOf master).idxOf slave))) ∧
    ((c.slavesOf master).Nodup →
      (RemovesSlave master slave c ↔
        slave ∉ c.slavesOf master ∨ (c.slavesOf master).getLast? = some slave ∨
          ∃ init last, c.slavesOf master = init ++ [slave, last] ∧ slave / 256 = last / 256)) :=
  ⟨removesSlave_iff_tailAgrees slave h, removesSlave_iff_of_nodup slave h⟩

def threeSlaves : BusState Nat :=
  [0x34444, 0x22222, 0x10000].foldr (clusterNodeAddSlave 0) (busInit 0 0 0 false)

theorem slaveArray_threeSlaves : SlaveArray threeSlaves 0 :=
  ⟨by decide, by decide⟩

theorem removeSlave_iff_three : RemovesSlave 0 0x34444 threeSlaves :=
  (removeSlave_iff 0x34444 slaveArray_threeSlaves).1.mpr trivial

/-- The first of three slaves: the third is gone, and the first entry points nowhere. -/
theorem removeSlave_tears :
    SlaveArray threeSlaves 0 ∧ threeSlaves.slavesOf 0 = [0x10000, 0x22222, 0x34444] ∧
      (clusterNodeRemoveSlave 0 0x10000 threeSlaves).slavesOf 0 = [0x12222, 0x22222] ∧
      ¬ RemovesSlave 0 0x10000 threeSlaves := by
  have hafter : (clusterNodeRemoveSlave 0 0x10000 threeSlaves).slavesOf 0 = [0x12222, 0x22222] := by
    decide
  refine ⟨slaveArray_threeSlaves, by decide, hafter, fun h => ?_⟩
  have hmem : (0x10000 : Addr) ∈ threeSlaves.slavesOf 0 := by decide
  rw [RemovesSlave, if_pos hmem, hafter] at h
  exact absurd h.2.1 (by decide)

end RedisCluster.Bus
