import Mathlib
import RedisCluster.Sentinel.Instance

/-!
# Proofs: the best slave

While the priorities of the slaves that pass the filters are close, the comparison is that of their keys
(`comparesBy_promotionKey`). Where two are further apart the one with the greatest priority compares less than
the best one, so that the best slave cannot come first.
-/

namespace RedisCluster.Sentinel

open RedisCluster.Util
open RedisCluster.Multi (cstr tolower)
open RedisCluster.Lib

theorem tolower_toNat_pos {c : UInt8} (h : c ≠ 0) : 0 < (tolower c).toNat := by
  have hpos : 0 < c.toNat := Nat.pos_of_ne_zero fun h0 => h (UInt8.toNat_inj.mp h0)
  unfold tolower
  split
  · rename_i hc
    have hle : c.toNat ≤ 90 := hc.2
    rw [UInt8.toNat_add]
    show 0 < (c.toNat + 32) % 256
    omega
  · exact hpos

theorem cstr_ne_zero {s : Bytes} {c : UInt8} (h : c ∈ cstr s) : c ≠ 0 := by
  simpa using List.all_eq_true.mp List.all_takeWhile c h

theorem tolower_toNat_inj {a b : UInt8} : tolower a = tolower b ↔ (tolower a).toNat = (tolower b).toNat :=
  UInt8.toNat_inj.symm

theorem strcasecmp_sign (a b : Bytes) (ha : ∀ c ∈ a, c ≠ 0) (hb : ∀ c ∈ b, c ≠ 0) :
    (strcasecmp a b < 0 ↔ (a.map fun c => (tolower c).toNat) < b.map fun c => (tolower c).toNat) ∧
      (0 < strcasecmp a b ↔ (b.map fun c => (tolower c).toNat) < a.map fun c => (tolower c).toNat) := by
  induction a generalizing b with
  | nil =>
    cases b with
    | nil => simp [strcasecmp]
    | cons b bs =>
      have := tolower_toNat_pos (hb b List.mem_cons_self)
      simp only [strcasecmp, List.map_nil, List.map_cons, List.nil_lt_cons, List.not_lt_nil, iff_true,
        iff_false]
      omega
  | cons a as ih =>
    have hapos := tolower_toNat_pos (ha a List.mem_cons_self)
    cases b with
    | nil =>
      simp only [strcasecmp, List.map_nil, List.map_cons, List.nil_lt_cons, List.not_lt_nil, iff_true,
        iff_false]
      omega
    | cons b bs =>
      have ih := ih bs (fun c hc => ha c (List.mem_cons_of_mem a hc)) fun c hc =>
        hb c (List.mem_cons_of_mem b hc)
      simp only [strcasecmp, List.map_cons, List.cons_lt_cons_iff]
      split
      · rename_i hsame
        rw [hsame]
        simpa using ih
      · rename_i hne
        have hne := fun h => hne (tolower_toNat_inj.mpr h)
        have hne' : ¬ (tolower b).toNat = (tolower a).toNat := fun h => hne h.symm
        simp only [hne', false_and, or_false]
        omega

theorem strcasecmp_lt_iff (a b : Bytes) :
    (strcasecmp (cstr a) (cstr b) < 0 ↔ caselessKey a < caselessKey b) ∧
      (0 < strcasecmp (cstr a) (cstr b) ↔ caselessKey b < caselessKey a) :=
  strcasecmp_sign _ _ (fun _ => cstr_ne_zero) fun _ => cstr_ne_zero

theorem smallerRunid_iff (a b : Option Bytes) : SmallerRunid a b ↔ runidKey a < runidKey b := by
  cases a with
  | none => exact ⟨False.elim, fun h => absurd h not_top_lt⟩
  | some a =>
    cases b with
    | none => exact ⟨fun _ => WithTop.coe_lt_top _, fun _ => trivial⟩
    | some b => exact WithTop.coe_lt_coe.symm

theorem runidKey_eq_iff (a b : Option Bytes) :
    runidKey a = runidKey b ↔ a.map caselessKey = b.map caselessKey := by
  cases a with
  | none =>
    cases b with
    | none => exact iff_of_true rfl rfl
    | some b => exact iff_of_false WithTop.top_ne_coe fun h => by cases h
  | some a =>
    cases b with
    | none => exact iff_of_false WithTop.coe_ne_top fun h => by cases h
    | some b => rw [Option.map_some, Option.map_some, Option.some_inj]; exact WithTop.coe_inj

theorem better_iff (a b : Slave) : Better a b ↔ promotionKey a < promotionKey b := by
  unfold Better promotionKey
  rw [smallerRunid_iff, Prod.Lex.toLex_lt_toLex, Prod.Lex.toLex_lt_toLex]
  simp only [neg_lt_neg_iff, Nat.cast_lt, neg_inj, Nat.cast_inj]

theorem not_better_iff (a b : Slave) : ¬ Better a b ↔ promotionKey b ≤ promotionKey a := by
  rw [better_iff, not_lt]

theorem promotionKey_eq_iff (a b : Slave) :
    promotionKey a = promotionKey b ↔
      a.info.slave_priority = b.info.slave_priority ∧
        a.info.slave_repl_offset = b.info.slave_repl_offset ∧
        a.info.runid.map caselessKey = b.info.runid.map caselessKey := by
  unfold promotionKey
  rw [← runidKey_eq_iff, toLex_inj, Prod.mk.injEq, toLex_inj, Prod.mk.injEq, neg_inj, Nat.cast_inj]

theorem compare_samePriority {a b : Slave} (h : a.info.slave_priority = b.info.slave_priority) :
    (compareSlavesForPromotion a b < 0 ↔ Better a b) ∧ (0 < compareSlavesForPromotion a b ↔ Better b a) := by
  unfold compareSlavesForPromotion Better
  rw [if_neg (not_not.mpr h), h]
  simp only [lt_irrefl, true_and, false_or]
  rcases Nat.lt_trichotomy b.info.slave_repl_offset a.info.slave_repl_offset with hlt | heq | hgt
  · rw [if_pos hlt]
    omega
  · rw [if_neg (heq ▸ lt_irrefl _), if_neg (heq ▸ lt_irrefl _), heq]
    simp only [lt_irrefl, true_and, false_or]
    cases a.info.runid with
    | none => cases b.info.runid <;> simp [SmallerRunid]
    | some ra =>
      cases b.info.runid with
      | none => simp [SmallerRunid]
      | some rb => exact strcasecmp_lt_iff ra rb
  · rw [if_neg (Nat.lt_asymm hgt), if_pos hgt]
    omega

theorem compare_sign {a b : Slave} (h₁ : a.info.slave_priority - b.info.slave_priority < 2 ^ 31)
    (h₂ : b.info.slave_priority - a.info.slave_priority < 2 ^ 31) :
    (compareSlavesForPromotion a b < 0 ↔ Better a b) ∧ (0 < compareSlavesForPromotion a b ↔ Better b a) := by
  by_cases h : a.info.slave_priority = b.info.slave_priority
  · exact compare_samePriority h
  · have hbmod : (a.info.slave_priority - b.info.slave_priority).bmod (2 ^ 32) =
        a.info.slave_priority - b.info.slave_priority :=
      Int.bmod_eq_of_le (by omega) (by omega)
    unfold compareSlavesForPromotion Better
    rw [if_pos h, hbmod]
    omega

theorem comparesBy_promotionKey {now : Int} {m : Master} (h : PrioritiesClose now m) :
    ComparesBy promotionKey compareSlavesForPromotion (goodSlaves now m) := by
  intro a ha b hb
  rw [← better_iff, ← better_iff]
  exact compare_sign (h a ha b hb) (h b hb a ha)

theorem compare_far {a b : Slave} (ha : a.info.slave_priority < 2 ^ 31)
    (hb : -2 ^ 31 ≤ b.info.slave_priority)
    (h : 2 ^ 31 ≤ a.info.slave_priority - b.info.slave_priority) : compareSlavesForPromotion a b < 0 := by
  have hbmod : (a.info.slave_priority - b.info.slave_priority).bmod (2 ^ 32) =
      a.info.slave_priority - b.info.slave_priority - 2 ^ 32 := by
    rw [← Int.sub_bmod_right]
    exact Int.bmod_eq_of_le (by omega) (by omega)
  unfold compareSlavesForPromotion
  rw [if_pos (by omega), hbmod]
  omega

theorem goodSlaves_perm {now : Int} {m : Master} {slaves : List Slave} (h : slaves.Perm m.slaves) :
    (goodSlaves now { m with slaves := slaves }).Perm (goodSlaves now m) :=
  h.filter _

theorem sentinelSelectSlave_perm {now : Int} {m : Master} {slaves : List Slave} {selected : Option Slave}
    (h : slaves.Perm m.slaves) (hsel : sentinelSelectSlave now { m with slaves := slaves } selected) :
    sentinelSelectSlave now m selected := by
  obtain ⟨p, hp, rfl⟩ := hsel
  exact ⟨p, hp.of_perm (goodSlaves_perm h), rfl⟩

theorem selected_best {now : Int} {m : Master} (h : PrioritiesClose now m) {slave : Slave}
    (hsel : sentinelSelectSlave now m (some slave)) :
    slave ∈ goodSlaves now m ∧ ∀ other ∈ goodSlaves now m, ¬ Better other slave := by
  obtain ⟨p, hp, hhead⟩ := hsel
  have hmem := hp.head_mem hhead.symm
  refine ⟨hmem, fun other hother => ?_⟩
  have hle := hp.head_le (comparesBy_promotionKey h).comparesOn hhead.symm hother
  rw [not_better_iff]
  exact ((comparesBy_promotionKey h).le_iff hmem hother).mp hle

theorem best_unique {now : Int} {m : Master} (hdistinct : DistinctRunids now m) (htie : ¬ CaseTie now m)
    {a b : Slave} (ha : a ∈ goodSlaves now m) (hb : b ∈ goodSlaves now m)
    (habest : ∀ other ∈ goodSlaves now m, ¬ Better other a)
    (hbbest : ∀ other ∈ goodSlaves now m, ¬ Better other b) : a = b := by
  have hkey : promotionKey a = promotionKey b :=
    le_antisymm ((not_better_iff b a).mp (habest b hb)) ((not_better_iff a b).mp (hbbest a ha))
  obtain ⟨hprio, hoffset, hrunid⟩ := (promotionKey_eq_iff a b).mp hkey
  have hsame : a.info.runid = b.info.runid := by
    by_contra hne
    exact htie ⟨a, ha, b, hb, hne, hprio, hoffset, hrunid, habest⟩
  by_contra hne
  have : Std.Symm fun a b : Slave => a.info.runid ≠ b.info.runid := ⟨fun _ _ h => h.symm⟩
  exact hdistinct.forall ha hb hne hsame

theorem prioritiesClose_of_selectsBest {now : Int} {m : Master} (hint : IntPriorities m)
    (h : SelectsBest now m) : PrioritiesClose now m := by
  intro a ha b hb
  by_contra hfar
  have hrange : ∀ slave ∈ goodSlaves now m,
      -2 ^ 31 ≤ slave.info.slave_priority ∧ slave.info.slave_priority < 2 ^ 31 :=
    fun slave hslave => hint slave (List.mem_filter.mp hslave).1
  obtain ⟨p, hp⟩ := exists_sorted compareSlavesForPromotion (goodSlaves now m)
  cases hhead : p.head? with
  | none =>
    rw [hp.head_eq_none] at hhead
    rw [hhead] at ha
    cases ha
  | some best =>
    obtain ⟨hmem, hbest⟩ := h.best best ⟨p, hp, hhead.symm⟩
    have hle : best.info.slave_priority ≤ b.info.slave_priority := by
      by_contra hlt
      exact hbest b hb (.inl (by omega))
    have hless : compareSlavesForPromotion a best < 0 :=
      compare_far (hrange a ha).2 (hrange best hmem).1 (by omega)
    have hge := (h.preorder.swap a ha best hmem).mp hless
    have := hp.head_le h.preorder hhead ha
    omega

theorem not_caseTie_of_selectsBest {now : Int} {m : Master} (hclose : PrioritiesClose now m)
    (h : SelectsBest now m) (hdistinct : DistinctRunids now m) : ¬ CaseTie now m := by
  rintro ⟨a, ha, b, hb, hne, hprio, hoffset, hrunid, hbest⟩
  have hkey := (promotionKey_eq_iff a b).mpr ⟨hprio, hoffset, hrunid⟩
  have hmin : ∀ other ∈ goodSlaves now m, promotionKey a ≤ promotionKey other :=
    fun other hother => (not_better_iff other a).mp (hbest other hother)
  obtain ⟨p, hp⟩ := exists_qsortResult (comparesBy_promotionKey hclose) ha hmin
  obtain ⟨q, hq⟩ := exists_qsortResult (comparesBy_promotionKey hclose) hb fun other hother =>
    hkey ▸ hmin other hother
  have hsame := h.determined hdistinct m.slaves (List.Perm.refl _) (some a) (some b)
    ⟨_, hp, rfl⟩ ⟨_, hq, rfl⟩
  obtain rfl := Option.some.inj hsame
  exact hne rfl

theorem selectsBest_of {now : Int} {m : Master} (hclose : PrioritiesClose now m)
    (htie : DistinctRunids now m → ¬ CaseTie now m) : SelectsBest now m where
  preorder := (comparesBy_promotionKey hclose).comparesOn
  null := by
    rintro selected ⟨p, hp, rfl⟩
    exact hp.head_eq_none
  best slave hsel := selected_best hclose hsel
  determined := by
    intro hdistinct slaves hslaves selected selected' hsel hsel'
    have hsel' := sentinelSelectSlave_perm hslaves hsel'
    have hnull : ∀ selected, sentinelSelectSlave now m selected →
        (selected = none ↔ goodSlaves now m = []) := by
      rintro selected ⟨p, hp, rfl⟩
      exact hp.head_eq_none
    cases selected with
    | none => exact ((hnull _ hsel').mpr ((hnull _ hsel).mp rfl)).symm
    | some a =>
      cases selected' with
      | none => exact (hnull _ hsel).mpr ((hnull _ hsel').mp rfl)
      | some b =>
        have ha := selected_best hclose hsel
        have hb := selected_best hclose hsel'
        rw [best_unique hdistinct (htie hdistinct) ha.1 hb.1 ha.2 hb.2]

theorem selectsBest_iff (now : Int) (m : Master) (hint : IntPriorities m) :
    SelectsBest now m ↔ PrioritiesClose now m ∧ (DistinctRunids now m → ¬ CaseTie now m) := by
  constructor
  · intro h
    have hclose := prioritiesClose_of_selectsBest hint h
    exact ⟨hclose, not_caseTie_of_selectsBest hclose h⟩
  · rintro ⟨hclose, htie⟩
    exact selectsBest_of hclose htie

def readySlave (port : Int) (slave_priority : Int) : Slave :=
  { name := { ip := ascii "127.0.0.1", port := port }
    addr := { ip := ascii "127.0.0.1", port := port }
    s_down := false, o_down := false, disconnected := false, promoted := false
    reconf_sent := false, reconf_inprog := false, reconf_done := false
    last_avail_time := 0, slave_reconf_sent_time := 0
    info := { newInfo 0 .slave with slave_priority := slave_priority } }

def readyMaster (slaves : List Slave) : Master :=
  { addr := { ip := ascii "127.0.0.1", port := 6379 }
    quorum := 1, s_down := false, o_down := false, failover_in_progress := false, force_failover := false
    s_down_since_time := 0, down_after_period := 30000, parallel_syncs := 1, slaves := slaves
    sentinels := [], leader := none, leader_epoch := 0, config_epoch := 0, failover_epoch := 0
    failover_state := .none, failover_state_change_time := 0, failover_start_time := 0
    failover_timeout := 180000, promoted_slave := none, info := newInfo 0 .master }

theorem goodSlaves_ready (a b : Int) (ha : a ≠ 0) (hb : b ≠ 0) :
    goodSlaves 0 (readyMaster [readySlave 6380 a, readySlave 6381 b]) =
      [readySlave 6380 a, readySlave 6381 b] := by
  simp [goodSlaves, readyMaster, readySlave, newInfo, ha, hb]

theorem selectsBest_two :
    SelectsBest 0 (readyMaster [readySlave 6380 100, readySlave 6381 1]) ↔
      PrioritiesClose 0 (readyMaster [readySlave 6380 100, readySlave 6381 1]) ∧
        (DistinctRunids 0 (readyMaster [readySlave 6380 100, readySlave 6381 1]) →
          ¬ CaseTie 0 (readyMaster [readySlave 6380 100, readySlave 6381 1])) := by
  refine selectsBest_iff 0 _ fun slave hslave => ?_
  rcases List.mem_cons.mp hslave with rfl | hslave
  · exact (by decide)
  · obtain rfl := List.mem_singleton.mp hslave
    exact (by decide)

/-- A slave with the greatest priority is promoted before one with a priority below zero. -/
theorem greatest_selected :
    ¬ SelectsBest 0 (readyMaster [readySlave 6380 2147483647, readySlave 6381 (-2)]) := by
  intro h
  have hgood := goodSlaves_ready 2147483647 (-2) (by decide) (by decide)
  have hsel : sentinelSelectSlave 0 (readyMaster [readySlave 6380 2147483647, readySlave 6381 (-2)])
      (some (readySlave 6380 2147483647)) := by
    refine ⟨[readySlave 6380 2147483647, readySlave 6381 (-2)], ⟨?_, fun _ => ?_⟩, rfl⟩
    · rw [hgood]
    · exact List.pairwise_pair.mpr (by decide)
  refine (h.best _ hsel).2 (readySlave 6381 (-2)) ?_ (.inl (by decide))
  rw [hgood]
  exact List.mem_cons_of_mem _ (List.mem_singleton_self _)

end RedisCluster.Sentinel
