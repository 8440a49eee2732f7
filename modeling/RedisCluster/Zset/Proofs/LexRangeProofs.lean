import RedisCluster.Zset.Proofs.RangeProofs

/-!
# Lexicographical ranges: proofs

The tests of a member against the bounds are right for all items. Only the test for an empty range takes the shared
objects for the strings they hold.
-/

namespace RedisCluster

open RedisCluster.Lib RedisCluster.Util

section

variable (a b : LexItem) (m : Bytes)

def LexItem.bound : LexItem → LexBound Bytes × Bool
  | .lowest => (.minstring, false)
  | .highest => (.maxstring, false)
  | .inclusive s => (.value s, false)
  | .exclusive s => (.value s, true)

def lexRange : Zlexrangespec Bytes :=
  { min := a.bound.1, max := b.bound.1, minex := a.bound.2, maxex := b.bound.2 }

theorem parseItem_spell : zslParseLexRangeItem a.spell = some a.bound := by
  cases a <;> rfl

theorem parse_spell : zslParseLexRange a.spell b.spell = some (lexRange a b) := by
  rw [zslParseLexRange, parseItem_spell, parseItem_spell]
  rfl

theorem compare_gt_iff (s : Bytes) : (compareForLexRange m (.value s) == .gt) = decide (s < m) := by
  rw [compareForLexRange, compareOfLessAndEq]
  rcases lt_trichotomy m s with hlt | rfl | hgt
  · rw [if_pos hlt, decide_eq_false (lt_asymm hlt)]
    rfl
  · rw [if_neg (lt_irrefl m), if_pos rfl, decide_eq_false (lt_irrefl m)]
    rfl
  · rw [if_neg (lt_asymm hgt), if_neg (ne_of_gt hgt), decide_eq_true hgt]
    rfl

theorem compare_lt_iff (s : Bytes) : (compareForLexRange m (.value s) == .lt) = decide (m < s) := by
  rw [compareForLexRange, compareOfLessAndEq]
  by_cases hlt : m < s
  · rw [if_pos hlt, decide_eq_true hlt]
    rfl
  · rw [if_neg hlt, decide_eq_false hlt]
    split <;> rfl

theorem gteMin_eq : zslLexValueGteMin m (lexRange a b) = decide (a.From m) := by
  cases a with
  | lowest => rfl
  | highest => rfl
  | inclusive s =>
    show (!(compareForLexRange m (.value s) == .lt)) = decide (s ≤ m)
    rw [compare_lt_iff, ← decide_not]
    exact decide_eq_decide.mpr not_lt
  | exclusive s =>
    show (compareForLexRange m (.value s) == .gt) = decide (s < m)
    rw [compare_gt_iff]

theorem lteMax_eq : zslLexValueLteMax m (lexRange a b) = decide (b.To m) := by
  cases b with
  | lowest => rfl
  | highest => rfl
  | inclusive s =>
    show (!(compareForLexRange m (.value s) == .gt)) = decide (m ≤ s)
    rw [compare_gt_iff, ← decide_not]
    exact decide_eq_decide.mpr not_lt
  | exclusive s =>
    show (compareForLexRange m (.value s) == .lt) = decide (m < s)
    rw [compare_lt_iff]

theorem within_eq :
    (zslLexValueGteMin m (lexRange a b) && zslLexValueLteMax m (lexRange a b)) = decide (LexWithin a b m) := by
  rw [gteMin_eq, lteMax_eq, Bool.eq_iff_iff, Bool.and_eq_true, decide_eq_true_eq, decide_eq_true_eq, decide_eq_true_eq]
  rfl

end

variable {a b : LexItem}

theorem LexItem.From.mono {m m' : Bytes} (hle : m ≤ m') (h : a.From m) : a.From m' := by
  cases a with
  | lowest => trivial
  | highest => exact h
  | inclusive s => exact le_trans (show s ≤ m from h) hle
  | exclusive s => exact lt_of_lt_of_le (show s < m from h) hle

theorem LexItem.To.mono {m m' : Bytes} (hle : m' ≤ m) (h : b.To m) : b.To m' := by
  cases b with
  | lowest => exact h
  | highest => trivial
  | inclusive s => exact le_trans hle (show m ≤ s from h)
  | exclusive s => exact lt_of_le_of_lt hle (show m < s from h)

def LexCut : LexItem → LexItem → Prop
  | .lowest, .exclusive s => s = ascii "minstring"
  | .exclusive s, .highest => s = ascii "maxstring"
  | _, _ => False

theorem lexRangeIsEmpty_iff (compare : StringCompare) :
    lexRangeIsEmpty compare (lexRange a b) = true ↔
      compareLexBounds compare a.bound.1 b.bound.1 > 1 ∨
        (a.bound.1.text = b.bound.1.text ∧ (a.bound.2 = true ∨ b.bound.2 = true)) := by
  rw [lexRangeIsEmpty, decide_eq_true_eq, compare.zero_iff]
  rfl

theorem compareLexBounds_gt (compare : StringCompare) {x y : LexBound Bytes} (h : compareLexBounds compare x y > 1) :
    ∃ s t, x = .value s ∧ y = .value t ∧ t < s := by
  unfold compareLexBounds at h
  split at h
  · exact absurd h (by decide)
  split at h
  · exact absurd h (by decide)
  split at h
  · exact absurd h (by decide)
  rename_i hne hlow hhigh
  cases x with
  | minstring => exact absurd (.inl rfl) hlow
  | maxstring => exact absurd (.inl rfl) hhigh
  | value s =>
    cases y with
    | minstring => exact absurd (.inr rfl) hhigh
    | maxstring => exact absurd (.inr rfl) hlow
    | value t =>
      refine ⟨s, t, rfl, rfl, ?_⟩
      rcases lt_trichotomy s t with hlt | rfl | hgt
      · have hneg := (compare.neg_iff s t).mpr hlt
        rw [LexBound.text, LexBound.text] at h
        omega
      · exact absurd rfl hne
      · exact hgt

theorem not_within_of_isEmpty (compare : StringCompare) (hempty : lexRangeIsEmpty compare (lexRange a b) = true)
    {m : Bytes} (hm : LexWithin a b m) : LexCut a b := by
  obtain ⟨ha, hb⟩ := hm
  rw [lexRangeIsEmpty_iff] at hempty
  rcases hempty with hgt | ⟨htext, hex⟩
  · obtain ⟨s, t, hs, ht, hlt⟩ := compareLexBounds_gt compare hgt
    have hsm : s ≤ m := by
      cases a with
      | lowest => cases hs
      | highest => cases hs
      | inclusive _ => cases hs; exact ha
      | exclusive _ => cases hs; exact le_of_lt ha
    have hmt : m ≤ t := by
      cases b with
      | lowest => cases ht
      | highest => cases ht
      | inclusive _ => cases ht; exact hb
      | exclusive _ => cases ht; exact le_of_lt hb
    exact absurd (hsm.trans hmt) (not_le_of_gt hlt)
  · cases a with
    | highest => exact absurd ha id
    | lowest =>
      cases b with
      | lowest => exact absurd hb id
      | highest => exact absurd hex (by simp [LexItem.bound])
      | inclusive t => exact absurd hex (by simp [LexItem.bound])
      | exclusive t => exact htext.symm
    | inclusive s =>
      cases b with
      | lowest => exact absurd hb id
      | highest => exact absurd hex (by simp [LexItem.bound])
      | inclusive t => exact absurd hex (by simp [LexItem.bound])
      | exclusive t => exact absurd (lt_of_le_of_lt (show s ≤ m from ha) hb) (not_lt_of_ge (show s = t from htext).ge)
    | exclusive s =>
      cases b with
      | lowest => exact absurd hb id
      | highest => exact htext
      | inclusive t => exact absurd (lt_of_lt_of_le (show s < m from ha) hb) (not_lt_of_ge (show s = t from htext).ge)
      | exclusive t => exact absurd (lt_trans (show s < m from ha) hb) (not_lt_of_ge (show s = t from htext).ge)

theorem isEmpty_of_cut (compare : StringCompare) (h : LexCut a b) : lexRangeIsEmpty compare (lexRange a b) = true := by
  rw [lexRangeIsEmpty_iff]
  right
  cases a with
  | lowest =>
    cases b with
    | exclusive s => exact ⟨h.symm, .inr rfl⟩
    | _ => exact absurd h id
  | exclusive s =>
    cases b with
    | highest => exact ⟨h, .inl rfl⟩
    | _ => exact absurd h id
  | _ => exact absurd h id

theorem lexKept_iff (ms : List Bytes) : LexKept ms a b ↔ (LexCut a b → ∀ m ∈ ms, ¬ LexWithin a b m) := by
  cases a with
  | lowest =>
    cases b with
    | exclusive t => exact forall_congr' fun _ => forall₂_congr fun m _ => not_congr (iff_of_eq (true_and _)).symm
    | _ => exact iff_of_true trivial fun h => absurd h id
  | exclusive s =>
    cases b with
    | highest => exact forall_congr' fun _ => forall₂_congr fun m _ => not_congr (iff_of_eq (and_true _)).symm
    | _ => exact iff_of_true trivial fun h => absurd h id
  | _ => exact iff_of_true trivial fun h => absurd h id

section

variable {S : Type} [LinearOrder S] {z : Zskiplist S Bytes} {ns : List Nat} {es : List (S ×ₗ Bytes)}

def elemMembers (es : List (S ×ₗ Bytes)) : List Bytes := es.map fun e => (ofLex e).2

theorem members_sorted (hsorted : es.Pairwise (· < ·)) (hscore : ∃ score, ∀ e ∈ es, (ofLex e).1 = score) :
    (elemMembers es).Pairwise (· < ·) := by
  obtain ⟨score, hscore⟩ := hscore
  rw [elemMembers, List.pairwise_map]
  refine hsorted.imp_of_mem fun {e e'} he he' hlt => ?_
  rcases Prod.Lex.lt_iff.mp hlt with hscores | ⟨-, hmembers⟩
  · rw [hscore e he, hscore e' he'] at hscores
    exact absurd hscores (lt_irrefl score)
  · exact hmembers

theorem downClosed_from {ms : List Bytes} (hms : ms.Pairwise (· < ·)) (a : LexItem) :
    DownClosed (fun m => !decide (a.From m)) ms := by
  refine hms.imp fun {m m'} hlt hnot => ?_
  rw [Bool.not_eq_true', decide_eq_false_iff_not] at hnot ⊢
  exact fun hfrom => hnot (hfrom.mono hlt.le)

theorem downClosed_to {ms : List Bytes} (hms : ms.Pairwise (· < ·)) (b : LexItem) :
    DownClosed (fun m => decide (b.To m)) ms := by
  refine hms.imp fun {m m'} hlt hto => ?_
  rw [decide_eq_true_eq] at hto ⊢
  exact hto.mono hlt.le

theorem ZslInv.lexNodes_found (h : ZslInv z ns es) (hscore : ∃ score, ∀ e ∈ es, (ofLex e).1 = score) (compare : StringCompare)
    (a b : LexItem) (hempty : lexRangeIsEmpty compare (lexRange a b) = false) :
    zslFirstInLexRange compare z (lexRange a b) = .ok (lexNodes z ns a b).head? ∧
      zslLastInLexRange compare z (lexRange a b) = (lexNodes z ns a b).getLast? := by
  have hms := members_sorted h.sorted hscore
  have hmin : DownClosed (fun x => !lexGteMin z (lexRange a b) x) ns :=
    DownClosed.of_map h.node_members (fun x _ m hm => by rw [lexGteMin, hm, Option.any_some, gteMin_eq])
      (downClosed_from hms a)
  have hmax : DownClosed (lexLteMax z (lexRange a b)) ns :=
    DownClosed.of_map h.node_members (fun x _ m hm => by rw [lexLteMax, hm, Option.any_some, lteMax_eq])
      (downClosed_to hms b)
  have hnodes : (ns.filter fun x => lexGteMin z (lexRange a b) x && lexLteMax z (lexRange a b) x) = lexNodes z ns a b := by
    refine List.filter_congr fun x _ => ?_
    rw [lexGteMin, lexLteMax]
    cases (z.node x).obj with
    | none => rfl
    | some m => exact within_eq a b m
  rw [zslFirstInLexRange, zslLastInLexRange, hempty, h.firstIn hmin hmax, h.lastIn hmin hmax, hnodes]
  exact ⟨rfl, rfl⟩

end

section

variable {compare : StringCompare} {range : Zlexrangespec Bytes}

def zzlOf (ms : List (Bytes × Bytes)) : ZzlEntries := ms.flatMap fun p => [p.1, p.2]

theorem zzlOf_length (ms : List (Bytes × Bytes)) : (zzlOf ms).length = 2 * ms.length := by
  induction ms with
  | nil => rfl
  | cons p ms ih =>
    rw [zzlOf, List.flatMap_cons, List.length_append, ← zzlOf, ih, List.length_cons]
    exact (Nat.add_comm 2 (2 * ms.length)).trans (Nat.mul_succ 2 ms.length).symm

theorem zzlOf_getD (ms : List (Bytes × Bytes)) {i : Nat} {p : Bytes × Bytes} (hi : ms[i]? = some p) :
    (zzlOf ms).getD (2 * i) [] = p.1 := by
  induction ms generalizing i with
  | nil => cases hi
  | cons q ms ih =>
    cases i with
    | zero =>
      rw [List.getElem?_cons_zero, Option.some.injEq] at hi
      rw [← hi]
      rfl
    | succ i =>
      rw [List.getElem?_cons_succ] at hi
      exact ih hi

def positionsFrom (p : Bytes → Bool) (i : Nat) (ms : List (Bytes × Bytes)) : List Nat :=
  ((ms.zipIdx i).filter fun q => p q.1.1).map fun q => 2 * q.2

theorem positionsFrom_cons (p : Bytes → Bool) (i : Nat) (q : Bytes × Bytes) (ms : List (Bytes × Bytes)) :
    positionsFrom p i (q :: ms) =
      if p q.1 then 2 * i :: positionsFrom p (i + 1) ms else positionsFrom p (i + 1) ms := by
  rw [positionsFrom, List.zipIdx_cons, List.filter_cons]
  split <;> rfl

theorem positionsFrom_append (p : Bytes → Bool) (i : Nat) (ms : List (Bytes × Bytes)) (q : Bytes × Bytes) :
    positionsFrom p i (ms ++ [q]) = positionsFrom p i ms ++ if p q.1 then [2 * (i + ms.length)] else [] := by
  rw [positionsFrom, List.zipIdx_append, List.filter_append, List.map_append, List.zipIdx_cons, List.filter_cons,
    List.zipIdx_nil]
  split <;> rfl

theorem positionsFrom_nil {p : Bytes → Bool} {i : Nat} {ms : List (Bytes × Bytes)} (h : ∀ q ∈ ms, p q.1 = false) :
    positionsFrom p i ms = [] := by
  induction ms generalizing i with
  | nil => rfl
  | cons q ms ih =>
    rw [positionsFrom_cons, h q List.mem_cons_self, if_neg Bool.false_ne_true]
    exact ih fun q hq => h q (List.mem_cons_of_mem _ hq)

theorem zzlFirstLoop_eq (zl : List (Bytes × Bytes)) (fuel : Nat) (ms : List (Bytes × Bytes)) (i : Nat)
    (hzl : zl.drop i = ms) (hfuel : ms.length < fuel)
    (hmax : DownClosed (fun p : Bytes × Bytes => zslLexValueLteMax p.1 range) ms) :
    zzlFirstLoop (zzlOf zl) range fuel (if i < zl.length then some (2 * i) else none) =
      .ok (positionsFrom (fun m => zslLexValueGteMin m range && zslLexValueLteMax m range) i ms).head? := by
  induction ms generalizing fuel i with
  | nil =>
    have hle : ¬ i < zl.length := Nat.not_lt.mpr (List.drop_eq_nil_iff.mp hzl)
    rw [if_neg hle]
    cases fuel <;> rfl
  | cons p ms ih =>
    obtain ⟨fuel, rfl⟩ : ∃ k, fuel = k + 1 := ⟨fuel - 1, by rw [List.length_cons] at hfuel; omega⟩
    have hlen := congrArg List.length hzl
    rw [List.length_drop, List.length_cons] at hlen
    have hat : zl[i]? = some p := by
      have := congrArg List.head? hzl
      rwa [List.head?_drop] at this
    have hrest : zl.drop (i + 1) = ms := by
      rw [← List.drop_drop, hzl]
      rfl
    have hgte : zzlLexValueGteMin (zzlOf zl) (2 * i) range = zslLexValueGteMin p.1 range := by
      rw [zzlLexValueGteMin, zzlOf_getD zl hat]
    have hlte : zzlLexValueLteMax (zzlOf zl) (2 * i) range = zslLexValueLteMax p.1 range := by
      rw [zzlLexValueLteMax, zzlOf_getD zl hat]
    rw [if_pos (by omega), zzlFirstLoop, hgte, hlte, positionsFrom_cons]
    cases hmin : zslLexValueGteMin p.1 range with
    | true =>
      cases hle : zslLexValueLteMax p.1 range with
      | true => rfl
      | false =>
        have hnone := hmax.none_of_head hle
        have hrest : ∀ q ∈ ms, (zslLexValueGteMin q.1 range && zslLexValueLteMax q.1 range) = false := fun q hq => by
          rw [hnone q (List.mem_cons_of_mem _ hq), Bool.and_false]
        rw [positionsFrom_nil (p := fun m => zslLexValueGteMin m range && zslLexValueLteMax m range) hrest]
        rfl
    | false =>
      have hnext : zlNext (zzlOf zl) (2 * i) = some (2 * i + 1) := by
        rw [zlNext, zzlOf_length, if_pos (by omega)]
      have hnext' : zlNext (zzlOf zl) (2 * i + 1) = if i + 1 < zl.length then some (2 * (i + 1)) else none := by
        rw [zlNext, zzlOf_length]
        split <;> split <;> first | rfl | omega
      rw [hnext]
      have hih := ih fuel (i + 1) hrest (Nat.lt_of_succ_lt_succ hfuel) hmax.tail
      rw [← hnext'] at hih
      exact hih

theorem zzlLastLoop_eq (zl : List (Bytes × Bytes)) (fuel i : Nat) (hi : i < zl.length) (hfuel : i < fuel)
    (hmin : DownClosed (fun p : Bytes × Bytes => !zslLexValueGteMin p.1 range) zl) :
    zzlLastLoop (zzlOf zl) range fuel (some (2 * i)) =
      .ok (positionsFrom (fun m => zslLexValueGteMin m range && zslLexValueLteMax m range) 0 (zl.take (i + 1))).getLast? := by
  induction fuel generalizing i with
  | zero => exact absurd hfuel (Nat.not_lt_zero i)
  | succ fuel ih =>
    have hat : zl[i]? = some zl[i] := List.getElem?_eq_getElem hi
    have hgte : zzlLexValueGteMin (zzlOf zl) (2 * i) range = zslLexValueGteMin zl[i].1 range := by
      rw [zzlLexValueGteMin, zzlOf_getD zl hat]
    have hlte : zzlLexValueLteMax (zzlOf zl) (2 * i) range = zslLexValueLteMax zl[i].1 range := by
      rw [zzlLexValueLteMax, zzlOf_getD zl hat]
    have htake : zl.take (i + 1) = zl.take i ++ [zl[i]] := (List.take_append_getElem hi).symm
    have hlen : (zl.take i).length = i := List.length_take_of_le hi.le
    rw [zzlLastLoop, hgte, hlte, htake, positionsFrom_append, hlen, Nat.zero_add]
    cases hmax : zslLexValueLteMax zl[i].1 range with
    | true =>
      cases hge : zslLexValueGteMin zl[i].1 range with
      | true => simp
      | false =>
        have hfront : ∀ q ∈ zl.take i, (zslLexValueGteMin q.1 range && zslLexValueLteMax q.1 range) = false := by
          intro q hq
          have hclosed := hmin.sublist (List.take_sublist (i + 1) zl)
          rw [htake] at hclosed
          have hbelow := (List.pairwise_append.mp hclosed).2.2 q hq zl[i] (List.mem_singleton_self _) (by simp [hge])
          rw [Bool.not_eq_true'] at hbelow
          rw [hbelow, Bool.false_and]
        rw [positionsFrom_nil (p := fun m => zslLexValueGteMin m range && zslLexValueLteMax m range) hfront]
        rfl
    | false =>
      rw [Bool.and_false, if_neg Bool.false_ne_true, if_neg Bool.false_ne_true, List.append_nil]
      cases i with
      | zero => rfl
      | succ i =>
        have hprev : zlPrev (2 * (i + 1)) = some (2 * i + 1) := rfl
        have hprev' : zlPrev (2 * i + 1) = some (2 * i) := rfl
        rw [hprev]
        dsimp only
        rw [hprev']
        exact ih i (by omega) (by omega)

variable {zl : List (Bytes × Bytes)}

theorem zlIndex_first : zlIndex (zzlOf zl) 0 = if 0 < zl.length then some (2 * 0) else none := by
  rw [zlIndex, zzlOf_length, if_neg (by omega)]
  split <;> split <;> first | rfl | omega

theorem zlIndex_last : zlIndex (zzlOf zl) (-2) = if 0 < zl.length then some (2 * (zl.length - 1)) else none := by
  rw [zlIndex, zzlOf_length, if_pos (by omega)]
  split <;> split <;> first | (congr 1; omega) | rfl

theorem zzlIsIn_eq (hempty : lexRangeIsEmpty compare range = false) :
    zzlIsInLexRange compare (zzlOf zl) range = .ok (zl.getLast?.any (fun p => zslLexValueGteMin p.1 range) &&
      zl.head?.any fun p => zslLexValueLteMax p.1 range) := by
  rw [zzlIsInLexRange, hempty, if_neg Bool.false_ne_true, zlIndex_last, zlIndex_first]
  by_cases hpos : 0 < zl.length
  · have hfirst : zl[0]? = some zl[0] := List.getElem?_eq_getElem hpos
    have hlast : zl[zl.length - 1]? = some zl[zl.length - 1] := List.getElem?_eq_getElem (by omega)
    rw [if_pos hpos, if_pos hpos, List.head?_eq_getElem?, List.getLast?_eq_getElem?, hfirst, hlast, Option.any_some,
      Option.any_some]
    dsimp only
    rw [zzlLexValueGteMin, zzlLexValueLteMax, zzlOf_getD zl hlast, zzlOf_getD zl hfirst]
    cases zslLexValueGteMin zl[zl.length - 1].1 range <;> rfl
  · obtain rfl : zl = [] := List.length_eq_zero_iff.mp (by omega)
    rfl

theorem zzl_found (hempty : lexRangeIsEmpty compare range = false)
    (hmin : DownClosed (fun p : Bytes × Bytes => !zslLexValueGteMin p.1 range) zl)
    (hmax : DownClosed (fun p : Bytes × Bytes => zslLexValueLteMax p.1 range) zl) :
    zzlFirstInLexRange compare (zzlOf zl) range =
        .ok (positionsFrom (fun m => zslLexValueGteMin m range && zslLexValueLteMax m range) 0 zl).head? ∧
      zzlLastInLexRange compare (zzlOf zl) range =
        .ok (positionsFrom (fun m => zslLexValueGteMin m range && zslLexValueLteMax m range) 0 zl).getLast? := by
  rw [zzlFirstInLexRange, zzlLastInLexRange, zzlIsIn_eq hempty]
  cases hin : zl.getLast?.any (fun p => zslLexValueGteMin p.1 range) &&
    zl.head?.any fun p => zslLexValueLteMax p.1 range with
  | false =>
    have hnone := filter_of_not_in hmin hmax hin
    rw [List.filter_eq_nil_iff] at hnone
    rw [positionsFrom_nil (p := fun m => zslLexValueGteMin m range && zslLexValueLteMax m range)
      fun q hq => by simpa using hnone q hq]
    exact ⟨rfl, rfl⟩
  | true =>
    have hpos : 0 < zl.length := by
      rw [Bool.and_eq_true] at hin
      obtain ⟨q, hq, -⟩ := (Option.any_eq_true _ _).mp hin.2
      exact List.length_pos_of_mem (List.mem_of_mem_head? hq)
    have hfirst := zzlFirstLoop_eq zl ((zzlOf zl).length + 1) zl 0 rfl (by rw [zzlOf_length]; omega) hmax
    have hlast := zzlLastLoop_eq zl ((zzlOf zl).length + 1) (zl.length - 1) (by omega) (by rw [zzlOf_length]; omega) hmin
    rw [Nat.sub_add_cancel hpos, List.take_length] at hlast
    rw [← hfirst, ← hlast, zlIndex_first, zlIndex_last, if_pos hpos, if_pos hpos]
    exact ⟨rfl, rfl⟩

end

section

variable {S : Type} [LinearOrder S]

def LexSearchesRight (compare : StringCompare) (z : Zskiplist S Bytes) (ns : List Nat) (zl : List (Bytes × Bytes))
    (a b : LexItem) : Prop :=
  ∃ range, zslParseLexRange a.spell b.spell = some range ∧
    zslFirstInLexRange compare z range = .ok (lexNodes z ns a b).head? ∧
    zslLastInLexRange compare z range = (lexNodes z ns a b).getLast? ∧
    zzlFirstInLexRange compare (zzlOf zl) range = .ok (lexPositions (zl.map Prod.fst) a b).head? ∧
    zzlLastInLexRange compare (zzlOf zl) range = .ok (lexPositions (zl.map Prod.fst) a b).getLast?

theorem lexPositions_eq (zl : List (Bytes × Bytes)) (a b : LexItem) :
    lexPositions (zl.map Prod.fst) a b =
      positionsFrom (fun m => zslLexValueGteMin m (lexRange a b) && zslLexValueLteMax m (lexRange a b)) 0 zl := by
  rw [lexPositions, positionsFrom, List.zipIdx_map, List.filter_map, List.map_map]
  simp only [within_eq]
  rfl

theorem ZslInv.lexNodes_eq_nil {z : Zskiplist S Bytes} {ns : List Nat} {es : List (S ×ₗ Bytes)}
    (h : ZslInv z ns es) (a b : LexItem) :
    lexNodes z ns a b = [] ↔ ∀ m ∈ elemMembers es, ¬ LexWithin a b m := by
  constructor
  · intro hnil m hm hwithin
    have hmem : some m ∈ ns.map fun x => (z.node x).obj := by
      rw [h.node_members]
      exact List.mem_map_of_mem hm
    obtain ⟨x, hx, hobj⟩ := List.mem_map.mp hmem
    have hin : x ∈ lexNodes z ns a b := List.mem_filter.mpr ⟨hx, by simp [hobj, hwithin]⟩
    rw [hnil] at hin
    exact absurd hin List.not_mem_nil
  · intro hout
    refine List.filter_eq_nil_iff.mpr fun x hx hany => ?_
    obtain ⟨m, hm, hwithin⟩ := (Option.any_eq_true _ _).mp hany
    have hmem : some m ∈ (elemMembers es).map some := by
      rw [elemMembers, ← h.node_members, ← hm]
      exact List.mem_map_of_mem hx
    exact hout m (by simpa using hmem) (of_decide_eq_true hwithin)

/-- The searches are right exactly if no member is cut off. -/
theorem lex_searches_right_iff (compare : StringCompare) (z : Zskiplist S Bytes) (ns : List Nat) (es : List (S ×ₗ Bytes))
    (h : ZslInv z ns es) (hscore : ∃ score, ∀ e ∈ es, (ofLex e).1 = score) (zl : List (Bytes × Bytes))
    (hzl : zl.map Prod.fst = elemMembers es) (a b : LexItem) :
    LexSearchesRight compare z ns zl a b ↔ LexKept (elemMembers es) a b := by
  rw [lexKept_iff]
  cases hempty : lexRangeIsEmpty compare (lexRange a b) with
  | false =>
    have hms := members_sorted h.sorted hscore
    have hzl' : zl.map (fun p => some p.1) = (elemMembers es).map some := by
      rw [← hzl, List.map_map]
      rfl
    have hmin : DownClosed (fun p : Bytes × Bytes => !zslLexValueGteMin p.1 (lexRange a b)) zl :=
      DownClosed.of_map hzl' (fun p _ m hm => by rw [gteMin_eq, Option.some.inj hm]) (downClosed_from hms a)
    have hmax : DownClosed (fun p : Bytes × Bytes => zslLexValueLteMax p.1 (lexRange a b)) zl :=
      DownClosed.of_map hzl' (fun p _ m hm => by rw [lteMax_eq, Option.some.inj hm]) (downClosed_to hms b)
    obtain ⟨hfirst, hlast⟩ := h.lexNodes_found hscore compare a b hempty
    obtain ⟨hzfirst, hzlast⟩ := zzl_found hempty hmin hmax
    rw [← lexPositions_eq] at hzfirst hzlast
    refine iff_of_true ⟨lexRange a b, parse_spell a b, hfirst, hlast, hzfirst, hzlast⟩ fun hcut => ?_
    rw [isEmpty_of_cut compare hcut] at hempty
    cases hempty
  | true =>
    have hnone : zslFirstInLexRange compare z (lexRange a b) = .ok none ∧
        zslLastInLexRange compare z (lexRange a b) = none ∧
        zzlFirstInLexRange compare (zzlOf zl) (lexRange a b) = .ok none ∧
        zzlLastInLexRange compare (zzlOf zl) (lexRange a b) = .ok none := by
      rw [zslFirstInLexRange, zslLastInLexRange, zzlFirstInLexRange, zzlLastInLexRange, zzlIsInLexRange, hempty]
      exact ⟨rfl, rfl, rfl, rfl⟩
    constructor
    · rintro ⟨range, hparse, hfirst, -⟩ _ m hm hwithin
      obtain rfl : lexRange a b = range := Option.some.inj ((parse_spell a b).symm.trans hparse)
      rw [hnone.1, Except.ok.injEq] at hfirst
      exact (h.lexNodes_eq_nil a b).mp (List.head?_eq_none_iff.mp hfirst.symm) m hm hwithin
    · intro hkept
      have hout : ∀ m ∈ elemMembers es, ¬ LexWithin a b m := fun m hm hwithin =>
        hkept (not_within_of_isEmpty compare hempty hwithin) m hm hwithin
      have hnodes : lexNodes z ns a b = [] := (h.lexNodes_eq_nil a b).mpr hout
      have hpositions : lexPositions (zl.map Prod.fst) a b = [] := by
        rw [lexPositions_eq]
        refine positionsFrom_nil fun q hq => ?_
        rw [within_eq, decide_eq_false_iff_not]
        exact hout q.1 (hzl ▸ List.mem_map_of_mem hq)
      refine ⟨lexRange a b, parse_spell a b, ?_⟩
      rw [hnodes, hpositions]
      exact hnone

end

def bytesCompare : StringCompare where
  cmp a b := if a < b then -1 else if a = b then 0 else 1
  neg_iff a b := by
    split
    · rename_i hlt
      exact iff_of_true (by decide) hlt
    · rename_i hlt
      refine iff_of_false ?_ hlt
      split <;> decide
  zero_iff a b := by
    split
    · rename_i hlt
      exact iff_of_false (by decide) (ne_of_lt hlt)
    · split
      · rename_i heq
        exact iff_of_true rfl heq
      · rename_i hne
        exact iff_of_false (by decide) hne

def oneString : Zskiplist Nat Bytes := (zslInsert zslCreate 1 (ascii "a") 1).1

theorem oneString_inv : ZslInv oneString [1] [toLex (1, ascii "a")] := by
  have hlt : ∀ e ∈ ([] : List (Nat ×ₗ Bytes)), e < toLex (1, ascii "a") := fun e he => absurd he List.not_mem_nil
  exact (zslCreate_inv.insert_last (by decide : 1 ≤ 1 ∧ 1 ≤ ZSKIPLIST_MAXLEVEL) hlt).1

/-- From `-` up to `[b`. -/
theorem lex_searches_right_one :
    LexSearchesRight bytesCompare oneString [1] [(ascii "a", ascii "1")] .lowest (.inclusive (ascii "b")) :=
  (lex_searches_right_iff bytesCompare oneString [1] [toLex (1, ascii "a")] oneString_inv
    ⟨1, fun e he => by rw [List.mem_singleton.mp he]; rfl⟩ [(ascii "a", ascii "1")] rfl _ _).mpr trivial

/-- From `-` up to `(minstring` no member is found, although `a` is in the range. -/
theorem range_cut_at_minstring :
    zslFirstInLexRange bytesCompare oneString (lexRange .lowest (.exclusive (ascii "minstring"))) = .ok none ∧
      LexWithin .lowest (.exclusive (ascii "minstring")) (ascii "a") ∧
      ¬ LexSearchesRight bytesCompare oneString [1] [(ascii "a", ascii "1")] .lowest (.exclusive (ascii "minstring")) := by
  refine ⟨rfl, by decide, ?_⟩
  rintro ⟨range, hparse, hfirst, -⟩
  obtain rfl := Option.some.inj ((parse_spell _ _).symm.trans hparse)
  have hnodes : lexNodes oneString [1] .lowest (.exclusive (ascii "minstring")) = [1] := by decide
  rw [hnodes] at hfirst
  cases hfirst

end RedisCluster
