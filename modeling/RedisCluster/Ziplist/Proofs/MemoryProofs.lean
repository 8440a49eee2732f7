import RedisCluster.Ziplist.Update
import RedisCluster.Ziplist.Proofs.FindProofs

/-!
# Proofs: the memory of a ziplist

A ziplist is `blob b t n body`, with the three fields of the header in front of the entries. Each move of
bytes leaves what is in front of it, and puts a new length in front of the entries behind it.
-/

namespace RedisCluster.Ziplist

open RedisCluster.Lib RedisCluster.Util

theorem poke_append {a old bs : Bytes} {i : Nat} (hi : a.length = i) (hlen : old.length = bs.length)
    (rest : Bytes) : poke (a ++ (old ++ rest)) i bs = a ++ (bs ++ rest) := by
  subst hi
  rw [poke, List.take_left, ← List.drop_drop, List.drop_left, ← hlen, List.drop_left, List.append_assoc]

theorem memmove_up {P Q N Y z : Bytes} (req src : Nat) (hz : z.length + Q.length = req + N.length)
    (hsrc : src + N.length = P.length + Q.length) :
    ∃ G moved, G.length = req ∧
      memmove (P ++ (Q ++ (Y ++ (z ++ [255])))) (P.length + req) src (N.length + Y.length) = .ok moved ∧
      poke moved (P.length + req) N = P ++ (G ++ (N ++ (Y ++ [255]))) := by
  set zl := P ++ (Q ++ (Y ++ (z ++ [255]))) with hzl
  have hlen : zl.length = P.length + Q.length + Y.length + z.length + 1 := by
    simp only [hzl, List.length_append, List.length_singleton]
    omega
  have hbehind : zl.drop (src + N.length) = Y ++ (z ++ [255]) := by
    rw [hsrc, hzl, ← List.drop_drop, List.drop_left, List.drop_left]
  -- what is moved: bytes that are overwritten next, and what follows the old length
  set W := (zl.drop src).take N.length with hW
  have hWlen : W.length = N.length := by
    rw [hW, List.length_take, List.length_drop]
    omega
  have hX : (zl.drop src).take (N.length + Y.length) = W ++ Y := by
    rw [List.take_add, List.drop_drop, hbehind, List.take_left]
  set G := (Q ++ (Y ++ (z ++ [255]))).take req with hG
  have hGlen : G.length = req := by
    rw [hG, List.length_take]
    simp only [List.length_append, List.length_singleton]
    omega
  have hfront : zl.take (P.length + req) = P ++ G := by
    rw [hzl, List.take_length_add_append]
  have hend : zl.drop (P.length + req + (W ++ Y).length) = [255] := by
    have hcount : P.length + req + (W ++ Y).length = src + N.length + (Y ++ z).length := by
      simp only [List.length_append, hWlen]
      omega
    rw [hcount, ← List.drop_drop, hbehind, ← List.append_assoc, List.drop_left]
  refine ⟨G, P ++ G ++ (W ++ Y) ++ [255], hGlen, ?_, ?_⟩
  · rw [memmove, if_pos (by omega), hX, poke, hfront, hend]
  · have hshape : P ++ G ++ (W ++ Y) ++ [255] = (P ++ G) ++ (W ++ (Y ++ [255])) := by
      simp only [List.append_assoc]
    rw [hshape, poke_append (by rw [List.length_append, hGlen]) hWlen, List.append_assoc]

theorem memmove_widen {P Q N Y z : Bytes} (hz : z.length + Q.length = N.length) :
    ∃ moved, memmove (P ++ (Q ++ (Y ++ (z ++ [255])))) (P.length + N.length) (P.length + Q.length)
        Y.length = .ok moved ∧ poke moved P.length N = P ++ (N ++ (Y ++ [255])) := by
  obtain ⟨G, moved, hG, hmove, hpoke⟩ := memmove_up (P := P) (Q := Q) (N := []) (Y := Y) (z := z)
    N.length (P.length + Q.length) hz rfl
  rw [List.length_nil, Nat.zero_add] at hmove
  have hmoved : moved = P ++ (G ++ (Y ++ [255])) := by simpa [poke] using hpoke
  exact ⟨moved, hmove, hmoved ▸ poke_append rfl hG _⟩

theorem memmove_down (P T N Y : Bytes) :
    ∃ R, R ≠ [] ∧ memmove (P ++ (T ++ (N ++ (Y ++ [255])))) P.length (P.length + T.length)
      (N.length + Y.length) = .ok (P ++ (N ++ (Y ++ R))) := by
  set zl := P ++ (T ++ (N ++ (Y ++ [255]))) with hzl
  have hlen : zl.length = P.length + T.length + (N.length + Y.length) + 1 := by
    simp only [hzl, List.length_append, List.length_singleton]
    omega
  have hX : (zl.drop (P.length + T.length)).take (N.length + Y.length) = N ++ Y := by
    rw [hzl, ← List.drop_drop, List.drop_left, List.drop_left, ← List.append_assoc N Y,
      List.take_left' List.length_append]
  refine ⟨zl.drop (P.length + (N ++ Y).length), ?_, ?_⟩
  · rw [← List.length_pos_iff, List.length_drop, hlen, List.length_append]
    omega
  · have hfront : zl.take P.length = P := by rw [hzl, List.take_left]
    rw [memmove, if_pos (by omega), hX, poke, hfront]
    simp only [List.append_assoc]

def blob (b t n : Nat) (body : Bytes) : Bytes :=
  leBytes 4 (b : Int) ++ (leBytes 4 (t : Int) ++ (leBytes 2 (n : Int) ++ body))

section Header

variable {b t n : Nat} (body : Bytes)

theorem blob_append (b t n : Nat) (A X : Bytes) : blob b t n (A ++ X) = blob b t n A ++ X := by
  simp only [blob, List.append_assoc]

@[simp] theorem length_blob : (blob b t n body).length = 10 + body.length := by
  simp only [blob, List.length_append, length_leBytes]
  omega

theorem leNat_leBytes_of_lt {w m : Nat} (h : m < 256 ^ w) : leNat (leBytes w (m : Int)) = m := by
  have hread := leNat_leBytes w (m : Int)
  rw [Int.emod_eq_of_lt (Int.natCast_nonneg m) (by exact_mod_cast h)] at hread
  exact_mod_cast hread

theorem bytes_blob (hb : b < 2 ^ 32) : ziplistBytes (blob b t n body) = b := by
  rw [ziplistBytes, blob, List.take_left' (length_leBytes 4 _), leNat_leBytes_of_lt (by omega)]

theorem tailOffset_blob (ht : t < 2 ^ 32) : ziplistTailOffset (blob b t n body) = t := by
  rw [ziplistTailOffset, blob, List.drop_left' (length_leBytes 4 _), List.take_left' (length_leBytes 4 _),
    leNat_leBytes_of_lt (by omega)]

theorem length_field_blob (hn : n < 2 ^ 16) : ziplistLength (blob b t n body) = n := by
  have hdrop : (blob b t n body).drop 8 = leBytes 2 (n : Int) ++ body := by
    rw [blob, ← List.append_assoc, List.drop_left' (by simp)]
  rw [ziplistLength, hdrop, List.take_left' (length_leBytes 2 _), leNat_leBytes_of_lt (by omega)]

theorem setBytes_blob (m : Nat) : setBytes (blob b t n body) m = blob m t n body :=
  @poke_append [] (leBytes 4 (b : Int)) (leBytes 4 (m : Int)) 0 rfl (by simp) _

theorem setTailOffset_blob {m : Int} (hm : 0 ≤ m) :
    setTailOffset (blob b t n body) m = blob b m.toNat n body := by
  rw [blob, blob, Int.toNat_of_nonneg hm]
  exact poke_append (length_leBytes 4 _) (by simp) _

theorem tailOffset_emod (t : Nat) : (ziplistTailOffset (blob b t n body) : Int) = t % 2 ^ 32 := by
  rw [ziplistTailOffset, blob, List.drop_left' (length_leBytes 4 _), List.take_left' (length_leBytes 4 _),
    leNat_leBytes]
  rfl

theorem setTailOffset_emod (m : Int) :
    setTailOffset (blob b t n body) m = blob b (m % 2 ^ 32).toNat n body := by
  rw [← setTailOffset_blob body (Int.emod_nonneg m (by decide)), setTailOffset, setTailOffset]
  congr 1
  exact (leBytes_emod 4 m).symm

theorem setTailOffset_twice {t' : Nat} {x y : Int} (ht' : t' < 2 ^ 32)
    (hsum : (t : Int) + x + y = t') :
    setTailOffset (setTailOffset (blob b t n body) ((t : Int) + x))
      (ziplistTailOffset (setTailOffset (blob b t n body) ((t : Int) + x)) + y) = blob b t' n body := by
  have hnonneg : 0 ≤ ((t : Int) + x) % 2 ^ 32 := Int.emod_nonneg _ (by decide)
  have hlt : ((t : Int) + x) % 2 ^ 32 < 2 ^ 32 := Int.emod_lt_of_pos _ (by decide)
  rw [setTailOffset_emod body ((t : Int) + x), tailOffset_emod, setTailOffset_emod]
  congr 1
  omega

theorem setLength_blob {m : Int} (hm : 0 ≤ m) :
    setLength (blob b t n body) m = blob b t m.toNat body := by
  have hassoc : ∀ x : Int, leBytes 4 (b : Int) ++ (leBytes 4 (t : Int) ++ (leBytes 2 x ++ body)) =
      (leBytes 4 (b : Int) ++ leBytes 4 (t : Int)) ++ (leBytes 2 x ++ body) :=
    fun x => (List.append_assoc _ _ _).symm
  rw [blob, blob, Int.toNat_of_nonneg hm, hassoc, hassoc]
  exact poke_append (by simp) (by simp) _

theorem drop_blob (k : Nat) : (blob b t n body).drop (10 + k) = body.drop k := by
  have hhead : blob b t n body = blob b t n [] ++ body := blob_append b t n [] body
  have hlen : (blob b t n []).length = 10 := length_blob []
  rw [hhead, ← List.drop_drop, List.drop_left' hlen]

theorem poke_blob (k : Nat) (bs : Bytes) :
    poke (blob b t n body) (10 + k) bs = blob b t n (poke body k bs) := by
  have hhead : blob b t n body = blob b t n [] ++ body := blob_append b t n [] body
  rw [poke, Nat.add_assoc, drop_blob, hhead]
  have htake : (blob b t n [] ++ body).take (10 + k) = blob b t n [] ++ body.take k := by
    have h : (blob b t n [] ++ body).take ((blob b t n []).length + k) = blob b t n [] ++ body.take k :=
      List.take_length_add_append k
    rwa [length_blob] at h
  rw [htake, List.append_assoc, List.append_assoc, ← blob_append, poke, List.append_assoc]
  rfl

theorem resize_grow (M : Bytes) (k : Nat) (hlen : 10 + M.length + 1 + k < 2 ^ 32) :
    ∃ z, z.length = k ∧ (0 < k → z.head? = some 255) ∧ ziplistResize (blob b t n (M ++ [255])) (10 + M.length + 1 + k) =
      blob (10 + M.length + 1 + k) t n (M ++ (z ++ [255])) := by
  set len := 10 + M.length + 1 + k with hl
  refine ⟨([255] ++ List.replicate k 0 : Bytes).take k, by simp, ?_, ?_⟩
  · intro hpos
    rw [List.head?_take, if_neg (by omega)]
    rfl
  rw [ziplistResize, Nat.mod_eq_of_lt hlen]
  rw [length_blob, List.length_append, List.length_singleton, blob_append, List.append_assoc]
  have hk : len - (10 + (M.length + 1)) = k := by omega
  have hall : (blob b t n M ++ ([255] ++ List.replicate k 0)).take len =
      blob b t n M ++ ([255] ++ List.replicate k 0) := by
    rw [List.take_of_length_le]
    simp only [List.length_append, length_blob, List.length_singleton, List.length_replicate]
    omega
  rw [hk, hall, ← blob_append, setBytes_blob]
  have hlast : len - 1 = 10 + (M.length + k) := by omega
  rw [hlast, poke_blob]
  congr 1
  rw [poke, List.take_length_add_append, List.drop_of_length_le, List.append_nil, List.append_assoc]
  simp only [List.length_append, List.length_singleton, List.length_replicate]
  omega

theorem resize_cut (M : Bytes) {R : Bytes} (hR : R ≠ []) (hlen : 10 + M.length + 1 < 2 ^ 32) :
    ziplistResize (blob b t n (M ++ R)) (10 + M.length + 1) =
      blob (10 + M.length + 1) t n (M ++ [255]) := by
  obtain ⟨r, R, rfl⟩ := List.exists_cons_of_ne_nil hR
  rw [ziplistResize, Nat.mod_eq_of_lt hlen]
  have hshort : 10 + M.length + 1 - (blob b t n (M ++ r :: R)).length = 0 := by
    rw [length_blob, List.length_append, List.length_cons]
    omega
  have hcut : (blob b t n (M ++ r :: R)).take (10 + M.length + 1) = blob b t n (M ++ [r]) := by
    rw [blob_append, blob_append]
    have h : (blob b t n M ++ r :: R).take ((blob b t n M).length + 1) = blob b t n M ++ (r :: R).take 1 :=
      List.take_length_add_append 1
    rwa [length_blob] at h
  rw [hshort, List.replicate_zero, List.append_nil, hcut, setBytes_blob, Nat.add_sub_cancel, poke_blob]
  have hpoke : poke (M ++ ([r] ++ [])) M.length [255] = M ++ ([255] ++ []) :=
    @poke_append M [r] [255] M.length rfl rfl []
  rw [List.append_nil, List.append_nil] at hpoke
  rw [hpoke]

end Header

end RedisCluster.Ziplist
