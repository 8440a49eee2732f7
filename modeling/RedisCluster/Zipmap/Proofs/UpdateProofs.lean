import RedisCluster.Zipmap.Proofs.LayoutProofs

/-!
# Proofs: a zipmap refines a finite map

A set puts the entry at the end or in the place of the old one, a delete takes it out; the rest of the entries
stay as they are.
-/

namespace RedisCluster.Zipmap

open RedisCluster.Lib
open RedisCluster.Util

theorem store_middle {a old bs : Bytes} {p : Nat} (hp : a.length = p) (hlen : old.length = bs.length) (b : Bytes) :
    store (a ++ (old ++ b)) p bs = some (a ++ (bs ++ b)) := by
  subst hp
  have hfits : a.length + bs.length ≤ (a ++ (old ++ b)).length := by
    rw [List.length_append, List.length_append]
    omega
  rw [store, if_pos hfits, overwriteAt, List.take_left, ← List.drop_drop, List.drop_left, ← hlen, List.drop_left,
    List.append_assoc]

theorem zipmapResize_eq (zm : Bytes) {len : Nat} (h : 0 < len) :
    zipmapResize zm len =
      some ((zm ++ List.replicate (len - zm.length) 0).take (len - 1) ++ [ZIPMAP_END]) := by
  set x := (zm ++ List.replicate (len - zm.length) 0).take len with hx
  have hlength : x.length = len := by
    rw [hx, List.length_take, List.length_append, List.length_replicate]
    omega
  have hfront : x.take (len - 1) = (zm ++ List.replicate (len - zm.length) 0).take (len - 1) := by
    rw [hx, List.take_take, Nat.min_eq_left (by omega)]
  rw [zipmapResize, ← hx, store, if_pos (by rw [List.length_singleton]; omega), overwriteAt, hfront,
    List.length_singleton, List.drop_eq_nil_of_le (by omega), List.append_nil]

theorem resize_grow (zm : Bytes) {k : Nat} (hk : 0 < k) :
    ∃ junk : Bytes, junk.length + 1 = k ∧ zipmapResize zm (zm.length + k) = some (zm ++ (junk ++ [ZIPMAP_END])) := by
  have hnew : zm.length + k - zm.length = k := by omega
  refine ⟨List.replicate (k - 1) 0, by rw [List.length_replicate]; omega, ?_⟩
  rw [zipmapResize_eq zm (by omega), hnew, Nat.add_sub_assoc hk, List.take_length_add_append, List.take_replicate,
    Nat.min_eq_left (by omega), List.append_assoc]

theorem resize_cut (front : Bytes) {rest : Bytes} (hrest : rest ≠ []) :
    zipmapResize (front ++ rest) (front.length + 1) = some (front ++ [ZIPMAP_END]) := by
  have hpos := List.length_pos_iff.mpr hrest
  have hnew : front.length + 1 - (front ++ rest).length = 0 := by
    rw [List.length_append]
    omega
  rw [zipmapResize_eq _ (by omega), hnew, List.replicate_zero, List.append_nil, Nat.add_sub_cancel, List.take_left]

theorem memmove_up {P Q Y z x : Bytes} {d c n : Nat} (hd : d = P.length + (Q.length + z.length))
    (hc : c = P.length + Q.length) (hn : n = Y.length) :
    ∃ W : Bytes, W.length = Q.length + z.length ∧
      memmove (P ++ (Q ++ (Y ++ (z ++ x)))) d c n = some (P ++ (W ++ (Y ++ x))) := by
  subst hd hc hn
  set zm := P ++ (Q ++ (Y ++ (z ++ x))) with hzm
  have hlength : zm.length = P.length + (Q.length + (Y.length + (z.length + x.length))) := by
    simp only [hzm, List.length_append]
  have hsource : (zm.drop (P.length + Q.length)).take Y.length = Y := by
    rw [hzm, List.drop_length_add_append, List.drop_left, List.take_left]
  set W := (Q ++ (Y ++ (z ++ x))).take (Q.length + z.length) with hW
  have hfront : zm.take (P.length + (Q.length + z.length)) = P ++ W := by rw [hzm, List.take_length_add_append]
  have hback : zm.drop (P.length + (Q.length + z.length) + Y.length) = x := by
    have hcount : P.length + (Q.length + z.length) + Y.length = P.length + (Q.length + (Y ++ z).length) := by
      rw [List.length_append]
      omega
    rw [hcount, hzm, List.drop_length_add_append, List.drop_length_add_append, ← List.append_assoc, List.drop_left]
  refine ⟨W, ?_, ?_⟩
  · rw [hW, List.length_take, List.length_append, List.length_append, List.length_append]
    omega
  · rw [memmove, if_pos (by omega), hsource, store, if_pos (by omega), overwriteAt, hfront, hback,
      List.append_assoc, List.append_assoc]

theorem memmove_down {P T Y x : Bytes} {d c n : Nat} (hd : d = P.length) (hc : c = P.length + T.length)
    (hn : n = Y.length) (hx : x ≠ []) :
    ∃ R : Bytes, R ≠ [] ∧ memmove (P ++ (T ++ (Y ++ x))) d c n = some (P ++ (Y ++ R)) := by
  subst hd hc hn
  set zm := P ++ (T ++ (Y ++ x)) with hzm
  have hpos := List.length_pos_iff.mpr hx
  have hlength : zm.length = P.length + (T.length + (Y.length + x.length)) := by
    simp only [hzm, List.length_append]
  have hsource : (zm.drop (P.length + T.length)).take Y.length = Y := by
    rw [hzm, List.drop_length_add_append, List.drop_left, List.take_left]
  refine ⟨zm.drop (P.length + Y.length), ?_, ?_⟩
  · rw [← List.length_pos_iff, List.length_drop]
    omega
  · have hfront : zm.take P.length = P := by rw [hzm, List.take_left]
    rw [memmove, if_pos (by omega), hsource, store, if_pos (by omega), overwriteAt, hfront, List.append_assoc]

theorem cut_out {P T Y : Bytes} {d c n k : Nat} (hd : d = P.length) (hc : c = P.length + T.length)
    (hn : n = Y.length) (hk : k = P.length + Y.length + 1) :
    ∃ zm, memmove (P ++ (T ++ (Y ++ [ZIPMAP_END]))) d c n = some zm ∧
      zipmapResize zm k = some (P ++ (Y ++ [ZIPMAP_END])) := by
  obtain ⟨R, hR, hmove⟩ := memmove_down hd hc hn (List.cons_ne_nil ZIPMAP_END [])
  have hcut := resize_cut (P ++ Y) hR
  rw [List.length_append, List.append_assoc, List.append_assoc] at hcut
  exact ⟨_, hmove, hk ▸ hcut⟩

theorem length_entryBytes (key val : Bytes) (vempty : Nat) :
    (entryBytes key val vempty).length = entrySize key.length val.length := by
  simp only [entryBytes, entrySize, List.length_append, List.length_cons, length_encodeLength]
  omega

theorem encode_eq (e : Entry) : e.encode = entryBytes e.key e.value e.slack.length ++ e.slack := by
  simp only [Entry.encode, Entry.valuePart, entryBytes, List.append_assoc, List.cons_append]

theorem entrySize_pos (klen vlen : Nat) : 0 < entrySize klen vlen := by
  rw [entrySize]
  omega

theorem requiredLength_eq {klen vlen : Nat} (h : entrySize klen vlen < 2 ^ 32) :
    zipmapRequiredLength klen vlen = entrySize klen vlen := by
  have hbytes : ∀ l, ZIPMAP_LEN_BYTES l = if l ≥ ZIPMAP_BIGLEN then 5 else 1 := by
    intro l
    rw [ZIPMAP_LEN_BYTES]
    by_cases hl : l < ZIPMAP_BIGLEN
    · rw [if_pos hl, if_neg (Nat.not_le_of_lt hl)]
    · rw [if_neg hl, if_pos (Nat.le_of_not_lt hl)]
  rw [entrySize, hbytes, hbytes] at h ⊢
  simp only [zipmapRequiredLength, uint]
  by_cases hk : klen ≥ ZIPMAP_BIGLEN
  · by_cases hv : vlen ≥ ZIPMAP_BIGLEN
    · rw [if_pos hk, if_pos hv] at h ⊢
      rw [if_pos hk, if_pos hv]
      omega
    · rw [if_pos hk, if_neg hv] at h ⊢
      rw [if_pos hk, if_neg hv]
      omega
  · by_cases hv : vlen ≥ ZIPMAP_BIGLEN
    · rw [if_neg hk, if_pos hv] at h ⊢
      rw [if_neg hk, if_pos hv]
      omega
    · rw [if_neg hk, if_neg hv] at h ⊢
      rw [if_neg hk, if_neg hv]
      omega

def addOne (n : UInt8) : UInt8 := if n.toNat < ZIPMAP_BIGLEN then n + 1 else n

def takeOne (n : UInt8) : UInt8 := if n.toNat < ZIPMAP_BIGLEN then n - 1 else n

theorem zipmapSet_absent {n : UInt8} {es : List Entry} {key val : Bytes} (hfit : ∀ e ∈ es, e.Fit)
    (hkey : ∀ e ∈ es, e.key ≠ key) (hsmall : (blob n es).length + entrySize key.length val.length < 2 ^ 32) :
    zipmapSet (blob n es) key val = some (blob (addOne n) (es ++ [⟨key, val, []⟩])) := by
  have hpos := entrySize_pos key.length val.length
  have hlookup : zipmapLookupRaw (blob n es) (some key) true = some (none, (blob n es).length) := by
    refine lookupRaw_absent true hfit ?_ (by omega)
    intro e he heq
    exact hkey e he (Option.some.inj heq).symm
  obtain ⟨junk, hjunk, hresize⟩ := resize_grow (blob n es) hpos
  have hroom : appendRoom (blob n es) (blob n es).length (entrySize key.length val.length) = some {
      zm := (addOne n :: body es) ++ ((ZIPMAP_END :: junk) ++ [ZIPMAP_END])
      p := (blob n es).length - 1
      zmlen := (blob n es).length + entrySize key.length val.length
      freelen := entrySize key.length val.length } := by
    simp only [appendRoom, uint_of_lt hsmall, hresize, bind, pure, Option.bind_some]
    simp only [blob, List.cons_append, List.head?_cons, Option.bind_some, List.append_assoc, addOne]
    split <;> rfl
  have hp : (addOne n :: body es).length = (blob n es).length - 1 := by
    rw [length_blob, List.length_cons]
    omega
  have hlen : (ZIPMAP_END :: junk).length = (entryBytes key val 0).length := by
    rw [List.length_cons, length_entryBytes, hjunk]
  have hblob : blob (addOne n) (es ++ [⟨key, val, []⟩]) =
      (addOne n :: body es) ++ (entryBytes key val 0 ++ [ZIPMAP_END]) := by
    have hbody : body [(⟨key, val, []⟩ : Entry)] = entryBytes key val 0 := by
      rw [body_cons, encode_eq]
      exact (List.append_nil _).trans (List.append_nil _)
    rw [blob, body_append, hbody, List.append_assoc, List.cons_append]
  simp only [zipmapSet, hlookup, requiredLength_eq (show entrySize key.length val.length < 2 ^ 32 by omega), hroom,
    trim, Nat.sub_self, bind, Option.bind_some]
  rw [if_neg (by decide), Option.bind_some, writeEntry, store_middle hp hlen, hblob]

theorem blob_split (n : UInt8) (front back : List Entry) (e : Entry) :
    blob n (front ++ e :: back) = (n :: body front) ++ (e.encode ++ (body back ++ [ZIPMAP_END])) := by
  rw [blob, body_append, body_cons, List.append_assoc, List.append_assoc, List.cons_append]

theorem length_blob_split (n : UInt8) (front back : List Entry) (e : Entry) :
    (blob n (front ++ e :: back)).length =
      (n :: body front).length + e.encode.length + (body back).length + 1 := by
  rw [blob_split]
  simp only [List.length_append, List.length_singleton]
  omega

theorem drop_blob_split (n : UInt8) (front back : List Entry) (e : Entry) :
    (blob n (front ++ e :: back)).drop (1 + (body front).length) = e.encode ++ (body back ++ [ZIPMAP_END]) := by
  have hp : 1 + (body front).length = (n :: body front).length := by
    rw [List.length_cons, Nat.add_comm]
  rw [blob_split, hp, List.drop_left]

section Present

variable {n : UInt8} {front back : List Entry} {e : Entry} {val : Bytes}

theorem updateRoom_grow (hfit : e.Fit) (hgrow : e.encode.length < entrySize e.key.length val.length)
    (hsmall : (blob n (front ++ e :: back)).length - e.encode.length + entrySize e.key.length val.length < 2 ^ 32) :
    ∃ W : Bytes, W.length = entrySize e.key.length val.length ∧
      updateRoom (blob n (front ++ e :: back)) (1 + (body front).length) (blob n (front ++ e :: back)).length
        (entrySize e.key.length val.length) = some {
          zm := (n :: body front) ++ (W ++ (body back ++ [ZIPMAP_END]))
          p := 1 + (body front).length
          zmlen := (blob n (front ++ e :: back)).length - e.encode.length + entrySize e.key.length val.length
          freelen := entrySize e.key.length val.length } := by
  have hlength := length_blob_split n front back e
  have hp : (n :: body front).length = 1 + (body front).length := by rw [List.length_cons, Nat.add_comm]
  obtain ⟨junk, hjunk, hresize⟩ := resize_grow (blob n (front ++ e :: back))
    (k := entrySize e.key.length val.length - e.encode.length) (by omega)
  have hnew : (blob n (front ++ e :: back)).length - e.encode.length + entrySize e.key.length val.length =
      (blob n (front ++ e :: back)).length + (entrySize e.key.length val.length - e.encode.length) := by omega
  have hgrown : blob n (front ++ e :: back) ++ (junk ++ [ZIPMAP_END]) =
      (n :: body front) ++ (e.encode ++ (body back ++ ((ZIPMAP_END :: junk) ++ [ZIPMAP_END]))) := by
    rw [blob_split]
    simp only [List.append_assoc, List.cons_append, List.nil_append]
  have hz : (ZIPMAP_END :: junk).length = entrySize e.key.length val.length - e.encode.length := by
    rw [List.length_cons, hjunk]
  obtain ⟨W, hW, hmove⟩ := memmove_up (P := n :: body front) (Q := e.encode) (Y := body back)
    (z := ZIPMAP_END :: junk) (x := [ZIPMAP_END])
    (d := 1 + (body front).length + entrySize e.key.length val.length)
    (c := 1 + (body front).length + e.encode.length)
    (n := (blob n (front ++ e :: back)).length - (1 + (body front).length + e.encode.length + 1))
    (by omega) (by omega) (by omega)
  refine ⟨W, by omega, ?_⟩
  simp only [updateRoom, drop_blob_split, rawEntryLength_entry hfit, bind, pure, Option.bind_some]
  rw [if_pos hgrow, uint_of_lt hsmall, hnew, hresize, Option.bind_some, hgrown, hmove, Option.bind_some]

variable (n front back) in
theorem updateRoom_keep (hfit : e.Fit) (hkeep : entrySize e.key.length val.length ≤ e.encode.length) :
    updateRoom (blob n (front ++ e :: back)) (1 + (body front).length) (blob n (front ++ e :: back)).length
      (entrySize e.key.length val.length) = some {
        zm := blob n (front ++ e :: back)
        p := 1 + (body front).length
        zmlen := (blob n (front ++ e :: back)).length
        freelen := e.encode.length } := by
  simp only [updateRoom, drop_blob_split, rawEntryLength_entry hfit, bind, pure, Option.bind_some]
  rw [if_neg (by omega)]

variable (n front back) in
theorem trim_shrink {O T : Bytes} (hencode : e.encode = O ++ T) (hlong : ZIPMAP_VALUE_MAX_FREE ≤ T.length) :
    trim {
        zm := blob n (front ++ e :: back)
        p := 1 + (body front).length
        zmlen := (blob n (front ++ e :: back)).length
        freelen := e.encode.length } O.length =
      some ((n :: body front) ++ (O ++ (body back ++ [ZIPMAP_END])), 0) := by
  have hlength := length_blob_split n front back e
  have hp : (n :: body front).length = 1 + (body front).length := by rw [List.length_cons, Nat.add_comm]
  have hO : e.encode.length = O.length + T.length := by rw [hencode, List.length_append]
  have hblob : blob n (front ++ e :: back) =
      ((n :: body front) ++ O) ++ (T ++ (body back ++ [ZIPMAP_END])) := by
    rw [blob_split, hencode]
    simp only [List.append_assoc]
  obtain ⟨zm, hmove, hcut⟩ := cut_out (P := (n :: body front) ++ O) (T := T) (Y := body back)
    (d := 1 + (body front).length + O.length) (c := 1 + (body front).length + e.encode.length)
    (n := (blob n (front ++ e :: back)).length - (1 + (body front).length + e.encode.length + 1))
    (k := (blob n (front ++ e :: back)).length - (e.encode.length - O.length))
    (by rw [List.length_append]; omega) (by rw [List.length_append]; omega) (by omega)
    (by rw [List.length_append]; omega)
  rw [← hblob] at hmove
  simp only [trim]
  rw [if_pos (by omega), hmove]
  simp only [bind, pure, Option.bind_some]
  rw [hcut, Option.bind_some]
  simp only [List.append_assoc]

theorem zipmapSet_present (hfit : ∀ e' ∈ front ++ e :: back, e'.Fit) (hfront : ∀ e' ∈ front, e'.key ≠ e.key)
    (hlt : (blob n (front ++ e :: back)).length < 2 ^ 32)
    (hsmall : (blob n (front ++ e :: back)).length - e.encode.length + entrySize e.key.length val.length < 2 ^ 32) :
    ∃ slack : Bytes, slack.length < ZIPMAP_VALUE_MAX_FREE ∧
      (slack.length = 0 ∨ entrySize e.key.length val.length + slack.length = e.encode.length) ∧
      zipmapSet (blob n (front ++ e :: back)) e.key val =
        some (blob n (front ++ ⟨e.key, val, slack⟩ :: back)) := by
  obtain ⟨total, hlookup, htotal⟩ := lookupRaw_present true hfit hfront hlt
  rw [htotal rfl] at hlookup
  have he : e.Fit := hfit e (by simp)
  have hp : (n :: body front).length = 1 + (body front).length := by rw [List.length_cons, Nat.add_comm]
  have hrequired := requiredLength_eq (show entrySize e.key.length val.length < 2 ^ 32 by omega)
  by_cases hgrow : e.encode.length < entrySize e.key.length val.length
  · obtain ⟨W, hW, hroom⟩ := updateRoom_grow he hgrow hsmall
    refine ⟨[], by decide, Or.inl rfl, ?_⟩
    simp only [zipmapSet, hlookup, hrequired, hroom, trim, Nat.sub_self, bind, Option.bind_some]
    rw [if_neg (by decide), Option.bind_some, writeEntry,
      store_middle hp (by rw [hW, length_entryBytes]), blob_split, encode_eq, List.append_nil]
    rfl
  · have hroom := updateRoom_keep n front back he (Nat.le_of_not_lt hgrow)
    obtain ⟨O, T, hencode, hO⟩ : ∃ O T, e.encode = O ++ T ∧ O.length = entrySize e.key.length val.length :=
      ⟨_, _, (List.take_append_drop (entrySize e.key.length val.length) e.encode).symm, by
        rw [List.length_take]
        omega⟩
    have hT : e.encode.length - entrySize e.key.length val.length = T.length := by
      rw [hencode, List.length_append]
      omega
    by_cases hlong : ZIPMAP_VALUE_MAX_FREE ≤ T.length
    · have htrim := trim_shrink n front back hencode hlong
      rw [hO] at htrim
      refine ⟨[], by decide, Or.inl rfl, ?_⟩
      simp only [zipmapSet, hlookup, hrequired, hroom, htrim, bind, Option.bind_some]
      rw [writeEntry, store_middle hp (by rw [hO, length_entryBytes]), blob_split, encode_eq, List.append_nil]
      rfl
    · refine ⟨T, Nat.lt_of_not_le hlong, Or.inr (by omega), ?_⟩
      simp only [zipmapSet, hlookup, hrequired, hroom, trim, hT, bind, Option.bind_some]
      rw [if_neg hlong, Option.bind_some, writeEntry, blob_split, hencode, List.append_assoc,
        store_middle hp (by rw [hO, length_entryBytes]), blob_split, encode_eq, List.append_assoc]

theorem zipmapDel_present (hfit : ∀ e' ∈ front ++ e :: back, e'.Fit) (hfront : ∀ e' ∈ front, e'.key ≠ e.key)
    (hlt : (blob n (front ++ e :: back)).length < 2 ^ 32) :
    zipmapDel (blob n (front ++ e :: back)) e.key = some (blob (takeOne n) (front ++ back)) := by
  obtain ⟨total, hlookup, htotal⟩ := lookupRaw_present true hfit hfront hlt
  rw [htotal rfl] at hlookup
  have hlength := length_blob_split n front back e
  have hp : (n :: body front).length = 1 + (body front).length := by rw [List.length_cons, Nat.add_comm]
  obtain ⟨zm, hmove, hcut⟩ := cut_out (P := n :: body front) (T := e.encode) (Y := body back)
    (d := 1 + (body front).length) (c := 1 + (body front).length + e.encode.length)
    (n := (blob n (front ++ e :: back)).length - (1 + (body front).length + e.encode.length + 1))
    (k := (blob n (front ++ e :: back)).length - e.encode.length)
    (by omega) (by omega) (by omega) (by omega)
  rw [← blob_split] at hmove
  simp only [zipmapDel, hlookup, drop_blob_split, rawEntryLength_entry (hfit e (by simp)), hmove, hcut, bind, pure,
    Option.bind_some]
  simp only [List.cons_append, List.head?_cons, Option.bind_some, takeOne, blob, body_append, List.append_assoc]
  split <;> rfl

end Present

end RedisCluster.Zipmap
