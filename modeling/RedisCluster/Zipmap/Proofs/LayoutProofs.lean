import RedisCluster.Zipmap.Zipmap

/-!
# Proofs: the layout of a zipmap

A zipmap is `blob n es`: the count, the entries one after the other, and the end. Reads are stated for what
stands from an offset on, writes for what stands around the bytes that change.
-/

namespace RedisCluster.Zipmap

open RedisCluster.Lib
open RedisCluster.Util

/-- An entry, with the bytes that are left free behind its value. -/
structure Entry where
  key : Bytes
  value : Bytes
  slack : Bytes

def Entry.valuePart (e : Entry) : Bytes :=
  zipmapEncodeLength e.value.length ++ (UInt8.ofNat e.slack.length :: (e.value ++ e.slack))

def Entry.encode (e : Entry) : Bytes := zipmapEncodeLength e.key.length ++ (e.key ++ e.valuePart)

/-- The lengths fit, and few bytes are free. -/
structure Entry.Fit (e : Entry) : Prop where
  small : e.encode.length < 2 ^ 32
  slack_lt : e.slack.length < ZIPMAP_VALUE_MAX_FREE

def body (es : List Entry) : Bytes := es.flatMap Entry.encode

def blob (n : UInt8) (es : List Entry) : Bytes := n :: (body es ++ [ZIPMAP_END])

theorem uint_of_lt {n : Nat} (h : n < 2 ^ 32) : uint n = n := Nat.mod_eq_of_lt h

theorem length_encodeLength (l : Nat) : (zipmapEncodeLength l).length = ZIPMAP_LEN_BYTES l := by
  rw [zipmapEncodeLength, ZIPMAP_LEN_BYTES]
  by_cases hl : l < ZIPMAP_BIGLEN
  · rw [if_pos hl, if_pos hl, List.length_singleton]
  · rw [if_neg hl, if_neg hl, List.length_cons, length_leBytes]

theorem decodeLength_encode {l : Nat} (h : l < 2 ^ 32) (rest : Bytes) :
    zipmapDecodeLength (zipmapEncodeLength l ++ rest) = some l := by
  rw [zipmapEncodeLength]
  by_cases hl : l < ZIPMAP_BIGLEN
  · have hbyte : (UInt8.ofNat l).toNat = l := by
      rw [UInt8.toNat_ofNat']
      exact Nat.mod_eq_of_lt (Nat.lt_trans hl (by decide))
    rw [if_pos hl, List.singleton_append, zipmapDecodeLength, hbyte, if_pos hl]
  · have hbig : ¬ (254 : UInt8).toNat < ZIPMAP_BIGLEN := by decide
    have hread := leNat_leBytes 4 l
    have hmod : (l : Int) % (256 ^ 4 : Nat) = l := by omega
    rw [hmod, Int.natCast_inj] at hread
    rw [if_neg hl, List.cons_append, zipmapDecodeLength, if_neg hbig]
    rw [if_neg (by rw [List.length_append, length_leBytes]; omega), List.take_left' (length_leBytes 4 l), hread]

theorem length_valuePart (e : Entry) :
    e.valuePart.length = ZIPMAP_LEN_BYTES e.value.length + (1 + e.value.length + e.slack.length) := by
  simp only [Entry.valuePart, List.length_append, List.length_cons, length_encodeLength]
  omega

theorem length_encode (e : Entry) :
    e.encode.length = ZIPMAP_LEN_BYTES e.key.length + e.key.length + e.valuePart.length := by
  simp only [Entry.encode, List.length_append, length_encodeLength]
  omega

theorem Entry.Fit.value_lt {e : Entry} (h : e.Fit) :
    ZIPMAP_LEN_BYTES e.key.length + e.key.length < 2 ^ 32 ∧ e.valuePart.length < 2 ^ 32 := by
  have hsmall := h.small
  rw [length_encode] at hsmall
  omega

theorem length_blob (n : UInt8) (es : List Entry) : (blob n es).length = (body es).length + 2 := by
  simp only [blob, List.length_cons, List.length_append, List.length_nil]

theorem body_cons (e : Entry) (es : List Entry) : body (e :: es) = e.encode ++ body es := List.flatMap_cons

theorem body_append (es es' : List Entry) : body (es ++ es') = body es ++ body es' := List.flatMap_append

theorem length_encode_le {e : Entry} {es : List Entry} (h : e ∈ es) : e.encode.length ≤ (body es).length := by
  obtain ⟨front, back, rfl⟩ := List.append_of_mem h
  rw [body_append, body_cons, List.length_append, List.length_append]
  omega

theorem drop_next {zm a b : Bytes} {p : Nat} (h : zm.drop p = a ++ b) : zm.drop (p + a.length) = b := by
  rw [← List.drop_drop, h, List.drop_left]

theorem get_of_drop {zm b : Bytes} {x : UInt8} {p : Nat} (h : zm.drop p = x :: b) : zm[p]? = some x := by
  have hget : (zm.drop p)[0]? = zm[p + 0]? := List.getElem?_drop
  rw [h, Nat.add_zero] at hget
  exact hget.symm

theorem lt_of_drop {zm b : Bytes} {x : UInt8} {p : Nat} (h : zm.drop p = x :: b) : p < zm.length := by
  have hlength := congrArg List.length h
  rw [List.length_drop, List.length_cons] at hlength
  omega

section Read

variable {zm rest : Bytes} {e : Entry} {p : Nat}

theorem rawKeyLength_entry (hfit : e.Fit) :
    zipmapRawKeyLength (e.encode ++ rest) = some (ZIPMAP_LEN_BYTES e.key.length + e.key.length) := by
  have hlt := hfit.value_lt.1
  rw [zipmapRawKeyLength, Entry.encode, List.append_assoc, decodeLength_encode (by omega), Option.map_some,
    uint_of_lt hlt]

theorem drop_key (h : zm.drop p = e.encode ++ rest) :
    zm.drop (p + ZIPMAP_LEN_BYTES e.key.length) = e.key ++ (e.valuePart ++ rest) := by
  rw [Entry.encode, List.append_assoc] at h
  have hnext := drop_next h
  rwa [length_encodeLength, List.append_assoc] at hnext

theorem drop_valuePart (h : zm.drop p = e.encode ++ rest) :
    zm.drop (p + (ZIPMAP_LEN_BYTES e.key.length + e.key.length)) = e.valuePart ++ rest := by
  rw [← Nat.add_assoc]
  exact drop_next (drop_key h)

theorem drop_free {v : Nat} (h : zm.drop v = e.valuePart ++ rest) :
    zm.drop (v + ZIPMAP_LEN_BYTES e.value.length) =
      UInt8.ofNat e.slack.length :: (e.value ++ (e.slack ++ rest)) := by
  rw [Entry.valuePart, List.append_assoc] at h
  have hnext := drop_next h
  rwa [length_encodeLength, List.cons_append, List.append_assoc] at hnext

theorem decodeLength_value (hfit : e.Fit) : zipmapDecodeLength (e.valuePart ++ rest) = some e.value.length := by
  have hlt := hfit.value_lt.2
  rw [length_valuePart] at hlt
  rw [Entry.valuePart, List.append_assoc, decodeLength_encode (by omega)]

theorem toNat_free (hfit : e.Fit) : (UInt8.ofNat e.slack.length).toNat = e.slack.length := by
  rw [UInt8.toNat_ofNat']
  exact Nat.mod_eq_of_lt (Nat.lt_trans hfit.slack_lt (by decide))

theorem rawValueLength_entry (hfit : e.Fit) :
    zipmapRawValueLength (e.valuePart ++ rest) = some e.valuePart.length := by
  have hlt := hfit.value_lt.2
  have hdrop : (e.valuePart ++ rest).drop (0 + ZIPMAP_LEN_BYTES e.value.length) =
      UInt8.ofNat e.slack.length :: (e.value ++ (e.slack ++ rest)) := drop_free List.drop_zero
  rw [Nat.zero_add] at hdrop
  rw [length_valuePart] at hlt ⊢
  rw [zipmapRawValueLength, decodeLength_value hfit, Option.bind_some, get_of_drop hdrop, Option.map_some,
    toNat_free hfit, uint_of_lt (by omega)]
  congr 1
  omega

theorem rawEntryLength_entry (hfit : e.Fit) : zipmapRawEntryLength (e.encode ++ rest) = some e.encode.length := by
  have hstart : (e.encode ++ rest).drop 0 = e.encode ++ rest := List.drop_zero
  have hdrop := drop_valuePart hstart
  rw [Nat.zero_add] at hdrop
  have hsmall := hfit.small
  rw [length_encode] at hsmall ⊢
  rw [zipmapRawEntryLength, rawKeyLength_entry hfit, Option.bind_some, hdrop, rawValueLength_entry hfit,
    Option.map_some, uint_of_lt hsmall]

theorem skipEntry_entry (hfit : e.Fit) (h : zm.drop p = e.encode ++ rest) :
    skipEntry zm p e.key.length = some (p + e.encode.length) := by
  have hlt := hfit.value_lt
  have hvalue := drop_valuePart h
  have hslack := drop_free hvalue
  rw [length_valuePart] at hlt
  simp only [skipEntry, uint_of_lt hlt.1, hvalue, decodeLength_value hfit, Option.bind_some, get_of_drop hslack,
    Option.map_some, toNat_free hfit]
  rw [uint_of_lt (by omega), length_encode, length_valuePart]
  congr 1
  omega

theorem keyIs_entry (key : Bytes) (h : zm.drop p = e.encode ++ rest) :
    keyIs zm key p e.key.length = decide (e.key = key) := by
  have hkey : (zm.drop (p + ZIPMAP_LEN_BYTES e.key.length)).take e.key.length = e.key := by
    rw [drop_key h, List.take_left]
  rw [keyIs, hkey]
  refine decide_eq_decide.mpr ⟨And.right, fun heq => ⟨by rw [heq], heq⟩⟩

theorem first_byte (e : Entry) : ∃ b q, e.encode = b :: q ∧ b ≠ ZIPMAP_END := by
  rw [Entry.encode, zipmapEncodeLength]
  by_cases hl : e.key.length < ZIPMAP_BIGLEN
  · refine ⟨UInt8.ofNat e.key.length, _, by rw [if_pos hl]; rfl, ?_⟩
    intro heq
    have hbyte := congrArg UInt8.toNat heq
    rw [UInt8.toNat_ofNat', Nat.mod_eq_of_lt (Nat.lt_trans hl (by decide))] at hbyte
    rw [hbyte] at hl
    exact absurd hl (by decide)
  · exact ⟨254, _, by rw [if_neg hl]; rfl, by decide⟩

theorem length_encode_pos (e : Entry) : 0 < e.encode.length := by
  obtain ⟨b, q, heq, -⟩ := first_byte e
  rw [heq]
  exact Nat.succ_pos _

def wanted (key : Option Bytes) (k : Option Nat) (e : Entry) : Bool :=
  k.isNone && key.any fun key => decide (e.key = key)

theorem lookupLoop_end (key : Option Bytes) (totlen : Bool) (k : Option Nat) (h : zm.drop p = [ZIPMAP_END]) :
    lookupLoop zm key totlen p k = some (k, p) := by
  have hlt := lt_of_drop h
  have hbyte : zm[p] = ZIPMAP_END := by
    have hget := get_of_drop h
    rw [List.getElem?_eq_getElem hlt] at hget
    exact Option.some.inj hget
  rw [lookupLoop, dif_pos hlt, if_pos hbyte]

theorem lookupLoop_entry (key : Option Bytes) (totlen : Bool) (k : Option Nat) (hfit : e.Fit)
    (h : zm.drop p = e.encode ++ rest) :
    lookupLoop zm key totlen p k =
      if wanted key k e && !totlen then some (some p, p)
      else lookupLoop zm key totlen (p + e.encode.length) (if wanted key k e then some p else k) := by
  obtain ⟨b, q, hfirst, hb⟩ := first_byte e
  have hcons : zm.drop p = b :: (q ++ rest) := by rw [h, hfirst, List.cons_append]
  have hlt := lt_of_drop hcons
  have hbyte : ¬ zm[p] = ZIPMAP_END := by
    have hget := get_of_drop hcons
    rw [List.getElem?_eq_getElem hlt] at hget
    rw [Option.some.inj hget]
    exact hb
  have hdecode : zipmapDecodeLength (zm.drop p) = some e.key.length := by
    have hkey := hfit.value_lt.1
    rw [h, Entry.encode, List.append_assoc, decodeLength_encode (by omega)]
  have hfound : (k.isNone && key.any fun key => keyIs zm key p e.key.length) = wanted key k e := by
    simp only [wanted, keyIs_entry _ h]
  have hpos := length_encode_pos e
  rw [lookupLoop, dif_pos hlt, if_neg hbyte, hdecode, Option.bind_some]
  simp only [hfound, skipEntry_entry hfit h, Option.bind_some]
  rw [dif_pos (by omega)]

theorem lookupLoop_pass (key : Option Bytes) (totlen : Bool) (k : Option Nat) {es : List Entry}
    (hfit : ∀ e ∈ es, e.Fit) (hpass : ∀ e ∈ es, wanted key k e = false) (h : zm.drop p = body es ++ rest) :
    lookupLoop zm key totlen p k = lookupLoop zm key totlen (p + (body es).length) k := by
  induction es generalizing p with
  | nil => rfl
  | cons e es ih =>
    rw [body_cons, List.append_assoc] at h
    have hhead := hpass e List.mem_cons_self
    rw [lookupLoop_entry key totlen k (hfit e List.mem_cons_self) h, hhead, Bool.false_and]
    rw [if_neg Bool.false_ne_true, if_neg Bool.false_ne_true]
    rw [ih (fun e' he' => hfit e' (List.mem_cons_of_mem e he'))
      (fun e' he' => hpass e' (List.mem_cons_of_mem e he')) (drop_next h)]
    rw [body_cons, List.length_append, Nat.add_assoc]

end Read

theorem wanted_some (key : Option Bytes) (q : Nat) (e : Entry) : wanted key (some q) e = false := rfl

theorem wanted_none (k : Option Nat) (e : Entry) : wanted none k e = false := by
  rw [wanted, Option.any_none, Bool.and_false]

theorem wanted_key (key : Bytes) (e : Entry) : wanted (some key) none e = decide (e.key = key) := rfl

theorem drop_blob (n : UInt8) (es : List Entry) : (blob n es).drop 1 = body es ++ [ZIPMAP_END] := rfl

theorem lookupRaw_absent {n : UInt8} {es : List Entry} {key : Option Bytes} (totlen : Bool)
    (hfit : ∀ e ∈ es, e.Fit) (hkey : ∀ e ∈ es, key ≠ some e.key) (hsmall : (blob n es).length < 2 ^ 32) :
    zipmapLookupRaw (blob n es) key totlen = some (none, (blob n es).length) := by
  have hpass : ∀ e ∈ es, wanted key none e = false := by
    intro e he
    cases key with
    | none => exact wanted_none none e
    | some key =>
      rw [wanted_key, decide_eq_false_iff_not]
      intro heq
      exact hkey e he (by rw [heq])
  rw [length_blob] at hsmall ⊢
  rw [zipmapLookupRaw, lookupLoop_pass key totlen none hfit hpass (drop_blob n es)]
  rw [lookupLoop_end key totlen none (drop_next (drop_blob n es)), Option.map_some, uint_of_lt (by omega)]
  congr 2
  omega

theorem lookupRaw_present {n : UInt8} {front back : List Entry} {e : Entry} (totlen : Bool)
    (hfit : ∀ e' ∈ front ++ e :: back, e'.Fit) (hfront : ∀ e' ∈ front, e'.key ≠ e.key)
    (hsmall : (blob n (front ++ e :: back)).length < 2 ^ 32) :
    ∃ total, zipmapLookupRaw (blob n (front ++ e :: back)) (some e.key) totlen =
        some (some (1 + (body front).length), total) ∧
      (totlen = true → total = (blob n (front ++ e :: back)).length) := by
  have hdrop : (blob n (front ++ e :: back)).drop 1 =
      body front ++ (e.encode ++ (body back ++ [ZIPMAP_END])) := by
    rw [drop_blob, body_append, body_cons, List.append_assoc, List.append_assoc]
  have hpass : ∀ e' ∈ front, wanted (some e.key) none e' = false := by
    intro e' he'
    rw [wanted_key, decide_eq_false_iff_not]
    exact hfront e' he'
  have hfound : wanted (some e.key) none e = true := by rw [wanted_key, decide_eq_true rfl]
  have hat := drop_next hdrop
  have hloop := lookupLoop_pass (some e.key) totlen none
    (fun e' he' => hfit e' (List.mem_append_left _ he')) hpass hdrop
  rw [lookupLoop_entry (some e.key) totlen none (hfit e (by simp)) hat, hfound, if_pos rfl, Bool.true_and] at hloop
  rw [zipmapLookupRaw, hloop]
  cases totlen with
  | false => exact ⟨_, rfl, fun h => absurd h Bool.false_ne_true⟩
  | true =>
    have hrest := drop_next hat
    rw [if_neg (by decide), lookupLoop_pass (some e.key) true (some (1 + (body front).length))
      (fun e' he' => hfit e' (by simp [he'])) (fun e' _ => wanted_some _ _ e') hrest]
    rw [lookupLoop_end _ _ _ (drop_next hrest), Option.map_some]
    refine ⟨_, rfl, fun _ => ?_⟩
    rw [length_blob, body_append, body_cons, List.length_append, List.length_append] at hsmall ⊢
    rw [uint_of_lt (by omega)]
    omega

def Entry.item (e : Entry) (p : Nat) : Item :=
  { next := p + e.encode.length, key := e.key, value := e.value, free := UInt8.ofNat e.slack.length }

theorem zipmapNext_entry {zm rest : Bytes} {e : Entry} {p : Nat} (hfit : e.Fit) (h : zm.drop p = e.encode ++ rest) :
    zipmapNext zm p = some (some (e.item p)) := by
  obtain ⟨b, q, hfirst, hb⟩ := first_byte e
  have hcons : zm.drop p = b :: (q ++ rest) := by rw [h, hfirst, List.cons_append]
  have hdecode : zipmapDecodeLength (zm.drop p) = some e.key.length := by
    have hkey := hfit.value_lt.1
    rw [h, Entry.encode, List.append_assoc, decodeLength_encode (by omega)]
  have hrawKey : zipmapRawKeyLength (zm.drop p) = some (ZIPMAP_LEN_BYTES e.key.length + e.key.length) := by
    rw [h, rawKeyLength_entry hfit]
  have hkey : (zm.drop (p + ZIPMAP_LEN_BYTES e.key.length)).take e.key.length = e.key := by
    rw [drop_key h, List.take_left]
  have hpart := drop_valuePart h
  have hfree := drop_free hpart
  have hvalue : zm.drop (p + (ZIPMAP_LEN_BYTES e.key.length + e.key.length) + 1 +
      ZIPMAP_LEN_BYTES e.value.length) = e.value ++ (e.slack ++ rest) := by
    rw [Nat.add_right_comm, ← List.drop_drop, hfree]
    rfl
  simp only [zipmapNext, get_of_drop hcons, hdecode, hrawKey, hkey, hpart, decodeLength_value hfit,
    get_of_drop hfree, hvalue, rawValueLength_entry hfit, List.take_left, if_neg hb, bind, pure, Option.bind_some]
  rw [Entry.item, length_encode, Nat.add_assoc]

def Entry.shown (e : Entry) : Bytes × Bytes × UInt8 := (e.key, e.value, UInt8.ofNat e.slack.length)

def Item.shown (i : Item) : Bytes × Bytes × UInt8 := (i.key, i.value, i.free)

theorem iterate_body {zm : Bytes} {es : List Entry} {p : Nat} (hfit : ∀ e ∈ es, e.Fit)
    (h : zm.drop p = body es ++ [ZIPMAP_END]) :
    ∃ items, iterate zm p = some items ∧ items.map Item.shown = es.map Entry.shown := by
  induction es generalizing p with
  | nil =>
    have hend : zm.drop p = ZIPMAP_END :: [] := h
    have hnext : zipmapNext zm p = some none := by
      simp only [zipmapNext, get_of_drop hend, bind, Option.bind_some, if_pos, pure]
    exact ⟨[], by rw [iterate, hnext], rfl⟩
  | cons e es ih =>
    rw [body_cons, List.append_assoc] at h
    have hrest := drop_next h
    obtain ⟨items, heq, hitems⟩ := ih (fun e' he' => hfit e' (List.mem_cons_of_mem e he')) hrest
    have hpos := length_encode_pos e
    have hlt : p + e.encode.length < zm.length := by
      have hlength := congrArg List.length hrest
      rw [List.length_drop, List.length_append, List.length_singleton] at hlength
      omega
    refine ⟨e.item p :: items, ?_, ?_⟩
    · rw [iterate, zipmapNext_entry (hfit e List.mem_cons_self) h]
      simp only [Entry.item, heq]
      rw [if_pos ⟨by omega, hlt⟩, Option.map_some]
    · rw [List.map_cons, List.map_cons, hitems]
      rfl

end RedisCluster.Zipmap
