import RedisCluster.Zipmap.Proofs.UpdateProofs

/-!
# Proofs: a zipmap refines a finite map

As long as it has less than 4 GB, every call keeps the entries of a zipmap those of the map.
-/

namespace RedisCluster.Zipmap

open RedisCluster.Lib
open RedisCluster.Util

/-- The entries that a zipmap is laid out from, and the map they make up. -/
structure Represents (zm : Bytes) (m : Map) (n : UInt8) (es : List Entry) : Prop where
  zm_eq : zm = blob n es
  counted : n.toNat < ZIPMAP_BIGLEN ∧ n.toNat = es.length ∨ n.toNat = ZIPMAP_BIGLEN
  slack_lt : ∀ e ∈ es, e.slack.length < ZIPMAP_VALUE_MAX_FREE
  nodup : (es.map Entry.key).Nodup
  holds : ∀ key val, (∃ e ∈ es, e.key = key ∧ e.value = val) ↔ m.lookup key = some val
  small : zm.length < 2 ^ 32

variable {zm : Bytes} {m : Map} {n : UInt8} {es : List Entry}

theorem Represents.fit (h : Represents zm m n es) : ∀ e ∈ es, e.Fit := by
  intro e he
  have hle := length_encode_le he
  have hsmall := h.small
  rw [h.zm_eq, length_blob] at hsmall
  exact ⟨by omega, h.slack_lt e he⟩

theorem represents_new : Represents zipmapNew ∅ 0 [] where
  zm_eq := rfl
  counted := Or.inl ⟨by decide, rfl⟩
  slack_lt := by
    intro e he
    cases he
  nodup := List.nodup_nil
  holds := by
    intro key val
    constructor
    · rintro ⟨e, he, -⟩
      cases he
    · intro h
      rw [Finmap.lookup_empty] at h
      cases h
  small := by decide

theorem toNat_addOne {k : Nat} (h : n.toNat < ZIPMAP_BIGLEN ∧ n.toNat = k ∨ n.toNat = ZIPMAP_BIGLEN) :
    (addOne n).toNat < ZIPMAP_BIGLEN ∧ (addOne n).toNat = k + 1 ∨ (addOne n).toNat = ZIPMAP_BIGLEN := by
  rw [addOne]
  by_cases hn : n.toNat < ZIPMAP_BIGLEN
  · have hadd : (n + 1).toNat = n.toNat + 1 := by
      have hbig : ZIPMAP_BIGLEN = 254 := rfl
      rw [UInt8.toNat_add, UInt8.toNat_one]
      omega
    rw [if_pos hn, hadd]
    omega
  · rw [if_neg hn]
    omega

theorem toNat_takeOne {k : Nat} (h : n.toNat < ZIPMAP_BIGLEN ∧ n.toNat = k + 1 ∨ n.toNat = ZIPMAP_BIGLEN) :
    (takeOne n).toNat < ZIPMAP_BIGLEN ∧ (takeOne n).toNat = k ∨ (takeOne n).toNat = ZIPMAP_BIGLEN := by
  rw [takeOne]
  by_cases hn : n.toNat < ZIPMAP_BIGLEN
  · have hle : (1 : UInt8) ≤ n := by
      rw [UInt8.le_iff_toNat_le, UInt8.toNat_one]
      omega
    rw [if_pos hn, UInt8.toNat_sub_of_le n 1 hle, UInt8.toNat_one]
    omega
  · rw [if_neg hn]
    omega

theorem not_mem_of_nodup {front back : List Entry} {e : Entry} (h : ((front ++ e :: back).map Entry.key).Nodup) :
    ∀ e' ∈ front ++ back, e'.key ≠ e.key := by
  rw [List.map_append, List.map_cons, List.nodup_middle, ← List.map_append, List.nodup_cons] at h
  intro e' he' heq
  exact h.1 (heq ▸ List.mem_map_of_mem he')

theorem holds_insert {front back : List Entry} {new : Entry} (hothers : ∀ e ∈ front ++ back, e.key ≠ new.key)
    (h : ∀ key val, key ≠ new.key → ((∃ e ∈ front ++ back, e.key = key ∧ e.value = val) ↔ m.lookup key = some val)) :
    ∀ key val, (∃ e ∈ front ++ new :: back, e.key = key ∧ e.value = val) ↔
      (m.insert new.key new.value).lookup key = some val := by
  intro key val
  have hmem : ∀ e, e ∈ front ++ new :: back ↔ e = new ∨ e ∈ front ++ back := by
    intro e
    rw [List.perm_middle.mem_iff, List.mem_cons]
  by_cases hkey : key = new.key
  · subst hkey
    rw [Finmap.lookup_insert, Option.some.injEq]
    constructor
    · rintro ⟨e, he, hek, hev⟩
      rcases (hmem e).mp he with rfl | he
      · exact hev
      · exact absurd hek (hothers e he)
    · intro hval
      exact ⟨new, (hmem new).mpr (Or.inl rfl), rfl, hval⟩
  · rw [Finmap.lookup_insert_of_ne m hkey, ← h key val hkey]
    constructor
    · rintro ⟨e, he, hek, hev⟩
      rcases (hmem e).mp he with rfl | he
      · exact absurd hek.symm hkey
      · exact ⟨e, he, hek, hev⟩
    · rintro ⟨e, he, hek, hev⟩
      exact ⟨e, (hmem e).mpr (Or.inr he), hek, hev⟩

theorem Represents.present (h : Represents zm m n es) {key : Bytes} (hkey : ∃ e ∈ es, e.key = key) :
    ∃ front e back, es = front ++ e :: back ∧ e.key = key ∧ (∀ e' ∈ front, e'.key ≠ key) ∧
      ∀ e' ∈ front ++ back, e'.key ≠ key := by
  obtain ⟨e, he, rfl⟩ := hkey
  obtain ⟨front, back, rfl⟩ := List.append_of_mem he
  have hne := not_mem_of_nodup h.nodup
  exact ⟨front, e, back, rfl, rfl, fun e' he' => hne e' (List.mem_append_left _ he'), hne⟩

theorem Represents.absent (h : Represents zm m n es) {key : Bytes} (hkey : ¬ ∃ e ∈ es, e.key = key) (totlen : Bool) :
    zipmapLookupRaw (blob n es) (some key) totlen = some (none, (blob n es).length) ∧ m.lookup key = none := by
  constructor
  · refine lookupRaw_absent totlen h.fit ?_ (h.zm_eq ▸ h.small)
    intro e he heq
    exact hkey ⟨e, he, (Option.some.inj heq).symm⟩
  · by_contra hsome
    obtain ⟨val, hval⟩ := Option.ne_none_iff_exists'.mp hsome
    obtain ⟨e, he, hek, -⟩ := (h.holds key val).mpr hval
    exact hkey ⟨e, he, hek⟩

theorem length_entry (key val slack : Bytes) :
    (⟨key, val, slack⟩ : Entry).encode.length = entrySize key.length val.length + slack.length := by
  rw [encode_eq, List.length_append, length_entryBytes]

theorem holds_others {front back : List Entry} {e : Entry} (hne : ∀ e' ∈ front ++ back, e'.key ≠ e.key)
    (h : ∀ key val, (∃ e' ∈ front ++ e :: back, e'.key = key ∧ e'.value = val) ↔ m.lookup key = some val)
    (key val : Bytes) (hkey : key ≠ e.key) :
    (∃ e' ∈ front ++ back, e'.key = key ∧ e'.value = val) ↔ m.lookup key = some val := by
  rw [← h key val]
  constructor
  · rintro ⟨e', he', hek, hev⟩
    exact ⟨e', List.perm_middle.mem_iff.mpr (List.mem_cons_of_mem e he'), hek, hev⟩
  · rintro ⟨e', he', hek, hev⟩
    rcases List.mem_cons.mp (List.perm_middle.mem_iff.mp he') with rfl | he'
    · exact absurd hek.symm hkey
    · exact ⟨e', he', hek, hev⟩

theorem Represents.set (h : Represents zm m n es) {key val : Bytes} (hfits : Fits zm (.set key val)) :
    ∃ zm' n' es', perform zm (.set key val) = some zm' ∧ Represents zm' (m.step (.set key val)) n' es' := by
  have hlt := h.small
  by_cases hpresent : ∃ e ∈ es, e.key = key
  · obtain ⟨front, e, back, rfl, rfl, hfront, hne⟩ := h.present hpresent
    have hzm := h.zm_eq
    have hfit := h.fit
    rw [hzm] at hlt hfits
    obtain ⟨total, hlookup, -⟩ := lookupRaw_present true hfit hfront hlt
    have hocc : occupied (blob n (front ++ e :: back)) e.key = e.encode.length := by
      have hentry := hfit e (List.mem_append_right _ List.mem_cons_self)
      simp only [occupied, hlookup, drop_blob_split, rawEntryLength_entry hentry, Option.getD_some]
    rw [Fits, hocc] at hfits
    obtain ⟨slack, hslack, hroom, heq⟩ := zipmapSet_present hfit hfront hlt hfits
    refine ⟨_, n, front ++ ⟨e.key, val, slack⟩ :: back, by rw [perform, hzm, heq], rfl, ?_, ?_, ?_, ?_, ?_⟩
    · have hcounted := h.counted
      rw [List.length_append, List.length_cons] at hcounted ⊢
      exact hcounted
    · intro e' he'
      rcases List.mem_cons.mp (List.perm_middle.mem_iff.mp he') with rfl | he'
      · exact hslack
      · exact h.slack_lt e' (List.perm_middle.mem_iff.mpr (List.mem_cons_of_mem e he'))
    · have hnodup := h.nodup
      rw [List.map_append, List.map_cons] at hnodup ⊢
      exact hnodup
    · exact holds_insert hne fun key' val' hkey' => holds_others hne h.holds key' val' hkey'
    · rw [length_blob, body_append, body_cons, List.length_append, List.length_append] at hlt hfits ⊢
      rw [length_entry]
      omega
  · have hkey : ∀ e ∈ es, e.key ≠ key := fun e he heq => hpresent ⟨e, he, heq⟩
    have hzm := h.zm_eq
    have hfit := h.fit
    rw [hzm] at hlt hfits
    obtain ⟨hlookup, -⟩ := h.absent hpresent true
    have hocc : occupied (blob n es) key = 0 := by simp only [occupied, hlookup]
    rw [Fits, hocc, Nat.sub_zero] at hfits
    refine ⟨_, addOne n, es ++ [⟨key, val, []⟩], by rw [perform, hzm, zipmapSet_absent hfit hkey hfits], rfl,
      ?_, ?_, ?_, ?_, ?_⟩
    · rw [List.length_append, List.length_singleton]
      exact toNat_addOne h.counted
    · intro e he
      rcases List.mem_append.mp he with he | he
      · exact h.slack_lt e he
      · rw [List.mem_singleton.mp he]
        exact Nat.succ_pos _
    · rw [List.map_append, List.nodup_append]
      refine ⟨h.nodup, List.nodup_singleton _, ?_⟩
      intro k hk k' hk' heq
      obtain ⟨e, he, rfl⟩ := List.mem_map.mp hk
      rw [List.map_singleton, List.mem_singleton] at hk'
      exact hkey e he (by rw [heq, hk'])
    · have hothers : ∀ e ∈ es ++ [], e.key ≠ key := by rwa [List.append_nil]
      refine holds_insert hothers fun key' val' _ => ?_
      rw [List.append_nil]
      exact h.holds key' val'
    · have hnew := length_entry key val []
      rw [length_blob] at hfits ⊢
      rw [body_append, body_cons, List.length_append, List.length_append, hnew]
      simp only [body, List.flatMap_nil, List.length_nil] at hfits ⊢
      omega

theorem Represents.del (h : Represents zm m n es) (key : Bytes) :
    ∃ zm' n' es', perform zm (.del key) = some zm' ∧ Represents zm' (m.step (.del key)) n' es' := by
  have hlt := h.small
  have hzm := h.zm_eq
  have hfit := h.fit
  rw [hzm] at hlt
  by_cases hpresent : ∃ e ∈ es, e.key = key
  · obtain ⟨front, e, back, rfl, rfl, hfront, hne⟩ := h.present hpresent
    have hback : ∀ e' ∈ front ++ back, e' ∈ front ++ e :: back := fun e' he' =>
      List.perm_middle.mem_iff.mpr (List.mem_cons_of_mem e he')
    refine ⟨_, takeOne n, front ++ back, by rw [perform, hzm, zipmapDel_present hfit hfront hlt], rfl,
      ?_, ?_, ?_, ?_, ?_⟩
    · have hcounted := h.counted
      rw [List.length_append, List.length_cons, ← Nat.add_assoc, ← List.length_append] at hcounted
      exact toNat_takeOne hcounted
    · exact fun e' he' => h.slack_lt e' (hback e' he')
    · have hnodup := h.nodup
      rw [List.map_append, List.map_cons, List.nodup_middle, ← List.map_append, List.nodup_cons] at hnodup
      exact hnodup.2
    · intro key' val
      rw [Map.step]
      by_cases hkey : key' = e.key
      · subst hkey
        rw [Finmap.lookup_erase]
        constructor
        · rintro ⟨e', he', hek, -⟩
          exact absurd hek (hne e' he')
        · intro hnone
          cases hnone
      · rw [Finmap.lookup_erase_ne hkey]
        exact holds_others hne h.holds key' val hkey
    · rw [length_blob, body_append, body_cons, List.length_append, List.length_append] at hlt
      rw [length_blob, body_append, List.length_append]
      omega
  · obtain ⟨hlookup, hmissing⟩ := h.absent hpresent true
    have hsame : m.erase key = m := by
      refine Finmap.ext_lookup fun key' => ?_
      by_cases hkey' : key' = key
      · rw [hkey', Finmap.lookup_erase, hmissing]
      · exact Finmap.lookup_erase_ne hkey'
    refine ⟨zm, n, es, ?_, by rw [Map.step, hsame]; exact h⟩
    simp only [perform, hzm, zipmapDel, hlookup, bind, pure, Option.bind_some]

theorem Represents.iterates (h : Represents zm m n es) :
    ∃ items, iterate zm zipmapRewind = some items ∧ items.map Item.shown = es.map Entry.shown := by
  rw [h.zm_eq]
  exact iterate_body h.fit (drop_blob n es)

theorem Represents.lenEq (h : Represents zm m n es) :
    ∃ n', zipmapLen zm = some (blob n' es, es.length) ∧
      (n'.toNat < ZIPMAP_BIGLEN ∧ n'.toNat = es.length ∨ n'.toNat = ZIPMAP_BIGLEN) := by
  obtain ⟨items, hitems, hshown⟩ := h.iterates
  have hlength : items.length = es.length := by
    have hmap := congrArg List.length hshown
    rwa [List.length_map, List.length_map] at hmap
  have hhead : zm.head? = some n := by
    rw [h.zm_eq]
    rfl
  rw [zipmapLen, hhead, Option.bind_some]
  rcases h.counted with ⟨hn, hcount⟩ | hn
  · exact ⟨n, by rw [if_pos hn, hcount, h.zm_eq], Or.inl ⟨hn, hcount⟩⟩
  · rw [if_neg (by omega), hitems, Option.map_some, hlength]
    by_cases hbig : es.length < ZIPMAP_BIGLEN
    · have hbyte : (UInt8.ofNat es.length).toNat = es.length := by
        rw [UInt8.toNat_ofNat']
        exact Nat.mod_eq_of_lt (Nat.lt_trans hbig (by decide))
      refine ⟨UInt8.ofNat es.length, ?_, Or.inl ⟨by rw [hbyte]; exact hbig, hbyte⟩⟩
      rw [if_pos hbig, h.zm_eq]
      rfl
    · exact ⟨n, by rw [if_neg hbig, h.zm_eq], Or.inr hn⟩

theorem Represents.len (h : Represents zm m n es) :
    ∃ zm' n' es', perform zm .len = some zm' ∧ Represents zm' (m.step .len) n' es' := by
  obtain ⟨n', heq, hcounted⟩ := h.lenEq
  refine ⟨blob n' es, n', es, by rw [perform, heq, Option.map_some], rfl, hcounted, h.slack_lt, h.nodup, h.holds, ?_⟩
  have hsmall := h.small
  rw [h.zm_eq, length_blob] at hsmall
  rwa [length_blob]

theorem Represents.perform (h : Represents zm m n es) {op : Op} (hfits : Fits zm op) :
    ∃ zm' n' es', Zipmap.perform zm op = some zm' ∧ Represents zm' (m.step op) n' es' := by
  cases op with
  | set key val => exact h.set hfits
  | del key => exact h.del key
  | len => exact h.len

theorem Represents.get (h : Represents zm m n es) (key : Bytes) :
    zipmapGet zm key = some (m.lookup key) ∧ zipmapExists zm key = some (m.lookup key).isSome := by
  have hlt := h.small
  have hzm := h.zm_eq
  have hfit := h.fit
  rw [hzm] at hlt ⊢
  by_cases hpresent : ∃ e ∈ es, e.key = key
  · obtain ⟨e, he, rfl⟩ := hpresent
    have hval := (h.holds e.key e.value).mp ⟨e, he, rfl, rfl⟩
    obtain ⟨front, back, rfl⟩ := List.append_of_mem he
    have hne := not_mem_of_nodup h.nodup
    obtain ⟨total, hlookup, -⟩ := lookupRaw_present false hfit
      (fun e' he' => hne e' (List.mem_append_left _ he')) hlt
    have hdrop := drop_blob_split n front back e
    have hpart := drop_valuePart hdrop
    have hfree := drop_free hpart
    have hvalue : (blob n (front ++ e :: back)).drop (1 + (body front).length +
        (ZIPMAP_LEN_BYTES e.key.length + e.key.length) + ZIPMAP_LEN_BYTES e.value.length + 1) =
        e.value ++ (e.slack ++ (body back ++ [ZIPMAP_END])) := by
      rw [← List.drop_drop, hfree]
      rfl
    rw [hval]
    constructor
    · simp only [zipmapGet, hlookup, hdrop, rawKeyLength_entry (hfit e he), hpart, decodeLength_value (hfit e he),
        hvalue, List.take_left, bind, pure, Option.bind_some]
    · rw [zipmapExists, hlookup]
      rfl
  · obtain ⟨hlookup, hmissing⟩ := h.absent hpresent false
    rw [hmissing, zipmapGet, zipmapExists, hlookup]
    exact ⟨rfl, rfl⟩

theorem Represents.card_keys (h : Represents zm m n es) : m.keys.card = es.length := by
  have hkeys : m.keys = (es.map Entry.key).toFinset := by
    ext key
    rw [Finmap.mem_keys, Finmap.mem_iff, List.mem_toFinset, List.mem_map]
    constructor
    · rintro ⟨val, hval⟩
      obtain ⟨e, he, hek, -⟩ := (h.holds key val).mpr hval
      exact ⟨e, he, hek⟩
    · rintro ⟨e, he, hek⟩
      exact ⟨e.value, (h.holds key e.value).mp ⟨e, he, hek, rfl⟩⟩
  rw [hkeys, List.toFinset_card_of_nodup h.nodup, List.length_map]

theorem Represents.faithful (h : Represents zm m n es) : Faithful zm m := by
  obtain ⟨items, hitems, hshown⟩ := h.iterates
  have hkeys : items.map Item.key = es.map Entry.key := by
    have hmap := congrArg (List.map Prod.fst) hshown
    rwa [List.map_map, List.map_map] at hmap
  have hmem : ∀ i ∈ items, ∃ e ∈ es, e.shown = i.shown := by
    intro i hi
    exact List.mem_map.mp (hshown ▸ List.mem_map_of_mem hi)
  have hmem' : ∀ e ∈ es, ∃ i ∈ items, i.shown = e.shown := by
    intro e he
    exact List.mem_map.mp (hshown ▸ List.mem_map_of_mem he)
  refine ⟨⟨items, hitems, hkeys ▸ h.nodup, ?_, ?_⟩, fun key => (h.get key).1, fun key => (h.get key).2, ?_, ?_⟩
  · intro key val
    rw [← h.holds key val]
    constructor
    · rintro ⟨i, hi, hik, hiv⟩
      obtain ⟨e, he, heq⟩ := hmem i hi
      exact ⟨e, he, (congrArg Prod.fst heq).trans hik, (congrArg (fun x => x.2.1) heq).trans hiv⟩
    · rintro ⟨e, he, hek, hev⟩
      obtain ⟨i, hi, heq⟩ := hmem' e he
      exact ⟨i, hi, (congrArg Prod.fst heq).trans hek, (congrArg (fun x => x.2.1) heq).trans hev⟩
  · intro i hi
    obtain ⟨e, he, heq⟩ := hmem i hi
    have hfree : UInt8.ofNat e.slack.length = i.free := congrArg (fun x => x.2.2) heq
    rw [← hfree, toNat_free (h.fit e he)]
    exact h.slack_lt e he
  · obtain ⟨n', heq, -⟩ := h.lenEq
    rw [heq, h.card_keys, Option.map_some]
  · have hnull : ∀ e ∈ es, (none : Option Bytes) ≠ some e.key := by
      intro e _ heq
      cases heq
    have hlookup := lookupRaw_absent true h.fit hnull (h.zm_eq ▸ h.small)
    rw [zipmapBlobLen, h.zm_eq, hlookup, Option.map_some]

theorem Represents.performs (h : Represents zm m n es) (ops : List Op) :
    (∃ zm', Zipmap.performs zm ops = some zm' ∧ Faithful zm' (run Map.step m ops)) ∨
      ∃ before op after zm', ops = before ++ op :: after ∧ Zipmap.performs zm before = some zm' ∧ ¬ Fits zm' op := by
  induction ops generalizing zm m n es with
  | nil => exact Or.inl ⟨zm, rfl, h.faithful⟩
  | cons op ops ih =>
    by_cases hfits : Fits zm op
    · obtain ⟨zm', n', es', heq, h'⟩ := h.perform hfits
      have hcons : ∀ ops, Zipmap.performs zm (op :: ops) = Zipmap.performs zm' ops := by
        intro ops
        rw [Zipmap.performs, List.foldlM_cons, heq]
        rfl
      rcases ih h' with ⟨zm'', hrest, hfaithful⟩ | ⟨before, op', after, zm'', hsplit, hrest, hbig⟩
      · exact Or.inl ⟨zm'', by rw [hcons, hrest], hfaithful⟩
      · exact Or.inr ⟨op :: before, op', after, zm'', by rw [hsplit]; rfl, by rw [hcons, hrest], hbig⟩
    · exact Or.inr ⟨[], op, ops, zm, rfl, rfl, hfits⟩

/-- A zipmap made by any sequence of calls shows the map that they make, unless with one of them it would have
had 4 GB or more. -/
theorem zipmap_refines_map (ops : List Op) :
    (∃ zm, performs zipmapNew ops = some zm ∧ Faithful zm (run Map.step ∅ ops)) ∨
      ∃ before op after zm, ops = before ++ op :: after ∧ performs zipmapNew before = some zm ∧ ¬ Fits zm op :=
  represents_new.performs ops

theorem zipmapSet_overruns {val : Bytes} (h : val.length = 2 ^ 32 - 7) : zipmapSet zipmapNew [] val = none := by
  have hrequired : zipmapRequiredLength ([] : Bytes).length val.length = 0 := by
    rw [h]
    decide +kernel
  have hnone : ∀ e ∈ ([] : List Entry), e.Fit ∧ some ([] : Bytes) ≠ some e.key := by
    intro e he
    cases he
  have hlookup : zipmapLookupRaw (blob 0 []) (some []) true = some (none, 2) :=
    lookupRaw_absent true (fun e he => (hnone e he).1) (fun e he => (hnone e he).2) (by decide)
  have hnew : zipmapNew = blob 0 [] := rfl
  have hroom : appendRoom zipmapNew 2 0 = some { zm := [1, ZIPMAP_END], p := 1, zmlen := 2, freelen := 0 } := by
    decide +kernel
  rw [hnew] at hroom ⊢
  simp only [zipmapSet, hrequired, hlookup, hroom, trim, bind, Option.bind_some, Nat.sub_self]
  rw [if_neg (by decide), Option.bind_some, writeEntry, store, if_neg]
  rw [length_entryBytes, h]
  decide

theorem longValue_overruns : ¬ ∃ zm, performs zipmapNew [.set [] (List.replicate (2 ^ 32 - 7) 0)] = some zm ∧
    Faithful zm (run Map.step ∅ [.set [] (List.replicate (2 ^ 32 - 7) 0)]) := by
  rintro ⟨zm, heq, -⟩
  rw [performs, List.foldlM_cons, perform, zipmapSet_overruns List.length_replicate] at heq
  cases heq

end RedisCluster.Zipmap
