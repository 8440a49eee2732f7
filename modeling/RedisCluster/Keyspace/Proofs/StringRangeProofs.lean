import RedisCluster.Keyspace.StringRange
import RedisCluster.Util.Proofs.StringProofs

/-!
# Proofs: ranges of strings

A negative index counts from the end and stops at the first byte, so that only the end of a range has to
be clipped; and within 512 MB no sum leaves the range of its type.
-/

namespace RedisCluster.Keyspace.StringRange

open RedisCluster.Util

theorem fromStart_eq (n : Nat) (i : Int) :
    (if (if i < 0 then (n : Int) + i else i) < 0 then 0 else if i < 0 then (n : Int) + i else i) = fromStart n i := by
  unfold fromStart
  by_cases hneg : i < 0
  · simp only [if_pos hneg]
    split <;> omega
  · simp only [if_neg hneg]
    omega

theorem getrangeString_eq (str : Bytes) (start stop : Int) :
    getrangeString str start stop =
      if (fromStart str.length start : Int) >
          (if (fromStart str.length stop : Int) % 2 ^ 32 ≥ str.length then (str.length : Int) - 1
            else fromStart str.length stop) then some (.bulk [])
      else addReplyBulkCBuffer str (fromStart str.length start)
        ((if (fromStart str.length stop : Int) % 2 ^ 32 ≥ str.length then (str.length : Int) - 1
          else fromStart str.length stop) - fromStart str.length start + 1).toNat := by
  unfold getrangeString
  dsimp only
  rw [fromStart_eq, fromStart_eq, Int.toNat_natCast]

theorem slice_empty {s : Bytes} {start stop : Int}
    (h : s.length ≤ fromStart s.length start ∨ fromStart s.length stop < fromStart s.length start) :
    slice s start stop = [] := by
  refine List.drop_eq_nil_of_le ?_
  rw [List.length_take]
  omega

theorem slice_inside {s : Bytes} {start stop : Int} (h : fromStart s.length start ≤ fromStart s.length stop) :
    slice s start stop =
      (s.drop (fromStart s.length start)).take (fromStart s.length stop - fromStart s.length start + 1) := by
  unfold slice
  rw [List.drop_take]
  congr 1
  omega

theorem getrangeString_cases (s : Bytes) (start stop : Int) :
    (LowBitsInside s start stop ∧ getrangeString s start stop = none) ∨
      (¬ LowBitsInside s start stop ∧ getrangeString s start stop = some (.bulk (slice s start stop))) := by
  rw [getrangeString_eq]
  unfold LowBitsInside
  by_cases hclip : (fromStart s.length stop : Int) % 2 ^ 32 ≥ s.length
  · refine Or.inr ⟨by omega, ?_⟩
    rw [if_pos hclip]
    by_cases hstart : (fromStart s.length start : Int) > s.length - 1
    · rw [if_pos hstart, slice_empty (Or.inl (by omega))]
    · have hend : s.length ≤ fromStart s.length stop := by omega
      have hcount : ((s.length : Int) - 1 - fromStart s.length start + 1).toNat =
          s.length - fromStart s.length start := by omega
      rw [if_neg hstart, hcount, slice_inside (by omega)]
      unfold addReplyBulkCBuffer
      rw [if_pos (by omega), List.take_of_length_le (by rw [List.length_drop]),
        List.take_of_length_le (by rw [List.length_drop]; omega)]
  · rw [if_neg hclip]
    by_cases hstart : (fromStart s.length start : Int) > fromStart s.length stop
    · refine Or.inr ⟨by omega, ?_⟩
      rw [if_pos hstart, slice_empty (Or.inr (by omega))]
    · have hcount : ((fromStart s.length stop : Int) - fromStart s.length start + 1).toNat =
          fromStart s.length stop - fromStart s.length start + 1 := by omega
      rw [if_neg hstart, hcount]
      unfold addReplyBulkCBuffer
      by_cases hend : s.length ≤ fromStart s.length stop
      · exact Or.inl ⟨by omega, if_neg (by omega)⟩
      · refine Or.inr ⟨by omega, ?_⟩
        rw [if_pos (by omega), slice_inside (by omega)]

theorem contents_of_lookup {db : Db Robj} {key s : Bytes} {o : Robj} (h : lookupKey db key = some o)
    (hs : o.string? = some s) : contents db key = s := by
  rw [contents, h, Option.bind_some, hs, Option.getD_some]

theorem contents_missing {db : Db Robj} {key : Bytes} (h : lookupKey db key = none) : contents db key = [] := by
  rw [contents, h, Option.bind_none, Option.getD_none]

theorem lookupKey_overwritten {db : Db Robj} {key : Bytes} {o o' : Robj} (h : lookupKey db key = some o') :
    lookupKey (dbOverwrite db key o) key = some o := by
  obtain ⟨e, he, -⟩ := Option.map_eq_some_iff.mp h
  simp [lookupKey, dbOverwrite, he]

theorem lookupKey_added (db : Db Robj) (key : Bytes) (o : Robj) : lookupKey (dbAdd db key o) key = some o := by
  simp [lookupKey, dbAdd]

theorem dbOverwrite_other {db : Db Robj} {key key' : Bytes} (o : Robj) (h : key' ≠ key) :
    (dbOverwrite db key o).dict key' = db.dict key' := Function.update_of_ne h _ _

theorem dbAdd_other {db : Db Robj} {key key' : Bytes} (o : Robj) (h : key' ≠ key) :
    (dbAdd db key o).dict key' = db.dict key' := Function.update_of_ne h _ _

theorem checkStringLength_eq {size : Nat} (h : size < 2 ^ 63) :
    checkStringLength size = decide (size ≤ maxStringLength) := by
  have hsize : Aof.toLongLong size = size := by
    rw [Aof.toLongLong, Int.bmod_eq_of_le] <;> omega
  unfold checkStringLength
  rw [hsize]
  simp

theorem take_padded (s : Bytes) (offset k : Nat) (h : offset - s.length ≤ k) :
    (s ++ List.replicate k (0 : UInt8)).take offset = (s ++ List.replicate (offset - s.length) 0).take offset := by
  rw [List.take_append, List.take_append, List.take_replicate, List.take_replicate, Nat.min_eq_left h,
    Nat.min_self]

theorem memcpyAt_grown {s value grown : Bytes} {offset : Nat}
    (h : sdsgrowzero s (offset + value.length) = some grown) :
    memcpyAt grown offset value = overwritten s offset value := by
  unfold sdsgrowzero at h
  unfold memcpyAt overwritten
  by_cases hfits : offset + value.length ≤ s.length
  · rw [if_pos hfits] at h
    cases h
    rw [Nat.sub_eq_zero_of_le (by omega), List.replicate_zero, List.append_nil]
  · rw [if_neg hfits] at h
    split at h
    · cases h
      have hbehind : s.drop (offset + value.length) = [] := List.drop_eq_nil_of_le (by omega)
      rw [take_padded s offset _ (by omega), hbehind,
        List.drop_eq_nil_of_le (by rw [List.length_append, List.length_replicate]; omega)]
    · cases h

theorem length_overwritten (s : Bytes) (offset : Nat) (value : Bytes) :
    (overwritten s offset value).length = max s.length (offset + value.length) := by
  unfold overwritten
  rw [List.length_append, List.length_append, List.length_take, List.length_append, List.length_replicate,
    List.length_drop]
  omega

theorem storeRange_stores {db db' : Db Robj} {key s value : Bytes} {offset : Nat} {o : Robj}
    (hlookup : lookupKey db' key = some o) (hothers : ∀ key', key' ≠ key → db'.dict key' = db.dict key')
    (hs : s.length ≤ maxStringLength) (hlength : offset + value.length ≤ maxStringLength) :
    ∃ out, storeRange db' key s offset value = some out ∧
      RefusesOrStores db key (overwritten s offset value) out := by
  have hmax : maxStringLength = 536870912 := rfl
  obtain ⟨grown, hgrown⟩ : ∃ grown, sdsgrowzero s (offset + value.length) = some grown := by
    unfold sdsgrowzero
    by_cases hfits : offset + value.length ≤ s.length
    · exact ⟨s, if_pos hfits⟩
    · exact ⟨_, (if_neg hfits).trans (if_pos (by omega))⟩
  have hresult := memcpyAt_grown hgrown
  have hstore : storeRange db' key s offset value = some
      { db := dbOverwrite db' key (.sds (overwritten s offset value))
        reply := .integer (overwritten s offset value).length
        dirty := 1 } := by
    rw [storeRange, hgrown, ← hresult]
    rfl
  refine ⟨_, hstore, Or.inr ⟨rfl, ?_, ?_, ?_⟩⟩
  · rw [length_overwritten]
    omega
  · rw [lookupKey_overwritten hlookup]
    rfl
  · intro key' hkey'
    rw [dbOverwrite_other _ hkey', hothers key' hkey']

theorem setrange_string {db db' : Db Robj} {key s value : Bytes} {offset : Nat} {o : Robj}
    (hlookup : lookupKey db' key = some o) (hothers : ∀ key', key' ≠ key → db'.dict key' = db.dict key')
    (hs : s.length ≤ maxStringLength) (hsize : offset + value.length < 2 ^ 63) :
    ∃ out, (if value.length = 0 then some (answer db (.integer s.length))
        else if checkStringLength (offset + value.length) = false then some (answer db tooLong)
        else storeRange db' key s offset value) = some out ∧
      if value = [] then out.db = db ∧ (out.reply.IsError ∨ out.reply = .integer s.length)
      else RefusesOrStores db key (overwritten s offset value) out := by
  by_cases hvalue : value = []
  · subst hvalue
    simp only [if_pos]
    exact ⟨_, if_pos rfl, rfl, Or.inr rfl⟩
  · have hlen : value.length ≠ 0 := fun h => hvalue (List.length_eq_zero_iff.mp h)
    simp only [if_neg hvalue, if_neg hlen, checkStringLength_eq hsize]
    by_cases hfits : offset + value.length ≤ maxStringLength
    · rw [if_neg (by simpa using hfits)]
      exact storeRange_stores hlookup hothers hs hfits
    · rw [if_pos (by simpa using hfits)]
      exact ⟨_, rfl, Or.inl ⟨⟨_, rfl⟩, rfl⟩⟩

theorem setrange_right {db : Db Robj} (hdb : Bounded db) (argv : List Bytes) : SetrangeRight db argv := by
  intro offset hoffset
  by_cases hbig : 2 ^ 63 ≤ offset + (argv.getD 3 []).length
  · exact Or.inl hbig
  refine Or.inr ?_
  unfold setrangeCommand
  rw [hoffset]
  dsimp only
  by_cases hneg : offset < 0
  · -- the offset is refused
    refine ⟨_, if_pos hneg, ?_⟩
    split
    · exact ⟨rfl, Or.inl ⟨_, rfl⟩⟩
    · exact Or.inl ⟨⟨_, rfl⟩, rfl⟩
  rw [if_neg hneg]
  have hsize : offset.toNat + (argv.getD 3 []).length < 2 ^ 63 := by omega
  cases hlookup : lookupKey db (argv.getD 1 []) with
  | none =>
    rw [contents_missing hlookup]
    exact setrange_string (lookupKey_added db _ _) (fun key' h => dbAdd_other _ h) (Nat.zero_le _) hsize
  | some o =>
    dsimp only
    cases hstring : o.string? with
    | none =>
      refine ⟨_, rfl, ?_⟩
      split
      · exact ⟨rfl, Or.inl ⟨_, rfl⟩⟩
      · exact Or.inl ⟨⟨_, rfl⟩, rfl⟩
    | some s =>
      have hcontents := contents_of_lookup hlookup hstring
      have hbound := hdb (argv.getD 1 [])
      rw [hcontents] at hbound
      rw [hcontents]
      exact setrange_string (lookupKey_overwritten hlookup) (fun key' h => dbOverwrite_other _ h) hbound hsize

theorem tryObjectEncoding_string (s : Bytes) : (tryObjectEncoding s).string? = some s := by
  unfold tryObjectEncoding
  split
  · cases hint : string2ll s with
    | none => rfl
    | some n => exact congrArg some (string2ll_inv hint).1.symm
  · rfl

theorem append_right {db : Db Robj} (hdb : Bounded db) {argv : List Bytes}
    (hargv : (argv.getD 2 []).length ≤ maxStringLength) : AppendRight db argv := by
  have hmax : maxStringLength = 536870912 := rfl
  unfold AppendRight appendCommand
  dsimp only
  cases hlookup : lookupKey db (argv.getD 1 []) with
  | none =>
    rw [contents_missing hlookup, List.nil_append]
    refine Or.inr ⟨rfl, hargv, ?_, fun key' h => dbAdd_other _ h⟩
    rw [lookupKey_added, Option.bind_some, tryObjectEncoding_string]
  | some o =>
    dsimp only
    cases hstring : o.string? with
    | none => exact Or.inl ⟨⟨_, rfl⟩, rfl⟩
    | some s =>
      have hcontents := contents_of_lookup hlookup hstring
      have hbound := hdb (argv.getD 1 [])
      rw [hcontents] at hbound ⊢
      dsimp only
      rw [checkStringLength_eq (by omega)]
      by_cases hfits : s.length + (argv.getD 2 []).length ≤ maxStringLength
      · have hsum : sdscatlen s (argv.getD 2 []) = s ++ argv.getD 2 [] := by
          rw [sdscatlen, Nat.mod_eq_of_lt (by omega), ← List.length_append, List.take_length]
        rw [if_neg (by simpa using hfits), hsum]
        refine Or.inr ⟨rfl, by rw [List.length_append]; exact hfits, ?_, ?_⟩
        · have hown : lookupKey (dbUnshareStringValue db (argv.getD 1 []) s) (argv.getD 1 []) = some (.sds s) :=
            lookupKey_overwritten hlookup
          rw [lookupKey_overwritten hown]
          rfl
        · intro key' h
          rw [dbOverwrite_other _ h]
          exact dbOverwrite_other _ h
      · rw [if_pos (by simpa using hfits)]
        exact Or.inl ⟨⟨_, rfl⟩, rfl⟩

theorem getrange_right (db : Db Robj) (argv : List Bytes) : GetrangeRight db argv := by
  intro start stop hstart hstop hother
  unfold getrangeCommand
  rw [hstart, hstop]
  dsimp only
  cases hlookup : lookupKey db (argv.getD 1 []) with
  | none =>
    rw [contents_missing hlookup]
    exact Or.inr (congrArg (fun s => some (answer db (.bulk s))) (slice_empty (Or.inl (Nat.zero_le _))).symm)
  | some o =>
    dsimp only
    cases hstring : o.string? with
    | none =>
      rw [hlookup] at hother
      cases o with
      | other => exact absurd rfl hother
      | sds s => cases hstring
      | int n => cases hstring
    | some s =>
      rw [contents_of_lookup hlookup hstring]
      dsimp only
      rcases getrangeString_cases s start stop with ⟨hlow, -⟩ | ⟨-, heq⟩
      · exact Or.inl hlow
      · refine Or.inr ?_
        rw [heq]
        rfl

/-- GETRANGE replies the range, SETRANGE of nothing changes nothing, and SETRANGE and APPEND refuse or
store; ends of 2^32 and more with small low bits, and sums from 2^63 on, apart. -/
theorem stringCommands_right (db : Db Robj) (argv : List Bytes) (hdb : Bounded db)
    (hargv : ∀ arg ∈ argv, arg.length ≤ maxStringLength) :
    GetrangeRight db argv ∧ SetrangeRight db argv ∧ AppendRight db argv := by
  have happend : (argv.getD 2 []).length ≤ maxStringLength := by
    rw [List.getD_eq_getElem?_getD]
    cases hget : argv[2]? with
    | none => exact Nat.zero_le _
    | some arg => exact hargv arg (List.mem_of_getElem? hget)
  exact ⟨getrange_right db argv, setrange_right hdb argv, append_right hdb happend⟩

def oneString (key : Bytes) (o : Robj) : Db Robj := dbAdd emptyDb key o

theorem oneString_bounded {key s : Bytes} {o : Robj} (hs : o.string? = some s) (hlen : s.length ≤ maxStringLength) :
    Bounded (oneString key o) := by
  intro key'
  by_cases hkey : key' = key
  · have hstored : lookupKey (oneString key o) key = some o := lookupKey_added emptyDb key o
    rw [hkey, contents_of_lookup hstored hs]
    exact hlen
  · have hnone : lookupKey (oneString key o) key' = none := by
      rw [lookupKey, oneString, dbAdd_other o hkey]
      rfl
    rw [contents_missing hnone]
    exact Nat.zero_le _

theorem stringCommands_right_ab :
    GetrangeRight (oneString (ascii "k") (.sds (ascii "ab"))) [ascii "x", ascii "k", ascii "1", ascii "7"] ∧
      SetrangeRight (oneString (ascii "k") (.sds (ascii "ab"))) [ascii "x", ascii "k", ascii "1", ascii "7"] ∧
      AppendRight (oneString (ascii "k") (.sds (ascii "ab"))) [ascii "x", ascii "k", ascii "1", ascii "7"] :=
  stringCommands_right _ _ (oneString_bounded rfl (by decide)) (by decide)

/-- SETRANGE of nothing behind the end: no error, and no padding. -/
theorem emptyValue_not_padded :
    ¬ ∀ (db : Db Robj) (argv : List Bytes) (offset : Int), Bounded db →
      (∀ arg ∈ argv, arg.length ≤ maxStringLength) →
      Aof.getLongLongFromObject (argv.getD 2 []) = some offset → ∃ out, setrangeCommand db argv = some out ∧
        RefusesOrStores db (argv.getD 1 []) (overwritten (contents db (argv.getD 1 [])) offset.toNat (argv.getD 3 []))
          out := by
  intro hall
  obtain ⟨out, hout, hclaim⟩ := hall (oneString (ascii "k") (.sds (ascii "ab")))
    [ascii "SETRANGE", ascii "k", ascii "5", []] 5 (oneString_bounded rfl (by decide)) (by decide) (by decide)
  have hnothing : setrangeCommand (oneString (ascii "k") (.sds (ascii "ab")))
      [ascii "SETRANGE", ascii "k", ascii "5", []] =
        some (answer (oneString (ascii "k") (.sds (ascii "ab"))) (.integer 2)) := rfl
  rw [hnothing] at hout
  cases hout
  rcases hclaim with ⟨⟨text, herror⟩, -⟩ | ⟨hreply, -⟩
  · cases herror
  · exact absurd hreply (by decide)

end RedisCluster.Keyspace.StringRange
