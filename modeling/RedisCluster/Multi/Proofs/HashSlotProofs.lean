import Mathlib.Data.List.TakeWhile
import RedisCluster.Multi.Proofs.GateProofs

/-!
# Proofs: hash tags, and the queries that cross slots

`getNodeByQuery` compares every key with the first one only, so what the loop keeps is that all keys so
far have the slot of the first.
-/

namespace RedisCluster.Multi

open RedisCluster.Bus

def IsHashTag (key tag : Bytes) : Prop :=
  ∃ before after, key = before ++ 123 :: (tag ++ 125 :: after) ∧ 123 ∉ before ∧ 125 ∉ tag ∧ tag ≠ []

theorem dropWhile_before {c : UInt8} {before rest : Bytes} (h : c ∉ before) :
    (before ++ c :: rest).dropWhile (· ≠ c) = c :: rest := by
  rw [List.dropWhile_append_of_pos fun b hb => by simpa using ne_of_mem_of_not_mem hb h]
  exact List.dropWhile_cons_of_neg (by simp)

theorem takeWhile_before {c : UInt8} {before rest : Bytes} (h : c ∉ before) :
    (before ++ c :: rest).takeWhile (· ≠ c) = before := by
  rw [List.takeWhile_append_of_pos fun b hb => by simpa using ne_of_mem_of_not_mem hb h,
    List.takeWhile_cons_of_neg (by simp), List.append_nil]

theorem cut_at (c : UInt8) (s : Bytes) : c ∉ s ∨ ∃ before after, s = before ++ c :: after ∧ c ∉ before := by
  by_cases h : c ∈ s
  · exact Or.inr (List.eq_append_cons_of_mem h)
  · exact Or.inl h

theorem keyHashSlot_tag {key tag : Bytes} (h : IsHashTag key tag) : keyHashSlot key = crc16 tag &&& 0x3fff := by
  obtain ⟨before, after, rfl, hbefore, htag, hne⟩ := h
  have hlen : ¬ tag.length = (tag ++ 125 :: after).length := by simp
  unfold keyHashSlot
  dsimp only
  rw [dropWhile_before hbefore, List.tail_cons, takeWhile_before htag, if_neg (not_or.mpr ⟨hlen, hne⟩)]

theorem keyHashSlot_untagged {key : Bytes} (h : ∀ tag, ¬ IsHashTag key tag) :
    keyHashSlot key = crc16 key &&& 0x3fff := by
  unfold keyHashSlot
  dsimp only
  rcases cut_at 123 key with hopen | ⟨before, rest, hkey, hbefore⟩
  · -- no opening brace
    have hnone : key.dropWhile (· ≠ 123) = [] :=
      List.dropWhile_eq_nil_iff.mpr fun b hb => by simpa using ne_of_mem_of_not_mem hb hopen
    rw [hnone]
    exact congrArg (crc16 · &&& 0x3fff) (if_pos (Or.inl rfl))
  · rw [hkey, dropWhile_before hbefore, List.tail_cons]
    rcases cut_at 125 rest with hclose | ⟨tag, after, hrest, htag⟩
    · -- no closing brace
      have hall : rest.takeWhile (· ≠ 125) = rest :=
        List.takeWhile_eq_self_iff.mpr fun b hb => by simpa using ne_of_mem_of_not_mem hb hclose
      rw [hall, if_pos (Or.inl rfl)]
    · have hempty : tag = [] := by
        by_contra hne
        exact h tag ⟨before, after, by rw [hkey, hrest], hbefore, htag, hne⟩
      rw [hrest, takeWhile_before htag, if_pos (Or.inr hempty)]

variable {δ ν : Type} {w : World δ ν}

def queryKeys (cmds : List (RedisCommand × List Bytes)) : List Bytes :=
  cmds.flatMap fun m => (commandKeys m.1 m.2).getD []

def SlotsDiffer (keys : List Bytes) : Prop := ∃ key ∈ keys, ∃ key' ∈ keys, keyHashSlot key ≠ keyHashSlot key'

theorem SlotsDiffer.mono {keys keys' : List Bytes} (h : SlotsDiffer keys) (hsub : ∀ key ∈ keys, key ∈ keys') :
    SlotsDiffer keys' := by
  obtain ⟨key, hkey, key', hkey', hne⟩ := h
  exact ⟨key, hsub key hkey, key', hsub key' hkey', hne⟩

theorem Scanned.not_differ {s : Server δ ν} {seen : List Bytes} {r : Option KeyScan} (h : Scanned w s seen r) :
    ¬ SlotsDiffer seen := by
  rintro ⟨key, hkey, key', hkey', hne⟩
  cases r with
  | none =>
    have hseen : seen = [] := h
    rw [hseen] at hkey
    cases hkey
  | some r =>
    obtain ⟨-, hslots, -⟩ := h
    exact hne ((hslots key hkey).trans (hslots key' hkey').symm)

theorem scanKey_stops {s t t' : Server δ ν} {seen : List Bytes} {r : Option KeyScan} {key : Bytes} {e : Route}
    (hst : Aside s t) (h : Scanned w s seen r) (hr : scanKey w r key t = (t', .error e)) :
    (e = .crossSlot ∧ SlotsDiffer (seen ++ [key])) ∨
      (e = .assertion ∧ seen = [] ∧ s.live.conditions.cluster.slots (keyHashSlot key) = none) := by
  unfold scanKey at hr
  rw [hst.conditions] at hr
  split at hr
  · rename_i e' he
    obtain ⟨-, hr⟩ := Prod.mk.inj hr
    obtain rfl := Except.error.inj hr
    cases r with
    | none =>
      have hseen : seen = [] := h
      simp only [Option.elim_none, firstKey] at he
      split at he
      · rename_i hslot
        exact Or.inr ⟨(Except.error.inj he).symm, hseen, hslot⟩
      · cases he
    | some r =>
      obtain ⟨hne, hslots, -⟩ := h
      simp only [Option.elim_some, nextKey] at he
      split at he
      · cases he
      · split at he
        · rename_i hother
          obtain ⟨first, hfirst⟩ := List.exists_mem_of_ne_nil _ hne
          refine Or.inl ⟨(Except.error.inj he).symm, first, List.mem_append_left _ hfirst, key, ?_, ?_⟩
          · exact List.mem_append_right _ (List.mem_singleton_self _)
          · rw [hslots first hfirst]
            exact hother
        · cases he
  · split at hr
    · cases hr
    · cases hr

def FirstUnserved (s : Server δ ν) (keys : List Bytes) : Prop :=
  ∃ key ∈ keys.head?, s.live.conditions.cluster.slots (keyHashSlot key) = none

theorem scanKeys_stops {s t t' : Server δ ν} {keys seen : List Bytes} {r : Option KeyScan} {e : Route}
    (hst : Aside s t) (h : Scanned w s seen r) (hr : scanKeys w keys r t = (t', .error e)) :
    (e = .crossSlot ∧ SlotsDiffer (seen ++ keys)) ∨ (e = .assertion ∧ FirstUnserved s (seen ++ keys)) := by
  induction keys generalizing seen r t with
  | nil =>
    obtain ⟨-, hr⟩ := Prod.mk.inj hr
    cases hr
  | cons key keys ih =>
    unfold scanKeys at hr
    have haside := aside_scanKey w r key t
    split at hr
    · rename_i u e' heq
      obtain ⟨-, hr⟩ := Prod.mk.inj hr
      obtain rfl := Except.error.inj hr
      rcases scanKey_stops hst h heq with ⟨he, hdiffer⟩ | ⟨he, hseen, hslot⟩
      · refine Or.inl ⟨he, hdiffer.mono fun k hk => ?_⟩
        rcases List.mem_append.mp hk with hk | hk
        · exact List.mem_append_left _ hk
        · rw [List.mem_singleton.mp hk]
          exact List.mem_append_right _ (List.mem_cons_self ..)
      · refine Or.inr ⟨he, key, ?_, hslot⟩
        rw [hseen]
        rfl
    · rename_i u q heq
      rw [heq] at haside
      have hnext := ih (hst.trans haside) (scanned_scanKey hst h heq) hr
      rwa [List.append_assoc, List.singleton_append] at hnext

def KeysFound (cmds : List (RedisCommand × List Bytes)) : Prop := ∀ m ∈ cmds, (commandKeys m.1 m.2).isSome = true

theorem scanCommands_outcome {s t : Server δ ν} (cmds : List (RedisCommand × List Bytes)) {seen : List Bytes}
    {r : Option KeyScan} (hst : Aside s t) (h : Scanned w s seen r) :
    (∃ t' r', scanCommands w cmds r t = (t', .ok r') ∧ Scanned w s (seen ++ queryKeys cmds) r') ∨
      (∃ t', scanCommands w cmds r t = (t', .error .crossSlot) ∧ SlotsDiffer (seen ++ queryKeys cmds)) ∨
      (∃ t', scanCommands w cmds r t = (t', .error .assertion) ∧
        (¬ KeysFound cmds ∨ FirstUnserved s (seen ++ queryKeys cmds))) := by
  induction cmds generalizing seen r t with
  | nil =>
    refine Or.inl ⟨t, r, rfl, ?_⟩
    rw [queryKeys, List.flatMap_nil, List.append_nil]
    exact h
  | cons m cmds ih =>
    obtain ⟨cmd, argv⟩ := m
    have hkeysAll : queryKeys ((cmd, argv) :: cmds) = (commandKeys cmd argv).getD [] ++ queryKeys cmds := rfl
    unfold scanCommands
    rw [hkeysAll]
    cases hkeys : commandKeys cmd argv with
    | none =>
      refine Or.inr (Or.inr ⟨t, rfl, Or.inl fun hfound => ?_⟩)
      have hsome := hfound (cmd, argv) (List.mem_cons_self ..)
      rw [hkeys] at hsome
      cases hsome
    | some keys =>
      rw [Option.getD_some, ← List.append_assoc]
      dsimp only
      cases hscan : scanKeys w keys r t with
      | mk t' out =>
        cases out with
        | error e =>
          rcases scanKeys_stops hst h hscan with ⟨rfl, hdiffer⟩ | ⟨rfl, key, hfirst, hslot⟩
          · exact Or.inr (Or.inl ⟨t', rfl, hdiffer.mono fun k hk => List.mem_append_left _ hk⟩)
          · refine Or.inr (Or.inr ⟨t', rfl, Or.inr ⟨key, ?_, hslot⟩⟩)
            rw [List.head?_append, Option.mem_def.mp hfirst]
            rfl
        | ok r' =>
          have haside := aside_scanKeys w keys r t
          rw [hscan] at haside
          rcases ih (hst.trans haside) (scanned_scanKeys hst h hscan) with hdone | hcross | ⟨t'', hrun, hwhy⟩
          · exact Or.inl hdone
          · exact Or.inr (Or.inl hcross)
          · refine Or.inr (Or.inr ⟨t'', hrun, hwhy.imp_left ?_⟩)
            exact fun hnot hfound => hnot fun m hm => hfound m (List.mem_cons_of_mem _ hm)

/-- What a route says of the slots: an assertion fails for a query with a first key that no node serves, or
with keys out of range; else the answer is CROSS_SLOT exactly if two keys have different slots. -/
def RouteTells (s : Server δ ν) (cmds : List (RedisCommand × List Bytes)) (route : Route) : Prop :=
  (route = .assertion ∧ (¬ KeysFound cmds ∨ FirstUnserved s (queryKeys cmds))) ∨
    (route ≠ .assertion ∧ (route = .crossSlot ↔ SlotsDiffer (queryKeys cmds)))

def batch (x : Client) (cmd : RedisCommand) (argv : List Bytes) : List (RedisCommand × List Bytes) :=
  if cmd.proc = .execCommand ∧ x.multi = false then [] else queryCommands x cmd argv

theorem routeQuery_answers (c : BusState ν) (x : Session) (cmd : RedisCommand) (r : Option KeyScan) :
    routeQuery c x cmd r ≠ .assertion ∧ routeQuery c x cmd r ≠ .crossSlot := by
  unfold routeQuery
  split
  · exact ⟨Route.noConfusion, Route.noConfusion⟩
  · repeat' split
    all_goals exact ⟨Route.noConfusion, Route.noConfusion⟩

theorem getNodeByQuery_tells (w : World δ ν) (c : ClientId) (cmd : RedisCommand) (argv : List Bytes)
    (s : Server δ ν) :
    RouteTells s (batch (s.client c) cmd argv) (getNodeByQuery w c cmd argv s).2 := by
  unfold getNodeByQuery batch
  by_cases hoff : cmd.proc = .execCommand ∧ (s.client c).multi = false
  · rw [if_pos hoff, if_pos hoff]
    refine Or.inr ⟨Route.noConfusion, iff_of_false Route.noConfusion ?_⟩
    rintro ⟨key, hkey, -⟩
    cases hkey
  · rw [if_neg hoff, if_neg hoff]
    have hstart : Scanned w s [] none := rfl
    rcases scanCommands_outcome (queryCommands (s.client c) cmd argv) (Aside.refl s) hstart with
      ⟨t', r', hrun, hscanned⟩ | ⟨t', hrun, hdiffer⟩ | ⟨t', hrun, hwhy⟩
    · rw [hrun]
      obtain ⟨hanswer, hcross⟩ := routeQuery_answers t'.live.conditions.cluster (s.client c).session cmd r'
      exact Or.inr ⟨hanswer, iff_of_false hcross hscanned.not_differ⟩
    · rw [hrun]
      exact Or.inr ⟨Route.noConfusion, iff_of_true rfl hdiffer⟩
    · rw [hrun]
      exact Or.inl ⟨rfl, hwhy⟩

end RedisCluster.Multi
