import Mathlib.Algebra.BigOperators.Group.Finset.Basic
import RedisCluster.Pubsub.Pubsub

/-!
# Clients and server agree on the subscriptions

Each subscription is kept twice, at the client and at the server. Every command changes both sides
together, so that neither the assertions nor the list search can fail, and a published message goes
once to each subscription that matches.
-/

namespace RedisCluster.Pubsub

open RedisCluster.Util RedisCluster.Util.Glob
open Server

/-- The two directions agree: the list of a channel and the dict of a client, and the entries of the
list of patterns and the lists of the clients, in the same order. -/
structure Registered (s : Server) : Prop where
  channels_nodup : ∀ c, (s.channelsOf c).Nodup
  patterns_nodup : ∀ c, (s.patternsOf c).Nodup
  subscribers_nodup : ∀ channel, (s.subscribers channel).Nodup
  not_empty : ∀ channel, s.pubsub_channels channel ≠ some []
  subscribed : ∀ channel c, c ∈ s.subscribers channel ↔ channel ∈ s.channelsOf c
  entries : ∀ c, (s.pubsub_patterns.filter (·.1 == c)).map Prod.snd = s.patternsOf c

/-! ## Small facts about the operations on the state -/

section Operations

variable {s : Server} {c d : ClientId} {names : List Bytes} {push : Push}

@[simp] theorem addReply_client : (s.addReply c push).client = s.client := by
  unfold addReply
  split
  · rfl
  · split <;> rfl

@[simp] theorem addReply_pubsub_channels :
    (s.addReply c push).pubsub_channels = s.pubsub_channels := by
  unfold addReply
  split
  · rfl
  · split <;> rfl

@[simp] theorem addReply_pubsub_patterns :
    (s.addReply c push).pubsub_patterns = s.pubsub_patterns := by
  unfold addReply
  split
  · rfl
  · split <;> rfl

@[simp] theorem channelsOf_addReply : (s.addReply c push).channelsOf d = s.channelsOf d := by
  simp only [channelsOf, addReply_client]

@[simp] theorem patternsOf_addReply : (s.addReply c push).patternsOf d = s.patternsOf d := by
  simp only [patternsOf, addReply_client]

theorem channelsOf_eq_nil (h : s.client c = none) : s.channelsOf c = [] := by
  simp only [channelsOf, h]

theorem patternsOf_eq_nil (h : s.client c = none) : s.patternsOf c = [] := by
  simp only [patternsOf, h]

@[simp] theorem setChannels_client_eq_none :
    (s.setChannels c names).client d = none ↔ s.client d = none := by
  by_cases h : d = c
  · subst h
    simp [setChannels]
  · simp [setChannels, h]

@[simp] theorem setPatterns_client_eq_none :
    (s.setPatterns c names).client d = none ↔ s.client d = none := by
  by_cases h : d = c
  · subst h
    simp [setPatterns]
  · simp [setPatterns, h]

theorem channelsOf_setChannels (hc : s.client c ≠ none) :
    (s.setChannels c names).channelsOf d = if d = c then names else s.channelsOf d := by
  obtain ⟨x, hx⟩ := Option.ne_none_iff_exists'.mp hc
  by_cases h : d = c
  · subst h
    simp [setChannels, channelsOf, hx]
  · simp [setChannels, channelsOf, h]

@[simp] theorem patternsOf_setChannels :
    (s.setChannels c names).patternsOf d = s.patternsOf d := by
  by_cases h : d = c
  · subst h
    cases hd : s.client d <;> simp [setChannels, patternsOf, hd]
  · simp [setChannels, patternsOf, h]

theorem patternsOf_setPatterns (hc : s.client c ≠ none) :
    (s.setPatterns c names).patternsOf d = if d = c then names else s.patternsOf d := by
  obtain ⟨x, hx⟩ := Option.ne_none_iff_exists'.mp hc
  by_cases h : d = c
  · subst h
    simp [setPatterns, patternsOf, hx]
  · simp [setPatterns, patternsOf, h]

@[simp] theorem channelsOf_setPatterns :
    (s.setPatterns c names).channelsOf d = s.channelsOf d := by
  by_cases h : d = c
  · subst h
    cases hd : s.client d <;> simp [setPatterns, channelsOf, hd]
  · simp [setPatterns, channelsOf, h]

theorem Registered.congr {t : Server} (h : Registered s)
    (hchannels : ∀ c, t.channelsOf c = s.channelsOf c)
    (hpatterns : ∀ c, t.patternsOf c = s.patternsOf c)
    (hdict : t.pubsub_channels = s.pubsub_channels)
    (hlist : t.pubsub_patterns = s.pubsub_patterns) : Registered t where
  channels_nodup c := by rw [hchannels]; exact h.channels_nodup c
  patterns_nodup c := by rw [hpatterns]; exact h.patterns_nodup c
  subscribers_nodup channel := by rw [subscribers, hdict]; exact h.subscribers_nodup channel
  not_empty channel := by rw [hdict]; exact h.not_empty channel
  subscribed channel c := by rw [hchannels, subscribers, hdict]; exact h.subscribed channel c
  entries c := by rw [hpatterns, hlist]; exact h.entries c

theorem Registered.addReply (h : Registered s) : Registered (s.addReply c push) :=
  h.congr (fun _ => channelsOf_addReply) (fun _ => patternsOf_addReply) addReply_pubsub_channels
    addReply_pubsub_patterns

theorem Registered.notified {p : Prop} [Decidable p] (h : Registered s) :
    Registered (if p then s.addReply c push else s) := by
  split
  · exact h.addReply
  · exact h

theorem channelsOf_notified {p : Prop} [Decidable p] :
    (if p then s.addReply c push else s).channelsOf d = s.channelsOf d := by
  split
  · exact channelsOf_addReply
  · rfl

theorem patternsOf_notified {p : Prop} [Decidable p] :
    (if p then s.addReply c push else s).patternsOf d = s.patternsOf d := by
  split
  · exact patternsOf_addReply
  · rfl

theorem Registered.changed {t : Server} (h : Registered s)
    (hothers : ∀ e, e ≠ c → t.client e = s.client e) (hch : t.channelsOf c = s.channelsOf c)
    (hpat : t.patternsOf c = s.patternsOf c) (hchannels : t.pubsub_channels = s.pubsub_channels)
    (hpatterns : t.pubsub_patterns = s.pubsub_patterns) : Registered t := by
  refine h.congr (fun e => ?_) (fun e => ?_) hchannels hpatterns
  · by_cases he : e = c
    · rw [he, hch]
    · rw [channelsOf, hothers e he, channelsOf]
  · by_cases he : e = c
    · rw [he, hpat]
    · rw [patternsOf, hothers e he, patternsOf]

theorem registered_initial : Registered initial := by
  constructor <;> intros <;> simp [initial, channelsOf, patternsOf, subscribers]

end Operations

/-! ## Both directions change together -/

section Changes

variable {s : Server} {c : ClientId} {channel pattern : Bytes}

/-- A client's dict of channels and a channel's list of clients change together. -/
theorem Registered.changeChannel (h : Registered s) (hc : s.client c ≠ none) {l : List Bytes}
    {v : Option (List ClientId)} (hl : l.Nodup) (hnil : v ≠ some []) (hv : (v.getD []).Nodup)
    (hself : c ∈ v.getD [] ↔ channel ∈ l)
    (hchannels : ∀ ch, ch ≠ channel → (ch ∈ l ↔ ch ∈ s.channelsOf c))
    (hclients : ∀ d, d ≠ c → (d ∈ v.getD [] ↔ d ∈ s.subscribers channel)) :
    Registered { s.setChannels c l with
      pubsub_channels := Function.update s.pubsub_channels channel v } := by
  set t : Server := { s.setChannels c l with
    pubsub_channels := Function.update s.pubsub_channels channel v } with ht
  have hlist : ∀ d, t.channelsOf d = if d = c then l else s.channelsOf d :=
    fun d => channelsOf_setChannels hc
  have hpatterns : ∀ d, t.patternsOf d = s.patternsOf d := fun d => patternsOf_setChannels
  have hdict : t.pubsub_channels channel = v := Function.update_self ..
  have hother : ∀ ch, ch ≠ channel → t.pubsub_channels ch = s.pubsub_channels ch :=
    fun ch hch => Function.update_of_ne hch ..
  have hsubs : ∀ ch, t.subscribers ch = if ch = channel then v.getD [] else s.subscribers ch := by
    intro ch
    by_cases hch : ch = channel
    · rw [if_pos hch, subscribers, hch, hdict]
    · rw [if_neg hch, subscribers, hother ch hch, subscribers]
  constructor
  case channels_nodup =>
    intro d
    rw [hlist]
    split
    · exact hl
    · exact h.channels_nodup d
  case patterns_nodup =>
    intro d
    rw [hpatterns]
    exact h.patterns_nodup d
  case subscribers_nodup =>
    intro ch
    rw [hsubs]
    split
    · exact hv
    · exact h.subscribers_nodup ch
  case not_empty =>
    intro ch
    by_cases hch : ch = channel
    · rw [hch, hdict]
      exact hnil
    · rw [hother ch hch]
      exact h.not_empty ch
  case subscribed =>
    intro ch d
    rw [hsubs, hlist]
    by_cases hch : ch = channel
    · rw [if_pos hch, hch]
      by_cases hd : d = c
      · rw [if_pos hd, hd, hself]
      · rw [if_neg hd, hclients d hd, h.subscribed]
    · rw [if_neg hch]
      by_cases hd : d = c
      · rw [if_pos hd, hd, hchannels ch hch, h.subscribed]
      · rw [if_neg hd, h.subscribed]
  case entries =>
    intro d
    rw [hpatterns]
    exact h.entries d

theorem Registered.addChannel (h : Registered s) (hc : s.client c ≠ none)
    (hnew : channel ∉ s.channelsOf c) :
    Registered { s.setChannels c (s.channelsOf c ++ [channel]) with
      pubsub_channels :=
        Function.update s.pubsub_channels channel (some (s.subscribers channel ++ [c])) } := by
  have hout : c ∉ s.subscribers channel := mt (h.subscribed channel c).mp hnew
  refine h.changeChannel hc ?_ ?_ ?_ ?_ (fun ch hch => ?_) fun d hd => ?_
  · rw [← List.concat_eq_append]
    exact (h.channels_nodup c).concat hnew
  · simp
  · rw [Option.getD_some, ← List.concat_eq_append]
    exact (h.subscribers_nodup channel).concat hout
  · simp
  · simp [hch]
  · simp [hd]

theorem Registered.removeChannel (h : Registered s) (hc : s.client c ≠ none) :
    Registered { s.setChannels c ((s.channelsOf c).erase channel) with
      pubsub_channels :=
        Function.update s.pubsub_channels channel
          (if (s.subscribers channel).erase c = [] then none
          else some ((s.subscribers channel).erase c)) } := by
  have hlist : (if (s.subscribers channel).erase c = [] then none
      else some ((s.subscribers channel).erase c)).getD [] = (s.subscribers channel).erase c := by
    split
    case isTrue hnil => exact hnil.symm
    case isFalse => rfl
  refine h.changeChannel hc ((h.channels_nodup c).erase channel) ?_ ?_ ?_ (fun ch hch => ?_)
    fun d hd => ?_
  · split
    case isTrue => exact nofun
    case isFalse hnil => exact fun he => hnil (Option.some.inj he)
  · rw [hlist]
    exact (h.subscribers_nodup channel).erase c
  · rw [hlist]
    simp [(h.subscribers_nodup channel).mem_erase_iff, (h.channels_nodup c).mem_erase_iff]
  · exact List.mem_erase_of_ne hch
  · rw [hlist]
    exact List.mem_erase_of_ne hd

/-- A client's list of patterns changes together with the list of entries. -/
theorem Registered.changePatterns (h : Registered s) (hc : s.client c ≠ none) {l : List Bytes}
    {entries : List (ClientId × Bytes)} (hl : l.Nodup)
    (hentries : ∀ d, (entries.filter (·.1 == d)).map Prod.snd = if d = c then l else s.patternsOf d) :
    Registered { s.setPatterns c l with pubsub_patterns := entries } := by
  set t : Server := { s.setPatterns c l with pubsub_patterns := entries } with ht
  have hchannels : ∀ d, t.channelsOf d = s.channelsOf d := fun d => channelsOf_setPatterns
  have hpatterns : ∀ d, t.patternsOf d = if d = c then l else s.patternsOf d :=
    fun d => patternsOf_setPatterns hc
  constructor
  case channels_nodup =>
    intro d
    rw [hchannels]
    exact h.channels_nodup d
  case patterns_nodup =>
    intro d
    rw [hpatterns]
    split
    · exact hl
    · exact h.patterns_nodup d
  case subscribers_nodup => exact h.subscribers_nodup
  case not_empty => exact h.not_empty
  case subscribed =>
    intro ch d
    rw [hchannels]
    exact h.subscribed ch d
  case entries =>
    intro d
    rw [hpatterns]
    exact hentries d

theorem Registered.addPattern (h : Registered s) (hc : s.client c ≠ none)
    (hnew : pattern ∉ s.patternsOf c) :
    Registered { s.setPatterns c (s.patternsOf c ++ [pattern]) with
      pubsub_patterns := s.pubsub_patterns ++ [(c, pattern)] } := by
  refine h.changePatterns hc ?_ fun d => ?_
  · rw [← List.concat_eq_append]
    exact (h.patterns_nodup c).concat hnew
  have he := h.entries d
  by_cases hd : d = c
  · subst hd
    simp [List.filter_append, he]
  · have hcd : ¬ c = d := fun e => hd e.symm
    simp [List.filter_append, he, hd, hcd]

theorem filter_erase_entry (c d : ClientId) (pattern : Bytes) (entries : List (ClientId × Bytes)) :
    ((entries.erase (c, pattern)).filter (·.1 == d)).map Prod.snd =
      if d = c then ((entries.filter (·.1 == d)).map Prod.snd).erase pattern
      else (entries.filter (·.1 == d)).map Prod.snd := by
  induction entries with
  | nil => simp
  | cons e entries ih =>
    obtain ⟨a, b⟩ := e
    by_cases hd : d = c
    · subst hd
      by_cases ha : a = d
      · subst ha
        by_cases hb : b = pattern
        · simp [hb]
        · have hne : ((a, b) == (a, pattern)) = false := by simp [hb]
          simp only [List.erase_cons, hne, Bool.false_eq_true, if_false, List.filter_cons, beq_self_eq_true,
            if_true, List.map_cons] at ih ⊢
          rw [ih, if_neg (by simpa using hb)]
      · have hne : ((a, b) == (d, pattern)) = false := by simp [ha]
        simpa [List.erase_cons, hne, ha] using ih
    · rw [if_neg hd] at ih ⊢
      by_cases he : (a, b) = (c, pattern)
      · obtain ⟨rfl, rfl⟩ := Prod.mk.inj he
        have had : ¬ a = d := fun e => hd e.symm
        simp [had]
      · rw [List.erase_cons_tail (by simpa using he)]
        simp only [List.filter_cons]
        split
        · simp [ih]
        · exact ih

theorem Registered.mem_entries (h : Registered s) :
    (c, pattern) ∈ s.pubsub_patterns ↔ pattern ∈ s.patternsOf c := by
  rw [← h.entries c]
  simp

theorem Registered.removePattern (h : Registered s) (hc : s.client c ≠ none) :
    Registered { s.setPatterns c ((s.patternsOf c).erase pattern) with
      pubsub_patterns := s.pubsub_patterns.erase (c, pattern) } := by
  refine h.changePatterns hc ((h.patterns_nodup c).erase pattern) fun d => ?_
  refine (filter_erase_entry c d pattern s.pubsub_patterns).trans ?_
  by_cases hd : d = c
  · rw [if_pos hd, if_pos hd, h.entries, hd]
  · rw [if_neg hd, if_neg hd, h.entries]

end Changes

/-! ## The commands -/

section Commands

variable {s : Server} {c : ClientId}

theorem subscribeChannel_registered (channel : Bytes) (h : Registered s) (hc : s.client c ≠ none) :
    Registered (pubsubSubscribeChannel s c channel) ∧
      (pubsubSubscribeChannel s c channel).client c ≠ none := by
  unfold pubsubSubscribeChannel
  by_cases hmem : channel ∈ s.channelsOf c
  · simp only [if_pos hmem]
    exact ⟨h.addReply, by rw [addReply_client]; exact hc⟩
  · simp only [if_neg hmem]
    exact ⟨(h.addChannel hc hmem).addReply, by
      rw [addReply_client]
      exact mt setChannels_client_eq_none.mp hc⟩

theorem subscribePattern_registered (pattern : Bytes) (h : Registered s) (hc : s.client c ≠ none) :
    Registered (pubsubSubscribePattern s c pattern) ∧
      (pubsubSubscribePattern s c pattern).client c ≠ none := by
  unfold pubsubSubscribePattern
  by_cases hmem : pattern ∈ s.patternsOf c
  · simp only [if_pos hmem]
    exact ⟨h.addReply, by rw [addReply_client]; exact hc⟩
  · simp only [if_neg hmem]
    exact ⟨(h.addPattern hc hmem).addReply, by
      rw [addReply_client]
      exact mt setPatterns_client_eq_none.mp hc⟩

theorem registered_foldl {one : Server → Bytes → Server}
    (hone : ∀ s name, Registered s → s.client c ≠ none →
      Registered (one s name) ∧ (one s name).client c ≠ none)
    (names : List Bytes) (h : Registered s) (hc : s.client c ≠ none) :
    Registered (names.foldl one s) := by
  induction names generalizing s with
  | nil => exact h
  | cons name names ih =>
    obtain ⟨h', hc'⟩ := hone s name h hc
    exact ih h' hc'

theorem unsubscribeChannel_ok (channel : Bytes) (notify : Bool) (h : Registered s) :
    ∃ s' retval, pubsubUnsubscribeChannel s c channel notify = .ok (s', retval) ∧ Registered s' ∧
      s'.channelsOf c = (s.channelsOf c).erase channel := by
  by_cases hmem : channel ∈ s.channelsOf c
  · have hc : s.client c ≠ none := fun hnone => by simp [channelsOf_eq_nil hnone] at hmem
    have hin : c ∈ s.subscribers channel := (h.subscribed channel c).mpr hmem
    obtain ⟨clients, hclients⟩ : ∃ clients, s.pubsub_channels channel = some clients := by
      cases hd : s.pubsub_channels channel with
      | none => simp [subscribers, hd] at hin
      | some clients => exact ⟨clients, rfl⟩
    have heq : s.subscribers channel = clients := by rw [subscribers, hclients]; rfl
    have hreg := @Registered.removeChannel s c channel h hc
    have hview := @channelsOf_setChannels s c c ((s.channelsOf c).erase channel) hc
    rw [if_pos rfl] at hview
    rw [heq] at hin hreg
    unfold pubsubUnsubscribeChannel
    simp only [if_pos hmem, hclients, if_pos hin]
    exact ⟨_, _, rfl, hreg.notified, channelsOf_notified.trans hview⟩
  · unfold pubsubUnsubscribeChannel
    simp only [if_neg hmem]
    rw [List.erase_of_not_mem hmem]
    exact ⟨_, _, rfl, h.notified, channelsOf_notified⟩

theorem unsubscribePattern_ok (pattern : Bytes) (notify : Bool) (h : Registered s) :
    ∃ s' retval, pubsubUnsubscribePattern s c pattern notify = .ok (s', retval) ∧ Registered s' ∧
      s'.channelsOf c = s.channelsOf c ∧ s'.patternsOf c = (s.patternsOf c).erase pattern := by
  by_cases hmem : pattern ∈ s.patternsOf c
  · have hc : s.client c ≠ none := fun hnone => by simp [patternsOf_eq_nil hnone] at hmem
    have hin : (c, pattern) ∈ s.pubsub_patterns := h.mem_entries.mpr hmem
    have hreg := @Registered.removePattern s c pattern h hc
    have hview := @patternsOf_setPatterns s c c ((s.patternsOf c).erase pattern) hc
    rw [if_pos rfl] at hview
    have hkeep := @channelsOf_setPatterns s c c ((s.patternsOf c).erase pattern)
    unfold pubsubUnsubscribePattern
    simp only [if_pos hmem, if_pos hin]
    exact ⟨_, _, rfl, hreg.notified, channelsOf_notified.trans hkeep,
      patternsOf_notified.trans hview⟩
  · unfold pubsubUnsubscribePattern
    simp only [if_neg hmem]
    rw [List.erase_of_not_mem hmem]
    exact ⟨_, _, rfl, h.notified, channelsOf_notified, patternsOf_notified⟩

theorem unsubscribeEach_ok {F : Server → Bytes → Except Fault (Server × Bool)}
    {P : Server → Prop} {V : Server → List Bytes}
    (hone : ∀ s name, P s → ∃ s' retval, F s name = .ok (s', retval) ∧ P s' ∧
      V s' = (V s).erase name)
    (names : List Bytes) (h : P s) :
    ∃ s' count, unsubscribeEach F s names = .ok (s', count) ∧ P s' ∧
      V s' = (V s).diff names := by
  induction names generalizing s with
  | nil => exact ⟨s, 0, rfl, h, rfl⟩
  | cons name names ih =>
    obtain ⟨s₁, retval, h₁, hp₁, hv₁⟩ := hone s name h
    obtain ⟨s₂, count, h₂, hp₂, hv₂⟩ := ih hp₁
    refine ⟨s₂, retval.toNat + count, ?_, hp₂, ?_⟩
    · simp only [unsubscribeEach, h₁, h₂, bind, Except.bind]
    · rw [hv₂, hv₁, List.diff_cons]

theorem diff_perm_self {names order : List Bytes} (hnodup : names.Nodup) (h : order.Perm names) :
    names.diff order = [] := by
  rw [List.eq_nil_iff_forall_not_mem]
  intro name hmem
  obtain ⟨hin, hout⟩ := hnodup.mem_sdiff_iff.mp hmem
  exact hout (h.mem_iff.mpr hin)

theorem unsubscribeAllChannels_ok (dict : DictOrder) (notify : Bool) (h : Registered s) :
    ∃ s' count, pubsubUnsubscribeAllChannels s c dict notify = .ok (s', count) ∧ Registered s' ∧
      s'.channelsOf c = [] := by
  obtain ⟨s', count, hs', hreg, hview⟩ := unsubscribeEach_ok (V := fun s => s.channelsOf c)
    (fun _ name hs => unsubscribeChannel_ok name notify hs) (dict.order (s.channelsOf c)) h
  have hnil : s'.channelsOf c = [] :=
    hview.trans (diff_perm_self (h.channels_nodup c) (dict.perm _))
  unfold pubsubUnsubscribeAllChannels
  simp only [hs', bind, Except.bind]
  exact ⟨_, _, rfl, hreg.notified, channelsOf_notified.trans hnil⟩

theorem unsubscribeAllPatterns_ok (notify : Bool) (h : Registered s) :
    ∃ s' count, pubsubUnsubscribeAllPatterns s c notify = .ok (s', count) ∧ Registered s' ∧
      s'.channelsOf c = s.channelsOf c ∧ s'.patternsOf c = [] := by
  obtain ⟨s', count, hs', ⟨hreg, hkeep⟩, hview⟩ :=
    unsubscribeEach_ok (V := fun s => s.patternsOf c)
      (P := fun t => Registered t ∧ t.channelsOf c = s.channelsOf c)
      (F := fun s pattern => pubsubUnsubscribePattern s c pattern notify)
      (fun t name ht => by
        obtain ⟨t', retval, ht', hreg, hkeep, hview⟩ :=
          unsubscribePattern_ok (c := c) name notify ht.1
        exact ⟨t', retval, ht', ⟨hreg, hkeep.trans ht.2⟩, hview⟩)
      (s.patternsOf c) ⟨h, rfl⟩
  have hnil : s'.patternsOf c = [] :=
    hview.trans (diff_perm_self (h.patterns_nodup c) (List.Perm.refl _))
  unfold pubsubUnsubscribeAllPatterns
  simp only [hs', bind, Except.bind]
  exact ⟨_, _, rfl, hreg.notified, channelsOf_notified.trans hkeep, patternsOf_notified.trans hnil⟩

theorem freeClient_ok (dict : DictOrder) (h : Registered s) :
    ∃ s', freeClient s c dict = .ok s' ∧ Registered s' := by
  obtain ⟨s₁, n₁, h₁, hreg₁, hch₁⟩ := unsubscribeAllChannels_ok (c := c) dict false h
  obtain ⟨s₂, n₂, h₂, hreg₂, hch₂, hpat₂⟩ := unsubscribeAllPatterns_ok (c := c) false hreg₁
  unfold freeClient
  simp only [h₁, h₂, bind, Except.bind]
  refine ⟨_, rfl, hreg₂.changed (fun d hd => Function.update_of_ne hd _ _) ?_ ?_ rfl rfl⟩
  · rw [channelsOf_eq_nil (by simp), hch₂, hch₁]
  · rw [patternsOf_eq_nil (by simp), hpat₂]

theorem step_ok (event : Event) (h : Registered s) :
    ∃ s', step s event = .ok s' ∧ Registered s' := by
  cases event with
  | createClient c fd =>
    by_cases hc : s.client c = none
    · simp only [step, if_pos hc]
      refine ⟨_, rfl, h.changed (fun d hd => Function.update_of_ne hd _ _) ?_ ?_ rfl rfl⟩
      · simp [channelsOf, hc]
      · simp [patternsOf, hc]
    · exact ⟨s, by simp only [step, if_neg hc], h⟩
  | subscribe c channels =>
    by_cases hc : s.client c = none
    · exact ⟨s, by simp only [step, if_pos hc], h⟩
    · simp only [step, if_neg hc]
      exact ⟨_, rfl, registered_foldl (fun _ name => subscribeChannel_registered name) channels h hc⟩
  | unsubscribe c channels dict =>
    by_cases hc : s.client c = none
    · exact ⟨s, by simp only [step, if_pos hc], h⟩
    · simp only [step, if_neg hc]
      cases channels with
      | nil =>
        obtain ⟨s', count, hs', hreg, -⟩ := unsubscribeAllChannels_ok (c := c) dict true h
        exact ⟨s', by simp only [unsubscribeCommand, hs', bind, Except.bind], hreg⟩
      | cons channel channels =>
        obtain ⟨s', count, hs', hreg, -⟩ :=
          unsubscribeEach_ok (V := fun s => s.channelsOf c)
            (fun _ name hs => unsubscribeChannel_ok name true hs) (channel :: channels) h
        exact ⟨s', by simp only [unsubscribeCommand, hs', bind, Except.bind], hreg⟩
  | psubscribe c patterns =>
    by_cases hc : s.client c = none
    · exact ⟨s, by simp only [step, if_pos hc], h⟩
    · simp only [step, if_neg hc]
      exact ⟨_, rfl, registered_foldl (fun _ name => subscribePattern_registered name) patterns h hc⟩
  | punsubscribe c patterns =>
    by_cases hc : s.client c = none
    · exact ⟨s, by simp only [step, if_pos hc], h⟩
    · simp only [step, if_neg hc]
      cases patterns with
      | nil =>
        obtain ⟨s', count, hs', hreg, -⟩ := unsubscribeAllPatterns_ok (c := c) true h
        exact ⟨s', by simp only [punsubscribeCommand, hs', bind, Except.bind], hreg⟩
      | cons pattern patterns =>
        obtain ⟨s', count, hs', hreg, -⟩ :=
          unsubscribeEach_ok (V := fun s => s.patternsOf c)
            (F := fun s pattern => pubsubUnsubscribePattern s c pattern true)
            (fun _ name hs => by
              obtain ⟨t, retval, ht, hreg, -, hview⟩ := unsubscribePattern_ok (c := c) name true hs
              exact ⟨t, retval, ht, hreg, hview⟩) (pattern :: patterns) h
        exact ⟨s', by simp only [punsubscribeCommand, hs', bind, Except.bind], hreg⟩
  | setFlags c master close_after_reply =>
    refine ⟨_, rfl, h.changed (fun d hd => Function.update_of_ne hd _ _) ?_ ?_ rfl rfl⟩
    · cases hx : s.client c <;> simp [channelsOf, hx]
    · cases hx : s.client c <;> simp [patternsOf, hx]
  | freeClient c dict cached =>
    by_cases hc : s.client c = none ∨ cached = true
    · exact ⟨s, by simp only [step, if_pos hc], h⟩
    · simp only [step, if_neg hc]
      exact freeClient_ok dict h

theorem run_ok (events : List Event) (h : Registered s) :
    ∃ s', run s events = .ok s' ∧ Registered s' := by
  induction events generalizing s with
  | nil => exact ⟨s, rfl, h⟩
  | cons event events ih =>
    obtain ⟨s₁, h₁, hreg₁⟩ := step_ok event h
    obtain ⟨s₂, h₂, hreg₂⟩ := ih hreg₁
    refine ⟨s₂, ?_, hreg₂⟩
    rw [run, List.foldlM_cons, h₁]
    exact h₂

end Commands

/-! ## Publishing -/

namespace Server

def accepting (s : Server) (c : ClientId) : Bool :=
  match s.client c with
  | none => false
  | some x => x.accepts

def send (s : Server) (gets : ClientId → Bool) (messages : ClientId → List Push) : Server :=
  { s with output := fun c => s.output c ++ if gets c then messages c else [] }

end Server

section Publish

variable {s : Server} {channel message : Bytes}

theorem send_eq_self (c : ClientId) (push : Push) (hc : s.accepting c = false) :
    (s.send s.accepting fun d => if d = c then [push] else []) = s := by
  have hout : (fun d => s.output d ++
      if s.accepting d then (if d = c then [push] else []) else []) = s.output := by
    funext d
    by_cases hd : d = c
    · simp [hd, hc]
    · simp [hd]
  rw [send, hout]

theorem addReply_eq_send (c : ClientId) (push : Push) :
    s.addReply c push = s.send s.accepting fun d => if d = c then [push] else [] := by
  unfold Server.addReply
  cases hc : s.client c with
  | none => exact (send_eq_self c push (by simp [accepting, hc])).symm
  | some x =>
    simp only
    split
    case isFalse hx => exact (send_eq_self c push (by simpa [accepting, hc] using hx)).symm
    case isTrue hx =>
      have haccepts : s.accepting c = true := by simpa [accepting, hc] using hx
      have hout : Function.update s.output c (s.output c ++ [push]) = fun d => s.output d ++
          if s.accepting d then (if d = c then [push] else []) else [] := by
        funext d
        by_cases hd : d = c
        · subst hd
          simp [haccepts]
        · simp [hd]
      rw [send, hout]

theorem send_send (gets : ClientId → Bool) (first second : ClientId → List Push) :
    (s.send gets first).send gets second = s.send gets fun c => first c ++ second c := by
  simp only [send, Server.mk.injEq, true_and]
  funext c
  cases gets c <;> simp

@[simp] theorem send_accepting (gets : ClientId → Bool) (messages : ClientId → List Push) :
    (s.send gets messages).accepting = s.accepting := rfl

theorem publishToClients_ok (clients : List ClientId) (receivers : Nat)
    (hc : ∀ c ∈ clients, s.client c ≠ none) :
    publishToClients channel message s clients receivers =
      .ok (s.send s.accepting fun d => List.replicate (clients.count d) (.message channel message),
        receivers + clients.length) := by
  induction clients generalizing s receivers with
  | nil => simp [publishToClients, send]
  | cons c clients ih =>
    have hmessages : (fun d => (if d = c then [Push.message channel message] else []) ++
          List.replicate (clients.count d) (.message channel message)) =
        fun d => List.replicate ((c :: clients).count d) (.message channel message) := by
      funext d
      by_cases hd : d = c
      · subst hd
        simp [List.replicate_succ]
      · have hcd : ¬ c = d := fun e => hd e.symm
        simp [hd, hcd]
    rw [publishToClients, if_neg (hc c List.mem_cons_self),
      ih _ fun d hd => by rw [addReply_client]; exact hc d (List.mem_cons_of_mem c hd),
      addReply_eq_send, send_accepting, send_send, hmessages, List.length_cons, Nat.add_assoc,
      Nat.add_comm 1]

theorem publishToPatterns_ok (entries : List (ClientId × Bytes)) (receivers : Nat)
    (hc : ∀ e ∈ entries, s.client e.1 ≠ none)
    (hstop : ∀ e ∈ entries, stringmatchlen false e.2 (.within channel) ≠ none) :
    publishToPatterns channel message s entries receivers =
      .ok (s.send s.accepting fun d =>
          (((entries.filter (·.1 == d)).map Prod.snd).filter (matchesChannel channel)).map
            (.pmessage · channel message),
        receivers + (entries.filter fun e => matchesChannel channel e.2).length) := by
  induction entries generalizing s receivers with
  | nil => simp [publishToPatterns, send]
  | cons e entries ih =>
    obtain ⟨c, pattern⟩ := e
    have hc' : ∀ e ∈ entries, s.client e.1 ≠ none := fun e he => hc e (List.mem_cons_of_mem _ he)
    have hstop' : ∀ e ∈ entries, stringmatchlen false e.2 (.within channel) ≠ none :=
      fun e he => hstop e (List.mem_cons_of_mem _ he)
    rw [publishToPatterns]
    cases hm : stringmatchlen false pattern (.within channel) with
    | none => exact absurd hm (hstop _ List.mem_cons_self)
    | some verdict =>
      cases verdict with
      | false =>
        have hno : matchesChannel channel pattern = false := by simp [matchesChannel, hm]
        have hmessages : ∀ d,
            ((((c, pattern) :: entries).filter (·.1 == d)).map Prod.snd).filter
              (matchesChannel channel) =
            ((entries.filter (·.1 == d)).map Prod.snd).filter (matchesChannel channel) := by
          intro d
          by_cases hd : c = d
          · simp [hd, hno]
          · simp [hd]
        simp only [hmessages, ih _ hc' hstop']
        rw [List.filter_cons_of_neg (by simp [hno])]
      | true =>
        have hyes : matchesChannel channel pattern = true := by simp [matchesChannel, hm]
        have hmessages : (fun d => (if d = c then [Push.pmessage pattern channel message] else []) ++
              (((entries.filter (·.1 == d)).map Prod.snd).filter (matchesChannel channel)).map
                (.pmessage · channel message)) =
            fun d => (((((c, pattern) :: entries).filter (·.1 == d)).map Prod.snd).filter
              (matchesChannel channel)).map (.pmessage · channel message) := by
          funext d
          by_cases hd : c = d
          · simp [hd, hyes]
          · have hdc : ¬ d = c := fun e => hd e.symm
            simp [hd, hdc]
        simp only
        rw [if_neg (hc _ List.mem_cons_self),
          ih _ (fun e he => by rw [addReply_client]; exact hc' e he) hstop',
          addReply_eq_send, send_accepting, send_send, hmessages]
        simp only [List.filter_cons, hyes, if_true, List.length_cons]
        rw [Nat.add_assoc, Nat.add_comm 1]

theorem Registered.client_of_subscriber (h : Registered s) {c : ClientId}
    (hc : c ∈ s.subscribers channel) : s.client c ≠ none := by
  intro hnone
  have hmem := (h.subscribed channel c).mp hc
  rw [channelsOf_eq_nil hnone] at hmem
  exact absurd hmem (List.not_mem_nil)

theorem Registered.client_of_entry (h : Registered s) {e : ClientId × Bytes}
    (he : e ∈ s.pubsub_patterns) : s.client e.1 ≠ none := by
  intro hnone
  have hmem := (@Registered.mem_entries s e.1 e.2 h).mp he
  rw [patternsOf_eq_nil hnone] at hmem
  exact absurd hmem (List.not_mem_nil)

theorem Registered.count_subscribers (h : Registered s) (channel : Bytes) (c : ClientId) :
    (s.subscribers channel).count c = if channel ∈ s.channelsOf c then 1 else 0 := by
  rw [(h.subscribers_nodup channel).count]
  simp only [h.subscribed]

theorem publish_ok (h : Registered s)
    (hstop : ∀ e ∈ s.pubsub_patterns, stringmatchlen false e.2 (.within channel) ≠ none) :
    pubsubPublishMessage s channel message =
      .ok (s.send s.accepting (s.expected channel message),
        (s.subscribers channel).length +
          (s.pubsub_patterns.filter fun e => matchesChannel channel e.2).length) := by
  have hfirst := @publishToClients_ok s channel message
    (s.subscribers channel) 0 fun c hc => h.client_of_subscriber hc
  have hsecond := @publishToPatterns_ok
    (s.send s.accepting fun d =>
      List.replicate ((s.subscribers channel).count d) (.message channel message)) channel message
    s.pubsub_patterns (0 + (s.subscribers channel).length)
    (fun e he => h.client_of_entry he) hstop
  unfold pubsubPublishMessage
  rw [hfirst]
  refine hsecond.trans ?_
  rw [send_accepting, send_send]
  congr 3
  · funext d
    rw [expected, h.entries d, h.count_subscribers]
    split <;> rfl
  · omega

theorem length_filter_entries (c : ClientId) (entries : List (ClientId × Bytes)) (p : Bytes → Bool) :
    (((entries.filter (·.1 == c)).map Prod.snd).filter p).length =
      ((entries.filter fun e => p e.2).map Prod.fst).count c := by
  induction entries with
  | nil => rfl
  | cons e entries ih =>
    obtain ⟨d, pattern⟩ := e
    by_cases hd : d = c
    · cases hp : p pattern
      · simpa [hd, hp] using ih
      · simp [hd, hp, ih]
    · cases hp : p pattern
      · simpa [hd, hp] using ih
      · simpa [hd, hp] using ih

theorem sum_count_eq_length {ids : Finset ClientId} {clients : List ClientId}
    (h : ∀ c ∈ clients, c ∈ ids) : ∑ c ∈ ids, clients.count c = clients.length := by
  have := Multiset.sum_count_eq_card (s := ids) (m := (clients : Multiset ClientId)) (by simpa using h)
  simpa using this

theorem receivers_eq_sum (h : Registered s) {ids : Finset ClientId}
    (hids : ∀ c, s.client c ≠ none → c ∈ ids) :
    (s.subscribers channel).length +
        (s.pubsub_patterns.filter fun e => matchesChannel channel e.2).length =
      ∑ c ∈ ids, (s.expected channel message c).length := by
  have hsubs := @sum_count_eq_length ids (s.subscribers channel)
    fun c hc => hids c (h.client_of_subscriber hc)
  have hpats := @sum_count_eq_length ids
    ((s.pubsub_patterns.filter fun e => matchesChannel channel e.2).map Prod.fst)
    (by
      intro c hc
      obtain ⟨e, he, rfl⟩ := List.mem_map.mp hc
      exact hids e.1 (h.client_of_entry (List.mem_of_mem_filter he)))
  rw [List.length_map] at hpats
  rw [← hsubs, ← hpats, ← Finset.sum_add_distrib]
  refine Finset.sum_congr rfl fun c _ => ?_
  rw [expected, List.length_append, List.length_map, h.count_subscribers, ← h.entries c,
    length_filter_entries]
  congr 1
  split <;> rfl

end Publish

/-! ## Every run -/

/-- A client is once in the list of each of its channels, there is one entry for each of its patterns,
and nothing else is registered. -/
structure Agree (s : Server) : Prop where
  channels : ∀ channel c,
    (s.subscribers channel).count c = if channel ∈ s.channelsOf c then 1 else 0
  channels_once : ∀ c, (s.channelsOf c).Nodup
  not_empty : ∀ channel, s.pubsub_channels channel ≠ some []
  patterns : ∀ c pattern,
    s.pubsub_patterns.count (c, pattern) = if pattern ∈ s.patternsOf c then 1 else 0
  patterns_once : ∀ c, (s.patternsOf c).Nodup

/-- Where `stringmatchlen` stays inside the patterns, a message goes once to each matching subscription
of the clients that `gets` names, and the number returned is that of all matching subscriptions. -/
def PublishesTo (s : Server) (gets : ClientId → Bool) : Prop :=
  ∀ channel message,
    (∀ e ∈ s.pubsub_patterns, stringmatchlen false e.2 (.within channel) ≠ none) →
    ∃ receivers,
      pubsubPublishMessage s channel message =
        .ok (s.send gets (s.expected channel message), receivers) ∧
      ∀ ids : Finset ClientId, (∀ c, s.client c ≠ none → c ∈ ids) →
        receivers = ∑ c ∈ ids, (s.expected channel message c).length

theorem Registered.entries_nodup {s : Server} (h : Registered s) : s.pubsub_patterns.Nodup := by
  rw [List.nodup_iff_count_le_one]
  rintro ⟨c, pattern⟩
  have hone := List.nodup_iff_count_le_one.mp (h.patterns_nodup c) pattern
  rw [← h.entries c] at hone
  refine le_trans ?_ hone
  have hcount := List.count_le_count_map (l := s.pubsub_patterns.filter (·.1 == c)) (f := Prod.snd)
    (x := (c, pattern))
  rwa [List.count_filter (by simp)] at hcount

theorem Registered.agree {s : Server} (h : Registered s) : Agree s where
  channels := h.count_subscribers
  channels_once := h.channels_nodup
  not_empty := h.not_empty
  patterns c pattern := by
    rw [h.entries_nodup.count]
    simp only [h.mem_entries]
  patterns_once := h.patterns_nodup

/-- In every run no assertion fails and no list node is missing, both sides agree afterwards, and a
published message goes once to each matching subscription of a client that accepts output. -/
theorem pubsub_registry (events : List Event) :
    ∃ s, run initial events = .ok s ∧ Agree s ∧ PublishesTo s s.accepting := by
  obtain ⟨s, hs, hreg⟩ := run_ok events registered_initial
  refine ⟨s, hs, hreg.agree, fun channel message hstop => ?_⟩
  exact ⟨_, publish_ok hreg hstop, fun ids hids => receivers_eq_sum hreg hids⟩

/-- A client that is to be closed after its replies is counted, but it gets nothing. -/
theorem closing_client_gets_nothing :
    ¬ ∀ events : List Event,
      ∃ s, run initial events = .ok s ∧ Agree s ∧ PublishesTo s fun _ => true := by
  intro hall
  obtain ⟨s, hs, -, hpub⟩ := hall
    [.createClient 1 7, .subscribe 1 [[97]], .setFlags 1 false true]
  have heq := Except.ok.inj hs
  subst heq
  obtain ⟨receivers, hp, -⟩ := hpub [97] [104] (by intro e he; exact absurd he List.not_mem_nil)
  have hout : [Push.subscribe [97] 1] = [.subscribe [97] 1, .message [97] [104]] :=
    congrArg (fun r => r.output 1) (congrArg Prod.fst (Except.ok.inj hp))
  exact absurd hout (by decide)

end RedisCluster.Pubsub
