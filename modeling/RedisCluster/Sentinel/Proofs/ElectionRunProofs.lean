import RedisCluster.Sentinel.Proofs.ElectionProofs

/-!
# Elections

What a Sentinel has for a vote, its own or a reported one, is a vote that was granted. A leader is found from
such votes for the epoch of its failover, so it has a majority, and two majorities have a voter in common.
-/

namespace RedisCluster.Sentinel

open RedisCluster.Util

/-! ## Majorities -/

theorem exists_of_majorities {α : Type} {l : List α} {p q : α → Bool}
    (hp : l.length / 2 + 1 ≤ (l.filter p).length) (hq : l.length / 2 + 1 ≤ (l.filter q).length) :
    ∃ a ∈ l, p a = true ∧ q a = true := by
  by_contra hno
  have hapart : ∀ a ∈ l, p a = true → (!q a) = true := fun a ha hpa => by
    cases hqa : q a with
    | false => rfl
    | true => exact absurd ⟨a, ha, hpa, hqa⟩ hno
  have hle : l.countP p ≤ l.countP fun a => !q a := List.countP_mono_left hapart
  have hlength := List.length_eq_countP_add_countP q (l := l)
  have hnot : (l.countP fun a => !q a) = l.countP fun a => decide ¬q a = true :=
    List.countP_congr fun a _ => by cases q a <;> simp
  rw [← List.countP_eq_length_filter] at hp hq
  omega

/-! ## The invariant -/

def Reported (grants : List Grant) (name : Bytes) (ri : OtherSentinel) : Prop :=
  ∀ leader, ri.leader = some leader →
    { voter := ri.addr, master := name, epoch := ri.leader_epoch, runid := leader : Grant } ∈ grants

structure Holds (g : Group) (grants : List Grant) (v : Addr) (name : Bytes) (m : Master) : Prop where
  knows : Knows g v m
  own : ∀ leader, m.leader = some leader →
    { voter := v, master := name, epoch := m.leader_epoch, runid := leader : Grant } ∈ grants
  others : ∀ ri ∈ m.sentinels, Reported grants name ri

def HasMajority (g : Group) (w : World) (x : Elected) : Prop :=
  g.members.length / 2 + 1 ≤ (votersFor g w x.master x.epoch x.runid).length ∧
    x.quorum ≤ (votersFor g w x.master x.epoch x.runid).length

structure WorldInv (g : Group) (w : World) : Prop where
  runid : ∀ v ∈ g.members, g.owner (w.sentinel v).runid = v
  holds : ∀ v ∈ g.members, ∀ name m, (w.sentinel v).masters name = some m → Holds g w.grants v name m
  epochs : ∀ a ∈ w.grants, ∀ m, (w.sentinel a.voter).masters a.master = some m → a.epoch ≤ m.leader_epoch
  unique : ∀ a ∈ w.grants, ∀ b ∈ w.grants, a.voter = b.voter → a.master = b.master → a.epoch = b.epoch →
    a.runid = b.runid
  requests : ∀ r ∈ w.requests, r.sender ∈ g.members ∧ r.receiver ∈ g.members
  replies : ∀ r ∈ w.replies, r.receiver ∈ g.members ∧ ∀ leader, r.leader = some leader →
    { voter := r.sender, master := r.master, epoch := r.leader_epoch, runid := leader : Grant } ∈ w.grants
  hellos : ∀ h ∈ w.hellos, (⟨h.ip, h.port⟩ : Addr) ∈ g.members ∧ g.owner h.runid = ⟨h.ip, h.port⟩
  majority : ∀ x ∈ w.elected, HasMajority g w x

theorem Holds.mono {g : Group} {grants grants' : List Grant} {v : Addr} {name : Bytes} {m : Master}
    (h : Holds g grants v name m) (hsub : ∀ a ∈ grants, a ∈ grants') : Holds g grants' v name m where
  knows := h.knows
  own leader hleader := hsub _ (h.own leader hleader)
  others ri hri leader hleader := hsub _ (h.others ri hri leader hleader)

theorem HasMajority.mono {g : Group} {w w' : World} {x : Elected} (h : HasMajority g w x)
    (hsub : ∀ a ∈ w.grants, a ∈ w'.grants) : HasMajority g w' x := by
  have hle : (votersFor g w x.master x.epoch x.runid).length ≤
      (votersFor g w' x.master x.epoch x.runid).length := by
    unfold votersFor
    rw [← List.countP_eq_length_filter, ← List.countP_eq_length_filter]
    exact List.countP_mono_left fun v _ hv => decide_eq_true (hsub _ (of_decide_eq_true hv))
  exact ⟨h.1.trans hle, h.2.trans hle⟩

theorem WorldInv.messages {g : Group} {w w' : World} (h : WorldInv g w) (hsentinel : w'.sentinel = w.sentinel)
    (hgrants : w'.grants = w.grants) (helected : w'.elected = w.elected)
    (hrequests : ∀ r ∈ w'.requests, r ∈ w.requests ∨ (r.sender ∈ g.members ∧ r.receiver ∈ g.members))
    (hreplies : ∀ r ∈ w'.replies, r ∈ w.replies ∨ (r.receiver ∈ g.members ∧ ∀ leader, r.leader = some leader →
      { voter := r.sender, master := r.master, epoch := r.leader_epoch, runid := leader : Grant } ∈ w.grants))
    (hhellos : ∀ x ∈ w'.hellos, x ∈ w.hellos ∨
      ((⟨x.ip, x.port⟩ : Addr) ∈ g.members ∧ g.owner x.runid = ⟨x.ip, x.port⟩)) : WorldInv g w' where
  runid := by
    rw [hsentinel]
    exact h.runid
  holds := by
    rw [hsentinel, hgrants]
    exact h.holds
  epochs := by
    rw [hsentinel, hgrants]
    exact h.epochs
  unique := by
    rw [hgrants]
    exact h.unique
  requests r hr := (hrequests r hr).elim (h.requests r) id
  replies r hr := by
    rw [hgrants]
    exact (hreplies r hr).elim (h.replies r) id
  hellos x hx := (hhellos x hx).elim (h.hellos x) id
  majority x hx := by
    rw [helected] at hx
    refine (h.majority x hx).mono fun a ha => ?_
    rw [hgrants]
    exact ha

/-- What a Sentinel may become. -/
structure Becomes (g : Group) (grants : List Grant) (v : Addr) (s s' : SentinelState) : Prop where
  runid : g.owner s'.runid = v
  master : ∀ name m', s'.masters name = some m' → ∃ m, s.masters name = some m ∧ Revotes m m' ∧
    Knows g v m' ∧ ∀ ri ∈ m'.sentinels, Reported grants name ri

def Granted (v : Addr) (s s' : SentinelState) (new : List Grant) : Prop :=
  ∀ a, a ∈ new ↔ a.voter = v ∧ ∃ m m', s.masters a.master = some m ∧ s'.masters a.master = some m' ∧
    m'.leader_epoch ≠ m.leader_epoch ∧ a.epoch = m'.leader_epoch ∧ m'.leader = some a.runid

theorem Revotes.le {m m' : Master} (h : Revotes m m') : m.leader_epoch ≤ m'.leader_epoch := by
  rcases h with ⟨heq, -⟩ | ⟨hlt, -⟩
  · exact heq.ge
  · exact hlt.le

theorem WorldInv.becomes {g : Group} {w : World} {v : Addr} {s' : SentinelState} {new : List Grant}
    (h : WorldInv g w) (hv : v ∈ g.members) (hs : Becomes g w.grants v (w.sentinel v) s')
    (hnew : Granted v (w.sentinel v) s' new) :
    WorldInv g { w with sentinel := Function.update w.sentinel v s', grants := w.grants ++ new } := by
  have hsub : ∀ a ∈ w.grants, a ∈ w.grants ++ new := fun a ha => List.mem_append_left _ ha
  have hself : Function.update w.sentinel v s' v = s' := Function.update_self ..
  have hother : ∀ u, u ≠ v → Function.update w.sentinel v s' u = w.sentinel u := fun u hu =>
    Function.update_of_ne hu ..
  -- a new vote is for a greater epoch than any of its voter before
  have hgreater : ∀ a ∈ w.grants, ∀ b ∈ new, a.voter = b.voter → a.master = b.master → a.epoch < b.epoch := by
    intro a ha b hb hvoter hmaster
    obtain ⟨hbv, m, m', hm, hm', hne, hepoch, -⟩ := (hnew b).mp hb
    have hle : a.epoch ≤ m.leader_epoch := by
      refine h.epochs a ha m ?_
      rw [hvoter, hbv, hmaster]
      exact hm
    obtain ⟨m₁, hm₁, hrevotes, -⟩ := hs.master _ m' hm'
    rw [hm, Option.some.injEq] at hm₁
    subst hm₁
    have := hrevotes.le
    omega
  refine { runid := fun u hu => ?_, holds := fun u hu name m' hm' => ?_, epochs := fun a ha m' hm' => ?_,
           unique := fun a ha b hb hvoter hmaster hepoch => ?_, requests := h.requests,
           replies := fun r hr => ⟨(h.replies r hr).1, fun leader hl => hsub _ ((h.replies r hr).2 leader hl)⟩,
           hellos := h.hellos, majority := fun x hx => (h.majority x hx).mono hsub }
  · show g.owner (Function.update w.sentinel v s' u).runid = u
    by_cases huv : u = v
    · rw [huv, hself]
      exact hs.runid
    · rw [hother u huv]
      exact h.runid u hu
  · by_cases huv : u = v
    · subst huv
      have hm₁ : s'.masters name = some m' := by rw [← hself]; exact hm'
      obtain ⟨m, hm, hrevotes, hknows, hothers⟩ := hs.master name m' hm₁
      refine ⟨hknows, fun leader hleader => ?_, fun ri hri leader hl => hsub _ (hothers ri hri leader hl)⟩
      by_cases hsame : m'.leader_epoch = m.leader_epoch
      · rcases hrevotes with ⟨-, heq | hnone⟩ | ⟨hlt, -⟩
        · rw [hsame]
          exact hsub _ ((h.holds u hu name m hm).own leader (heq.symm.trans hleader))
        · rw [hnone] at hleader
          cases hleader
        · exact absurd hsame hlt.ne'
      · exact List.mem_append_right _ ((hnew _).mpr ⟨rfl, m, m', hm, hm₁, hsame, rfl, hleader⟩)
    · have hm₁ : (w.sentinel u).masters name = some m' := by rw [← hother u huv]; exact hm'
      exact (h.holds u hu name m' hm₁).mono hsub
  · rcases List.mem_append.mp ha with ha | ha
    · by_cases huv : a.voter = v
      · have hm₁ : (Function.update w.sentinel v s' a.voter).masters a.master = some m' := hm'
        rw [huv, hself] at hm₁
        obtain ⟨m, hm, hrevotes, -⟩ := hs.master _ m' hm₁
        rw [← huv] at hm
        exact (h.epochs a ha m hm).trans hrevotes.le
      · refine h.epochs a ha m' ?_
        rw [← hother _ huv]
        exact hm'
    · obtain ⟨hav, m, m₁, -, hm₁, -, hepoch, -⟩ := (hnew a).mp ha
      have hm₂ : (Function.update w.sentinel v s' a.voter).masters a.master = some m' := hm'
      rw [hav, hself] at hm₂
      rw [hm₁, Option.some.injEq] at hm₂
      rw [hepoch, hm₂]
  · rcases List.mem_append.mp ha with ha | ha
    · rcases List.mem_append.mp hb with hb | hb
      · exact h.unique a ha b hb hvoter hmaster hepoch
      · exact absurd hepoch (hgreater a ha b hb hvoter hmaster).ne
    · rcases List.mem_append.mp hb with hb | hb
      · exact absurd hepoch (hgreater b hb a ha hvoter.symm hmaster.symm).ne'
      · obtain ⟨-, _, m₁, -, hm₁, -, -, hla⟩ := (hnew a).mp ha
        obtain ⟨-, _, m₂, -, hm₂, -, -, hlb⟩ := (hnew b).mp hb
        rw [hmaster, hm₂, Option.some.injEq] at hm₁
        rw [hm₁, hla, Option.some.injEq] at hlb
        exact hlb

/-! ## One step of one Sentinel -/

theorem granted_grantsOf {v : Addr} {name : Bytes} {s s' : SentinelState}
    (hothers : ∀ other, other ≠ name → s'.masters other = s.masters other) :
    Granted v s s' (grantsOf v name s s') := by
  intro a
  have hfalse : ∀ m m', s.masters a.master = some m → s'.masters a.master = some m' → a.master ≠ name →
      m'.leader_epoch ≠ m.leader_epoch → False := fun m m' hm hm' hne hepoch => by
    rw [hothers _ hne, hm, Option.some.injEq] at hm'
    exact hepoch (by rw [hm'])
  unfold grantsOf
  constructor
  · intro ha
    split at ha
    · rename_i m m' hm hm'
      split at ha
      · exact absurd ha List.not_mem_nil
      · split at ha
        · rename_i hepoch _ leader hleader
          rw [List.mem_singleton] at ha
          subst ha
          exact ⟨rfl, m, m', hm, hm', hepoch, rfl, hleader⟩
        · exact absurd ha List.not_mem_nil
    · exact absurd ha List.not_mem_nil
  · rintro ⟨hv, m, m', hm, hm', hepoch, ha, hleader⟩
    by_cases hname : a.master = name
    · subst hname
      rw [hm, hm']
      simp only [if_neg hepoch, hleader, List.mem_singleton]
      cases a
      simp only at hv ha
      rw [hv, ha]
    · exact (hfalse m m' hm hm' hname hepoch).elim

theorem at_ok {w w' : World} {v : Addr} {name : Bytes} {r : Except Fault SentinelState}
    (h : w.at v name r = .ok w') :
    ∃ s', r = .ok s' ∧ w' = { w with
      sentinel := Function.update w.sentinel v s'
      grants := w.grants ++ grantsOf v name (w.sentinel v) s' } := by
  obtain ⟨s', hs', rfl⟩ := map_ok h
  exact ⟨s', hs', rfl⟩

theorem WorldInv.votesAt {g : Group} {w : World} (h : WorldInv g w) {v : Addr} (hv : v ∈ g.members)
    {name : Bytes} {s' : SentinelState} (hs : VotesAt name (w.sentinel v) s') :
    Becomes g w.grants v (w.sentinel v) s' := by
  refine ⟨by rw [hs.runid]; exact h.runid v hv, fun other m' hm' => ?_⟩
  by_cases hname : other = name
  · subst hname
    obtain ⟨m, hm, hvotes⟩ := hs.master m' hm'
    have hholds := h.holds v hv other m hm
    refine ⟨m, hm, hvotes.vote, ⟨?_, ?_, ?_⟩, ?_⟩
    · rw [hvotes.sentinels]
      exact hholds.knows.others
    · rw [hvotes.sentinels]
      exact hholds.knows.names
    · rw [hvotes.sentinels]
      exact hholds.knows.runids
    · rw [hvotes.sentinels]
      exact hholds.others
  · rw [hs.others other hname] at hm'
    have hholds := h.holds v hv other m' hm'
    exact ⟨m', hm', (SameVotes.refl m').votes.vote, hholds.knows, hholds.others⟩

theorem WorldInv.knowsAt {g : Group} {w : World} (h : WorldInv g w) {v : Addr} (hv : v ∈ g.members)
    {name : Bytes} {f : Master → Except Fault (Nat × Master)} {s' : SentinelState}
    (hs : onMaster (w.sentinel v) name f = .ok s')
    (hf : ∀ m r, Holds g w.grants v name m → f m = .ok r → Revotes m r.2 ∧ Knows g v r.2 ∧
      ∀ ri ∈ r.2.sentinels, Reported w.grants name ri) :
    Becomes g w.grants v (w.sentinel v) s' ∧
      ∀ other, other ≠ name → s'.masters other = (w.sentinel v).masters other := by
  rcases onMaster_cases hs with ⟨-, rfl⟩ | ⟨m, r, hm, hr, rfl⟩
  · exact ⟨h.votesAt hv (.same name rfl rfl), fun _ _ => rfl⟩
  · refine ⟨⟨h.runid v hv, fun other m' hm' => ?_⟩, fun other hne => setMaster_of_ne _ hne _⟩
    by_cases hname : other = name
    · subst hname
      rw [setMaster_self, Option.some.injEq] at hm'
      subst hm'
      exact ⟨m, hm, hf m r (h.holds v hv other m hm) hr⟩
    · rw [setMaster_of_ne _ hname] at hm'
      have hholds := h.holds v hv other m' hm'
      exact ⟨m', hm', (SameVotes.refl m').votes.vote, hholds.knows, hholds.others⟩

theorem Knows.map {g : Group} {v : Addr} {m m' : Master} (h : Knows g v m)
    {f : OtherSentinel → OtherSentinel} (hm' : m'.sentinels = m.sentinels.map f)
    (hf : ∀ ri, (f ri).addr = ri.addr ∧ (f ri).name = ri.name ∧ (f ri).runid = ri.runid) :
    Knows g v m' where
  others := by
    rw [hm', List.map_map]
    have hcomp : OtherSentinel.addr ∘ f = OtherSentinel.addr := funext fun ri => (hf ri).1
    rw [hcomp]
    exact h.others
  names ri hri := by
    rw [hm'] at hri
    obtain ⟨ri', hri', rfl⟩ := List.mem_map.mp hri
    rw [(hf ri').2.1, (hf ri').1]
    exact h.names ri' hri'
  runids ri hri runid hr := by
    rw [hm'] at hri
    obtain ⟨ri', hri', rfl⟩ := List.mem_map.mp hri
    rw [(hf ri').2.2] at hr
    rw [(hf ri').1]
    exact h.runids ri' hri' runid hr

/-! ## Hello messages -/

theorem helloConfig_sameVotes {o : Outside} {h : Hello} {sender : Bool} {m m' : Master}
    (hm' : helloConfig o h sender m = .ok m') : SameVotes m m' := by
  unfold helloConfig at hm'
  split at hm'
  · dsimp only at hm'
    split at hm'
    · rw [← Except.ok.inj hm']
      exact ⟨rfl, rfl, .inl rfl⟩
    · split at hm'
      · cases hm'
      · rw [← Except.ok.inj hm']
        have hchange := changeAddress_sameVotes o h.master_ip h.master_port
          { m with config_epoch := h.master_config_epoch }
        exact ⟨hchange.sentinels, hchange.leader_epoch, hchange.leader⟩
  · rw [← Except.ok.inj hm']
    exact .refl m

theorem helloSender_holds {g : Group} {o : Outside} (ho : SoundOutside g o) {grants : List Grant} {v : Addr}
    {name : Bytes} {m : Master} (hm : Holds g grants v name m) {h : Hello}
    (hmember : (⟨h.ip, h.port⟩ : Addr) ∈ g.members) (howner : g.owner h.runid = ⟨h.ip, h.port⟩)
    (hother : (⟨h.ip, h.port⟩ : Addr) ≠ v) :
    ((helloSender o h m).2.leader_epoch = m.leader_epoch ∧ (helloSender o h m).2.leader = m.leader) ∧
      Knows g v (helloSender o h m).2 ∧
      ∀ ri ∈ (helloSender o h m).2.sentinels, Reported grants name ri := by
  unfold helloSender
  extract_lets addr sentinels
  split
  · exact ⟨⟨rfl, rfl⟩, hm.knows, hm.others⟩
  · have hports := g.ports addr hmember
    have hcreate : createSentinelAddr o h.ip h.port = some addr := by
      unfold createSentinelAddr
      have hport : ¬(h.port ≤ 0 ∨ 65535 < h.port) := by
        have h0 : 0 < h.port := hports.1
        have h1 : h.port ≤ 65535 := hports.2
        omega
      rw [if_neg hport, ho.1 addr hmember]
      rfl
    -- the run id and the address are of the same Sentinel
    have hremoved : ∀ ri ∈ m.sentinels, (ri.runid = some h.runid ∨ ri.addr = addr) ↔ ri.addr = addr := by
      refine fun ri hri => ⟨fun hor => hor.elim (fun hr => ?_) id, .inr⟩
      rw [← hm.knows.runids ri hri _ hr, howner]
    have hfilter : sentinels = m.sentinels.filter fun ri => ¬ ri.addr = addr := by
      refine List.filter_congr fun ri hri => ?_
      rw [decide_eq_decide, hremoved ri hri]
    have hnot : (sentinels.any fun ri => decide (ri.name = addr)) = false := by
      rw [List.any_eq_false, hfilter]
      intro ri hri hname
      obtain ⟨hri, hne⟩ := List.mem_filter.mp hri
      rw [decide_eq_true_eq, hm.knows.names ri hri] at hname
      exact of_decide_eq_true hne hname
    have hsub : ∀ ri ∈ sentinels, ri ∈ m.sentinels := fun ri hri => (List.mem_filter.mp hri).1
    rw [hcreate]
    simp only [hnot, Bool.false_eq_true, if_false]
    refine ⟨⟨trivial, trivial⟩, ⟨?_, fun ri hri => ?_, fun ri hri runid hr => ?_⟩, fun ri hri leader hleader => ?_⟩
    · -- all but the sender, and the sender
      have hrest : (sentinels.map OtherSentinel.addr).Perm ((g.members.erase v).erase addr) := by
        have hnodup : (m.sentinels.map OtherSentinel.addr).Nodup :=
          hm.knows.others.nodup_iff.mpr (g.nodup.erase v)
        have herase : sentinels.map OtherSentinel.addr = (m.sentinels.map OtherSentinel.addr).erase addr := by
          rw [hnodup.erase_eq_filter, hfilter, List.filter_map]
          refine congrArg _ (List.filter_congr fun ri _ => ?_)
          show decide (¬ ri.addr = addr) = !decide (ri.addr = addr)
          exact decide_not
        rw [herase]
        exact hm.knows.others.erase addr
      have hin : addr ∈ g.members.erase v := (List.mem_erase_of_ne hother).mpr hmember
      rw [List.map_append]
      exact (List.perm_append_comm.trans (List.Perm.cons addr hrest)).trans
        (List.perm_cons_erase hin).symm
    · rcases List.mem_append.mp hri with hri | hri
      · exact hm.knows.names ri (hsub ri hri)
      · rw [List.mem_singleton.mp hri]
    · rcases List.mem_append.mp hri with hri | hri
      · exact hm.knows.runids ri (hsub ri hri) runid hr
      · rw [List.mem_singleton.mp hri] at hr ⊢
        rw [← Option.some.inj hr, howner]
    · rcases List.mem_append.mp hri with hri | hri
      · exact hm.others ri (hsub ri hri) leader hleader
      · rw [List.mem_singleton.mp hri] at hleader
        cases hleader

theorem processHello_eq (o : Outside) (h : Hello) (s : SentinelState) :
    sentinelProcessHelloMessage o h s = onMaster s h.master_name fun m =>
      (helloConfig o h (helloSender o h m).1 (helloSender o h m).2).map fun m =>
        (max s.current_epoch h.current_epoch, m) := by
  unfold sentinelProcessHelloMessage onMaster
  cases s.masters h.master_name with
  | none => rfl
  | some m =>
    simp only [bind, Except.bind, pure, Except.pure]
    cases helloConfig o h (helloSender o h m).1 (helloSender o h m).2 with
    | error fault => rfl
    | ok m' => rfl

/-! ## The count and the majority -/

theorem voteCount_le_voters {g : Group} {w : World} {v : Addr} (hv : v ∈ g.members) {name : Bytes} {m : Master}
    (hm : Holds g w.grants v name m) (epoch : Nat) (runid : Bytes) :
    voteCount epoch epoch m.sentinels m runid ≤ (votersFor g w name epoch runid).length := by
  unfold votersFor voteCount votesFor
  rw [← List.countP_eq_length_filter, (List.perm_cons_erase hv).countP_eq, List.countP_cons,
    ← hm.knows.others.countP_eq, List.countP_map]
  refine Nat.add_le_add (List.countP_mono_left fun ri hri hvote => ?_) ?_
  · obtain ⟨hleader, hepoch⟩ := of_decide_eq_true hvote
    refine decide_eq_true ?_
    rw [← hepoch]
    exact hm.others ri hri runid hleader
  · split
    · rename_i hvote
      have hgrant := hm.own runid hvote.1
      rw [hvote.2] at hgrant
      rw [if_pos (decide_eq_true hgrant)]
    · exact Nat.zero_le _

theorem WorldInv.elect {g : Group} {w : World} (h : WorldInv g w) {xs : List Elected}
    (hxs : ∀ x ∈ xs, HasMajority g w x) : WorldInv g { w with elected := w.elected ++ xs } :=
  { h with
    majority := fun x hx => by
      rcases List.mem_append.mp hx with hx | hx
      · exact h.majority x hx
      · exact hxs x hx }

theorem own_inv {g : Group} {w w' : World} {o : Outside} {v : Addr} {e : Event} (h : WorldInv g w)
    (ho : SoundOutside g o) (hpossible : PossibleAct g w o (.own v e)) (hfine : (Act.own v e).Fine w o)
    (hact : act w o (.own v e) = .ok w') : WorldInv g w' := by
  obtain ⟨hv, hown, -⟩ := hpossible
  obtain ⟨w₁, hat, rfl⟩ := map_ok hact
  obtain ⟨s', hstep, rfl⟩ := at_ok hat
  have hvotesAt := own_votesAt hown hstep
  have hinv := h.becomes hv (h.votesAt hv hvotesAt) (granted_grantsOf hvotesAt.others)
  refine hinv.elect fun x hx => ?_
  obtain ⟨s_down, o_down, m, m', r, rfl, hm, hm', rfl, hlooks, -, hepoch, hsentinels, hmajority, hquorum⟩ :=
    elected_votes ho.2 hstep hx
  -- the leader was looked up in the epoch of the failover
  have hsame : (atStateMachine o s_down o_down (w.sentinel v) m).1 = x.epoch :=
    (hfine m hm hlooks).trans hepoch.symm
  have hknows := (h.holds v hv x.master m hm).knows.others.length_eq
  rw [List.length_map, List.length_erase_of_mem hv] at hknows
  have hpos := List.length_pos_of_mem hv
  have hself : (Function.update w.sentinel v s' v).masters x.master = some m' := by
    rw [Function.update_self]
    exact hm'
  have hle := voteCount_le_voters hv (hinv.holds v hv x.master m' hself) x.epoch x.runid
  rw [hsentinels] at hle
  rw [hsame] at hmajority hquorum
  refine ⟨Nat.le_trans (Nat.le_of_eq ?_) (Nat.le_trans hmajority hle), Nat.le_trans hquorum hle⟩
  have hlength : m.sentinels.length + 1 = g.members.length := by omega
  rw [hlength]

/-! ## One step of the world -/

theorem WorldInv.at {g : Group} {w : World} (h : WorldInv g w) {v : Addr} (hv : v ∈ g.members) {name : Bytes}
    {s' : SentinelState} (hs : Becomes g w.grants v (w.sentinel v) s' ∧
      ∀ other, other ≠ name → s'.masters other = (w.sentinel v).masters other) :
    WorldInv g { w with
      sentinel := Function.update w.sentinel v s'
      grants := w.grants ++ grantsOf v name (w.sentinel v) s' } :=
  h.becomes hv hs.1 (granted_grantsOf hs.2)

theorem answer_inv {g : Group} {w w' : World} {o : Outside} {r : Request} {found : Option Bytes}
    (h : WorldInv g w) (hr : r ∈ w.requests) (hfine : ∀ name, found = some name → name = r.master)
    (hact : answer w o r found = .ok w') : WorldInv g w' := by
  obtain ⟨hsender, hreceiver⟩ := h.requests r hr
  have hless : WorldInv g { w with requests := w.requests.erase r } :=
    h.messages rfl rfl rfl (fun x hx => .inl (List.mem_of_mem_erase hx)) (fun _ hx => .inl hx)
      fun _ hx => .inl hx
  -- a reply without a vote
  have hnone : WorldInv g { w with
      requests := w.requests.erase r
      replies := w.replies ++ [
        { sender := r.receiver
          receiver := r.sender
          master := r.master
          leader := none
          leader_epoch := 0 }] } := by
    refine hless.messages rfl rfl rfl (fun _ hx => .inl hx) (fun x hx => ?_) fun _ hx => .inl hx
    rcases List.mem_append.mp hx with hx | hx
    · exact .inl hx
    · rw [List.mem_singleton.mp hx]
      exact .inr ⟨hsender, fun leader hl => by cases hl⟩
  unfold answer at hact
  dsimp only at hact
  split at hact
  · rw [← Except.ok.inj hact]
    exact hless
  · split at hact
    · rename_i name req_runid hrunid
      obtain ⟨w₁, hat, hact⟩ := bind_ok hact
      obtain ⟨s', hstep, rfl⟩ := at_ok hat
      rw [← Except.ok.inj hact]
      have hvotes : VotesAt name (w.sentinel r.receiver) s' := by
        refine onMaster_votesAt (fun m r' hr' => ?_) hstep
        rw [← Except.ok.inj hr']
        exact vote_votes o _ _ m _ _
      have hinv := hless.at hreceiver ⟨hless.votesAt hreceiver hvotes, hvotes.others⟩
      refine hinv.messages rfl rfl rfl (fun _ hx => .inl hx) (fun x hx => ?_) fun _ hx => .inl hx
      rcases List.mem_append.mp hx with hx | hx
      · exact .inl hx
      · rw [List.mem_singleton.mp hx]
        refine .inr ⟨hsender, fun leader hleader => ?_⟩
        obtain ⟨m, hm, hmine⟩ := Option.bind_eq_some_iff.mp hleader
        have hown := (hinv.holds r.receiver hreceiver name m hm).own leader hmine
        rw [hfine name rfl] at hown hm
        rw [hfine name rfl, hm]
        exact hown
    · rw [← Except.ok.inj hact]
      exact hnone

theorem receiveReply_inv {g : Group} {w w' : World} {o : Outside} {r : Reply} (h : WorldInv g w)
    (hr : r ∈ w.replies) (hact : receiveReply w o r = .ok w') : WorldInv g w' := by
  obtain ⟨hreceiver, hvote⟩ := h.replies r hr
  have hless : WorldInv g { w with replies := w.replies.erase r } :=
    h.messages rfl rfl rfl (fun _ hx => .inl hx) (fun x hx => .inl (List.mem_of_mem_erase hx))
      fun _ hx => .inl hx
  unfold receiveReply at hact
  dsimp only at hact
  split at hact
  · rw [← Except.ok.inj hact]
    exact hless
  · rename_i leader hleader
    obtain ⟨s', hstep, rfl⟩ := at_ok hact
    refine hless.at hreceiver (hless.knowsAt hreceiver hstep fun m r' hm hr' => ?_)
    rw [← Except.ok.inj hr']
    refine ⟨(SameVotes.refl m).votes.vote, hm.knows.map rfl fun ri => ?_, fun ri hri l hl => ?_⟩
    · split
      · exact ⟨rfl, rfl, rfl⟩
      · exact ⟨rfl, rfl, rfl⟩
    · obtain ⟨ri', hri', rfl⟩ := List.mem_map.mp hri
      by_cases hname : ri'.name = r.sender
      · rw [if_pos hname] at hl ⊢
        have haddr : ri'.addr = r.sender := (hm.knows.names ri' hri').symm.trans hname
        rw [haddr]
        exact hvote l (hleader.trans hl)
      · rw [if_neg hname] at hl ⊢
        exact hm.others ri' hri' l hl

theorem forget_inv {g : Group} {w w' : World} {v : Addr} {name : Bytes} {sender : Addr} (h : WorldInv g w)
    (hv : v ∈ g.members) (hact : w.at v name (forgetVote (w.sentinel v) name sender) = .ok w') :
    WorldInv g w' := by
  obtain ⟨s', hstep, rfl⟩ := at_ok hact
  refine h.at hv (h.knowsAt hv hstep fun m r' hm hr' => ?_)
  rw [← Except.ok.inj hr']
  refine ⟨(SameVotes.refl m).votes.vote, hm.knows.map rfl fun ri => ?_, fun ri hri l hl => ?_⟩
  · split
    · exact ⟨rfl, rfl, rfl⟩
    · exact ⟨rfl, rfl, rfl⟩
  · obtain ⟨ri', hri', rfl⟩ := List.mem_map.mp hri
    split at hl
    · cases hl
    · rename_i hname
      rw [if_neg hname]
      exact hm.others ri' hri' l hl

theorem hear_inv {g : Group} {w w' : World} {o : Outside} {v : Addr} {hello : Hello} (h : WorldInv g w)
    (ho : SoundOutside g o) (hv : v ∈ g.members) (hhello : hello ∈ w.hellos)
    (hother : (⟨hello.ip, hello.port⟩ : Addr) ≠ v)
    (hact : w.at v hello.master_name (step o (w.sentinel v) (.hello hello)) = .ok w') : WorldInv g w' := by
  obtain ⟨hmember, howner⟩ := h.hellos hello hhello
  obtain ⟨s', hstep, rfl⟩ := at_ok hact
  have hstep' : sentinelProcessHelloMessage o hello (w.sentinel v) = .ok s' := hstep
  rw [processHello_eq] at hstep'
  refine h.at hv (h.knowsAt hv hstep' fun m r' hm hr' => ?_)
  obtain ⟨m', hm', rfl⟩ := map_ok hr'
  obtain ⟨⟨hepoch, hleader⟩, hknows, hothers⟩ := helloSender_holds ho hm hmember howner hother
  have hsame := helloConfig_sameVotes hm'
  refine ⟨.inl ⟨hsame.leader_epoch.trans hepoch, ?_⟩, ⟨?_, ?_, ?_⟩, ?_⟩
  · rw [← hleader]
    exact hsame.leader
  · rw [hsame.sentinels]
    exact hknows.others
  · rw [hsame.sentinels]
    exact hknows.names
  · rw [hsame.sentinels]
    exact hknows.runids
  · rw [hsame.sentinels]
    exact hothers

theorem restart_inv {g : Group} {w : World} {v : Addr} {s' : SentinelState} (h : WorldInv g w)
    (hv : v ∈ g.members) (hs : Restored g v (w.sentinel v) s') :
    WorldInv g { w with sentinel := Function.update w.sentinel v s' } := by
  have hbecomes : Becomes g w.grants v (w.sentinel v) s' := by
    refine ⟨hs.runid, fun name m' hm' => ?_⟩
    have hsome : ((w.sentinel v).masters name).isSome = true := by
      rw [← hs.masters name, hm']
      rfl
    obtain ⟨m, hm⟩ := Option.isSome_iff_exists.mp hsome
    obtain ⟨hepoch, hleader⟩ := hs.epoch name m m' hm hm'
    obtain ⟨hknows, hnone⟩ := hs.knows name m' hm'
    refine ⟨m, hm, .inl ⟨hepoch, .inr hleader⟩, hknows, fun ri hri leader hl => ?_⟩
    rw [hnone ri hri] at hl
    cases hl
  have hgranted : Granted v (w.sentinel v) s' [] := by
    refine fun a => ⟨fun ha => absurd ha List.not_mem_nil, ?_⟩
    rintro ⟨-, m, m', hm, hm', hne, -⟩
    exact absurd (hs.epoch _ m m' hm hm').1 hne
  have hinv := h.becomes hv hbecomes hgranted
  rw [List.append_nil] at hinv
  exact hinv

theorem act_inv {g : Group} {w w' : World} {o : Outside} {a : Act} (h : WorldInv g w) (ho : SoundOutside g o)
    (hpossible : PossibleAct g w o a) (hfine : a.Fine w o) (hact : act w o a = .ok w') : WorldInv g w' := by
  cases a with
  | own v e => exact own_inv h ho hpossible hfine hact
  | ask v name receiver =>
    obtain ⟨hv, hreceiver, -⟩ := hpossible
    simp only [act] at hact
    split at hact
    · rw [← Except.ok.inj hact]
      exact h
    · split at hact
      · rw [← Except.ok.inj hact]
        exact h
      · rw [← Except.ok.inj hact]
        refine h.messages rfl rfl rfl (fun r hr => ?_) (fun _ hr => .inl hr) fun _ hx => .inl hx
        rcases List.mem_append.mp hr with hr | hr
        · exact .inl hr
        · rw [List.mem_singleton.mp hr]
          exact .inr ⟨hv, hreceiver⟩
  | request r found => exact answer_inv h hpossible.1 hfine hact
  | reply r => exact receiveReply_inv h hpossible hact
  | forget v name sender => exact forget_inv h hpossible hact
  | publish v name =>
    simp only [act] at hact
    split at hact
    · rw [← Except.ok.inj hact]
      exact h
    · rw [← Except.ok.inj hact]
      refine h.messages rfl rfl rfl (fun _ hr => .inl hr) (fun _ hr => .inl hr) fun x hx => ?_
      rcases List.mem_append.mp hx with hx | hx
      · exact .inl hx
      · rw [List.mem_singleton.mp hx]
        exact .inr ⟨hpossible, h.runid v hpossible⟩
  | hear v hello => exact hear_inv h ho hpossible.1 hpossible.2.1 hpossible.2.2 hact
  | restart v s =>
    obtain ⟨hv, hs⟩ := hpossible
    rw [← Except.ok.inj hact]
    exact (restart_inv h hv hs).messages rfl rfl rfl (fun r hr => .inl (List.mem_filter.mp hr).1)
      (fun r hr => .inl (List.mem_filter.mp hr).1) fun _ hx => .inl hx

/-! ## A run -/

theorem actRun_inv {g : Group} {acts : List (Outside × Act)} {w w' : World} (h : WorldInv g w)
    (hpossible : PossibleActs g w acts) (hfine : FineActs w acts) (hrun : actRun w acts = .ok w') :
    WorldInv g w' := by
  induction acts generalizing w with
  | nil =>
    rw [← Except.ok.inj hrun]
    exact h
  | cons a acts ih =>
    obtain ⟨o, a⟩ := a
    obtain ⟨w₁, hact, hrun⟩ := bind_ok hrun
    obtain ⟨ho, hpossible, hpossibles⟩ := hpossible
    exact ih (act_inv h ho hpossible hfine.1 hact) (hpossibles w₁ hact) (hfine.2 w₁ hact) hrun

theorem begins_inv {g : Group} {w : World} (h : Begins g w) : WorldInv g w where
  runid := h.runid
  holds v hv name m hm := by
    obtain ⟨hknows, hleader, hothers⟩ := h.knows v hv name m hm
    refine ⟨hknows, fun leader hl => ?_, fun ri hri leader hl => ?_⟩
    · rw [hleader] at hl
      cases hl
    · rw [hothers ri hri] at hl
      cases hl
  epochs a ha := by
    rw [h.grants] at ha
    exact absurd ha List.not_mem_nil
  unique a ha := by
    rw [h.grants] at ha
    exact absurd ha List.not_mem_nil
  requests r hr := by
    rw [h.requests] at hr
    exact absurd hr List.not_mem_nil
  replies r hr := by
    rw [h.replies] at hr
    exact absurd hr List.not_mem_nil
  hellos x hx := by
    rw [h.hellos] at hx
    exact absurd hx List.not_mem_nil
  majority x hx := by
    rw [h.elected] at hx
    exact absurd hx List.not_mem_nil

theorem WorldInv.safe {g : Group} {w : World} (h : WorldInv g w) : ElectionSafe g w where
  majority := h.majority
  one_vote := h.unique
  one_leader x hx y hy hmaster hepoch := by
    obtain ⟨v, -, hvx, hvy⟩ := exists_of_majorities (h.majority x hx).1 (h.majority y hy).1
    exact h.unique _ (of_decide_eq_true hvx) _ (of_decide_eq_true hvy) rfl hmaster hepoch

/-- In every run of Sentinels that look up a leader only in the epoch of its failover, and answer each request
for the master that it is about, a leader has a majority of votes for that epoch and is the only one. -/
theorem election_safe {g : Group} {w w' : World} {acts : List (Outside × Act)} (hbegins : Begins g w)
    (hpossible : PossibleActs g w acts) (hfine : FineActs w acts) (hrun : actRun w acts = .ok w') :
    ElectionSafe g w' :=
  (actRun_inv (begins_inv hbegins) hpossible hfine hrun).safe

/-! ## Three Sentinels and two masters -/

def sentinelAddr (port : Int) : Addr := { ip := ascii "127.0.0.1", port := port }

def threeGroup : Group where
  members := [sentinelAddr 26379, sentinelAddr 26380, sentinelAddr 26381]
  owner runid :=
    if runid = ascii "a" then sentinelAddr 26379
    else if runid = ascii "b" then sentinelAddr 26380
    else sentinelAddr 26381
  nodup := by decide
  ports := by decide

def lateOutside : Outside :=
  { now := 400000
    desync := 0
    order := id
    selected := none
    sends := fun _ => true
    resolve := some }

def entry (port : Int) : OtherSentinel :=
  { name := sentinelAddr port
    addr := sentinelAddr port
    runid := none
    leader := none
    leader_epoch := 0
    last_master_down_reply_time := 0 }

def monitored (port : Int) (others : List Int) : Option Master :=
  (createMaster lateOutside (ascii "127.0.0.1") port 2).map fun m => { m with sentinels := others.map entry }

def member (runid : Bytes) (others : List Int) : SentinelState :=
  { runid := runid
    current_epoch := 0
    tilt := false
    masters := fun name =>
      if name = ascii "m" then monitored 6379 others
      else if name = ascii "n" then monitored 6390 others
      else none }

def threeSentinels : World :=
  { sentinel := fun v =>
      if v.port = 26379 then member (ascii "a") [26380, 26381]
      else if v.port = 26380 then member (ascii "b") [26379, 26381]
      else member (ascii "c") [26379, 26380]
    requests := []
    replies := []
    hellos := []
    grants := []
    elected := [] }

def ballot (v : Int) (epoch : Nat) (runid : Bytes) : List (Outside × Act) :=
  [.ask (sentinelAddr v) (ascii "m") (sentinelAddr 26381),
    .request
      { sender := sentinelAddr v
        receiver := sentinelAddr 26381
        master := ascii "m"
        addr := sentinelAddr 6379
        req_epoch := epoch
        req_runid := some runid }
      (some (ascii "m")),
    .reply
      { sender := sentinelAddr 26381
        receiver := sentinelAddr v
        master := ascii "m"
        leader := some runid
        leader_epoch := epoch },
    .own (sentinelAddr v) (.timer (ascii "m") true true)].map fun a => (lateOutside, a)

def timeout (v : Int) (name : Bytes) : Outside × Act :=
  (lateOutside, .own (sentinelAddr v) (.timer name true true))

def firstElection : List (Outside × Act) :=
  [timeout 26379 (ascii "m"), timeout 26380 (ascii "m")] ++ ballot 26380 1 (ascii "b")

def secondElection : List (Outside × Act) := [timeout 26379 (ascii "n")] ++ ballot 26379 2 (ascii "a")

theorem member_knows {v : Addr} {runid : Bytes} {others : List Int}
    (hothers : (others.map sentinelAddr).Perm (threeGroup.members.erase v)) {name : Bytes} {m : Master}
    (h : (member runid others).masters name = some m) :
    Knows threeGroup v m ∧ m.leader = none ∧ ∀ ri ∈ m.sentinels, ri.leader = none := by
  have hentries : m.sentinels = others.map entry ∧ m.leader = none := by
    have hmonitored : monitored 6379 others = some m ∨ monitored 6390 others = some m := by
      unfold member at h
      simp only at h
      split at h
      · exact .inl h
      · split at h
        · exact .inr h
        · cases h
    rcases hmonitored with hm | hm
    · cases hm
      exact ⟨rfl, rfl⟩
    · cases hm
      exact ⟨rfl, rfl⟩
  have hentry : ∀ ri ∈ m.sentinels, ∃ port, ri = entry port := fun ri hri => by
    rw [hentries.1] at hri
    obtain ⟨port, -, rfl⟩ := List.mem_map.mp hri
    exact ⟨port, rfl⟩
  refine ⟨⟨?_, fun ri hri => ?_, fun ri hri runid hr => ?_⟩, hentries.2, fun ri hri => ?_⟩
  · rw [hentries.1, List.map_map]
    exact hothers
  · obtain ⟨port, rfl⟩ := hentry ri hri
    rfl
  · obtain ⟨port, rfl⟩ := hentry ri hri
    cases hr
  · obtain ⟨port, rfl⟩ := hentry ri hri
    rfl

theorem threeSentinels_begins : Begins threeGroup threeSentinels where
  requests := rfl
  replies := rfl
  hellos := rfl
  grants := rfl
  elected := rfl
  runid := by decide
  knows := by
    intro v hv name m hm
    rcases List.mem_cons.mp hv with rfl | hv
    · exact member_knows (by decide) hm
    · rcases List.mem_cons.mp hv with rfl | hv
      · exact member_knows (by decide) hm
      · rw [List.mem_singleton.mp hv] at hm ⊢
        exact member_knows (by decide) hm

theorem lateOutside_sound : SoundOutside threeGroup lateOutside := ⟨fun _ _ => rfl, fun _ => List.Perm.refl _⟩

theorem possible_elections : PossibleActs threeGroup threeSentinels (firstElection ++ secondElection) := by
  refine ⟨lateOutside_sound, ⟨by decide, rfl, fun m hm => ?_⟩, fun w₁ h₁ => ?_⟩
  · cases hm
    exact selects_none rfl
  cases h₁
  refine ⟨lateOutside_sound, ⟨by decide, rfl, fun m hm => ?_⟩, fun w₂ h₂ => ?_⟩
  · cases hm
    exact selects_none rfl
  cases h₂
  refine ⟨lateOutside_sound, ⟨by decide, by decide, by decide⟩, fun w₃ h₃ => ?_⟩
  cases h₃
  refine ⟨lateOutside_sound, ⟨by decide, _, rfl, rfl⟩, fun w₄ h₄ => ?_⟩
  cases h₄
  refine ⟨lateOutside_sound, List.mem_cons_self, fun w₅ h₅ => ?_⟩
  cases h₅
  refine ⟨lateOutside_sound, ⟨by decide, rfl, fun m hm => ?_⟩, fun w₆ h₆ => ?_⟩
  · cases hm
    exact selects_none rfl
  cases h₆
  refine ⟨lateOutside_sound, ⟨by decide, rfl, fun m hm => ?_⟩, fun w₇ h₇ => ?_⟩
  · cases hm
    exact selects_none rfl
  cases h₇
  refine ⟨lateOutside_sound, ⟨by decide, by decide, by decide⟩, fun w₈ h₈ => ?_⟩
  cases h₈
  refine ⟨lateOutside_sound, ⟨by decide, _, rfl, rfl⟩, fun w₉ h₉ => ?_⟩
  cases h₉
  refine ⟨lateOutside_sound, List.mem_cons_self, fun w₁₀ h₁₀ => ?_⟩
  cases h₁₀
  refine ⟨lateOutside_sound, ⟨by decide, rfl, fun m hm => ?_⟩, fun _ _ => trivial⟩
  cases hm
  exact selects_none rfl

theorem possibleActs_left {g : Group} {w : World} {as bs : List (Outside × Act)}
    (h : PossibleActs g w (as ++ bs)) : PossibleActs g w as := by
  induction as generalizing w with
  | nil => exact trivial
  | cons a as ih =>
    obtain ⟨o, a⟩ := a
    exact ⟨h.1, h.2.1, fun w' hw' => ih (h.2.2 w' hw')⟩

theorem fine_firstElection : FineActs threeSentinels firstElection := by
  refine ⟨fun m hm _ => ?_, fun w₁ h₁ => ?_⟩
  · cases hm
    rfl
  cases h₁
  refine ⟨fun m hm _ => ?_, fun w₂ h₂ => ?_⟩
  · cases hm
    rfl
  cases h₂
  refine ⟨trivial, fun w₃ h₃ => ?_⟩
  cases h₃
  refine ⟨fun name hname => (Option.some.inj hname).symm, fun w₄ h₄ => ?_⟩
  cases h₄
  refine ⟨trivial, fun w₅ h₅ => ?_⟩
  cases h₅
  refine ⟨fun m hm _ => ?_, fun _ _ => trivial⟩
  cases hm
  rfl

theorem election_safe_first :
    ∃ w, actRun threeSentinels firstElection = .ok w ∧ w.elected ≠ [] ∧ ElectionSafe threeGroup w :=
  ⟨_, rfl, by decide, election_safe threeSentinels_begins (possibleActs_left possible_elections)
    fine_firstElection rfl⟩

/-- The vote for epoch 2 and the own vote for epoch 1 make a second leader in epoch 1. -/
theorem two_leaders :
    Begins threeGroup threeSentinels ∧
      PossibleActs threeGroup threeSentinels (firstElection ++ secondElection) ∧
      ∃ w, actRun threeSentinels (firstElection ++ secondElection) = .ok w ∧ ¬ ElectionSafe threeGroup w := by
  refine ⟨threeSentinels_begins, possible_elections, _, rfl, fun hsafe => ?_⟩
  have hsame := hsafe.one_leader ⟨sentinelAddr 26380, ascii "m", 1, ascii "b", 2⟩ (by decide)
    ⟨sentinelAddr 26379, ascii "m", 1, ascii "a", 2⟩ (by decide) rfl rfl
  exact absurd hsame (by decide)

end RedisCluster.Sentinel
