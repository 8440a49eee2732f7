import Mathlib.Data.List.TakeWhile
import RedisCluster.Cluster.BusFraming

/-!
# Proofs: the packets that `clusterReadHandler` hands over

A round never reads past the end of the packet at hand, so what is read is added to `rcvbuf` until the
packet is complete. That rests on the length of `rcvbuf` as an `int`.
-/

namespace RedisCluster.Framing

open RedisCluster.Lib RedisCluster.Util

variable {σ : Type} {clusterProcessPacket : σ → Bytes → Bool × σ} {packets : List Bytes} {link : Link σ} {k : Nat}

theorem sig_take {p : Bytes} {n : Nat} (h : 4 ≤ n) : sig (p.take n) = sig p := by
  rw [sig, sig, List.take_take, min_eq_left h]

theorem totlen_take {p : Bytes} {n : Nat} (h : 8 ≤ n) : totlen (p.take n) = totlen p := by
  have hfour : ∀ q : Bytes, (q.drop 4).take 4 = (q.take 8).drop 4 := fun q => by rw [List.drop_take]
  rw [totlen, totlen, hfour, hfour, List.take_take, min_eq_left h]

theorem totlen_lt (p : Bytes) : totlen p < 2 ^ 32 := by
  have hbytes := leNat_lt ((p.drop 4).take 4).reverse
  have hfour : ((p.drop 4).take 4).reverse.length ≤ 4 := by simp
  calc totlen p < 256 ^ ((p.drop 4).take 4).reverse.length := hbytes
    _ ≤ 256 ^ 4 := Nat.pow_le_pow_right (by decide) hfour
    _ = 2 ^ 32 := by decide

theorem WellFormed.length_lt {p : Bytes} (h : WellFormed p) : p.length < 2 ^ 32 := h.totlen ▸ totlen_lt p

theorem bodyLen_bounds {n len : Nat} (hn : n < 2 ^ 32) (hlen : len < n) :
    0 < bodyLen n len ∧ bodyLen n len ≤ n - len ∧ bodyLen n len ≤ sizeofClusterMsg := by
  have hsize : sizeofClusterMsg = 4304 := rfl
  have hdiff : (n : Int) - len = ((n - len : Nat) : Int) := by omega
  unfold bodyLen
  rw [hdiff]
  by_cases hint : n - len < 2 ^ 31
  · rw [narrowInt_of_lt hint]
    dsimp only
    split <;> omega
  · rw [narrowInt_of_ge (Nat.le_of_not_lt hint) (by omega)]
    dsimp only
    rw [if_pos (by omega)]
    omega

theorem Partial.current {p : Bytes} (h : Partial packets link k) (hp : packets[k]? = some p) :
    link.rcvbuf = p.take link.rcvbuf.length ∧
      link.inbox = p.drop link.rcvbuf.length ++ (packets.drop (k + 1)).flatten := by
  obtain ⟨hk, hget⟩ := List.getElem?_eq_some_iff.mp hp
  have hstream := h.stream
  have hlt := h.unfinished p hp
  rw [List.drop_eq_getElem_cons hk, hget, List.flatten_cons] at hstream
  have htake := congrArg (List.take link.rcvbuf.length) hstream
  have hdrop := congrArg (List.drop link.rcvbuf.length) hstream
  rw [List.take_left, List.take_append_of_le_length hlt.le] at htake
  rw [List.drop_left, List.drop_append_of_le_length hlt.le] at hdrop
  exact ⟨htake, hdrop⟩

theorem Partial.finished (h : Partial packets link k) (hk : packets[k]? = none) :
    link.rcvbuf = [] ∧ link.inbox = [] := by
  have hlen := List.getElem?_eq_none_iff.mp hk
  have hstream := h.stream
  rw [List.drop_eq_nil_of_le hlen] at hstream
  exact List.append_eq_nil_iff.mp hstream

variable (clusterProcessPacket) in
theorem readRound_eq (hwf : ∀ p ∈ packets, WellFormed p) (h : Partial packets link k)
    (hint : link.rcvbuf.length < 2 ^ 31) :
    ∃ m, 0 < m ∧ m ≤ sizeofClusterMsg ∧ (∀ p, packets[k]? = some p → m ≤ p.length - link.rcvbuf.length) ∧
      ∀ r, readRound clusterProcessPacket link r = readSome clusterProcessPacket link m r := by
  have hmin : CLUSTERMSG_MIN_LEN = 2208 := rfl
  have hsize : sizeofClusterMsg = 4304 := rfl
  by_cases hhead : link.rcvbuf.length < 8
  · refine ⟨8 - link.rcvbuf.length, by omega, by omega, ?_, ?_⟩
    · intro p hp
      have hlong := (hwf p (List.mem_of_getElem? hp)).length
      omega
    · intro r
      unfold readRound
      rw [narrowInt_of_lt hint]
      dsimp only
      rw [if_pos (by omega), if_neg (by omega)]
      congr 1
      omega
  · cases hp : packets[k]? with
    | none =>
      rw [(h.finished hp).1] at hhead
      exact absurd (show ([] : Bytes).length < 8 by decide) hhead
    | some p =>
      have hpacket := hwf p (List.mem_of_getElem? hp)
      have hlt := h.unfinished p hp
      have hbuf := (h.current hp).1
      have htotlen : totlen link.rcvbuf = p.length := by
        rw [hbuf, totlen_take (Nat.le_of_not_lt hhead), hpacket.totlen]
      have hsig : sig link.rcvbuf = ascii "RCmb" := by
        rw [hbuf, sig_take (by omega), hpacket.sig]
      obtain ⟨hpos, hmissing, hfits⟩ := bodyLen_bounds hpacket.length_lt hlt
      refine ⟨bodyLen p.length link.rcvbuf.length, hpos, hfits, ?_, ?_⟩
      · intro q hq
        cases hq
        exact hmissing
      · intro r
        unfold readRound
        rw [narrowInt_of_lt hint, htotlen, hsig]
        dsimp only
        have hgood : ¬ ((link.rcvbuf.length : Int) = 8 ∧
            (ascii "RCmb" ≠ ascii "RCmb" ∨ p.length < CLUSTERMSG_MIN_LEN)) := by
          rintro ⟨-, hsig | hshort⟩
          · exact hsig rfl
          · exact absurd hpacket.length (by omega)
        rw [if_neg (by omega), if_neg hgood]

def Continues (packets : List Bytes) (link : Link σ) : Prop := link.ended = none ∧ ∃ k, Partial packets link k

def Freed (clusterProcessPacket : σ → Bytes → Bool × σ) (packets : List Bytes) (link : Link σ) : Prop :=
  link.ended = some .freed ∧ (∃ s p, p ∈ packets ∧ (clusterProcessPacket s p).1 = false) ∧
    ∃ k, link.handed = packets.take k

theorem Partial.next {p : Bytes} (hwf : ∀ q ∈ packets, WellFormed q) (hp : packets[k]? = some p) {link' : Link σ}
    (hhanded : link'.handed = packets.take k ++ [p]) (hbuf : link'.rcvbuf = [])
    (hinbox : link'.inbox = (packets.drop (k + 1)).flatten) : Partial packets link' (k + 1) where
  handed := by
    obtain ⟨hk, hget⟩ := List.getElem?_eq_some_iff.mp hp
    rw [hhanded, List.take_succ_eq_append_getElem hk, hget]
  stream := by rw [hbuf, hinbox, List.nil_append]
  unfinished := by
    intro q hq
    have hlong := (hwf q (List.mem_of_getElem? hq)).length
    have hmin : CLUSTERMSG_MIN_LEN = 2208 := rfl
    rw [hbuf, List.length_nil]
    omega

variable (clusterProcessPacket) in
theorem receive_inbox (link : Link σ) (buf : Bytes) :
    (receive clusterProcessPacket link buf).2.inbox = link.inbox.drop buf.length := by
  have hadded : (addBytes link buf).inbox = link.inbox.drop buf.length := rfl
  unfold receive
  split
  · unfold handOver
    dsimp only
    split
    · exact hadded
    · exact hadded
  · exact hadded

variable (clusterProcessPacket) in
theorem receive_spec {p buf : Bytes} (hwf : ∀ q ∈ packets, WellFormed q) (h : Partial packets link k)
    (hended : link.ended = none) (hp : packets[k]? = some p) (hpre : buf <+: link.inbox)
    (hmissing : buf.length ≤ p.length - link.rcvbuf.length)
    (hint : link.rcvbuf.length + buf.length < 2 ^ 31) :
    ((receive clusterProcessPacket link buf).1 = true ∧
        Continues packets (receive clusterProcessPacket link buf).2) ∨
      ((receive clusterProcessPacket link buf).1 = false ∧
        Freed clusterProcessPacket packets (receive clusterProcessPacket link buf).2) := by
  obtain ⟨hbuf, hinbox⟩ := h.current hp
  have hlt := h.unfinished p hp
  have hpacket := hwf p (List.mem_of_getElem? hp)
  have htaken : link.inbox.take buf.length = buf := (List.prefix_iff_eq_take.mp hpre).symm
  have hpiece : buf = (p.drop link.rcvbuf.length).take buf.length := by
    rw [hinbox, List.take_append_of_le_length (by rw [List.length_drop]; omega)] at htaken
    exact htaken.symm
  -- The new contents are a longer beginning of the packet.
  have hsum : sdscatlen link.rcvbuf buf = p.take (link.rcvbuf.length + buf.length) := by
    have hwhole : sdscatlen link.rcvbuf buf = link.rcvbuf ++ buf := by
      rw [sdscatlen, Nat.mod_eq_of_lt (by omega), ← List.length_append, List.take_length]
    rw [hwhole, List.take_add, ← hpiece, ← hbuf]
  have hrest : link.inbox.drop buf.length =
      p.drop (link.rcvbuf.length + buf.length) ++ (packets.drop (k + 1)).flatten := by
    rw [hinbox, List.drop_append_of_le_length (by rw [List.length_drop]; omega), List.drop_drop]
  have hlen : narrowInt (narrowInt link.rcvbuf.length + buf.length) = (link.rcvbuf.length + buf.length : Nat) := by
    rw [narrowInt_of_lt (by omega), ← Int.natCast_add, narrowInt_of_lt hint]
  have hadded : addBytes link buf = { link with
      rcvbuf := p.take (link.rcvbuf.length + buf.length)
      inbox := p.drop (link.rcvbuf.length + buf.length) ++ (packets.drop (k + 1)).flatten } := by
    rw [addBytes, hsum, hrest]
  unfold receive
  rw [hlen, hadded]
  by_cases hdone : link.rcvbuf.length + buf.length = p.length
  · have hmin : CLUSTERMSG_MIN_LEN = 2208 := rfl
    have hlong := hpacket.length
    rw [hdone, List.take_length, List.drop_length, List.nil_append,
      if_pos ⟨by omega, congrArg Nat.cast hpacket.totlen.symm⟩]
    unfold handOver
    dsimp only
    cases hok : (clusterProcessPacket link.server p).1 with
    | true =>
      rw [if_pos rfl]
      exact Or.inl ⟨rfl, hended, k + 1, Partial.next hwf hp (by rw [h.handed]) rfl rfl⟩
    | false =>
      rw [if_neg (by decide)]
      refine Or.inr ⟨rfl, rfl, ⟨link.server, p, List.mem_of_getElem? hp, hok⟩, k + 1, ?_⟩
      obtain ⟨hk, hget⟩ := List.getElem?_eq_some_iff.mp hp
      show link.handed ++ [p] = _
      rw [h.handed, List.take_succ_eq_append_getElem hk, hget]
  · have hnot : ¬ (((link.rcvbuf.length + buf.length : Nat) : Int) ≥ 8 ∧
        ((link.rcvbuf.length + buf.length : Nat) : Int) =
          totlen (p.take (link.rcvbuf.length + buf.length))) := by
      rintro ⟨height, hequal⟩
      rw [totlen_take (by omega), hpacket.totlen] at hequal
      omega
    rw [if_neg hnot]
    refine Or.inl ⟨rfl, hended, k, h.handed, ?_, ?_⟩
    · obtain ⟨hk, hget⟩ := List.getElem?_eq_some_iff.mp hp
      show p.take _ ++ (p.drop _ ++ _) = _
      rw [← List.append_assoc, List.take_append_drop, List.drop_eq_getElem_cons hk, hget, List.flatten_cons]
    · intro q hq
      rw [hp] at hq
      cases hq
      show (p.take _).length < p.length
      rw [List.length_take]
      omega

variable (clusterProcessPacket) in
theorem readSome_data {m n : Nat} (h : Partial packets link k) (hinbox : link.inbox ≠ []) (hpos : 0 < m)
    (hsize : m ≤ sizeofClusterMsg) :
    (∃ p, packets[k]? = some p) ∧
      readSome clusterProcessPacket link m (.data n) =
        receive clusterProcessPacket link (link.inbox.take (min (n + 1) m)) := by
  constructor
  · cases hp : packets[k]? with
    | none => exact absurd (h.finished hp).2 hinbox
    | some p => exact ⟨p, rfl⟩
  · have hshort : ¬ (link.inbox.take (min (n + 1) m)).length > sizeofClusterMsg := by
      rw [List.length_take]
      omega
    unfold readSome
    dsimp only
    rw [if_neg hinbox, if_neg (by omega), if_neg hshort]

variable (clusterProcessPacket) in
theorem readRound_spec (hwf : ∀ p ∈ packets, WellFormed p) (hshort : ∀ p ∈ packets, p.length < 2 ^ 31)
    (hlink : Continues packets link) (r : Arrival) :
    Continues packets (readRound clusterProcessPacket link r).2 ∨
      ((readRound clusterProcessPacket link r).1 = false ∧
        (r = .failed ∧ (readRound clusterProcessPacket link r).2.ended = some .ioError ∧
            (∃ k, (readRound clusterProcessPacket link r).2.handed = packets.take k) ∨
          Freed clusterProcessPacket packets (readRound clusterProcessPacket link r).2)) := by
  obtain ⟨hended, k, h⟩ := hlink
  have hint : link.rcvbuf.length < 2 ^ 31 := by
    cases hp : packets[k]? with
    | none =>
      rw [(h.finished hp).1]
      decide
    | some p => exact (h.unfinished p hp).trans (hshort p (List.mem_of_getElem? hp))
  obtain ⟨m, hpos, hsize, hmissing, hround⟩ :=
    readRound_eq clusterProcessPacket hwf h hint
  rw [hround r]
  cases r with
  | again => exact Or.inl ⟨hended, k, h⟩
  | failed => exact Or.inr ⟨rfl, Or.inl ⟨rfl, rfl, k, h.handed⟩⟩
  | data n =>
    by_cases hinbox : link.inbox = []
    · unfold readSome
      dsimp only
      rw [if_pos hinbox]
      exact Or.inl ⟨hended, k, h⟩
    · obtain ⟨⟨p, hp⟩, heq⟩ := readSome_data clusterProcessPacket (n := n) h hinbox hpos hsize
      have hm := hmissing p hp
      have hlt := h.unfinished p hp
      have hp31 := hshort p (List.mem_of_getElem? hp)
      have hlen : (link.inbox.take (min (n + 1) m)).length ≤ m := by
        rw [List.length_take]
        omega
      rw [heq]
      have hpre : link.inbox.take (min (n + 1) m) <+: link.inbox := List.take_prefix _ _
      rcases receive_spec clusterProcessPacket hwf h hended hp hpre
        (by omega) (by omega) with ⟨-, hgoes⟩ | ⟨hstop, hfreed⟩
      · exact Or.inl hgoes
      · exact Or.inr ⟨hstop, Or.inr hfreed⟩

theorem Framed.mono {calls calls' : List (List Arrival)} (h : Framed clusterProcessPacket packets calls link)
    (hsub : ∀ rs ∈ calls, ∃ rs' ∈ calls', ∀ r ∈ rs, r ∈ rs') :
    Framed clusterProcessPacket packets calls' link := by
  rcases h with h | ⟨hended, ⟨rs, hrs, hfailed⟩, hk⟩ | h
  · exact Or.inl h
  · obtain ⟨rs', hrs', hin⟩ := hsub rs hrs
    exact Or.inr (Or.inl ⟨hended, ⟨rs', hrs', hin _ hfailed⟩, hk⟩)
  · exact Or.inr (Or.inr h)

theorem clusterReadHandler_framed (hwf : ∀ p ∈ packets, WellFormed p) (hshort : ∀ p ∈ packets, p.length < 2 ^ 31)
    (hlink : Continues packets link) (rs : List Arrival) :
    Framed clusterProcessPacket packets [rs] (clusterReadHandler clusterProcessPacket link rs) := by
  induction rs generalizing link with
  | nil => exact Or.inl hlink
  | cons r rs ih =>
    unfold clusterReadHandler
    dsimp only
    rcases readRound_spec clusterProcessPacket hwf hshort hlink r with
      hgoes | ⟨hstop, ⟨hfailed, hended, hk⟩ | hfreed⟩
    · split
      · refine (ih hgoes).mono ?_
        intro rs' hrs'
        rw [List.mem_singleton.mp hrs']
        exact ⟨r :: rs, List.mem_singleton_self _, fun x hx => List.mem_cons_of_mem _ hx⟩
      · exact Or.inl hgoes
    · rw [hstop, if_neg (by decide)]
      have hfailure : Arrival.failed ∈ r :: rs := by
        rw [hfailed]
        exact List.mem_cons_self ..
      exact Or.inr (Or.inl ⟨hended, ⟨r :: rs, List.mem_singleton_self _, hfailure⟩, hk⟩)
    · rw [hstop, if_neg (by decide)]
      exact Or.inr (Or.inr hfreed)

theorem connect_continues (hwf : ∀ p ∈ packets, WellFormed p) (server : σ) :
    Continues packets (connect server packets.flatten) := by
  refine ⟨rfl, 0, rfl, rfl, ?_⟩
  intro p hp
  have hlong := (hwf p (List.mem_of_getElem? hp)).length
  have hmin : CLUSTERMSG_MIN_LEN = 2208 := rfl
  show ([] : Bytes).length < p.length
  rw [List.length_nil]
  omega

theorem readCalls_framed (hwf : ∀ p ∈ packets, WellFormed p) (hshort : ∀ p ∈ packets, p.length < 2 ^ 31)
    (server : σ) (calls : List (List Arrival)) :
    Framed clusterProcessPacket packets calls
      (readCalls clusterProcessPacket (connect server packets.flatten) calls) := by
  induction calls using List.reverseRecOn with
  | nil => exact Or.inl (connect_continues hwf server)
  | append_singleton calls rs ih =>
    unfold readCalls at ih ⊢
    rw [List.foldl_append, List.foldl_cons, List.foldl_nil]
    have hold : ∀ rs' ∈ calls, ∃ rs'' ∈ calls ++ [rs], ∀ r ∈ rs', r ∈ rs'' :=
      fun rs' hrs' => ⟨rs', List.mem_append_left _ hrs', fun r hr => hr⟩
    rcases ih with hgoes | hgone
    · rw [hgoes.1, Option.isNone_none, if_pos rfl]
      refine (clusterReadHandler_framed hwf hshort hgoes rs).mono ?_
      intro rs' hrs'
      rw [List.mem_singleton.mp hrs']
      exact ⟨rs, List.mem_append_right _ (List.mem_singleton_self _), fun r hr => hr⟩
    · have hended : ¬ (List.foldl (fun link rs =>
          if link.ended.isNone then clusterReadHandler clusterProcessPacket link rs else link)
          (connect server packets.flatten) calls).ended.isNone = true := by
        rcases hgone with ⟨hended, -⟩ | ⟨hended, -⟩
        all_goals
          rw [hended]
          decide
      rw [if_neg hended]
      exact Framed.mono (Or.inr hgone) hold

def accepts : Unit → Bytes → Bool × Unit := fun _ _ => (true, ())

def bytewise (m : Nat) : List Arrival := List.replicate m (.data 0)

theorem bytewise_succ (m : Nat) (rs : List Arrival) :
    bytewise (m + 1) ++ rs = bytewise m ++ .data 0 :: rs := by
  rw [bytewise, List.replicate_succ', List.append_assoc]
  rfl

theorem clusterReadHandler_append {rs : List Arrival} {link' : Link σ}
    (h : ∀ rs', clusterReadHandler clusterProcessPacket link (rs ++ rs') =
      clusterReadHandler clusterProcessPacket link' rs')
    {r : Arrival} (hgoes : (readRound clusterProcessPacket link' r).1 = true) (rs' : List Arrival) :
    clusterReadHandler clusterProcessPacket link (rs ++ r :: rs') =
      clusterReadHandler clusterProcessPacket (readRound clusterProcessPacket link' r).2 rs' := by
  rw [h, clusterReadHandler, if_pos hgoes]

theorem length_byte {inbox : Bytes} (hinbox : inbox ≠ []) {m : Nat} (hpos : 0 < m) :
    (inbox.take (min (0 + 1) m)).length = 1 := by
  have hinboxPos := List.length_pos_iff.mpr hinbox
  rw [List.length_take]
  omega

theorem readRound_byte {link : Link Unit} {p : Bytes} (hwf : ∀ q ∈ packets, WellFormed q)
    (h : Partial packets link k) (hended : link.ended = none) (hp : packets[k]? = some p)
    (hint : link.rcvbuf.length + 1 < 2 ^ 31) :
    (readRound accepts link (.data 0)).1 = true ∧ Continues packets (readRound accepts link (.data 0)).2 ∧
      (readRound accepts link (.data 0)).2.inbox = link.inbox.drop 1 := by
  obtain ⟨m, hpos, hsize, hmissing, hround⟩ :=
    readRound_eq accepts hwf h (by omega)
  have hlt := h.unfinished p hp
  have hinbox : link.inbox ≠ [] := by
    rw [(h.current hp).2]
    intro hnil
    have hlength := congrArg List.length (List.append_eq_nil_iff.mp hnil).1
    rw [List.length_drop, List.length_nil] at hlength
    omega
  have hone := length_byte hinbox hpos
  obtain ⟨-, heq⟩ := readSome_data accepts (n := 0) h hinbox hpos hsize
  rw [hround, heq]
  have hnext := receive_inbox accepts link (link.inbox.take (min (0 + 1) m))
  rw [hone] at hnext
  have hm := hmissing p hp
  have hpre : link.inbox.take (min (0 + 1) m) <+: link.inbox := List.take_prefix _ _
  rcases receive_spec accepts hwf h hended hp hpre
    (by omega) (by omega) with ⟨hgoes, hcont⟩ | ⟨-, -, ⟨s, q, -, hno⟩, -⟩
  · exact ⟨hgoes, hcont, hnext⟩
  · exact absurd (show true = false from hno) (by decide)

theorem length_stream (pre post : List Bytes) (p : Bytes) :
    (pre ++ p :: post).flatten.length = pre.flatten.length + p.length + post.flatten.length := by
  rw [List.flatten_append, List.flatten_cons, List.length_append, List.length_append, Nat.add_assoc]

theorem partial_index {pre post : List Bytes} {p : Bytes} {link : Link Unit}
    (h : Partial (pre ++ p :: post) link k) (hpost : post.flatten.length < link.inbox.length) :
    k ≤ pre.length := by
  by_contra hk
  obtain ⟨j, rfl⟩ : ∃ j, k = pre.length + (1 + j) := ⟨k - pre.length - 1, by omega⟩
  have hstream := congrArg List.length h.stream
  have hdrop : (pre ++ p :: post).drop (pre.length + (1 + j)) = post.drop j := by
    rw [← List.drop_drop, List.drop_left, Nat.add_comm, List.drop_succ_cons]
  have hsub : (post.drop j).flatten.length ≤ post.flatten.length :=
    ((List.drop_sublist j post).flatten).length_le
  rw [hdrop, List.length_append] at hstream
  omega

theorem bytewise_continues {pre post : List Bytes} {p : Bytes}
    (hwf : ∀ q ∈ pre ++ p :: post, WellFormed q) (hpre : ∀ q ∈ pre, q.length < 2 ^ 31)
    (hp : 2 ^ 31 ≤ p.length) (m : Nat) (hm : m < pre.flatten.length + 2 ^ 31) :
    ∃ link : Link Unit, Continues (pre ++ p :: post) link ∧
      link.inbox = (pre ++ p :: post).flatten.drop m ∧
      ∀ rs, clusterReadHandler accepts (connect () (pre ++ p :: post).flatten) (bytewise m ++ rs) =
        clusterReadHandler accepts link rs := by
  induction m with
  | zero => exact ⟨_, connect_continues hwf (), rfl, fun rs => rfl⟩
  | succ m ih =>
    obtain ⟨link, ⟨hended, k, h⟩, hinbox, hrun⟩ := ih (by omega)
    have hleft : link.inbox.length = pre.flatten.length + p.length + post.flatten.length - m := by
      rw [hinbox, List.length_drop, length_stream]
    have hk : k ≤ pre.length := partial_index h (by omega)
    have hbuf : link.rcvbuf.length + 1 < 2 ^ 31 ∧ ∃ q, (pre ++ p :: post)[k]? = some q := by
      by_cases hin : k < pre.length
      · have hget : (pre ++ p :: post)[k]? = some pre[k] := by
          rw [List.getElem?_append_left hin, List.getElem?_eq_getElem hin]
        have hlt := h.unfinished _ hget
        have hshort := hpre _ (List.getElem_mem hin)
        exact ⟨by omega, _, hget⟩
      · have hend : k = pre.length := by omega
        have hget : (pre ++ p :: post)[k]? = some p := by simp [hend]
        have hstream := congrArg List.length h.stream
        rw [hend, List.drop_left, List.flatten_cons, List.length_append, List.length_append] at hstream
        exact ⟨by omega, p, hget⟩
    obtain ⟨hint, q, hq⟩ := hbuf
    obtain ⟨hgoes, hcont, hnext⟩ := readRound_byte hwf h hended hq hint
    refine ⟨_, hcont, ?_, ?_⟩
    · rw [hnext, hinbox, List.drop_drop, Nat.add_comm]
    · intro rs
      rw [bytewise_succ]
      exact clusterReadHandler_append hrun hgoes rs

theorem bytewise_full {pre post : List Bytes} {p : Bytes} (hwf : ∀ q ∈ pre ++ p :: post, WellFormed q)
    (hpre : ∀ q ∈ pre, q.length < 2 ^ 31) (hp : 2 ^ 31 ≤ p.length) :
    ∃ link, Partial (pre ++ p :: post) link pre.length ∧ link.rcvbuf.length = 2 ^ 31 - 1 ∧ link.inbox ≠ [] ∧
      ∀ rs, clusterReadHandler accepts (connect () (pre ++ p :: post).flatten)
          (bytewise (pre.flatten.length + (2 ^ 31 - 1)) ++ rs) = clusterReadHandler accepts link rs := by
  obtain ⟨link, ⟨-, k, h⟩, hinbox, hrun⟩ :=
    bytewise_continues hwf hpre hp (pre.flatten.length + (2 ^ 31 - 1)) (by omega)
  have hleft : link.inbox.length =
      pre.flatten.length + p.length + post.flatten.length - (pre.flatten.length + (2 ^ 31 - 1)) := by
    rw [hinbox, List.length_drop, length_stream]
  have hk : k ≤ pre.length := partial_index h (by omega)
  have hend : k = pre.length := by
    by_contra hne
    have hin : k < pre.length := by omega
    have hget : (pre ++ p :: post)[k]? = some pre[k] := by
      rw [List.getElem?_append_left hin, List.getElem?_eq_getElem hin]
    have hrest := congrArg List.length (h.current hget).2
    have hsplit : (pre ++ p :: post).drop (k + 1) = pre.drop (k + 1) ++ p :: post :=
      List.drop_append_of_le_length (by omega)
    rw [hsplit, List.length_append, List.flatten_append, List.length_append, List.flatten_cons,
      List.length_append] at hrest
    omega
  subst hend
  refine ⟨link, h, ?_, ?_, hrun⟩
  · have hstream := congrArg List.length h.stream
    rw [List.drop_left, List.flatten_cons, List.length_append, List.length_append] at hstream
    omega
  · intro hnil
    rw [hnil, List.length_nil] at hleft
    omega

theorem rounds_overflow {link : Link Unit} (hwf : ∀ q ∈ packets, WellFormed q) (h : Partial packets link k)
    (hbuflen : link.rcvbuf.length = 2 ^ 31 - 1) (hinbox : link.inbox ≠ []) :
    (clusterReadHandler accepts link [.data 0, .data 0]).ended = some .undefined := by
  obtain ⟨m, hpos, hsize, -, hround⟩ := readRound_eq accepts hwf h (by omega)
  obtain ⟨-, heq⟩ := readSome_data accepts (n := 0) h hinbox hpos hsize
  have hone := length_byte hinbox hpos
  set buf := link.inbox.take (min (0 + 1) m) with hbuf
  have hfull : (sdscatlen link.rcvbuf buf).length = 2 ^ 31 := by
    rw [sdscatlen, hbuflen, hone, List.length_take, List.length_append, hbuflen, hone]
    decide
  have hlen : narrowInt (narrowInt link.rcvbuf.length + buf.length) = -(2 ^ 31) := by
    rw [hbuflen, hone]
    decide
  have hstep : receive accepts link buf = (true, addBytes link buf) := by
    unfold receive
    rw [hlen]
    exact if_neg fun hboth => absurd hboth.1 (by decide)
  have hlast : readRound accepts (addBytes link buf) (.data 0) =
      (false, { addBytes link buf with ended := some .undefined }) := by
    have hint : narrowInt (addBytes link buf).rcvbuf.length = -(2 ^ 31) := by
      rw [addBytes, hfull]
      decide
    unfold readRound
    rw [hint]
    exact (if_pos (by decide)).trans (if_pos (by decide))
  rw [clusterReadHandler, hround, heq, hstep, if_pos rfl, clusterReadHandler, hlast, if_neg Bool.false_ne_true]

theorem longPacket_unframed {pre post : List Bytes} {p : Bytes}
    (hwf : ∀ q ∈ pre ++ p :: post, WellFormed q) (hpre : ∀ q ∈ pre, q.length < 2 ^ 31)
    (hp : 2 ^ 31 ≤ p.length) :
    ¬ Framed accepts (pre ++ p :: post) [bytewise (pre.flatten.length + 2 ^ 31 + 1)]
      (readCalls accepts (connect () (pre ++ p :: post).flatten) [bytewise (pre.flatten.length + 2 ^ 31 + 1)]) := by
  obtain ⟨link, h, hbuflen, hinbox, hrun⟩ := bytewise_full hwf hpre hp
  have hsplit : bytewise (pre.flatten.length + 2 ^ 31 + 1) =
      bytewise (pre.flatten.length + (2 ^ 31 - 1)) ++ [.data 0, .data 0] := by
    have htwo : List.replicate 2 (Arrival.data 0) = [.data 0, .data 0] := rfl
    have hcount : pre.flatten.length + 2 ^ 31 + 1 = pre.flatten.length + (2 ^ 31 - 1) + 2 := by omega
    rw [bytewise, bytewise, ← htwo, ← List.replicate_add, hcount]
  have hcalls : readCalls accepts (connect () (pre ++ p :: post).flatten)
      [bytewise (pre.flatten.length + 2 ^ 31 + 1)] = clusterReadHandler accepts link [.data 0, .data 0] := by
    unfold readCalls
    rw [List.foldl_cons, List.foldl_nil, ← hrun, ← hsplit]
    exact if_pos rfl
  have hresult := rounds_overflow hwf h hbuflen hinbox
  intro hframed
  rw [hcalls] at hframed
  rcases hframed with ⟨hno, -⟩ | ⟨hno, -⟩ | ⟨hno, -⟩
  all_goals
    rw [hresult] at hno
    cases hno

/-- Whatever `clusterProcessPacket` does and however the stream is cut, the packets are handed over one
by one, exactly if each is shorter than 2^31 bytes. -/
theorem framed_iff (packets : List Bytes) (hwf : ∀ p ∈ packets, WellFormed p) :
    (∀ (σ : Type) (clusterProcessPacket : σ → Bytes → Bool × σ) (server : σ) (calls : List (List Arrival)),
      Framed clusterProcessPacket packets calls
        (readCalls clusterProcessPacket (connect server packets.flatten) calls)) ↔
      ∀ p ∈ packets, p.length < 2 ^ 31 := by
  constructor
  · intro hall
    by_contra hlong
    -- The packets before the first long one.
    set pre := packets.takeWhile fun p => p.length < 2 ^ 31 with hpre
    have hsplit : pre ++ packets.dropWhile (fun p => p.length < 2 ^ 31) = packets :=
      List.takeWhile_append_dropWhile
    cases hrest : packets.dropWhile fun p => decide (p.length < 2 ^ 31) with
    | nil =>
      rw [List.dropWhile_eq_nil_iff] at hrest
      exact hlong fun p hp => by simpa using hrest p hp
    | cons p post =>
      have hp : 2 ^ 31 ≤ p.length := by
        have hhead := List.head?_dropWhile_not (fun p : Bytes => decide (p.length < 2 ^ 31)) packets
        rw [hrest] at hhead
        simpa using hhead
      have hshort : ∀ q ∈ pre, q.length < 2 ^ 31 := fun q hq => by simpa using List.mem_takeWhile_imp hq
      rw [hrest] at hsplit
      rw [← hsplit] at hwf hall
      exact longPacket_unframed hwf hshort hp (hall Unit accepts () _)
  · intro hshort σ clusterProcessPacket server calls
    exact readCalls_framed hwf hshort server calls

def smallPacket : Bytes := [82, 67, 109, 98, 0, 0, 8, 160] ++ List.replicate 2200 0

theorem smallPacket_wellFormed : WellFormed smallPacket := ⟨by decide, by decide +kernel, by decide +kernel⟩

def collect (packets : List Bytes) (p : Bytes) : Bool × List Bytes := (true, packets ++ [p])

theorem framed_small :
    Framed collect [smallPacket] [[.data 4, .again], [.data 10000, .data 10000]]
      (readCalls collect (connect [] [smallPacket].flatten) [[.data 4, .again], [.data 10000, .data 10000]]) :=
  (framed_iff [smallPacket] fun p hp => List.mem_singleton.mp hp ▸ smallPacket_wellFormed).mpr
    (fun p hp => List.mem_singleton.mp hp ▸ by decide +kernel) _ _ _ _

def hugePacket (rest : Bytes) : Bytes := [82, 67, 109, 98, 128, 0, 0, 0] ++ rest

theorem hugePacket_wellFormed {rest : Bytes} (h : rest.length = 2 ^ 31 - 8) :
    WellFormed (hugePacket rest) ∧ (hugePacket rest).length = 2 ^ 31 := by
  have hlength : (hugePacket rest).length = 2 ^ 31 := by
    rw [hugePacket, List.length_append, h]
    decide
  have hmin : CLUSTERMSG_MIN_LEN = 2208 := rfl
  refine ⟨⟨?_, ?_, by omega⟩, hlength⟩
  · rw [sig, hugePacket, List.take_append_of_le_length (by decide)]
    decide
  · have hbytes : ((hugePacket rest).drop 4).take 4 = [128, 0, 0, 0] := by
      rw [hugePacket, List.drop_append_of_le_length (by decide), List.take_append_of_le_length (by decide)]
      decide
    rw [hlength, totlen, hbytes]
    decide

theorem hugePacket_lost {rest : Bytes} (h : rest.length = 2 ^ 31 - 8) :
    ¬ Framed accepts [hugePacket rest] [bytewise (2 ^ 31 + 1)]
      (readCalls accepts (connect () [hugePacket rest].flatten) [bytewise (2 ^ 31 + 1)]) := by
  obtain ⟨hpacket, hlength⟩ := hugePacket_wellFormed h
  have hwf : ∀ q ∈ [] ++ hugePacket rest :: [], WellFormed q := fun q hq => List.mem_singleton.mp hq ▸ hpacket
  have hunframed := longPacket_unframed hwf (by simp) hlength.ge
  rwa [List.flatten_nil, List.length_nil, Nat.zero_add] at hunframed

/-- A well-formed packet, read byte by byte, that is never handed over. -/
theorem hugePacket_unframed :
    WellFormed (hugePacket (List.replicate (2 ^ 31 - 8) 0)) ∧
      ¬ Framed accepts [hugePacket (List.replicate (2 ^ 31 - 8) 0)] [bytewise (2 ^ 31 + 1)]
        (readCalls accepts (connect () [hugePacket (List.replicate (2 ^ 31 - 8) 0)].flatten) [bytewise (2 ^ 31 + 1)]) :=
  ⟨(hugePacket_wellFormed List.length_replicate).1, hugePacket_lost List.length_replicate⟩

end RedisCluster.Framing
