import RedisCluster.Networking.Proofs.RequestProofs

/-!
# Runs of a connection: proofs

What `processCommand` has got and what waits in the client are the front of the stream, cut at the ends
of the commands, whatever the chunks were. Each event keeps this as long as the run fits.
-/

namespace RedisCluster.Networking

open RedisCluster.Util
open RedisCluster.Lib

variable {σ : Type}

/-! ## The invariant -/

def Place (cmds : List (List Bytes)) (n : Nat) (s : Conn σ) : Prop :=
  (s.client.multibulklen = 0 ∧ s.client.querybuf ++ s.inbox = encodeAll (cmds.drop n) ∧
    (s.client.flags.close_after_reply = true ∨
      s.client.argv = [] ∧ s.client.bulklen = none ∧ s.client.reqtype ≠ some .inline)) ∨
  (∃ cmd later, cmds.drop n = cmd :: later ∧ s.client.reqtype = some .multibulk ∧
    InCommand s.client cmd s.inbox (encodeAll later))

structure Inv (cmds : List (List Bytes)) (n : Nat) (s : Conn σ) : Prop where
  stream : s.delivered ++ s.inbox = encodeAll cmds
  errors : s.client.errors = []
  freed : s.freed = false
  handed : s.handed = cmds.take n
  place : Place cmds n s

theorem Place.stream {cmds : List (List Bytes)} {n : Nat} {s : Conn σ} (h : Place cmds n s) :
    parsedPart s.client ++ s.client.querybuf ++ s.inbox = encodeAll (cmds.drop n) := by
  rcases h with ⟨hzero, hbytes, -⟩ | ⟨cmd, later, hdrop, -, hin⟩
  · rw [parsedPart, if_pos hzero, List.nil_append]
    exact hbytes
  · rw [hdrop, encodeAll_cons]
    exact hin.stream

theorem Inv.decodedTo {cmds : List (List Bytes)} {n : Nat} {s : Conn σ} (h : Inv cmds n s) :
    DecodedTo cmds n s := by
  refine ⟨h.stream, h.errors, h.freed, h.handed, ?_⟩
  have hall : s.delivered ++ s.inbox =
      (encodeAll (cmds.take n) ++ parsedPart s.client ++ s.client.querybuf) ++ s.inbox := by
    rw [h.stream, List.append_assoc (encodeAll _), List.append_assoc (encodeAll _), h.place.stream,
      ← encodeAll_append, List.take_append_drop]
  exact List.append_cancel_right hall

theorem Place.read {cmds : List (List Bytes)} {n : Nat} {s s' : Conn σ} (h : Place cmds n s) {q : Bytes}
    (hclient : s'.client = { s.client with querybuf := q })
    (hsame : q ++ s'.inbox = s.client.querybuf ++ s.inbox) : Place cmds n s' := by
  unfold Place
  rw [hclient]
  rcases h with ⟨hzero, hbytes, hready⟩ | ⟨cmd, later, hdrop, htype, hin⟩
  · exact Or.inl ⟨hzero, hsame.trans hbytes, hready⟩
  · refine Or.inr ⟨cmd, later, hdrop, htype, ?_⟩
    rcases hin with ⟨hzero, hargv, hbulk, hbytes⟩ | ⟨rem, hne, hcmd, hlen, hat⟩
    · exact Or.inl ⟨hzero, hargv, hbulk, hsame.trans hbytes⟩
    · exact Or.inr ⟨rem, hne, hcmd, hlen, hat.known, hsame.trans hat.bytes⟩

/-! ## The loop of processInputBuffer -/

theorem encode_ne_nil (cmd : List Bytes) : encode cmd ≠ [] := by
  simp [encode, countLine]

theorem toCome_ne_nil {bulklen : Option Nat} {rem : List Bytes} (hne : rem ≠ []) :
    toCome bulklen rem ≠ [] := by
  obtain ⟨arg, rem, rfl⟩ := List.exists_cons_of_ne_nil hne
  cases bulklen with
  | none => simp [toCome, encodeArg, bulkLine]
  | some len => simp [toCome, crlf]

theorem InCommand.rest_lt {c : Client} {cmd : List Bytes} {future rest : Bytes}
    (h : InCommand c cmd future rest) : rest.length < c.querybuf.length + future.length := by
  rcases h with ⟨-, -, -, hbytes⟩ | ⟨rem, hne, -, -, hat⟩
  · have h1 := congrArg List.length hbytes
    have h2 := List.length_pos_iff.mpr (encode_ne_nil cmd)
    simp only [List.length_append] at h1
    omega
  · have h1 := congrArg List.length hat.bytes
    have h2 := List.length_pos_iff.mpr (@toCome_ne_nil c.bulklen rem hne)
    simp only [List.length_append] at h1
    omega

theorem Inv.unfinished_of_empty {cmds : List (List Bytes)} {n : Nat} {s : Conn σ} (h : Inv cmds n s)
    (hempty : s.client.querybuf = []) : Unfinished cmds n s := by
  unfold Unfinished
  cases hcmd : cmds[n]? with
  | none => exact hempty
  | some cmd =>
    rcases h.place with ⟨hzero, -, -⟩ | ⟨cmd', later, hdrop, -, hin⟩
    · simp only [parsedPart, if_pos hzero, hempty, List.append_nil, List.length_nil]
      exact List.length_pos_iff.mpr (encode_ne_nil cmd)
    · have hsame : cmd = cmd' := by
        have h1 : (cmds.drop n)[0]? = some cmd := by rw [List.getElem?_drop, Nat.add_zero, hcmd]
        rw [hdrop] at h1
        exact (Option.some.inj h1).symm
      subst hsame
      rcases hin with ⟨hzero, -, -, -⟩ | ⟨rem, hne, hargs, hlen, hat⟩
      · simp only [parsedPart, if_pos hzero, hempty, List.append_nil, List.length_nil]
        exact List.length_pos_iff.mpr (encode_ne_nil cmd)
      · refine short_of_toCome hne hargs hlen hat.known ?_
        rw [hempty]
        exact List.length_pos_iff.mpr (toCome_ne_nil hne)

theorem Inv.inCommand {cmds : List (List Bytes)} {n : Nat} {s : Conn σ} (h : Inv cmds n s)
    (hbuf : s.client.querybuf ≠ []) (hopen : s.client.flags.close_after_reply ≠ true) :
    requestType s.client = .multibulk ∧ ∃ cmd later, cmds.drop n = cmd :: later ∧
      InCommand { s.client with reqtype := some .multibulk } cmd s.inbox (encodeAll later) := by
  rcases h.place with ⟨hzero, hbytes, hready⟩ | ⟨cmd, later, hdrop, htype, hin⟩
  · obtain ⟨hargv, hbulk, htype⟩ := hready.resolve_left hopen
    cases hdrop : cmds.drop n with
    | nil =>
      rw [hdrop, encodeAll_nil] at hbytes
      exact absurd (List.append_eq_nil_iff.mp hbytes).1 hbuf
    | cons cmd later =>
      rw [hdrop, encodeAll_cons] at hbytes
      refine ⟨?_, cmd, later, rfl, Or.inl ⟨hzero, hargv, hbulk, hbytes⟩⟩
      unfold requestType
      cases hreq : s.client.reqtype with
      | some t =>
        cases t with
        | inline => exact absurd hreq htype
        | multibulk => rfl
      | none =>
        obtain ⟨b, q, hq⟩ := List.exists_cons_of_ne_nil hbuf
        rw [hq, List.cons_append, encode, countLine, List.cons_append, List.cons_append,
          List.cons_append, List.cons.injEq] at hbytes
        simp only [hq, List.head?_cons, hbytes.1, if_true]
  · refine ⟨by rw [requestType, htype], cmd, later, hdrop, ?_⟩
    rw [← htype]
    exact hin

theorem dispatch_parses (w : World σ) (s : Conn σ) : (dispatch w s).parses = s.parses := by
  unfold dispatch
  split <;> rfl

theorem mem_processLoop_parses (w : World σ) (fuel : Nat) (s : Conn σ) {c : Client}
    (hc : c ∈ s.parses) : c ∈ (processLoop w fuel s).parses := by
  induction fuel generalizing s with
  | zero => exact hc
  | succ fuel ih =>
    have hnext : c ∈ (parseNext s).2.parses := List.mem_append_left _ hc
    rw [processLoop]
    split
    · exact hc
    · split
      · exact hc
      · split
        · exact ih _ (by rw [dispatch_parses]; exact hnext)
        · exact hnext

theorem Inv.dispatch {cmds : List (List Bytes)} {n : Nat} {s : Conn σ} {cmd : List Bytes}
    {later : List (List Bytes)} (w : World σ) (hne : cmd ≠ []) (hdrop : cmds.drop n = cmd :: later)
    (hstream : s.delivered ++ s.inbox = encodeAll cmds) (herrors : s.client.errors = [])
    (hfreed : s.freed = false) (hhanded : s.handed = cmds.take n) (hargv : s.client.argv = cmd)
    (hzero : s.client.multibulklen = 0) (hbytes : s.client.querybuf ++ s.inbox = encodeAll later) :
    Inv cmds (n + 1) (dispatch w s) ∧ (dispatch w s).client.querybuf = s.client.querybuf := by
  have hlater : cmds.drop (n + 1) = later := by
    rw [← List.drop_drop, hdrop]
    rfl
  have hget : cmds[n]? = some cmd := by
    have h1 : (cmds.drop n)[0]? = some cmd := by rw [hdrop]; rfl
    rwa [List.getElem?_drop, Nat.add_zero] at h1
  have htake : cmds.take (n + 1) = cmds.take n ++ [cmd] := by
    rw [List.take_add_one, hget]
    rfl
  have hsome : s.client.argv ≠ [] := hargv ▸ hne
  unfold Networking.dispatch
  simp only [if_neg hsome]
  cases hok : (w.processCommand s.server s.client.flags s.client.argv).1 with
  | true =>
    refine ⟨⟨hstream, herrors, hfreed, ?_, ?_⟩, rfl⟩
    · rw [htake, hhanded, hargv]
    · refine Or.inl ⟨rfl, hlater ▸ hbytes, Or.inr ⟨rfl, rfl, ?_⟩⟩
      exact fun h => by cases h
  | false =>
    refine ⟨⟨hstream, herrors, hfreed, ?_, ?_⟩, rfl⟩
    · rw [htake, hhanded, hargv]
    · exact Or.inl ⟨hzero, hlater ▸ hbytes, Or.inl (w.err_closes _ _ _ hok)⟩

theorem processLoop_spec (w : World σ) {cmds : List (List Bytes)}
    (hlim : ∀ cmd ∈ cmds, WithinLimits cmd) (fuel : Nat) (s : Conn σ) (n : Nat)
    (hfuel : s.client.querybuf.length ≤ fuel) (h : Inv cmds n s)
    (hfits : ∀ c ∈ (processLoop w fuel s).parses, ¬ Overlong c) :
    ∃ m, Inv cmds m (processLoop w fuel s) ∧
      (¬ Held w (processLoop w fuel s) → Unfinished cmds m (processLoop w fuel s)) := by
  induction fuel generalizing s n with
  | zero =>
    have hempty := List.length_eq_zero_iff.mp (Nat.le_zero.mp hfuel)
    exact ⟨n, h, fun _ => h.unfinished_of_empty hempty⟩
  | succ fuel ih =>
    rw [processLoop] at hfits ⊢
    by_cases hbuf : s.client.querybuf = []
    · rw [if_pos hbuf]
      exact ⟨n, h, fun _ => h.unfinished_of_empty hbuf⟩
    rw [if_neg hbuf] at hfits ⊢
    by_cases hheld : Held w s
    · rw [if_pos hheld]
      exact ⟨n, h, fun hnot => absurd hheld hnot⟩
    rw [if_neg hheld] at hfits ⊢
    have hopen : s.client.flags.close_after_reply ≠ true := fun hc => hheld (Or.inr (Or.inr hc))
    obtain ⟨htype, cmd, later, hdrop, hin⟩ := h.inCommand hbuf hopen
    have hcmd : cmd ∈ cmds := List.mem_of_mem_drop (hdrop ▸ List.mem_cons_self)
    have hget : cmds[n]? = some cmd := by
      have h1 : (cmds.drop n)[0]? = some cmd := by rw [hdrop]; rfl
      rwa [List.getElem?_drop, Nat.add_zero] at h1
    have hparse := processMultibulkBuffer_spec (hlim cmd hcmd) hin
    have hnext : parseNext s =
        ((processMultibulkBuffer { s.client with reqtype := some .multibulk }).1, { s with
          client := (processMultibulkBuffer { s.client with reqtype := some .multibulk }).2
          parses := s.parses ++ [{ s.client with reqtype := some .multibulk }] }) := by
      rw [parseNext, htype]
      rfl
    rw [hnext] at hfits ⊢
    rcases hparse with ⟨buf, hres, hbytes⟩ | ⟨c', hres, hin', hshort, herr, hflags, hreq⟩ | ⟨hover, -⟩
    · -- A complete command.
      rw [hres] at hfits ⊢
      simp only [if_true] at hfits ⊢
      have hshorter : buf.length < s.client.querybuf.length := by
        have h1 := congrArg List.length hbytes
        have h2 : (encodeAll later).length < s.client.querybuf.length + s.inbox.length := hin.rest_lt
        rw [List.length_append] at h1
        omega
      obtain ⟨hinv, hq⟩ := Inv.dispatch (s := { s with
          client := { s.client with
            reqtype := some .multibulk, argv := cmd, multibulklen := 0, bulklen := none, querybuf := buf }
          parses := s.parses ++ [{ s.client with reqtype := some .multibulk }] }) w
        (hlim cmd hcmd).1 hdrop h.stream h.errors h.freed h.handed rfl rfl hbytes
      exact ih _ (n + 1) (by rw [hq]; exact Nat.le_of_lt_succ (Nat.lt_of_lt_of_le hshorter hfuel)) hinv hfits
    · -- Not complete yet.
      rw [hres]
      refine ⟨n, ⟨h.stream, herr.trans h.errors, h.freed, h.handed,
        Or.inr ⟨cmd, later, hdrop, hreq, hin'⟩⟩, fun _ => ?_⟩
      unfold Unfinished
      rw [hget]
      exact hshort
    · -- A refused buffer is overlong.
      have hmem : { s.client with reqtype := some .multibulk } ∈
          s.parses ++ [{ s.client with reqtype := some .multibulk }] :=
        List.mem_append_right _ (List.mem_singleton.mpr rfl)
      refine absurd hover (hfits _ ?_)
      split
      · exact mem_processLoop_parses w fuel _ (by rw [dispatch_parses]; exact hmem)
      · exact hmem

/-! ## Events -/

def Decodes (w : World σ) (cmds : List (List Bytes)) (s : Conn σ) : Prop :=
  ∃ n, Inv cmds n s ∧ (s.processed = true → ¬ Held w s → Unfinished cmds n s)

theorem Inv.decodes {w : World σ} {cmds : List (List Bytes)} {n : Nat} {s : Conn σ} (h : Inv cmds n s)
    (hnot : s.processed = false) : Decodes w cmds s := by
  refine ⟨n, h, fun hp => ?_⟩
  rw [hnot] at hp
  cases hp

theorem processInputBuffer_decodes (w : World σ) {cmds : List (List Bytes)}
    (hlim : ∀ cmd ∈ cmds, WithinLimits cmd) {n : Nat} {s : Conn σ} (h : Inv cmds n s)
    (hfits : ∀ c ∈ (processInputBuffer w s).parses, ¬ Overlong c) :
    Decodes w cmds (processInputBuffer w s) := by
  obtain ⟨m, hinv, hdone⟩ := processLoop_spec w hlim _ s n (Nat.le_refl _) h hfits
  exact ⟨m, ⟨hinv.stream, hinv.errors, hinv.freed, hinv.handed, hinv.place⟩, fun _ => hdone⟩

theorem chunk_append (s : Conn σ) (n : Nat) : chunk s n ++ s.inbox.drop (chunk s n).length = s.inbox := by
  refine List.prefix_iff_eq_append.mp ?_
  exact (List.take_prefix _ _).trans (List.take_prefix _ _)

theorem bigArgComplete_of_readlen {c : Client} (h : readlen c = 0) : BigArgComplete c := by
  unfold readlen at h
  split at h
  · cases h
  · rename_i len hbulk
    split at h
    · rename_i hbig
      refine ⟨len, hbulk, hbig.2.2, ?_⟩
      unfold REDIS_IOBUF_LEN at h
      omega
    · cases h

theorem readlen_complete {c : Client} {len : Nat} (hbulk : c.bulklen = some len)
    (hreq : c.reqtype = some .multibulk) (hlen : c.multibulklen ≠ 0)
    (hbig : REDIS_MBULK_BIG_ARG ≤ len) (hbuf : c.querybuf.length = len + 2) : readlen c = 0 := by
  unfold readlen
  rw [hbulk]
  simp only [if_pos (⟨hreq, hlen, hbig⟩ : _ ∧ _ ∧ _)]
  omega

theorem step_decodes (w : World σ) {cmds : List (List Bytes)} (hlim : ∀ cmd ∈ cmds, WithinLimits cmd)
    (s : Conn σ) (e : Event σ) (h : Decodes w cmds s) (hfits : Fits w s e) :
    Decodes w cmds (step w s e) := by
  obtain ⟨n, hinv, -⟩ := h
  obtain ⟨hread, hparses⟩ := hfits
  have hopen : ¬ s.freed = true := by
    rw [hinv.freed]
    exact Bool.false_ne_true
  unfold step at hparses ⊢
  rw [if_neg hopen] at hparses ⊢
  cases e with
  | readQueryFromClient k =>
    simp only [readQueryFromClient] at hparses ⊢
    by_cases hnone : s.inbox.take k = []
    · rw [if_pos hnone]
      exact Inv.decodes ⟨hinv.stream, hinv.errors, hinv.freed, hinv.handed, hinv.place⟩ rfl
    obtain ⟨hbig, hmax⟩ := hread k rfl hnone
    have hlen : readlen s.client ≠ 0 := fun h0 => hbig (bigArgComplete_of_readlen h0)
    rw [if_neg hnone, if_neg hlen, if_neg (Nat.not_lt.mpr hmax)] at hparses ⊢
    refine processInputBuffer_decodes w hlim (n := n)
      ⟨?_, hinv.errors, hinv.freed, hinv.handed, hinv.place.read rfl ?_⟩ hparses
    · rw [List.append_assoc, chunk_append]
      exact hinv.stream
    · rw [List.append_assoc, chunk_append]
  | processUnblockedClients =>
    by_cases hempty : s.client.querybuf = []
    · simp only [if_pos hempty]
      exact Inv.decodes ⟨hinv.stream, hinv.errors, hinv.freed, hinv.handed, hinv.place⟩ rfl
    · simp only [if_neg hempty] at hparses ⊢
      exact processInputBuffer_decodes w hlim hinv hparses
  | elsewhere server blocked =>
    exact Inv.decodes ⟨hinv.stream, hinv.errors, hinv.freed, hinv.handed, hinv.place⟩ rfl

/-- Decoding does not depend on the chunks: in every run that fits, `processCommand` gets the commands
of the stream in order and unchanged, and once the buffer is processed only the bytes of an unfinished
command are left. -/
theorem decoding_ignores_chunking (w : World σ) (server : σ) (cmds : List (List Bytes))
    (hlim : ∀ cmd ∈ cmds, WithinLimits cmd) (es : List (Event σ))
    (hfits : RunMeets (step w) (Fits w) (connect server (encodeAll cmds)) es) :
    ∃ n, DecodedTo cmds n (run (step w) (connect server (encodeAll cmds)) es) ∧
      ((run (step w) (connect server (encodeAll cmds)) es).processed = true →
        ¬ Held w (run (step w) (connect server (encodeAll cmds)) es) →
        Unfinished cmds n (run (step w) (connect server (encodeAll cmds)) es)) := by
  have hstart : Decodes w cmds (connect server (encodeAll cmds)) := by
    refine ⟨0, ⟨rfl, rfl, rfl, rfl, Or.inl ⟨rfl, rfl, Or.inr ⟨rfl, rfl, ?_⟩⟩⟩, fun hp => ?_⟩
    · exact fun h => by cases h
    · cases hp
  obtain ⟨n, hinv, hdone⟩ := run_inv (P := Decodes w cmds) (step_decodes w hlim) hstart hfits
  exact ⟨n, hinv.decodedTo, hdone⟩

/-! ## Runs that fit -/

theorem posAfterAll_le (pos : Nat) (args : List Bytes) (tail : Bytes) :
    posAfterAll pos args tail ≤ pos + (encodeArgs args).length := by
  induction args generalizing pos with
  | nil => exact Nat.le_refl pos
  | cons arg args ih =>
    have hstart : posStart pos arg.length ≤ pos + (bulkLine arg.length).length := by
      unfold posStart
      split
      · exact Nat.zero_le _
      · exact Nat.le_refl _
    have htaken : posTaken (posStart pos arg.length) arg (encodeArgs args ++ tail) ≤
        posStart pos arg.length + arg.length + 2 := by
      unfold posTaken
      split
      · exact Nat.zero_le _
      · exact Nat.le_refl _
    have h := ih (posTaken (posStart pos arg.length) arg (encodeArgs args ++ tail))
    rw [posAfterAll, encodeArgs_cons, encodeArg]
    simp only [List.length_append, crlf, List.length_cons, List.length_nil] at h ⊢
    omega

theorem Overlong.length_lt {c : Client} (h : Overlong c) :
    REDIS_INLINE_MAX_SIZE < c.querybuf.length := by
  obtain ⟨args, tail, ⟨n, -, hbuf, -, -, hlong⟩ | ⟨-, hbuf, -, -, hlong⟩ |
    ⟨arg, -, hbuf, -, -, hlong⟩⟩ := h
  · have hle := posAfterAll_le (countLine n).length args tail
    rw [hbuf]
    simp only [List.length_append]
    omega
  · have hle := posAfterAll_le 0 args tail
    rw [hbuf]
    simp only [List.length_append]
    omega
  · have hle := posAfterAll_le (posTaken 0 arg (encodeArgs args ++ tail)) args tail
    have htaken : posTaken 0 arg (encodeArgs args ++ tail) ≤ arg.length + 2 := by
      unfold posTaken
      split
      · exact Nat.zero_le _
      · omega
    rw [hbuf]
    simp only [List.length_append, crlf, List.length_cons, List.length_nil]
    omega

theorem fits_of_small {w : World σ} {s : Conn σ} {e : Event σ}
    (hbuf : s.client.querybuf.length < REDIS_MBULK_BIG_ARG)
    (hmax : s.client.querybuf.length + s.inbox.length ≤ w.client_max_querybuf_len)
    (hparses : ∀ c ∈ (step w s e).parses, c.querybuf.length ≤ REDIS_INLINE_MAX_SIZE) : Fits w s e := by
  refine ⟨fun n _ _ => ⟨?_, ?_⟩, fun c hc hover => ?_⟩
  · rintro ⟨len, -, hbig, hlen⟩
    omega
  · have hle : (chunk s n).length ≤ s.inbox.length := by
      have h := congrArg List.length (chunk_append s n)
      rw [List.length_append] at h
      omega
    rw [List.length_append]
    omega
  · have h1 := hover.length_lt
    have h2 := hparses c hc
    omega

def plainWorld : World Bool where
  clientsArePaused paused := paused
  client_max_querybuf_len := 1024 * 1024 * 1024
  processCommand paused flags _ := (true, flags, paused)
  err_closes _ _ _ h := by cases h

def pingRun : List (Event Bool) := [.readQueryFromClient 7, .readQueryFromClient 100]

/-- Two chunks of a PING are one command. -/
theorem decoding_ignores_chunking_ping :
    ∃ n, DecodedTo [[ascii "PING"]] n
        (run (step plainWorld) (connect false (encodeAll [[ascii "PING"]])) pingRun) ∧
      ((run (step plainWorld) (connect false (encodeAll [[ascii "PING"]])) pingRun).processed = true →
        ¬ Held plainWorld
          (run (step plainWorld) (connect false (encodeAll [[ascii "PING"]])) pingRun) →
        Unfinished [[ascii "PING"]] n
          (run (step plainWorld) (connect false (encodeAll [[ascii "PING"]])) pingRun)) := by
  refine decoding_ignores_chunking plainWorld false [[ascii "PING"]] ?_ pingRun ?_
  · intro cmd hcmd
    rw [List.mem_singleton.mp hcmd]
    refine ⟨by decide, by decide, fun arg harg => ?_⟩
    rw [List.mem_singleton.mp harg]
    decide
  · refine ⟨fits_of_small (by decide) (by decide) (by decide), ?_, trivial⟩
    exact fits_of_small (by decide) (by decide) (by decide)

/-! ## Runs that do not fit -/

def Parked (s : Conn Bool) (buf inbox : Bytes) : Prop :=
  s.server = true ∧ s.client.flags.slave = false ∧ s.freed = false ∧ s.client.querybuf = buf ∧
    s.inbox = inbox

theorem processInputBuffer_held {w : World σ} {s : Conn σ} (h : Held w s) :
    processInputBuffer w s = { s with processed := true } := by
  unfold processInputBuffer
  cases s.client.querybuf.length with
  | zero => rfl
  | succ fuel => rw [processLoop, if_pos h, ite_self]

theorem read_held {w : World σ} {s : Conn σ} {n : Nat} (h : Held w s) (hfreed : s.freed = false)
    (hne : s.inbox.take n ≠ []) (hlen : readlen s.client ≠ 0)
    (hmax : (s.client.querybuf ++ chunk s n).length ≤ w.client_max_querybuf_len) :
    step w s (.readQueryFromClient n) = { s with
      client := { s.client with querybuf := s.client.querybuf ++ chunk s n }
      inbox := s.inbox.drop (chunk s n).length
      delivered := s.delivered ++ chunk s n
      processed := true } := by
  have hopen : ¬ s.freed = true := by
    rw [hfreed]
    exact Bool.false_ne_true
  simp only [step, if_neg hopen, readQueryFromClient, if_neg hne, if_neg hlen,
    if_neg (Nat.not_lt.mpr hmax)]
  exact processInputBuffer_held h

theorem parked_reads {n : Nat} (hn : 0 < n) (hsize : n ≤ REDIS_IOBUF_LEN) (m : Nat) (s : Conn Bool)
    (buf inbox : Bytes) (h : Parked s buf inbox) (hinbox : m * n ≤ inbox.length)
    (hmax : buf.length + m * n ≤ plainWorld.client_max_querybuf_len)
    (hlen : ∀ len, s.client.bulklen = some len → buf.length + m * n ≤ len + 2) :
    ∃ s', run (step plainWorld) s (List.replicate m (.readQueryFromClient n)) = s' ∧
      Parked s' (buf ++ inbox.take (m * n)) (inbox.drop (m * n)) ∧
      s'.client = { s.client with querybuf := buf ++ inbox.take (m * n) } := by
  induction m generalizing s buf inbox with
  | zero =>
    obtain ⟨h1, h2, h3, h4, h5⟩ := h
    refine ⟨s, rfl, ⟨h1, h2, h3, ?_, ?_⟩, ?_⟩
    · simpa using h4
    · simpa using h5
    · simp [← h4]
  | succ m ih =>
    obtain ⟨h1, h2, h3, h4, h5⟩ := h
    rw [Nat.succ_mul] at hinbox hmax hlen
    have hread : n ≤ readlen s.client := by
      unfold readlen
      split
      · exact hsize
      · rename_i len hbulk
        have hle := hlen len hbulk
        split
        · rw [h4]
          exact Nat.le_min.mpr ⟨by omega, hsize⟩
        · exact hsize
    have hchunk : chunk s n = inbox.take n := by
      rw [chunk, h5, List.take_take, Nat.min_eq_right hread]
    have htake : (inbox.take n).length = n := by
      rw [List.length_take]
      omega
    have hne : s.inbox.take n ≠ [] := by
      rw [h5]
      exact List.ne_nil_of_length_pos (by omega)
    have hfit : (s.client.querybuf ++ chunk s n).length ≤ plainWorld.client_max_querybuf_len := by
      rw [hchunk, h4, List.length_append, htake]
      omega
    have hstep := read_held (w := plainWorld) (Or.inl ⟨h2, h1⟩) h3 hne
      (show readlen s.client ≠ 0 by omega) hfit
    obtain ⟨s1, hs1⟩ : ∃ s1, step plainWorld s (.readQueryFromClient n) = s1 := ⟨_, rfl⟩
    rw [hs1] at hstep
    have hparked : Parked s1 (buf ++ inbox.take n) (inbox.drop n) := by
      rw [hstep]
      refine ⟨h1, h2, h3, ?_, ?_⟩
      · simp only [h4, hchunk]
      · simp only [h5, hchunk, htake]
    have hclient : s1.client = { s.client with querybuf := buf ++ inbox.take n } := by
      rw [hstep]
      simp only [h4, hchunk]
    have hlen1 : (inbox.drop n).length = inbox.length - n := List.length_drop
    obtain ⟨s', hrun, hparked', hclient'⟩ := ih s1 (buf ++ inbox.take n) (inbox.drop n) hparked
      (by omega) (by rw [List.length_append, htake]; omega) (by
        intro len hbulk
        rw [hclient] at hbulk
        have := hlen len hbulk
        rw [List.length_append, htake]
        omega)
    have hjoin : inbox.take n ++ (inbox.drop n).take (m * n) = inbox.take (m * n + n) := by
      rw [Nat.add_comm, List.take_add]
    refine ⟨s', ?_, ?_, ?_⟩
    · rw [List.replicate_succ, run_cons, hs1, hrun]
    · rw [Nat.succ_mul]
      rw [List.append_assoc, hjoin, List.drop_drop] at hparked'
      rw [Nat.add_comm n] at hparked'
      exact hparked'
    · rw [Nat.succ_mul, hclient', hclient, List.append_assoc, hjoin]

def overlongFront (arg : Bytes) : Bytes := countLine 2 ++ encodeArgs [arg] ++ [36]

theorem overlongFront_refused {arg : Bytes} (harg : arg.length = 65535) {c : Client}
    (hbuf : c.querybuf = overlongFront arg) (hzero : c.multibulklen = 0) (hbulk : c.bulklen = none) :
    Refuses c (processMultibulkBuffer c) := by
  have hsplit : c.querybuf = countLine 2 ++ (encodeArgs [arg] ++ [36]) := by
    rw [hbuf, overlongFront, List.append_assoc]
  rw [processMultibulkBuffer_countLine (by decide) (by decide) hzero hsplit]
  refine multibulkLoop_refuses [arg] ?_ c _ 2 [36] hbulk ?_ ?_ ⟨Nat.lt_succ_self 1, by decide, ?_⟩
  · intro a ha
    rw [List.mem_singleton.mp ha, harg]
    decide
  · rw [hsplit, List.length_append]
    exact Nat.le_add_right _ _
  · rw [hsplit, List.drop_left']
    rfl
  · simp only [posAfterAll, posStart, posTaken, harg]
    decide

def overlongRun : List (Event Bool) :=
  .elsewhere true false :: List.replicate 5 (.readQueryFromClient 13110) ++
    [.elsewhere false false, .processUnblockedClients]

theorem overlongRun_errors {arg : Bytes} (harg : arg.length = 65535) :
    (run (step plainWorld) (connect false (encodeAll [[arg, [98]]])) overlongRun).client.errors ≠ [] := by
  have hstream : encodeAll [[arg, [98]]] = overlongFront arg ++ [49, 13, 10, 98, 13, 10] := by
    have hsecond : encodeArg [98] = [36] ++ [49, 13, 10, 98, 13, 10] := by decide
    have hcount : ([arg, [98]] : List Bytes).length = 2 := rfl
    rw [encodeAll_cons, encodeAll_nil, List.append_nil, encode, hcount, encodeArgs_cons,
      encodeArgs_cons, encodeArgs_nil, hsecond, overlongFront, encodeArgs_cons, encodeArgs_nil]
    simp only [List.append_assoc, List.append_nil]
  have hlen : (overlongFront arg).length = 5 * 13110 := by
    have h1 : (countLine 2).length = 4 := by decide
    have h2 : (bulkLine 65535).length = 8 := by decide
    simp only [overlongFront, encodeArgs_cons, encodeArgs_nil, encodeArg, List.length_append, harg,
      crlf, h1, h2, List.length_cons, List.length_nil]
  have hhead : (overlongFront arg).head? = some 42 := rfl
  have hrefused := fun c => @overlongFront_refused arg harg c
  rw [hstream]
  generalize overlongFront arg = front at hlen hhead hrefused
  have hne : front ≠ [] := List.ne_nil_of_length_pos (by omega)
  have hparked : Parked (step plainWorld
      (connect false (front ++ [49, 13, 10, 98, 13, 10])) (.elsewhere true false)) []
      (front ++ [49, 13, 10, 98, 13, 10]) := ⟨rfl, rfl, rfl, rfl, rfl⟩
  obtain ⟨s, hrun, ⟨-, hslave, hfreed, hbuf, -⟩, hclient⟩ := parked_reads (n := 13110) (by decide)
    (by decide) 5 _ [] _ hparked (by rw [List.length_append]; omega) (by decide)
    (fun len h => by cases h)
  have htake : (front ++ [49, 13, 10, 98, 13, 10]).take (5 * 13110) = front := by
    rw [← hlen, List.take_left']
    rfl
  rw [htake, List.nil_append] at hbuf hclient
  rw [overlongRun, List.cons_append, run_cons, run_append, hrun]
  have hzero : s.client.multibulklen = 0 := by rw [hclient]; rfl
  have hbulk : s.client.bulklen = none := by rw [hclient]; rfl
  have hreq : s.client.reqtype = none := by rw [hclient]; rfl
  have hclose : s.client.flags.close_after_reply = false := by rw [hclient]; rfl
  obtain ⟨s1, hs1⟩ : ∃ s1, step plainWorld s (.elsewhere false false) = s1 := ⟨_, rfl⟩
  have hs1' : s1 = { s with
      server := false
      client := { s.client with flags := { s.client.flags with blocked := false } }
      processed := false } := by
    rw [← hs1]
    simp only [step, hfreed, Bool.false_eq_true, if_false]
  rw [run_cons, hs1, run_cons, run_nil]
  have hbuf1 : s1.client.querybuf = front := by rw [hs1']; exact hbuf
  have hopen : ¬ s1.freed = true := by
    rw [hs1']
    simp [hfreed]
  have hheld : ¬ Held plainWorld s1 := by
    rw [hs1']
    rintro (⟨-, h⟩ | h | h)
    · cases h
    · cases h
    · simp [hclose] at h
  have htype : requestType s1.client = .multibulk := by
    rw [requestType, hbuf1, hhead, show s1.client.reqtype = none by rw [hs1']; exact hreq]
    rfl
  have hrefuse := hrefused { s1.client with reqtype := some .multibulk } hbuf1
    (by rw [hs1']; exact hzero) (by rw [hs1']; exact hbulk)
  have hne1 : s1.client.querybuf ≠ [] := hbuf1 ▸ hne
  have hnext : (parseNext s1).1 = false ∧ (parseNext s1).2.client.errors ≠ [] := by
    rw [parseNext, htype]
    refine ⟨hrefuse.1, ?_⟩
    simp only [parseRequest, hrefuse.2]
    exact List.append_ne_nil_of_right_ne_nil _ (List.cons_ne_nil _ _)
  obtain ⟨fuel, hfuel⟩ : ∃ fuel, s1.client.querybuf.length = fuel + 1 :=
    Nat.exists_eq_succ_of_ne_zero (fun h => hne1 (List.length_eq_zero_iff.mp h))
  simp only [step, if_neg hopen, if_neg hne1, processInputBuffer, hfuel, processLoop,
    if_neg hheld, hnext.1, Bool.false_eq_true, if_false]
  exact hnext.2

/-- The length line of a big argument arrives, the clients are paused, and the peer sends the rest and
one command more. -/
def fullArgRun : List (Event Bool) :=
  .readQueryFromClient 12 :: .elsewhere true false :: List.replicate 5 (.readQueryFromClient 6554) ++
    [.readQueryFromClient 1]

theorem fullArgRun_freed {arg : Bytes} (harg : arg.length = 32768) :
    (run (step plainWorld) (connect false (encodeAll [[arg], [[98]]])) fullArgRun).freed = true := by
  have hstream : encodeAll [[arg], [[98]]] =
      [42, 49, 13, 10, 36, 51, 50, 55, 54, 56, 13, 10] ++ ((arg ++ crlf) ++ encode [[98]]) := by
    have hcount : countLine ([arg] : List Bytes).length = [42, 49, 13, 10] := by
      rw [List.length_singleton]
      decide
    have hline : bulkLine 32768 = [36, 51, 50, 55, 54, 56, 13, 10] := by decide
    rw [encodeAll_cons, encodeAll_cons, encodeAll_nil, List.append_nil, encode, hcount,
      encodeArgs_cons, encodeArgs_nil, encodeArg, harg, hline]
    simp only [List.append_assoc, List.append_nil]
    rfl
  have hlen : (arg ++ crlf).length = 5 * 6554 := by
    rw [List.length_append, harg]
    rfl
  rw [hstream]
  generalize arg ++ crlf = payload at hlen
  generalize hnext : encode [[98]] = next
  have hnextlen : next ≠ [] := hnext ▸ encode_ne_nil _
  have hfirst : step plainWorld (connect false
      ([42, 49, 13, 10, 36, 51, 50, 55, 54, 56, 13, 10] ++ (payload ++ next)))
        (.readQueryFromClient 12) = { connect false (payload ++ next) with
      client := { createClient with
        reqtype := some .multibulk, multibulklen := 1, bulklen := some 32768 }
      delivered := [42, 49, 13, 10, 36, 51, 50, 55, 54, 56, 13, 10]
      parses := [{ createClient with
        reqtype := some .multibulk
        querybuf := [42, 49, 13, 10, 36, 51, 50, 55, 54, 56, 13, 10] }]
      processed := true } := rfl
  have hparked : Parked (step plainWorld { connect false (payload ++ next) with
      client := { createClient with
        reqtype := some .multibulk, multibulklen := 1, bulklen := some 32768 }
      delivered := [42, 49, 13, 10, 36, 51, 50, 55, 54, 56, 13, 10]
      parses := [{ createClient with
        reqtype := some .multibulk
        querybuf := [42, 49, 13, 10, 36, 51, 50, 55, 54, 56, 13, 10] }]
      processed := true } (.elsewhere true false)) [] (payload ++ next) := ⟨rfl, rfl, rfl, rfl, rfl⟩
  obtain ⟨s, hrun, ⟨-, -, hfreed, hbuf, hinbox⟩, hclient⟩ := parked_reads (n := 6554) (by decide)
    (by decide) 5 _ [] _ hparked (by rw [List.length_append]; omega) (by decide)
    (fun len h => by
      have h1 : 32768 = len := Option.some.inj h
      rw [← h1, List.length_nil])
  have htake : (payload ++ next).take (5 * 6554) = payload := by
    rw [← hlen, List.take_left']
    rfl
  have hdrop : (payload ++ next).drop (5 * 6554) = next := by
    rw [← hlen, List.drop_left']
    rfl
  rw [htake, List.nil_append] at hbuf hclient
  rw [hdrop] at hinbox
  have hzero : readlen s.client = 0 := by
    rw [hclient]
    exact readlen_complete rfl rfl Nat.one_ne_zero (by decide) hlen
  have hsome : s.inbox.take 1 ≠ [] := by
    rw [hinbox]
    obtain ⟨b, bs, rfl⟩ := List.exists_cons_of_ne_nil hnextlen
    exact List.cons_ne_nil _ _
  have hopen : ¬ s.freed = true := by
    rw [hfreed]
    exact Bool.false_ne_true
  have hevents : fullArgRun = .readQueryFromClient 12 :: .elsewhere true false ::
      (List.replicate 5 (.readQueryFromClient 6554) ++ [.readQueryFromClient 1]) := rfl
  rw [hevents, run_cons, hfirst, run_cons, run_append, hrun, run_cons, run_nil]
  simp only [step, if_neg hopen, readQueryFromClient, if_neg hsome, if_pos hzero]

/-- Decoding does depend on chunking while the clients are paused: a buffer without any overlong line
is refused for its size, and a client is freed for an argument that is complete. -/
theorem chunking_while_paused :
    (∃ cmds : List (List Bytes), (∀ cmd ∈ cmds, WithinLimits cmd) ∧ ∃ es : List (Event Bool),
      ¬ ∃ n, DecodedTo cmds n (run (step plainWorld) (connect false (encodeAll cmds)) es)) ∧
    (∃ cmds : List (List Bytes), (∀ cmd ∈ cmds, WithinLimits cmd) ∧ ∃ es : List (Event Bool),
      (run (step plainWorld) (connect false (encodeAll cmds)) es).freed = true) := by
  constructor
  · refine ⟨[[List.replicate 65535 97, [98]]], ?_, overlongRun, ?_⟩
    · intro cmd hcmd
      rw [List.mem_singleton.mp hcmd]
      refine ⟨List.cons_ne_nil _ _, by decide, fun arg harg => ?_⟩
      rcases List.mem_cons.mp harg with h | h
      · rw [h, List.length_replicate]
        decide
      · rw [List.mem_singleton.mp h]
        decide
    · rintro ⟨n, hdecoded⟩
      exact overlongRun_errors List.length_replicate hdecoded.errors
  · refine ⟨[[List.replicate 32768 97], [[98]]], ?_, fullArgRun, fullArgRun_freed List.length_replicate⟩
    intro cmd hcmd
    rcases List.mem_cons.mp hcmd with h | h
    · rw [h]
      refine ⟨List.cons_ne_nil _ _, by decide, fun arg harg => ?_⟩
      rw [List.mem_singleton.mp harg, List.length_replicate]
      decide
    · rw [List.mem_singleton.mp h]
      refine ⟨by decide, by decide, fun arg harg => ?_⟩
      rw [List.mem_singleton.mp harg]
      decide

end RedisCluster.Networking
