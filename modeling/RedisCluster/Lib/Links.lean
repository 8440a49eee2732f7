import Mathlib.Data.List.Basic

/-!
# FIFO links between nodes

`ls a b` is the list of the messages on their way from `a` to `b`, the oldest first.
-/

namespace RedisCluster.Lib

variable {ν μ : Type*}

abbrev Links (ν μ : Type*) := ν → ν → List μ

namespace Links

variable [DecidableEq ν]

/-- `src` sends messages to several nodes. -/
def send (ls : Links ν μ) (src : ν) (out : List (ν × μ)) : Links ν μ := fun a b =>
  if a = src then ls a b ++ (out.filter fun p => p.1 = b).map Prod.snd else ls a b

/-- The link from `src` to `dst` takes the content `l`. -/
def set (ls : Links ν μ) (src dst : ν) (l : List μ) : Links ν μ := fun a b =>
  if a = src ∧ b = dst then l else ls a b

theorem mem_send {ls : Links ν μ} {src a b : ν} {out : List (ν × μ)} {m : μ} :
    m ∈ ls.send src out a b ↔ m ∈ ls a b ∨ a = src ∧ (b, m) ∈ out := by
  unfold send
  by_cases ha : a = src
  · rw [if_pos ha, List.mem_append, List.mem_map]
    refine or_congr_right ⟨?_, fun h => ⟨(b, m), List.mem_filter.mpr ⟨h.2, by simp⟩, rfl⟩⟩
    rintro ⟨⟨d, m'⟩, hp, rfl⟩
    obtain ⟨hmem, hd⟩ := List.mem_filter.mp hp
    have hd' : d = b := by simpa using hd
    exact ⟨ha, hd' ▸ hmem⟩
  · rw [if_neg ha]
    exact ⟨Or.inl, fun h => h.elim id fun hc => absurd hc.1 ha⟩

theorem send_nil (ls : Links ν μ) (src : ν) : ls.send src [] = ls := by
  funext a b
  simp [send]

theorem countP_send {ls : Links ν μ} {src : ν} {out : List (ν × μ)} {p : μ → Bool}
    (hout : ∀ q ∈ out, p q.2 = false) (a b : ν) :
    (ls.send src out a b).countP p = (ls a b).countP p := by
  unfold send
  by_cases ha : a = src
  · rw [if_pos ha, List.countP_append]
    have hzero : ((out.filter fun q => q.1 = b).map Prod.snd).countP p = 0 := by
      rw [List.countP_eq_zero]
      intro m hm
      obtain ⟨q, hq, rfl⟩ := List.mem_map.mp hm
      simp [hout q (List.mem_filter.mp hq).1]
    rw [hzero, Nat.add_zero]
  · rw [if_neg ha]

theorem countP_send_singleton {ls : Links ν μ} {src dst : ν} {m : μ} {p : μ → Bool} (a b : ν) :
    (ls.send src [(dst, m)] a b).countP p =
      (ls a b).countP p + if a = src ∧ b = dst ∧ p m = true then 1 else 0 := by
  unfold send
  by_cases ha : a = src
  · rw [if_pos ha, List.countP_append]
    by_cases hb : dst = b
    · have hb' : b = dst := hb.symm
      by_cases hm : p m = true
      · simp [hb, ha, hm]
      · simp [hb, hm]
    · have hb' : ¬ b = dst := fun hc => hb hc.symm
      simp [hb, hb']
  · rw [if_neg ha, if_neg (fun hc => ha hc.1), Nat.add_zero]

theorem set_self (ls : Links ν μ) (src dst : ν) (l : List μ) : ls.set src dst l src dst = l :=
  if_pos ⟨rfl, rfl⟩

theorem set_of_ne {ls : Links ν μ} {src dst a b : ν} {l : List μ} (h : ¬ (a = src ∧ b = dst)) :
    ls.set src dst l a b = ls a b := if_neg h

theorem mem_set {ls : Links ν μ} {src dst a b : ν} {l : List μ} {m : μ}
    (hl : ∀ m ∈ l, m ∈ ls src dst) (h : m ∈ ls.set src dst l a b) : m ∈ ls a b := by
  by_cases hab : a = src ∧ b = dst
  · rw [hab.1, hab.2] at h ⊢
    rw [set_self] at h
    exact hl m h
  · rwa [set_of_ne hab] at h

end Links

end RedisCluster.Lib
