import Vanguard.Recursor.Sound

/-!
# Smoothing round trip times

`updateRtt` computes a weighted sum in wrapping arithmetic before it divides. `setUnreachable`
passes the largest duration there is, so the sum wraps.
-/

namespace Vanguard.Recursor

open List

def AddressEntry.setUnreachable (ae : AddressEntry) : AddressEntry := ae.updateRtt Int64.maxValue

def Between (old rtt new : Int64) : Prop := old ≤ new ∧ new ≤ rtt ∨ rtt ≤ new ∧ new ≤ old

/-- How often the weighted sum of the two times wraps around the 64 bits. -/
def wraps (old rtt : Int64) : ℤ :=
  (7 * old.toInt + 3 * rtt.toInt + 9223372036854775808) / 18446744073709551616

/-- By how much the weighted sum exceeds ten times the smaller time, up to the rounding. -/
def slack (old rtt : Int64) : ℤ :=
  (if old ≤ rtt then 3 * (rtt.toInt - old.toInt) else 7 * (old.toInt - rtt.toInt)) +
    if old = 0 ∨ rtt = 0 then 9 else 0

/-- Marking the address does not make `selectNameServer` take it, whatever the others. -/
def AddressEntry.NeverPreferred (ae : AddressEntry) : Prop :=
  ∀ (e : NameServerEntry) (zone : Name) (before after : List AddressEntry) (s s' : NameServer),
    (∀ a ∈ before ++ after, 0 ≤ a.rtt) →
    { e with addrEntrys := before ++ ae :: after }.selectNameServer zone = .ok s →
    { e with addrEntrys := before ++ ae.setUnreachable :: after }.selectNameServer zone = .ok s' →
    s'.addr = ae.addr → s.addr = ae.addr

section arithmetic

variable {old rtt : Int64}

theorem toInt_smoothed (old rtt : Int64) : ((old * 7 + rtt * 3) / 10).toInt =
    (7 * old.toInt + 3 * rtt.toInt - wraps old rtt * 18446744073709551616).tdiv 10 := by
  have hsum : (old * 7 + rtt * 3).toInt =
      7 * old.toInt + 3 * rtt.toInt - wraps old rtt * 18446744073709551616 := by
    have hseven : (7 : Int64).toInt = 7 := rfl
    have hthree : (3 : Int64).toInt = 3 := rfl
    rw [Int64.toInt_add, Int64.toInt_mul, Int64.toInt_mul, Int.bmod_add_bmod, Int.add_bmod_bmod,
      hseven, hthree, wraps, Int.bmod_def]
    omega
  rw [Int64.toInt_div_of_ne_right _ _ (by decide), hsum]
  rfl

theorem tdiv_ten (w : ℤ) : w.tdiv 10 = if 0 ≤ w then w / 10 else -(-w / 10) := by
  split
  · next hsign => exact Int.tdiv_eq_ediv_of_nonneg hsign
  · next hsign => rw [← Int.tdiv_eq_ediv_of_nonneg (by omega), Int.neg_tdiv, Int.neg_neg]

theorem between_smoothed_iff (hold : 0 ≤ old) (hrtt : 0 ≤ rtt) :
    Between old rtt ((old * 7 + rtt * 3) / 10) ↔
      wraps old rtt * 18446744073709551616 ≤ slack old rtt := by
  have hpos : 0 ≤ old.toInt ∧ 0 ≤ rtt.toInt :=
    ⟨Int64.le_iff_toInt_le.mp hold, Int64.le_iff_toInt_le.mp hrtt⟩
  have hmax : old.toInt < 9223372036854775808 ∧ rtt.toInt < 9223372036854775808 :=
    ⟨old.toInt_lt, rtt.toInt_lt⟩
  have hzero (x : Int64) : x = 0 ↔ x.toInt = 0 := Int64.toInt_inj.symm
  simp only [Between, slack, Int64.le_iff_toInt_le, toInt_smoothed, hzero]
  generalize hk : wraps old rtt = k
  rw [wraps] at hk
  have hnonneg : 0 ≤ k := by omega
  generalize hw : 7 * old.toInt + 3 * rtt.toInt - k * 18446744073709551616 = w
  rw [tdiv_ten]
  split_ifs <;> omega

variable {ae : AddressEntry}

theorem setUnreachable_lt (hpos : 0 < ae.rtt) : ae.setUnreachable.rtt < ae.rtt := by
  have hlow : 0 < ae.rtt.toInt := Int64.lt_iff_toInt_lt.mp hpos
  have hhigh : ae.rtt.toInt < 9223372036854775808 := ae.rtt.toInt_lt
  have hmax : Int64.maxValue.toInt = 9223372036854775807 := rfl
  rw [AddressEntry.setUnreachable, AddressEntry.updateRtt, Int64.lt_iff_toInt_lt, toInt_smoothed,
    hmax]
  generalize hk : wraps ae.rtt Int64.maxValue = k
  rw [wraps, hmax] at hk
  -- The product with the largest duration wraps once, and the sum with it wraps again.
  have htwice : 2 ≤ k := by omega
  rw [tdiv_ten]
  split <;> omega

theorem setUnreachable_of_zero (hzero : ae.rtt = 0) :
    ae.setUnreachable.rtt = 922337203685477580 := by
  rw [AddressEntry.setUnreachable, AddressEntry.updateRtt, hzero]
  rfl

end arithmetic

section selection

theorem foldl_select_of_le (l : List AddressEntry) {p q : AddressEntry} (hle : p.rtt ≤ q.rtt) :
    l.foldl (fun sel a => if a.rtt < sel.rtt then a else sel) p = p ∨
      l.foldl (fun sel a => if a.rtt < sel.rtt then a else sel) q =
        l.foldl (fun sel a => if a.rtt < sel.rtt then a else sel) p := by
  induction l generalizing q with
  | nil => exact .inl rfl
  | cons a l ih =>
    simp only [foldl_cons]
    by_cases hlt : a.rtt < p.rtt
    · rw [if_pos hlt, if_pos (Int64.lt_of_lt_of_le hlt hle)]
      exact .inr rfl
    · rw [if_neg hlt]
      apply ih
      split
      · exact Int64.not_lt.mp hlt
      · exact hle

theorem neverPreferred_of_le {ae : AddressEntry} (hle : ae.rtt ≤ ae.setUnreachable.rtt) :
    ae.NeverPreferred := by
  intro e zone before after s s' _ hselect hselect' haddr
  cases before with
  | nil =>
    cases hselect
    cases hselect'
    rcases foldl_select_of_le after hle with heq | heq
    · exact congrArg AddressEntry.addr heq
    · rwa [heq] at haddr
  | cons first before =>
    simp only [NameServerEntry.selectNameServer, cons_append, foldl_append,
      foldl_cons] at hselect hselect'
    generalize before.foldl (fun sel a => if a.rtt < sel.rtt then a else sel) first = kept at *
    cases hselect
    cases hselect'
    by_cases hlt : ae.rtt < kept.rtt
    · rw [if_pos hlt]
      have hkept : ae.rtt ≤
          (if ae.setUnreachable.rtt < kept.rtt then ae.setUnreachable else kept).rtt := by
        split
        · exact hle
        · exact Int64.le_of_lt hlt
      rcases foldl_select_of_le after hkept with heq | heq
      · exact congrArg AddressEntry.addr heq
      · rwa [heq] at haddr
    · rw [if_neg hlt]
      have hkept : ¬ae.setUnreachable.rtt < kept.rtt :=
        Int64.not_lt.mpr (Int64.le_trans (Int64.not_lt.mp hlt) hle)
      rwa [if_neg hkept] at haddr

/-- Beside an address that is as fast, the marked one is taken. -/
theorem not_neverPreferred {ae : AddressEntry} (hpos : 0 < ae.rtt) : ¬ae.NeverPreferred := by
  obtain ⟨addr, haddr⟩ : ∃ addr, addr ≠ ae.addr := by
    by_cases hnil : ae.addr = .a []
    · exact ⟨.ns [], by rw [hnil]; decide⟩
    · exact ⟨.a [], fun heq => hnil heq.symm⟩
  intro hnever
  have hlt := setUnreachable_lt hpos
  have hsame : ae.setUnreachable.addr = ae.addr := by
    rw [AddressEntry.setUnreachable, AddressEntry.updateRtt]
  generalize hmarked : ae.setUnreachable = marked at hlt hsame
  refine haddr (hnever ⟨[], [], 0, .fromAuth⟩ [] [⟨addr, ae.rtt⟩] [] ⟨[], [], addr, ae.rtt⟩
    ⟨[], [], marked.addr, marked.rtt⟩ ?_ ?_ ?_ hsame)
  · simpa using Int64.le_of_lt hpos
  · simp [NameServerEntry.selectNameServer]
  · simp [NameServerEntry.selectNameServer, hmarked, hlt]

end selection

/-- The new time is between the two exactly if the slack covers the wrapping; marked addresses fail
unless their time is zero. -/
theorem smoothing_between_iff (ae : AddressEntry) (hold : 0 ≤ ae.rtt) :
    (∀ rtt, 0 ≤ rtt → (Between ae.rtt rtt (ae.updateRtt rtt).rtt ↔
      wraps ae.rtt rtt * 18446744073709551616 ≤ slack ae.rtt rtt)) ∧
    (Between ae.rtt Int64.maxValue ae.setUnreachable.rtt ↔ ae.rtt = 0) ∧
    (ae.NeverPreferred ↔ ae.rtt = 0) := by
  refine ⟨fun rtt hrtt => between_smoothed_iff hold hrtt, ?_⟩
  by_cases hzero : ae.rtt = 0
  · have hnew := setUnreachable_of_zero hzero
    refine ⟨iff_of_true ?_ hzero, iff_of_true (neverPreferred_of_le ?_) hzero⟩
    · rw [hnew, hzero]
      exact .inl (by decide)
    · rw [hnew, hzero]
      decide
  · have hpos : 0 < ae.rtt := Int64.lt_of_le_of_ne hold (Ne.symm hzero)
    have hlt := setUnreachable_lt hpos
    refine ⟨iff_of_false ?_ hzero, iff_of_false (not_neverPreferred hpos) hzero⟩
    rintro (⟨hle, -⟩ | ⟨hle, -⟩)
    · exact Int64.not_lt.mpr hle hlt
    · exact Int64.not_lt.mpr (Int64.le_trans ae.rtt.le_maxValue hle) hlt

/-- A measured duration is far below the point at which the sum wraps. -/
theorem example_measured_between :
    Between 30000000 90000000 (AddressEntry.updateRtt ⟨.a [192, 0, 2, 1], 30000000⟩ 90000000).rtt :=
  ((smoothing_between_iff ⟨.a [192, 0, 2, 1], 30000000⟩ (by decide)).1 90000000 (by decide)).mpr
    (by decide)

/-- The slower of two addresses gets a negative time when it is marked, and is taken. -/
theorem example_unreachable_preferred :
    NameServerEntry.selectNameServer ⟨["ns"], [⟨.a [192, 0, 2, 1], 20000000⟩,
        ⟨.a [192, 0, 2, 2], 30000000⟩], 0, .fromAuth⟩ [] =
      .ok ⟨[], ["ns"], .a [192, 0, 2, 1], 20000000⟩ ∧
    NameServerEntry.selectNameServer ⟨["ns"], [⟨.a [192, 0, 2, 1], 20000000⟩,
        AddressEntry.setUnreachable ⟨.a [192, 0, 2, 2], 30000000⟩], 0, .fromAuth⟩ [] =
      .ok ⟨[], ["ns"], .a [192, 0, 2, 2], -922337203664477581⟩ := by
  decide

end Vanguard.Recursor
