import Vanguard.K8s.Auth
import Vanguard.Net.Networks

/-!
# Reverse zones

The name of a reverse zone is cut out of the text of the network, whose mask has been read by
`net.ParseCIDR`; the names of the records are made of the texts of the addresses.
-/

namespace Vanguard.K8s

open Net List

/-- `String`, with the text of an address without an IPv4 form as parameter. -/
def addressText (text6 : IP → String) (ip : IP) : String :=
  match to4 ip with
  | some ip4 => join (ip4.map decimal)
  | none => text6 ip

def reverseBase : Name := ["in-addr", "arpa"]

/-- Networks are read by `net.ParseCIDR`, digits as they are, and IPv6 texts have no dot. -/
structure Reads (g : Texts) (parseIPv6 : List Char → Option IP) (text6 : IP → String) : Prop where
  network : ∀ s : String, g.parseCIDR s = (parseCIDR parseIPv6 s.toList).map IPNet.ones
  length : ∀ s ip, parseIPv6 s = some ip → ip.length = 16
  noDot : ∀ ip, '.' ∉ (text6 ip).toList
  labels : ∀ (labels : List String) z, (∀ l ∈ labels, Digits l.toList) →
    g.nameFromString (join (labels ++ [reverseBaseZone])) = some z → z = labels ++ reverseBase
  bytes : ∀ ip : IP, ip.length ≤ 4 →
    g.nameFromString (join (ip.map decimal ++ [reverseBaseZone])) =
      some (ip.map decimal ++ reverseBase) ∧
    g.nameFromStringUnsafe (join (ip.map decimal ++ [reverseBaseZone])) =
      some (ip.map decimal ++ reverseBase)

/-- No panic, and all addresses of the network have names in the zone, if there is one. -/
def Contained (g : Texts) (text6 : IP → String) (network : String) (net : IPNet) : Prop :=
  match reverseZoneNameForNetwork g network with
  | .ok zone => ∀ ip, net.contains ip = true → ∃ z n, g.nameFromString zone = some z ∧
      getReverseName g (addressText text6 ip) = .ok (some n) ∧ n.isSubDomain z = true
  | .error (.panic _) => False
  | .error _ => True

theorem split_join {labels : List String} (h : ∀ l ∈ labels, '.' ∉ l.toList) (hne : labels ≠ []) :
    split (join labels) = labels := by
  have hdots : ∀ l ∈ labels.map String.toList, '.' ∉ l := forall_mem_map.mpr h
  have hsplit := splitOn_intercalate '.' hdots (by simpa using hne)
  have hjoin : (join labels).toList = ['.'].intercalate (labels.map String.toList) :=
    String.toList_intercalate
  rw [split, hjoin, hsplit, map_map]
  exact (map_congr_left fun l _ => String.ofList_toList).trans (map_id _)

section

variable {g : Texts} {parseIPv6 : List Char → Option IP} {text6 : IP → String} {network : String}
  {net : IPNet}

/-- The zone has the first labels of the text, as many as the mask has bytes. -/
theorem reverseZoneNameForNetwork_eq {k : ℕ} (hk : k = 1 ∨ k = 2 ∨ k = 3)
    (hones : g.parseCIDR network = some (8 * k)) :
    reverseZoneNameForNetwork g network =
      if k ≤ (split network).length then
        .ok (join (((split network).take k).reverse ++ [reverseBaseZone]))
      else .error (.panic .indexOutOfRange) := by
  unfold reverseZoneNameForNetwork
  rw [hones]
  generalize split network = labels
  rcases hk with rfl | rfl | rfl
  all_goals
    rcases labels with _ | ⟨a, _ | ⟨b, _ | ⟨c, labels⟩⟩⟩ <;> rfl

variable (h : Reads g parseIPv6 text6)

include h

theorem Reads.getReverseName {ip ip4 : IP} (hip : to4 ip = some ip4) :
    K8s.getReverseName g (addressText text6 ip) =
      .ok (some ((ip4.map decimal).reverse ++ reverseBase)) := by
  have hlen := length_of_to4 hip
  have hsplit : split (addressText text6 ip) = ip4.map decimal := by
    rw [addressText, hip]
    refine split_join (forall_mem_map.mpr fun b _ => (digits_decimal b).not_mem_dot) ?_
    rw [← length_pos_iff, length_map, hlen]
    decide
  obtain ⟨a, b, c, d, rfl⟩ : ∃ a b c d, ip4 = [a, b, c, d] := by
    rcases ip4 with _ | ⟨a, _ | ⟨b, _ | ⟨c, _ | ⟨d, _ | ⟨e, ip4⟩⟩⟩⟩⟩ <;> simp_all
  have hread := (h.bytes [d, c, b, a] le_rfl).2
  simp only [map_cons, map_nil, cons_append, nil_append] at hread
  simp only [K8s.getReverseName, hsplit, map_cons, map_nil, hread]
  rfl

theorem Reads.getReverseName_eq_none {ip : IP} (hip : to4 ip = none) :
    K8s.getReverseName g (addressText text6 ip) = .ok none := by
  simp [K8s.getReverseName, addressText, hip, split, splitOn_eq_singleton (h.noDot ip)]

/-- Labels of digits before the dots, or an address that the mask leaves an IPv6 one. -/
theorem Reads.ip_cases (hnet : parseCIDR parseIPv6 network.toList = some net) {k : ℕ}
    (hk : k = 1 ∨ k = 2 ∨ k = 3) (hones : net.ones = 8 * k) :
    (net.ip.length = 4 ∧ k ≤ (split network).length ∧
      ∀ l ∈ (split network).take k, Digits l.toList) ∨
    (net.ip.length = 16 ∧ to4 net.ip = none) := by
  obtain ⟨addr, rest, ip, hs, hmask, hv4 | hv6⟩ := parseCIDR_eq_some hnet
  · left
    obtain ⟨hlen, a, b, c, d, ha, hb, hc, rfl⟩ := parseIPv4_eq_some hv4
    have hsplit : ∃ labels, split network =
        String.ofList a :: String.ofList b :: String.ofList c :: labels := by
      simp only [append_assoc, cons_append] at hs
      rw [split, hs, splitOn_append_cons_self_of_not_mem ha.not_mem_dot,
        splitOn_append_cons_self_of_not_mem hb.not_mem_dot,
        splitOn_append_cons_self_of_not_mem hc.not_mem_dot]
      exact ⟨_, rfl⟩
    obtain ⟨labels, hsplit⟩ := hsplit
    have hthree : k ≤ 3 := by omega
    refine ⟨by rw [hmask, length_mask, hlen], ?_, fun l hl => ?_⟩
    · rw [hsplit]
      simp only [length_cons]
      omega
    · have hmem : l ∈ (split network).take 3 := take_subset_take_left _ hthree hl
      rw [hsplit] at hmem
      simp only [take_succ_cons, take_zero, mem_cons, not_mem_nil, or_false] at hmem
      rcases hmem with rfl | rfl | rfl <;> simpa
  · right
    have hlen : net.ip.length = 16 := by rw [hmask, length_mask, h.length _ _ hv6]
    refine ⟨hlen, ?_⟩
    have hbyte : (cidrMask (8 * k) 16)[10]? = some 0 := by
      rcases hk with rfl | rfl | rfl <;> decide
    have hzero : net.ip[10]? = some 0 := by
      have hlt : 10 < ip.length := by rw [h.length _ _ hv6]; decide
      rw [hmask, mask, h.length _ _ hv6, hones, getElem?_zipWith, hbyte, getElem?_eq_getElem hlt]
      exact congrArg some UInt8.and_zero
    rw [to4, if_neg (by omega), if_neg]
    rintro ⟨-, hmapped⟩
    have hlast : (net.ip.take 12)[10]? = some 255 := by
      rw [hmapped]
      rfl
    rw [getElem?_take_of_lt (by decide), hzero] at hlast
    exact absurd hlast (by decide)

end

/-- A reverse zone contains its addresses exactly if the mask is not supported, or the network is in
IPv4 notation without leading zeros. -/
theorem reverse_zone_contains_iff (g : Texts) (parseIPv6 : List Char → Option IP)
    (text6 : IP → String) (h : Reads g parseIPv6 text6) (network : String) (net : IPNet)
    (hnet : parseCIDR parseIPv6 network.toList = some net) :
    Contained g text6 network net ↔ net.ones ∉ [8, 16, 24] ∨ net.ip.length = 4 ∧
      (split network).take (net.ones / 8) = (net.ip.take (net.ones / 8)).map decimal := by
  have hones : g.parseCIDR network = some net.ones := by
    rw [h.network, hnet]
    rfl
  by_cases hmask : net.ones ∈ [8, 16, 24]
  swap
  · simp only [mem_cons, not_mem_nil, or_false, not_or] at hmask
    have herror : reverseZoneNameForNetwork g network = .error .unsupportNetmask := by
      simp [reverseZoneNameForNetwork, hones, orElse, hmask, bind, Except.bind]
    simp [Contained, herror, hmask]
  obtain ⟨k, hk, hbits⟩ : ∃ k, (k = 1 ∨ k = 2 ∨ k = 3) ∧ net.ones = 8 * k := by
    simp only [mem_cons, not_mem_nil, or_false] at hmask
    exact ⟨net.ones / 8, by omega, by omega⟩
  have hdiv : net.ones / 8 = k := by omega
  rw [hdiv, or_iff_right (not_not_intro hmask), Contained,
    reverseZoneNameForNetwork_eq hk (hones.trans (by rw [hbits]))]
  rcases h.ip_cases hnet hk hbits with ⟨hlen, hlabels, hdigits⟩ | ⟨hlen, hv6⟩
  · simp only [if_pos hlabels]
    constructor
    · intro hall
      obtain ⟨z, n, hz, hn, hsub⟩ := hall net.ip net.contains_self
      rw [h.getReverseName (by rw [to4, if_pos hlen])] at hn
      cases hn
      obtain rfl := h.labels _ z (fun l hl => hdigits l (mem_reverse.mp hl)) hz
      rw [Name.isSubDomain_eq_true, suffix_append_self_iff, reverse_suffix] at hsub
      have htake := prefix_iff_eq_take.mp hsub
      rw [length_take_of_le hlabels, ← map_take] at htake
      exact ⟨hlen, htake⟩
    · rintro ⟨-, hplain⟩ ip hip
      obtain ⟨ip4, h4, htake⟩ := net.take_of_contains hlen hbits hip
      have hshort : (net.ip.take k).reverse.length ≤ 4 := by
        rw [length_reverse, length_take]
        omega
      rw [hplain, ← map_reverse]
      refine ⟨_, _, (h.bytes _ hshort).1, h.getReverseName h4, ?_⟩
      rw [Name.isSubDomain_eq_true, suffix_append_self_iff, ← htake, map_reverse,
        reverse_suffix, map_take]
      exact take_prefix _ _
  · constructor
    · intro hall
      split_ifs at hall
      · obtain ⟨_, n, -, hn, -⟩ := hall net.ip net.contains_self
        rw [h.getReverseName_eq_none hv6] at hn
        cases hn
      · exact absurd hall not_false
    · rintro ⟨hlen4, -⟩
      omega

/-- A reader of IPv6 addresses that knows one of them. -/
def uniqueLocal (s : List Char) : Option IP :=
  if s = "fd00::".toList then some (0xfd :: List.replicate 15 0) else none

/-- A library that reads every text label by label. -/
def plainTexts : Texts where
  nameFromString s := some (split s)
  nameFromStringUnsafe s := some (split s)
  concat m o := some (m ++ o)
  aFromString _ := none
  txtFromString _ := none
  ptr _ := []
  parseCIDR s := (parseCIDR uniqueLocal s.toList).map IPNet.ones

theorem split_reverse_name {labels : List String} (h : ∀ l ∈ labels, '.' ∉ l.toList) :
    split (join (labels ++ [reverseBaseZone])) = labels ++ reverseBase := by
  have hjoin : join (labels ++ [reverseBaseZone]) = join (labels ++ reverseBase) := by
    induction labels with
    | nil => rfl
    | cons l labels ih =>
      rw [cons_append, cons_append, join, join,
        String.intercalate_cons_of_ne_nil (by simp), String.intercalate_cons_of_ne_nil (by simp
          [reverseBase])]
      exact congrArg _ (ih (forall_mem_cons.mp h).2)
  rw [hjoin]
  refine split_join (forall_mem_append.mpr ⟨h, ?_⟩) (by simp [reverseBase])
  decide

theorem plainTexts_reads : Reads plainTexts uniqueLocal fun _ => "" := by
  refine ⟨fun _ => rfl, fun s ip hip => ?_, fun _ => by decide, fun labels z hlabels hz => ?_,
    fun ip _ => ?_⟩
  · unfold uniqueLocal at hip
    split_ifs at hip
    cases hip
    rfl
  · exact (Option.some.inj hz).symm.trans
      (split_reverse_name fun l hl => (hlabels l hl).not_mem_dot)
  · have hsplit := @split_reverse_name (ip.map decimal)
      (forall_mem_map.mpr fun b _ => (digits_decimal b).not_mem_dot)
    exact ⟨congrArg some hsplit, congrArg some hsplit⟩

/-- The network of pods `10.42.0.0/16`. -/
theorem example_pod_network :
    Contained plainTexts (fun _ => "") "10.42.0.0/16" ⟨[10, 42, 0, 0], 16⟩ :=
  (reverse_zone_contains_iff _ _ _ plainTexts_reads _ _ (by decide)).mpr (.inr (by decide))

/-- `fd00::/16` has no second label. -/
theorem example_no_second_label :
    parseCIDR uniqueLocal "fd00::/16".toList = some ⟨0xfd :: List.replicate 15 0, 16⟩ ∧
      reverseZoneNameForNetwork plainTexts "fd00::/16" = .error (.panic .indexOutOfRange) := by
  decide

end Vanguard.K8s
