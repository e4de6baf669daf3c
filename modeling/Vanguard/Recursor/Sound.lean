import Vanguard.Recursor.Representation
import Vanguard.Recursor.Sharing

namespace Vanguard.Recursor

open Library List

def AddressEntry.updateRtt (ae : AddressEntry) (rtt : Int64) : AddressEntry :=
  { ae with rtt := (ae.rtt * 7 + rtt * 3) / 10 }

/-- The loop of `NameServerEntry.updateRtt`: the first entry with the address is updated. -/
def updateFirstRtt (addr : Rdata) (rtt : Int64) : List AddressEntry → List AddressEntry
  | [] => []
  | ae :: aes =>
    if ae.addr = addr then ae.updateRtt rtt :: aes else ae :: updateFirstRtt addr rtt aes

def NameServerEntry.updateRtt (e : NameServerEntry) (server : NameServer) (rtt : Int64) :
    NameServerEntry :=
  { e with addrEntrys := updateFirstRtt server.addr rtt e.addrEntrys }

def NameServerManager.updateRtt (hash : Name → UInt32) (ns : NameServerManager)
    (server : NameServer) (rtt : Int64) : NameServerManager :=
  match ns.nsEntrys (hash server.name) with
  | some e =>
    if e.name = server.name then
      ⟨Function.update ns.nsEntrys (hash server.name) (some (e.updateRtt server rtt))⟩
    else ns
  | none => ns

def NameServerEntry.Fastest (e : NameServerEntry) (server : NameServer) : Prop :=
  ∃ a ∈ e.addrEntrys, server.addr = a.addr ∧ server.rtt = a.rtt ∧ ∀ b ∈ e.addrEntrys, a.rtt ≤ b.rtt

section

variable {T : Type} [NameTree T (Element ZoneEntry)]

/-- The tree leads from a zone to an entry of that zone, and every name server has an address. -/
structure NsasCache.Sound (nc : NsasCache T) : Prop where
  keyed : ∀ n elem, NameTree.get nc.zones n = some elem → elem.value.zone = n
  addressed : ∀ key e, nc.nameServers.nsEntrys key = some e → e.addrEntrys ≠ []

end

section

variable {T : Type} [NameTree T (Element ZoneEntry)] [ErasableNameTree T (Element ZoneEntry)]
  (hash : Name → UInt32)

theorem foldl_fastest (rest : List AddressEntry) (first : AddressEntry) :
    let sel := rest.foldl (fun sel a => if a.rtt < sel.rtt then a else sel) first
    sel ∈ first :: rest ∧ ∀ b ∈ first :: rest, sel.rtt ≤ b.rtt := by
  induction rest generalizing first with
  | nil => simp
  | cons a rest ih =>
    intro sel
    generalize hkept : (if a.rtt < first.rtt then a else first) = kept at *
    obtain ⟨hmem, hle⟩ := ih kept
    have hsel : sel = (rest.foldl (fun sel a => if a.rtt < sel.rtt then a else sel) kept) := by
      rw [← hkept]
      rfl
    rw [← hsel] at hmem hle
    have hchoice : (kept = a ∨ kept = first) ∧ kept.rtt ≤ a.rtt ∧ kept.rtt ≤ first.rtt := by
      rw [← hkept]
      split
      · next hlt => exact ⟨.inl rfl, Int64.le_refl _, Int64.le_of_lt hlt⟩
      · next hlt => exact ⟨.inr rfl, Int64.not_lt.mp hlt, Int64.le_refl _⟩
    obtain ⟨hkept, ha, hfirst⟩ := hchoice
    have hselKept := hle kept mem_cons_self
    refine ⟨?_, fun b hb => ?_⟩
    · rcases mem_cons.mp hmem with heq | hin
      · rcases hkept with hkept | hkept
        · simp [heq, hkept]
        · simp [heq, hkept]
      · simp [hin]
    · rcases mem_cons.mp hb with rfl | hb
      · exact Int64.le_trans hselKept hfirst
      · rcases mem_cons.mp hb with rfl | hb
        · exact Int64.le_trans hselKept ha
        · exact hle b (mem_cons_of_mem _ hb)

theorem NameServerEntry.selectNameServer_ok {e : NameServerEntry} (hne : e.addrEntrys ≠ [])
    (zone : Name) : ∃ s, e.selectNameServer zone = .ok s ∧ s.zone = zone ∧ s.name = e.name ∧
      e.Fastest s := by
  unfold NameServerEntry.selectNameServer NameServerEntry.Fastest
  cases haddrs : e.addrEntrys with
  | nil => exact absurd haddrs hne
  | cons first rest =>
    obtain ⟨hmem, hle⟩ := foldl_fastest rest first
    exact ⟨_, rfl, rfl, rfl, _, hmem, rfl, rfl, hle⟩

variable {ns : NameServerManager}

theorem ZoneEntry.selectNameServer_ok (zone : ZoneEntry) (now : Time)
    (haddressed : ∀ key e, ns.nsEntrys key = some e → e.addrEntrys ≠ []) :
    ∃ servers, zone.selectNameServer hash ns now = .ok servers ∧
      (servers = [] ↔ zone.liveServers hash ns now = []) ∧
      ∀ s ∈ servers, s.zone = zone.zone ∧ s.name ∈ zone.nameServers ∧
        ∃ e, ns.getNameServer hash s.name = some e ∧ e.isExpired now = false ∧ e.Fastest s := by
  have hlive : ∀ e ∈ zone.liveServers hash ns now, e.addrEntrys ≠ [] ∧ e.name ∈ zone.nameServers ∧
      ns.getNameServer hash e.name = some e ∧ e.isExpired now = false := by
    intro e he
    obtain ⟨hname, hentry, hexpired⟩ := (mem_liveServers hash).mp he
    have hget : ns.getNameServer hash e.name = some e := by
      simp [NameServerManager.getNameServer, hentry]
    exact ⟨haddressed _ e hentry, hname, hget, hexpired⟩
  unfold ZoneEntry.selectNameServer
  generalize zone.liveServers hash ns now = live at hlive
  induction live with
  | nil => exact ⟨[], rfl, by simp, by simp⟩
  | cons e es ih =>
    obtain ⟨servers, hservers, -, hall⟩ := ih fun e' he' => hlive e' (mem_cons_of_mem _ he')
    obtain ⟨hne, hname, hget, hexpired⟩ := hlive e mem_cons_self
    obtain ⟨s, hs, hzone, hsname, hfastest⟩ := NameServerEntry.selectNameServer_ok hne zone.zone
    refine ⟨s :: servers, ?_, by simp, fun s' hs' => ?_⟩
    · rw [mapM_cons, hs, hservers]
      rfl
    · rcases mem_cons.mp hs' with rfl | hs'
      · exact ⟨hzone, hsname ▸ hname, e, hsname ▸ hget, hexpired, hfastest⟩
      · exact hall s' hs'

theorem addressed_addNameServer {ns ns' : NameServerManager} {at_ : Instant} {index : ℕ}
    {name : Name} {ttl : UInt32} {addrs : List Rdata} {trustLevel : TrustLevel}
    (h : ∀ key e, ns.nsEntrys key = some e → e.addrEntrys ≠ [])
    (hadd : ns.addNameServer hash at_ index name ttl addrs trustLevel = .ok ns') :
    ∀ key e, ns'.nsEntrys key = some e → e.addrEntrys ≠ [] := by
  unfold NameServerManager.addNameServer newNameServerEntry at hadd
  by_cases haddrs : addrs = []
  · simp [haddrs] at hadd
  · simp only [haddrs, if_false] at hadd
    split at hadd
    · cases hadd
      exact h
    · cases hadd
      intro key e he
      by_cases hkey : key = hash name
      · subst hkey
        simp only [Function.update_self, Option.some.injEq] at he
        subst he
        simpa using haddrs
      · exact h key e (by simpa [hkey] using he)

theorem addressed_addGlues (at_ : Instant) (zone : Name) (index : ℕ) (glues : List (RRset Rdata))
    (h : ∀ key e, ns.nsEntrys key = some e → e.addrEntrys ≠ []) :
    ∀ key e, (addGlues hash at_ zone index glues ns).2.nsEntrys key = some e →
      e.addrEntrys ≠ [] := by
  induction glues generalizing index ns with
  | nil => exact h
  | cons glue glues ih =>
    unfold addGlues
    simp only []
    split
    · exact h
    · next hadd => exact ih (index + 1) (addressed_addNameServer hash h hadd)

theorem addressed_updateRtt (server : NameServer) (rtt : Int64)
    (h : ∀ key e, ns.nsEntrys key = some e → e.addrEntrys ≠ []) :
    ∀ key e, (ns.updateRtt hash server rtt).nsEntrys key = some e → e.addrEntrys ≠ [] := by
  have hupdate : ∀ aes : List AddressEntry, aes ≠ [] → updateFirstRtt server.addr rtt aes ≠ [] := by
    intro aes haes
    cases aes with
    | nil => exact absurd rfl haes
    | cons ae aes =>
      unfold updateFirstRtt
      split
      · exact cons_ne_nil _ _
      · exact cons_ne_nil _ _
  unfold NameServerManager.updateRtt
  split
  · next old hold =>
    split
    · intro key e he
      by_cases hkey : key = hash server.name
      · subst hkey
        simp only [Function.update_self, Option.some.injEq] at he
        subst he
        exact hupdate _ (h _ old hold)
      · exact h key e (by simpa [hkey] using he)
    · exact h
  · exact h

section

variable [LawfulNameTree T (Element ZoneEntry)] {nc : NsasCache T} (h : nc.Sound)

include h

omit [ErasableNameTree T (Element ZoneEntry)] in
theorem NsasCache.Sound.addZone (now : Time) (nsRRset : RRset Rdata) (trustLevel : TrustLevel) :
    (nc.addZone hash now nsRRset trustLevel).2.Sound := by
  unfold NsasCache.addZone
  split
  · exact h
  · next serverNames _ =>
    have hpush : ({ nc with
        visitedZone := (nc.visitedZone.pushFront
          (newZoneEntry now nsRRset.name serverNames nsRRset.ttl trustLevel)).1
        zones := NameTree.insert nc.zones nsRRset.name (nc.visitedZone.pushFront
          (newZoneEntry now nsRRset.name serverNames nsRRset.ttl trustLevel)).2 } :
          NsasCache T).Sound := by
      refine ⟨fun n elem hget => ?_, h.addressed⟩
      rw [NameTree.get_insert] at hget
      split at hget
      · next hn =>
        cases hold : NameTree.get nc.zones nsRRset.name with
        | some old =>
          rw [hold] at hget
          cases hget
          rw [hn]
          exact h.keyed _ _ hold
        | none =>
          rw [hold] at hget
          rw [hn, ← Option.some.inj hget]
          rfl
      · exact h.keyed n elem hget
    split
    · split
      · exact ⟨h.keyed, h.addressed⟩
      · exact hpush
    · exact hpush

omit [ErasableNameTree T (Element ZoneEntry)] in
theorem NsasCache.Sound.addZoneNameServer (at_ : Instant) (zone : Name) (msg : Message Section) :
    (nc.addZoneNameServer hash at_ zone msg).2.Sound := by
  unfold NsasCache.addZoneNameServer
  split
  · exact h
  · exact h
  · next nsRRset glues _ =>
    have hglues := addressed_addGlues hash at_ zone 0 glues h.addressed
    split
    · next heq =>
      rw [heq] at hglues
      exact ⟨h.keyed, hglues⟩
    · next nameServers heq =>
      rw [heq] at hglues
      have hnc : ({ nc with nameServers } : NsasCache T).Sound := ⟨h.keyed, hglues⟩
      exact hnc.addZone hash _ _ _

end

variable [LawfulErasableNameTree T (Element ZoneEntry)]

variable {nc : NsasCache T}

theorem NsasCache.Sound.removeZone (h : nc.Sound) (elem : Element ZoneEntry) :
    (nc.removeZone hash elem).Sound := by
  refine ⟨fun n e hget => ?_, fun key e he => ?_⟩
  · have hdelete : (if n = elem.value.zone then none else NameTree.get nc.zones n) = some e := by
      rw [← LawfulErasableNameTree.get_delete]
      exact hget
    split at hdelete
    · cases hdelete
    · exact h.keyed n e hdelete
  · simp only [NsasCache.removeZone, nsEntrys_deleteNameServers] at he
    split at he
    · cases he
    · exact h.addressed key e he

theorem NsasCache.Sound.enforceMemoryLimit (h : nc.Sound) (maxCacheSize : ℤ) (now : Time) :
    (nc.enforceMemoryLimit hash maxCacheSize now).2.Sound := by
  have hexpired : ∀ (elems : List (Element ZoneEntry)) (nc : NsasCache T), nc.Sound →
      (nc.removeExpired hash now elems).Sound := by
    intro elems
    induction elems with
    | nil => exact fun nc hnc => hnc
    | cons elem elems ih =>
      intro nc hnc
      simp only [NsasCache.removeExpired, foldl_cons]
      split
      · exact ih _ (hnc.removeZone hash elem)
      · exact ih _ hnc
  have holdest : ∀ zonesToRemove (nc : NsasCache T), nc.Sound →
      (NsasCache.removeOldest hash zonesToRemove nc).2.Sound := by
    intro zonesToRemove
    induction zonesToRemove with
    | zero => exact fun nc hnc => hnc
    | succ zonesToRemove ih =>
      intro nc hnc
      unfold NsasCache.removeOldest
      split
      · exact hnc
      · exact ih _ (hnc.removeZone hash _)
  unfold NsasCache.enforceMemoryLimit
  simp only []
  split
  · exact h
  · exact holdest _ _ (hexpired _ _ h)

end

end Vanguard.Recursor
