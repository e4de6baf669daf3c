import Vanguard.Xfr.FullTransfer
import Vanguard.Zone.Serial

namespace Vanguard.Xfr

open Library Zone List

def Rfc1982 (compareSerial : UInt32 → UInt32 → Int) : Prop :=
  ∀ a b, compareSerial a b = -1 ↔ SerialGt b a

def compareSerial (a b : UInt32) : Int := if SerialGt b a then -1 else if SerialGt a b then 1 else 0

theorem rfc1982_compareSerial : Rfc1982 compareSerial := by
  intro a b
  unfold compareSerial
  split_ifs with hlt hgt <;> simp [hlt]

/-- Less than half the range apart as integers, or smaller by exactly half of it. -/
def Near (old new : UInt32) : Prop :=
  new.toNat < old.toNat + 2 ^ 31 ∧ old.toNat ≤ new.toNat + 2 ^ 31

instance (old new : UInt32) : Decidable (Near old new) := inferInstanceAs (Decidable (_ ∧ _))

variable {old new : UInt32}

theorem lt_iff_serialGt_iff_near : (old < new ↔ SerialGt new old) ↔ Near old new := by
  have hold := old.toNat_lt
  have hnew := new.toNat_lt
  unfold SerialGt Near
  simp only [UInt32.lt_iff_toNat_lt, UInt32.toNat_sub]
  omega

theorem firstSerial_of_serialOf {h : Objects} {p : Ptr} {serial : UInt32}
    (hserial : Vanguard.serialOf (h.value p).rdatas = some serial) :
    firstSerial h (h.rrsets.load p) = .ok serial := by
  have hvalue : (h.value p).rdatas = (h.rrsets.load p).rdatas.map h.rdatas.load := rfl
  rw [hvalue] at hserial
  unfold firstSerial
  cases hrdatas : (h.rrsets.load p).rdatas with
  | nil => simp [Vanguard.serialOf, hrdatas] at hserial
  | cons q rest =>
    simp only
    cases hload : h.rdatas.load q with
    | soa soa => simpa [Vanguard.serialOf, hrdatas, hload] using hserial
    | _ => simp [Vanguard.serialOf, hrdatas, hload] at hserial

theorem newer_eq_true_iff_of_serialOf {a b : List Rdata} (hold : Vanguard.serialOf a = some old)
    (hnew : Vanguard.serialOf b = some new) : newer a b = true ↔ old < new := by
  unfold Vanguard.serialOf at hold hnew
  unfold newer
  split at hold
  · next x hx =>
    split at hnew
    · next y hy =>
      cases hold
      cases hnew
      simp [hx, hy]
    · cases hnew
  · cases hold

theorem foldl_offer_soa {origin n : Name} {rs : List (RRset Rdata)}
    (hrs : ∀ r ∈ rs, r.typ ≠ .soa) (m : ZoneMap) :
    rs.foldl (ZoneMap.offer origin) m n .soa = m n .soa := by
  induction rs generalizing m with
  | nil => rfl
  | cons r rs ih =>
    rw [foldl_cons, ih fun r' hr' => hrs r' (mem_cons_of_mem _ hr')]
    by_cases haccepts : m.Accepts origin r
    · rw [ZoneMap.offer_of_accepts haccepts, if_neg fun heq => hrs r mem_cons_self heq.2.symm]
    · rw [ZoneMap.offer_of_not_accepts haccepts]

variable {T : Type} [DomainTree T NameNode] [LawfulDomainTree T NameNode] {h : Objects}

theorem addRRset_soa {z : MemoryZone T} {p q : Ptr} (hslot : z.slots z.origin .soa = some (some q))
    (hcname : z.slots z.origin .cname = none)
    (hold : Vanguard.serialOf (h.value q).rdatas = some old) (hname : (h.value p).name = z.origin)
    (htyp : (h.value p).typ = .soa) (hnew : Vanguard.serialOf (h.value p).rdatas = some new)
    (hpq : p ≠ q) : ∃ o, z.addRRset h p = .ok o ∧ o.err = none ∧
      (o.zone.slots z.origin .soa = some (some p) ↔ old < new) := by
  have hname' : (h.rrsets.load p).name = z.origin := hname
  have htyp' : (h.rrsets.load p).typ = .soa := htyp
  obtain ⟨nodeData, hdata, hlookup⟩ := Option.bind_eq_some_iff.mp hslot
  have hcname' : nodeData.lookup .cname = none := by simpa [MemoryZone.slots, hdata] using hcname
  have hvalid : z.checkRRsetValid (h.rrsets.load p) = none := by
    have hin : z.origin.isSubDomain z.origin = true := Name.isSubDomain_eq_true.mpr (suffix_refl _)
    simp [MemoryZone.checkRRsetValid, hname', htyp', hin, show RRType.soa ≠ .ns by decide]
  have hcheck : checkRRsetCouldBeAdded nodeData (h.rrsets.load p) = none := by
    simp [checkRRsetCouldBeAdded, htyp', hcname', show RRType.soa ≠ .cname by decide]
  have hmerge : mergeRRset h nodeData p = .ok (if new ≤ old then .keep none else .store h p) := by
    simp only [mergeRRset, htyp', if_true, hlookup, firstSerial_of_serialOf hold,
      firstSerial_of_serialOf hnew]
    split <;> rfl
  have hslots : (z.storeNode (insert z.domains (h.rrsets.load p).name) (h.rrsets.load p)
      (nodeData.insert (h.rrsets.load p).typ (some p))).slots z.origin .soa = some (some p) := by
    rw [MemoryZone.slots_storeNode p fun t => by simp [MemoryZone.slots, hname', hdata]]
    simp [SlotChange.apply, hname', htyp']
  rw [← hname'] at hdata
  simp only [MemoryZone.addRRset, hvalid, dataAt_insert, hdata, hcheck, hmerge]
  by_cases hle : new ≤ old
  · refine ⟨_, by rw [if_pos hle], rfl, iff_of_false ?_ (UInt32.not_lt.mpr hle)⟩
    have hkept : z.slots z.origin .soa ≠ some (some p) := by
      rw [hslot]
      simpa using Ne.symm hpq
    simpa [MemoryZone.slots] using hkept
  · exact ⟨_, by rw [if_neg hle], rfl, iff_of_true hslots (UInt32.not_le.mp hle)⟩

theorem serial_of_whole {F : Engine} (hF : F.Lawful) {dz : DynamicZone T} (typ : XfrType)
    (currentSerial : UInt32) {first last : AnswerRRset} {body : List AnswerRRset}
    (hz : dz.memoryZone.WellFormed h) (hfilled : dz.memoryZone.Filled)
    (hapex : dz.memoryZone.HasApex h)
    (hcname : dz.memoryZone.slots dz.memoryZone.origin .cname = none)
    (hold : dz.memoryZone.serial h = some old)
    (hanswer : WholeAnswer h dz.memoryZone.origin new first body last) :
    ∃ h' dz', updateZoneUseXFR F typ h dz currentSerial new (first :: (body ++ [last])) =
        .ok (h', dz') ∧
      dz'.memoryZone.serial h' = some (if old < new then new else old) := by
  have hzone := hanswer.wholeZone
  obtain ⟨s, dz', hintact, -, hcontent, hserved, hupdate⟩ :=
    updateZoneUseXFR_whole hF typ currentSerial hz hfilled hanswer
  have hcommit : s.zone.validate = none := by
    rw [hintact.wellFormed.validate_eq_none_iff, MemoryZone.HasApex, hintact.origin_eq, hcontent]
    exact ⟨isSome_foldl_offer _ hapex.1, isSome_foldl_offer _ hapex.2⟩
  refine ⟨s.objects, dz', hupdate, ?_⟩
  rw [hserved, if_pos hcommit]
  obtain ⟨e, he, hserial⟩ := Option.bind_eq_some_iff.mp hold
  have haccepts : (dz.memoryZone.content h).Accepts dz.memoryZone.origin first.value := by
    refine ⟨?_, ?_, fun _ => ?_, fun htyp => ?_⟩
    · rintro ⟨htyp, -⟩
      exact absurd (hzone.soa_typ.symm.trans htyp) (by decide)
    · rw [hzone.soa_name]
      exact Name.isSubDomain_eq_true.mpr (suffix_refl _)
    · rw [hzone.soa_name, MemoryZone.content, hcname, entryAt_none]
    · exact absurd (hzone.soa_typ.symm.trans htyp) (by decide)
  have hfirst : Vanguard.serialOf first.value.rdatas = some new := by
    obtain ⟨x, hx⟩ := hzone.soa_rdatas
    have hn := hanswer.first_serial
    simp only [AnswerRRset.HasSerial, hx, map_cons, map_nil, serialOf,
      List.cons.injEq, Option.some.injEq, and_true] at hn
    simp [Vanguard.serialOf, hx, hn]
  have hentry : s.zone.content s.objects s.zone.origin .soa =
      some (Entry.add (some e) first.value) := by
    rw [hintact.origin_eq, hcontent, map_cons, foldl_cons,
      foldl_offer_soa fun r hr => hzone.typ_ne_soa r hr, ZoneMap.offer_of_accepts haccepts,
      if_pos ⟨hzone.soa_name.symm, hzone.soa_typ.symm⟩, hzone.soa_name, hzone.soa_typ, he]
  have hnewer := newer_eq_true_iff_of_serialOf hserial hfirst
  rw [MemoryZone.serial, hentry, Option.bind_some, Entry.add, if_pos hzone.soa_typ]
  by_cases hlt : old < new
  · rw [if_pos (hnewer.mpr hlt), if_pos hlt]
    exact hfirst
  · rw [if_neg fun h => hlt (hnewer.mp h), if_neg hlt]
    exact hserial

def wrapObjects : Objects := .ofLists
  [⟨["example"], .soa, .internet, 300, [0]⟩, ⟨["example"], .ns, .internet, 300, [1]⟩,
    ⟨["example"], .soa, .internet, 300, [2]⟩]
  [.soa ⟨["ns", "example"], ["root", "example"], 4294967295, 7200, 3600, 86400, 300⟩,
    .ns ["ns", "example"],
    .soa ⟨["ns", "example"], ["root", "example"], 1, 7200, 3600, 86400, 300⟩]

end Vanguard.Xfr
