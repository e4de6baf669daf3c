import Vanguard.Recursor.NsasCache

/-!
# Selecting name servers and giving up zones

`SelectNameServers` removes zones that have expired or have no server left, `EnforceMemoryLimit`
those at the back of the visited list, both with `removeZone`.
-/

namespace Vanguard.Recursor

open Library

structure NameServer where
  zone : Name
  name : Name
  addr : Rdata
  rtt : Int64
  deriving DecidableEq, Repr

def NameServerEntry.selectNameServer (e : NameServerEntry) (zone : Name) :
    Except Fault NameServer :=
  match e.addrEntrys with
  | [] => .error .indexOutOfRange
  | first :: rest =>
    let selectEntry := rest.foldl (fun sel a => if a.rtt < sel.rtt then a else sel) first
    .ok ⟨zone, e.name, selectEntry.addr, selectEntry.rtt⟩

def expiredZoneCheckBatch : ℕ := 100

def defaultMaxCacheSize : ℤ := 4096

/-- The size `NewNsasCache` sets from its argument. -/
def effectiveMaxCacheSize (maxCacheSize : ℤ) : ℤ :=
  if maxCacheSize ≤ 0 then defaultMaxCacheSize else maxCacheSize

/-- `removeZone` was called without an element. -/
inductive NilElement where
  /-- `Back()` of the empty list. -/
  | nilElement
  deriving DecidableEq, Repr

section

variable (hash : Name → UInt32)

def NameServerManager.deleteNameServers (ns : NameServerManager) (names : List Name) :
    NameServerManager :=
  names.foldl (fun ns name => ⟨Function.update ns.nsEntrys (hash name) none⟩) ns

def ZoneEntry.liveServers (zone : ZoneEntry) (ns : NameServerManager) (now : Time) :
    List NameServerEntry :=
  zone.nameServers.filterMap fun name =>
    (ns.getNameServer hash name).filter (fun e => !e.isExpired now)

def ZoneEntry.selectNameServer (zone : ZoneEntry) (ns : NameServerManager) (now : Time) :
    Except Fault (List NameServer) :=
  (zone.liveServers hash ns now).mapM (fun e => e.selectNameServer zone.zone)

variable {T : Type} [NameTree T (Element ZoneEntry)] [ErasableNameTree T (Element ZoneEntry)]

def NsasCache.removeZone (nc : NsasCache T) (elem : Element ZoneEntry) : NsasCache T where
  zones := ErasableNameTree.delete nc.zones elem.value.zone
  visitedZone := nc.visitedZone.remove elem
  nameServers := nc.nameServers.deleteNameServers hash elem.value.nameServers

def NsasCache.selectNameServers (now : Time) (zone : Name) :
    ℕ → NsasCache T → Option (Except Fault (List NameServer)) × NsasCache T
  | 0, nc => (none, nc)
  | searches + 1, nc =>
    match NameTree.search nc.zones zone with
    | .notFound => (some (.ok []), nc)
    | .exactMatch elem | .closestEncloser elem =>
      if elem.value.isExpired now then
        NsasCache.selectNameServers now zone searches (nc.removeZone hash elem)
      else
        match elem.value.selectNameServer hash nc.nameServers now with
        | .error f => (some (.error f), nc)
        | .ok [] => NsasCache.selectNameServers now zone searches (nc.removeZone hash elem)
        | .ok servers =>
          (some (.ok servers), { nc with visitedZone := nc.visitedZone.moveToFront elem })

theorem NsasCache.selectNameServers_found {now : Time} {zone : Name} {searches : ℕ}
    {nc : NsasCache T} {elem : Element ZoneEntry}
    (hsearch : NameTree.search nc.zones zone = .exactMatch elem ∨
      NameTree.search nc.zones zone = .closestEncloser elem) :
    NsasCache.selectNameServers hash now zone (searches + 1) nc =
      if elem.value.isExpired now then
        NsasCache.selectNameServers hash now zone searches (nc.removeZone hash elem)
      else
        match elem.value.selectNameServer hash nc.nameServers now with
        | .error f => (some (.error f), nc)
        | .ok [] => NsasCache.selectNameServers hash now zone searches (nc.removeZone hash elem)
        | .ok servers =>
          (some (.ok servers), { nc with visitedZone := nc.visitedZone.moveToFront elem }) := by
  rcases hsearch with hsearch | hsearch <;> simp only [NsasCache.selectNameServers, hsearch]

theorem NsasCache.selectNameServers_none {now : Time} {zone : Name} {searches : ℕ}
    {nc : NsasCache T} (hnone : ¬∃ elem, NameTree.search nc.zones zone = .exactMatch elem ∨
      NameTree.search nc.zones zone = .closestEncloser elem) :
    NsasCache.selectNameServers hash now zone (searches + 1) nc = (some (.ok []), nc) := by
  cases hsearch : NameTree.search nc.zones zone with
  | notFound => rw [NsasCache.selectNameServers, hsearch]
  | exactMatch elem => exact absurd ⟨elem, .inl hsearch⟩ hnone
  | closestEncloser elem => exact absurd ⟨elem, .inr hsearch⟩ hnone

/-- `SelectNameServers`. Every search but the last removes one of the ancestors of the zone. -/
def NsasCache.select (nc : NsasCache T) (now : Time) (zone : Name) :
    Option (Except Fault (List NameServer)) × NsasCache T :=
  NsasCache.selectNameServers hash now zone (zone.length + 2) nc

/-- The first loop of `EnforceMemoryLimit`, over elements from the back of the list. -/
def NsasCache.removeExpired (now : Time) (nc : NsasCache T) (elems : List (Element ZoneEntry)) :
    NsasCache T :=
  elems.foldl (fun nc elem => if elem.value.isExpired now then nc.removeZone hash elem else nc) nc

/-- The second loop of `EnforceMemoryLimit`. -/
def NsasCache.removeOldest : ℕ → NsasCache T → Except NilElement Unit × NsasCache T
  | 0, nc => (.ok (), nc)
  | zonesToRemove + 1, nc =>
    match nc.visitedZone.back with
    | none => (.error .nilElement, nc)
    | some elem => NsasCache.removeOldest zonesToRemove (nc.removeZone hash elem)

def NsasCache.enforceMemoryLimit (maxCacheSize : ℤ) (nc : NsasCache T) (now : Time) :
    Except NilElement Unit × NsasCache T :=
  let zoneCount : ℤ := nc.visitedZone.len
  if zoneCount ≤ maxCacheSize then (.ok (), nc)
  else
    let batch := nc.visitedZone.elems.reverse.take expiredZoneCheckBatch
    NsasCache.removeOldest hash (zoneCount - maxCacheSize).toNat (nc.removeExpired hash now batch)

end

end Vanguard.Recursor
