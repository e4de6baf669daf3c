import Mathlib.Data.List.Dedup
import Vanguard.Cache.HttpError
import Vanguard.Cache.Placement

/-!
# The message caches of the views

`ReloadConfig` keeps the caches of the views that are still there and gives them the new settings;
commands clear caches or remove the messages of a name. The rest of the program may write to any
object but leaves the questions of cached messages.
-/

namespace Vanguard.Cache

open Library

structure CacheConf where
  positiveTtl : UInt32
  negativeTtl : UInt32
  /-- The largest number of messages of a view, without bound if 0. -/
  maxCacheSize : ℕ
  shortAnswer : Bool
  deriving DecidableEq, Repr

def defaultNegativeCacheTtl : UInt32 := 60

def defaultPositiveCacheTtl : UInt32 := 3600

def defaultView : String := "default"

/-- `zone.SupportRRTypes`: SOA, NS, A, AAAA, MX, SRV, SPF, PTR, TXT, CNAME, NAPTR, OPT and
DNAME. -/
def supportRRTypes : List RRType :=
  [.soa, .ns, .a, .aaaa, .mx, .srv, ⟨99⟩, ⟨12⟩, ⟨16⟩, .cname, ⟨35⟩, ⟨41⟩, ⟨39⟩]

namespace MessageCache

def reloadConfig (c : MessageCache) (conf : CacheConf) : MessageCache :=
  { c with
    positiveTtl := if conf.positiveTtl = 0 then defaultPositiveCacheTtl else conf.positiveTtl
    negativeTtl := if conf.negativeTtl = 0 then defaultNegativeCacheTtl else conf.negativeTtl
    maxSize := conf.maxCacheSize
    shortAnswer := conf.shortAnswer }

/-- `newMessageCache`. -/
def ofConf (conf : CacheConf) : MessageCache := (emptyCache 0 0 0 false).reloadConfig conf

end MessageCache

structure ViewCaches where
  cache : String → Option MessageCache
  /-- The views, in the order in which `range` goes over them. -/
  views : List String
  mem_views : ∀ view, view ∈ views ↔ (cache view).isSome
  nodup : views.Nodup

namespace ViewCaches

/-- A `Cache` before its first `ReloadConfig`. -/
def new : ViewCaches := ⟨fun _ => none, [], fun view => by simp, List.nodup_nil⟩

def modify (c : ViewCaches) (view : String) (f : MessageCache → MessageCache) : ViewCaches where
  cache := Function.update c.cache view ((c.cache view).map f)
  views := c.views
  mem_views v := by
    rw [c.mem_views v]
    by_cases hv : v = view
    · simp [hv]
    · rw [Function.update_of_ne hv]
  nodup := c.nodup

/-- The loop of `ReloadConfig` over the views of the configuration. -/
def reloadView (c : ViewCaches) (conf : CacheConf) (views : List String) (view : String) :
    Option MessageCache :=
  if view ∈ views then
    match c.cache view with
    | some mc => some (mc.reloadConfig conf)
    | none => some (.ofConf conf)
  else none

/-- What `ReloadConfig` does to the default view after the loop: it reloads it once more. -/
def reloadDefault (conf : CacheConf) : Option MessageCache → MessageCache
  | none => .ofConf conf
  | some defaultCache => defaultCache.reloadConfig conf

/-- `ReloadConfig`, for the views of `GetViewAndIds`. -/
def reloadConfig (c : ViewCaches) (conf : CacheConf) (views : List String) : ViewCaches where
  cache := Function.update (c.reloadView conf views) defaultView
    (some (reloadDefault conf (c.reloadView conf views defaultView)))
  views := defaultView :: (views.filter (· ≠ defaultView)).dedup
  mem_views view := by
    by_cases hview : view = defaultView
    · simp [hview]
    · rw [Function.update_of_ne hview, reloadView]
      by_cases hmem : view ∈ views
      · cases c.cache view <;> simp [hview, hmem]
      · simp [hview, hmem]
  nodup := List.nodup_cons.mpr ⟨by simp, List.nodup_dedup _⟩

section

variable (rt : Runtime) (c : ViewCaches) (mem : Memory) (view : String) (now : Time)

def addMessage (message : Ptr) : ViewCaches × Memory :=
  match c.cache view with
  | some mc =>
    (c.modify view fun _ => (MessageCache.addMessage rt mc now mem message).1,
      (MessageCache.addMessage rt mc now mem message).2)
  | none => (c, mem)

def get (name : Name) (typ : RRType) : Option (Ptr × ViewCaches × Memory) :=
  match c.cache view with
  | some mc =>
    (MessageCache.get rt mc now mem name typ).map fun found =>
      (found.1, c.modify view fun _ => found.2.1, found.2.2)
  | none => none

end

def cleanAll (c : ViewCaches) : ViewCaches :=
  c.views.foldl (fun c view => c.modify view (·.clear)) c

def cleanInView (c : ViewCaches) (view : String) : Except HttpError ViewCaches :=
  if (c.cache view).isSome then .ok (c.modify view (·.clear))
  else .error (errUnknownView.addDetail view)

/-- The loop of `cleanRRsetsCache` over the types. -/
def removeTypes (rt : Runtime) (mem : Memory) (name : Name) (types : List RRType)
    (mc : MessageCache) : MessageCache :=
  types.foldl (fun mc typ => MessageCache.remove rt mc mem name typ) mc

def cleanRRsetsCache (rt : Runtime) (nameFromString : String → Except String Name) (c : ViewCaches)
    (mem : Memory) (view name : String) (types : List RRType) : Except HttpError ViewCaches :=
  match nameFromString name with
  | .error e => .error (errInvalidName.addDetail e)
  | .ok rrsetName =>
    if (c.cache view).isSome then .ok (c.modify view (removeTypes rt mem rrsetName types))
    else .error (errUnknownView.addDetail view)

def cleanDomainInView (rt : Runtime) (nameFromString : String → Except String Name) (c : ViewCaches)
    (mem : Memory) (view name : String) : Except HttpError ViewCaches :=
  cleanRRsetsCache rt nameFromString c mem view name supportRRTypes

def cleanDomain (rt : Runtime) (nameFromString : String → Except String Name) (c : ViewCaches)
    (mem : Memory) (name : String) : Except HttpError ViewCaches :=
  run (fun c view => cleanRRsetsCache rt nameFromString c mem view name supportRRTypes) c c.views

def messages (c : ViewCaches) : List Ptr :=
  c.views.flatMap fun view =>
    match c.cache view with
    | some mc => mc.ll.elems.map (·.value.message)
    | none => []

end ViewCaches

/-- The commands of `HandleCmd` that change the caches. -/
inductive CleanCommand where
  | cleanCache
  | cleanViewCache (view : String)
  | cleanRRsetsCache (view name : String)
  | cleanDomainCache (name : String)
  deriving DecidableEq, Repr

inductive CacheEvent where
  | add (view : String) (now : Time) (message : Ptr)
  | get (view : String) (now : Time) (name : Name) (typ : RRType)
  | command (cmd : CleanCommand)
  | reloadConfig (conf : CacheConf) (views : List String)
  | elsewhere (mem : Memory)

structure CacheState where
  caches : ViewCaches
  mem : Memory

namespace CacheState

variable (rt : Runtime) (nameFromString : String → Except String Name)

def handleCmd (s : CacheState) : CleanCommand → Except HttpError ViewCaches
  | .cleanCache => .ok s.caches.cleanAll
  | .cleanViewCache view => s.caches.cleanInView view
  | .cleanRRsetsCache view name =>
    ViewCaches.cleanDomainInView rt nameFromString s.caches s.mem view name
  | .cleanDomainCache name => ViewCaches.cleanDomain rt nameFromString s.caches s.mem name

def step (s : CacheState) : CacheEvent → Except Mutated CacheState
  | .add view now message =>
    .ok ⟨(ViewCaches.addMessage rt s.caches s.mem view now message).1,
      (ViewCaches.addMessage rt s.caches s.mem view now message).2⟩
  | .get view now name typ =>
    match ViewCaches.get rt s.caches s.mem view now name typ with
    | some (_, caches, mem) => .ok ⟨caches, mem⟩
    | none => .ok s
  | .command cmd =>
    match s.handleCmd rt nameFromString cmd with
    | .ok caches => .ok { s with caches }
    | .error _ => .ok s
  | .reloadConfig conf views => .ok { s with caches := s.caches.reloadConfig conf views }
  | .elsewhere mem =>
    if ∀ m ∈ s.caches.messages, questionOf mem m = questionOf s.mem m then .ok { s with mem }
    else .error .mutated

end CacheState

end Vanguard.Cache
