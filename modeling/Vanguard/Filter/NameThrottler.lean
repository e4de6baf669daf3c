import Vanguard.Cache.HttpError
import Vanguard.Dns.NameTree
import Vanguard.Filter.AccessRecords
import Vanguard.Library.Heap
import Vanguard.Library.Runs
import Vanguard.Util.Strings

/-!
# The record a query is charged to

A query is counted by the record of its name, else by that of the nearest enclosing name whose limit
was given as `*.name`. Records are objects behind pointers, so that no other is touched rests on an
invariant of the commands: no two names share one.
-/

namespace Vanguard.Filter

open Library NameTree ErasableNameTree Cache Option

structure Texts where
  nameFromString : String → Except String Name
  insertError : String

def errAddNameRateLimitFailed : HttpError := ⟨1006, "add name rate limit failed"⟩

def errUpdateNameRateLimitFailed : HttpError := ⟨1007, "update name rate limit failed"⟩

def parseName (g : Texts) (name : String) : Except HttpError (Name × NameMatchType) :=
  let (name, matchType) := match name.toList with
    | '*' :: '.' :: rest => (String.ofList rest, .zoneMatch)
    | _ => (name, NameMatchType.exactMatch)
  match g.nameFromString name with
  | .error text => .error (errInvalidName.addDetail text)
  | .ok origin => .ok (origin, matchType)

structure NameThrottler (T : Type) where
  records : Heap NameAccessRecord
  viewRecords : String → Option T

inductive Panic where
  /-- `ReloadConfig` found a limit it cannot load. -/
  | load (text : String)
  | emptyStack

namespace NameThrottler

variable {T : Type} [NameTree T Ptr]

section code

variable (g : Texts)

/-- `doAddNameRateLimit`; the record is made before `Insert` fails. -/
def doAddNameRateLimit (records : Heap NameAccessRecord) (tree : T) (name : String)
    (limit : UInt32) : (Heap NameAccessRecord × T) × Option HttpError :=
  match parseName g name with
  | .error e => ((records, tree), some e)
  | .ok (origin, matchType) =>
    let (records, record) := records.alloc (.newNameAccessRecord matchType limit)
    ((records, insert tree origin record),
      if (get tree origin).isSome then some (errAddNameRateLimitFailed.addDetail g.insertError)
      else none)

def setView (t : NameThrottler T) (view : String) (s : Heap NameAccessRecord × T) :
    NameThrottler T :=
  ⟨s.1, Function.update t.viewRecords view (some s.2)⟩

/-- The inner loop of `ReloadConfig`. -/
def loadLimits : List (String × UInt32) → Heap NameAccessRecord × T →
    Except Panic (Heap NameAccessRecord × T)
  | [], s => .ok s
  | (name, limit) :: rest, s =>
    match doAddNameRateLimit g s.1 s.2 name limit with
    | (_, some e) => .error (.load ("load name rrls " ++ name ++ " failed: " ++ e.info))
    | (s, none) => loadLimits rest s

/-- The outer loop of `ReloadConfig`. -/
def loadViews : List (String × List (String × UInt32)) → NameThrottler T →
    Except Panic (NameThrottler T)
  | [], t => .ok t
  | (view, limits) :: rest, t => do
    let s ← loadLimits g limits (t.records, newDomainTree)
    loadViews rest (t.setView view s)

def reloadConfig (t : NameThrottler T) (conf : List (String × List (String × UInt32))) :
    Except Panic (NameThrottler T) :=
  loadViews g conf ⟨t.records, fun _ => none⟩

def addNameRateLimit (t : NameThrottler T) (view name : String) (limit : UInt32) :
    NameThrottler T × Option HttpError :=
  let (s, e) := doAddNameRateLimit g t.records ((t.viewRecords view).getD newDomainTree) name limit
  (t.setView view s, e)

def deleteNameRateLimit [ErasableNameTree T Ptr] (t : NameThrottler T) (view name : String) :
    NameThrottler T × Option HttpError :=
  match parseName g name with
  | .error e => (t, some (errInvalidName.addDetail e.info))
  | .ok (origin, _) =>
    match t.viewRecords view with
    | none => (t, some (errUnknownView.addDetail view))
    | some tree => (t.setView view (t.records, delete tree origin), none)

def updateNameRateLimit [ErasableNameTree T Ptr] (t : NameThrottler T) (view name : String)
    (limit : UInt32) : NameThrottler T × Option HttpError :=
  match parseName g name with
  | .error e => (t, some (errInvalidName.addDetail e.info))
  | .ok (origin, matchType) =>
    match t.viewRecords view with
    | none => (t, some (errUnknownView.addDetail view))
    | some tree =>
      let tree := delete tree origin
      let (records, record) := t.records.alloc (.newNameAccessRecord matchType limit)
      (t.setView view (records, insert tree origin record),
        if (get tree origin).isSome then some (errUpdateNameRateLimitFailed.addDetail g.insertError)
        else none)

/-- `IsAccessAllowed` of the record behind a pointer. -/
def charge (t : NameThrottler T) (p : Ptr) (now : Readings) : NameThrottler T × Bool :=
  let (r, allowed) := (t.records.load p).isAccessAllowed now
  ({ t with records := t.records.write p r }, allowed)

def isNameAllowed (t : NameThrottler T) (view : String) (name : Name) (now : Readings) :
    Except Panic (NameThrottler T × Bool) :=
  match t.viewRecords view with
  | none => .ok (t, true)
  | some tree =>
    match searchParents tree name with
    | .exactMatch (p :: _) => .ok (t.charge p now)
    | .exactMatch [] => .error .emptyStack
    | .closestEncloser parents =>
      match parents.find? fun p => (t.records.load p).matchType = .zoneMatch with
      | some p => .ok (t.charge p now)
      | none => .ok (t, true)
    | .notFound => .ok (t, true)

inductive Call where
  | reloadConfig (conf : List (String × List (String × UInt32)))
  | addNameRateLimit (view name : String) (limit : UInt32)
  | deleteNameRateLimit (view name : String)
  | updateNameRateLimit (view name : String) (limit : UInt32)
  | isNameAllowed (view : String) (name : Name) (now : Readings)

def step [ErasableNameTree T Ptr] (t : NameThrottler T) : Call → Except Panic (NameThrottler T)
  | .reloadConfig conf => t.reloadConfig g conf
  | .addNameRateLimit view name limit => .ok (t.addNameRateLimit g view name limit).1
  | .deleteNameRateLimit view name => .ok (t.deleteNameRateLimit g view name).1
  | .updateNameRateLimit view name limit => .ok (t.updateNameRateLimit g view name limit).1
  | .isNameAllowed view name now => (t.isNameAllowed view name now).map Prod.fst

/-- The throttler before `NewNameThrotter` loads its configuration. -/
def new : NameThrottler T := ⟨⟨fun _ => .newNameAccessRecord .exactMatch 0, 0⟩, fun _ => none⟩

end code

section

variable (t : NameThrottler T) (view : String)

def pointer (n : Name) : Option Ptr :=
  (t.viewRecords view).bind (get · n)

def record (n : Name) : Option NameAccessRecord :=
  (t.pointer view n).map t.records.load

def IsZone (n : Name) : Prop :=
  ∃ r, t.record view n = some r ∧ r.matchType = .zoneMatch

def Charged (n m : Name) : Prop :=
  if (t.record view n).isSome then m = n
  else (m <:+ n ∧ t.IsZone view m) ∧ ∀ k, k <:+ n → t.IsZone view k → k <:+ m

end

structure Separate (t : NameThrottler T) : Prop where
  lt_next : ∀ {view n p}, t.pointer view n = some p → p < t.records.next
  unique : ∀ {view view' n n' p}, t.pointer view n = some p → t.pointer view' n' = some p →
    view = view' ∧ n = n'

/-- Names keep their records or lose them, and one name may get a new one. -/
structure Renews (t t' : NameThrottler T) (view : String) (n : Name) : Prop where
  next_le : t.records.next ≤ t'.records.next
  pointer_eq : ∀ {view' m p}, t'.pointer view' m = some p → t.pointer view' m = some p ∨
    view' = view ∧ m = n ∧ p = t.records.next ∧ p < t'.records.next

variable {view : String}

theorem Separate.of_renews {t t' : NameThrottler T} {n : Name} (h : t.Separate)
    (hrenews : t.Renews t' view n) : t'.Separate where
  lt_next hp := by
    rcases hrenews.pointer_eq hp with hold | ⟨-, -, -, hlt⟩
    · exact lt_of_lt_of_le (h.lt_next hold) hrenews.next_le
    · exact hlt
  unique hp hp' := by
    rcases hrenews.pointer_eq hp with hold | ⟨hview, hn, hnew, -⟩
    · rcases hrenews.pointer_eq hp' with hold' | ⟨-, -, hnew', -⟩
      · exact h.unique hold hold'
      · exact absurd hnew' (h.lt_next hold).ne
    · rcases hrenews.pointer_eq hp' with hold' | ⟨hview', hn', -, -⟩
      · exact absurd hnew (h.lt_next hold').ne
      · exact ⟨hview.trans hview'.symm, hn.trans hn'.symm⟩

variable {t : NameThrottler T}

theorem separate_of_none (hnone : ∀ view, t.viewRecords view = none) : t.Separate := by
  have hpointer (view : String) (n : Name) : t.pointer view n = none := by
    rw [pointer, hnone, bind_none]
  exact ⟨fun hp => by simp [hpointer] at hp, fun hp => by simp [hpointer] at hp⟩

theorem renews_setView {n : Name} {s : Heap NameAccessRecord × T}
    (hnext : t.records.next ≤ s.1.next)
    (hget : ∀ m p, get s.2 m = some p → t.pointer view m = some p ∨
      m = n ∧ p = t.records.next ∧ p < s.1.next) : t.Renews (t.setView view s) view n where
  next_le := hnext
  pointer_eq := by
    intro view' m p hp
    by_cases hview : view' = view
    · subst hview
      refine (hget m p ?_).imp_right fun h => ⟨rfl, h⟩
      simpa [pointer, setView] using hp
    · left
      simpa [pointer, setView, hview] using hp

theorem Separate.charge (h : t.Separate) (p : Ptr) (now : Readings) : (t.charge p now).1.Separate :=
  h.of_renews (show t.Renews (t.charge p now).1 "" [] from ⟨le_rfl, .inl⟩)

theorem Separate.record_charge (h : t.Separate) {m : Name} {p : Ptr}
    (hp : t.pointer view m = some p) (now : Readings) (view' : String) (k : Name) :
    (t.charge p now).1.record view' k =
      if view' = view ∧ k = m then some ((t.records.load p).isAccessAllowed now).1
      else t.record view' k := by
  have hpointer : (t.charge p now).1.record view' k =
      (t.pointer view' k).map (t.charge p now).1.records.load := rfl
  rw [hpointer]
  split_ifs with hsame
  · obtain ⟨rfl, rfl⟩ := hsame
    simp [hp, NameThrottler.charge]
  · refine Option.map_congr fun q hq => ?_
    refine Heap.load_write_of_ne (fun heq => hsame ?_) _
    exact h.unique hq (heq ▸ hp)

section commands

variable [LawfulNameTree T Ptr] {g : Texts} {t : NameThrottler T} {view : String} {tree : T}

theorem isNameAllowed_spec (t : NameThrottler T) (view : String) (n : Name) (now : Readings) :
    (∃ m p, t.pointer view m = some p ∧ t.Charged view n m ∧
      t.isNameAllowed view n now = .ok (t.charge p now)) ∨
    (∀ m, ¬t.Charged view n m) ∧ t.isNameAllowed view n now = .ok (t, true) := by
  cases hview : t.viewRecords view with
  | none =>
    exact .inr ⟨fun m => by simp [Charged, IsZone, record, pointer, hview],
      by simp [isNameAllowed, hview]⟩
  | some tree =>
    have hpointer (m : Name) : t.pointer view m = get tree m := by simp [pointer, hview]
    cases hget : get tree n with
    | some p =>
      obtain ⟨above, habove⟩ := parents_of_some hget
      exact .inl ⟨n, p, by rw [hpointer, hget], by simp [Charged, record, hpointer, hget],
        by simp [isNameAllowed, hview, searchParents_of_some hget, habove]⟩
    | none =>
      -- The walk finds the record of the longest suffix that has one of the zone form.
      let zone (m : Name) : Bool :=
        (get tree m).any fun p => (t.records.load p).matchType = .zoneMatch
      have hzone (m : Name) : t.IsZone view m ↔ zone m = true := by
        simp [IsZone, record, hpointer, zone, any_eq_true]
      have hfind : (parents tree n).find? (fun p => (t.records.load p).matchType = .zoneMatch) =
          (longestSuffix zone n).bind (get tree) := by
        rw [parents, List.find?_filterMap]
        rfl
      have hallowed : t.isNameAllowed view n now =
          match (longestSuffix zone n).bind (get tree) with
          | some p => .ok (t.charge p now)
          | none => .ok (t, true) := by
        rw [← hfind, isNameAllowed, hview]
        simp only [searchParents_of_none hget]
        split_ifs with hparents
        · simp [hparents]
        · rfl
      have hcharged (m : Name) : t.Charged view n m ↔ longestSuffix zone n = some m := by
        simp [Charged, record, hpointer, hget, longestSuffix_eq_some, hzone, and_assoc]
      cases hlongest : longestSuffix zone n with
      | none => exact .inr ⟨fun m => by simp [hcharged, hlongest], by simp [hallowed, hlongest]⟩
      | some m =>
        obtain ⟨-, hm, -⟩ := longestSuffix_eq_some.mp hlongest
        obtain ⟨p, hp, -⟩ := (any_eq_true _ _).mp hm
        exact .inl ⟨m, p, by rw [hpointer, hp], (hcharged m).mpr hlongest,
          by simp [hallowed, hlongest, hp]⟩

theorem renews_insert (htree : ∀ m p, get tree m = some p → t.pointer view m = some p) (n : Name)
    (r : NameAccessRecord) :
    t.Renews (t.setView view ((t.records.alloc r).1, insert tree n (t.records.alloc r).2)) view
      n := by
  refine renews_setView (Nat.le_succ _) fun m p hp => ?_
  rw [get_insert] at hp
  split_ifs at hp with hm
  · subst hm
    cases hold : get tree m with
    | some q =>
      obtain rfl : q = p := by simpa [hold] using hp
      exact .inl (htree m q hold)
    | none =>
      obtain rfl : t.records.next = p := by simpa [hold] using hp
      exact .inr ⟨rfl, rfl, Nat.lt_succ_self _⟩
  · exact .inl (htree m p hp)

theorem Separate.doAddNameRateLimit (h : t.Separate)
    (htree : ∀ m p, get tree m = some p → t.pointer view m = some p) (name : String)
    (limit : UInt32) :
    (t.setView view (NameThrottler.doAddNameRateLimit g t.records tree name limit).1).Separate := by
  rw [NameThrottler.doAddNameRateLimit]
  cases parseName g name with
  | error e => exact h.of_renews (renews_setView (n := []) le_rfl fun m p hp => .inl (htree m p hp))
  | ok parsed => exact h.of_renews (renews_insert htree parsed.1 _)

theorem Separate.loadLimits {limits : List (String × UInt32)}
    {s s' : Heap NameAccessRecord × T} (h : (t.setView view s).Separate)
    (hok : NameThrottler.loadLimits g limits s = .ok s') : (t.setView view s').Separate := by
  induction limits generalizing s with
  | nil =>
    cases hok
    exact h
  | cons limit rest ih =>
    have htree (m : Name) (p : Ptr) (hp : get s.2 m = some p) :
        (t.setView view s).pointer view m = some p := by
      simpa [pointer, setView] using hp
    have hadd := h.doAddNameRateLimit (g := g) htree limit.1 limit.2
    rw [NameThrottler.loadLimits] at hok
    cases hresult : NameThrottler.doAddNameRateLimit g s.1 s.2 limit.1 limit.2 with
    | mk added e =>
      cases e with
      | some e => simp [hresult] at hok
      | none =>
        refine ih ?_ (by simpa [hresult] using hok)
        simpa [setView, hresult] using hadd

theorem Separate.loadViews {conf : List (String × List (String × UInt32))} {t' : NameThrottler T}
    (h : t.Separate) (hok : NameThrottler.loadViews g conf t = .ok t') : t'.Separate := by
  induction conf generalizing t with
  | nil =>
    cases hok
    exact h
  | cons limits rest ih =>
    obtain ⟨s, hs, hrest⟩ := bind_eq_ok hok
    have hempty : (t.setView limits.1 (t.records, newDomainTree)).Separate :=
      h.of_renews (renews_setView (n := []) le_rfl fun m p hp => by simp [get_newDomainTree] at hp)
    exact ih (hempty.loadLimits hs) hrest

theorem Separate.step [ErasableNameTree T Ptr] [LawfulErasableNameTree T Ptr]
    {t' : NameThrottler T} (h : t.Separate) (call : Call)
    (hok : NameThrottler.step g t call = .ok t') : t'.Separate := by
  cases call with
  | reloadConfig conf => exact (separate_of_none fun _ => rfl).loadViews hok
  | addNameRateLimit view name limit =>
    cases hok
    refine h.doAddNameRateLimit (fun m p hp => ?_) name limit
    cases hview : t.viewRecords view with
    | none => simp [hview, get_newDomainTree] at hp
    | some tree => simpa [pointer, hview] using hp
  | deleteNameRateLimit view name =>
    cases hok
    rw [deleteNameRateLimit]
    cases parseName g name with
    | error e => exact h
    | ok parsed =>
      cases hview : t.viewRecords view with
      | none => exact h
      | some tree =>
        refine h.of_renews (renews_setView (n := []) le_rfl fun m p hp => .inl ?_)
        rw [LawfulErasableNameTree.get_delete] at hp
        split_ifs at hp
        simpa [pointer, hview] using hp
  | updateNameRateLimit view name limit =>
    cases hok
    rw [updateNameRateLimit]
    cases parseName g name with
    | error e => exact h
    | ok parsed =>
      cases hview : t.viewRecords view with
      | none => exact h
      | some tree =>
        refine h.of_renews (renews_insert (fun m p hp => ?_) parsed.1 _)
        rw [LawfulErasableNameTree.get_delete] at hp
        split_ifs at hp
        simpa [pointer, hview] using hp
  | isNameAllowed view name now =>
    rw [NameThrottler.step] at hok
    rcases isNameAllowed_spec t view name now with ⟨m, p, -, -, hresult⟩ | ⟨-, hresult⟩
    · cases (congrArg (Except.map Prod.fst) hresult).symm.trans hok
      exact h.charge p now
    · cases (congrArg (Except.map Prod.fst) hresult).symm.trans hok
      exact h

end commands

variable [LawfulNameTree T Ptr] [ErasableNameTree T Ptr] [LawfulErasableNameTree T Ptr]

/-- A query is decided by one record and changes no other, or it is allowed. -/
theorem one_record_charged {g : Texts} {calls : List Call} {t : NameThrottler T}
    (hrun : run (step g) new calls = .ok t) (view : String) (n : Name) (now : Readings) :
    ∃ t' allowed, t.isNameAllowed view n now = .ok (t', allowed) ∧
      ((∃ m r, t.Charged view n m ∧ t.record view m = some r ∧
          allowed = (r.isAccessAllowed now).2 ∧
          ∀ view' k, t'.record view' k =
            if view' = view ∧ k = m then some (r.isAccessAllowed now).1 else t.record view' k) ∨
        (∀ m, ¬t.Charged view n m) ∧ allowed = true ∧ t' = t) := by
  have hseparate : t.Separate :=
    run_induction Separate (fun _ call _ h _ hok => h.step call hok)
      (along_mem (step g) new calls) (separate_of_none fun _ => rfl) hrun
  rcases isNameAllowed_spec t view n now with ⟨m, p, hp, hcharged, hresult⟩ | ⟨hnone, hresult⟩
  · exact ⟨_, _, hresult, .inl ⟨m, t.records.load p, hcharged, by rw [record, hp, map_some],
      rfl, hseparate.record_charge hp now⟩⟩
  · exact ⟨_, _, hresult, .inr ⟨hnone, rfl, rfl⟩⟩

def exampleTexts : Texts := ⟨fun s => .ok (Util.split '.' s), "name exists"⟩

/-- The limits of a zone and of a name in it: a query for the name counts against its own. -/
theorem example_name_charged :
    ∃ t : NameThrottler (NameTable Ptr),
      run (step exampleTexts) new [.addNameRateLimit "v" "*.example.com" 1,
        .addNameRateLimit "v" "www.example.com" 2] = .ok t ∧
      t.Charged "v" ["www", "example", "com"] ["www", "example", "com"] ∧
      ∃ t' allowed, t.isNameAllowed "v" ["www", "example", "com"] ⟨0, 0, 0⟩ = .ok (t', allowed) ∧
        ((∃ m r, t.Charged "v" ["www", "example", "com"] m ∧ t.record "v" m = some r ∧
            allowed = (r.isAccessAllowed ⟨0, 0, 0⟩).2 ∧
            ∀ view' k, t'.record view' k =
              if view' = "v" ∧ k = m then some (r.isAccessAllowed ⟨0, 0, 0⟩).1
              else t.record view' k) ∨
          (∀ m, ¬t.Charged "v" ["www", "example", "com"] m) ∧ allowed = true ∧ t' = t) := by
  have hrun : run (step exampleTexts) (new : NameThrottler (NameTable Ptr))
      [.addNameRateLimit "v" "*.example.com" 1, .addNameRateLimit "v" "www.example.com" 2] =
      .ok _ := rfl
  exact ⟨_, hrun, (if_pos rfl).mpr rfl, one_record_charged hrun _ _ _⟩

end NameThrottler

end Vanguard.Filter
