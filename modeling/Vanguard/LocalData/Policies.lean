import Vanguard.Cache.HttpError
import Vanguard.LocalData.LocalData

/-!
# The commands of local data

A policy is built from a line of text and added to the tree of its view, or removed from it. A
redirection joins the one that is at its name, and any other policy is refused there.
-/

namespace Vanguard.LocalData

open Cache (HttpError errUnknownView)

inductive LocalPolicyType where
  | nxDomain
  | nxRRset
  | exceptionDomain
  | localRRset
  | other (text : String)
  deriving DecidableEq, Repr

/-- What reads the parts of a line, with the texts of its errors. -/
structure Parsers where
  nameFromString : String → Except String Name
  atoi : String → Except String ℤ
  typeFromString : String → Except String RRType
  rdataFromString : RRType → String → Except String Rdata
  errDuplicateRdata : String

def errInvalidPolicy : HttpError := ⟨1300, "policy data isn't valid"⟩
def errDuplicatePolicy : HttpError := ⟨1301, "duplicate policy"⟩
def errRedirectRRInvalid : String := "redirect rr should in format name, type, ttl, rdata"

inductive Outcome where
  | nil
  | error (e : HttpError)
  | panic
  deriving DecidableEq, Repr

inductive BuildError where
  | invalid (text : String)
  /-- The type of the policy is unknown, and `BuildLocalPolicy` panics. -/
  | unknownType
  deriving DecidableEq, Repr

section build

variable (parsers : Parsers)

def nameStripFirstWildcard (name : String) : Except String (Bool × Name) :=
  match name.toList with
  | '*' :: '.' :: rest => (parsers.nameFromString (.ofList rest)).map fun dname => (true, dname)
  | _ => (parsers.nameFromString name).map fun dname => (false, dname)

def newLocalRRset (name : Name) (typ : String) (ttl : ℤ) (rdataStr : String) :
    Except String PolicyKind :=
  match parsers.typeFromString typ with
  | .error e => .error e
  | .ok rrType =>
    match parsers.rdataFromString rrType rdataStr with
    | .error e => .error e
    | .ok rdata => .ok (.localRRset [⟨name, rrType, .internet, .ofInt ttl, [rdata]⟩])

def splitFields (data : String) : List String := (data.toList.splitOn ' ').map .ofList

/-- The last case of `BuildLocalPolicy`, a redirection. -/
def buildRedirect (name : Name) : List String → Except String PolicyKind
  | _ :: ttl :: typ :: rdata :: more =>
    match parsers.atoi ttl with
    | .error e => .error e
    | .ok ttl => newLocalRRset parsers name typ ttl (" ".intercalate (rdata :: more))
  | _ => .error errRedirectRRInvalid

def buildLocalPolicy (lPType : LocalPolicyType) (data : String) :
    Except BuildError (Name × LocalPolicy) :=
  match nameStripFirstWildcard parsers ((splitFields data).headD "") with
  | .error e => .error (.invalid e)
  | .ok (isZoneMatch, origin) =>
    match lPType with
    | .nxDomain => .ok (origin, ⟨isZoneMatch, .nxDomain⟩)
    | .nxRRset => .ok (origin, ⟨isZoneMatch, .nxRRset⟩)
    | .exceptionDomain => .ok (origin, ⟨isZoneMatch, .exceptionDomain⟩)
    | .localRRset =>
      match buildRedirect parsers origin (splitFields data) with
      | .error e => .error (.invalid e)
      | .ok kind => .ok (origin, ⟨isZoneMatch, kind⟩)
    | .other _ => .error .unknownType

end build

section rrsets

def addRdatas (old : List Rdata) : List Rdata → List Rdata × Bool
  | [] => (old, true)
  | rdata :: rdatas => if old.contains rdata then (old, false) else addRdatas (old ++ [rdata]) rdatas

def addRRset (new : RRset Rdata) : List (RRset Rdata) → List (RRset Rdata) × Bool
  | [] => ([new], true)
  | old :: rrsets =>
    if old.typ = new.typ then
      let (rdatas, ok) := addRdatas old.rdatas new.rdatas
      -- The TTL is set after the last rdata.
      ({ old with rdatas, ttl := if ok then new.ttl else old.ttl } :: rrsets, ok)
    else
      let (rrsets, ok) := addRRset new rrsets
      (old :: rrsets, ok)

/-- The loop of `addPolicy` over the new RRsets. -/
def addRRsets (rrsets : List (RRset Rdata)) : List (RRset Rdata) → List (RRset Rdata) × Bool
  | [] => (rrsets, true)
  | new :: news =>
    match addRRset new rrsets with
    | (rrsets, false) => (rrsets, false)
    | (rrsets, true) => addRRsets rrsets news

/-- The loop of `deleteRRset` over the slice as it was at first, of which `count` RRsets are left.
None if out of bounds. -/
def deleteLoop (gone : RRset Rdata) : ℕ → ℕ → List (RRset Rdata) → ℕ →
    Option (List (RRset Rdata) × ℕ)
  | 0, _, slice, count => some (slice, count)
  | rounds + 1, i, slice, count =>
    match slice[i]? with
    | none => none
    | some old =>
      if old.typ = gone.typ then
        let rdatas := gone.rdatas.foldl List.erase old.rdatas
        let slice := slice.set i { old with rdatas }
        if rdatas = [] then
          if i < count then
            deleteLoop gone rounds (i + 1)
              (slice.take i ++ (slice.take count).drop (i + 1) ++ slice.drop (count - 1)) (count - 1)
          else none
        else deleteLoop gone rounds (i + 1) slice count
      else deleteLoop gone rounds (i + 1) slice count

def deleteRRset (rrsets : List (RRset Rdata)) (gone : RRset Rdata) : Option (List (RRset Rdata)) :=
  (deleteLoop gone rrsets.length 0 rrsets rrsets.length).map fun result =>
    result.1.take result.2

end rrsets

section commands

variable {P : Type} [NameTree P LocalPolicy]

/-- What `SearchParents` finds at the name itself. -/
def stored (ps : P) (name : Name) : Option LocalPolicy :=
  match NameTree.searchParents ps name with
  | .exactMatch parents => parents.head?
  | _ => none

variable [ErasableNameTree P LocalPolicy]

def put (ps : P) (name : Name) (p : LocalPolicy) : P :=
  NameTree.insert (ErasableNameTree.delete ps name) name p

abbrev Policies (P : Type) := String → Option P

variable (parsers : Parsers)

def addPolicy (policies : Policies P) (view : String) (name : Name) (p : LocalPolicy) :
    Policies P × Outcome :=
  let ps := (policies view).getD NameTree.newDomainTree
  match stored ps name with
  | none => (Function.update policies view (some (NameTree.insert ps name p)), .nil)
  | some oldp =>
    match oldp.kind, p.kind with
    | .localRRset rrsets, .localRRset news =>
      let (rrsets, ok) := addRRsets rrsets news
      (Function.update policies view (some (put ps name { oldp with kind := .localRRset rrsets })),
        if ok then .nil else .error (errDuplicatePolicy.addDetail parsers.errDuplicateRdata))
    | _, _ => (Function.update policies view (some ps), .error errDuplicatePolicy)

def addPolicies (policies : Policies P) (view : String) (typ : LocalPolicyType) :
    List String → Policies P × Outcome
  | [] => (policies, .nil)
  | data :: datas =>
    match buildLocalPolicy parsers typ data with
    | .error .unknownType => (policies, .panic)
    | .error (.invalid e) => (policies, .error (errInvalidPolicy.addDetail e))
    | .ok (name, p) =>
      match addPolicy parsers policies view name p with
      | (policies, .nil) => addPolicies policies view typ datas
      | (policies, outcome) => (policies, outcome)

def removePolicy (policies : Policies P) (view : String) (name : Name) (p : LocalPolicy) :
    Policies P × Outcome :=
  match policies view with
  | none => (policies, .error errUnknownView)
  | some ps =>
    match stored ps name with
    | none => (policies, .nil)
    | some oldp =>
      match oldp.kind, p.kind with
      | .localRRset rrsets, .localRRset gone =>
        match gone.foldlM deleteRRset rrsets with
        | none => (policies, .panic)
        | some [] => (Function.update policies view (some (ErasableNameTree.delete ps name)), .nil)
        | some rrsets =>
          (Function.update policies view
            (some (put ps name { oldp with kind := .localRRset rrsets })), .nil)
      | .localRRset _, _ => (policies, .nil)
      | _, _ => (Function.update policies view (some (ErasableNameTree.delete ps name)), .nil)

def removePolicies (policies : Policies P) (view : String) (typ : LocalPolicyType) :
    List String → Policies P × Outcome
  | [] => (policies, .nil)
  | data :: datas =>
    match buildLocalPolicy parsers typ data with
    | .error .unknownType => (policies, .panic)
    | .error (.invalid e) => (policies, .error (errInvalidPolicy.addDetail e))
    | .ok (name, p) =>
      match removePolicy policies view name p with
      | (policies, .nil) => removePolicies policies view typ datas
      | (policies, outcome) => (policies, outcome)

structure LocalPolicyData where
  policy : LocalPolicyType
  view : String
  data : String
  deriving DecidableEq, Repr

/-- The case of `FakeAuth.HandleCmd` for `UpdateLocalData`. The error of the removal is dropped. -/
def updateLocalData (policies : Policies P) (oldData newData : LocalPolicyData) :
    Policies P × Outcome :=
  match removePolicies parsers policies oldData.view oldData.policy [oldData.data] with
  | (policies, .panic) => (policies, .panic)
  | (policies, _) => addPolicies parsers policies newData.view newData.policy [newData.data]

structure UpdateRedirectRR where
  view : String
  name : String
  typ : String
  oldRdata : String
  newTtl : String
  newRdata : String
  deriving DecidableEq, Repr

def UpdateRedirectRR.oldData (c : UpdateRedirectRR) : LocalPolicyData :=
  ⟨.localRRset, c.view, " ".intercalate [c.name, "0", c.typ, c.oldRdata]⟩

def UpdateRedirectRR.newData (c : UpdateRedirectRR) : LocalPolicyData :=
  ⟨.localRRset, c.view, " ".intercalate [c.name, c.newTtl, c.typ, c.newRdata]⟩

/-- `HandleCmd` for `UpdateRedirectRR`, which does what `UpdateLocalData` does. -/
def updateRedirectRR (policies : Policies P) (c : UpdateRedirectRR) : Policies P × Outcome :=
  updateLocalData parsers policies c.oldData c.newData

/-- What happens to the policies of a `FakeAuth` or a `Hijack`. -/
inductive Call where
  | add (view : String) (typ : LocalPolicyType) (datas : List String)
  | remove (view : String) (typ : LocalPolicyType) (datas : List String)
  deriving DecidableEq, Repr

def Call.perform (policies : Policies P) : Call → Policies P
  | .add view typ datas => (addPolicies parsers policies view typ datas).1
  | .remove view typ datas => (removePolicies parsers policies view typ datas).1

/-- The policies after these calls, starting from `NewLocalData`. -/
def performAll (calls : List Call) : Policies P := calls.foldl (Call.perform parsers) fun _ => none

end commands

def exampleParsers : Parsers where
  nameFromString text := if text = "a." then .ok ["a"] else if text = "www.a." then .ok ["www", "a"]
    else .error "bad name"
  atoi text := if text = "60" then .ok 60 else if text = "0" then .ok 0 else .error "bad number"
  typeFromString text := if text = "A" then .ok .a else .error "bad type"
  rdataFromString _ text := if text = "1.1.1.1" then .ok (.a [1, 1, 1, 1])
    else if text = "2.2.2.2" then .ok (.a [2, 2, 2, 2]) else .error "bad rdata"
  errDuplicateRdata := "duplicate rdata"

end Vanguard.LocalData
