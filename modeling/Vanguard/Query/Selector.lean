import Vanguard.Query.CNameHandler

/-!
# The view of a query

`SelectorMgr` asks for a view by the address and then by the key of the signature. Whoever asks by
the key puts a response into the client and reports a bad signature in it, and nobody looks at that.
-/

namespace Vanguard.Query

structure TSIGKey where
  view : String
  name : String
  secret : String
  algorithm : String
  deriving DecidableEq, Repr

structure SelectorMgr where
  viewAcls : List (String × List String)
  aclFind : String → List UInt8 → Bool
  keys : String → Option TSIGKey
  verifyTsig : Packet → String → Bool
  newTSIG : TSIGKey → Option TSIG
  viewIds : String → UInt16

def TSIG.report (tsig : TSIG) (rcode : Rcode) : TSIG :=
  { tsig with mac := none, error := rcode.code.toUInt16 }

/-- A client with its new request, as `Reset` leaves it. -/
def Client.new (ip : List UInt8) (request : Packet) : Client where
  ip := ip
  request := request
  response := none
  view := "default"
  viewId := 0
  cacheHit := false
  cacheAnswer := true

/-- The response that `TSIGKeyBasedView` puts into a client: the one that is there, or a new one. -/
def Client.placeholder (client : Client) : Response :=
  client.response.getD ⟨client.request.makeResponse, .selector⟩

namespace SelectorMgr

variable (mgr : SelectorMgr)

/-- `AddrBasedView.ViewForQuery`. -/
def viewForAddr (client : Client) : Option String :=
  (mgr.viewAcls.find? fun viewAcl => viewAcl.2.any fun acl => mgr.aclFind acl client.ip).map
    Prod.fst

/-- The error that `TSIGKeyBasedView` reports for a signature. -/
def rejection (request : Packet) (tsig : TSIG) : Option Rcode :=
  match mgr.keys tsig.keyName with
  | none => some .badKey
  | some key =>
    if key.algorithm ≠ tsig.algorithm then some .badKey
    else if mgr.verifyTsig request key.secret = false then some .badSig
    else none

variable (client : Client)

def setTsig (tsig : TSIG) : Client :=
  { client with response := some { client.placeholder with tsig := some tsig } }

/-- `TSIGKeyBasedView.ViewForQuery`, with none for no view. -/
def viewForTsig : Except Stop (Client × Option String) :=
  match client.request.tsig with
  | none => .ok (client, none)
  | some tsig =>
    match mgr.rejection client.request tsig with
    | some rcode => .ok (setTsig client (tsig.report rcode), some "")
    | none =>
      match (mgr.keys tsig.keyName).map fun key => (key, mgr.newTSIG key) with
      | some (key, some newTSIG) =>
        .ok (setTsig client { newTSIG with mac := tsig.mac }, some key.view)
      | _ => .error .invalidKey

/-- The loop of `SelectView` over the selectors. -/
def viewForQuery : Except Stop (Client × Option String) :=
  match mgr.viewForAddr client with
  | some view => .ok (client, some view)
  | none => mgr.viewForTsig client

def selectView : Except Stop Client :=
  match mgr.viewForQuery client with
  | .error e => .error e
  | .ok (client, view) =>
    let view := view.getD ""
    if view ≠ "" then .ok { client with view := view, viewId := mgr.viewIds view } else .ok client

/-- A signed request from an address without a view, rejected with this error. -/
structure Rejects (tsig : TSIG) (rcode : Rcode) : Prop where
  noAddr : mgr.viewForAddr client = none
  signed : client.request.tsig = some tsig
  rejected : mgr.rejection client.request tsig = some rcode

end SelectorMgr

structure Bare (m : Message Section) : Prop where
  rcode : m.header.rcode = .noError
  anCount : m.header.anCount = 0
  nsCount : m.header.nsCount = 0
  answer : m.answer = []
  auth : m.auth = []
  additional : m.additional = []

theorem Bare.classify {m : Message Section} (hm : Bare m) : classifyResponse m = .ok .unknown := by
  have hrcode : ¬Rcode.noError = Rcode.nxDomain := by decide
  simp [classifyResponse, hm.rcode, hm.anCount, hm.nsCount, hrcode]

theorem Bare.mapHeader {r : Response} (hr : Bare r.message) {f : Header → Header}
    (hf : ∀ h, (f h).rcode = h.rcode ∧ (f h).anCount = h.anCount ∧ (f h).nsCount = h.nsCount) :
    Bare (r.mapHeader f).message :=
  ⟨(hf _).1.trans hr.rcode, (hf _).2.1.trans hr.anCount, (hf _).2.2.trans hr.nsCount, hr.answer,
    hr.auth, hr.additional⟩

structure Placeholder (r : Response) : Prop where
  producer : r.producer = .selector
  bare : Bare r.message

def Unanswered (client : Client) : Prop := ∀ r, client.response = some r → Placeholder r

variable {client client' : Client}

theorem placeholder_setTsig (hnone : client.response = none) (tsig : TSIG) :
    ∃ r, (SelectorMgr.setTsig client tsig).response = some r ∧ Placeholder r ∧
      r.tsig = some tsig := by
  refine ⟨_, rfl, ?_, rfl⟩
  simp only [Client.placeholder, hnone, Option.getD_none]
  exact ⟨rfl, rfl, rfl, rfl, rfl, rfl, rfl⟩

variable {mgr : SelectorMgr}

theorem SelectorMgr.viewForQuery_eq_ok {view : Option String}
    (hview : mgr.viewForQuery client = .ok (client', view)) :
    client' = client ∨ ∃ tsig, client' = setTsig client tsig := by
  unfold viewForQuery at hview
  split at hview
  · cases hview
    exact .inl rfl
  · unfold viewForTsig at hview
    split at hview
    · cases hview
      exact .inl rfl
    · split at hview
      · cases hview
        exact .inr ⟨_, rfl⟩
      · split at hview
        · cases hview
          exact .inr ⟨_, rfl⟩
        · cases hview

theorem SelectorMgr.selectView_unanswered (hnone : client.response = none)
    (hselect : mgr.selectView client = .ok client') : Unanswered client' := by
  unfold selectView at hselect
  split at hselect
  · cases hselect
  · next chosen view hview =>
    have hresponse : client'.response = chosen.response := by
      dsimp only at hselect
      split_ifs at hselect
      all_goals
        cases hselect
        rfl
    intro r hr
    rw [hresponse] at hr
    rcases viewForQuery_eq_ok hview with rfl | ⟨tsig, rfl⟩
    · rw [hnone] at hr
      cases hr
    · obtain ⟨r', hr', hplaceholder, -⟩ := placeholder_setTsig hnone tsig
      cases hr'.symm.trans hr
      exact hplaceholder

theorem SelectorMgr.selectView_of_rejects {tsig : TSIG} {rcode : Rcode}
    (hrejects : mgr.Rejects client tsig rcode) :
    mgr.selectView client = .ok (setTsig client (tsig.report rcode)) := by
  simp [selectView, viewForQuery, viewForTsig, hrejects.noAddr, hrejects.signed, hrejects.rejected]

end Vanguard.Query
