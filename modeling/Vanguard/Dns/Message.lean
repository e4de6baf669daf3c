import Vanguard.Dns.RRset

/-!
# Messages

A message is generic in what a section is: to a reader a list of RRset values, in the heap a slice
of pointers. Copying the message struct copies the slices and not what they lead to.
-/

namespace Vanguard

abbrev Time := ℕ

def Time.after (now : Time) (ttl : UInt32) : Time := now + ttl.toNat * 1000000000

structure Rcode where
  code : UInt8
  deriving DecidableEq, Repr

namespace Rcode

/-- `R_NOERROR`. -/
def noError : Rcode := ⟨0⟩
/-- `R_NXDOMAIN`. -/
def nxDomain : Rcode := ⟨3⟩

end Rcode

structure Header where
  id : UInt16
  aa : Bool
  ra : Bool
  rcode : Rcode
  anCount : UInt16
  nsCount : UInt16
  arCount : UInt16
  deriving DecidableEq, Repr

structure Question where
  name : Name
  typ : RRType
  cls : RRClass
  deriving DecidableEq, Repr

/-- `g53.Message`: header, question and the array of the three sections. -/
structure Message (σ : Type) where
  header : Header
  question : Question
  /-- `Sections[AnswerSection]`. -/
  answer : σ
  /-- `Sections[AuthSection]`. -/
  auth : σ
  /-- `Sections[AdditionalSection]`. -/
  additional : σ
  deriving DecidableEq, Repr

def Message.map {σ σ' : Type} (f : σ → σ') (m : Message σ) : Message σ' :=
  ⟨m.header, m.question, f m.answer, f m.auth, f m.additional⟩

abbrev Section := List (RRset Rdata)

inductive Fault where
  | indexOutOfRange
  | typeAssertion
  | noAddr
  deriving DecidableEq, Repr

/-- `util.AnswerType`, without `EMPTY`, which nothing returns. -/
inductive AnswerType where
  | answer
  | referral
  | nxDomain
  | nxRRset
  | unknown
  deriving DecidableEq, Repr

def classifyResponse (response : Message Section) : Except Fault AnswerType :=
  if response.header.rcode = .nxDomain then .ok .nxDomain
  else if response.header.rcode = .noError then
    if 0 < response.header.anCount then
      match response.answer with
      | [] => .error .indexOutOfRange
      | first :: _ =>
        if first.name = response.question.name ∧
            (first.typ = response.question.typ ∨ first.typ = .cname) then .ok .answer
        else .ok .unknown
    else if 0 < response.header.nsCount then
      match response.auth with
      | [] => .error .indexOutOfRange
      | auth :: _ =>
        if auth.typ = .ns then
          if response.question.name.isSubDomain auth.name then .ok .referral else .ok .unknown
        else if auth.typ = .soa then .ok .nxRRset
        else .ok .unknown
    else .ok .unknown
  else .ok .unknown

end Vanguard
