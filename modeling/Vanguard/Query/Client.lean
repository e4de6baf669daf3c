import Vanguard.Dns.Message

/-!
# A query on its way through the server

The client that the handlers and the resolvers pass on. Messages are values here. Beside what the
source has, a response records who made it: a resolver, or the view selector.
-/

namespace Vanguard

namespace Rcode

/-- `R_SERVFAIL`. -/
def servFail : Rcode := ⟨2⟩
/-- `R_BADSIG`. -/
def badSig : Rcode := ⟨16⟩
/-- `R_BADKEY`. -/
def badKey : Rcode := ⟨17⟩

end Rcode

namespace Query

structure TSIG where
  keyName : String
  algorithm : String
  mac : Option (List UInt8)
  error : UInt16
  deriving DecidableEq, Repr

/-- `g53.Message` with its `Tsig`, which may be nil. -/
structure Packet where
  message : Message Section
  tsig : Option TSIG
  deriving DecidableEq, Repr

inductive Source where
  /-- `FakeAuth`. -/
  | localData
  /-- `AuthDataSource`. -/
  | auth
  /-- `StubZoneManager`. -/
  | stub
  | forwarder
  | recursor
  | failForwarder
  deriving DecidableEq, Repr

inductive Producer where
  /-- `TSIGKeyBasedView`, before the resolution. -/
  | selector
  | resolver (source : Source)
  | copied (producer : Producer)
  deriving DecidableEq, Repr

def Producer.isResolver : Producer → Bool
  | .selector => false
  | .resolver _ => true
  | .copied producer => producer.isResolver

structure Response extends Packet where
  producer : Producer
  deriving DecidableEq, Repr

structure Client where
  ip : List UInt8
  request : Packet
  response : Option Response
  view : String
  viewId : UInt16
  cacheHit : Bool
  cacheAnswer : Bool
  deriving DecidableEq, Repr

def Client.question (c : Client) : Question := c.request.message.question

/-- What a resolver leaves in a client: `Response` and `CacheAnswer`. -/
structure Left where
  response : Option Response
  cacheAnswer : Bool
  deriving DecidableEq, Repr

def Client.left (c : Client) : Left := ⟨c.response, c.cacheAnswer⟩

def Client.fill (c : Client) (l : Left) : Client :=
  { c with response := l.response, cacheAnswer := l.cacheAnswer }

def Client.asking (c : Client) (question : Question) : Client :=
  { c with request := { c.request with message := { c.request.message with question } } }

def Response.mapHeader (f : Header → Header) (r : Response) : Response :=
  { r with message := { r.message with header := f r.message.header } }

def Packet.makeResponse (request : Packet) : Packet :=
  ⟨⟨⟨request.message.header.id, false, false, .noError, 0, 0, 0⟩, request.message.question,
    [], [], []⟩, none⟩

@[simp] theorem Client.question_fill (c : Client) (l : Left) : (c.fill l).question = c.question :=
  rfl

@[simp] theorem Client.response_fill (c : Client) (l : Left) : (c.fill l).response = l.response :=
  rfl

end Query

end Vanguard
