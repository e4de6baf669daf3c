import Vanguard.Query.Handlers

/-!
# A redirected query and its question

`redirectQuery` asks the following handlers for the target of an alias. It writes the target into
the question object of request and response, and writes the name back only if they leave a response.
-/

namespace Vanguard.K8s

open Library
open Query (isCNameResponse redirectTarget)

structure Reply where
  question : Ptr
  message : Message Section

/-- `core.Context`, with the question objects; `R` is what else the handlers have. -/
structure Ctx (R : Type) where
  questions : Heap Question
  question : Ptr
  response : Option Reply
  cacheAnswer : Bool
  rest : R

section code

variable {R : Type} (answer : Question → Option (Message Section)) (next : Ctx R → Ctx R)

def Ctx.asked (ctx : Ctx R) : Question := ctx.questions.load ctx.question

def Ctx.setName (ctx : Ctx R) (name : Name) : Ctx R :=
  { ctx with questions := ctx.questions.write ctx.question { ctx.asked with name } }

def resolve (ctx : Ctx R) : Option (Ctx R × Reply) :=
  (answer ctx.asked).map fun message =>
    ({ ctx with response := some ⟨ctx.question, message⟩, cacheAnswer := false },
      ⟨ctx.question, message⟩)

def mergeResponse (firstResp redirectResp : Reply) : Reply :=
  { firstResp with message := { firstResp.message with
      answer := firstResp.message.answer ++ redirectResp.message.answer
      header := { firstResp.message.header with rcode := redirectResp.message.header.rcode } } }

/-- The end of `redirectQuery`, after the following handlers. -/
def finishRedirect (originResp : Reply) (originalName : Name) (ctx : Ctx R) : Ctx R :=
  match ctx.response with
  | none => ctx
  | some response =>
    { ctx with response := some (mergeResponse originResp response) }.setName originalName

def redirectQuery (originResp : Reply) (ctx : Ctx R) : Except Fault (Ctx R) := do
  let originalName := ctx.asked.name
  let target ← redirectTarget originResp.message
  return finishRedirect originResp originalName
    (next ({ ctx with response := none }.setName target))

def handleQuery (ctx : Ctx R) : Except Fault (Ctx R) :=
  match resolve answer ctx with
  | none => .ok (next ctx)
  | some (ctx, originResp) => do
    if ← isCNameResponse originResp.message then redirectQuery next originResp ctx else return ctx

end code

variable {R : Type}

/-- The question is the one asked, and the response starts with the alias. -/
structure Preserved (ctx : Ctx R) (msg : Message Section) (ctx' : Ctx R) : Prop where
  asked_eq : ctx'.asked = ctx.asked
  response : ∃ r, ctx'.response = some r ∧ r.message.answer.head? = msg.answer.head? ∧
    ctx'.questions.load r.question = ctx.asked

/-- A response is left, and a question that differs in its name at most. -/
structure Leaves (ctx ctx' : Ctx R) : Prop where
  answered : ctx'.response.isSome
  typ_eq : ctx'.asked.typ = ctx.asked.typ
  cls_eq : ctx'.asked.cls = ctx.asked.cls
  question : ctx'.question = ctx.question ∨ ctx'.questions.load ctx.question = ctx.asked

theorem asked_setName (ctx : Ctx R) (name : Name) :
    (ctx.setName name).asked = ⟨name, ctx.asked.typ, ctx.asked.cls⟩ := by
  simp [Ctx.asked, Ctx.setName]

theorem asked_setName_eq {ctx ctx' : Ctx R} :
    (ctx'.setName ctx.asked.name).asked = ctx.asked ↔
      ctx'.asked.typ = ctx.asked.typ ∧ ctx'.asked.cls = ctx.asked.cls := by
  rw [asked_setName]
  constructor
  · intro heq
    rw [← heq]
    exact ⟨rfl, rfl⟩
  · rintro ⟨htyp, hcls⟩
    rw [htyp, hcls]

theorem load_setName_eq {ctx ctx' : Ctx R}
    (hasked : (ctx'.setName ctx.asked.name).asked = ctx.asked) :
    (ctx'.setName ctx.asked.name).questions.load ctx.question = ctx.asked ↔
      ctx'.question = ctx.question ∨ ctx'.questions.load ctx.question = ctx.asked := by
  by_cases hsame : ctx'.question = ctx.question
  · refine iff_of_true ?_ (.inl hsame)
    rw [← hsame]
    exact hasked
  · rw [Ctx.setName, Heap.load_write_of_ne (Ne.symm hsame)]
    exact ⟨.inr, fun h => h.resolve_left hsame⟩

/-- A query with an alias is preserved exactly if the following handlers leave it so. -/
theorem redirect_preserves_iff {answer : Question → Option (Message Section)}
    {next : Ctx R → Ctx R} {ctx : Ctx R} {msg : Message Section} {target : Name}
    (hanswer : answer ctx.asked = some msg) (hcname : isCNameResponse msg = .ok true)
    (htarget : redirectTarget msg = .ok target) :
    ∃ ctx', handleQuery answer next ctx = .ok ctx' ∧
      (Preserved ctx msg ctx' ↔ Leaves ctx
        (next ({ ctx with response := none, cacheAnswer := false }.setName target))) := by
  have hhandled : handleQuery answer next ctx =
      .ok (finishRedirect ⟨ctx.question, msg⟩ ctx.asked.name
        (next ({ ctx with response := none, cacheAnswer := false }.setName target))) := by
    simp only [handleQuery, resolve, hanswer, Option.map_some, hcname, redirectQuery, htarget]
    rfl
  refine ⟨_, hhandled, ?_⟩
  generalize next ({ ctx with response := none, cacheAnswer := false }.setName target) = after
  rw [finishRedirect]
  cases hresponse : after.response with
  | none =>
    refine iff_of_false ?_ fun h => by simpa [hresponse] using h.answered
    rintro ⟨-, r, hr, -⟩
    rw [hresponse] at hr
    cases hr
  | some response =>
    constructor
    · rintro ⟨hasked, r, hr, -, hload⟩
      cases hr
      obtain ⟨htyp, hcls⟩ := asked_setName_eq.mp hasked
      exact ⟨by simp [hresponse], htyp, hcls, (load_setName_eq hasked).mp hload⟩
    · rintro ⟨-, htyp, hcls, hquestion⟩
      have hasked := asked_setName_eq.mpr ⟨htyp, hcls⟩
      refine ⟨hasked, _, rfl, ?_, (load_setName_eq hasked).mpr hquestion⟩
      have hne : msg.answer ≠ [] := by
        intro hnil
        simp [redirectTarget, hnil] at htarget
      exact List.head?_append_of_ne_nil msg.answer hne

def exampleAlias : Message Section where
  header := ⟨7, true, false, .noError, 1, 0, 0⟩
  question := ⟨["svc"], .a, .internet⟩
  answer := [⟨["svc"], .cname, .internet, 5, [.cname ["www", "example"]]⟩]
  auth := []
  additional := []

def exampleCtx : Ctx Unit :=
  ⟨.ofList ⟨[], .a, .internet⟩ [⟨["svc"], .a, .internet⟩], 0, none, true, ()⟩

def exampleNext (ctx : Ctx Unit) : Ctx Unit :=
  { ctx with response := some ⟨ctx.question, exampleAlias⟩ }

theorem example_redirect_answered :
    ∃ ctx', handleQuery (fun _ => some exampleAlias) exampleNext exampleCtx = .ok ctx' ∧
      Preserved exampleCtx exampleAlias ctx' := by
  have hcname : isCNameResponse exampleAlias = .ok true := rfl
  have htarget : redirectTarget exampleAlias = .ok ["www", "example"] := rfl
  obtain ⟨ctx', hok, hiff⟩ :
      ∃ ctx', handleQuery (fun _ => some exampleAlias) exampleNext exampleCtx = .ok ctx' ∧ _ :=
    redirect_preserves_iff rfl hcname htarget
  exact ⟨ctx', hok, hiff.mpr ⟨rfl, rfl, rfl, .inl rfl⟩⟩

/-- The query is dropped: it has no response and asks for the target of the alias. -/
theorem example_redirect_dropped :
    ∃ ctx', handleQuery (fun _ => some exampleAlias) id exampleCtx = .ok ctx' ∧
      ctx'.response.isNone ∧ exampleCtx.asked.name = ["svc"] ∧
      ctx'.asked.name = ["www", "example"] :=
  ⟨_, rfl, rfl, rfl, rfl⟩

end Vanguard.K8s
