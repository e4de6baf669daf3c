import Vanguard.Cache.Stages
import Vanguard.Library.Runs

namespace Vanguard.Cache

open Library LocalData Memory

variable {P : Type} {rt : Runtime} {conf : ViewConf P}

theorem Inv.newServer (rt : Runtime) (maxSize : ℕ) (short : Bool) :
    Inv rt (Cache.newServer maxSize short) where
  guarded := ⟨fun _ h => absurd h (by simp [Added, Cache.newServer]),
    fun _ h => absurd h (by simp [Slot, Added, Cache.newServer]),
    fun _ h => absurd h (by simp [Added, Cache.newServer])⟩
  faithful _ _ h := absurd h (by simp [Cache.newServer])
  indexed := ⟨nofun, nofun, nofun⟩
  isolated := trivial

theorem shortAnswer_fetch (now : Time) (reply : Reply) (server : Server) :
    (fetch rt now reply server).1.cache.shortAnswer = server.cache.shortAnswer := by
  unfold fetch
  split
  · rfl
  · dsimp only
    split
    · exact shortAnswer_add rt _ _ _ _
    · rfl

theorem shortAnswer_cacheHandleQuery (rt : Runtime) (query : Query) (ctx : Ctx) :
    (cacheHandleQuery rt query ctx).server.cache.shortAnswer = ctx.server.cache.shortAnswer := by
  unfold cacheHandleQuery
  dsimp only
  split
  · rename_i hget
    obtain ⟨elem, -, heq⟩ := Option.map_eq_some_iff.mp hget
    cases heq
    rfl
  · exact shortAnswer_fetch _ _ _

theorem shortAnswer_dns64HandleQuery (query : Query) (ctx : Ctx) :
    (dns64HandleQuery rt conf query ctx).server.cache.shortAnswer =
      ctx.server.cache.shortAnswer := by
  have hfirst := shortAnswer_cacheHandleQuery rt query ctx
  unfold dns64HandleQuery
  dsimp only
  split
  · exact hfirst
  split
  · split
    · exact hfirst
    · unfold synthesizeDNS64Response
      dsimp only
      split
      · exact (shortAnswer_cacheHandleQuery rt _ _).trans hfirst
      · split <;> exact (shortAnswer_cacheHandleQuery rt _ _).trans hfirst
  · exact hfirst

theorem cache_transferAdaptor {transferResponse : Ctx → Ctx}
    (h : ∀ ctx, (transferResponse ctx).server.cache = ctx.server.cache) (next : Ctx → Ctx)
    (ctx : Ctx) :
    (transferAdaptor transferResponse next ctx).server.cache = (next ctx).server.cache := by
  unfold transferAdaptor
  dsimp only
  split
  · rfl
  · exact h _

theorem cache_applyAnswer (answer : PolicyAnswer) (ctx : Ctx) :
    (applyAnswer rt answer ctx).server.cache = ctx.server.cache := by
  cases answer with
  | nxDomain | nxRRset => rfl
  | rrset l => cases hresponse : ctx.client.response <;> simp [applyAnswer, hresponse, respond]

theorem shortAnswer_step [NameTree P LocalPolicy] {server server' : Server} {input : Input}
    (hstep : step rt conf server input = .ok server') :
    server'.cache.shortAnswer = server.cache.shortAnswer := by
  cases input with
  | query q =>
    cases hstep
    have hfilter : ∀ ctx, (aaaaFilterTransferResponse rt conf ctx).server.cache =
        ctx.server.cache := by
      intro ctx
      unfold aaaaFilterTransferResponse
      split
      · rfl
      · split <;> rfl
    have hsort : ∀ ctx, (sortListTransferResponse rt conf ctx).server.cache =
        ctx.server.cache := by
      intro ctx
      unfold sortListTransferResponse
      split <;> rfl
    have hhijack : ∀ ctx, (hijackTransferResponse rt conf ctx).server.cache =
        ctx.server.cache := by
      intro ctx
      unfold hijackTransferResponse
      dsimp only
      repeat' split
      all_goals first | rfl | exact cache_applyAnswer _ _
    rw [handleQuery, cache_transferAdaptor hfilter, cache_transferAdaptor hsort,
      cache_transferAdaptor hhijack, shortAnswer_dns64HandleQuery]
  | prefetch now reply =>
    cases hstep
    exact shortAnswer_fetch now reply server

/-- If no handler rewrites what was just added, what is handed out is what was added. -/
theorem clients_isolated [NameTree P LocalPolicy] (maxSize : ℕ) (short : Bool)
    {inputs : List Input}
    (hunspoiled : Along (step rt conf) (Unspoiled rt conf) (newServer maxSize short) inputs)
    {server : Server} (hreached : Reached (step rt conf) (newServer maxSize short) inputs server) :
    Isolated short server.trace := by
  have hinv : Inv rt server ∧ server.cache.shortAnswer = short := by
    refine reached_induction (fun s => Inv rt s ∧ s.cache.shortAnswer = short) ?_ hunspoiled
      ⟨Inv.newServer rt maxSize short, rfl⟩ hreached
    intro s i s' hs hcond hstep
    exact ⟨hs.1.step hcond hstep, (shortAnswer_step hstep).trans hs.2⟩
  exact hinv.2 ▸ hinv.1.isolated

def exampleRuntime : Runtime where
  hash _ := 0
  rotate := id
  rotate_perm := List.Perm.refl
  sort _ l := l
  sort_perm _ := List.Perm.refl
  grow n := 2 * n

def exampleView : ViewConf (NameTable LocalPolicy) where
  acls := some ["v4"]
  aclFind _ ip := ip = [10, 0, 0, 1]
  sortOrder _ := none
  policies := none
  converters := []

def exampleQuestion : Question := ⟨["www", "cn"], .aaaa, .internet⟩

def exampleReply : Message Section where
  header := ⟨7, true, false, .noError, 1, 0, 0⟩
  question := exampleQuestion
  answer := [⟨["www", "cn"], .aaaa, .internet, 300, [.aaaa (List.replicate 16 1)]⟩]
  auth := []
  additional := []

/-- The client at `ip` asks for the AAAA records of `www.cn.`. -/
def exampleQuery (ip : List UInt8) : Input :=
  .query ⟨ip, 1, exampleQuestion, 0, fun _ => ⟨some exampleReply, 0, true⟩⟩

def exampleHanded (answer : Section) : Message Section :=
  { exampleReply with
    header := { exampleReply.header with id := 1, aa := false, ra := true }, answer }

/-- Two clients that are not filtered: the second one gets what the first one got. -/
theorem example_unfiltered_isolated :
    ∃ server, run (step exampleRuntime exampleView) (newServer 0 false)
        [exampleQuery [10, 0, 0, 2], exampleQuery [10, 0, 0, 3]] = .ok server ∧
      server.trace = [.handed 0 exampleQuestion (exampleHanded exampleReply.answer),
        .added 0 exampleReply] ∧
      Isolated false server.trace := by
  have hunspoiled : Along (step exampleRuntime exampleView) (Unspoiled exampleRuntime exampleView)
      (newServer 0 false) [exampleQuery [10, 0, 0, 2], exampleQuery [10, 0, 0, 3]] := by decide
  exact ⟨_, rfl, by decide, clients_isolated 0 false hunspoiled ⟨_, List.prefix_rfl, rfl⟩⟩

/-- After a filtered client has asked, one that is not filtered gets no AAAA records. -/
theorem example_filtered_message_handed_out :
    ∃ server, run (step exampleRuntime exampleView) (newServer 0 false)
        [exampleQuery [10, 0, 0, 1], exampleQuery [10, 0, 0, 2]] = .ok server ∧
      server.trace = [.handed 0 exampleQuestion (exampleHanded []), .added 0 exampleReply] ∧
      ¬Isolated false server.trace := by
  obtain ⟨server, hrun, htrace⟩ : ∃ server, run (step exampleRuntime exampleView)
      (newServer 0 false) [exampleQuery [10, 0, 0, 1], exampleQuery [10, 0, 0, 2]] = .ok server ∧
      server.trace = [.handed 0 exampleQuestion (exampleHanded []), .added 0 exampleReply] :=
    ⟨_, rfl, by decide⟩
  refine ⟨server, hrun, htrace, ?_⟩
  rw [htrace]
  rintro ⟨⟨v, hv, hserved⟩, -⟩
  obtain rfl : v = exampleReply := by simpa using hv
  have hanswer := hserved.answer
  revert hanswer
  decide

end Vanguard.Cache
