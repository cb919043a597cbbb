import ASky.Proxy.Forward
import ASky.Proxy.Token

/-!
# One response for each request

`process_input` treats the requests of a chunk in one loop inside one `try`. An exception that
`treat_request` lets through ends the loop: its request gets no response, nor do those behind it.
Such an exception is thrown by `generate_token`, on a reply of the Identity Server that is not a
grant. A `PUT` whose attempts do not end never leaves `treat_request`.

* `Answerable`: the condition on one request and on what happens upstream meanwhile. It is exactly
  when `treatRequest` gives a response (`answerable_of_treatRequest`, `eventually_treatRequest`).
* **`processInput_answers_iff`**: every request gets its one response, in order, exactly when every
  request is answerable.
-/

namespace ASky.Proxy.WriterProxy

open Filter

/-- The Identity Server cannot be reached, or it grants a token, and then MinIO cannot be reached or
replies. -/
def Granted {δ : Type} (libs : Libs δ) (world : World) (w : WriterProxy) : Prop :=
  Unreachable libs.decoder w.isPort (identityPeer world w) ∨
    ∃ reply granted, Answers libs.decoder w.isPort (identityPeer world w) reply ∧
      reply.isSuccessful = true ∧ grant libs reply.body = .ok granted ∧
      (Unreachable libs.decoder w.minioPort (minioPeer world granted) ∨
        ∃ minioReply, Answers libs.decoder w.minioPort (minioPeer world granted) minioReply)

/-- A request that gets a response. -/
structure Answerable {δ : Type} (libs : Libs δ) (w : WriterProxy) (request : Request)
    (world : World) : Prop where
  token : request.method = lit "GET" → request.encodedPath = lit "/token" → Granted libs world w
  put : request.method = lit "PUT" → ∃ n, ¬ Retry libs.split world request.encodedPath n

section

variable {δ : Type} {libs : Libs δ} {world : World} {request : Request} {w : WriterProxy}

/-! ## One request -/

theorem treatRequest_token (hget : request.method = lit "GET")
    (htoken : request.encodedPath = lit "/token") (fuel : Nat) :
    treatRequest libs world fuel request w = generateToken libs world fuel w := by
  have hping : ¬ request.encodedPath = lit "/ping" := by
    rw [htoken]
    decide +kernel
  rw [treatRequest, if_pos hget, if_neg hping, if_pos htoken]

theorem treatRequest_put (hput : request.method = lit "PUT") (fuel : Nat) :
    treatRequest libs world fuel request w =
      (forward libs.split world request.encodedPath fuel 0 w).map fun x => (.ok x.1, x.2.2) := by
  have hget : ¬ request.method = lit "GET" := by
    rw [hput]
    decide +kernel
  rw [treatRequest, if_neg hget, if_pos hput]
  cases forward libs.split world request.encodedPath fuel 0 w <;> rfl

/-- The other requests are answered without a look upstream. -/
theorem treatRequest_other (libs : Libs δ) (world : World) (w : WriterProxy)
    (htoken : ¬ (request.method = lit "GET" ∧ request.encodedPath = lit "/token"))
    (hput : ¬ request.method = lit "PUT") :
    ∃ code message, ∀ fuel, treatRequest libs world fuel request w =
      some (.ok (w.set code message).builder, w.set code message) := by
  unfold treatRequest
  by_cases hget : request.method = lit "GET"
  · simp only [if_pos hget]
    by_cases hping : request.encodedPath = lit "/ping"
    · exact ⟨200, "OK", fun fuel => by rw [if_pos hping]⟩
    · refine ⟨400, "Bad Request", fun fuel => ?_⟩
      rw [if_neg hping, if_neg fun h => htoken ⟨hget, h⟩]
  · exact ⟨400, "Bad Request", fun fuel => by rw [if_neg hget, if_neg hput]⟩

/-- A request changes the response builder only. -/
def Rebuilt (w w' : WriterProxy) : Prop := ∃ code message, w' = w.set code message

theorem rebuilt_gateway (port : Int) (w : WriterProxy) : Rebuilt w (gateway port w) := by
  unfold gateway
  split <;> exact ⟨_, _, rfl⟩

theorem Rebuilt.trans {w w' w'' : WriterProxy} (h : Rebuilt w w') (h' : Rebuilt w' w'') :
    Rebuilt w w'' := by
  obtain ⟨_, _, rfl⟩ := h
  obtain ⟨code, message, rfl⟩ := h'
  exact ⟨code, message, rfl⟩

theorem rebuilt_ending (m n : Nat) (w : WriterProxy) : Rebuilt w (ending world m n w) := by
  unfold ending
  split <;> exact ⟨_, _, rfl⟩

theorem Exchange.rebuilt {x : Except JsonError Response} {w' : WriterProxy}
    (h : Exchange libs world w x w') : Rebuilt w w' := by
  have hidentity := rebuilt_gateway w.isPort w
  have hminio := hidentity.trans (rebuilt_gateway w.minioPort (gateway w.isPort w))
  cases h <;> assumption

theorem treatRequest_rebuilt {fuel : Nat} {x : Except JsonError Response} {w' : WriterProxy}
    (h : treatRequest libs world fuel request w = some (x, w')) : Rebuilt w w' := by
  by_cases htoken : request.method = lit "GET" ∧ request.encodedPath = lit "/token"
  · rw [treatRequest_token htoken.1 htoken.2] at h
    exact (exchange_of_generateToken h).rebuilt
  by_cases hput : request.method = lit "PUT"
  · rw [treatRequest_put hput, forward_eq, Option.map_map] at h
    obtain ⟨n, -, heq⟩ := Option.map_eq_some_iff.mp h
    obtain ⟨-, rfl⟩ := Prod.mk.inj heq
    exact rebuilt_ending 0 n w
  · obtain ⟨code, message, htreat⟩ := treatRequest_other libs world w htoken hput
    rw [htreat] at h
    obtain ⟨-, rfl⟩ := Prod.mk.inj (Option.some.inj h)
    exact ⟨code, message, rfl⟩

theorem answerable_rebuilt_iff {w' : WriterProxy} (hre : Rebuilt w w') :
    Answerable libs w' request world ↔ Answerable libs w request world := by
  obtain ⟨code, message, rfl⟩ := hre
  exact ⟨fun h => ⟨h.token, h.put⟩, fun h => ⟨h.token, h.put⟩⟩

/-- A response to `GET /token` means that nothing was thrown on the way. -/
theorem granted_of_exchange {e : JsonError} (hparse : libs.parse [] = .error e) {r : Response}
    {w' : WriterProxy} (h : Exchange libs world w (.ok r) w') : Granted libs world w := by
  cases h with
  | identityUnreachable h => exact Or.inl h
  | @minioUnreachable reply granted h hgrant hminio =>
    have hok := isSuccessful_of_grant hparse hgrant
    rw [text_of_isSuccessful hok] at hgrant
    exact Or.inr ⟨reply, granted, h, hok, hgrant, Or.inl hminio⟩
  | @credentials reply minioReply granted h hgrant hminio =>
    have hok := isSuccessful_of_grant hparse hgrant
    rw [text_of_isSuccessful hok] at hgrant
    exact Or.inr ⟨reply, granted, h, hok, hgrant, Or.inr ⟨minioReply, hminio⟩⟩

theorem exchange_of_granted (h : Granted libs world w) :
    ∃ r w', Exchange libs world w (.ok r) w' := by
  rcases h with hidentity | ⟨reply, granted, hidentity, hok, hgrant, hminio⟩
  · exact ⟨_, _, .identityUnreachable hidentity⟩
  · rw [← text_of_isSuccessful hok] at hgrant
    rcases hminio with hminio | ⟨minioReply, hminio⟩
    · exact ⟨_, _, .minioUnreachable hidentity hgrant hminio⟩
    · exact ⟨_, _, .credentials hidentity hgrant hminio⟩

theorem answerable_of_treatRequest {e : JsonError} (hparse : libs.parse [] = .error e) {fuel : Nat}
    {r : Response} {w' : WriterProxy}
    (h : treatRequest libs world fuel request w = some (.ok r, w')) :
    Answerable libs w request world := by
  constructor
  · intro hget htoken
    rw [treatRequest_token hget htoken] at h
    exact granted_of_exchange hparse (exchange_of_generateToken h)
  · intro hput
    rw [treatRequest_put hput] at h
    obtain ⟨x, hforward, -⟩ := Option.map_eq_some_iff.mp h
    exact (forward_returns_iff libs.split world request.encodedPath w).mp ⟨fuel, x, hforward⟩

theorem eventually_treatRequest (h : Answerable libs w request world) :
    ∃ r w', ∀ᶠ fuel in atTop, treatRequest libs world fuel request w = some (.ok r, w') := by
  by_cases htoken : request.method = lit "GET" ∧ request.encodedPath = lit "/token"
  · obtain ⟨r, w', hexchange⟩ := exchange_of_granted (h.token htoken.1 htoken.2)
    refine ⟨r, w', (eventually_of_exchange hexchange).mono fun fuel hfuel => ?_⟩
    rw [treatRequest_token htoken.1 htoken.2]
    exact hfuel
  by_cases hput : request.method = lit "PUT"
  · obtain ⟨x, hev⟩ := eventually_forward (h.put hput) w
    refine ⟨x.1, x.2.2, hev.mono fun fuel hfuel => ?_⟩
    rw [treatRequest_put hput, hfuel, Option.map_some]
  · obtain ⟨code, message, htreat⟩ := treatRequest_other libs world w htoken hput
    exact ⟨_, _, Eventually.of_forall htreat⟩

/-! ## The requests of a chunk -/

theorem answerable_of_processInput {e : JsonError} (hparse : libs.parse [] = .error e) {fuel : Nat}
    {input : List (Request × World)} {sent : List (Request × Response)} {w' : WriterProxy}
    (h : processInput libs fuel input w = some (sent, w'))
    (hsent : sent.map Prod.fst = input.map Prod.fst) :
    ∀ x ∈ input, Answerable libs w x.1 x.2 := by
  induction input generalizing w sent with
  | nil => exact fun x hx => absurd hx List.not_mem_nil
  | cons y rest ih =>
    obtain ⟨request, world⟩ := y
    unfold processInput at h
    cases htreat : treatRequest libs world fuel request w with
    | none =>
      simp only [htreat, reduceCtorEq] at h
    | some z =>
      obtain ⟨outcome, w₁⟩ := z
      cases outcome with
      | error e =>
        simp only [htreat] at h
        obtain ⟨rfl, -⟩ := Prod.mk.inj (Option.some.inj h)
        cases hsent
      | ok response =>
        simp only [htreat] at h
        cases hrest : processInput libs fuel rest w₁ with
        | none => simp only [hrest, reduceCtorEq] at h
        | some z =>
          obtain ⟨sent', w₂⟩ := z
          simp only [hrest] at h
          obtain ⟨rfl, rfl⟩ := Prod.mk.inj (Option.some.inj h)
          have hmore := ih hrest (List.cons.inj hsent).2
          intro x hx
          rcases List.mem_cons.mp hx with rfl | hx
          · exact answerable_of_treatRequest hparse htreat
          · exact (answerable_rebuilt_iff (treatRequest_rebuilt htreat)).mp (hmore x hx)

theorem eventually_processInput {input : List (Request × World)}
    (h : ∀ x ∈ input, Answerable libs w x.1 x.2) :
    ∃ sent w', sent.map Prod.fst = input.map Prod.fst ∧
      ∀ᶠ fuel in atTop, processInput libs fuel input w = some (sent, w') := by
  induction input generalizing w with
  | nil => exact ⟨[], w, rfl, Eventually.of_forall fun _ => rfl⟩
  | cons y rest ih =>
    obtain ⟨request, world⟩ := y
    obtain ⟨response, w₁, htreat⟩ := eventually_treatRequest (h (request, world) List.mem_cons_self)
    obtain ⟨fuel₀, hfuel₀⟩ := htreat.exists
    have hre := treatRequest_rebuilt hfuel₀
    obtain ⟨sent, w', hsent, hrest⟩ :=
      ih fun x hx => (answerable_rebuilt_iff hre).mpr (h x (List.mem_cons_of_mem _ hx))
    refine ⟨(request, response) :: sent, w', ?_, ?_⟩
    · rw [List.map_cons, List.map_cons, hsent]
    · filter_upwards [htreat, hrest] with fuel htreat hrest
      simp only [processInput, htreat, hrest]

end

/-- Every request of the chunk gets one response, in order, and `process_input` returns. -/
def AnswersAll {δ : Type} (libs : Libs δ) (input : List (Request × World)) (w : WriterProxy) :
    Prop :=
  ∃ fuel sent w', processInput libs fuel input w = some (sent, w') ∧
    sent.map Prod.fst = input.map Prod.fst

/-- **Every request gets its one response, in order, exactly when** every request is answerable. -/
theorem processInput_answers_iff {δ : Type} (libs : Libs δ)
    (hparse : ∃ e, libs.parse [] = .error e) (input : List (Request × World)) (w : WriterProxy) :
    AnswersAll libs input w ↔ ∀ x ∈ input, Answerable libs w x.1 x.2 := by
  obtain ⟨e, hparse⟩ := hparse
  constructor
  · rintro ⟨fuel, sent, w', hprocess, hsent⟩
    exact answerable_of_processInput hparse hprocess hsent
  · intro h
    obtain ⟨sent, w', hsent, hev⟩ := eventually_processInput h
    obtain ⟨fuel, hprocess⟩ := hev.exists
    exact ⟨fuel, sent, w', hprocess, hsent⟩

/-! ## Samples -/

def tokenRequest : Request := ⟨lit "GET", lit "/token"⟩

def putRequest : Request := ⟨lit "PUT", lit "/b/o"⟩

def pingRequest : Request := ⟨lit "GET", lit "/ping"⟩

/-- A token is granted, an object stored after a bucket was made, and a ping answered. -/
theorem processInput_answers_sample :
    AnswersAll libsSample [(tokenRequest, tokenWorld 0 1),
      (putRequest, putWorld fun n => if n = 0 then .errorResponse .noSuchBucket else .stored),
      (pingRequest, tokenWorld 0 1)] sample := by
  refine (processInput_answers_iff libsSample ⟨_, rfl⟩ _ sample).mpr ?_
  have hgranted : Granted libsSample (tokenWorld 0 1) sample :=
    Or.inr ⟨_, _, grant_answers, rfl, grant_sample, Or.inr ⟨_, credentials_answers⟩⟩
  rintro x hx
  rcases List.mem_cons.mp hx with rfl | hx
  · exact ⟨fun _ _ => hgranted, fun h => absurd h (by decide +kernel)⟩
  rcases List.mem_cons.mp hx with rfl | hx
  · refine ⟨fun h => absurd h (by decide +kernel), fun _ => ⟨1, ?_⟩⟩
    exact fun h => absurd h.1 (by decide)
  · obtain rfl := List.mem_singleton.mp hx
    exact ⟨fun _ h => absurd h (by decide +kernel), fun h => absurd h (by decide +kernel)⟩

/-- The Identity Server refuses, and neither the token nor the ping behind it is answered. -/
theorem processInput_not_answers :
    (∃ e, libsSample.parse [] = .error e) ∧
      Answers libsSample.decoder sample.isPort (identityPeer (tokenWorld 2 1) sample) ⟨false, []⟩ ∧
      ¬ AnswersAll libsSample [(tokenRequest, tokenWorld 2 1), (pingRequest, tokenWorld 2 1)]
        sample := by
  have hrefused : Answers libsSample.decoder sample.isPort
      (identityPeer (tokenWorld 2 1) sample) ⟨false, []⟩ := refusal_answers 9443 (by decide)
  refine ⟨⟨_, rfl⟩, hrefused, ?_⟩
  rintro ⟨fuel, sent, w', hprocess, hsent⟩
  have hall := answerable_of_processInput rfl hprocess hsent
  rcases (hall _ List.mem_cons_self).token rfl rfl with hun | ⟨reply, granted, hans, hok, -⟩
  · exact absurd (hrefused.2.unique (hun hrefused.1)) nofun
  · rw [hans.unique hrefused] at hok
    cases hok

end ASky.Proxy.WriterProxy
