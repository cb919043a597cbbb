import ASky.Proxy.Answers

/-!
# What a request leaves behind in the proxy

`WriterProxy` is one object for all connections, and `response_builder` is one of its members: every
request writes a code and a message into it, and `generate_token` copies it. So an answer could show
what an earlier request left there.

* `treatRequest_of_rebuilt`: it does not. Every path sets the code and the message before it builds.
* `serveEach` is the proxy without memory: each request is treated by the proxy as it was set up.
* **`processInput_stateless`**: after any number of chunks, on any connections, the responses to a
  chunk are those of the proxy without memory.
-/

namespace ASky.Proxy.WriterProxy

section

variable {δ : Type} {libs : Libs δ} {world : World} {request : Request} {w w' w'' : WriterProxy}

theorem rebuilt_set (w : WriterProxy) (code : Nat) (message : String) :
    Rebuilt w (w.set code message) := ⟨code, message, rfl⟩

theorem Rebuilt.set (h : Rebuilt w w') (code : Nat) (message : String) :
    w'.set code message = w.set code message := by
  obtain ⟨_, _, rfl⟩ := h
  rfl

theorem requestReply_of_rebuilt (h : Rebuilt w w') (decoder : Decoder δ) (port : Int) (peer : Peer)
    (fuel : Nat) :
    requestReply decoder port peer fuel w' = requestReply decoder port peer fuel w := by
  unfold requestReply
  rw [h.set, h.set]

theorem forward_of_rebuilt (h : Rebuilt w w') (split : Bytes → List Bytes) (world : World)
    (encodedPath : Bytes) (fuel n : Nat) :
    forward split world encodedPath fuel n w' = forward split world encodedPath fuel n w := by
  induction fuel generalizing n with
  | zero => rfl
  | succ fuel ih =>
    unfold forward
    rw [ih (n + 1)]
    simp only [h.set]

theorem generateToken_of_rebuilt (h : Rebuilt w w') (libs : Libs δ) (world : World) (fuel : Nat) :
    generateToken libs world fuel w' = generateToken libs world fuel w := by
  obtain ⟨code, message, rfl⟩ := h
  have hset := rebuilt_set w code message
  unfold generateToken
  simp only [requestReply_of_rebuilt hset]
  rfl

/-- **A request is treated as if it were the first.** -/
theorem treatRequest_of_rebuilt (h : Rebuilt w w') (libs : Libs δ) (world : World) (fuel : Nat)
    (request : Request) :
    treatRequest libs world fuel request w' = treatRequest libs world fuel request w := by
  unfold treatRequest
  rw [generateToken_of_rebuilt h, forward_of_rebuilt h, h.set, h.set]

end

/-- The loop of `process_input`, with the proxy as it was set up for every request. -/
def serveEach {δ : Type} (libs : Libs δ) (fuel : Nat) (w : WriterProxy) :
    List (Request × World) → Option (List (Request × Response))
  | [] => some []
  | (request, world) :: rest =>
    match treatRequest libs world fuel request w with
    | none => none
    | some (.error _, _) => some []
    | some (.ok response, _) => (serveEach libs fuel w rest).map ((request, response) :: ·)

/-- The proxy after chunks of requests, on any connections. -/
inductive After {δ : Type} (libs : Libs δ) (w : WriterProxy) : WriterProxy → Prop where
  | start : After libs w w
  | chunk {w' w'' : WriterProxy} {fuel : Nat} {input : List (Request × World)}
      {sent : List (Request × Response)} (h : After libs w w')
      (hinput : processInput libs fuel input w' = some (sent, w'')) : After libs w w''

section

variable {δ : Type} {libs : Libs δ} {w w' : WriterProxy} {fuel : Nat}

/-- What a chunk leaves is in the builder. -/
theorem rebuilt_processInput {input : List (Request × World)} {sent : List (Request × Response)}
    (h : processInput libs fuel input w = some (sent, w')) : w' = w ∨ Rebuilt w w' := by
  induction input generalizing w sent with
  | nil =>
    obtain ⟨-, rfl⟩ := Prod.mk.inj (Option.some.inj h)
    exact .inl rfl
  | cons x rest ih =>
    obtain ⟨request, world⟩ := x
    rw [processInput] at h
    cases htreat : treatRequest libs world fuel request w with
    | none =>
      rw [htreat] at h
      cases h
    | some y =>
      obtain ⟨outcome, w₁⟩ := y
      have hre := treatRequest_rebuilt htreat
      rw [htreat] at h
      cases outcome with
      | error e =>
        obtain ⟨-, rfl⟩ := Prod.mk.inj (Option.some.inj h)
        exact .inr hre
      | ok response =>
        dsimp only at h
        cases hrest : processInput libs fuel rest w₁ with
        | none =>
          rw [hrest] at h
          cases h
        | some z =>
          rw [hrest] at h
          obtain ⟨-, rfl⟩ := Prod.mk.inj (Option.some.inj h)
          rcases ih hrest with rfl | hre'
          · exact .inr hre
          · exact .inr (hre.trans hre')

theorem After.rebuilt (h : After libs w w') : w' = w ∨ Rebuilt w w' := by
  induction h with
  | start => exact .inl rfl
  | chunk _ hinput ih =>
    rcases ih, rebuilt_processInput hinput with ⟨rfl | hre, rfl | hre'⟩
    · exact .inl rfl
    · exact .inr hre'
    · exact .inr hre
    · exact .inr (hre.trans hre')

theorem processInput_of_rebuilt (h : w' = w ∨ Rebuilt w w') (input : List (Request × World)) :
    (processInput libs fuel input w').map Prod.fst = serveEach libs fuel w input := by
  induction input generalizing w' with
  | nil => rfl
  | cons x rest ih =>
    obtain ⟨request, world⟩ := x
    have htreated : treatRequest libs world fuel request w' =
        treatRequest libs world fuel request w := by
      rcases h with rfl | hre
      · rfl
      · exact treatRequest_of_rebuilt hre libs world fuel request
    rw [processInput, serveEach, htreated]
    cases htreat : treatRequest libs world fuel request w with
    | none => rfl
    | some y =>
      obtain ⟨outcome, w₁⟩ := y
      cases outcome with
      | error e => rfl
      | ok response =>
        dsimp only
        rw [← ih (.inr (treatRequest_rebuilt htreat))]
        cases processInput libs fuel rest w₁ with
        | none => rfl
        | some z => rfl

end

/-- **The proxy has no memory.** After any number of chunks, the responses to a chunk are those of
the proxy as it was set up, request by request. -/
theorem processInput_stateless {δ : Type} {libs : Libs δ} {w w' : WriterProxy}
    (h : After libs w w') (fuel : Nat) (input : List (Request × World)) :
    (processInput libs fuel input w').map Prod.fst = serveEach libs fuel w input :=
  processInput_of_rebuilt h.rebuilt input

/-- A conflict leaves its code and its message in the builder. -/
theorem conflict_left : processInput libsSample 1
    [(putRequest, putWorld fun _ => .errorResponse (.other 403))] sample =
      some ([(putRequest, ⟨409, lit "Conflict", []⟩)], sample.set 409 "Conflict") := by
  rfl

/-- A token is then handed out as before. -/
theorem processInput_stateless_sample :
    (processInput libsSample 3 [(tokenRequest, tokenWorld 0 1)] (sample.set 409 "Conflict")).map
      Prod.fst = serveEach libsSample 3 sample [(tokenRequest, tokenWorld 0 1)] :=
  processInput_stateless (.chunk .start conflict_left) 3 _

end ASky.Proxy.WriterProxy
