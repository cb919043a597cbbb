import ASky.Lib.Attempts
import ASky.Proxy.WriterProxy

/-!
# Waiting for an upstream reply

`request_reply` calls `recv` and feeds the decoder until that has a response. A negative length is
the only error that ends the loop: at the end of the stream `recv` returns 0, the decoder is fed
nothing, and the loop goes on.

* `fed n`: the decoder after `n` calls of `recv`. `Ends n`: the `n`-th call ends the wait.
* `Answers`, `Unreachable`: the two ways a request ends. `requestReply_ok`, `requestReply_error` say
  what `requestReply` tells of them; `eventually_of_answers` and `eventually_of_unreachable` that it
  does, with enough fuel.
* **`requestReply_returns_iff`**: for a peer that hangs up after any chunks, `requestReply` returns
  or throws exactly when the request is not sent, or the decoder has a response by the end of the
  stream.
-/

namespace ASky.Proxy

open Lib Filter

/-- What `request_reply` returns for a response. -/
def Reply.text (reply : Reply) : Bytes := if reply.isSuccessful then reply.body else []

namespace WriterProxy

section Reads

variable {δ : Type} (decoder : Decoder δ) (recv : Nat → Recv)

/-- The decoder after `n` calls of `recv`. -/
def fed : Nat → δ
  | 0 => decoder.start
  | n + 1 =>
    match recv n with
    | .failed => fed n
    | .data bytes => decoder.addChunk (fed n) bytes

/-- The `n`-th call of `recv` fails, or the decoder has a response after it. -/
def Ends (n : Nat) : Prop :=
  recv n = .failed ∨ (decoder.getResponse (fed decoder recv (n + 1))).isSome

instance : DecidablePred (Ends decoder recv) := fun _ => inferInstanceAs (Decidable (_ ∨ _))

/-- The response after the `n`-th call of `recv`. -/
def replyAt (n : Nat) : Option Reply :=
  if recv n = .failed then none else decoder.getResponse (fed decoder recv (n + 1))

/-- The wait ends with the response `reply`, or, for `none`, with a failed `recv`. -/
def Settles (reply : Option Reply) : Prop :=
  ∃ n, Ends decoder recv n ∧ (∀ i < n, ¬ Ends decoder recv i) ∧ replyAt decoder recv n = reply

variable {decoder recv}

/-- The loop of `request_reply`, by the call of `recv` that ends it. -/
theorem receive_eq (fuel i : Nat) :
    receive decoder recv fuel i (fed decoder recv i) =
      (firstStop (Ends decoder recv) fuel i).map (replyAt decoder recv) := by
  induction fuel generalizing i with
  | zero => rfl
  | succ fuel ih =>
    unfold receive firstStop
    cases hr : recv i with
    | failed =>
      have hends : Ends decoder recv i := Or.inl hr
      rw [if_pos hends, Option.map_some, replyAt, if_pos hr]
    | data bytes =>
      have hfed : decoder.addChunk (fed decoder recv i) bytes = fed decoder recv (i + 1) := by
        simp only [fed, hr]
      have hne : recv i ≠ .failed := by simp [hr]
      dsimp only
      rw [hfed]
      cases hresp : decoder.getResponse (fed decoder recv (i + 1)) with
      | some reply =>
        have hends : Ends decoder recv i := Or.inr (by simp [hresp])
        rw [if_pos hends, Option.map_some, replyAt, if_neg hne, hresp]
      | none =>
        have hnot : ¬ Ends decoder recv i := by simp [Ends, hr, hresp]
        rw [if_neg hnot]
        exact ih (i + 1)

theorem Settles.unique {reply reply' : Option Reply} (h : Settles decoder recv reply)
    (h' : Settles decoder recv reply') : reply = reply' := by
  obtain ⟨n, hn, hfirst, rfl⟩ := h
  obtain ⟨n', hn', hfirst', rfl⟩ := h'
  have hle : ¬ n < n' := fun hlt => hfirst' n hlt hn
  have hge : ¬ n' < n := fun hlt => hfirst n' hlt hn'
  rw [show n = n' by omega]

theorem settles_of_receive {fuel : Nat} {reply : Option Reply}
    (h : receive decoder recv fuel 0 decoder.start = some reply) : Settles decoder recv reply := by
  obtain ⟨n, hn, hreply⟩ := Option.map_eq_some_iff.mp ((receive_eq fuel 0).symm.trans h)
  obtain ⟨-, -, hends, hfirst⟩ := firstStop_eq_some.mp hn
  exact ⟨n, hends, fun i hi => hfirst i (Nat.zero_le i) hi, hreply⟩

theorem eventually_receive {reply : Option Reply} (h : Settles decoder recv reply) :
    ∀ᶠ fuel in atTop, receive decoder recv fuel 0 decoder.start = some reply := by
  obtain ⟨n, hends, hfirst, rfl⟩ := h
  refine (eventually_firstStop (Nat.zero_le n) hends fun i _ hi => hfirst i hi).mono ?_
  intro fuel hfuel
  exact (receive_eq fuel 0).trans (congrArg (Option.map _) hfuel)

end Reads

/-! ## The two ways a request ends -/

section Requests

/-- The endpoint is given, and the request is sent to it. -/
def Sends (port : Int) (peer : Peer) : Prop := port ≠ -1 ∧ peer.connects = true ∧ 0 < peer.sent

instance (port : Int) (peer : Peer) : Decidable (Sends port peer) :=
  inferInstanceAs (Decidable (_ ∧ _))

variable {δ : Type} (decoder : Decoder δ) (port : Int) (peer : Peer)

/-- The peer answers with `reply`. -/
def Answers (reply : Reply) : Prop := Sends port peer ∧ Settles decoder peer.recv (some reply)

/-- The request is not sent, or the connection breaks before there is a response. -/
def Unreachable : Prop := Sends port peer → Settles decoder peer.recv none

/-- The proxy after `request_reply`. -/
def gateway (w : WriterProxy) : WriterProxy :=
  if port = -1 then w.set 405 "Method Not Allowed" else w.set 504 "Gateway Timeout"

theorem gateway_code_ne (w : WriterProxy) : (gateway port w).builder.code ≠ 200 := by
  unfold gateway
  by_cases h : port = -1
  · rw [if_pos h]
    exact (by decide : (405 : Nat) ≠ 200)
  · rw [if_neg h]
    exact (by decide : (504 : Nat) ≠ 200)

/-- What `request_reply` tells of the end of the wait. -/
def told (w : WriterProxy) : Option Reply → Except Response Bytes
  | none => .error w.builder
  | some reply => .ok reply.text

variable {decoder port peer}

theorem requestReply_of_sends (h : Sends port peer) (fuel : Nat) (w : WriterProxy) :
    requestReply decoder port peer fuel w =
      (receive decoder peer.recv fuel 0 decoder.start).map fun reply =>
        (told (gateway port w) reply, gateway port w) := by
  obtain ⟨hport, hconnects, hsent⟩ := h
  unfold requestReply gateway
  simp only [if_neg hport, hconnects, Bool.true_eq_false, if_false, if_neg (not_le.mpr hsent)]
  cases receive decoder peer.recv fuel 0 decoder.start with
  | none => rfl
  | some reply => cases reply <;> rfl

theorem requestReply_of_not_sends (h : ¬ Sends port peer) (fuel : Nat) (w : WriterProxy) :
    requestReply decoder port peer fuel w =
      some (.error (gateway port w).builder, gateway port w) := by
  unfold requestReply gateway
  by_cases hport : port = -1
  · simp only [if_pos hport]
  · simp only [if_neg hport]
    by_cases hconnects : peer.connects = false
    · rw [if_pos hconnects]
    · have hsent : peer.sent ≤ 0 := by
        by_contra hsent
        exact h ⟨hport, Bool.not_eq_false _ ▸ hconnects, not_le.mp hsent⟩
      rw [if_neg hconnects, if_pos hsent]

/-- How `requestReply` ends, by the end of the wait. -/
theorem requestReply_inv {fuel : Nat} {w w' : WriterProxy} {x : Except Response Bytes}
    (h : requestReply decoder port peer fuel w = some (x, w')) :
    w' = gateway port w ∧
      ((Unreachable decoder port peer ∧ x = .error w'.builder) ∨
        ∃ reply, Answers decoder port peer reply ∧ x = .ok reply.text) := by
  by_cases hsends : Sends port peer
  · rw [requestReply_of_sends hsends] at h
    obtain ⟨reply, hreceive, heq⟩ := Option.map_eq_some_iff.mp h
    obtain ⟨rfl, rfl⟩ := Prod.mk.inj heq
    have hsettles := settles_of_receive hreceive
    cases reply with
    | none => exact ⟨rfl, Or.inl ⟨fun _ => hsettles, rfl⟩⟩
    | some reply => exact ⟨rfl, Or.inr ⟨reply, ⟨hsends, hsettles⟩, rfl⟩⟩
  · rw [requestReply_of_not_sends hsends] at h
    obtain ⟨rfl, rfl⟩ := Prod.mk.inj (Option.some.inj h)
    exact ⟨rfl, Or.inl ⟨fun hs => absurd hs hsends, rfl⟩⟩

theorem eventually_of_answers {reply : Reply} (h : Answers decoder port peer reply)
    (w : WriterProxy) :
    ∀ᶠ fuel in atTop, requestReply decoder port peer fuel w =
      some (.ok reply.text, gateway port w) := by
  refine (eventually_receive h.2).mono fun fuel hfuel => ?_
  rw [requestReply_of_sends h.1, hfuel, Option.map_some]
  rfl

theorem eventually_of_unreachable (h : Unreachable decoder port peer) (w : WriterProxy) :
    ∀ᶠ fuel in atTop, requestReply decoder port peer fuel w =
      some (.error (gateway port w).builder, gateway port w) := by
  by_cases hsends : Sends port peer
  · refine (eventually_receive (h hsends)).mono fun fuel hfuel => ?_
    rw [requestReply_of_sends hsends, hfuel, Option.map_some]
    rfl
  · exact Eventually.of_forall fun fuel => requestReply_of_not_sends hsends fuel w

theorem requestReply_exists_iff (w : WriterProxy) :
    (∃ fuel r, requestReply decoder port peer fuel w = some r) ↔
      ¬ Sends port peer ∨ ∃ n, Ends decoder peer.recv n := by
  by_cases hsends : Sends port peer
  · have hreceive : ∀ fuel, receive decoder peer.recv fuel 0 decoder.start =
        (firstStop (Ends decoder peer.recv) fuel 0).map (replyAt decoder peer.recv) :=
      fun fuel => receive_eq fuel 0
    rw [or_iff_right (not_not.mpr hsends)]
    simp only [requestReply_of_sends hsends, hreceive, Option.map_map]
    exact exists_map_firstStop_iff _
  · exact ⟨fun _ => Or.inl hsends, fun _ => ⟨0, _, requestReply_of_not_sends hsends 0 w⟩⟩

theorem Answers.unique {reply reply' : Reply} (h : Answers decoder port peer reply)
    (h' : Answers decoder port peer reply') : reply = reply' :=
  Option.some.inj (h.2.unique h'.2)

end Requests

/-! ## A peer that hangs up -/

/-- A peer that sends `chunks` and closes its side. -/
def hangsUp (connects : Bool) (sent : Int) (chunks : List Bytes) : Peer where
  connects := connects
  sent := sent
  recv i := .data (chunks.getD i [])

section HangsUp

variable {δ : Type} {decoder : Decoder δ} {chunks : List Bytes} (connects : Bool) (sent : Int)

theorem fed_hangsUp (hempty : ∀ d, decoder.addChunk d [] = d) (n : Nat) :
    fed decoder (hangsUp connects sent chunks).recv n =
      (chunks.take n).foldl decoder.addChunk decoder.start := by
  induction n with
  | zero => rfl
  | succ n ih =>
    have hfed : fed decoder (hangsUp connects sent chunks).recv (n + 1) =
        decoder.addChunk (fed decoder (hangsUp connects sent chunks).recv n) (chunks.getD n []) :=
      rfl
    rw [hfed, ih, List.take_add_one, List.foldl_append, List.getD_eq_getElem?_getD]
    cases chunks[n]? with
    | none => exact hempty _
    | some chunk => rfl

/-- The wait ends exactly when the decoder gets a response out of the stream. -/
theorem exists_ends_hangsUp (hempty : ∀ d, decoder.addChunk d [] = d) :
    (∃ n, Ends decoder (hangsUp connects sent chunks).recv n) ↔
      ∃ n ≤ chunks.length,
        (decoder.getResponse
          ((chunks.take (n + 1)).foldl decoder.addChunk decoder.start)).isSome := by
  have hends : ∀ n, Ends decoder (hangsUp connects sent chunks).recv n ↔
      (decoder.getResponse
        ((chunks.take (n + 1)).foldl decoder.addChunk decoder.start)).isSome := by
    intro n
    rw [← fed_hangsUp connects sent hempty]
    exact or_iff_right nofun
  constructor
  · rintro ⟨n, hn⟩
    have hn := (hends n).mp hn
    by_cases hle : n ≤ chunks.length
    · exact ⟨n, hle, hn⟩
    · rw [List.take_of_length_le (by omega)] at hn
      refine ⟨chunks.length, Nat.le_refl _, ?_⟩
      rw [List.take_of_length_le (by omega)]
      exact hn
  · rintro ⟨n, -, hn⟩
    exact ⟨n, (hends n).mpr hn⟩

end HangsUp

/-- **Waiting for a peer that hangs up ends exactly when** the request is not sent to it, or its
stream has a response in it. -/
theorem requestReply_returns_iff {δ : Type} (decoder : Decoder δ)
    (hempty : ∀ d, decoder.addChunk d [] = d) (port : Int) (connects : Bool) (sent : Int)
    (chunks : List Bytes) (w : WriterProxy) :
    (∃ fuel r, requestReply decoder port (hangsUp connects sent chunks) fuel w = some r) ↔
      port = -1 ∨ connects = false ∨ sent ≤ 0 ∨ ∃ n ≤ chunks.length,
        (decoder.getResponse
          ((chunks.take (n + 1)).foldl decoder.addChunk decoder.start)).isSome := by
  rw [← exists_ends_hangsUp connects sent hempty, requestReply_exists_iff]
  have hsends : ¬ Sends port (hangsUp connects sent chunks) ↔
      port = -1 ∨ connects = false ∨ sent ≤ 0 := by
    simp only [Sends, hangsUp, not_and_or, not_not, Bool.not_eq_true, not_lt]
  rw [hsends, or_assoc, or_assoc]

/-- A grant of the Identity Server. -/
def grantText : String := "\x7b\"access_token\":\"t\",\"expires_in\":60\x7d"

/-- Responses with their text: a grant, credentials, and a refusal. -/
def responsesSample : List (Bytes × Reply) :=
  [(lit "HTTP/1.1 200 OK\r\nContent-Length: 36\r\n\r\n" ++ lit grantText, ⟨true, lit grantText⟩),
    (lit "HTTP/1.1 200 OK\r\nContent-Length: 14\r\n\r\n<Credentials/>",
      ⟨true, lit "<Credentials/>"⟩),
    (lit "HTTP/1.1 403 Forbidden\r\nContent-Length: 0\r\n\r\n", ⟨false, []⟩)]

/-- A decoder for these responses. -/
def decoderSample : Decoder Bytes where
  start := []
  addChunk d bytes := d ++ bytes
  getResponse d := responsesSample.lookup d

/-- The response comes in two chunks. -/
theorem requestReply_returns_sample :
    ∃ fuel r, requestReply decoderSample 9443
      (hangsUp true 1 [lit "HTTP/1.1 403 Forbidden\r\n", lit "Content-Length: 0\r\n\r\n"]) fuel
      sample = some r :=
  (requestReply_returns_iff decoderSample List.append_nil 9443 true 1 _ sample).mpr
    (Or.inr (Or.inr (Or.inr ⟨1, by decide, by decide +kernel⟩)))

/-- The peer closes its side after the status line. -/
theorem requestReply_never_returns :
    (∀ d, decoderSample.addChunk d [] = d) ∧
      ¬ ∃ fuel r, requestReply decoderSample 9443 (hangsUp true 1 [lit "HTTP/1.1 200 OK\r\n"]) fuel
        sample = some r := by
  refine ⟨List.append_nil, ?_⟩
  rw [requestReply_exists_iff, exists_ends_hangsUp true 1 List.append_nil]
  decide +kernel

end WriterProxy

end ASky.Proxy
