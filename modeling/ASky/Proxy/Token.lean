import ASky.Proxy.Reply

/-!
# Credentials for readers

`generate_token` makes two requests. It learns of some failures by a thrown `Response`, and of an
unsuccessful reply by an empty text. At the first hop the empty text is not JSON and `json::parse`
throws; at the second it is taken for the credentials, and the answer is `200`.

* `Exchange`: what `generateToken` can do, by how the two requests end
  (`exchange_of_generateToken`), and does, with enough fuel (`eventually_of_exchange`).
* **`generateToken_genuine_iff`**: a `200` carries credentials exactly when no token of the Identity
  Server leads to an unsuccessful reply of MinIO.
-/

namespace ASky.Proxy.WriterProxy

open Filter

/-- The Identity Server, for the request of `generate_token`. -/
def identityPeer (world : World) (w : WriterProxy) : Peer :=
  world.identityServer (.accessToken (w.tuser ++ lit ":" ++ w.tpass))

/-- MinIO, for the query with what was read from the Identity Server's reply. -/
def minioPeer (world : World) (granted : Int × Bytes) : Peer :=
  world.minio (.assumeRole granted.1 granted.2)

/-- A copy of a response, with `text` appended to its body. -/
def appendBody (r : Response) (text : String) : Response := { r with body := r.body ++ lit text }

section

variable {δ : Type} {libs : Libs δ} {world : World} {w : WriterProxy}

/-- How `generate_token` ends, by the ends of its two requests: the outcome, and the proxy. -/
inductive Exchange (libs : Libs δ) (world : World) (w : WriterProxy) :
    Except JsonError Response → WriterProxy → Prop
  | identityUnreachable (h : Unreachable libs.decoder w.isPort (identityPeer world w)) :
      Exchange libs world w
        (.ok (appendBody (gateway w.isPort w).builder "Error communicating with Identity Server\n"))
        (gateway w.isPort w)
  | notGranted {reply : Reply} {e : JsonError}
      (h : Answers libs.decoder w.isPort (identityPeer world w) reply)
      (hgrant : grant libs reply.text = .error e) :
      Exchange libs world w (.error e) (gateway w.isPort w)
  | minioUnreachable {reply : Reply} {granted : Int × Bytes}
      (h : Answers libs.decoder w.isPort (identityPeer world w) reply)
      (hgrant : grant libs reply.text = .ok granted)
      (hminio : Unreachable libs.decoder w.minioPort (minioPeer world granted)) :
      Exchange libs world w
        (.ok (appendBody (gateway w.minioPort (gateway w.isPort w)).builder
          "Error communicating with minio\n"))
        (gateway w.minioPort (gateway w.isPort w))
  | credentials {reply minioReply : Reply} {granted : Int × Bytes}
      (h : Answers libs.decoder w.isPort (identityPeer world w) reply)
      (hgrant : grant libs reply.text = .ok granted)
      (hminio : Answers libs.decoder w.minioPort (minioPeer world granted) minioReply) :
      Exchange libs world w (.ok ⟨200, lit "OK", minioReply.text⟩)
        (gateway w.minioPort (gateway w.isPort w))

@[simp] theorem gateway_minioPort (port : Int) (w : WriterProxy) :
    (gateway port w).minioPort = w.minioPort := by
  unfold gateway
  split <;> rfl

/-- What `generate_token` makes of the second request. -/
def exchanged : Except Response Bytes → Response
  | .error r => appendBody r "Error communicating with minio\n"
  | .ok credentials => ⟨200, lit "OK", credentials⟩

/-- `generateToken`, one request after the other. -/
theorem generateToken_eq (libs : Libs δ) (world : World) (fuel : Nat) (w : WriterProxy) :
    generateToken libs world fuel w =
      (requestReply libs.decoder w.isPort (identityPeer world w) fuel w).bind fun y =>
        match y.1 with
        | .error r =>
          some (.ok (appendBody r "Error communicating with Identity Server\n"), y.2)
        | .ok accessToken =>
          match grant libs accessToken with
          | .error e => some (.error e, y.2)
          | .ok granted =>
            (requestReply libs.decoder y.2.minioPort (minioPeer world granted) fuel y.2).map
              fun z => (.ok (exchanged z.1), z.2) := by
  rw [generateToken, if_neg (by decide)]
  dsimp only [identityPeer, minioPeer]
  cases requestReply libs.decoder w.isPort
      (world.identityServer (.accessToken (w.tuser ++ lit ":" ++ w.tpass))) fuel w with
  | none => rfl
  | some y =>
    obtain ⟨x, w₁⟩ := y
    cases x with
    | error r => rfl
    | ok accessToken =>
      dsimp only [Option.bind_some]
      cases grant libs accessToken with
      | error e => rfl
      | ok granted =>
        dsimp only
        cases requestReply libs.decoder w₁.minioPort
            (world.minio (.assumeRole granted.1 granted.2)) fuel w₁ with
        | none => rfl
        | some z =>
          obtain ⟨x', w₂⟩ := z
          cases x' with
          | error r => rfl
          | ok credentials =>
            simp only [empty_body, List.nil_append, Option.map_some, exchanged]

/-- **What `generateToken` can do.** -/
theorem exchange_of_generateToken {fuel : Nat} {w' : WriterProxy} {x : Except JsonError Response}
    (h : generateToken libs world fuel w = some (x, w')) : Exchange libs world w x w' := by
  rw [generateToken_eq] at h
  obtain ⟨⟨text, w₁⟩, hidentity, h⟩ := Option.bind_eq_some_iff.mp h
  obtain ⟨rfl, ⟨hun, rfl⟩ | ⟨reply, hans, rfl⟩⟩ := requestReply_inv hidentity
  · obtain ⟨rfl, rfl⟩ := Prod.mk.inj (Option.some.inj h)
    exact .identityUnreachable hun
  · cases hgrant : grant libs reply.text with
    | error e =>
      simp only [hgrant] at h
      obtain ⟨rfl, rfl⟩ := Prod.mk.inj (Option.some.inj h)
      exact .notGranted hans hgrant
    | ok granted =>
      simp only [hgrant, gateway_minioPort] at h
      obtain ⟨⟨text, w₂⟩, hminio, heq⟩ := Option.map_eq_some_iff.mp h
      obtain ⟨rfl, rfl⟩ := Prod.mk.inj heq
      obtain ⟨rfl, ⟨hun, rfl⟩ | ⟨minioReply, hans', rfl⟩⟩ := requestReply_inv hminio
      · exact .minioUnreachable hans hgrant hun
      · exact .credentials hans hgrant hans'

/-- **And does**, with enough fuel. -/
theorem eventually_of_exchange {x : Except JsonError Response} {w' : WriterProxy}
    (h : Exchange libs world w x w') :
    ∀ᶠ fuel in atTop, generateToken libs world fuel w = some (x, w') := by
  simp only [generateToken_eq]
  cases h with
  | identityUnreachable h =>
    filter_upwards [eventually_of_unreachable h w] with fuel hidentity
    rw [hidentity, Option.bind_some]
  | notGranted h hgrant =>
    filter_upwards [eventually_of_answers h w] with fuel hidentity
    rw [hidentity, Option.bind_some]
    simp only [hgrant]
  | minioUnreachable h hgrant hminio =>
    filter_upwards [eventually_of_answers h w,
      eventually_of_unreachable hminio (gateway w.isPort w)] with fuel hidentity hexchange
    rw [hidentity, Option.bind_some]
    simp only [hgrant, gateway_minioPort, hexchange, Option.map_some, exchanged]
  | credentials h hgrant hminio =>
    filter_upwards [eventually_of_answers h w,
      eventually_of_answers hminio (gateway w.isPort w)] with fuel hidentity hexchange
    rw [hidentity, Option.bind_some]
    simp only [hgrant, gateway_minioPort, hexchange, Option.map_some, exchanged]

theorem appendBody_code_ne (port : Int) (w : WriterProxy) (text : String) :
    (appendBody (gateway port w).builder text).code ≠ 200 :=
  gateway_code_ne port w

/-- What is granted is read from a successful reply. -/
theorem isSuccessful_of_grant {e : JsonError} (hparse : libs.parse [] = .error e) {reply : Reply}
    {granted : Int × Bytes} (h : grant libs reply.text = .ok granted) :
    reply.isSuccessful = true := by
  by_contra hno
  have htext : reply.text = [] := if_neg hno
  rw [htext, grant, hparse] at h
  cases h

theorem text_of_isSuccessful {reply : Reply} (h : reply.isSuccessful = true) :
    reply.text = reply.body := if_pos h

end

/-- A `200` means that both replies were successful, and carries the body of MinIO's. -/
def Genuine {δ : Type} (libs : Libs δ) (world : World) (w : WriterProxy) : Prop :=
  ∀ fuel r w', generateToken libs world fuel w = some (.ok r, w') → r.code = 200 →
    ∃ reply granted minioReply,
      Answers libs.decoder w.isPort (identityPeer world w) reply ∧ reply.isSuccessful = true ∧
      grant libs reply.body = .ok granted ∧
      Answers libs.decoder w.minioPort (minioPeer world granted) minioReply ∧
      minioReply.isSuccessful = true ∧ r.body = minioReply.body

/-- **A `200` carries real credentials exactly when** MinIO does not answer a token of the Identity
Server with an unsuccessful reply. -/
theorem generateToken_genuine_iff {δ : Type} (libs : Libs δ)
    (hparse : ∃ e, libs.parse [] = .error e) (world : World) (w : WriterProxy) :
    Genuine libs world w ↔
      ∀ reply granted minioReply,
        Answers libs.decoder w.isPort (identityPeer world w) reply → reply.isSuccessful = true →
        grant libs reply.body = .ok granted →
        Answers libs.decoder w.minioPort (minioPeer world granted) minioReply →
        minioReply.isSuccessful = true := by
  obtain ⟨e, hparse⟩ := hparse
  constructor
  · intro h reply granted minioReply hans hok hgrant hminio
    rw [← text_of_isSuccessful hok] at hgrant
    obtain ⟨fuel, hgen⟩ := (eventually_of_exchange (.credentials hans hgrant hminio)).exists
    obtain ⟨reply', granted', minioReply', hans', hok', hgrant', hminio', hsucc, -⟩ :=
      h fuel _ _ hgen rfl
    obtain rfl := hans.unique hans'
    rw [text_of_isSuccessful hok, hgrant'] at hgrant
    obtain rfl := Except.ok.inj hgrant
    rw [hminio.unique hminio']
    exact hsucc
  · intro h fuel r w' hgen h200
    cases exchange_of_generateToken hgen with
    | identityUnreachable _ => exact absurd h200 (appendBody_code_ne _ _ _)
    | minioUnreachable _ _ _ => exact absurd h200 (appendBody_code_ne _ _ _)
    | @credentials reply minioReply granted hans hgrant hminio =>
      have hok := isSuccessful_of_grant hparse hgrant
      rw [text_of_isSuccessful hok] at hgrant
      have hsucc := h reply granted minioReply hans hok hgrant hminio
      exact ⟨reply, granted, minioReply, hans, hok, hgrant, hminio, hsucc,
        text_of_isSuccessful hsucc⟩

/-! ## Samples -/

/-- The libraries on the responses of `responsesSample`. -/
def libsSample : Libs Bytes where
  decoder := decoderSample
  split := splitSample
  parse text :=
    if text = lit grantText then
      .ok (.object [(lit "access_token", .string (lit "t")),
        (lit "expires_in", .numberUnsigned 60)])
    else .error (.parseError [])
  jsonInt j key :=
    match j.at key with
    | .error e => .error e
    | .ok (.numberUnsigned n) => .ok n
    | .ok _ => .error (.typeError [])

/-- A peer that sends the `i`-th of the sample responses and closes its side. -/
def peerSample (i : Nat) : Peer := hangsUp true 1 [(responsesSample.map Prod.fst).getD i []]

/-- A world where the Identity Server sends response `i` and MinIO response `j`. -/
def tokenWorld (i j : Nat) : World where
  identityServer _ := peerSample i
  minio _ := peerSample j
  forwardObject _ := .stored
  makeBucket _ := true

theorem grant_answers : Answers decoderSample 9443 (peerSample 0) ⟨true, lit grantText⟩ :=
  ⟨by decide +kernel, 0, by decide +kernel, nofun, by decide +kernel⟩

theorem credentials_answers :
    Answers decoderSample 9000 (peerSample 1) ⟨true, lit "<Credentials/>"⟩ :=
  ⟨by decide +kernel, 0, by decide +kernel, nofun, by decide +kernel⟩

theorem refusal_answers (port : Int) (h : port ≠ -1) :
    Answers decoderSample port (peerSample 2) ⟨false, []⟩ :=
  ⟨⟨h, by decide, by decide⟩, 0, by decide +kernel, nofun, by decide +kernel⟩

theorem grant_sample : grant libsSample (lit grantText) = .ok (60, lit "t") := by
  decide +kernel

theorem exchange_sample {j : Nat} {minioReply : Reply}
    (h : Answers decoderSample 9000 (peerSample j) minioReply) :
    Exchange libsSample (tokenWorld 0 j) sample (.ok ⟨200, lit "OK", minioReply.text⟩)
      (gateway 9000 (gateway 9443 sample)) :=
  have hidentity : Answers libsSample.decoder sample.isPort (identityPeer (tokenWorld 0 j) sample)
      ⟨true, lit grantText⟩ := grant_answers
  have hminio : Answers libsSample.decoder sample.minioPort
      (minioPeer (tokenWorld 0 j) (60, lit "t")) minioReply := h
  .credentials hidentity grant_sample hminio

/-- Both answer, and the credentials are passed on. -/
theorem generateToken_genuine_sample :
    (∃ fuel w', generateToken libsSample (tokenWorld 0 1) fuel sample =
      some (.ok ⟨200, lit "OK", lit "<Credentials/>"⟩, w')) ∧
      Genuine libsSample (tokenWorld 0 1) sample := by
  constructor
  · obtain ⟨fuel, hgen⟩ := (eventually_of_exchange (exchange_sample credentials_answers)).exists
    exact ⟨fuel, _, hgen⟩
  · refine (generateToken_genuine_iff libsSample ⟨_, rfl⟩ _ sample).mpr ?_
    intro reply granted minioReply hans hok hgrant hminio
    rw [hminio.unique credentials_answers]

/-- MinIO refuses the token, and the answer is a `200` without credentials. -/
theorem generateToken_not_genuine :
    (∃ e, libsSample.parse [] = .error e) ∧ ¬ Genuine libsSample (tokenWorld 0 2) sample := by
  refine ⟨⟨_, rfl⟩, fun h => ?_⟩
  have hrefused := refusal_answers 9000 (by decide)
  obtain ⟨fuel, hgen⟩ := (eventually_of_exchange (exchange_sample hrefused)).exists
  obtain ⟨_, _, minioReply, -, -, -, hminio, hsucc, -⟩ := h fuel _ _ hgen rfl
  rw [hminio.unique hrefused] at hsucc
  cases hsucc

end ASky.Proxy.WriterProxy
