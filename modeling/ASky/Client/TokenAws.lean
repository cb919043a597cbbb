import Mathlib

/-!
# Temporary credentials

Model of `TempToken` and `TokenAws` (`storage/TokenAws.kt`): an S3 client is built from a token of
the writer proxy, and both are kept, in the fields `token` and `_client`.

* An `Instant` is a number of nanoseconds. `needsRenewal` is a property **with an initializer**: it
  is a field whose value is computed when the token is constructed, from the clock at that moment.
* What the writer proxy answers, and whether the builder of the SDK throws, are given with each
  access: `Access`.
* `client` reads `_client` before `ensureToken`, and writes it after the client is built, so a
  failure in between leaves the new token with the old client.

`run_stored` is the run from a stored token that is not to be renewed: nothing renews it later
either, so **`allFresh_run_iff`**: a run hands out only credentials that have not expired iff the
first token that was fetched outlives it.
-/

namespace ASky.Client

/-- `java.time.Instant`, in nanoseconds. -/
abbrev Instant := Int

/-- `Instant.minusSeconds`. -/
def Instant.minusSeconds (t : Instant) (seconds : Int) : Instant := t - seconds * 10 ^ 9

/-- `TempToken`, with the field of its property `needsRenewal`. -/
structure TempToken where
  access : String
  secret : String
  session : String
  expiration : Instant
  needsRenewal : Bool
  deriving DecidableEq

/-- The primary constructor of `TempToken`, run at the time `now`. -/
def TempToken.new (now : Instant) (access secret session : String) (expiration : Instant) :
    TempToken :=
  { access, secret, session, expiration
    needsRenewal := decide (expiration ≤ Instant.minusSeconds now 10) }

/-- What the builder in `client` is given, but for the HTTP client, which is that of the object. -/
structure S3Client where
  endpointOverride : String
  region : String
  pathStyleAccessEnabled : Bool
  access : String
  secret : String
  session : String
  deriving DecidableEq

/-- The builder chain of `client`. -/
def S3Client.build (awsEndpoint : String) (token : TempToken) : S3Client :=
  { endpointOverride := awsEndpoint
    region := "us-east-1"
    pathStyleAccessEnabled := true
    access := token.access
    secret := token.secret
    session := token.session }

/-- The outcomes of `writerProxyApi.getToken().execute()` and of reading its body. -/
inductive GetToken where
  /-- `execute` throws. -/
  | ioException
  | unsuccessful (code : Nat) (errorBody : Option String)
  | noBody
  /-- The body is no XML document, or its `Expiration` is no instant. -/
  | malformed
  | reply (access secret session : String) (expiration : Instant)

/-- The exceptions of `client`. -/
inductive AwsError where
  | io
  | exception (message : String)
  | parse
  | illegalState (message : String)
  | nullPointer
  | sdk
  deriving DecidableEq

/-- One access to `client`: its time, what `getToken` gives if it is called, and whether the
builder returns. -/
structure Access where
  time : Instant
  getToken : GetToken
  builds : Bool

/-- `TokenAws`. -/
structure TokenAws where
  awsEndpoint : String
  token : Option TempToken
  _client : Option S3Client

/-- The constructor of `TokenAws`. -/
def TokenAws.new (awsEndpoint : String) : TokenAws := ⟨awsEndpoint, none, none⟩

/-- The right-hand side of the assignment to `token`. -/
def GetToken.fetch (now : Instant) : GetToken → Except AwsError TempToken
  | .ioException => .error .io
  | .unsuccessful code errorBody => .error (.exception
      ("Unsuccessful API call. HTTP code " ++ toString code ++ ". " ++ errorBody.getD "null"))
  | .noBody => .error (.illegalState "Token is null")
  | .malformed => .error .parse
  | .reply access secret session expiration =>
    .ok (TempToken.new now access secret session expiration)

/-- `ensureToken`: whether the token is new. -/
def TokenAws.ensureToken (a : Access) (s : TokenAws) : Except AwsError Bool × TokenAws :=
  if s.token.map (·.needsRenewal) ≠ some false then
    match a.getToken.fetch a.time with
    | .error e => (.error e, s)
    | .ok token => (.ok true, { s with token := some token })
  else (.ok false, s)

/-- The getter `client`. -/
def TokenAws.client (a : Access) (s : TokenAws) : Except AwsError S3Client × TokenAws :=
  let currentClient := s._client
  match s.ensureToken a with
  | (.error e, s) => (.error e, s)
  | (.ok isNewToken, s) =>
    match isNewToken, currentClient with
    | false, some currentClient => (.ok currentClient, s)
    | _, _ =>
      match s.token with
      | none => (.error .nullPointer, s)
      | some token =>
        if a.builds then
          let newClient := S3Client.build s.awsEndpoint token
          (.ok newClient, { s with _client := some newClient })
        else (.error .sdk, s)

/-- The accesses one after another, each with what it gives and the object after it. -/
def TokenAws.run (s : TokenAws) : List Access → List (Access × Except AwsError S3Client × TokenAws)
  | [] => []
  | a :: as => (a, s.client a) :: (s.client a).2.run as

/-- An access that returns gives a client of the stored token, which has not expired. -/
def Fresh (a : Access) (result : Except AwsError S3Client) (s : TokenAws) : Prop :=
  ∀ c, result = .ok c →
    ∃ token, s.token = some token ∧ c = S3Client.build s.awsEndpoint token ∧
      a.time < token.expiration

/-- Every access of the run is `Fresh`. -/
def AllFresh (run : List (Access × Except AwsError S3Client × TokenAws)) : Prop :=
  ∀ x ∈ run, Fresh x.1 x.2.1 x.2.2

/-- A reply carries an expiration more than 10 s after it was fetched. -/
def Access.Margin (a : Access) : Prop :=
  ∀ access secret session expiration,
    a.getToken = .reply access secret session expiration → a.time + 10 * 10 ^ 9 < expiration

/-- From the first access on for which a client was built, all are before `expiration`. -/
def InTime (expiration : Instant) : Bool → List Access → Prop
  | _, [] => True
  | built, a :: as =>
    ((built || a.builds) = true → a.time < expiration) ∧ InTime expiration (built || a.builds) as

/-- Every access that returns is made before the expiration of the first token that is fetched. -/
def FirstTokenOutlives : List Access → Prop
  | [] => True
  | a :: as =>
    match a.getToken with
    | .reply _ _ _ expiration => InTime expiration false (a :: as)
    | _ => FirstTokenOutlives as

/-! ## One access -/

theorem ensureToken_keep {s : TokenAws} {token : TempToken} (ht : s.token = some token)
    (hn : token.needsRenewal = false) (a : Access) : s.ensureToken a = (.ok false, s) := by
  unfold TokenAws.ensureToken
  simp [ht, hn]

theorem ensureToken_none {s : TokenAws} (ht : s.token = none) (a : Access) :
    s.ensureToken a = match a.getToken.fetch a.time with
      | .error e => (.error e, s)
      | .ok token => (.ok true, { s with token := some token }) := by
  unfold TokenAws.ensureToken
  simp [ht]

/-- The object holds a token that was not to be renewed when it came, and a client of this token
if it has `built` one. -/
structure Stored (s : TokenAws) (token : TempToken) (built : Bool) : Prop where
  token_eq : s.token = some token
  kept : token.needsRenewal = false
  client_eq : s._client = if built then some (S3Client.build s.awsEndpoint token) else none

/-- With a stored token an access returns the client of this token, or the builder throws. -/
theorem client_stored {s : TokenAws} {token : TempToken} {built : Bool} (h : Stored s token built)
    (a : Access) :
    Stored (s.client a).2 token (built || a.builds) ∧
      (s.client a).1 = if (built || a.builds) then
        .ok (S3Client.build (s.client a).2.awsEndpoint token) else .error .sdk := by
  have hc := h.client_eq
  unfold TokenAws.client
  rw [ensureToken_keep h.token_eq h.kept]
  cases built with
  | true =>
    rw [if_pos rfl] at hc
    simp only [hc]
    exact ⟨h, rfl⟩
  | false =>
    rw [if_neg (by simp)] at hc
    simp only [hc, h.token_eq]
    cases hb : a.builds with
    | true => exact ⟨⟨rfl, h.kept, rfl⟩, rfl⟩
    | false => exact ⟨⟨h.token_eq, h.kept, hc⟩, rfl⟩

theorem fresh_stored {s : TokenAws} {token : TempToken} {built : Bool} (h : Stored s token built)
    (a : Access) :
    Fresh a (s.client a).1 (s.client a).2 ↔
      ((built || a.builds) = true → a.time < token.expiration) := by
  obtain ⟨hs, hr⟩ := client_stored h a
  rw [hr]
  constructor
  · intro hf hb
    rw [if_pos hb] at hf
    obtain ⟨token', ht, -, hlt⟩ := hf _ rfl
    rw [hs.token_eq] at ht
    cases ht
    exact hlt
  · intro hlt c hc
    by_cases hb : (built || a.builds) = true
    · rw [if_pos hb] at hc
      cases hc
      exact ⟨token, hs.token_eq, rfl, hlt hb⟩
    · rw [if_neg hb] at hc
      cases hc

/-! ## Runs -/

theorem allFresh_cons (s : TokenAws) (a : Access) (as : List Access) :
    AllFresh (s.run (a :: as)) ↔
      Fresh a (s.client a).1 (s.client a).2 ∧ AllFresh ((s.client a).2.run as) := by
  unfold AllFresh
  rw [TokenAws.run, List.forall_mem_cons]

/-- From a stored token on, no access renews it. -/
theorem run_stored (as : List Access) {s : TokenAws} {token : TempToken} {built : Bool}
    (h : Stored s token built) : AllFresh (s.run as) ↔ InTime token.expiration built as := by
  induction as generalizing s built with
  | nil => simp [AllFresh, TokenAws.run, InTime]
  | cons a as ih =>
    rw [allFresh_cons, fresh_stored h a, ih (client_stored h a).1, InTime]

/-- A reply that leaves the margin gives a token that is never renewed. -/
theorem needsRenewal_new {a : Access} (hm : a.Margin) {access secret session : String}
    {expiration : Instant} (hg : a.getToken = .reply access secret session expiration) :
    (TempToken.new a.time access secret session expiration).needsRenewal = false := by
  have key (t e : Int) (h : t + 10 * 10 ^ 9 < e) : ¬ e ≤ t - 10 * 10 ^ 9 := by omega
  exact decide_eq_false (key a.time expiration (hm _ _ _ _ hg))

/-- The access that fetches the first token behaves as if the token had been stored before it. -/
theorem client_first {s : TokenAws} (ht : s.token = none) (hc : s._client = none) {a : Access}
    {token : TempToken} (hf : a.getToken.fetch a.time = .ok token)
    (hn : token.needsRenewal = false) :
    s.client a = TokenAws.client a { s with token := some token } := by
  unfold TokenAws.client
  rw [ensureToken_none ht, hf, ensureToken_keep rfl hn, hc]

/-- An access whose fetch fails throws and leaves the object as it was. -/
theorem client_failed {s : TokenAws} (ht : s.token = none) {a : Access} {e : AwsError}
    (hf : a.getToken.fetch a.time = .error e) : s.client a = (.error e, s) := by
  unfold TokenAws.client
  rw [ensureToken_none ht, hf]

theorem run_failed {s : TokenAws} (ht : s.token = none) {a : Access} {e : AwsError}
    (hf : a.getToken.fetch a.time = .error e) (as : List Access) :
    AllFresh (s.run (a :: as)) ↔ AllFresh (s.run as) := by
  rw [allFresh_cons, client_failed ht hf]
  simp [Fresh]

theorem run_first {s : TokenAws} (ht : s.token = none) (hc : s._client = none) {a : Access}
    {token : TempToken} (hf : a.getToken.fetch a.time = .ok token)
    (hn : token.needsRenewal = false) (as : List Access) :
    AllFresh (s.run (a :: as)) ↔ InTime token.expiration false (a :: as) := by
  have hst : Stored { s with token := some token } token false := ⟨rfl, hn, hc⟩
  rw [← run_stored (a :: as) hst, allFresh_cons, allFresh_cons, client_first ht hc hf hn]

/-- **The credentials handed out in a run are fresh iff the first token outlives it**: no access
that returns a client comes after this token has expired. -/
theorem allFresh_run_iff (awsEndpoint : String) (as : List Access) (hm : ∀ a ∈ as, a.Margin) :
    AllFresh ((TokenAws.new awsEndpoint).run as) ↔ FirstTokenOutlives as := by
  induction as with
  | nil => simp [AllFresh, TokenAws.run, FirstTokenOutlives]
  | cons a as ih =>
    have ih := ih fun b hb => hm b (List.mem_cons_of_mem a hb)
    unfold FirstTokenOutlives
    cases hg : a.getToken with
    | ioException => exact (run_failed rfl (by rw [hg]; rfl) as).trans ih
    | unsuccessful code errorBody => exact (run_failed rfl (by rw [hg]; rfl) as).trans ih
    | noBody => exact (run_failed rfl (by rw [hg]; rfl) as).trans ih
    | malformed => exact (run_failed rfl (by rw [hg]; rfl) as).trans ih
    | reply access secret session expiration =>
      have hn := needsRenewal_new (hm a List.mem_cons_self) hg
      have hf : a.getToken.fetch a.time =
          .ok (TempToken.new a.time access secret session expiration) := by rw [hg]; rfl
      exact run_first rfl rfl hf hn as

/-- Two accesses, the second 40 s after the token of the first has expired. -/
def lateAccesses : List Access :=
  [⟨0, .reply "access" "secret" "session" (60 * 10 ^ 9), true⟩,
    ⟨100 * 10 ^ 9, .reply "access2" "secret2" "session2" (160 * 10 ^ 9), true⟩]

theorem lateAccesses_margin : ∀ a ∈ lateAccesses, a.Margin := by
  intro a ha access secret session expiration hg
  simp only [lateAccesses, List.mem_cons, List.not_mem_nil, or_false] at ha
  obtain rfl | rfl := ha <;> cases hg <;> decide

/-- The second access returns a client of the first token. -/
theorem lateAccesses_expired :
    (∀ a ∈ lateAccesses, a.Margin) ∧ lateAccesses.Pairwise (fun a b => a.time ≤ b.time) ∧
      ¬ AllFresh ((TokenAws.new "https://localhost:9000").run lateAccesses) := by
  refine ⟨lateAccesses_margin, by simp [lateAccesses], ?_⟩
  intro hfresh
  have hlast := hfresh _ (List.mem_cons_of_mem _ List.mem_cons_self)
  obtain ⟨token, htoken, -, hlt⟩ := hlast _ rfl
  cases htoken
  exact absurd hlt (by decide)

/-- A server that is out of reach, a builder that throws, and three accesses that return a client,
the last one 5 s before the token of the second access expires. -/
def earlyAccesses : List Access :=
  [⟨0, .ioException, true⟩,
    ⟨10 * 10 ^ 9, .reply "access" "secret" "session" (3610 * 10 ^ 9), false⟩,
    ⟨20 * 10 ^ 9, .reply "access2" "secret2" "session2" (3620 * 10 ^ 9), true⟩,
    ⟨1800 * 10 ^ 9, .ioException, true⟩,
    ⟨3605 * 10 ^ 9, .reply "access3" "secret3" "session3" (7200 * 10 ^ 9), true⟩]

theorem earlyAccesses_margin : ∀ a ∈ earlyAccesses, a.Margin := by
  intro a ha access secret session expiration hg
  simp only [earlyAccesses, List.mem_cons, List.not_mem_nil, or_false] at ha
  obtain rfl | rfl | rfl | rfl | rfl := ha <;> cases hg <;> decide

/-- The theorem for these accesses, which are all in time. -/
theorem allFresh_run_iff_first :
    (∀ a ∈ earlyAccesses, a.Margin) ∧ FirstTokenOutlives earlyAccesses ∧
      AllFresh ((TokenAws.new "https://localhost:9000").run earlyAccesses) := by
  have ho : FirstTokenOutlives earlyAccesses := by
    simp [earlyAccesses, FirstTokenOutlives, InTime]
  exact ⟨earlyAccesses_margin, ho,
    (allFresh_run_iff "https://localhost:9000" _ earlyAccesses_margin).mpr ho⟩

end ASky.Client
