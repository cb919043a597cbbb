import ASky.Lib.Scripts
import ASky.Revocation

/-!
# The set-up programs

`InitMacrobenchmarks.kt` and `CreateEnvelopeGroups.kt` bring the service into the state that the
benchmarks start from: they create users and groups through `AdminApi`, one request after the other,
and stop at the first exception (`CreateEnvelopeGroups` tries an `addUserToGroup` again).

* Retrofit and Moshi are in `AdminClient`: the request of a call, and a string field of an answer.
  An adapter throws when a field that is not nullable is missing (`AdminCall.required`).
* `returns_call` is the rule of a call: it goes by the step of the access-control machine that the
  request takes (`processInput_refines`).
* **`initMacrobenchmarks_ready`**: from every state, `InitMacrobenchmarks` returns, and then its
  users are all there are, and its group has exactly them.
* **`createEnvelopeGroups_ready`**: where no user and no group of its own is there yet,
  `CreateEnvelopeGroups` returns, and then the group of each magnitude has exactly that many of its
  users. Other users and groups are as before.
-/

namespace ASky.Setup

open Lib Lib.Script
open Access (Policy Command Verdict Step)
open AnonymBE (initialised)

/-- The calls of `AdminApi` that the programs make. -/
inductive AdminCall where
  | createUser (userId : Bytes)
  | createGroup (userId groupName : Bytes)
  | addUserToGroup (userId groupName : Bytes)
  | deleteAllData

/-- What the service is asked for. -/
def AdminCall.command : AdminCall → Command Bytes Bytes Bytes
  | .createUser u => .createUser u
  | .createGroup u g => .createGroup g u
  | .addUserToGroup u g => .addUser g u
  | .deleteAllData => .deleteAll

/-- The names of a call. -/
def AdminCall.names : AdminCall → List Bytes
  | .createUser u => [u]
  | .createGroup u g => [u, g]
  | .addUserToGroup u g => [u, g]
  | .deleteAllData => []

/-- The fields of `Result`, and of `UserResult`, that are not nullable. -/
def AdminCall.required : AdminCall → List Bytes
  | .createUser _ => [lit "result", lit "user_key"]
  | _ => [lit "result"]

/-- Retrofit and Moshi: the request of a call, a string field of a body, a body as `toString` shows
it, and the message of an exception that reading an answer throws. -/
structure AdminClient where
  request : AdminCall → Request
  field : (body key : Bytes) → Option Bytes
  shown : Bytes → Bytes
  complaint : Response → Option Bytes

/-- The service reads what the client wrote (here for ASCII names), and the client the strings of
what the service wrote, which is always the dump of an object. -/
structure AdminClient.Agrees (client : AdminClient) : Prop where
  request : ∀ c, (∀ name ∈ c.names, Ascii name) → (client.request c).Says c.command
  field : ∀ {json : KVString} {body key v}, dump2 json = .ok body → json[key]? = some v →
    client.field body key = some v

/-- The exceptions of a call. -/
inductive ApiError where
  | unsuccessful (code : Nat) (body : Bytes)
  | unreadable (message : Option Bytes)

/-- `e.message`. -/
def ApiError.message : ApiError → Option Bytes
  | .unsuccessful code body =>
    some (lit "Unsuccessful API call. HTTP code " ++ decimal code ++ lit ". Body: " ++ body)
  | .unreadable message => message

/-- `execute().throwExceptionIfNotReallySuccessful()`, from the answer on. -/
def AdminClient.execute (client : AdminClient) (c : AdminCall) : Response → Except ApiError Unit
  | .empty => .error (.unreadable (client.complaint .empty))
  | .reply code message json body =>
    if 200 ≤ code ∧ code < 300 then
      if c.required.all fun key => (client.field body key).isSome then
        if client.field body (lit "result") = some (lit "ok") then .ok ()
        else .error (.unsuccessful code (client.shown body))
      else .error (.unreadable (client.complaint (.reply code message json body)))
    else .error (.unsuccessful code body)

/-- What the programs run with: the service's environment, the client and the random bytes of every
request. -/
structure World where
  crypto : Crypto
  order : ArgOrder
  client : AdminClient
  draws : ℕ → Draw

/-- What the programs rely on. -/
structure World.Sound (w : World) : Prop where
  ascii : ∀ b, Ascii (w.crypto.b64Encode b)
  client : w.client.Agrees

def World.env (w : World) : Env := Env.code w.crypto w.order

/-- The service, and the number of requests it has served. -/
structure Session where
  service : AnonymBE
  served : ℕ

/-- One call. -/
def call (w : World) (c : AdminCall) : Script Session ApiError := fun s =>
  let r := AnonymBE.processInput w.env (w.draws s.served) s.service (w.client.request c)
  (match w.client.execute c r.1 with
    | .ok _ => .returned
    | .error e => .thrown e, ⟨r.2, s.served + 1⟩)

/-! ## InitMacrobenchmarks -/

/-- `"$FIXED_USERS_PREFIX$i"`. -/
def fixedUser (i : ℕ) : Bytes := lit "macrouser" ++ decimal i

/-- `GROUP_NAME`. -/
def fieldGroup : Bytes := lit "field0"

/-- `NB_FIXED_USERS`. -/
def nbFixedUsers : ℕ := 64

/-- The `main` of `InitMacrobenchmarks.kt`, after the bucket has been emptied. -/
def initMacrobenchmarks (w : World) : Script Session ApiError :=
  (call w .deleteAllData).seq
    ((call w (.createUser (fixedUser 0))).seq
      ((call w (.createGroup (fixedUser 0) fieldGroup)).seq
        (forRange (fun i => (call w (.createUser (fixedUser i))).seq
          (call w (.addUserToGroup (fixedUser i) fieldGroup))) (nbFixedUsers - 1) 1)))

/-! ## CreateEnvelopeGroups -/

/-- `"$USER_NAME_PREFIX$i"`. -/
def envelopeUser (i : ℕ) : Bytes := lit "envelope-user-" ++ decimal i

/-- `"$GROUP_NAME_PREFIX$magnitude"`. -/
def envelopeGroup (magnitude : ℕ) : Bytes := lit "envelope-group-" ++ decimal magnitude

/-- `MAX_MAGNITUDE`. -/
def maxMagnitude : ℕ := 10000

/-- `ADDITIONAL_USERS`. -/
def additionalUsers : ℕ := 5000

/-- The loop over the users. An exception about an existing user is ignored. -/
def createUsers (w : World) (n : ℕ) : Script Session ApiError :=
  forRange (fun i => (call w (.createUser (envelopeUser i))).orElse fun e s =>
    if e.message.map (fun m => decide (lit "Attempt to add an existing user" <:+: m)) = some false
    then (.thrown e, s) else (.returned, s)) n 1

/-- The body of the loop over the magnitudes. -/
def createGroupOf (w : World) (turns magnitude : ℕ) : Script Session ApiError :=
  (call w (.createGroup (envelopeUser 1) (envelopeGroup magnitude))).seq
    (forRange (fun i =>
      (call w (.addUserToGroup (envelopeUser i) (envelopeGroup magnitude))).retry turns)
      (magnitude - 1) 2)

/-- The loop over the magnitudes, with at most so many turns. -/
def createGroups (w : World) (max turns : ℕ) : (loops magnitude : ℕ) → Script Session ApiError
  | 0, _ => fun s => (.running, s)
  | loops + 1, magnitude =>
    if magnitude ≤ max then
      (createGroupOf w turns magnitude).seq (createGroups w max turns loops (magnitude * 10))
    else skip

/-- The `main` of `CreateEnvelopeGroups.kt`. -/
def createEnvelopeGroups (w : World) (turns loops : ℕ) : Script Session ApiError :=
  (createUsers w (maxMagnitude + additionalUsers)).seq
    (createGroups w maxMagnitude turns loops 1)

/-! ## A call -/

/-- The policy of the store of a reachable service. -/
def On (w : World) (φ : Policy Bytes Bytes Bytes → Prop) (s : Session) : Prop :=
  AnonymBE.Reachable w.env s.service ∧ φ s.service.database.policy

/-- The verdicts the client takes for a success. -/
def AdminCall.Accepts (c : AdminCall) (v : Verdict Bytes Bytes) : Prop :=
  match c with
  | .createUser _ => ∃ k, v = .issued k
  | _ => v = .done ∨ v = .already

section

variable {w : World} {c : AdminCall} {φ ψ : Policy Bytes Bytes Bytes → Prop}

/-- An answer with these fields is a success. -/
theorem execute_of_reads (hw : w.Sound) {t : AnonymBE.Settled} {fields : List (Bytes × Bytes)}
    (hr : (AnonymBE.answer t).Reads 200 fields)
    (hok : fields.lookup (lit "result") = some (lit "ok"))
    (hfields : ∀ key ∈ c.required, ∃ v, fields.lookup key = some v) :
    w.client.execute c (AnonymBE.answer t) = .ok () := by
  obtain ⟨msg, json, body, hreply, hdump, hlookup⟩ := AnonymBE.dumped_of_reads hr
  have hfield : ∀ {key v}, fields.lookup key = some v → w.client.field body key = some v :=
    fun hv => hw.client.field hdump (hlookup _ _ hv)
  have hall : (c.required.all fun key => (w.client.field body key).isSome) = true := by
    refine List.all_eq_true.mpr fun key hkey => ?_
    obtain ⟨v, hv⟩ := hfields key hkey
    rw [hfield hv]
    rfl
  rw [hreply, AdminClient.execute, if_pos (by omega), if_pos hall, if_pos (hfield hok)]

theorem execute_of_result (hw : w.Sound) {t : AnonymBE.Settled} {indexed : Bool} {draw : Draw}
    {v : Verdict Bytes Bytes} (hv : v = .done ∨ v = .already) (hc : c.required = [lit "result"])
    (hr : (AnonymBE.answer t).Conveys w.crypto indexed draw c.command v) :
    w.client.execute c (AnonymBE.answer t) = .ok () := by
  have hresult : ∀ key ∈ c.required, key = lit "result" := by
    rw [hc]
    exact fun key hkey => List.mem_singleton.mp hkey
  rcases hv with rfl | rfl
  · exact execute_of_reads hw hr (by simp) fun key hkey => ⟨lit "ok", by simp [hresult key hkey]⟩
  · obtain ⟨what, -, hr⟩ := hr
    exact execute_of_reads hw hr (by simp) fun key hkey => ⟨lit "ok", by simp [hresult key hkey]⟩

theorem execute_of_conveys (hw : w.Sound) {t : AnonymBE.Settled} {indexed : Bool} {draw : Draw}
    {v : Verdict Bytes Bytes} (hacc : c.Accepts v)
    (hr : (AnonymBE.answer t).Conveys w.crypto indexed draw c.command v) :
    w.client.execute c (AnonymBE.answer t) = .ok () := by
  cases c with
  | createUser u =>
    obtain ⟨k, rfl⟩ := hacc
    refine execute_of_reads hw hr (by simp) ?_
    intro key hkey
    rcases List.mem_pair.mp hkey with rfl | rfl
    · exact ⟨lit "ok", by simp⟩
    · exact ⟨w.crypto.b64Encode k, by rw [AnonymBE.lookup_pair, if_neg (by decide), if_pos rfl]⟩
  | createGroup u g => exact execute_of_result hw hacc rfl hr
  | addUserToGroup u g => exact execute_of_result hw hacc rfl hr
  | deleteAllData => exact execute_of_result hw hacc rfl hr

/-- **The rule of a call**: from every policy with `φ`, each step of its command is a success and
leads to a policy with `ψ`. -/
theorem returns_call (hw : w.Sound) (hnames : ∀ name ∈ c.names, Ascii name)
    (h : ∀ p k v p', φ p → Step p k c.command v p' → c.Accepts v ∧ ψ p') :
    Returns (On w φ) (call w c) (On w ψ) := by
  rintro s ⟨hs, hφ⟩
  obtain ⟨v, hstep, hconveys⟩ := @AnonymBE.processInput_refines w.crypto w.order
    (w.draws s.served) s.service _ hw.ascii (AnonymBE.integrity_of_reachable hs)
    (AnonymBE.keysSized_of_reachable hs) _ (hw.client.request c hnames)
  obtain ⟨hacc, hψ⟩ := h _ _ _ _ hφ hstep
  refine ⟨⟨(AnonymBE.processInput w.env (w.draws s.served) s.service (w.client.request c)).2,
    s.served + 1⟩, ?_, .step hs (w.draws s.served) (w.client.request c), hψ⟩
  have hok : w.client.execute c (AnonymBE.processInput (Env.code w.crypto w.order)
      (w.draws s.served) s.service (w.client.request c)).1 = .ok () :=
    execute_of_conveys hw hacc hconveys
  unfold call World.env
  simp only [hok]

theorem forall_mem_pair {a b : Bytes} (ha : Ascii a) (hb : Ascii b) :
    ∀ name ∈ [a, b], Ascii name := by
  intro name hname
  rcases List.mem_pair.mp hname with rfl | rfl
  · exact ha
  · exact hb

theorem returns_createUser (hw : w.Sound) {u : Bytes} (hu : Ascii u)
    (h : ∀ p, φ p → p.key u = none ∧ ∀ k, ψ (p.issue u k)) :
    Returns (On w φ) (call w (.createUser u)) (On w ψ) := by
  refine returns_call hw (List.forall_mem_singleton.mpr hu) fun p k v p' hp hstep => ?_
  obtain ⟨hnone, hψ⟩ := h p hp
  cases hstep with
  | createUser _ => exact ⟨⟨k, rfl⟩, hψ k⟩
  | userExists hno => exact absurd hnone hno

theorem returns_createGroup (hw : w.Sound) {u g : Bytes} (hu : Ascii u) (hg : Ascii g)
    (h : ∀ p, φ p → p.group g = none ∧ p.key u ≠ none ∧ ψ (p.assign g {u})) :
    Returns (On w φ) (call w (.createGroup u g)) (On w ψ) := by
  refine returns_call hw (forall_mem_pair hu hg) fun p k v p' hp hstep => ?_
  obtain ⟨hnone, hkey, hψ⟩ := h p hp
  cases hstep with
  | createGroup _ _ => exact ⟨.inl rfl, hψ⟩
  | groupExists hg' => exact absurd hnone hg'
  | founderUnknown _ hno => exact absurd hno hkey

/-- A member who is added again is a member as before. -/
theorem returns_addUserToGroup (hw : w.Sound) {u g : Bytes} (hu : Ascii u) (hg : Ascii g)
    (h : ∀ p, φ p → p.key u ≠ none ∧ ∃ s, p.group g = some s ∧ ψ (p.assign g (insert u s))) :
    Returns (On w φ) (call w (.addUserToGroup u g)) (On w ψ) := by
  refine returns_call hw (forall_mem_pair hu hg) fun p k v p' hp hstep => ?_
  obtain ⟨hkey, s, hs, hψ⟩ := h p hp
  cases hstep with
  | addUser hg' _ _ =>
    cases hs.symm.trans hg'
    exact ⟨.inl rfl, hψ⟩
  | already hg' _ hmem =>
    cases hs.symm.trans hg'
    rw [Set.insert_eq_of_mem hmem, Access.assign_self hs] at hψ
    exact ⟨.inr rfl, hψ⟩
  | addToNoGroup hno => cases hs.symm.trans hno
  | addUnknown _ hno => exact absurd hno hkey

theorem returns_deleteAllData (hw : w.Sound) (h : ψ Policy.empty) :
    Returns (On w φ) (call w .deleteAllData) (On w ψ) := by
  refine returns_call hw (fun name hname => absurd hname List.not_mem_nil) ?_
  intro p k v p' hp hstep
  cases hstep
  exact ⟨.inl rfl, h⟩

end

/-! ## Names -/

theorem ofDecimal_decimal (n : ℕ) : ofDecimal (decimal n) = n := by
  by_cases hn : n = 0
  · subst hn
    rfl
  · have hdigit : ∀ d ∈ Nat.digits 10 n, ((0x30 + d).toUInt8).toNat - 0x30 = d := by
      intro d hd
      have hlt : d < 10 := Nat.digits_lt_base (by omega) hd
      rw [show ((0x30 + d).toUInt8).toNat = (0x30 + d) % 256 from rfl, Nat.mod_eq_of_lt (by omega)]
      omega
    have hdigits : (Nat.digits 10 n).map ((fun d : UInt8 => d.toNat - 0x30) ∘
        fun d => (0x30 + d).toUInt8) = Nat.digits 10 n :=
      (List.map_congr_left hdigit).trans (List.map_id' _)
    unfold ofDecimal decimal
    rw [if_neg hn, ← List.map_reverse, List.reverse_reverse, List.map_map, hdigits,
      Nat.ofDigits_digits]

theorem decimal_injective : Function.Injective decimal :=
  Function.LeftInverse.injective ofDecimal_decimal

theorem ascii_numbered {cs : List Char} (h : printableChars cs = true) (i : ℕ) :
    Ascii (lit (String.ofList cs) ++ decimal i) :=
  ((printable_lit h).append (printable_decimal i)).ascii

theorem ascii_fixedUser (i : ℕ) : Ascii (fixedUser i) := ascii_numbered (by decide) i

theorem ascii_fieldGroup : Ascii fieldGroup := (printable_lit (by decide)).ascii

theorem ascii_envelopeUser (i : ℕ) : Ascii (envelopeUser i) := ascii_numbered (by decide) i

theorem ascii_envelopeGroup (i : ℕ) : Ascii (envelopeGroup i) := ascii_numbered (by decide) i

theorem fixedUser_injective : Function.Injective fixedUser :=
  fun _ _ h => decimal_injective (List.append_cancel_left h)

theorem envelopeUser_injective : Function.Injective envelopeUser :=
  fun _ _ h => decimal_injective (List.append_cancel_left h)

theorem envelopeGroup_injective : Function.Injective envelopeGroup :=
  fun _ _ h => decimal_injective (List.append_cancel_left h)

/-- The users with the numbers from `a` to before `b`. -/
def Numbered (user : ℕ → Bytes) (a b : ℕ) : Set Bytes := {u | ∃ i, a ≤ i ∧ i < b ∧ u = user i}

theorem numbered_self (user : ℕ → Bytes) (a : ℕ) : Numbered user a (a + 1) = {user a} := by
  ext u
  constructor
  · rintro ⟨i, hi, hlt, rfl⟩
    rw [show i = a by omega]
    rfl
  · rintro rfl
    exact ⟨a, le_rfl, by omega, rfl⟩

theorem numbered_succ (user : ℕ → Bytes) {a b : ℕ} (hab : a ≤ b) :
    Numbered user a (b + 1) = insert (user b) (Numbered user a b) := by
  ext u
  constructor
  · rintro ⟨i, hi, hlt, rfl⟩
    by_cases hib : i = b
    · exact .inl (congrArg user hib)
    · exact .inr ⟨i, hi, by omega, rfl⟩
  · rintro (rfl | ⟨i, hi, hlt, rfl⟩)
    · exact ⟨b, hab, by omega, rfl⟩
    · exact ⟨i, hi, by omega, rfl⟩

theorem not_mem_numbered {user : ℕ → Bytes} (hinj : Function.Injective user) {a b : ℕ} :
    user b ∉ Numbered user a b := by
  rintro ⟨i, -, hlt, heq⟩
  have := hinj heq
  omega

/-! ## InitMacrobenchmarks sets the benchmarks up -/

/-- The first `n` fixed users are all there are, and the first `m` of them are in the group, which
is the only one. -/
structure Ready (n m : ℕ) (p : Policy Bytes Bytes Bytes) : Prop where
  users : ∀ u, p.key u ≠ none ↔ u ∈ Numbered fixedUser 0 n
  group : p.group fieldGroup = some (Numbered fixedUser 0 m)
  others : ∀ g, g ≠ fieldGroup → p.group g = none

section

variable {w : World} {p : Policy Bytes Bytes Bytes} {n m : ℕ}

/-- A user more. -/
theorem users_issue {user : ℕ → Bytes} {a b : ℕ} (hab : a ≤ b)
    (h : ∀ u, p.key u ≠ none ↔ u ∈ Numbered user a b) (k u : Bytes) :
    (p.issue (user b) k).key u ≠ none ↔ u ∈ Numbered user a (b + 1) := by
  rw [Access.key_issue, numbered_succ user hab, Set.mem_insert_iff]
  by_cases hu : u = user b
  · rw [if_pos hu]
    exact iff_of_true (by simp) (.inl hu)
  · rw [if_neg hu, h u]
    exact ⟨.inr, fun hor => hor.resolve_left hu⟩

theorem Ready.issue (h : Ready n m p) (k : Bytes) : Ready (n + 1) m (p.issue (fixedUser n) k) where
  users := users_issue (Nat.zero_le n) h.users k
  group := h.group
  others := h.others

theorem Ready.insert (h : Ready n m p) :
    Ready n (m + 1) (p.assign fieldGroup (insert (fixedUser m) (Numbered fixedUser 0 m))) where
  users := h.users
  group := by rw [Access.group_assign, if_pos rfl, numbered_succ fixedUser (Nat.zero_le m)]
  others g hg := by rw [Access.group_assign, if_neg hg, h.others g hg]

/-- An iteration of the loop. -/
theorem returns_fixedUser (hw : w.Sound) (i : ℕ) :
    Returns (On w (Ready i i)) ((call w (.createUser (fixedUser i))).seq
      (call w (.addUserToGroup (fixedUser i) fieldGroup))) (On w (Ready (i + 1) (i + 1))) := by
  have hcreate : Returns (On w (Ready i i)) (call w (.createUser (fixedUser i)))
      (On w (Ready (i + 1) i)) := by
    refine returns_createUser hw (ascii_fixedUser i) fun p hp => ⟨?_, hp.issue⟩
    exact not_not.mp (mt (hp.users (fixedUser i)).mp (not_mem_numbered fixedUser_injective))
  refine hcreate.seq (returns_addUserToGroup hw (ascii_fixedUser i) ascii_fieldGroup fun p hp => ?_)
  exact ⟨(hp.users (fixedUser i)).mpr ⟨i, Nat.zero_le i, by omega, rfl⟩, _, hp.group, hp.insert⟩

theorem returns_initMacrobenchmarks (hw : w.Sound) :
    Returns (On w fun _ => True) (initMacrobenchmarks w)
      (On w (Ready nbFixedUsers nbFixedUsers)) := by
  have hdelete : Returns (On w fun _ => True) (call w .deleteAllData) (On w (· = Policy.empty)) :=
    returns_deleteAllData hw rfl
  have hfirst : Returns (On w (· = Policy.empty)) (call w (.createUser (fixedUser 0)))
      (On w fun p => (∀ u, p.key u ≠ none ↔ u ∈ Numbered fixedUser 0 1) ∧
        ∀ g, p.group g = none) := by
    refine returns_createUser hw (ascii_fixedUser 0) fun p hp => ?_
    subst hp
    refine ⟨rfl, fun k => ⟨users_issue (Nat.zero_le 0) (fun u => ?_) k, fun g => rfl⟩⟩
    refine iff_of_false (fun hno => hno rfl) ?_
    rintro ⟨i, -, hlt, -⟩
    omega
  have hgroup : Returns (On w fun p => (∀ u, p.key u ≠ none ↔ u ∈ Numbered fixedUser 0 1) ∧
      ∀ g, p.group g = none) (call w (.createGroup (fixedUser 0) fieldGroup))
      (On w (Ready 1 1)) := by
    refine returns_createGroup hw (ascii_fixedUser 0) ascii_fieldGroup fun p hp => ?_
    refine ⟨hp.2 fieldGroup, (hp.1 _).mpr ⟨0, le_rfl, by omega, rfl⟩, hp.1, ?_, fun g hg => ?_⟩
    · rw [Access.group_assign, if_pos rfl, numbered_self]
    · rw [Access.group_assign, if_neg hg, hp.2 g]
  exact hdelete.seq (hfirst.seq (hgroup.seq
    (Returns.forRange (fun i => On w (Ready i i)) fun i _ _ => returns_fixedUser hw i)))

end

/-! ## CreateEnvelopeGroups sets the benchmark up -/

/-- Where the program has not been: no user before `n` and no group up to `max` of its own. -/
structure Fresh (n max : ℕ) (p : Policy Bytes Bytes Bytes) : Prop where
  users : ∀ i, 1 ≤ i → i < n → p.key (envelopeUser i) = none
  groups : ∀ k, 10 ^ k ≤ max → p.group (envelopeGroup (10 ^ k)) = none

/-- The users before `n` and the groups of the first `k` magnitudes are made. The rest is as in
`p₀`. -/
structure Made (p₀ : Policy Bytes Bytes Bytes) (n k : ℕ) (p : Policy Bytes Bytes Bytes) :
    Prop where
  users : ∀ i, 1 ≤ i → i < n → p.key (envelopeUser i) ≠ none
  otherUsers : ∀ u, u ∉ Numbered envelopeUser 1 n → p.key u = p₀.key u
  groups : ∀ j, j < k →
    p.group (envelopeGroup (10 ^ j)) = some (Numbered envelopeUser 1 (10 ^ j + 1))
  otherGroups : ∀ g, (∀ j, j < k → g ≠ envelopeGroup (10 ^ j)) → p.group g = p₀.group g

/-- The group of the magnitude after these has the users before `m`. -/
def Filling (p₀ : Policy Bytes Bytes Bytes) (n k m : ℕ) (p : Policy Bytes Bytes Bytes) : Prop :=
  ∃ q, Made p₀ n k q ∧ p = q.assign (envelopeGroup (10 ^ k)) (Numbered envelopeUser 1 m)

section

variable {w : World} {p₀ p : Policy Bytes Bytes Bytes} {n k m : ℕ}

theorem envelopeGroup_pow_ne {j k : ℕ} (h : j ≠ k) :
    envelopeGroup (10 ^ j) ≠ envelopeGroup (10 ^ k) :=
  fun heq => h (Nat.pow_right_injective (by omega) (envelopeGroup_injective heq))

theorem Made.issue (h : Made p₀ n 0 p) (hn : 1 ≤ n) (key : Bytes) :
    Made p₀ (n + 1) 0 (p.issue (envelopeUser n) key) where
  users i hi hlt := by
    rw [Access.key_issue]
    by_cases hin : envelopeUser i = envelopeUser n
    · rw [if_pos hin]
      simp
    · rw [if_neg hin]
      refine h.users i hi (lt_of_le_of_ne (Nat.lt_succ_iff.mp hlt) ?_)
      rintro rfl
      exact hin rfl
  otherUsers u hu := by
    have hne : u ≠ envelopeUser n := by
      rintro rfl
      exact hu ⟨n, hn, by omega, rfl⟩
    rw [Access.key_issue, if_neg hne]
    refine h.otherUsers u ?_
    rintro ⟨i, hi, hlt, rfl⟩
    exact hu ⟨i, hi, by omega, rfl⟩
  groups j hj := absurd hj (Nat.not_lt_zero j)
  otherGroups := h.otherGroups

theorem made_of_filling (h : Filling p₀ n k (10 ^ k + 1) p) : Made p₀ n (k + 1) p := by
  obtain ⟨q, hq, rfl⟩ := h
  refine ⟨hq.users, hq.otherUsers, fun j hj => ?_, fun g hg => ?_⟩
  · rw [Access.group_assign]
    by_cases hjk : j = k
    · rw [hjk, if_pos rfl]
    · rw [if_neg (envelopeGroup_pow_ne hjk), hq.groups j (by omega)]
  · rw [Access.group_assign, if_neg (hg k (by omega))]
    exact hq.otherGroups g fun j hj => hg j (by omega)

/-- The loop over the users. -/
theorem returns_createUsers (hw : w.Sound) {max : ℕ} (hfresh : Fresh (1 + n) max p₀) :
    Returns (On w (Made p₀ 1 0)) (createUsers w n) (On w (Made p₀ (1 + n) 0)) := by
  refine Returns.forRange (fun i => On w (Made p₀ i 0)) fun i hi hlt => Returns.orElse ?_ _
  refine returns_createUser hw (ascii_envelopeUser i) fun p hp => ⟨?_, hp.issue hi⟩
  rw [hp.otherUsers _ (not_mem_numbered envelopeUser_injective), hfresh.users i hi hlt]

/-- The body of the loop over the magnitudes. -/
theorem returns_createGroupOf (hw : w.Sound) {max turns : ℕ} (hfresh : Fresh n max p₀)
    (hmax : 10 ^ k ≤ max) (hn : max < n) (hturns : 0 < turns) :
    Returns (On w (Made p₀ n k)) (createGroupOf w turns (10 ^ k)) (On w (Made p₀ n (k + 1))) := by
  have hpos : 0 < 10 ^ k := Nat.pow_pos (by omega)
  have hcreate : Returns (On w (Made p₀ n k))
      (call w (.createGroup (envelopeUser 1) (envelopeGroup (10 ^ k))))
      (On w (Filling p₀ n k 2)) := by
    refine returns_createGroup hw (ascii_envelopeUser 1) (ascii_envelopeGroup _) fun p hp => ?_
    refine ⟨?_, hp.users 1 le_rfl (by omega), p, hp, by rw [numbered_self]⟩
    rw [hp.otherGroups _ fun j hj => envelopeGroup_pow_ne (by omega), hfresh.groups k hmax]
  have hfill : Returns (On w (Filling p₀ n k 2))
      (forRange (fun i => (call w (.addUserToGroup (envelopeUser i)
        (envelopeGroup (10 ^ k)))).retry turns) (10 ^ k - 1) 2)
      (On w (Filling p₀ n k (2 + (10 ^ k - 1)))) := by
    refine Returns.forRange (fun i => On w (Filling p₀ n k i)) fun i hi hlt => ?_
    obtain ⟨turn, rfl⟩ : ∃ turn, turns = turn + 1 := ⟨turns - 1, by omega⟩
    refine Returns.retry (returns_addUserToGroup hw (ascii_envelopeUser i)
      (ascii_envelopeGroup _) ?_) turn
    rintro p ⟨q, hq, rfl⟩
    refine ⟨hq.users i (by omega) (by omega), Numbered envelopeUser 1 i, ?_, q, hq, ?_⟩
    · rw [Access.group_assign, if_pos rfl]
    · rw [Access.assign_assign, numbered_succ envelopeUser (by omega)]
  rw [show 2 + (10 ^ k - 1) = 10 ^ k + 1 by omega] at hfill
  refine (hcreate.seq hfill).mono (fun s hs => hs) fun s hs => ⟨hs.1, made_of_filling hs.2⟩

theorem lt_iff_pow_le {max : ℕ} (hk : ∀ j, j < k → 10 ^ j ≤ max) (hmax : max < 10 ^ k) (j : ℕ) :
    j < k ↔ 10 ^ j ≤ max :=
  ⟨hk j, fun hj => (Nat.pow_lt_pow_iff_right (by omega)).mp (lt_of_le_of_lt hj hmax)⟩

/-- The loop over the magnitudes, from `10 ^ k` on. -/
theorem returns_createGroups (hw : w.Sound) {max turns : ℕ} (hfresh : Fresh n max p₀)
    (hn : max < n) (hturns : 0 < turns) {loops : ℕ} (hk : ∀ j, j < k → 10 ^ j ≤ max)
    (hloops : max < 10 ^ (k + loops)) :
    Returns (On w (Made p₀ n k)) (createGroups w max turns (loops + 1) (10 ^ k))
      (On w fun p => ∃ l, (∀ j, j < l ↔ 10 ^ j ≤ max) ∧ Made p₀ n l p) := by
  induction loops generalizing k with
  | zero =>
    rw [Nat.add_zero] at hloops
    rw [createGroups, if_neg (Nat.not_le.mpr hloops)]
    exact .skip fun s hs => ⟨hs.1, k, lt_iff_pow_le hk hloops, hs.2⟩
  | succ loops ih =>
    rw [createGroups]
    by_cases hmax : 10 ^ k ≤ max
    · rw [if_pos hmax, ← Nat.pow_succ]
      refine (returns_createGroupOf hw hfresh hmax hn hturns).seq (ih (fun j hj => ?_) ?_)
      · rcases Nat.lt_succ_iff_lt_or_eq.mp hj with hlt | rfl
        · exact hk j hlt
        · exact hmax
      · rw [Nat.add_right_comm]
        exact hloops
    · rw [if_neg hmax]
      exact .skip fun s hs => ⟨hs.1, k, lt_iff_pow_le hk (Nat.not_le.mp hmax), hs.2⟩

end

/-! ## A client

It writes its bodies as the service writes its own, and reads them as the service does. -/

/-- The body with these fields. -/
def written (fields : KVString) : Bytes :=
  match dump2 fields with
  | .ok text => text
  | .error _ => []

def userFields (u : Bytes) : KVString := (∅ : KVString).insert (lit "user_id") u

def userGroupFields (u g : Bytes) : KVString := (userFields u).insert (lit "group_name") g

def AdminClient.sample : AdminClient where
  request
    | .createUser u => ⟨lit "POST", lit "/access/user", written (userFields u)⟩
    | .createGroup u g => ⟨lit "POST", lit "/access/group", written (userGroupFields u g)⟩
    | .addUserToGroup u g => ⟨lit "PUT", lit "/access/usergroup", written (userGroupFields u g)⟩
    | .deleteAllData => ⟨lit "DELETE", lit "/access/all", []⟩
  field body key :=
    match jsonParse body with
    | .ok (.object kvs) =>
      match kvs.lookup key with
      | some (.string v) => some v
      | _ => none
    | _ => none
  shown := id
  complaint _ := none

theorem carries_written {fields : KVString}
    (hascii : ∀ k v, fields[k]? = some v → Ascii k ∧ Ascii v)
    {named : List (Bytes × Bytes)} (hnamed : ∀ e ∈ named, fields[e.1]? = some e.2)
    (method path : Bytes) : Request.Carries ⟨method, path, written fields⟩ named := by
  obtain ⟨text, htext⟩ := dump2_ok hascii
  refine ⟨lastOfEach (stringMembers fields.toList), ?_, fun e he => ?_⟩
  · unfold written
    rw [htext]
    exact document_of_dump2 htext
  · rw [lookup_dumped, hnamed e he]
    rfl

theorem getElem?_userFields (u k : Bytes) :
    (userFields u)[k]? = if k = lit "user_id" then some u else none := by
  unfold userFields
  rw [getElem?_insert]
  simp

theorem getElem?_userGroupFields (u g k : Bytes) : (userGroupFields u g)[k]? =
    if k = lit "group_name" then some g else if k = lit "user_id" then some u else none := by
  unfold userGroupFields
  rw [getElem?_insert, getElem?_userFields]

theorem ascii_userFields {u : Bytes} (hu : Ascii u) (k v : Bytes)
    (h : (userFields u)[k]? = some v) : Ascii k ∧ Ascii v := by
  rw [getElem?_userFields] at h
  by_cases hk : k = lit "user_id"
  · rw [if_pos hk] at h
    cases h
    exact ⟨hk ▸ (printable_lit (by decide)).ascii, hu⟩
  · rw [if_neg hk] at h
    cases h

theorem ascii_userGroupFields {u g : Bytes} (hu : Ascii u) (hg : Ascii g) (k v : Bytes)
    (h : (userGroupFields u g)[k]? = some v) : Ascii k ∧ Ascii v := by
  by_cases hk : k = lit "group_name"
  · rw [getElem?_userGroupFields, if_pos hk] at h
    cases h
    exact ⟨hk ▸ (printable_lit (by decide)).ascii, hg⟩
  · rw [getElem?_userGroupFields, if_neg hk, ← getElem?_userFields] at h
    exact ascii_userFields hu k v h

theorem userGroup_carried {u g : Bytes} (hu : Ascii u) (hg : Ascii g) (method path : Bytes) :
    Request.Carries ⟨method, path, written (userGroupFields u g)⟩
      [(lit "group_name", g), (lit "user_id", u)] := by
  refine carries_written (ascii_userGroupFields hu hg) (fun e he => ?_) method path
  rw [getElem?_userGroupFields]
  rcases List.mem_pair.mp he with rfl | rfl
  · rfl
  · rfl

theorem agrees_sample : AdminClient.sample.Agrees where
  request c hnames := by
    cases c with
    | createUser u =>
      refine ⟨rfl, rfl, carries_written (ascii_userFields (hnames u List.mem_cons_self)) ?_ _ _⟩
      intro e he
      rw [List.mem_singleton.mp he, getElem?_userFields, if_pos rfl]
    | createGroup u g =>
      exact ⟨rfl, rfl, userGroup_carried (hnames u (by simp [AdminCall.names]))
        (hnames g (by simp [AdminCall.names])) _ _⟩
    | addUserToGroup u g =>
      exact ⟨rfl, rfl, userGroup_carried (hnames u (by simp [AdminCall.names]))
        (hnames g (by simp [AdminCall.names])) _ _⟩
    | deleteAllData => exact ⟨rfl, rfl⟩
  field {json body key v} hdump hget := by
    obtain ⟨kvs, hparse, hlookup⟩ := jsonParse_of_dump2 hdump
    have hkey := hlookup key
    rw [hget] at hkey
    show (match jsonParse body with
      | .ok (.object kvs) =>
        match kvs.lookup key with
        | some (.string v) => some v
        | _ => none
      | _ => none) = some v
    simp only [hparse, hkey, Option.map_some]

def World.sample : World where
  crypto := .sample
  order := .rightFirst
  client := .sample
  draws _ := .sample

theorem sound_sample : World.sample.Sound := ⟨Crypto.sample_b64_ascii, agrees_sample⟩

/-- A service that has just been initialised. -/
def Session.sample : Session := ⟨initialised true, 0⟩

/-! ## The results -/

/-- The members of a group, in the policy of the store. -/
theorem member_of_group {db : MemDatabase} {g : Bytes} {members : Set Bytes}
    (hg : db.policy.group g = some members) (u : Bytes) : db.Member u g ↔ u ∈ members := by
  rw [← MemDatabase.member_policy]
  unfold Policy.Member
  rw [hg]
  simp

theorem member_congr {db db' : MemDatabase} {g : Bytes} (h : db'.policy.group g = db.policy.group g)
    (u : Bytes) : db'.Member u g ↔ db.Member u g := by
  rw [← MemDatabase.member_policy, ← MemDatabase.member_policy]
  unfold Policy.Member
  rw [h]

/-- **`InitMacrobenchmarks` sets the benchmarks up.** From every reachable state of the service it
returns, and then the users are exactly the fixed ones, and exactly they are in the group, which is
the only one with members. -/
theorem initMacrobenchmarks_ready {w : World} (hw : w.Sound) {s : Session}
    (hs : AnonymBE.Reachable w.env s.service) :
    ∃ s', initMacrobenchmarks w s = (.returned, s') ∧
      (∀ u, u ∈ s'.service.database.users ↔ ∃ i < nbFixedUsers, u = fixedUser i) ∧
      ∀ u g, s'.service.database.Member u g ↔
        g = fieldGroup ∧ ∃ i < nbFixedUsers, u = fixedUser i := by
  obtain ⟨s', hreturned, -, hready⟩ := returns_initMacrobenchmarks hw s ⟨hs, trivial⟩
  have hnumbered : ∀ u, u ∈ Numbered fixedUser 0 nbFixedUsers ↔
      ∃ i < nbFixedUsers, u = fixedUser i := by
    intro u
    constructor
    · rintro ⟨i, -, hi⟩
      exact ⟨i, hi⟩
    · rintro ⟨i, hi⟩
      exact ⟨i, Nat.zero_le i, hi⟩
  refine ⟨s', hreturned, fun u => ?_, fun u g => ?_⟩
  · rw [← MemDatabase.key_policy, hready.users u, hnumbered u]
  · by_cases hg : g = fieldGroup
    · subst hg
      rw [member_of_group hready.group u, hnumbered u]
      exact (and_iff_right rfl).symm
    · refine iff_of_false ?_ fun h => hg h.1
      rw [← MemDatabase.member_policy]
      rintro ⟨members, hsome, -⟩
      cases (hready.others g hg).symm.trans hsome

/-- The theorem for a service that has just been initialised. -/
theorem initMacrobenchmarks_ready_sample :
    ∃ s', initMacrobenchmarks .sample .sample = (.returned, s') ∧
      (∀ u, u ∈ s'.service.database.users ↔ ∃ i < nbFixedUsers, u = fixedUser i) ∧
      ∀ u g, s'.service.database.Member u g ↔
        g = fieldGroup ∧ ∃ i < nbFixedUsers, u = fixedUser i :=
  initMacrobenchmarks_ready sound_sample (.init true)

/-- **`CreateEnvelopeGroups` sets the benchmark up.** From every reachable state without users and
groups of its own, it returns (after six turns of the loop over the magnitudes, and one of each loop
that tries again), and then all its users are there, and the group of each magnitude has exactly
that many of them, the first. Other users and other groups are as before. -/
theorem createEnvelopeGroups_ready {w : World} (hw : w.Sound) {s : Session}
    (hs : AnonymBE.Reachable w.env s.service)
    (husers : ∀ i, 1 ≤ i → i ≤ maxMagnitude + additionalUsers →
      s.service.database.users[envelopeUser i]? = none)
    (hgroups : ∀ k, 10 ^ k ≤ maxMagnitude →
      s.service.database.groups[envelopeGroup (10 ^ k)]? = none)
    {turns loops : ℕ} (hturns : 0 < turns) (hloops : 5 < loops) :
    ∃ s', createEnvelopeGroups w turns loops s = (.returned, s') ∧
      (∀ i, 1 ≤ i → i ≤ maxMagnitude + additionalUsers →
        envelopeUser i ∈ s'.service.database.users) ∧
      (∀ u, (∀ i, 1 ≤ i → i ≤ maxMagnitude + additionalUsers → u ≠ envelopeUser i) →
        s'.service.database.users[u]? = s.service.database.users[u]?) ∧
      (∀ k, 10 ^ k ≤ maxMagnitude → ∀ u, s'.service.database.Member u (envelopeGroup (10 ^ k)) ↔
        ∃ i, 1 ≤ i ∧ i ≤ 10 ^ k ∧ u = envelopeUser i) ∧
      ∀ g, (∀ k, 10 ^ k ≤ maxMagnitude → g ≠ envelopeGroup (10 ^ k)) →
        ∀ u, s'.service.database.Member u g ↔ s.service.database.Member u g := by
  have hfresh : Fresh (1 + (maxMagnitude + additionalUsers)) maxMagnitude
      s.service.database.policy :=
    ⟨fun i hi hlt => husers i hi (by omega),
      fun k hk => MemDatabase.group_policy_none (hgroups k hk)⟩
  have hstart : On w (Made s.service.database.policy 1 0) s :=
    ⟨hs, fun i hi hlt => absurd hlt (by omega), fun u _ => rfl, fun j hj => absurd hj (by omega),
      fun g _ => rfl⟩
  obtain ⟨turn, rfl⟩ : ∃ turn, loops = turn + 1 := ⟨loops - 1, by omega⟩
  have hmax : maxMagnitude < 10 ^ (0 + turn) :=
    lt_of_lt_of_le (show maxMagnitude < 10 ^ 5 by decide)
      (Nat.pow_le_pow_right (by omega) (by omega))
  obtain ⟨s', hreturned, -, l, hl, hmade⟩ := ((returns_createUsers hw hfresh).seq
    (returns_createGroups hw hfresh (by omega) hturns (fun j hj => absurd hj (Nat.not_lt_zero j))
      hmax)) s hstart
  refine ⟨s', hreturned, fun i hi hle => ?_, fun u hu => ?_, fun k hk u => ?_, fun g hg u => ?_⟩
  · exact MemDatabase.key_policy.mp (hmade.users i hi (by omega))
  · refine hmade.otherUsers u ?_
    rintro ⟨i, hi, hlt, rfl⟩
    exact hu i hi (by omega) rfl
  · rw [member_of_group (hmade.groups k ((hl k).mpr hk)) u]
    constructor
    · rintro ⟨i, hi, hlt, rfl⟩
      exact ⟨i, hi, by omega, rfl⟩
    · rintro ⟨i, hi, hle, rfl⟩
      exact ⟨i, hi, by omega, rfl⟩
  · exact member_congr (hmade.otherGroups g fun j hj => hg j ((hl j).mp hj)) u

/-- The theorem for a service that has just been initialised, and the group of ten. -/
theorem createEnvelopeGroups_ready_sample :
    ∃ s', createEnvelopeGroups .sample 1 6 .sample = (.returned, s') ∧
      ∀ u, s'.service.database.Member u (envelopeGroup 10) ↔
        ∃ i, 1 ≤ i ∧ i ≤ 10 ∧ u = envelopeUser i := by
  have hready := createEnvelopeGroups_ready (s := .sample) sound_sample (.init true)
    (fun i _ _ => by simp [Session.sample, initialised])
    (fun k _ => by simp [Session.sample, initialised]) Nat.one_pos (by omega : 5 < 6)
  obtain ⟨s', hreturned, -, -, hgroups, -⟩ := hready
  exact ⟨s', hreturned, hgroups 1 (by decide)⟩

end ASky.Setup
