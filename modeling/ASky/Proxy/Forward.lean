import ASky.Lib.Attempts
import ASky.Proxy.WriterProxy

/-!
# Storing an object

`forward` calls itself when MinIO reports that the bucket is missing and the bucket could be made.
It does not look at what that call returns, and falls through to `200`. An exception that is
neither an `ErrorResponseException` nor "No response" falls through as well.

* `Retry n`: attempt `n` ends in another attempt. The attempts of a request are those up to the
  first that is not a retry.
* `forward_eq`: what `forward` does, by that attempt. Only when it is the very first one does its
  outcome decide the answer.
* **`forward_truthful_iff`**: a `200` means that the object was stored, exactly when the last
  attempt stored it, or was the first one and was refused with `409` or `444`.
* **`forward_returns_iff`**: `forward` returns exactly when some attempt is not a retry.
-/

namespace ASky.Proxy.WriterProxy

open Lib

section

variable {split : Bytes → List Bytes} {world : World} {path : Bytes}

/-- Attempt `n` finds no bucket, and the bucket is made. -/
def Retry (split : Bytes → List Bytes) (world : World) (path : Bytes) (n : Nat) : Prop :=
  world.forwardObject n = .errorResponse .noSuchBucket ∧
    makeBucket split path (world.makeBucket n) = true

instance : DecidablePred (Retry split world path) :=
  fun _ => inferInstanceAs (Decidable (_ ∧ _))

/-- The code for an outcome that is not a retry. -/
def codeOf : Put → Nat
  | .stored => 200
  | .errorResponse _ => 409
  | .exception what => if what = lit "No response" then 444 else 200

/-- The message for it. -/
def messageOf : Put → String
  | .stored => "OK"
  | .errorResponse _ => "Conflict"
  | .exception what => if what = lit "No response" then "No response" else "OK"

/-- The proxy after the attempts `m` to `n`, of which `n` is the only one that is not a retry. -/
def ending (world : World) (m n : Nat) (w : WriterProxy) : WriterProxy :=
  if m = n then w.set (codeOf (world.forwardObject n)) (messageOf (world.forwardObject n))
  else w.set 200 "OK"

@[simp] theorem set_set (w : WriterProxy) (code code' : Nat) (message message' : String) :
    (w.set code message).set code' message' = w.set code' message' := rfl

theorem set_ending (m n : Nat) (w : WriterProxy) :
    (ending world m n w).set 200 "OK" = w.set 200 "OK" := by
  unfold ending
  split <;> rfl

/-- An attempt that is not a retry ends the request. -/
theorem forward_of_stop {n : Nat} (h : ¬ Retry split world path n) (fuel : Nat) (w : WriterProxy) :
    forward split world path (fuel + 1) n w =
      some ((ending world n n w).builder, [world.forwardObject n], ending world n n w) := by
  rw [forward, if_neg (by decide), ending, if_pos rfl]
  cases hput : world.forwardObject n with
  | stored => rfl
  | errorResponse code =>
    have hno : ¬ (code = .noSuchBucket ∧ makeBucket split path (world.makeBucket n) = true) := by
      rintro ⟨rfl, hmake⟩
      exact h ⟨hput, hmake⟩
    dsimp only
    rw [if_neg hno]
    rfl
  | exception what =>
    dsimp only [codeOf, messageOf]
    by_cases hwhat : what = lit "No response"
    · simp only [if_pos hwhat]
    · simp only [if_neg hwhat]

/-- A retry answers `200`, whatever the next attempt answered. -/
theorem forward_of_retry {n : Nat} (h : Retry split world path n) (fuel : Nat) (w : WriterProxy) :
    forward split world path (fuel + 1) n w =
      (forward split world path fuel (n + 1) w).map fun x =>
        ((x.2.2.set 200 "OK").builder, world.forwardObject n :: x.2.1, x.2.2.set 200 "OK") := by
  rw [forward, if_neg (by decide)]
  simp only [h.1, h.2, and_self, if_true]
  cases forward split world path fuel (n + 1) w <;> rfl

/-- **What `forward` does**, from attempt `m` on: it calls `forwardObject` up to the first attempt
that is not a retry. -/
theorem forward_eq (split : Bytes → List Bytes) (world : World) (path : Bytes) (fuel m : Nat)
    (w : WriterProxy) :
    forward split world path fuel m w =
      (firstStop (fun n => ¬ Retry split world path n) fuel m).map fun n =>
        ((ending world m n w).builder, (List.range' m (n + 1 - m)).map world.forwardObject,
          ending world m n w) := by
  induction fuel generalizing m with
  | zero => rfl
  | succ fuel ih =>
    unfold firstStop
    by_cases hr : Retry split world path m
    · rw [if_neg (not_not.mpr hr), forward_of_retry hr, ih, Option.map_map]
      refine Option.map_congr fun n hn => ?_
      obtain ⟨hle, -⟩ := firstStop_eq_some.mp hn
      have hlen : n + 1 - m = (n + 1 - (m + 1)) + 1 := by omega
      have hend : ending world m n w = w.set 200 "OK" := if_neg (by omega)
      simp only [Function.comp_apply, set_ending, hend, hlen, List.range'_succ, List.map_cons]
    · rw [if_pos hr, forward_of_stop hr, Option.map_some, Nat.add_sub_cancel_left]
      rfl

/-- Its last call of `forwardObject`. -/
theorem getLast?_calls {m n : Nat} (h : m ≤ n) :
    ((List.range' m (n + 1 - m)).map world.forwardObject).getLast? =
      some (world.forwardObject n) := by
  rw [List.getLast?_map, List.getLast?_range', if_neg (by omega), Option.map_some]
  congr 2
  omega

/-- Enough fuel for the attempts of a request. -/
theorem eventually_forward (h : ∃ n, ¬ Retry split world path n) (w : WriterProxy) :
    ∃ x, ∀ᶠ fuel in Filter.atTop, forward split world path fuel 0 w = some x := by
  obtain ⟨n, hn, hfirst⟩ := exists_first h
  have hev := eventually_firstStop (Nat.zero_le n) hn fun i _ hi => hfirst i hi
  simp only [forward_eq]
  exact ⟨_, hev.mono fun fuel hfuel => congrArg (Option.map _) hfuel⟩

/-! ## A stored acknowledgement -/

/-- A `200` is only given when the last call of `forwardObject` returned. -/
def Truthful (split : Bytes → List Bytes) (world : World) (path : Bytes) (w : WriterProxy) : Prop :=
  ∀ fuel r calls w', forward split world path fuel 0 w = some (r, calls, w') → r.code = 200 →
    calls.getLast? = some .stored

/-- The outcomes that `forward` answers with `409` or `444`. -/
def Refused : Put → Prop
  | .stored => False
  | .errorResponse _ => True
  | .exception what => what = lit "No response"

theorem refused_iff {put : Put} : Refused put ↔ codeOf put ≠ 200 := by
  cases put with
  | stored => simp [Refused, codeOf]
  | errorResponse code => simp [Refused, codeOf]
  | exception what =>
    by_cases h : what = lit "No response"
    · simp [Refused, codeOf, h]
    · simp [Refused, codeOf, h]

end

/-- **A `200` is truthful exactly when** the last attempt stores the object, or is the first one and
is refused with an `ErrorResponseException` or "No response". -/
theorem forward_truthful_iff (split : Bytes → List Bytes) (world : World) (path : Bytes)
    (w : WriterProxy) :
    Truthful split world path w ↔
      ∀ n, (∀ i < n, Retry split world path i) → ¬ Retry split world path n →
        world.forwardObject n = .stored ∨ (n = 0 ∧ Refused (world.forwardObject n)) := by
  constructor
  · intro h n hretry hstop
    have hfirst : firstStop (fun n => ¬ Retry split world path n) (n + 1) 0 = some n :=
      firstStop_eq_some.mpr ⟨Nat.zero_le n, by omega, hstop,
        fun i _ hi => not_not.mpr (hretry i hi)⟩
    have hf := forward_eq split world path (n + 1) 0 w
    rw [hfirst, Option.map_some] at hf
    by_cases hcode : (ending world 0 n w).builder.code = 200
    · have hlast := h _ _ _ _ hf hcode
      rw [getLast?_calls (Nat.zero_le n)] at hlast
      exact Or.inl (Option.some.inj hlast)
    · unfold ending at hcode
      split at hcode
      · rename_i hn
        exact Or.inr ⟨hn.symm, refused_iff.mpr hcode⟩
      · exact absurd rfl hcode
  · intro h fuel r calls w' hf h200
    rw [forward_eq] at hf
    obtain ⟨n, hn, hx⟩ := Option.map_eq_some_iff.mp hf
    obtain ⟨-, -, hstop, hretry⟩ := firstStop_eq_some.mp hn
    obtain ⟨rfl, hrest⟩ := Prod.mk.inj hx
    obtain ⟨rfl, rfl⟩ := Prod.mk.inj hrest
    rw [getLast?_calls (Nat.zero_le n)]
    rcases h n (fun i hi => not_not.mp (hretry i (Nat.zero_le i) hi)) hstop with hst | ⟨rfl, href⟩
    · rw [hst]
    · rw [ending, if_pos rfl] at h200
      exact absurd h200 (refused_iff.mp href)

/-! ## An end of the attempts -/

/-- **`forward` returns exactly when** some attempt is not a retry. -/
theorem forward_returns_iff (split : Bytes → List Bytes) (world : World) (path : Bytes)
    (w : WriterProxy) :
    (∃ fuel r, forward split world path fuel 0 w = some r) ↔ ∃ n, ¬ Retry split world path n := by
  simp only [forward_eq]
  exact exists_map_firstStop_iff _

/-! ## Samples -/

/-- A world where nobody answers, for given outcomes of `forwardObject`. Buckets can be made. -/
def putWorld (forwardObject : Nat → Put) : World where
  identityServer _ := ⟨false, 0, fun _ => .failed⟩
  minio _ := ⟨false, 0, fun _ => .failed⟩
  forwardObject := forwardObject
  makeBucket _ := true

/-- The bucket is made, the second attempt is denied, and the answer is `200`. -/
theorem forward_not_truthful :
    ¬ Truthful splitSample (putWorld fun n => if n = 0 then .errorResponse .noSuchBucket
      else .errorResponse (.other 403)) (lit "/b/o") sample := by
  intro h
  have hlast := h 2 _ _ _ rfl rfl
  exact absurd hlast (by decide)

/-- A storage that makes the bucket and still does not find it. -/
theorem forward_never_returns :
    ¬ ∃ fuel r, forward splitSample (putWorld fun _ => .errorResponse .noSuchBucket) (lit "/b/o")
      fuel 0 sample = some r := by
  rintro ⟨fuel, r, hf⟩
  have hmake : makeBucket splitSample (lit "/b/o") true = true := by decide +kernel
  rw [forward_eq] at hf
  obtain ⟨n, hn, -⟩ := Option.map_eq_some_iff.mp hf
  exact (firstStop_eq_some.mp hn).2.2.1 ⟨rfl, hmake⟩

end ASky.Proxy.WriterProxy
