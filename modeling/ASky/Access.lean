import Mathlib

/-!
# Access control, without the service

What an access-control service for groups is for, in its own terms: users have keys, groups have
members, and a message to a group is sealed for the keys of its members. The users, the groups, the
keys and the payload of a message are any types.

* `Step p k c v p'`: in the policy `p` the command `c` is answered by the verdict `v` and leaves the
  policy `p'`; `k` is the key a new user is given. Every guard is in a constructor. A refusal has a
  `Reason`, the group is looked up before the user, and a refused command changes nothing
  (`Step.refused`).
* **`Runs.revoked`**: a user's key that opens nothing of a group does not come back, as long as its
  owner is not let in again and nobody else is given the key.
* **`Runs.retired`**: a key that no user has is the key of no user later, as long as it is not drawn
  again.
-/

namespace ASky.Access

open scoped Classical

variable {U G K B : Type*}

/-- The keys of the users, and the members of the groups. -/
@[ext]
structure Policy (U G K : Type*) where
  key : U → Option K
  group : G → Option (Set U)

/-- What is asked for. -/
inductive Command (U G B : Type*) where
  | ping
  | createUser (u : U)
  | createGroup (g : G) (u : U)
  | addUser (g : G) (u : U)
  | removeUser (g : G) (u : U)
  | deleteUser (u : U)
  | deleteAll
  | belongs (u : U) (g : G)
  | envelope (g : G) (b : B)

/-- Why a command is refused. -/
inductive Reason where
  | userExists
  | groupExists
  | unknownUser
  | unknownGroup
  | notMember
  | emptyGroup

/-- What is answered. -/
inductive Verdict (K B : Type*) where
  /-- The command is carried out. -/
  | done
  /-- The user is created, with the key `k`. -/
  | issued (k : K)
  /-- The user was a member before. -/
  | already
  | belongs (answer : Prop)
  /-- The message `b`, for the holders of `keys`. -/
  | sealed (b : B) (keys : Set K)
  | refused (why : Reason)

namespace Policy

/-- Nobody, and nothing to belong to. -/
def empty : Policy U G K := ⟨fun _ => none, fun _ => none⟩

/-- `u` gets the key `k`. -/
noncomputable def issue (p : Policy U G K) (u : U) (k : K) : Policy U G K :=
  { p with key := Function.update p.key u (some k) }

/-- The members of `g` are now `s`. -/
noncomputable def assign (p : Policy U G K) (g : G) (s : Set U) : Policy U G K :=
  { p with group := Function.update p.group g (some s) }

/-- `u` is no user and no member any more. -/
noncomputable def drop (p : Policy U G K) (u : U) : Policy U G K where
  key := Function.update p.key u none
  group g := (p.group g).map (· \ {u})

/-- `u` is a member of `g`. -/
def Member (p : Policy U G K) (u : U) (g : G) : Prop := ∃ s, p.group g = some s ∧ u ∈ s

/-- The keys that open a message to `g`. -/
def openers (p : Policy U G K) (g : G) : Set K := {k | ∃ u, p.Member u g ∧ p.key u = some k}

/-- Nobody has the key `k`. -/
def Unused (p : Policy U G K) (k : K) : Prop := ∀ u, p.key u ≠ some k

theorem Unused.not_mem_openers {p : Policy U G K} {k : K} (h : p.Unused k) (g : G) :
    k ∉ p.openers g := by
  rintro ⟨u, -, hk⟩
  exact h u hk

end Policy

open Policy

/-- **What a command does.** Two refusals of one command have guards that exclude each other: where
the group and the user are both missing, it is the group that is named. -/
inductive Step (p : Policy U G K) (k : K) : Command U G B → Verdict K B → Policy U G K → Prop where
  | ping : Step p k .ping .done p
  -- a user
  | createUser {u : U} (hu : p.key u = none) : Step p k (.createUser u) (.issued k) (p.issue u k)
  | userExists {u : U} (hu : p.key u ≠ none) : Step p k (.createUser u) (.refused .userExists) p
  | deleteUser {u : U} : Step p k (.deleteUser u) .done (p.drop u)
  | deleteAll : Step p k .deleteAll .done empty
  -- a group, with its first member
  | createGroup {g : G} {u : U} (hg : p.group g = none) (hu : p.key u ≠ none) :
      Step p k (.createGroup g u) .done (p.assign g {u})
  | groupExists {g : G} {u : U} (hg : p.group g ≠ none) :
      Step p k (.createGroup g u) (.refused .groupExists) p
  | founderUnknown {g : G} {u : U} (hg : p.group g = none) (hu : p.key u = none) :
      Step p k (.createGroup g u) (.refused .unknownUser) p
  -- a member more
  | addUser {g : G} {u : U} {s : Set U} (hg : p.group g = some s) (hu : p.key u ≠ none)
      (hs : u ∉ s) : Step p k (.addUser g u) .done (p.assign g (insert u s))
  | already {g : G} {u : U} {s : Set U} (hg : p.group g = some s) (hu : p.key u ≠ none)
      (hs : u ∈ s) : Step p k (.addUser g u) .already p
  | addToNoGroup {g : G} {u : U} (hg : p.group g = none) :
      Step p k (.addUser g u) (.refused .unknownGroup) p
  | addUnknown {g : G} {u : U} (hg : p.group g ≠ none) (hu : p.key u = none) :
      Step p k (.addUser g u) (.refused .unknownUser) p
  -- a member less
  | removeUser {g : G} {u : U} {s : Set U} (hg : p.group g = some s) (hu : p.key u ≠ none)
      (hs : u ∈ s) : Step p k (.removeUser g u) .done (p.assign g (s \ {u}))
  | removeFromNoGroup {g : G} {u : U} (hg : p.group g = none) :
      Step p k (.removeUser g u) (.refused .unknownGroup) p
  | removeUnknown {g : G} {u : U} (hg : p.group g ≠ none) (hu : p.key u = none) :
      Step p k (.removeUser g u) (.refused .unknownUser) p
  | removeNotMember {g : G} {u : U} {s : Set U} (hg : p.group g = some s) (hu : p.key u ≠ none)
      (hs : u ∉ s) : Step p k (.removeUser g u) (.refused .notMember) p
  -- what verifiers ask
  | belongs {u : U} {g : G} {s : Set U} (hg : p.group g = some s) :
      Step p k (.belongs u g) (.belongs (u ∈ s)) p
  | belongsToNoGroup {u : U} {g : G} (hg : p.group g = none) :
      Step p k (.belongs u g) (.refused .unknownGroup) p
  | envelope {g : G} {b : B} (h : ∃ u, p.Member u g) :
      Step p k (.envelope g b) (.sealed b (p.openers g)) p
  | envelopeForNoGroup {g : G} {b : B} (hg : p.group g = none) :
      Step p k (.envelope g b) (.refused .unknownGroup) p
  | envelopeForNobody {g : G} {b : B} (hg : p.group g = some ∅) :
      Step p k (.envelope g b) (.refused .emptyGroup) p

/-! ## Reading a policy after a change -/

section Changes

variable {p : Policy U G K} {u v : U} {g q : G} {k : K} {s : Set U}

theorem key_issue : (p.issue u k).key v = if v = u then some k else p.key v :=
  Function.update_apply p.key u (some k) v

theorem group_assign : (p.assign g s).group q = if q = g then some s else p.group q :=
  Function.update_apply p.group g (some s) q

theorem assign_self (hg : p.group g = some s) : p.assign g s = p := by
  unfold assign
  rw [← hg, Function.update_eq_self]

theorem assign_assign {t : Set U} : (p.assign g s).assign g t = p.assign g t := by
  unfold assign
  rw [Function.update_idem]

theorem member_assign : (p.assign g s).Member v q ↔ if q = g then v ∈ s else p.Member v q := by
  unfold Member assign
  dsimp only
  rw [Function.update_apply]
  by_cases hq : q = g
  · rw [if_pos hq, if_pos hq]
    simp
  · rw [if_neg hq, if_neg hq]

theorem member_drop : (p.drop u).Member v q ↔ v ≠ u ∧ p.Member v q := by
  unfold Member drop
  cases hq : p.group q with
  | none => simp [hq]
  | some s =>
    simp only [hq, Option.map_some, Option.some.injEq, exists_eq_left', Set.mem_sdiff,
      Set.mem_singleton_iff]
    exact and_comm

theorem key_drop : (p.drop u).key v = if v = u then none else p.key v :=
  Function.update_apply p.key u none v

theorem not_member_empty : ¬ (empty : Policy U G K).Member v q := by
  rintro ⟨s, hs, -⟩
  cases hs

end Changes

/-! ## Revocation -/

/-- Only `u` has the key `k`. -/
def Only (p : Policy U G K) (k : K) (u : U) : Prop := ∀ v, p.key v = some k → v = u

/-- The command lets `u` into `g`. -/
def Command.Admits (u : U) (g : G) (c : Command U G B) : Prop :=
  c = .addUser g u ∨ c = .createGroup g u

section Step

variable {p p' : Policy U G K} {fresh k : K} {c : Command U G B} {v : Verdict K B} {u : U} {g : G}

/-- A refused command changes nothing. -/
theorem Step.refused {why : Reason} (h : Step p fresh c (.refused why : Verdict K B) p') :
    p' = p := by
  cases h with
  | _ => rfl

/-- Who has a key after a step had it before, or is given it by the step. -/
theorem Step.key_cases (h : Step p fresh c v p') {w : U} (hk : p'.key w = some k) :
    p.key w = some k ∨ fresh = k ∧ c = .createUser w := by
  cases h with
  | @createUser u' hu =>
    rw [key_issue] at hk
    by_cases hw : w = u'
    · rw [if_pos hw] at hk
      exact .inr ⟨Option.some.inj hk, by rw [hw]⟩
    · rw [if_neg hw] at hk
      exact .inl hk
  | @deleteUser u' =>
    rw [key_drop] at hk
    by_cases hw : w = u'
    · rw [if_pos hw] at hk
      cases hk
    · rw [if_neg hw] at hk
      exact .inl hk
  | deleteAll => cases hk
  | _ => exact .inl hk

/-- A key stays its owner's, if nobody else is given it. -/
theorem Step.only (h : Step p fresh c v p') (honly : Only p k u)
    (hc : fresh = k → ∀ w, c = .createUser w → w = u) : Only p' k u := by
  intro w hk
  rcases h.key_cases hk with hold | ⟨hfresh, hnew⟩
  · exact honly w hold
  · exact hc hfresh w hnew

/-- Who is a member after a step was one before it, or is let in by it. -/
theorem Step.member_of_member (h : Step p fresh c v p') {w : U} (hw : p'.Member w g) :
    p.Member w g ∨ c.Admits w g := by
  cases h with
  | @createGroup g' u' hg hu =>
    rw [member_assign] at hw
    by_cases hq : g = g'
    · rw [if_pos hq, Set.mem_singleton_iff] at hw
      exact .inr (.inr (by rw [hw, hq]))
    · rw [if_neg hq] at hw
      exact .inl hw
  | @addUser g' u' s hg hu hs =>
    rw [member_assign] at hw
    by_cases hq : g = g'
    · rw [if_pos hq, Set.mem_insert_iff] at hw
      rcases hw with hw | hw
      · exact .inr (.inl (by rw [hw, hq]))
      · exact .inl ⟨s, by rw [hq]; exact hg, hw⟩
    · rw [if_neg hq] at hw
      exact .inl hw
  | @removeUser g' u' s hg hu hs =>
    rw [member_assign] at hw
    by_cases hq : g = g'
    · rw [if_pos hq] at hw
      exact .inl ⟨s, by rw [hq]; exact hg, hw.1⟩
    · rw [if_neg hq] at hw
      exact .inl hw
  | deleteUser => exact .inl (member_drop.mp hw).2
  | deleteAll => exact absurd hw not_member_empty
  | _ => exact .inl hw

/-- A removal that is done takes the user out. -/
theorem Step.removed (h : Step p fresh (.removeUser g u : Command U G B) .done p') :
    ¬ p'.Member u g := by
  cases h with
  | removeUser hg hu hs =>
    rw [member_assign, if_pos rfl]
    exact fun hw => hw.2 rfl

/-- A deleted user's key is nobody's. -/
theorem Step.deleted (h : Step p fresh (.deleteUser u : Command U G B) v p') (honly : Only p k u) :
    p'.Unused k := by
  intro w hk
  cases h with
  | deleteUser =>
    rw [key_drop] at hk
    by_cases hw : w = u
    · rw [if_pos hw] at hk
      cases hk
    · rw [if_neg hw] at hk
      exact hw (honly w hk)

end Step

/-! ## Runs -/

/-- A run: the commands with the keys that were drawn, and the verdicts. -/
inductive Runs : Policy U G K → List (K × Command U G B) → List (Verdict K B) → Policy U G K →
    Prop where
  | nil {p : Policy U G K} : Runs p [] [] p
  | cons {p p' p'' : Policy U G K} {k : K} {c : Command U G B} {v : Verdict K B}
      {log : List (K × Command U G B)} {vs : List (Verdict K B)} (h : Step p k c v p')
      (hrest : Runs p' log vs p'') : Runs p ((k, c) :: log) (v :: vs) p''

section Runs

variable {p p' : Policy U G K} {k : K} {log : List (K × Command U G B)} {vs : List (Verdict K B)}
  {u : U} {g : G}

theorem Runs.only (h : Runs p log vs p') (honly : Only p k u)
    (hissued : ∀ e ∈ log, e.1 = k → ∀ w, e.2 = .createUser w → w = u) : Only p' k u := by
  induction h with
  | nil => exact honly
  | cons hstep _ ih =>
    exact ih (hstep.only honly (hissued _ List.mem_cons_self))
      fun e he => hissued e (List.mem_cons_of_mem _ he)

theorem Runs.outside (h : Runs p log vs p') (hp : ¬ p.Member u g)
    (hadm : ∀ e ∈ log, ¬ e.2.Admits u g) : ¬ p'.Member u g := by
  induction h with
  | nil => exact hp
  | cons hstep _ ih =>
    refine ih (fun hm => ?_) fun e he => hadm e (List.mem_cons_of_mem _ he)
    rcases hstep.member_of_member hm with hold | hnew
    · exact hp hold
    · exact hadm _ List.mem_cons_self hnew

/-- **A revoked key stays revoked**, as long as its owner is not let in again and nobody else is
given it. -/
theorem Runs.revoked (h : Runs p log vs p') (honly : Only p k u) (hp : ¬ p.Member u g)
    (hissued : ∀ e ∈ log, e.1 = k → ∀ w, e.2 = .createUser w → w = u)
    (hadm : ∀ e ∈ log, ¬ e.2.Admits u g) : k ∉ p'.openers g := by
  rintro ⟨w, hw, hk⟩
  rw [h.only honly hissued w hk] at hw
  exact h.outside hp hadm hw

/-- **A retired key stays retired**, as long as it is not drawn again. -/
theorem Runs.retired (h : Runs p log vs p') (hp : p.Unused k) (hfresh : ∀ e ∈ log, e.1 ≠ k) :
    p'.Unused k := by
  induction h with
  | nil => exact hp
  | cons hstep _ ih =>
    refine ih (fun w hw => ?_) fun e he => hfresh e (List.mem_cons_of_mem _ he)
    rcases hstep.key_cases hw with hold | ⟨hdrawn, -⟩
    · exact hp w hold
    · exact hfresh _ List.mem_cons_self hdrawn

end Runs

end ASky.Access
