import ASky.Access

/-!
# Shared files, without the system

What the whole system is for: files in an untrusted store, each readable by the members of a group.
A ticket is what a client gets for a group and later writes a file under.

* `Step`: the commands of `Access`, a ticket for a group, a file written under a ticket, a file
  erased. `Runs` are sequences of them.
* **`file_of_ticket`**: who reads a file is decided when the ticket is issued. Whatever happens to
  the users and the groups afterwards, the readers are the members of the group at that moment.
-/

namespace ASky.Access

open scoped Classical

variable {U G K B F D : Type*}

/-- The policy, the readers of each ticket, and the files with their readers. -/
structure Vault (U G K F D : Type*) where
  policy : Policy U G K
  tickets : List (Set K)
  files : F → Option (D × Set K)

namespace Vault

/-- What the holder of the key `k` reads. -/
noncomputable def read (v : Vault U G K F D) (k : K) (f : F) : Option D :=
  match v.files f with
  | none => none
  | some (d, readers) => if k ∈ readers then some d else none

/-- The file `f` is now `x`. -/
noncomputable def put (v : Vault U G K F D) (f : F) (x : Option (D × Set K)) : Vault U G K F D :=
  { v with files := Function.update v.files f x }

theorem files_put_self (v : Vault U G K F D) (f : F) (x : Option (D × Set K)) :
    (v.put f x).files f = x := by
  unfold put
  dsimp only
  rw [Function.update_self]

theorem files_put_of_ne (v : Vault U G K F D) {f f' : F} (h : f' ≠ f) (x : Option (D × Set K)) :
    (v.put f x).files f' = v.files f' := by
  unfold put
  dsimp only
  rw [Function.update_of_ne h]

/-- What can be done. -/
inductive Act (U G B F D : Type*) where
  | command (c : Command U G B)
  | ticket (g : G)
  | write (i : ℕ) (f : F) (d : D)
  | erase (f : F)

/-- The act leaves the file `f` alone. -/
def Act.Spares (f : F) : Act U G B F D → Prop
  | .write _ f' _ => f' ≠ f
  | .erase f' => f' ≠ f
  | _ => True

/-- One act. -/
inductive Step (v : Vault U G K F D) : Act U G B F D → Vault U G K F D → Prop where
  | command {k : K} {c : Command U G B} {verdict : Verdict K B} {p : Policy U G K}
      (h : Access.Step v.policy k c verdict p) : Step v (.command c) { v with policy := p }
  | ticket {g : G} (h : ∃ u, v.policy.Member u g) :
      Step v (.ticket g) { v with tickets := v.tickets ++ [v.policy.openers g] }
  | write {i : ℕ} {readers : Set K} (hi : v.tickets[i]? = some readers) (f : F) (d : D) :
      Step v (.write i f d) (v.put f (some (d, readers)))
  | erase (f : F) : Step v (.erase f) (v.put f none)

/-- A sequence of acts. -/
inductive Runs : Vault U G K F D → List (Act U G B F D) → Vault U G K F D → Prop where
  | nil {v : Vault U G K F D} : Runs v [] v
  | cons {v v' v'' : Vault U G K F D} {a : Act U G B F D} {acts : List (Act U G B F D)}
      (hs : Step v a v') (h : Runs v' acts v'') : Runs v (a :: acts) v''

section

variable {v v' : Vault U G K F D} {a : Act U G B F D} {acts : List (Act U G B F D)} {f : F}

theorem Step.files_of_spares (h : Step v a v') (ha : a.Spares f) : v'.files f = v.files f := by
  cases h with
  | command h => rfl
  | ticket h => rfl
  | write hi f' d => exact files_put_of_ne v (Ne.symm ha) _
  | erase f' => exact files_put_of_ne v (Ne.symm ha) _

/-- A ticket that was issued keeps its readers. -/
theorem Step.ticket_kept (h : Step v a v') {i : ℕ} {readers : Set K}
    (hi : v.tickets[i]? = some readers) : v'.tickets[i]? = some readers := by
  cases h with
  | ticket h =>
    dsimp only
    rw [List.getElem?_append_left (List.getElem?_eq_some_iff.mp hi).1]
    exact hi
  | _ => exact hi

theorem Runs.files_of_spares (h : Runs v acts v') (ha : ∀ a ∈ acts, a.Spares f) :
    v'.files f = v.files f := by
  induction h with
  | nil => rfl
  | cons hs _ ih =>
    rw [ih fun a h => ha a (List.mem_cons_of_mem _ h)]
    exact hs.files_of_spares (ha _ List.mem_cons_self)

theorem Runs.ticket_kept (h : Runs v acts v') {i : ℕ} {readers : Set K}
    (hi : v.tickets[i]? = some readers) : v'.tickets[i]? = some readers := by
  induction h with
  | nil => exact hi
  | cons hs _ ih => exact ih (hs.ticket_kept hi)

/-- **Who reads a file is decided when the ticket is issued.** A ticket for `g`, then any acts, then
a file written under the ticket, then any acts that leave the file alone: the readers of the file
are the members of `g` at the start. -/
theorem file_of_ticket {v₀ v₁ v₂ v₃ v₄ : Vault U G K F D} {g : G} {d : D}
    {acts acts' : List (Act U G B F D)} (hticket : Step v₀ (.ticket g : Act U G B F D) v₁)
    (hacts : Runs v₁ acts v₂)
    (hwrite : Step v₂ (.write v₀.tickets.length f d : Act U G B F D) v₃)
    (hacts' : Runs v₃ acts' v₄) (hspares : ∀ a ∈ acts', a.Spares f) :
    v₄.files f = some (d, v₀.policy.openers g) := by
  have hissued : v₁.tickets[v₀.tickets.length]? = some (v₀.policy.openers g) := by
    cases hticket with
    | ticket h => exact List.getElem?_concat_length
  have hheld := hacts.ticket_kept hissued
  have hfile : v₃.files f = some (d, v₀.policy.openers g) := by
    cases hwrite with
    | write hi f' d' =>
      rw [hheld] at hi
      rw [Option.some.inj hi]
      exact files_put_self v₂ f _
  rw [hacts'.files_of_spares hspares, hfile]

end

end Vault

end ASky.Access
