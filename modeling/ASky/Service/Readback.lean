import ASky.Service.Dump
import ASky.Service.Syntax

/-!
# What is written is read back

`dump(2)` and `json::parse` are inverse to each other on objects of strings.

* `big_of_lead`, `big_step`: the code points that `decode` puts together from more than one byte are
  at least `0x80`, so that `dump_escaped` copies their bytes. `escape_character`: what it writes for
  ASCII is a character of the grammar.
* `characters_of_dumpEscaped`: an escaped string stands for the string.
* `jsonParse_of_dump2`: a dump is parsed to an object with the members that were dumped.
* **`dump2_reads_back_iff`**: what an object of strings is written to is read back, exactly when its
  names and values are well-formed UTF-8.
-/

namespace ASky

open Std (ExtTreeMap)
open Lib

/-! ## Strings -/

/-- The code point so far, when the ranges are those of the bytes that are missing: it will be too
large for ASCII. -/
def Big (p : Pending) (codep : UInt32) : Prop :=
  codep.toNat < 2 ^ (24 - 6 * p.length) ∧ p.length ≤ 3 ∧ (2 ≤ codep.toNat ∨
    (2 ≤ p.length ∧ (1 ≤ codep.toNat ∨ p.head?.any (fun r => decide (0x82 ≤ r.1.toNat)) = true)))

instance (p : Pending) (codep : UInt32) : Decidable (Big p codep) := by
  unfold Big
  infer_instance

/-- The first byte of a code point of more than one. -/
theorem big_of_lead {b : UInt8} {p : Pending} (h : lead b = some p) (hp : p ≠ []) (codep : UInt32) :
    Big p (decode utf8Accept codep b).2 := by
  have htable : ∀ n < 256, (lead (UInt8.ofNat n)).all fun p =>
      decide (p ≠ [] → Big p (decode utf8Accept 0 (UInt8.ofNat n)).2) := by
    decide +kernel
  have hrow := htable b.toNat b.toNat_lt
  rw [UInt8.ofNat_toNat, h] at hrow
  exact of_decide_eq_true hrow hp

/-- A further byte. -/
theorem big_step {r : UInt8 × UInt8} {p : Pending} {state : Nat} {codep : UInt32} {b : UInt8}
    (h : Big (r :: p) codep) (hstate : state ≠ utf8Accept) (hin : r.1 ≤ b ∧ b ≤ r.2)
    (hr : 0x80 ≤ r.1 ∧ r.2 ≤ 0xBF) :
    Big p (decode state codep b).2 ∧ (p = [] → 0x80 ≤ (decode state codep b).2.toNat) := by
  obtain ⟨hlt, hlen, hlow⟩ := h
  obtain ⟨hlo, hhi⟩ := hin
  simp only [UInt8.le_iff_toNat_le, UInt8.reduceToNat] at hlo hhi hr
  rw [List.length_cons] at hlt hlen hlow
  have hpow : 2 ^ (24 - 6 * p.length) = 2 ^ (24 - 6 * (p.length + 1)) * 64 := by
    rw [show (64 : Nat) = 2 ^ 6 from rfl, ← pow_add]
    congr 1
    omega
  have hmax : 2 ^ (24 - 6 * p.length) ≤ 2 ^ 24 := Nat.pow_le_pow_right (by norm_num) (by omega)
  have hmin : 2 ^ 6 ≤ 2 ^ (24 - 6 * p.length) := Nat.pow_le_pow_right (by norm_num) (by omega)
  have hand : b.toNat &&& 63 = b.toNat % 64 := Nat.and_two_pow_sub_one_eq_mod b.toNat 6
  have hdec : (decode state codep b).2.toNat = b.toNat % 64 ||| codep.toNat * 64 := by
    unfold decode
    dsimp only
    rw [if_pos hstate]
    have hshift : codep.toNat * 2 ^ (6 % 32) % 2 ^ 32 = codep.toNat * 64 := by
      rw [show (2 : Nat) ^ (6 % 32) = 64 from rfl]
      exact Nat.mod_eq_of_lt (by omega)
    simp only [UInt32.toNat_or, UInt32.toNat_shiftLeft, UInt32.toNat_and, UInt8.toNat_toUInt32,
      UInt32.reduceToNat, hand, Nat.shiftLeft_eq, hshift]
  have hleft : b.toNat % 64 ≤ (decode state codep b).2.toNat := by
    rw [hdec]
    exact Nat.left_le_or
  have hright : codep.toNat * 64 ≤ (decode state codep b).2.toNat := by
    rw [hdec]
    exact Nat.right_le_or
  have hlast : p = [] → 0x80 ≤ (decode state codep b).2.toNat := by
    rintro rfl
    rw [List.length_nil] at hlow
    omega
  refine ⟨⟨?_, by omega, .inl ?_⟩, hlast⟩
  · rw [hdec]
    exact Nat.or_lt_two_pow (by omega) (by omega)
  · obtain hlow | ⟨-, hlow | hlow⟩ := hlow
    · omega
    · omega
    · have hhead : 0x82 ≤ r.1.toNat := of_decide_eq_true hlow
      omega

/-- What may still follow are continuation bytes. -/
theorem pendings_range {p : Pending} (hp : p ∈ pendings) :
    ∀ r ∈ p, 0x80 ≤ r.1 ∧ r.2 ≤ 0xBF := by
  have htable : (pendings.all fun p => p.all fun r => decide (0x80 ≤ r.1 ∧ r.2 ≤ 0xBF)) = true := by
    decide +kernel
  intro r hr
  exact of_decide_eq_true (List.all_eq_true.mp (List.all_eq_true.mp htable p hp) r hr)

/-- A byte less may follow. -/
theorem tail_mem_pendings {r : UInt8 × UInt8} {p : Pending} (hp : r :: p ∈ pendings) :
    p ∈ pendings := by
  have htable : ∀ p ∈ pendings, List.tail p ∈ pendings := by decide +kernel
  exact htable _ hp

/-- A code point that is not ASCII is not escaped. -/
theorem escape_big {codep : UInt32} (h : 0x80 ≤ codep.toNat) (byte : UInt8) :
    escape codep byte = [byte] := by
  have hne : ∀ n : UInt32, n.toNat < 0x80 → codep ≠ n := by
    rintro n hn rfl
    omega
  have hle : ¬ codep ≤ 0x1F := by
    rw [UInt32.le_iff_toNat_le]
    simp only [UInt32.reduceToNat]
    omega
  unfold escape
  rw [if_neg (hne _ (by decide)), if_neg (hne _ (by decide)), if_neg (hne _ (by decide)),
    if_neg (hne _ (by decide)), if_neg (hne _ (by decide)), if_neg (hne _ (by decide)),
    if_neg (hne _ (by decide)), if_neg hle]

/-- The further bytes of a code point are copied. -/
theorem dumpEscapedFrom_pending {p : Pending} (hp : p ∈ pendings) (hne : p ≠ []) {codep : UInt32}
    (hbig : Big p codep) {acc s t : Bytes} (h : dumpEscapedFrom (dfaState p) codep acc s = .ok t) :
    ∃ cs s' codep', s = cs ++ s' ∧ List.Forall₂ (fun r b => r.1 ≤ b ∧ b ≤ r.2) p cs ∧
      dumpEscapedFrom utf8Accept codep' (acc ++ cs) s' = .ok t := by
  induction p generalizing codep acc s with
  | nil => exact absurd rfl hne
  | cons r p ih =>
    have hstate : dfaState (r :: p) ≠ utf8Accept := by
      rw [Ne, dfaState_eq_accept hp]
      simp
    cases s with
    | nil =>
      rw [dumpEscapedFrom, if_neg hstate] at h
      cases h
    | cons b s =>
      rw [dumpEscapedFrom] at h
      have hdec := decode_dfaState hp codep b
      have hq := tail_mem_pendings hp
      by_cases hin : r.1 ≤ b ∧ b ≤ r.2
      · rw [utf8Step, if_pos hin, Option.elim_some] at hdec
        obtain ⟨hbig', hlast⟩ := big_step hbig hstate hin
          (pendings_range hp r List.mem_cons_self)
        rw [hdec] at h
        cases p with
        | nil =>
          have haccept : dfaState [] = utf8Accept := rfl
          rw [if_pos haccept, escape_big (hlast rfl), haccept] at h
          exact ⟨[b], s, _, rfl, .cons hin .nil, h⟩
        | cons r' p =>
          have hne' : dfaState (r' :: p) ≠ utf8Accept := by
            rw [Ne, dfaState_eq_accept hq]
            simp
          rw [if_neg hne', if_neg (dfaState_ne_reject hq)] at h
          obtain ⟨cs, s', codep', rfl, hcs, hrest⟩ := ih hq (by simp) hbig' h
          refine ⟨b :: cs, s', codep', rfl, .cons hin hcs, ?_⟩
          rw [List.append_assoc] at hrest
          exact hrest
      · rw [utf8Step, if_neg hin, Option.elim_none] at hdec
        rw [hdec, if_neg (by decide), if_pos rfl] at h
        cases h

/-- The code point of an ASCII byte. -/
theorem decode_codep_ascii (codep : UInt32) {b : UInt8} (h : lead b = some []) :
    (decode utf8Accept codep b).2 = b.toUInt32 := by
  have htable : ((List.range 256).all fun n => decide (lead (UInt8.ofNat n) = some [] →
      (decode utf8Accept 0 (UInt8.ofNat n)).2 = (UInt8.ofNat n).toUInt32)) = true := by
    decide +kernel
  have hrow := of_decide_eq_true (List.all_eq_true.mp htable b.toNat
    (List.mem_range.mpr b.toNat_lt))
  rw [UInt8.ofNat_toNat] at hrow
  exact hrow h

/-- `\u00XX`, as the escape of a control character writes it. -/
theorem quad_control {n : Nat} (h : n < 0x20) :
    Quad (0x30 :: 0x30 :: [hexDigit (n / 16), hexDigit (n % 16)]) n := by
  have htable : ((List.range 0x20).all fun n => decide (
      HexDigit (hexDigit (n / 16)) (n / 16) ∧ HexDigit (hexDigit (n % 16)) (n % 16))) = true := by
    decide +kernel
  obtain ⟨hhigh, hlow⟩ := of_decide_eq_true (List.all_eq_true.mp htable n (List.mem_range.mpr h))
  refine ⟨_, _, _, _, 0, 0, n / 16, n % 16, rfl, by decide, by decide, hhigh, hlow, ?_⟩
  simp only [Nat.ofDigits_cons, Nat.ofDigits_nil]
  omega

/-- **What is written for an ASCII byte stands for it.** -/
theorem escape_character {b : UInt8} (h : lead b = some []) :
    Character (escape b.toUInt32 b) [b] := by
  have heq : ∀ n : UInt8, b.toUInt32 = n.toUInt32 → b = n := by
    intro n hn
    have htoNat := congrArg UInt32.toNat hn
    rw [UInt8.toNat_toUInt32, UInt8.toNat_toUInt32] at htoNat
    exact UInt8.toNat_inj.mp htoNat
  unfold escape
  by_cases h08 : b.toUInt32 = 0x08
  · rw [if_pos h08, heq 0x08 h08]
    exact .simple (by decide)
  rw [if_neg h08]
  by_cases h09 : b.toUInt32 = 0x09
  · rw [if_pos h09, heq 0x09 h09]
    exact .simple (by decide)
  rw [if_neg h09]
  by_cases h0A : b.toUInt32 = 0x0A
  · rw [if_pos h0A, heq 0x0A h0A]
    exact .simple (by decide)
  rw [if_neg h0A]
  by_cases h0C : b.toUInt32 = 0x0C
  · rw [if_pos h0C, heq 0x0C h0C]
    exact .simple (by decide)
  rw [if_neg h0C]
  by_cases h0D : b.toUInt32 = 0x0D
  · rw [if_pos h0D, heq 0x0D h0D]
    exact .simple (by decide)
  rw [if_neg h0D]
  by_cases h22 : b.toUInt32 = 0x22
  · rw [if_pos h22, heq 0x22 h22]
    exact .simple (by decide)
  rw [if_neg h22]
  by_cases h5C : b.toUInt32 = 0x5C
  · rw [if_pos h5C, heq 0x5C h5C]
    exact .simple (by decide)
  rw [if_neg h5C]
  by_cases h1F : b.toUInt32 ≤ 0x1F
  · rw [if_pos h1F]
    simp only [UInt32.le_iff_toNat_le, UInt8.toNat_toUInt32, UInt32.reduceToNat] at h1F
    have hlit : lit "\\u00" = [0x5C, 0x75, 0x30, 0x30] := rfl
    obtain ⟨c, hc⟩ := @exists_char b.toNat (by omega)
    have hbytes : String.utf8EncodeChar c = [b] := by
      rw [← codepointBytes_eq, hc, Lexer.codepointBytes, if_pos (by omega), Nat.toUInt8,
        UInt8.ofNat_toNat]
    rw [hlit, UInt8.toNat_toUInt32, ← hbytes, ← hc]
    exact .unicode (quad_control (by omega))
  · rw [if_neg h1F]
    simp only [UInt32.le_iff_toNat_le, UInt8.toNat_toUInt32, UInt32.reduceToNat] at h1F
    refine .plain ?_ ?_ ?_ h .nil
    · rintro rfl
      exact h22 rfl
    · rintro rfl
      exact h5C rfl
    · simp only [UInt8.le_iff_toNat_le, UInt8.reduceToNat]
      omega

/-- What the loop of `dump_escaped` appends is a way to write what it has read. -/
theorem dumpEscapedFrom_characters {codep : UInt32} {acc s t : Bytes}
    (h : dumpEscapedFrom utf8Accept codep acc s = .ok t) :
    ∃ t', Characters t' s ∧ t = acc ++ t' := by
  induction hn : s.length using Nat.strong_induction_on generalizing s codep acc with
  | _ n ih =>
    subst hn
    cases s with
    | nil =>
      rw [dumpEscapedFrom, if_pos rfl] at h
      cases h
      exact ⟨[], .nil, by simp⟩
    | cons b s =>
      have hp : ([] : Pending) ∈ pendings := by simp [pendings]
      have haccept : dfaState [] = utf8Accept := rfl
      have hdec := decode_dfaState hp codep b
      rw [haccept, utf8Step] at hdec
      rw [dumpEscapedFrom] at h
      cases hlead : lead b with
      | none =>
        rw [hlead, Option.elim_none] at hdec
        rw [hdec, if_neg (by decide), if_pos rfl] at h
        cases h
      | some p =>
        rw [hlead, Option.elim_some] at hdec
        rw [hdec] at h
        have hq : p ∈ pendings := utf8Step_mem_pendings hp (by rw [utf8Step, hlead])
        by_cases hnil : p = []
        · -- one byte, escaped
          subst hnil
          rw [if_pos haccept, haccept, decode_codep_ascii codep hlead] at h
          obtain ⟨t', ht', rfl⟩ := ih s.length (by simp) h rfl
          exact ⟨_, .cons (escape_character hlead) ht', by rw [List.append_assoc]⟩
        · -- several bytes, copied
          have hne : dfaState p ≠ utf8Accept := by
            rw [Ne, dfaState_eq_accept hq]
            exact hnil
          rw [if_neg hne, if_neg (dfaState_ne_reject hq)] at h
          obtain ⟨cs, s', codep', rfl, hcs, hrest⟩ :=
            dumpEscapedFrom_pending hq hnil (big_of_lead hlead hnil codep) h
          obtain ⟨t', ht', rfl⟩ := ih s'.length (by simp) hrest rfl
          have hascii : ∀ c : UInt8, c.toNat < 128 → b ≠ c := by
            rintro c hc rfl
            rw [lead_ascii hc] at hlead
            exact hnil (Option.some.inj hlead).symm
          have hcontrol : 0x20 ≤ b := by
            rw [UInt8.le_iff_toNat_le]
            by_contra hlt
            simp only [UInt8.reduceToNat] at hlt
            exact hascii b (by omega) rfl
          refine ⟨_, .cons (.plain (hascii _ (by decide)) (hascii _ (by decide)) hcontrol hlead hcs)
            ht', ?_⟩
          simp

/-- **An escaped string stands for the string.** -/
theorem characters_of_dumpEscaped {s t : Bytes} (h : dumpEscaped s = .ok t) : Characters t s := by
  obtain ⟨t', ht', rfl⟩ := dumpEscapedFrom_characters h
  exact ht'

/-! ## Objects -/

/-- `(*this)[key] = value` is seen under `key`, and under no other. -/
theorem lookup_objectSet (kvs : List (Bytes × Json)) (key : Bytes) (v : Json) (k : Bytes) :
    (objectSet kvs key v).lookup k = if k = key then some v else kvs.lookup k := by
  unfold objectSet
  by_cases hk : k = key
  · subst hk
    simp
  · rw [List.lookup_cons, if_neg hk]
    have hbeq : (k == key) = false := by simpa using hk
    rw [hbeq]
    induction kvs with
    | nil => rfl
    | cons e kvs ih =>
      obtain ⟨k', v'⟩ := e
      by_cases hk' : k' = key
      · subst hk'
        rw [List.filter_cons_of_neg (by simp), List.lookup_cons, hbeq]
        exact ih
      · rw [List.filter_cons_of_pos (by simpa using hk'), List.lookup_cons, List.lookup_cons]
        cases k == k' with
        | true => rfl
        | false => exact ih

/-- **Of several members with one key the last one counts.** -/
theorem lookup_lastOfEach (ms : List (Bytes × Json)) (k : Bytes) :
    (lastOfEach ms).lookup k = ms.reverse.lookup k := by
  induction ms using List.reverseRecOn with
  | nil => rfl
  | append_singleton ms m ih =>
    obtain ⟨key, v⟩ := m
    rw [← objectSet_lastOfEach, lookup_objectSet, ih, List.reverse_append, List.reverse_singleton,
      List.singleton_append, List.lookup_cons]
    by_cases hk : k = key
    · subst hk
      simp
    · rw [if_neg hk, beq_false_of_ne hk]

/-- The members of an object of strings. -/
def stringMembers (l : List (Bytes × Bytes)) : List (Bytes × Json) :=
  l.map fun e => (e.1, .string e.2)

/-- The parser finds the value of each key, as no key comes twice. -/
theorem lookup_stringMembers {l : List (Bytes × Bytes)} (hl : (l.map Prod.fst).Nodup)
    (k : Bytes) : (stringMembers l).reverse.lookup k = (l.lookup k).map Json.string := by
  induction l with
  | nil => rfl
  | cons e l ih =>
    obtain ⟨k', v⟩ := e
    rw [List.map_cons, List.nodup_cons] at hl
    have hcons : stringMembers ((k', v) :: l) = (k', .string v) :: stringMembers l := rfl
    rw [hcons, List.reverse_cons, List.lookup_append, ih hl.2, List.lookup_cons, List.lookup_cons]
    by_cases hk : k = k'
    · subst hk
      have hnone : l.lookup k = none := by
        rw [List.lookup_eq_none_iff]
        intro e he
        rw [bne_iff_ne]
        intro heq
        have hmem : e.1 ∈ l.map Prod.fst := List.mem_map_of_mem he
        rw [← heq] at hmem
        exact hl.1 hmem
      simp [hnone]
    · rw [beq_false_of_ne hk]
      simp

/-- The members of a map, by name. -/
theorem lookup_toList (j : KVString) (k : Bytes) : j.toList.lookup k = j[k]? := by
  cases hk : j[k]? with
  | none =>
    rw [List.lookup_eq_none_iff]
    rintro ⟨k', v⟩ he
    rw [bne_iff_ne]
    rintro rfl
    rw [ExtTreeMap.mem_toList_iff_getElem?_eq_some.mp he] at hk
    cases hk
  | some v =>
    have hmem := ExtTreeMap.mem_toList_iff_getElem?_eq_some.mpr hk
    cases hl : j.toList.lookup k with
    | none =>
      have hne := List.lookup_eq_none_iff.mp hl (k, v) hmem
      simp at hne
    | some w =>
      obtain ⟨before, after, heq, -⟩ := List.lookup_eq_some_iff.mp hl
      have hw := ExtTreeMap.mem_toList_iff_getElem?_eq_some.mp
        (show (k, w) ∈ j.toList by rw [heq]; simp)
      rw [← hw, hk]

/-- The keys of a map differ. -/
theorem nodup_keys (j : KVString) : (j.toList.map Prod.fst).Nodup := by
  rw [ExtTreeMap.map_fst_toList_eq_keys]
  exact ExtTreeMap.nodup_keys

/-- The separator stands before all members but the first. -/
theorem intercalate_cons (sep m : Bytes) (ms : List Bytes) :
    List.intercalate sep (m :: ms) = m ++ ms.flatMap fun m' => sep ++ m' := by
  induction ms generalizing m with
  | nil => simp
  | cons m' ms ih =>
    rw [List.intercalate_cons_cons, ih, List.flatMap_cons]
    simp

/-- A member as `dump(2)` writes it. -/
theorem dumpMembers_cons {k v : Bytes} {l : List (Bytes × Bytes)} {texts : List Bytes}
    (h : dumpMembers ((k, v) :: l) = .ok texts) :
    ∃ k' v' texts', Characters k' k ∧ Characters v' v ∧ dumpMembers l = .ok texts' ∧
      texts = ([0x20, 0x20, 0x22] ++ k' ++ [0x22, 0x3A, 0x20, 0x22] ++ v' ++ [0x22]) :: texts' := by
  rw [dumpMembers] at h
  cases hk : dumpEscaped k with
  | error e =>
    rw [hk] at h
    cases h
  | ok k' =>
    cases hv : dumpEscaped v with
    | error e =>
      rw [hk, hv] at h
      cases h
    | ok v' =>
      cases hl : dumpMembers l with
      | error e =>
        rw [hk, hv, hl] at h
        cases h
      | ok texts' =>
        rw [hk, hv, hl] at h
        cases h
        exact ⟨k', v', texts', characters_of_dumpEscaped hk, characters_of_dumpEscaped hv, rfl, rfl⟩

/-- A string in quotes is a value. -/
theorem phrase_string {t s : Bytes} (h : Characters t s) :
    Phrase (0x22 :: (t ++ [0x22])) (.value (.string s)) := .scalar (.string h) rfl

/-- The members after the first, and the closing brace. -/
theorem phrase_of_dumpMembers {mts t v key : Bytes} {ms : List (Bytes × Json)}
    {l : List (Bytes × Bytes)} {texts : List Bytes} (hms : Phrase mts (.members ms key))
    (hv : Characters t v) (h : dumpMembers l = .ok texts) :
    Phrase (0x7B :: (mts ++ (0x22 :: (t ++ [0x22]) ++
        ((texts.flatMap fun m => [0x2C, 0x0A] ++ m) ++ [0x0A, 0x7D]))))
      (.value (.object (lastOfEach (ms ++ stringMembers ((key, v) :: l))))) := by
  have hnil : Space [] := by simp [Space]
  have hline : Space [0x0A] := by simp [Space]
  have hindent : Space [0x0A, 0x20, 0x20] := by simp [Space]
  have hblank : Space [0x20] := by simp [Space]
  induction l generalizing mts t v key ms texts with
  | nil =>
    cases h
    exact .object hms (phrase_string hv) hline
  | cons e l ih =>
    obtain ⟨k, w⟩ := e
    obtain ⟨k', w', texts', hk, hw, hl, rfl⟩ := dumpMembers_cons h
    have hmember := ih (.member hms (phrase_string hv) hnil hindent hk hnil hblank) hw hl
    have hcons : stringMembers ((key, v) :: (k, w) :: l) =
        (key, .string v) :: stringMembers ((k, w) :: l) := rfl
    rw [hcons]
    simpa using hmember

/-- A dump stands for the object. -/
theorem document_of_dump2 {j : KVString} {text : Bytes} (h : dump2 j = .ok text) :
    Document text (.object (lastOfEach (stringMembers j.toList))) := by
  have hnil : Space [] := by simp [Space]
  have hindent : Space [0x0A, 0x20, 0x20] := by simp [Space]
  have hblank : Space [0x20] := by simp [Space]
  have hphrase : Phrase text (.value (.object (lastOfEach (stringMembers j.toList)))) := by
    unfold dump2 at h
    generalize j.toList = l at h ⊢
    cases l with
    | nil =>
      cases h
      exact .emptyObject hnil
    | cons e l =>
      obtain ⟨k, v⟩ := e
      cases hd : dumpMembers ((k, v) :: l) with
      | error e =>
        rw [hd] at h
        cases h
      | ok texts =>
        obtain ⟨k', v', texts', hk, hv, hl, rfl⟩ := dumpMembers_cons hd
        rw [hd] at h
        simp only [Except.ok.injEq] at h
        have hfirst := phrase_of_dumpMembers (.firstMember hindent hk hnil hblank) hv hl
        have htext : text = 0x7B :: ([0x0A, 0x20, 0x20] ++ (0x22 :: (k' ++ [0x22]) ++
            ([] ++ 0x3A :: [0x20])) ++ (0x22 :: (v' ++ [0x22]) ++
              ((texts'.flatMap fun m => [0x2C, 0x0A] ++ m) ++ [0x0A, 0x7D]))) := by
          rw [← h, show lit "\x7b\n" = [0x7B, 0x0A] from rfl,
            show lit ",\n" = [0x2C, 0x0A] from rfl, show lit "\n\x7d" = [0x0A, 0x7D] from rfl,
            intercalate_cons]
          simp
        rw [htext]
        exact hfirst
  exact ⟨[], [], text, [], [], by simp, .inl rfl, hnil, hphrase, hnil, .inl rfl⟩

/-- The object that a dump stands for has the strings of the map. -/
theorem lookup_dumped (j : KVString) (k : Bytes) :
    (lastOfEach (stringMembers j.toList)).lookup k = j[k]?.map Json.string := by
  rw [lookup_lastOfEach, lookup_stringMembers (nodup_keys j), lookup_toList]

/-- A dump is parsed, to an object with the same members. -/
theorem jsonParse_of_dump2 {j : KVString} {text : Bytes} (h : dump2 j = .ok text) :
    ∃ kvs, jsonParse text = .ok (.object kvs) ∧ ∀ k, kvs.lookup k = j[k]?.map Json.string :=
  ⟨_, jsonParse_of_document (document_of_dump2 h), lookup_dumped j⟩

/-- **What is written is read back.** An object of strings is written and parsed to an object with
the same members exactly when its names and values are well-formed UTF-8. -/
theorem dump2_reads_back_iff (j : KVString) :
    (∃ text kvs, dump2 j = .ok text ∧ jsonParse text = .ok (.object kvs) ∧
      ∀ k, kvs.lookup k = j[k]?.map Json.string) ↔
    ∀ k v, j[k]? = some v → Utf8 k ∧ Utf8 v := by
  constructor
  · rintro ⟨text, -, hdump, -⟩
    exact (dump2_isOk_iff j).mp ⟨text, hdump⟩
  · intro h
    obtain ⟨text, hdump⟩ := (dump2_isOk_iff j).mpr h
    obtain ⟨kvs, hparse, hlookup⟩ := jsonParse_of_dump2 hdump
    exact ⟨text, kvs, hdump, hparse, hlookup⟩

end ASky
