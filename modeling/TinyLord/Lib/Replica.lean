import TinyLord.Lib.Sequence

/-!
# A copy that follows a log of changes

Each change has a number and a key, and the value that it leaves the key with. A copy holds values
that were read at some time, and the changes it was told of since. It may be told of only some of
the changes.
-/

open Lib.Sequence

namespace Lib.Replica

variable {ε κ ν : Type*} [DecidableEq κ] {key : ε → κ} {seq : ε → Int} {value : ε → Option ν}
  {told : ε → Prop} {all seen evs new : List ε} {b last : Int} {k : κ} {v : Option ν} {e : ε}

/-! ## The latest change of a key -/

def latest (key : ε → κ) (k : κ) (evs : List ε) : Option ε :=
  (evs.filter fun e => key e = k).getLast?

/-- What the changes have left the key with. -/
def state (key : ε → κ) (value : ε → Option ν) (evs : List ε) (k : κ) : Option ν :=
  (latest key k evs).bind value

theorem latest_append (evs new : List ε) :
    latest key k (evs ++ new) = (latest key k new).or (latest key k evs) := by
  rw [latest, List.filter_append, List.getLast?_append]
  rfl

theorem latest_singleton (e : ε) : latest key k [e] = if key e = k then some e else none := by
  by_cases h : key e = k <;> simp [latest, h]

theorem latest_mem (h : latest key k evs = some e) : e ∈ evs ∧ key e = k := by
  simpa using List.mem_filter.mp (List.mem_of_getLast? h)

theorem latest_none : latest key k evs = none ↔ ∀ e ∈ evs, key e ≠ k := by
  simp [latest]

theorem state_concat (evs : List ε) (e : ε) :
    state key value (evs ++ [e]) k = if key e = k then value e else state key value evs k := by
  rw [state, latest_append, latest_singleton]
  split <;> rfl

theorem le_latest (hinc : Increasing seq evs) (h : latest key k evs = some e) {e' : ε}
    (he' : e' ∈ evs) (hkey : key e' = k) : seq e' ≤ seq e := by
  obtain ⟨before, hsplit⟩ := List.getLast?_eq_some_iff.mp h
  have hmem : e' ∈ evs.filter fun e => key e = k := List.mem_filter.mpr ⟨he', by simpa using hkey⟩
  have hfilter : Increasing seq (evs.filter fun e => key e = k) := List.Pairwise.filter _ hinc
  rw [hsplit, Increasing, List.pairwise_append] at hfilter
  rw [hsplit, List.mem_append, List.mem_singleton] at hmem
  rcases hmem with hmem | rfl
  · exact (hfilter.2.2 e' hmem e (List.mem_singleton_self e)).le
  · exact le_refl _

theorem latest_of_mem (hall : Increasing seq all) (hseen : Increasing seq seen) (hsub : seen ⊆ all)
    (h : latest key k all = some e) (he : e ∈ seen) : latest key k seen = some e := by
  obtain ⟨-, hkey⟩ := latest_mem h
  cases hlatest : latest key k seen with
  | none => exact absurd hkey (latest_none.mp hlatest e he)
  | some e' =>
    obtain ⟨he', hkey'⟩ := latest_mem hlatest
    have hle := le_latest hseen hlatest he hkey
    have hge := le_latest hall h (hsub he') hkey'
    rw [hall.eq_of_key (hsub he') (hsub he) (le_antisymm hge hle)]

/-! ## Values that are current up to a number -/

/-- The value is right if the latest change of the key has a number up to `b` and is one the copy is
told of. -/
structure Known (key : ε → κ) (seq : ε → Int) (value : ε → Option ν) (told : ε → Prop)
    (all : List ε) (b : Int) (k : κ) (v : Option ν) : Prop where
  current : ∀ e, latest key k all = some e → told e → seq e ≤ b → v = value e
  untouched : latest key k all = none → v = none

theorem known_state (b : Int) : Known key seq value told all b k (state key value all k) where
  current e he _ _ := by rw [state, he, Option.bind_some]
  untouched h := by rw [state, h, Option.bind_none]

theorem Known.grow (h : Known key seq value told all b k v) (hnew : ∀ e ∈ new, b < seq e) :
    Known key seq value told (all ++ new) b k v where
  current e he ht hseq := by
    rw [latest_append] at he
    cases hlatest : latest key k new with
    | none =>
      rw [hlatest, Option.none_or] at he
      exact h.current e he ht hseq
    | some e' =>
      rw [hlatest, Option.some_or, Option.some.injEq] at he
      have hlt := hnew e (he ▸ (latest_mem hlatest).1)
      exact absurd hseq (not_le.mpr hlt)
  untouched hnone := by
    rw [latest_append, Option.or_eq_none_iff] at hnone
    exact h.untouched hnone.2

theorem Known.eq_state (h : Known key seq value told all b k v)
    (hlatest : ∀ e, latest key k all = some e → told e ∧ seq e ≤ b) :
    v = state key value all k := by
  cases he : latest key k all with
  | none => rw [state, he, h.untouched he, Option.bind_none]
  | some e =>
    obtain ⟨ht, hseq⟩ := hlatest e he
    rw [state, he, Option.bind_some, h.current e he ht hseq]

/-! ## The copy -/

/-- A change beats what was read. -/
def copy (key : ε → κ) (value : ε → Option ν) (read : Option (Option ν)) (seen : List ε) (k : κ) :
    Option (Option ν) :=
  match latest key k seen with
  | some e => some (value e)
  | none => read

/-- What was read is current up to `b`, and the copy has seen what it is told of from `b` to `last`.
Then the copy is current up to `last`. -/
theorem known_copy {read : Option (Option ν)} (hall : Increasing seq all)
    (hseen : Increasing seq seen) (hsub : seen ⊆ all) (hafter : ∀ e ∈ seen, b < seq e)
    (hcover : ∀ e ∈ all, told e → b < seq e → seq e ≤ last → e ∈ seen)
    (hread : ∀ v, read = some v → Known key seq value told all b k v)
    (h : copy key value read seen k = some v) : Known key seq value told all last k v where
  current e he ht hseq := by
    obtain ⟨hmem, hkey⟩ := latest_mem he
    by_cases hb : b < seq e
    · have hlatest := latest_of_mem hall hseen hsub he (hcover e hmem ht hb hseq)
      rw [copy, hlatest] at h
      exact (Option.some.inj h).symm
    · have hnone : latest key k seen = none := by
        rw [latest_none]
        intro e' he' hkey'
        have hle := le_latest hall he (hsub he') hkey'
        have hlt := hafter e' he'
        omega
      rw [copy, hnone] at h
      exact (hread v h).current e he ht (not_lt.mp hb)
  untouched hnone := by
    have hseen : latest key k seen = none :=
      latest_none.mpr fun e he => latest_none.mp hnone e (hsub he)
    rw [copy, hseen] at h
    exact (hread v h).untouched hnone

end Lib.Replica
