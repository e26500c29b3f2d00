import Mathlib.Data.Set.Card

/-!
# Paging by key

A client reads a set a page at a time. Each page starts after the last key of the one before, and
a page that names no key to go on from is the last one. The set may change between the pages.
-/

namespace Lib.Paging

variable {κ α : Type*}

/-- The pages up to the last one. `ask n` answers the request for page `n`. -/
def follow (ask : ℕ → Option κ → Option (α × Option κ)) : ℕ → ℕ → Option κ → Option (List α)
  | 0, _, _ => none
  | fuel + 1, n, cursor =>
    match ask n cursor with
    | none => none
    | some (page, none) => some [page]
    | some (page, some c) => (follow ask fuel (n + 1) (some c)).map (page :: ·)

variable {ask : ℕ → Option κ → Option (α × Option κ)} {fuel n : ℕ} {cursor : Option κ}
  {pages : List α}

theorem follow_mono (h : follow ask fuel n cursor = some pages) {fuel' : ℕ} (hle : fuel ≤ fuel') :
    follow ask fuel' n cursor = some pages := by
  induction fuel generalizing n cursor pages fuel' with
  | zero => cases h
  | succ fuel ih =>
    obtain ⟨f, rfl⟩ : ∃ f, fuel' = f + 1 := ⟨fuel' - 1, by omega⟩
    rw [follow] at h ⊢
    split at h
    · cases h
    · exact h
    · next page c hask =>
      obtain ⟨rest, hrest, rfl⟩ := Option.map_eq_some_iff.mp h
      rw [ih hrest (by omega)]
      rfl

/-! ## Pages -/

variable [LinearOrder κ]

def After (cursor : Option κ) (k : κ) : Prop := ∀ c ∈ cursor, c < k

/-- The first keys after the cursor, up to the key to go on from, or all of them. -/
structure IsPage (present : Set κ) (cursor : Option κ) (keys : List κ) (next : Option κ) :
    Prop where
  increasing : keys.Pairwise (· < ·)
  sound : ∀ k ∈ keys, k ∈ present ∧ After cursor k
  last : ∀ c ∈ next, c ∈ keys ∧ ∀ k ∈ keys, k ≤ c
  complete : ∀ k ∈ present, After cursor k → (∀ c ∈ next, k ≤ c) → k ∈ keys

/-- Page `n` is one of the set `present n`. -/
def Serves (ask : ℕ → Option κ → Option (α × Option κ)) (keys : α → List κ)
    (present : ℕ → Set κ) : Prop :=
  ∀ n cursor, ∃ page next, ask n cursor = some (page, next) ∧
    IsPage (present n) cursor (keys page) next

variable {keys : α → List κ} {present : ℕ → Set κ} {N : ℕ} {k : κ}

theorem follow_cases (hserves : Serves ask keys present)
    (h : follow ask fuel n cursor = some pages) :
    ∃ f page next, fuel = f + 1 ∧ IsPage (present n) cursor (keys page) next ∧
      ((next = none ∧ pages = [page]) ∨
        ∃ c rest, next = some c ∧ follow ask f (n + 1) (some c) = some rest ∧
          pages = page :: rest) := by
  cases fuel with
  | zero => cases h
  | succ f =>
    obtain ⟨page, next, hask, hpage⟩ := hserves n cursor
    refine ⟨f, page, next, rfl, hpage, ?_⟩
    simp only [follow, hask] at h
    cases next with
    | none => exact Or.inl ⟨rfl, (Option.some.inj h).symm⟩
    | some c =>
      obtain ⟨rest, hrest, hpages⟩ := Option.map_eq_some_iff.mp h
      exact Or.inr ⟨c, rest, rfl, hrest, hpages.symm⟩

/-- The key to go on from after a page of at most `limit` keys: the last one, if the page is full. -/
def nextKey (limit : ℕ) (keys : List κ) : Option κ :=
  if keys.length = limit then keys.getLast? else none

theorem le_getLast {ks : List κ} {c : κ} (hks : ks.Pairwise (· < ·)) (hc : ks.getLast? = some c)
    (hk : k ∈ ks) : k ≤ c := by
  obtain ⟨init, rfl⟩ := List.getLast?_eq_some_iff.mp hc
  rcases List.mem_append.mp hk with hk | hk
  · exact ((List.pairwise_append.mp hks).2.2 k hk c (List.mem_singleton_self c)).le
  · exact (List.mem_singleton.mp hk).le

theorem isPage_take {S : Set κ} {ks : List κ} {limit : ℕ} (hlimit : 0 < limit)
    (hks : ks.Pairwise (· < ·)) (hmem : ∀ k, k ∈ ks ↔ k ∈ S ∧ After cursor k) :
    IsPage S cursor (ks.take limit) (nextKey limit (ks.take limit)) := by
  have htake : (ks.take limit).Pairwise (· < ·) := hks.sublist (List.take_sublist ..)
  refine ⟨htake, fun k hk => (hmem k).mp (List.mem_of_mem_take hk), ?_, ?_⟩
  · intro c hc
    have hlast : (ks.take limit).getLast? = some c := by
      unfold nextKey at hc
      split at hc
      · exact hc
      · cases hc
    exact ⟨List.mem_of_getLast? hlast, fun k hk => le_getLast htake hlast hk⟩
  · intro k hk hafter hle
    have hks' : k ∈ ks := (hmem k).mpr ⟨hk, hafter⟩
    rw [← List.take_append_drop limit ks, List.mem_append] at hks'
    rcases hks' with hks' | hdrop
    · exact hks'
    · -- Keys are left over, so the page is full.
      have hfull : (ks.take limit).length = limit := by
        have hpos := List.length_pos_of_mem hdrop
        rw [List.length_drop] at hpos
        rw [List.length_take]
        omega
      have hne : ks.take limit ≠ [] := List.ne_nil_of_length_pos (by omega)
      obtain ⟨c, hc⟩ : ∃ c, (ks.take limit).getLast? = some c :=
        ⟨_, List.getLast?_eq_some_getLast hne⟩
      have hnext : nextKey limit (ks.take limit) = some c := by rw [nextKey, if_pos hfull, hc]
      rw [← List.take_append_drop limit ks, List.pairwise_append] at hks
      have hlt : c < k := hks.2.2 c (List.mem_of_getLast? hc) k hdrop
      exact absurd (hle c hnext) (not_le.mpr hlt)

/-! ## What the client has in the end -/

theorem follow_increasing (hserves : Serves ask keys present)
    (h : follow ask fuel n cursor = some pages) :
    (pages.flatMap keys).Pairwise (· < ·) ∧ ∀ k ∈ pages.flatMap keys, After cursor k := by
  induction fuel generalizing n cursor pages with
  | zero => cases h
  | succ fuel ih =>
    obtain ⟨_, page, next, ⟨⟩, hpage, hmore⟩ := follow_cases hserves h
    rcases hmore with ⟨-, rfl⟩ | ⟨c, rest, rfl, hrest, rfl⟩
    · simpa using ⟨hpage.increasing, fun k hk => (hpage.sound k hk).2⟩
    · obtain ⟨hincreasing, hafter⟩ := ih hrest
      obtain ⟨hc, hle⟩ := hpage.last c rfl
      have hlt : ∀ k ∈ rest.flatMap keys, c < k := fun k hk => hafter k hk c rfl
      rw [List.flatMap_cons]
      constructor
      · rw [List.pairwise_append]
        exact ⟨hpage.increasing, hincreasing, fun a ha b hb => (hle a ha).trans_lt (hlt b hb)⟩
      · rw [List.forall_mem_append]
        refine ⟨fun k hk => (hpage.sound k hk).2, fun k hk d hd => ?_⟩
        exact ((hpage.sound c hc).2 d hd).trans (hlt k hk)

theorem follow_complete (hserves : Serves ask keys present)
    (h : follow ask fuel n cursor = some pages) (hk : ∀ i < pages.length, k ∈ present (n + i))
    (hafter : After cursor k) : k ∈ pages.flatMap keys := by
  induction fuel generalizing n cursor pages with
  | zero => cases h
  | succ fuel ih =>
    obtain ⟨_, page, next, ⟨⟩, hpage, hmore⟩ := follow_cases hserves h
    rcases hmore with ⟨rfl, rfl⟩ | ⟨c, rest, rfl, hrest, rfl⟩
    · have hmem : k ∈ keys page := hpage.complete k (hk 0 (by simp)) hafter nofun
      simpa using hmem
    · rw [List.flatMap_cons, List.mem_append]
      rcases le_or_gt k c with hle | hlt
      · left
        refine hpage.complete k (hk 0 (by simp)) hafter ?_
        rintro _ ⟨⟩
        exact hle
      · right
        refine ih hrest (fun i hi => ?_) ?_
        · have hpresent : k ∈ present (n + (i + 1)) := hk (i + 1) (by simpa using hi)
          rwa [show n + (i + 1) = n + 1 + i by omega] at hpresent
        · rintro _ ⟨⟩
          exact hlt

theorem follow_sound (hserves : Serves ask keys present)
    (h : follow ask fuel n cursor = some pages) (hk : k ∈ pages.flatMap keys) :
    ∃ i < pages.length, k ∈ present (n + i) := by
  induction fuel generalizing n cursor pages with
  | zero => cases h
  | succ fuel ih =>
    obtain ⟨_, page, next, ⟨⟩, hpage, hmore⟩ := follow_cases hserves h
    rcases hmore with ⟨-, rfl⟩ | ⟨c, rest, -, hrest, rfl⟩
    · have hmem : k ∈ keys page := by simpa using hk
      exact ⟨0, by simp, (hpage.sound k hmem).1⟩
    · rw [List.flatMap_cons, List.mem_append] at hk
      rcases hk with hk | hk
      · exact ⟨0, by simp, (hpage.sound k hk).1⟩
      · obtain ⟨i, hi, hpresent⟩ := ih hrest hk
        refine ⟨i + 1, by simpa using hi, ?_⟩
        rwa [show n + (i + 1) = n + 1 + i by omega]

/-- A set that stays the same is read as a whole. -/
theorem follow_length {S : Set κ} (hserves : Serves ask keys present)
    (hstill : ∀ n, present n = S) (h : follow ask fuel n none = some pages) :
    (pages.flatMap keys).length = S.ncard := by
  have hnodup : (pages.flatMap keys).Nodup :=
    (follow_increasing hserves h).1.imp fun hlt => hlt.ne
  have hset : S = ((pages.flatMap keys).toFinset : Set κ) := by
    ext k
    rw [List.coe_toFinset, Set.mem_ofPred_eq]
    constructor
    · intro hk
      exact follow_complete hserves h (fun i _ => hstill (n + i) ▸ hk) nofun
    · intro hk
      obtain ⟨i, -, hi⟩ := follow_sound hserves h hk
      exact hstill (n + i) ▸ hi
  rw [hset, Set.ncard_coe_finset, List.toFinset_card_of_nodup hnodup]

/-! ## The client comes to the end -/

theorem follow_still (hserves : Serves ask keys present) (hstill : ∀ n ≥ N, present n = present N)
    (hfinite : (present N).Finite) (hn : N ≤ n) : ∃ fuel pages,
      follow ask fuel n cursor = some pages := by
  generalize hm : {k ∈ present N | After cursor k}.ncard = m
  induction m using Nat.strong_induction_on generalizing n cursor with
  | _ m ih =>
    subst hm
    obtain ⟨page, next, hask, hpage⟩ := hserves n cursor
    rw [hstill n hn] at hpage
    cases next with
    | none => exact ⟨1, [page], by rw [follow, hask]⟩
    | some c =>
      obtain ⟨hpresent, hafter⟩ := hpage.sound c (hpage.last c rfl).1
      have hfewer : {k ∈ present N | After (some c) k}.ncard <
          {k ∈ present N | After cursor k}.ncard := by
        apply Set.ncard_lt_ncard _ (hfinite.subset (Set.sep_subset _ _))
        refine Set.ssubset_iff_exists.mpr ⟨?_, c, ⟨hpresent, hafter⟩, ?_⟩
        · rintro k ⟨hk, hlt⟩
          exact ⟨hk, fun d hd => (hafter d hd).trans (hlt c rfl)⟩
        · rintro ⟨-, hlt⟩
          exact lt_irrefl c (hlt c rfl)
      obtain ⟨fuel, rest, hrest⟩ := ih _ hfewer (n := n + 1) (by omega) rfl
      refine ⟨fuel + 1, page :: rest, ?_⟩
      rw [follow, hask]
      simp [hrest]

theorem follow_ends (hserves : Serves ask keys present) (hstill : ∀ n ≥ N, present n = present N)
    (hfinite : (present N).Finite) : ∃ fuel pages, follow ask fuel n cursor = some pages := by
  generalize hm : N - n = m
  induction m generalizing n cursor with
  | zero => exact follow_still hserves hstill hfinite (by omega)
  | succ m ih =>
    obtain ⟨page, next, hask, -⟩ := hserves n cursor
    cases next with
    | none => exact ⟨1, [page], by rw [follow, hask]⟩
    | some c =>
      obtain ⟨fuel, rest, hrest⟩ : ∃ fuel rest, follow ask fuel (n + 1) (some c) = some rest :=
        ih (by omega)
      refine ⟨fuel + 1, page :: rest, ?_⟩
      rw [follow, hask]
      simp [hrest]

end Lib.Paging
