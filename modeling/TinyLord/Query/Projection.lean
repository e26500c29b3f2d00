import TinyLord.Query.Endpoint

/-!
# Projection

A projection keeps the part of a document that lies under the listed paths. The part is defined on
the document here, with no insertion, and the loop of the endpoint builds it path by path.
-/

open Lib Lib.SortedMap

namespace TinyLord.QueryEp

/-! ## Documents -/

mutual

/-- The keys of every object rise, as those of a `BTreeMap` do. -/
def risingJson : Json → Prop
  | .array items => risingItems items
  | .object fields => Rising fields ∧ risingFields fields
  | _ => True

def risingItems : List Json → Prop
  | [] => True
  | v :: vs => risingJson v ∧ risingItems vs

def risingFields : List (String × Json) → Prop
  | [] => True
  | (_, v) :: fields => risingJson v ∧ risingFields fields

end

/-- An object document. -/
structure Document where
  fields : List (String × Json)
  rising : risingJson (.object fields)

def Document.json (d : Document) : Json := .object d.fields

/-! ## The part under some paths -/

/-- What is left of the paths through the field `k`. -/
def tails (k : String) (paths : List (List String)) : List (List String) :=
  paths.filterMap fun p =>
    match p with
    | [] => none
    | s :: q => if s = k then some q else none

mutual

/-- The part of a value under the paths, all of which are present in it. -/
def part (paths : List (List String)) : Json → Json
  | .object fields => if [] ∈ paths then .object fields else .object (partFields paths fields)
  | v => v

def partFields (paths : List (List String)) : List (String × Json) → List (String × Json)
  | [] => []
  | (k, v) :: fields =>
    if tails k paths = [] then partFields paths fields
    else (k, part (tails k paths) v) :: partFields paths fields

end

variable {paths paths' : List (List String)} {fields out : List (String × Json)} {v w : Json}
  {k s : String} {p q segs : List String}

theorem mem_tails : q ∈ tails k paths ↔ k :: q ∈ paths := by
  unfold tails
  rw [List.mem_filterMap]
  constructor
  · rintro ⟨p, hp, hq⟩
    cases p with
    | nil => contradiction
    | cons s r =>
      simp only [Option.ite_none_right_eq_some, Option.some.injEq] at hq
      obtain ⟨rfl, rfl⟩ := hq
      exact hp
  · intro h
    exact ⟨k :: q, h, by simp⟩

theorem tails_concat : tails k (paths ++ [s :: q]) =
    if s = k then tails k paths ++ [q] else tails k paths := by
  unfold tails
  rw [List.filterMap_append]
  by_cases h : s = k
  · simp [h]
  · simp [h]

@[simp] theorem tails_nil : tails k [] = [] := rfl

theorem part_of_mem (h : [] ∈ paths) (v : Json) : part paths v = v := by
  cases v with
  | object fields => rw [part, if_pos h]
  | _ => rw [part]; nofun

/-- What a field becomes in the part. -/
def pick (paths : List (List String)) (k : String) (v : Json) : Option Json :=
  if tails k paths = [] then none else some (part (tails k paths) v)

theorem partFields_eq (paths : List (List String)) (fields : List (String × Json)) :
    partFields paths fields = restrict (pick paths) fields := by
  induction fields with
  | nil => rw [partFields]; rfl
  | cons x fields ih =>
    obtain ⟨k, v⟩ := x
    rw [partFields, restrict_cons, pick, ih]
    split <;> rfl

theorem partFields_none (fields : List (String × Json)) : partFields [] fields = [] := by
  induction fields with
  | nil => rw [partFields]
  | cons x fields ih => rw [partFields, if_pos tails_nil, ih]

theorem get_partFields (h : Rising fields) :
    get k (partFields paths fields) = (get k fields).bind (pick paths k) := by
  rw [partFields_eq, get_restrict h]

theorem rising_partFields (h : Rising fields) : Rising (partFields paths fields) := by
  rw [partFields_eq]
  exact rising_restrict h

/-! ## The insertions of the endpoint -/

theorem get_object (k : String) (fields : List (String × Json)) :
    (Json.object fields).get k = get k fields := by
  unfold Json.get SortedMap.get
  simp only [beq_eq_decide]

theorem lookup_cons (v : Json) : lookup v (s :: segs) = (v.get s).bind fun w => lookup w segs := rfl

theorem risingFields_get (h : risingFields fields) (hv : get k fields = some v) : risingJson v := by
  induction fields with
  | nil => contradiction
  | cons x fields ih =>
    obtain ⟨l, w⟩ := x
    rw [risingFields] at h
    rw [get_cons] at hv
    split at hv
    · cases hv
      exact h.1
    · exact ih h.2 hv

theorem rising_object (h : risingJson (.object fields)) : Rising fields ∧ risingFields fields := by
  rwa [risingJson] at h

theorem insert_part (h : Rising fields) (hw : get s fields = some w) :
    SortedMap.insert s (part (tails s paths ++ [q]) w) (partFields paths fields) =
      partFields (paths ++ [s :: q]) fields := by
  refine SortedMap.ext (rising_insert (rising_partFields h)) (rising_partFields h) ?_
  intro k
  rw [get_insert, get_partFields h, get_partFields h]
  unfold pick
  rw [tails_concat]
  by_cases hk : s = k
  · subst hk
    rw [if_pos rfl, if_pos rfl, hw, Option.bind_some, if_neg (by simp)]
  · rw [if_neg hk, if_neg hk]

theorem lookup_object (h : lookup (.object fields) (s :: segs) = some v) :
    ∃ w, get s fields = some w ∧ lookup w segs = some v := by
  rw [lookup_cons, get_object] at h
  exact Option.bind_eq_some_iff.mp h

theorem object_of_lookup (h : lookup w (s :: segs) = some v) : ∃ fields, w = .object fields := by
  cases w with
  | object fields => exact ⟨fields, rfl⟩
  | _ => contradiction

theorem insertNested_cons (hsegs : segs ≠ []) (v : Json) (s : String)
    (out : List (String × Json)) : insertNested v (s :: segs) out =
      match get s out with
      | none => SortedMap.insert s (.object (insertNested v segs [])) out
      | some (.object map) => SortedMap.insert s (.object (insertNested v segs map)) out
      | some _ => out := by
  cases segs with
  | nil => exact absurd rfl hsegs
  | cons t segs =>
    rw [← get_object]
    exact insertNested.eq_3 v out s (t :: segs) hsegs

theorem insertNested_self (hsegs : segs ≠ []) (hrising : risingJson (.object fields))
    (hv : lookup (.object fields) segs = some v) : insertNested v segs fields = fields := by
  induction segs generalizing fields with
  | nil => exact absurd rfl hsegs
  | cons s segs ih =>
    obtain ⟨h, hfields⟩ := rising_object hrising
    obtain ⟨w, hw, hv⟩ := lookup_object hv
    cases segs with
    | nil =>
      cases hv
      rw [insertNested, insert_self h hw]
    | cons t segs =>
      obtain ⟨map, rfl⟩ := object_of_lookup hv
      rw [insertNested_cons (List.cons_ne_nil t segs), hw]
      simp only
      rw [ih (List.cons_ne_nil t segs) (risingFields_get hfields hw) hv, insert_self h hw]

theorem insertNested_part (hsegs : segs ≠ []) (hrising : risingJson (.object fields))
    (hv : lookup (.object fields) segs = some v) :
    insertNested v segs (partFields paths fields) = partFields (paths ++ [segs]) fields := by
  induction segs generalizing fields paths with
  | nil => exact absurd rfl hsegs
  | cons s segs ih =>
    obtain ⟨h, hfields⟩ := rising_object hrising
    obtain ⟨w, hw, hv⟩ := lookup_object hv
    cases segs with
    | nil =>
      cases hv
      rw [insertNested, ← insert_part h hw, part_of_mem (by simp)]
    | cons t segs =>
      have hne : t :: segs ≠ [] := List.cons_ne_nil t segs
      obtain ⟨sub, rfl⟩ := object_of_lookup hv
      have hsub := risingFields_get hfields hw
      rw [insertNested_cons hne, get_partFields h, hw, Option.bind_some, ← insert_part h hw]
      unfold pick
      by_cases htails : tails s paths = []
      · have hnew : insertNested v (t :: segs) (partFields [] sub) =
            partFields ([] ++ [t :: segs]) sub := ih hne hsub hv
        rw [partFields_none] at hnew
        rw [if_pos htails]
        simp only
        rw [hnew, htails, List.nil_append, part, if_neg (by simp)]
      · rw [if_neg htails]
        by_cases hwhole : [] ∈ tails s paths
        · rw [part_of_mem hwhole, part_of_mem (List.mem_append_left _ hwhole)]
          simp only
          rw [insertNested_self hne hsub hv]
        · rw [part, if_neg hwhole]
          simp only
          rw [ih hne hsub hv, part, if_neg (by simp [hwhole])]

/-- The paths that name something in the document. -/
def present (d : Json) (ps : List String) : List (List String) :=
  (ps.map segments).filter fun segs => !segs.any String.isEmpty && (lookup d segs).isSome

theorem mem_present {d : Json} {ps : List String} : segs ∈ present d ps ↔
    ∃ p ∈ ps, segments p = segs ∧ segs.any String.isEmpty = false ∧ (lookup d segs).isSome := by
  unfold present
  rw [List.mem_filter, List.mem_map, Bool.and_eq_true, Bool.not_eq_true']
  constructor
  · rintro ⟨⟨p, hp, rfl⟩, hok⟩
    exact ⟨p, hp, rfl, hok⟩
  · rintro ⟨p, hp, rfl, hok⟩
    exact ⟨⟨p, hp, rfl⟩, hok⟩

theorem segments_ne_nil (p : String) : segments p ≠ [] := by
  unfold segments
  rw [ne_eq, List.map_eq_nil_iff]
  exact List.splitOn_ne_nil _ _

/-- The endpoint builds the part of the document under the listed paths that are present in it. -/
theorem applyProjection_eq (h : risingJson (.object fields)) (ps : List String) :
    applyProjection (.object fields) ps =
      .object (partFields (present (.object fields) ps) fields) := by
  -- the loop has built the part under the paths it has gone through
  rw [applyProjection, ← partFields_none fields, ← List.nil_append (present (.object fields) ps)]
  refine congrArg Json.object ?_
  generalize ([] : List (List String)) = paths
  induction ps generalizing paths with
  | nil =>
    rw [present, List.map_nil, List.filter_nil, List.append_nil]
    rfl
  | cons p ps ih =>
    rw [List.foldl_cons, present, List.map_cons, List.filter_cons, ← present]
    by_cases hempty : (segments p).any String.isEmpty = true
    · rw [if_pos hempty, hempty]
      exact ih paths
    · rw [if_neg hempty, Bool.eq_false_of_not_eq_true hempty]
      cases hv : lookup (.object fields) (segments p) with
      | none => exact ih paths
      | some v =>
        simp only
        rw [insertNested_part (segments_ne_nil p) h hv, ih]
        simp

/-! ## Lookups in the part -/

theorem lookup_nil (v : Json) : lookup v [] = some v := rfl

theorem part_object (h : [] ∉ paths) (fields : List (String × Json)) :
    part paths (.object fields) = .object (partFields paths fields) := by
  rw [part, if_neg h]

theorem lookup_part (hrising : risingJson w) (hp : p ∈ paths) (hv : lookup w p = some v) :
    lookup (part paths w) p = some v := by
  induction p generalizing paths w with
  | nil => rw [part_of_mem hp, hv]
  | cons s p ih =>
    obtain ⟨fields, rfl⟩ := object_of_lookup hv
    by_cases hwhole : [] ∈ paths
    · rw [part_of_mem hwhole, hv]
    · obtain ⟨h, hfields⟩ := rising_object hrising
      obtain ⟨u, hu, hv⟩ := lookup_object hv
      have htail : p ∈ tails s paths := mem_tails.mpr hp
      rw [part_object hwhole, lookup_cons, get_object, get_partFields h, hu, Option.bind_some, pick,
        if_neg (List.ne_nil_of_mem htail), Option.bind_some]
      exact ih (risingFields_get hfields hu) htail hv

/-- What is in the part is under a listed path, with the value it has in the whole, or an object on
the way to a listed path. -/
theorem lookup_part_cases (hrising : risingJson w) (hne : paths ≠ [])
    (hpresent : ∀ q ∈ paths, (lookup w q).isSome) (h : lookup (part paths w) p = some v) :
    (∃ q ∈ paths, q <+: p ∧ lookup w p = some v) ∨
      ∃ q ∈ paths, p <+: q ∧ (lookup w p).isSome ∧ ∃ fields, v = .object fields := by
  induction p generalizing paths w with
  | nil =>
    by_cases hwhole : [] ∈ paths
    · rw [part_of_mem hwhole] at h
      exact Or.inl ⟨[], hwhole, List.nil_prefix, h⟩
    · obtain ⟨q, hq⟩ := List.exists_mem_of_ne_nil paths hne
      refine Or.inr ⟨q, hq, List.nil_prefix, rfl, ?_⟩
      cases q with
      | nil => exact absurd hq hwhole
      | cons s q =>
        obtain ⟨u, hu⟩ := Option.isSome_iff_exists.mp (hpresent _ hq)
        obtain ⟨fields, rfl⟩ := object_of_lookup hu
        rw [part_object hwhole, lookup_nil, Option.some.injEq] at h
        exact ⟨_, h.symm⟩
  | cons s p ih =>
    by_cases hwhole : [] ∈ paths
    · rw [part_of_mem hwhole] at h
      exact Or.inl ⟨[], hwhole, List.nil_prefix, h⟩
    · cases w with
      | object fields =>
        obtain ⟨hrise, hfields⟩ := rising_object hrising
        rw [part_object hwhole, lookup_cons, get_object, get_partFields hrise] at h
        obtain ⟨u, hu, hv⟩ := Option.bind_eq_some_iff.mp h
        obtain ⟨x, hx, hpick⟩ := Option.bind_eq_some_iff.mp hu
        unfold pick at hpick
        split at hpick
        · contradiction
        · next htails =>
          cases hpick
          have hsub : ∀ q ∈ tails s paths, (lookup x q).isSome := by
            intro q hq
            have hlook := hpresent (s :: q) (mem_tails.mp hq)
            rwa [lookup_cons, get_object, hx, Option.bind_some] at hlook
          have hwhole : ∀ r, lookup (.object fields) (s :: r) = lookup x r := by
            intro r
            rw [lookup_cons, get_object, hx, Option.bind_some]
          rcases ih (risingFields_get hfields hx) htails hsub hv with
            ⟨q, hq, hprefix, heq⟩ | ⟨q, hq, hprefix, hsome, hobject⟩
          · exact Or.inl ⟨s :: q, mem_tails.mp hq, List.cons_prefix_cons.mpr ⟨rfl, hprefix⟩,
              by rw [hwhole, heq]⟩
          · exact Or.inr ⟨s :: q, mem_tails.mp hq, List.cons_prefix_cons.mpr ⟨rfl, hprefix⟩,
              by rwa [hwhole], hobject⟩
      | _ => contradiction

/-! ## Only the set of paths counts -/

theorem tails_congr (h : ∀ q, q ∈ paths ↔ q ∈ paths') (k : String) :
    (∀ q, q ∈ tails k paths ↔ q ∈ tails k paths') ∧ (tails k paths = [] ↔ tails k paths' = []) := by
  have hmem : ∀ q, q ∈ tails k paths ↔ q ∈ tails k paths' := by
    intro q
    rw [mem_tails, mem_tails, h]
  refine ⟨hmem, ?_⟩
  simp only [List.eq_nil_iff_forall_not_mem, hmem]

mutual

theorem part_congr (v : Json) (paths paths' : List (List String))
    (h : ∀ q, q ∈ paths ↔ q ∈ paths') : part paths v = part paths' v := by
  cases v with
  | object fields =>
    rw [part, part, partFields_congr fields paths paths' h]
    simp only [h []]
  | _ => simp only [part]

theorem partFields_congr (fields : List (String × Json)) (paths paths' : List (List String))
    (h : ∀ q, q ∈ paths ↔ q ∈ paths') : partFields paths fields = partFields paths' fields := by
  cases fields with
  | nil => simp only [partFields]
  | cons x fields =>
    obtain ⟨k, v⟩ := x
    obtain ⟨hmem, hnil⟩ := tails_congr h k
    rw [partFields, partFields, partFields_congr fields paths paths' h,
      part_congr v (tails k paths) (tails k paths') hmem]
    simp only [hnil]

end

/-! ## The part of a part -/

mutual

theorem part_part (v : Json) (paths : List (List String)) :
    part paths (part paths v) = part paths v := by
  cases v with
  | object fields =>
    by_cases hwhole : [] ∈ paths
    · rw [part_of_mem hwhole]
    · rw [part_object hwhole, part_object hwhole, partFields_partFields fields paths]
  | _ => simp only [part]

theorem partFields_partFields (fields : List (String × Json)) (paths : List (List String)) :
    partFields paths (partFields paths fields) = partFields paths fields := by
  cases fields with
  | nil => simp only [partFields]
  | cons x fields =>
    obtain ⟨k, v⟩ := x
    rw [partFields]
    split
    · exact partFields_partFields fields paths
    · next htails =>
      rw [partFields, if_neg htails, part_part v (tails k paths),
        partFields_partFields fields paths]

end

mutual

theorem rising_part (v : Json) (paths : List (List String)) (h : risingJson v) :
    risingJson (part paths v) := by
  cases v with
  | object fields =>
    obtain ⟨hrise, hfields⟩ := rising_object h
    rw [part]
    split
    · exact h
    · rw [risingJson]
      exact ⟨rising_partFields hrise, risingFields_part fields paths hfields⟩
  | _ => simpa only [part] using h

theorem risingFields_part (fields : List (String × Json)) (paths : List (List String))
    (h : risingFields fields) : risingFields (partFields paths fields) := by
  cases fields with
  | nil => simpa only [partFields] using h
  | cons x fields =>
    obtain ⟨k, v⟩ := x
    rw [risingFields] at h
    rw [partFields]
    split
    · exact risingFields_part fields paths h.2
    · rw [risingFields]
      exact ⟨rising_part v (tails k paths) h.1, risingFields_part fields paths h.2⟩

end

/-! ## The result -/

/-- The path names something, and has no empty segment. -/
def Names (d : Json) (p : String) : Prop :=
  (segments p).any String.isEmpty = false ∧ (lookup d (segments p)).isSome

theorem mem_present_iff {d : Json} {ps : List String} : q ∈ present d ps ↔
    ∃ p ∈ ps, Names d p ∧ segments p = q := by
  rw [mem_present]
  constructor
  · rintro ⟨p, hp, rfl, hok⟩
    exact ⟨p, hp, hok, rfl⟩
  · rintro ⟨p, hp, hok, rfl⟩
    exact ⟨p, hp, rfl, hok⟩

theorem nil_not_mem_present {d : Json} {ps : List String} : [] ∉ present d ps := by
  rw [mem_present]
  rintro ⟨p, -, hp, -⟩
  exact segments_ne_nil p hp

theorem projection_part (d : Document) (ps : List String) :
    applyProjection d.json ps = part (present d.json ps) d.json :=
  (applyProjection_eq d.rising ps).trans (part_object nil_not_mem_present d.fields).symm

theorem projection_cases {d : Document} {ps : List String} (hq : q ≠ [])
    (h : lookup (applyProjection d.json ps) q = some v) :
    (∃ p ∈ ps, Names d.json p ∧ segments p <+: q ∧ lookup d.json q = some v) ∨
      ∃ p ∈ ps, Names d.json p ∧ q <+: segments p ∧ (lookup d.json q).isSome ∧
        ∃ fields, v = .object fields := by
  rw [projection_part] at h
  by_cases hne : present d.json ps = []
  · rw [hne, Document.json, part_object List.not_mem_nil, partFields_none] at h
    obtain ⟨s, segs, rfl⟩ := List.exists_cons_of_ne_nil hq
    contradiction
  · have hpresent : ∀ q ∈ present d.json ps, (lookup d.json q).isSome := by
      intro q hq
      obtain ⟨p, -, hok, rfl⟩ := mem_present_iff.mp hq
      exact hok.2
    rcases lookup_part_cases d.rising hne hpresent h with
      ⟨r, hr, hprefix, heq⟩ | ⟨r, hr, hprefix, hsome, hobject⟩
    · obtain ⟨p, hp, hok, rfl⟩ := mem_present_iff.mp hr
      exact Or.inl ⟨p, hp, hok, hprefix, heq⟩
    · obtain ⟨p, hp, hok, rfl⟩ := mem_present_iff.mp hr
      exact Or.inr ⟨p, hp, hok, hprefix, hsome, hobject⟩

theorem lookup_projection {d : Document} {ps : List String} (hp : k ∈ ps)
    (hok : (segments k).any String.isEmpty = false) :
    lookup (applyProjection d.json ps) (segments k) = lookup d.json (segments k) := by
  cases hv : lookup d.json (segments k) with
  | some v =>
    rw [projection_part]
    exact lookup_part d.rising (mem_present_iff.mpr ⟨k, hp, ⟨hok, by rw [hv]; rfl⟩, rfl⟩) hv
  | none =>
    cases hw : lookup (applyProjection d.json ps) (segments k) with
    | none => rfl
    | some w =>
      rcases projection_cases (segments_ne_nil k) hw with ⟨_, _, _, _, heq⟩ | ⟨_, _, _, _, hsome, _⟩
      · rw [hv] at heq
        contradiction
      · rw [hv] at hsome
        contradiction

/-- The result of a projection is a document again. -/
def project (d : Document) (ps : List String) : Document where
  fields := partFields (present d.json ps) d.fields
  rising := by
    have h := rising_part d.json (present d.json ps) d.rising
    rwa [Document.json, part_object nil_not_mem_present] at h

theorem project_json (d : Document) (ps : List String) :
    (project d ps).json = applyProjection d.json ps :=
  (applyProjection_eq d.rising ps).symm

theorem present_project (d : Document) (ps : List String) :
    present (project d ps).json ps = present d.json ps := by
  unfold present
  refine List.filter_congr ?_
  intro segs hsegs
  obtain ⟨p, hp, rfl⟩ := List.mem_map.mp hsegs
  cases hok : (segments p).any String.isEmpty with
  | true => rfl
  | false => rw [project_json, lookup_projection hp hok]

theorem projection_projection (d : Document) (ps : List String) :
    applyProjection (applyProjection d.json ps) ps = applyProjection d.json ps := by
  rw [← project_json, projection_part, present_project, project_json, projection_part, part_part]

theorem projection_congr (d : Document) {ps ps' : List String} (h : ∀ p, p ∈ ps ↔ p ∈ ps') :
    applyProjection d.json ps = applyProjection d.json ps' := by
  rw [projection_part, projection_part]
  refine part_congr d.json _ _ ?_
  intro q
  simp only [mem_present_iff, h]

/-- A projection has the listed paths as the document has them, and nothing else but the objects on
the way to them; it depends on the set of the paths alone; and a second one changes nothing. -/
theorem projection_exact (d : Document) (ps : List String) :
    (∀ p ∈ ps, (segments p).any String.isEmpty = false →
      lookup (applyProjection d.json ps) (segments p) = lookup d.json (segments p)) ∧
    (∀ q v, q ≠ [] → lookup (applyProjection d.json ps) q = some v →
      (∃ p ∈ ps, Names d.json p ∧ segments p <+: q ∧ lookup d.json q = some v) ∨
      ∃ p ∈ ps, Names d.json p ∧ q <+: segments p ∧ ∃ fields, v = .object fields) ∧
    (∀ ps', (∀ p, p ∈ ps ↔ p ∈ ps') → applyProjection d.json ps = applyProjection d.json ps') ∧
    applyProjection (applyProjection d.json ps) ps = applyProjection d.json ps := by
  refine ⟨fun p hp hok => lookup_projection hp hok, ?_, fun ps' h => projection_congr d h,
    projection_projection d ps⟩
  intro q v hq h
  rcases projection_cases hq h with hlisted | ⟨p, hp, hok, hprefix, -, hobject⟩
  · exact Or.inl hlisted
  · exact Or.inr ⟨p, hp, hok, hprefix, hobject⟩

def placeDoc : Document where
  fields := [("a", .object [("b", .bool true), ("c", .null)]), ("d", .array [.null])]
  rising := by
    simp only [risingJson, risingFields, risingItems, Rising]
    decide

theorem projection_exact_place :
    lookup (applyProjection placeDoc.json ["a.b", "a", "d.x"]) ["a", "c"] = some .null ∧
    lookup (applyProjection placeDoc.json ["a.b", "a", "d.x"]) (segments "d.x") =
      lookup placeDoc.json (segments "d.x") ∧
    applyProjection placeDoc.json ["a.b", "a", "d.x"] =
      applyProjection placeDoc.json ["a", "d.x", "a.b", "a"] := by
  have h := projection_exact placeDoc ["a.b", "a", "d.x"]
  exact ⟨rfl, h.1 "d.x" (by simp) (by decide), h.2.2.1 _ (by simp; tauto)⟩

end TinyLord.QueryEp
