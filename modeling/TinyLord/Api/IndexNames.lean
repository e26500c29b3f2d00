import Mathlib.Data.List.DropRight
import TinyLord.Db.Indexes
import TinyLord.Ids
import TinyLord.Query.Endpoint
import TinyLord.Ulid

/-!
# The names of indexes

The server makes the name of an index from the collection, the path and the end of a fresh ULID, and
then cuts it to 64 characters. The cut takes the end first, which is what makes names differ.
-/

open Lib.Positional
open TinyLord.QueryEp (toAsciiLowercase)

namespace TinyLord

/-! ## The generator -/

def trimUnderscores (cs : List Char) : List Char :=
  (cs.dropWhile (· == '_')).rdropWhile (· == '_')

def sanitize (path : String) : List Char :=
  trimUnderscores (path.toList.map fun c => if c.isAlphanum then c else '_')

/-- `&ulid[ulid.len().saturating_sub(6)..]` -/
def ulidSuffix (ulid : String) : List Char := ulid.toList.drop (ulid.toList.length - 6)

/-- `String::truncate`, for names, in which each character is one byte. -/
def truncate (n : Nat) (s : String) : String := String.ofList (s.toList.take n)

def generateIndexName (coll path ulid : String) : String :=
  let sani := String.ofList (sanitize path)
  let suffix := String.ofList (ulidSuffix ulid)
  let name := truncate 64 ("ix_" ++ coll ++ "_" ++ sani ++ "_" ++ toAsciiLowercase suffix)
  if validName name then name else truncate 64 ("ix_" ++ toAsciiLowercase ulid)

/-! ## Characters of names -/

def isNameChar (c : Char) : Bool := c.isAlphanum || c == '_'

variable {coll path path' name : String} {u u' : Ulid} {cs : List Char} {c : Char} {n : Nat}

theorem isNameChar_toNat (h : isNameChar c = true) : c.toNat < 128 := by
  rw [isNameChar, Bool.or_eq_true, beq_iff_eq] at h
  rcases h with h | rfl
  · delta Char.isAlphanum Char.isAlpha Char.isUpper Char.isLower Char.isDigit at h
    simp only [Bool.or_eq_true, Bool.and_eq_true, decide_eq_true_eq, ge_iff_le,
      UInt32.le_iff_toNat_le] at h
    have hc : c.toNat = c.val.toNat := rfl
    have hZ : 'Z'.val.toNat = 90 := rfl
    have hz : 'z'.val.toNat = 122 := rfl
    have h9 : '9'.val.toNat = 57 := rfl
    omega
  · decide

theorem utf8ByteSize_name (name : String) (h : ∀ c ∈ name.toList, isNameChar c = true) :
    name.utf8ByteSize = name.toList.length := by
  have hlen : ∀ cs : List Char, (∀ c ∈ cs, isNameChar c = true) →
      String.utf8Len cs = cs.length := by
    intro cs hcs
    induction cs with
    | nil => rfl
    | cons c cs ih =>
      obtain ⟨hc, hcs⟩ := List.forall_mem_cons.mp hcs
      have hone : c.utf8Size = 1 := by
        rw [Char.utf8Size_eq_one_iff, UInt32.le_iff_toNat_le]
        exact Nat.le_of_lt_succ (isNameChar_toNat hc)
      rw [String.utf8Len_cons, ih hcs, hone, List.length_cons]
  rw [← hlen name.toList h, ← String.utf8ByteSize_ofList, String.ofList_toList]

theorem validName_iff : validName name = true ↔ name.toList.length ≤ 64 ∧
    (∃ c ∈ name.toList.head?, c.isAlpha = true) ∧ ∀ c ∈ name.toList, isNameChar c = true := by
  have hsize := utf8ByteSize_name name
  unfold validName
  cases hcs : name.toList with
  | nil => simp
  | cons c cs =>
    have halpha : c.isAlpha = true → isNameChar c = true := fun h => by
      simp [isNameChar, Char.isAlphanum, h]
    rw [hcs] at hsize
    simp only [Bool.and_eq_true, decide_eq_true_eq, List.all_eq_true, List.head?_cons,
      Option.mem_some_iff, exists_eq_left', List.forall_mem_cons]
    constructor
    · rintro ⟨⟨hle, hc⟩, hrest⟩
      have hall : ∀ d ∈ c :: cs, isNameChar d = true := List.forall_mem_cons.mpr ⟨halpha hc, hrest⟩
      exact ⟨hsize hall ▸ hle, hc, halpha hc, hrest⟩
    · rintro ⟨hle, hc, hall⟩
      exact ⟨⟨(hsize (List.forall_mem_cons.mpr hall)).symm ▸ hle, hc⟩, hall.2⟩

/-! ## The parts of a name -/

theorem mem_sanitize (h : c ∈ sanitize path) : isNameChar c = true := by
  have hmem : c ∈ path.toList.map fun c => if c.isAlphanum then c else '_' :=
    (List.dropWhile_sublist _).subset ((List.rdropWhile_prefix _ _).subset h)
  obtain ⟨d, -, rfl⟩ := List.mem_map.mp hmem
  by_cases hd : d.isAlphanum = true
  · simp [isNameChar, hd]
  · simp [isNameChar, hd]

theorem crockford_lower : ∀ d, isNameChar (crockford d).toLower = true ∧
    (crockford d).toLower.toLower = (crockford d).toLower ∧
    (crockford d).toLower.toUpper = crockford d := by decide

theorem mem_ulidSuffix (h : c ∈ ulidSuffix u.text) : ∃ d, crockford d = c := by
  have hmem : c ∈ u.text.toList := List.mem_of_mem_drop h
  rw [Ulid.text, String.toList_ofList] at hmem
  exact mem_write hmem

theorem length_ulidSuffix : (ulidSuffix u.text).length = 6 := by
  simp [ulidSuffix, Ulid.text]

/-- The characters of a name before the cut. -/
def uncut (coll path ulid : String) : List Char :=
  'i' :: 'x' :: '_' :: (coll.toList ++ '_' :: (sanitize path ++ '_' ::
    (ulidSuffix ulid).map Char.toLower))

theorem mem_uncut (hcoll : validName coll = true) (h : c ∈ uncut coll path u.text) :
    isNameChar c = true := by
  obtain ⟨-, -, hall⟩ := validName_iff.mp hcoll
  simp only [uncut, List.mem_cons, List.mem_append, List.mem_map] at h
  obtain rfl | rfl | rfl | hc | rfl | hc | rfl | ⟨d, hd, rfl⟩ := h
  · decide
  · decide
  · decide
  · exact hall c hc
  · decide
  · exact mem_sanitize hc
  · decide
  · obtain ⟨e, rfl⟩ := mem_ulidSuffix hd
    exact (crockford_lower e).1

/-- The name is always valid, so the generator never falls back to the bare ULID. -/
theorem generateIndexName_spec (hcoll : validName coll = true) (path : String) (u : Ulid) :
    validName (generateIndexName coll path u.text) = true ∧
      (generateIndexName coll path u.text).toList = (uncut coll path u.text).take 64 := by
  have hname : ("ix_" ++ coll ++ "_" ++ String.ofList (sanitize path) ++ "_" ++
      toAsciiLowercase (String.ofList (ulidSuffix u.text))).toList = uncut coll path u.text := by
    simp [uncut, toAsciiLowercase]
  have hvalid : validName (truncate 64 ("ix_" ++ coll ++ "_" ++ String.ofList (sanitize path) ++
      "_" ++ toAsciiLowercase (String.ofList (ulidSuffix u.text)))) = true := by
    rw [validName_iff, truncate, String.toList_ofList, hname]
    refine ⟨List.length_take_le _ _, ⟨'i', rfl, by decide⟩, ?_⟩
    intro c hc
    exact mem_uncut hcoll (List.mem_of_mem_take hc)
  unfold generateIndexName
  rw [if_pos hvalid]
  exact ⟨hvalid, by rw [truncate, String.toList_ofList, hname]⟩

/-! ## Where two names differ -/

/-- What a name has behind its collection, before the cut and in lower case. -/
def nameTail (path ulid : String) : List Char :=
  (sanitize path ++ '_' :: ulidSuffix ulid).map Char.toLower

/-- Two tails differ at a place that the cut leaves. The name has four characters beside those of
the collection before it. -/
def DifferBeforeCut (coll path path' : String) (u u' : Ulid) : Prop :=
  ∃ i < 60 - coll.length, (nameTail path u.text)[i]? ≠ (nameTail path' u'.text)[i]?

/-- The part of a name up to the path, in lower case. -/
def nameHead (coll : String) : List Char :=
  'i' :: 'x' :: '_' :: (coll.toList.map Char.toLower ++ ['_'])

theorem length_nameHead : (nameHead coll).length = coll.length + 4 := by
  simp [nameHead, String.length_toList]

theorem map_toLower_uncut :
    (uncut coll path u.text).map Char.toLower = nameHead coll ++ nameTail path u.text := by
  have hlower : ((ulidSuffix u.text).map Char.toLower).map Char.toLower =
      (ulidSuffix u.text).map Char.toLower := by
    rw [List.map_map]
    apply List.map_congr_left
    intro c hc
    obtain ⟨d, rfl⟩ := mem_ulidSuffix hc
    exact (crockford_lower d).2.1
  simp only [uncut, nameHead, nameTail, List.map_cons, List.map_append, hlower]
  simp

theorem fold_generateIndexName (hcoll : validName coll = true) (path : String) (u : Ulid) :
    fold (generateIndexName coll path u.text) =
      (nameHead coll).take 64 ++ (nameTail path u.text).take (60 - coll.length) := by
  have hroom : 64 - (coll.length + 4) = 60 - coll.length := by omega
  rw [fold, (generateIndexName_spec hcoll path u).2, List.map_take, map_toLower_uncut,
    List.take_append, length_nameHead, hroom]

theorem take_ne_take {α : Type*} {k : ℕ} {xs ys : List α} :
    xs.take k ≠ ys.take k ↔ ∃ i < k, xs[i]? ≠ ys[i]? := by
  rw [ne_eq, List.ext_getElem?_iff, not_forall]
  constructor
  · rintro ⟨i, hi⟩
    by_cases hk : i < k
    · rw [List.getElem?_take_of_lt hk, List.getElem?_take_of_lt hk] at hi
      exact ⟨i, hk, hi⟩
    · rw [List.getElem?_take_eq_none (by omega), List.getElem?_take_eq_none (by omega)] at hi
      exact absurd rfl hi
  · rintro ⟨i, hk, hi⟩
    exact ⟨i, by rwa [List.getElem?_take_of_lt hk, List.getElem?_take_of_lt hk]⟩

theorem fold_ne_fold (hcoll : validName coll = true) :
    fold (generateIndexName coll path u.text) ≠ fold (generateIndexName coll path' u'.text) ↔
      DifferBeforeCut coll path path' u u' := by
  rw [fold_generateIndexName hcoll, fold_generateIndexName hcoll, ne_eq, List.append_cancel_left_eq]
  exact take_ne_take

theorem reserves_generated (hcoll : validName coll = true) (cat : Catalog) (path : String)
    (u : Ulid) : cat.reserves (generateIndexName coll path u.text) = false := by
  obtain ⟨rest, hname⟩ : ∃ rest, fold (generateIndexName coll path u.text) = 'i' :: rest :=
    ⟨_, fold_generateIndexName hcoll path u⟩
  have hprefix : "sqlite_".toList.isPrefixOf ('i' :: rest) = false := rfl
  unfold Catalog.reserves
  rw [hname, hprefix]
  simp [fold]

/-! ## Long and short collections -/

theorem length_nameTail : (nameTail path u.text).length = (sanitize path).length + 7 := by
  simp [nameTail, length_ulidSuffix]

theorem ulidSuffix_of_nameTail (path : String) (u : Ulid) :
    ((nameTail path u.text).drop ((sanitize path).length + 1)).map Char.toUpper =
      ulidSuffix u.text := by
  have hdrop : (nameTail path u.text).drop ((sanitize path).length + 1) =
      (ulidSuffix u.text).map Char.toLower := by
    have hlen : ((sanitize path).map Char.toLower).length = (sanitize path).length :=
      List.length_map _
    rw [nameTail, List.map_append, List.drop_append, hlen]
    simp
  rw [hdrop, List.map_map]
  conv_rhs => rw [← List.map_id (ulidSuffix u.text)]
  apply List.map_congr_left
  intro c hc
  obtain ⟨d, rfl⟩ := mem_ulidSuffix hc
  exact (crockford_lower d).2.2

theorem differ_of_room (hroom : coll.length + (sanitize path).length + 11 ≤ 64)
    (hroom' : coll.length + (sanitize path').length + 11 ≤ 64)
    (hlast : ulidSuffix u.text ≠ ulidSuffix u'.text) : DifferBeforeCut coll path path' u u' := by
  rw [DifferBeforeCut, ← take_ne_take, List.take_of_length_le (by rw [length_nameTail]; omega),
    List.take_of_length_le (by rw [length_nameTail]; omega)]
  intro htail
  have hlen := congrArg List.length htail
  rw [length_nameTail, length_nameTail, Nat.add_right_cancel_iff] at hlen
  apply hlast
  rw [← ulidSuffix_of_nameTail path u, htail, hlen, ulidSuffix_of_nameTail path' u']

/-- A collection of 60 characters or more leaves nothing that could differ. -/
theorem generateIndexName_long (hcoll : validName coll = true) (hlong : 60 ≤ coll.length) :
    generateIndexName coll path u.text = generateIndexName coll path' u'.text := by
  have hcut : ∀ path (u : Ulid), (uncut coll path u.text).take 64 =
      ('i' :: 'x' :: '_' :: (coll.toList ++ ['_'])).take 64 := by
    intro path u
    have hparts : uncut coll path u.text = ('i' :: 'x' :: '_' :: (coll.toList ++ ['_'])) ++
        (sanitize path ++ '_' :: (ulidSuffix u.text).map Char.toLower) := by
      simp [uncut]
    rw [hparts, List.take_append_of_le_length]
    simp [String.length_toList]
    omega
  rw [← String.toList_inj, (generateIndexName_spec hcoll path u).2,
    (generateIndexName_spec hcoll path' u').2, hcut, hcut]

/-! ## Two indexes -/

/-- Nothing is in the way of an index of that name. -/
def Catalog.hasRoomFor (cat : Catalog) (name : String) : Prop :=
  cat.reserves name = false ∧ ∀ i ∈ cat.indexes.rows, fold i.name ≠ fold name

/-- Both names are valid, they differ in any letter case, and beside the first index there is room
for the second one. -/
structure FitTogether (name name' : String) : Prop where
  valid : validName name = true
  valid' : validName name' = true
  differ : fold name ≠ fold name'
  room : ∀ cat : Catalog, (∀ i ∈ cat.indexes.rows, i.name = name) → cat.hasRoomFor name'

/-- Two names fit together exactly when their tails differ in front of the cut. -/
theorem index_names_distinct (hcoll : validName coll = true) (path path' : String) (u u' : Ulid) :
    FitTogether (generateIndexName coll path u.text) (generateIndexName coll path' u'.text) ↔
      DifferBeforeCut coll path path' u u' := by
  rw [← fold_ne_fold hcoll]
  constructor
  · exact FitTogether.differ
  · intro hne
    refine ⟨(generateIndexName_spec hcoll path u).1, (generateIndexName_spec hcoll path' u').1, hne,
      ?_⟩
    intro cat hcat
    refine ⟨reserves_generated hcoll cat path' u', ?_⟩
    intro i hi
    rw [hcat i hi]
    exact hne

/-- 60 characters, a name that is accepted. -/
def longColl : String := String.ofList (List.replicate 60 'a')

def firstUlid : Ulid := { time := 1, random := 0 }

def secondUlid : Ulid := { time := 1, random := 1 }

/-- With a collection of 60 characters two paths and two ULIDs give one name. The second index is
refused, and the client is told of an internal error. -/
theorem second_index_refused :
    let name := generateIndexName longColl "$.a" firstUlid.text
    let name' := generateIndexName longColl "$.b" secondUlid.text
    validName longColl = true ∧ validJsonPath "$.a" = true ∧ validJsonPath "$.b" = true ∧
      ulidSuffix firstUlid.text ≠ ulidSuffix secondUlid.text ∧ ¬FitTogether name name' ∧
      ∀ (sql : IndexSql) (cat : Catalog), (∃ i ∈ cat.indexes.rows, i.name = name) →
        (IndexAct.call (.create ⟨name', longColl, "$.b", false⟩) []).answer sql cat =
          some (.error .internal) := by
  intro name name'
  have hvalid : validName longColl = true := by decide
  have hsame : name = name' := generateIndexName_long hvalid (by decide)
  refine ⟨hvalid, by decide, by decide, by decide, ?_, ?_⟩
  · intro h
    exact h.differ (by rw [hsame])
  · rintro sql cat ⟨i, hi, hname⟩
    exact create_taken hi (by rw [hname, hsame])

/-- Two indexes on the same path of a collection with a short name. -/
theorem index_names_distinct_users :
    FitTogether (generateIndexName "users" "$.email" firstUlid.text)
      (generateIndexName "users" "$.email" secondUlid.text) :=
  (index_names_distinct (by decide) "$.email" "$.email" firstUlid secondUlid).mpr
    (differ_of_room (by decide) (by decide) (by decide))

end TinyLord
