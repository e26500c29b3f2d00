import Mathlib.Data.List.Perm.Basic
import TinyLord.Text

/-!
# The routes, and the path of the admin UI

Where the admin UI is served is configured. The router takes its two routes together with those
of the API, so they must not meet any of these.
-/

namespace TinyLord.Router

/-! ## The configured path -/

/-- `u8::is_ascii_alphanumeric`, `-` or `_`. A character of several bytes has none that passes. -/
def isPathChar (c : Char) : Bool := c.isAlphanum || c == '-' || c == '_'

def validateAdminUiPath (path : Text) : Except String Text :=
  let raw := path.trim
  if raw.head? ≠ some '/' then .error "admin UI path must start with '/'"
  else
    let trimmed := raw.trimMatches '/'
    if trimmed.isEmpty then .error "admin UI path cannot be '/'"
    else if !(trimmed.splitOn '/').all fun segment => !segment.isEmpty && segment.all isPathChar then
      .error "admin UI path may contain only '/', letters, numbers, '-' and '_'"
    else if (trimmed.splitOn '/').head? = some "v1".toList ∨
        trimmed ∈ ["health".toList, "openapi".toList, "tinylord".toList] then
      .error "admin UI path overlaps a reserved TinyLord route"
    else .ok ('/' :: (trimmed ++ ['/']))

/-! ## The router -/

def adminUiRedirectPath (adminUiPath : Text) : Text := adminUiPath.trimEndMatches '/'

/-- What `build_router` registers, in its order. -/
def buildRouter (adminUiPath : Text) : List Text := [
  "/health".toList,
  "/openapi.json".toList,
  "/tinylord.js".toList,
  adminUiRedirectPath adminUiPath,
  adminUiPath,
  "/v1/auth/register".toList,
  "/v1/auth/login".toList,
  "/v1/auth/refresh".toList,
  "/v1/auth/logout".toList,
  "/v1/auth/me".toList,
  "/v1/admin/databases".toList,
  "/v1/admin/databases/{db}".toList,
  "/v1/admin/databases/{db}/snapshot".toList,
  "/v1/admin/principals".toList,
  "/v1/admin/principals/password".toList,
  "/v1/admin/auth/registration".toList,
  "/v1/admin/principals/{id}".toList,
  "/v1/admin/grants".toList,
  "/v1/db/{db}/collections/{coll}/documents".toList,
  "/v1/db/{db}/collections/{coll}/documents/{id}".toList,
  "/v1/db/{db}/collections/{coll}/query".toList,
  "/v1/db/{db}/collections/{coll}/count".toList,
  "/v1/db/{db}/collections/{coll}/indexes".toList,
  "/v1/db/{db}/collections/{coll}/indexes/{name}".toList,
  "/v1/db/{db}/collections/{coll}/subscribe".toList,
  "/v1/db/{db}/channels/{channel}/publish".toList,
  "/v1/db/{db}/channels/{channel}/subscribe".toList,
  "/v1/db/{db}/channels/{channel}/presence".toList,
  "/v1/{*path}".toList]

inductive RouteSegment
  | literal (text : Text)
  | param
  | wildcard
deriving DecidableEq, Repr

def routeSegment (text : Text) : RouteSegment :=
  match text with
  | '{' :: '*' :: _ => .wildcard
  | '{' :: _ => .param
  | _ => .literal text

/-- A parameter stands for one segment and a wildcard for all the rest. Neither is empty. -/
def matchSegments : List RouteSegment → List Text → Bool
  | [], [] => true
  | .literal text :: route, segment :: path => segment == text && matchSegments route path
  | .param :: route, segment :: path => !segment.isEmpty && matchSegments route path
  | .wildcard :: _, segment :: path => !(segment.isEmpty && path.isEmpty)
  | [], _ :: _ => false
  | _ :: _, [] => false

/-- Whether a request for the path reaches the handler of the route. -/
def routeMatches (route path : Text) : Bool :=
  matchSegments ((route.splitOn '/').map routeSegment) (path.splitOn '/')

example : routeMatches "/v1/{*path}".toList "/v1/nothing/here".toList = true ∧
    routeMatches "/v1/admin/databases/{db}".toList "/v1/admin/databases/".toList = false := by decide

/-! ## What is accepted -/

/-- What an accepted path has between its outer slashes. -/
structure Accepted (trimmed : Text) : Prop where
  fixed : trimmed.trimMatches '/' = trimmed
  nonempty : trimmed ≠ []
  segments : ∀ segment ∈ trimmed.splitOn '/',
    segment ≠ [] ∧ ∀ c ∈ segment, isPathChar c = true
  notApi : (trimmed.splitOn '/').head? ≠ some "v1".toList
  notReserved : trimmed ∉ ["health".toList, "openapi".toList, "tinylord".toList]

variable {path stored trimmed : Text}

theorem validateAdminUiPath_eq_ok : validateAdminUiPath path = .ok stored ↔
    path.trim.head? = some '/' ∧ Accepted (path.trim.trimMatches '/') ∧
      stored = '/' :: (path.trim.trimMatches '/' ++ ['/']) := by
  simp only [validateAdminUiPath, ite_eq_iff, List.isEmpty_iff]
  constructor
  · rintro (⟨-, h⟩ | ⟨hslash, ⟨-, h⟩ | ⟨hne, ⟨-, h⟩ | ⟨hall, ⟨-, h⟩ | ⟨hreserved, h⟩⟩⟩⟩)
    all_goals cases h
    rw [not_or] at hreserved
    refine ⟨not_not.mp hslash, ⟨trimMatches_trimMatches _ _, hne, ?_, hreserved.1, hreserved.2⟩,
      rfl⟩
    simpa using hall
  · rintro ⟨hslash, haccepted, rfl⟩
    refine Or.inr ⟨not_not.mpr hslash, Or.inr ⟨haccepted.nonempty, Or.inr ⟨?_, Or.inr ⟨?_, rfl⟩⟩⟩⟩
    · simpa using haccepted.segments
    · exact not_or.mpr ⟨haccepted.notApi, haccepted.notReserved⟩

theorem isPathChar_toNat {c : Char} (h : isPathChar c = true) : 33 ≤ c.toNat ∧ c.toNat < 128 := by
  rw [isPathChar, Bool.or_eq_true, Bool.or_eq_true, beq_iff_eq, beq_iff_eq] at h
  obtain (h | rfl) | rfl := h
  · delta Char.isAlphanum Char.isAlpha Char.isUpper Char.isLower Char.isDigit at h
    simp only [Bool.or_eq_true, Bool.and_eq_true, decide_eq_true_eq, ge_iff_le,
      UInt32.le_iff_toNat_le] at h
    change ((65 ≤ c.toNat ∧ c.toNat ≤ 90) ∨ (97 ≤ c.toNat ∧ c.toNat ≤ 122)) ∨
      (48 ≤ c.toNat ∧ c.toNat ≤ 57) at h
    omega
  all_goals decide

theorem isWhitespace_of_isPathChar {c : Char} (h : isPathChar c = true) :
    isWhitespace c = false := by
  obtain ⟨hlow, hhigh⟩ := isPathChar_toNat h
  simp only [isWhitespace, Bool.or_eq_false_iff, Bool.and_eq_false_iff, decide_eq_false_iff_not,
    beq_eq_false_iff_ne]
  omega

namespace Accepted

theorem chars (h : Accepted trimmed) :
    ∀ c ∈ '/' :: (trimmed ++ ['/']), c = '/' ∨ isPathChar c = true := by
  intro c hc
  rw [List.mem_cons, List.mem_append, List.mem_singleton] at hc
  rcases hc with hc | hc | hc
  · exact Or.inl hc
  · refine (mem_splitOn hc).imp_right ?_
    rintro ⟨segment, hsegment, hmem⟩
    exact (h.segments segment hsegment).2 c hmem
  · exact Or.inl hc

/-- What is stored passes again, and stays as it is. -/
theorem revalidates (h : Accepted trimmed) :
    validateAdminUiPath ('/' :: (trimmed ++ ['/'])) = .ok ('/' :: (trimmed ++ ['/'])) := by
  have htrim : Text.trim ('/' :: (trimmed ++ ['/'])) = '/' :: (trimmed ++ ['/']) := by
    refine trim_eq_self fun c hc => ?_
    rcases h.chars c hc with rfl | hpath
    · decide
    · exact isWhitespace_of_isPathChar hpath
  have hslashes := trimMatches_surround h.fixed h.nonempty
  refine validateAdminUiPath_eq_ok.mpr ?_
  rw [htrim, hslashes]
  exact ⟨rfl, h, rfl⟩

theorem redirectPath (h : Accepted trimmed) :
    adminUiRedirectPath ('/' :: (trimmed ++ ['/'])) = '/' :: trimmed := by
  have hend : trimmed.rdropWhile (· == '/') = trimmed := by
    rw [← h.fixed, Text.trimMatches, List.rdropWhile_idempotent]
  have hlast := List.rdropWhile_eq_self_iff.mp hend h.nonempty
  have hstay : ('/' :: trimmed).rdropWhile (· == '/') = '/' :: trimmed := by
    refine List.rdropWhile_eq_self_iff.mpr fun hne => ?_
    rwa [List.getLast_cons h.nonempty]
  unfold adminUiRedirectPath Text.trimEndMatches
  rw [← List.cons_append, List.rdropWhile_concat_pos _ _ _ (by decide), hstay]

end Accepted

/-! ## The routes of the API -/

def apiRoutes : List Text := (buildRouter []).take 3 ++ (buildRouter []).drop 5

theorem buildRouter_perm (adminUiPath : Text) : (buildRouter adminUiPath).Perm
    (adminUiRedirectPath adminUiPath :: adminUiPath :: apiRoutes) :=
  have hmove (front back : List Text) (a b : Text) :
      (front ++ a :: b :: back).Perm (a :: b :: (front ++ back)) :=
    List.perm_middle.trans (List.perm_middle.cons a)
  hmove ((buildRouter []).take 3) ((buildRouter []).drop 5) _ _

theorem apiRoutes_v1 : ∀ route ∈ apiRoutes, (∃ rest, route = '/' :: 'v' :: '1' :: '/' :: rest) ∨
    route ∈ ["/health".toList, "/openapi.json".toList, "/tinylord.js".toList] := by
  simp only [apiRoutes, buildRouter, List.take, List.drop, List.cons_append, List.nil_append,
    List.forall_mem_cons]
  refine ⟨Or.inr (.head _), Or.inr (.tail _ (.head _)), Or.inr (.tail _ (.tail _ (.head _))), ?_⟩
  repeat refine ⟨Or.inl ⟨_, String.toList_ofList⟩, ?_⟩
  exact List.forall_mem_nil _

theorem take_v1 (rest : Text) :
    (('/' :: 'v' :: '1' :: '/' :: rest).splitOn '/').take 2 = [[], "v1".toList] := by
  have hfront := List.splitOn_append_cons_self (a := '/') ['/', 'v', '1'] rest
  rw [List.cons_append, List.cons_append, List.cons_append, List.nil_append] at hfront
  rw [hfront]
  rfl

theorem apiRoutes_splitOn : ∀ route ∈ apiRoutes,
    (route.splitOn '/').take 2 = [[], "v1".toList] ∨
      route.splitOn '/' ∈ [[[], "health".toList], [[], "openapi.json".toList],
        [[], "tinylord.js".toList]] := by
  intro route hroute
  rcases apiRoutes_v1 route hroute with ⟨rest, rfl⟩ | hname
  · exact Or.inl (take_v1 rest)
  · simp only [List.mem_cons, List.not_mem_nil, or_false] at hname
    rcases hname with rfl | rfl | rfl <;> exact Or.inr (by decide)

theorem matchSegments_literals {texts segments : List Text} :
    matchSegments (texts.map .literal) segments = true ↔ segments = texts := by
  induction texts generalizing segments with
  | nil => cases segments <;> simp [matchSegments]
  | cons text texts ih => cases segments <;> simp [matchSegments, ih]

theorem routeSegment_literal {text : Text} (h : text.head? ≠ some '{') :
    routeSegment text = .literal text := by
  unfold routeSegment
  split
  · exact absurd rfl h
  · exact absurd rfl h
  · rfl

/-- A route without parameters matches itself and nothing else. -/
theorem routeMatches_literal {route : Text}
    (h : ∀ segment ∈ route.splitOn '/', segment.head? ≠ some '{') :
    routeMatches route path = true ↔ path = route := by
  have hliteral : (route.splitOn '/').map routeSegment = (route.splitOn '/').map .literal :=
    List.map_congr_left fun segment hsegment => routeSegment_literal (h segment hsegment)
  rw [routeMatches, hliteral, matchSegments_literals]
  refine ⟨fun heq => ?_, fun heq => heq ▸ rfl⟩
  have hjoin : ['/'].intercalate (path.splitOn '/') = path := List.intercalate_splitOn '/'
  rw [← hjoin, heq, List.intercalate_splitOn]

theorem matchSegments_literal {text segment : Text} {route : List RouteSegment}
    {segments : List Text} (h : segment ≠ text) :
    matchSegments (.literal text :: route) (segment :: segments) = false := by
  rw [matchSegments, beq_eq_false_iff_ne.mpr h, Bool.false_and]

/-- Segments that no route of the API has. -/
structure Apart (segments : List Text) : Prop where
  nonempty : segments ≠ []
  notApi : segments.head? ≠ some "v1".toList
  notName : segments ∉ [["health".toList], ["openapi.json".toList], ["tinylord.js".toList]]

theorem Apart.no_match {segments : List Text} (h : Apart segments)
    (hpath : path.splitOn '/' = [] :: segments) {route : Text} (hroute : route ∈ apiRoutes) :
    route ≠ path ∧ routeMatches route path = false := by
  rcases apiRoutes_splitOn route hroute with hapi | hname
  · obtain ⟨rest, hrest⟩ : ∃ rest, route.splitOn '/' = [] :: "v1".toList :: rest :=
      ⟨_, (List.take_append_drop 2 _).symm.trans (congrArg (· ++ _) hapi)⟩
    obtain ⟨segment, more, rfl⟩ := List.exists_cons_of_ne_nil h.nonempty
    have hv1 : segment ≠ "v1".toList := fun heq => h.notApi (congrArg some heq)
    refine ⟨?_, ?_⟩
    · rintro rfl
      rw [hpath] at hrest
      exact hv1 (List.cons.inj (List.cons.inj hrest).2).1
    · rw [routeMatches, hpath, hrest]
      exact (Bool.true_and _).trans (matchSegments_literal hv1)
  · have hne : path ≠ route := by
      rintro rfl
      rw [hpath] at hname
      exact h.notName (by simpa using hname)
    have hplain : ∀ segment ∈ route.splitOn '/', segment.head? ≠ some '{' := by
      simp only [List.mem_cons, List.not_mem_nil, or_false] at hname
      rcases hname with hname | hname | hname <;> rw [hname] <;> decide
    refine ⟨hne.symm, ?_⟩
    rw [← Bool.not_eq_true, routeMatches_literal hplain]
    exact hne

/-! ## The two routes of the admin UI -/

theorem Accepted.apart (h : Accepted trimmed) :
    Apart (trimmed.splitOn '/') ∧ Apart (trimmed.splitOn '/' ++ [[]]) := by
  have hne := List.splitOn_ne_nil '/' trimmed
  have hsingle : ∀ text : Text, trimmed.splitOn '/' = [text] →
      trimmed = text ∧ ∀ c ∈ text, isPathChar c = true := by
    intro text hsplit
    refine ⟨?_, (h.segments text (hsplit ▸ List.mem_cons_self)).2⟩
    have hjoin : ['/'].intercalate (trimmed.splitOn '/') = trimmed := List.intercalate_splitOn '/'
    rw [← hjoin, hsplit, List.intercalate_singleton]
  have hnone : ∀ text : Text, trimmed.splitOn '/' ++ [[]] ≠ [text] := by
    intro text heq
    have hlength := congrArg List.length heq
    have hpos := List.length_pos_iff.mpr hne
    rw [List.length_append, List.length_singleton, List.length_singleton] at hlength
    omega
  refine ⟨⟨hne, h.notApi, ?_⟩, ⟨by simp, ?_, ?_⟩⟩
  · simp only [List.mem_cons, List.not_mem_nil, or_false]
    rintro (hname | hname | hname)
    · exact h.notReserved ((hsingle _ hname).1 ▸ List.mem_cons_self)
    · exact absurd ((hsingle _ hname).2 '.' (by decide)) (by decide)
    · exact absurd ((hsingle _ hname).2 '.' (by decide)) (by decide)
  · rw [List.head?_append_of_ne_nil _ hne]
    exact h.notApi
  · simp only [List.mem_cons, List.not_mem_nil, or_false]
    rintro (hname | hname | hname) <;> exact hnone _ hname

theorem Accepted.literal (h : Accepted trimmed) :
    ∀ route ∈ ['/' :: trimmed, '/' :: (trimmed ++ ['/'])],
      ∀ segment ∈ route.splitOn '/', segment.head? ≠ some '{' := by
  have hsegment : ∀ segment ∈ trimmed.splitOn '/', segment.head? ≠ some '{' := by
    intro segment hmem hhead
    have hbrace := (h.segments segment hmem).2 '{' (List.mem_of_head? hhead)
    exact absurd hbrace (by decide)
  simp only [List.mem_cons, List.not_mem_nil, or_false]
  rintro route (rfl | rfl) segment hmem
  · rw [splitOn_cons, List.mem_cons] at hmem
    rcases hmem with rfl | hmem
    · exact nofun
    · exact hsegment segment hmem
  · rw [splitOn_surround, List.mem_cons, List.mem_append, List.mem_singleton] at hmem
    rcases hmem with rfl | hmem | rfl
    · exact nofun
    · exact hsegment segment hmem
    · exact nofun

theorem Accepted.no_match (h : Accepted trimmed) :
    ∀ path ∈ ['/' :: trimmed, '/' :: (trimmed ++ ['/'])],
      ∀ route ∈ (buildRouter ('/' :: (trimmed ++ ['/']))).erase path,
        route ≠ path ∧ routeMatches route path = false := by
  have hperm := buildRouter_perm ('/' :: (trimmed ++ ['/']))
  rw [h.redirectPath] at hperm
  have hdiffer : ('/' :: trimmed : Text) ≠ '/' :: (trimmed ++ ['/']) := by simp
  have hother : ∀ path route : Text, route ∈ ['/' :: trimmed, '/' :: (trimmed ++ ['/'])] →
      path ≠ route → route ≠ path ∧ routeMatches route path = false := by
    intro path route hroute hne
    refine ⟨hne.symm, ?_⟩
    rw [← Bool.not_eq_true, routeMatches_literal (h.literal route hroute)]
    exact hne
  simp only [List.mem_cons, List.not_mem_nil, or_false]
  rintro path (rfl | rfl) route hroute
  · rw [(hperm.erase _).mem_iff, List.erase_cons_head, List.mem_cons] at hroute
    rcases hroute with rfl | hroute
    · exact hother _ _ (by simp) hdiffer
    · exact h.apart.1.no_match (splitOn_cons '/' trimmed) hroute
  · rw [(hperm.erase _).mem_iff, List.erase_cons_tail (by simp),
      List.erase_cons_head, List.mem_cons] at hroute
    rcases hroute with rfl | hroute
    · exact hother _ _ (by simp) hdiffer.symm
    · exact h.apart.2.no_match (splitOn_surround '/' trimmed) hroute

/-- An accepted path stands between two slashes as segments of plain characters. It is accepted
again unchanged, and no other route is the same as one of its two, or takes a request for it. -/
theorem admin_ui_path_apart (h : validateAdminUiPath path = .ok stored) :
    (∃ segments : List Text, segments ≠ [] ∧
      (∀ segment ∈ segments, segment ≠ [] ∧ ∀ c ∈ segment, isPathChar c = true) ∧
      stored = '/' :: (['/'].intercalate segments ++ ['/'])) ∧
    validateAdminUiPath stored = .ok stored ∧
    ∀ path ∈ [adminUiRedirectPath stored, stored],
      ∀ route ∈ (buildRouter stored).erase path,
        route ≠ path ∧ routeMatches route path = false := by
  obtain ⟨-, haccepted, rfl⟩ := validateAdminUiPath_eq_ok.mp h
  refine ⟨⟨_, List.splitOn_ne_nil '/' _, haccepted.segments, ?_⟩, haccepted.revalidates, ?_⟩
  · rw [List.intercalate_splitOn]
  · rw [haccepted.redirectPath]
    exact haccepted.no_match

theorem admin_ui_path_apart_panel :
    validateAdminUiPath " //v1x/admin-ui/".toList = .ok "/v1x/admin-ui/".toList ∧
      ∀ route ∈ (buildRouter "/v1x/admin-ui/".toList).erase "/v1x/admin-ui/".toList,
        routeMatches route "/v1x/admin-ui/".toList = false := by
  have hok : validateAdminUiPath " //v1x/admin-ui/".toList = .ok "/v1x/admin-ui/".toList := rfl
  refine ⟨hok, fun route hroute => ?_⟩
  exact ((admin_ui_path_apart hok).2.2 _ (by simp) route hroute).2

end TinyLord.Router
